import CodeAtlas.Proofs.SymbolIndex.References
import CodeAtlas.Proofs.SymbolIndex.Truncation

/-!
# The order of documents

An index tells of its files in some order. If no file has two documents, no symbol is defined in two of them and other coordinates have
other ids, the order does not matter: what is found first is found in one document only, and the entities of a line are told by
what the file holds, not by when it came.
-/

namespace CodeAtlas

/-- What at most one of several lists has is the same to be found in them in any order. -/
theorem find?_flatMap_of_perm {α β : Type} {f : α → List β} {p : β → Bool} {xs ys : List α} (h : xs.Perm ys)
    (hone : ∀ a ∈ xs, ∀ b ∈ xs, ∀ x ∈ f a, ∀ y ∈ f b, p x = true → p y = true → a = b) :
    (xs.flatMap f).find? p = (ys.flatMap f).find? p := by
  induction h with
  | nil => rfl
  | cons a _ ih =>
    have hone' := ih fun b hb c hc => hone b (List.mem_cons_of_mem a hb) c (List.mem_cons_of_mem a hc)
    rw [List.flatMap_cons, List.flatMap_cons, List.find?_append, List.find?_append, hone']
  | swap a b xs =>
    simp only [List.flatMap_cons, List.find?_append]
    cases ha : (f a).find? p with
    | none => rw [Option.none_or, Option.none_or]
    | some x =>
      cases hb : (f b).find? p with
      | none => rfl
      | some y =>
        have hab := hone a (by simp) b (by simp) x (List.mem_of_find?_eq_some ha) y (List.mem_of_find?_eq_some hb)
          (List.find?_some ha) (List.find?_some hb)
        rw [hab] at ha
        rw [Option.some.inj (ha.symm.trans hb)]
  | trans h₁ _ ih₁ ih₂ =>
    refine (ih₁ hone).trans (ih₂ fun a ha b hb => ?_)
    exact hone a (h₁.mem_iff.2 ha) b (h₁.mem_iff.2 hb)

namespace IndexedSymbols

/-- No symbol is defined in two of the documents. Symbols that are local to a file, and symbols that say nothing, do not count. -/
def DefinedOnce (docs : List Document) : Prop :=
  ∀ d ∈ docs, ∀ d' ∈ docs, ∀ o ∈ d.occurrences, ∀ o' ∈ d'.occurrences,
    o.isDefinition = true → o'.isDefinition = true → o.symbol = o'.symbol → Descriptor.isLocal o.symbol = false →
      (Descriptor.ofSymbol o.symbol).isSome = true → d = d'

/-- Whether symbols are defined once is decided pair by pair. -/
instance (docs : List Document) : Decidable (DefinedOnce docs) :=
  inferInstanceAs (Decidable (∀ d ∈ docs, ∀ d' ∈ docs, ∀ o ∈ d.occurrences, ∀ o' ∈ d'.occurrences,
    o.isDefinition = true → o'.isDefinition = true → o.symbol = o'.symbol → Descriptor.isLocal o.symbol = false →
      (Descriptor.ofSymbol o.symbol).isSome = true → d = d'))

variable {place : Place} {docs docs' : List Document} {d d' : Document}

/-- A definition of a document is that of one of its occurrences. -/
theorem exists_of_mem_definitionsIn {x : Definition} (h : x ∈ definitionsIn place d) :
    ∃ o ∈ d.occurrences, o.isDefinition = true ∧ Descriptor.isLocal o.symbol = false ∧
      ∃ y, Descriptor.ofSymbol o.symbol = some y ∧ x = ⟨o.symbol, entityOf place ⟨place.path d.path, o⟩ y⟩ := by
  obtain ⟨s, hs, hx⟩ := List.mem_filterMap.1 h
  obtain ⟨o, ho, rfl⟩ := List.mem_map.1 hs
  obtain ⟨ho, hlocal⟩ := List.mem_filter.1 ho
  obtain ⟨hdef, y, hy, rfl⟩ := definition?_eq_some_iff.1 hx
  exact ⟨o, ho, hdef, by simpa using hlocal, y, hy, rfl⟩

/-- A definition of a document is one of all. -/
theorem mem_definitions_of_mem {x : Definition} (hd : d ∈ docs) (h : x ∈ definitionsIn place d) : x ∈ definitions place docs :=
  definitions_eq place docs ▸ List.mem_flatMap.2 ⟨d, hd, h⟩

/-- A symbol is defined in one document. -/
theorem DefinedOnce.document_eq (h : DefinedOnce docs) (hd : d ∈ docs) (hd' : d' ∈ docs) {x y : Definition}
    (hx : x ∈ definitionsIn place d) (hy : y ∈ definitionsIn place d') (hsymbol : x.symbol = y.symbol) : d = d' := by
  obtain ⟨o, ho, hdef, hlocal, z, hz, rfl⟩ := exists_of_mem_definitionsIn hx
  obtain ⟨o', ho', hdef', -, z', hz', rfl⟩ := exists_of_mem_definitionsIn hy
  exact h d hd d' hd' o ho o' ho' hdef hdef' hsymbol hlocal (Option.isSome_of_eq_some hz)

/-- Documents with paths of their own are told by them. -/
theorem document_eq_of_path_eq (h : (docs.map (·.path)).Nodup) (hd : d ∈ docs) (hd' : d' ∈ docs)
    (hpath : place.path d.path = place.path d'.path) : d = d' :=
  List.inj_on_of_nodup_map h hd hd' (place.path_injective hpath)

/-- An id is that of definitions in one document. -/
theorem TellsApart.document_eq (h : TellsApart place docs) (hpaths : (docs.map (·.path)).Nodup) (hd : d ∈ docs) (hd' : d' ∈ docs)
    {x y : Definition} (hx : x ∈ definitionsIn place d) (hy : y ∈ definitionsIn place d') (hid : x.entity.id = y.entity.id) :
    d = d' := by
  have hcoordinates : x.entity.coordinates = y.entity.coordinates := Decidable.not_not.1 fun hne =>
    h x (mem_definitions_of_mem hd hx) y (mem_definitions_of_mem hd' hy) hne hid
  obtain ⟨o, -, -, -, z, -, rfl⟩ := exists_of_mem_definitionsIn hx
  obtain ⟨o', -, -, -, z', -, rfl⟩ := exists_of_mem_definitionsIn hy
  simp only [Entity.coordinates, Identity.entityParts, List.cons.injEq] at hcoordinates
  exact document_eq_of_path_eq hpaths hd hd' hcoordinates.2.1

/-! ## Entities and targets -/

/-- An entity is kept if it is the first one with its id. -/
theorem mem_entities_ofDocuments_iff {e : Entity} :
    e ∈ (ofDocuments place docs).entities ↔
      ((docs.flatMap (definitionsIn place)).find? fun x => x.entity.id == e.id).map (·.entity) = some e := by
  rw [← definitions_eq]
  refine Calls.mem_firstByKey_iff.trans ?_
  rw [List.find?_map]
  rfl

/-- The same entities are kept in another order, if paths occur once and other coordinates have other ids. -/
theorem mem_entities_of_perm (h : docs.Perm docs') (hpaths : (docs.map (·.path)).Nodup) (hids : TellsApart place docs) (e : Entity) :
    e ∈ (ofDocuments place docs).entities ↔ e ∈ (ofDocuments place docs').entities := by
  rw [mem_entities_ofDocuments_iff, mem_entities_ofDocuments_iff, find?_flatMap_of_perm h]
  intro d hd d' hd' x hx y hy hid hid'
  exact hids.document_eq hpaths hd hd' hx hy ((beq_iff_eq.1 hid).trans (beq_iff_eq.1 hid').symm)

/-- A symbol has the same target in another order, if it is defined once. -/
theorem target?_of_perm (h : docs.Perm docs') (hsymbols : DefinedOnce docs) (symbol : String) :
    target? (definitions place docs) symbol = target? (definitions place docs') symbol := by
  rw [target?, target?, definitions_eq, definitions_eq, find?_flatMap_of_perm h]
  intro d hd d' hd' x hx y hy hsymbol hsymbol'
  exact hsymbols.document_eq hd hd' hx hy ((beq_iff_eq.1 hsymbol).trans (beq_iff_eq.1 hsymbol').symm)

/-! ## Edges -/

/-- Which entity a line belongs to depends on which entities there are, and not on their order. -/
theorem container?_congr {entities entities' : List Entity} (h : ∀ e, e ∈ entities ↔ e ∈ entities') (path : String) (line : Int) :
    container? (rowsOf entities path) line = container? (rowsOf entities' path) line := by
  have hlatest : ∀ e, IsLatest entities path line e ↔ IsLatest entities' path line e := fun e =>
    ⟨fun he => ⟨(h e).1 he.mem, he.filePath, he.begun, fun e' he' => he.last e' ((h e').2 he')⟩,
      fun he => ⟨(h e).2 he.mem, he.filePath, he.begun, fun e' he' => he.last e' ((h e').1 he')⟩⟩
  refine Option.ext fun id => ?_
  simp only [container?_rowsOf_eq_some_iff, hlatest]

/-- A site has the same link in another order. -/
theorem referenceIn?_of_perm (h : docs.Perm docs') (hpaths : (docs.map (·.path)).Nodup) (hsymbols : DefinedOnce docs)
    (hids : TellsApart place docs) : referenceIn? place docs = referenceIn? place docs' := by
  funext s
  unfold referenceIn? reference?
  rw [target?_of_perm h hsymbols, container?_congr (mem_entities_of_perm h hpaths hids)]

/-- The references that lead from one entity are in one document. -/
theorem document_eq_of_fromId_eq (hpaths : (docs.map (·.path)).Nodup) (hd : d ∈ docs) (hd' : d' ∈ docs) {s s' : Site}
    (hs : s ∈ sitesIn place d) (hs' : s' ∈ sitesIn place d') {e e' : Edge} (he : referenceIn? place docs s = some e)
    (he' : referenceIn? place docs s' = some e') (hfrom : e.fromId = e'.fromId) : d = d' := by
  obtain ⟨t, ht⟩ := exists_of_reference? he
  obtain ⟨t', ht'⟩ := exists_of_reference? he'
  obtain ⟨c, hc, hid, hpath, -⟩ := exists_of_container? ht.container
  obtain ⟨c', hc', hid', hpath', -⟩ := exists_of_container? ht'.container
  have hsame : c = c' := eq_of_id_eq hc hc' (hid.trans (hfrom.trans hid'.symm))
  rw [(mem_sitesIn.1 hs).2.2] at hpath
  rw [(mem_sitesIn.1 hs').2.2] at hpath'
  exact document_eq_of_path_eq hpaths hd hd' (hpath.symm.trans (hsame ▸ hpath'))

/-- A link is kept if it is the first one between its ends. -/
theorem mem_edges_ofDocuments_iff {e : Edge} :
    e ∈ (ofDocuments place docs).edges ↔
      (docs.flatMap fun d => (sitesIn place d).filterMap (referenceIn? place docs)).find? (fun e' => ends e' == ends e) = some e := by
  rw [edges_ofDocuments, Calls.mem_firstByKey_iff, sites_eq, List.filterMap_flatMap]

/-- Documents in another order give the same entities and the same edges, if no file has two of them, no symbol is defined in two of them,
and other coordinates have other ids. -/
theorem graph_of_perm (place : Place) {docs docs' : List Document} (h : docs.Perm docs') (hpaths : (docs.map (·.path)).Nodup)
    (hsymbols : DefinedOnce docs) (hids : TellsApart place docs) :
    (∀ e, e ∈ (ofDocuments place docs).entities ↔ e ∈ (ofDocuments place docs').entities) ∧
      ∀ e, e ∈ (ofDocuments place docs).edges ↔ e ∈ (ofDocuments place docs').edges := by
  refine ⟨mem_entities_of_perm h hpaths hids, fun e => ?_⟩
  rw [mem_edges_ofDocuments_iff, mem_edges_ofDocuments_iff, ← referenceIn?_of_perm h hpaths hsymbols hids, find?_flatMap_of_perm h]
  intro d hd d' hd' x hx y hy hends hends'
  obtain ⟨s, hs, hx⟩ := List.mem_filterMap.1 hx
  obtain ⟨s', hs', hy⟩ := List.mem_filterMap.1 hy
  have hsame : ends x = ends y := (beq_iff_eq.1 hends).trans (beq_iff_eq.1 hends').symm
  exact document_eq_of_fromId_eq hpaths hd hd' hs hs' hx hy (congrArg Prod.fst hsame)

/-- Two files that call each other, and a class that one of them mentions. -/
def mutualCalls : List Document :=
  [⟨"a.go", [⟨[0, 5, 6], "s p F().", 1, [0, 0, 4, 1]⟩, ⟨[2, 1, 2], "s p G().", 0, []⟩, ⟨[3, 1, 2], "local 1", 1, []⟩]⟩,
    ⟨"b.go", [⟨[7, 5, 6], "s p G().", 1, []⟩, ⟨[8, 1, 2], "s p F().", 0, []⟩, ⟨[8, 4, 5], "s p C#", 0, []⟩]⟩,
    ⟨"c.go", [⟨[0, 5, 6], "s p C#", 1, []⟩]⟩]

/-- Its three edges are found whichever file comes first. -/
theorem mutualCalls_reversed :
    mutualCalls.Perm mutualCalls.reverse ∧ (mutualCalls.map (·.path)).Nodup ∧ DefinedOnce mutualCalls ∧
      TellsApart inRepository mutualCalls ∧ (ofDocuments inRepository mutualCalls).edges.length = 3 ∧
        (∀ e, e ∈ (ofDocuments inRepository mutualCalls).entities ↔ e ∈ (ofDocuments inRepository mutualCalls.reverse).entities) ∧
          ∀ e, e ∈ (ofDocuments inRepository mutualCalls).edges ↔ e ∈ (ofDocuments inRepository mutualCalls.reverse).edges := by
  have hperm : mutualCalls.Perm mutualCalls.reverse := (List.reverse_perm mutualCalls).symm
  have hpaths : (mutualCalls.map (·.path)).Nodup := by decide
  have hsymbols : DefinedOnce mutualCalls := by decide
  have hids : TellsApart inRepository mutualCalls := by decide +kernel
  exact ⟨hperm, hpaths, hsymbols, hids, by decide +kernel, graph_of_perm inRepository hperm hpaths hsymbols hids⟩

end IndexedSymbols

end CodeAtlas
