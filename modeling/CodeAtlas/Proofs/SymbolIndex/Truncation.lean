import CodeAtlas.Proofs.SymbolIndex.WellFormed

/-!
# Indexes that break off

What is left of an index that breaks off holds the first of its documents, and gives the first of its entities. If every file has one
document, the references in these documents lead where they led before: an end of an index that is missing takes references away and
changes none. Only where two definitions in different files have one id may the kind of the link to it change.
-/

namespace CodeAtlas

/-- The documents of a cut index are the first documents of the whole one. -/
theorem Document.decodeAll_take (index : List UInt8) (n : Nat) : decodeAll (index.take n) <+: decodeAll index := by
  have hread : (Wire.fields ⟨0, index.take n⟩).read <+: (Wire.fields ⟨0, index.take n ++ index.drop n⟩).read :=
    Wire.read_prefix_append ⟨0, index.take n⟩ (index.drop n)
  rw [List.take_append_drop] at hread
  exact hread.filterMap ofField

namespace IndexedSymbols

variable {place : Place} {docs more : List Document}

/-- The mentions of two lists of documents are the mentions of the one followed by those of the other. -/
theorem sites_append (place : Place) (docs more : List Document) : sites place (docs ++ more) = sites place docs ++ sites place more :=
  List.flatMap_append

/-- The definitions of two lists of documents are the definitions of the one followed by those of the other. -/
theorem definitions_append (place : Place) (docs more : List Document) :
    definitions place (docs ++ more) = definitions place docs ++ definitions place more := by
  rw [definitions, sites_append, List.filterMap_append]
  rfl

/-- Documents that are added leave the entities as they are, and may add some of their own. -/
theorem entities_append (place : Place) (docs more : List Document) :
    ∃ added, (ofDocuments place (docs ++ more)).entities = (ofDocuments place docs).entities ++ added ∧
      added.Sublist ((definitions place more).map (·.entity)) := by
  show ∃ added, Calls.firstByKey Entity.id ((definitions place (docs ++ more)).map (·.entity)) = _ ∧ _
  rw [definitions_append, List.map_append]
  exact Calls.firstByKey_append _ _

/-- A symbol that is resolved keeps its target when definitions are added behind. -/
theorem target?_append_of_some {defs : List Definition} {symbol : String} {e : Entity} (h : target? defs symbol = some e)
    (added : List Definition) : target? (defs ++ added) symbol = some e := by
  unfold target? at h ⊢
  obtain ⟨d, hd, rfl⟩ := Option.map_eq_some_iff.1 h
  rw [List.find?_append, hd]
  rfl

/-- Of the files of some documents, no added document is one. -/
def Apart (docs more : List Document) : Prop := ∀ d ∈ docs, ∀ d' ∈ more, d.path ≠ d'.path

/-- A definition of the added documents is in none of the files of the first ones. -/
theorem filePath_ne_of_mem_definitions (h : Apart docs more) {d : Document} (hd : d ∈ docs) {x : Definition}
    (hx : x ∈ definitions place more) : x.entity.filePath ≠ place.path d.path := by
  obtain ⟨d', hd', o, y, -, rfl⟩ := exists_of_mem_definitions hx
  exact fun e => h d hd d' hd' (place.path_injective e).symm

/-- The entities of a file are those of its document, whatever other files there are. -/
theorem rowsOf_append (h : Apart docs more) {d : Document} (hd : d ∈ docs) :
    rowsOf (ofDocuments place (docs ++ more)).entities (place.path d.path) =
      rowsOf (ofDocuments place docs).entities (place.path d.path) := by
  obtain ⟨added, hentities, hsub⟩ := entities_append place docs more
  have hnone : added.filter (fun e => e.filePath == place.path d.path) = [] := by
    rw [List.filter_eq_nil_iff]
    intro e he hpath
    obtain ⟨x, hx, rfl⟩ := List.mem_map.1 (hsub.mem he)
    exact filePath_ne_of_mem_definitions h hd hx (beq_iff_eq.1 hpath)
  rw [rowsOf, hentities, List.filter_append, hnone, List.append_nil, rowsOf]

/-- A reference to a symbol that the documents define is the same when other files are added. -/
theorem referenceIn?_append (h : Apart docs more) {s : Site} (hs : s ∈ sites place docs) :
    referenceIn? place docs s = referenceIn? place (docs ++ more) s ∨
      referenceIn? place docs s = none ∧ target? (definitions place docs) s.occurrence.symbol = none := by
  obtain ⟨d, hd, hoccurrence⟩ := List.mem_flatMap.1 hs
  obtain ⟨o, -, rfl⟩ := List.mem_map.1 hoccurrence
  have hrows : rowsOf (ofDocuments place (docs ++ more)).entities (place.path d.path) = _ := rowsOf_append h hd
  unfold referenceIn? reference?
  split
  · exact Or.inl rfl
  · cases htarget : target? (definitions place docs) o.symbol with
    | none => exact Or.inr ⟨rfl, rfl⟩
    | some t =>
      rw [definitions_append, target?_append_of_some htarget, hrows]
      exact Or.inl rfl

/-- Where `g` has the results of `f` and more, the first of a kind in a longer list is that of the shorter one, or one that `f`
lacks. -/
theorem find?_filterMap_append {α β : Type} {f g : α → Option β} {p : β → Bool} {xs : List α} {b : β} (ys : List α)
    (hfg : ∀ x ∈ xs, f x = g x ∨ f x = none) (h : (xs.filterMap f).find? p = some b) :
    ∃ b', ((xs ++ ys).filterMap g).find? p = some b' ∧ (b' = b ∨ ∃ x ∈ xs, f x = none ∧ g x = some b') := by
  have hmore : ∀ x ∈ xs, (f x).any p = true → (g x).any p = true := by
    intro x hx hp
    rcases hfg x hx with e | e
    · exact e ▸ hp
    · rw [e] at hp
      nomatch hp
  rw [List.find?_filterMap] at h
  obtain ⟨x, hx, hfx⟩ := Option.bind_eq_some_iff.1 h
  have hpx := List.find?_some hx
  have hxs := List.mem_of_find?_eq_some hx
  have hsome : (xs.find? fun x => (g x).any p).isSome = true := List.find?_isSome.2 ⟨x, hxs, hmore x hxs hpx⟩
  obtain ⟨y, hy⟩ := Option.isSome_iff_exists.1 hsome
  obtain ⟨hpy, before, after, hsplit, hbefore⟩ := List.find?_eq_some_iff_append.1 hy
  have hys := List.mem_of_find?_eq_some hy
  obtain ⟨b', hgy, -⟩ := (Option.any_eq_true p (g y)).1 hpy
  refine ⟨b', ?_, ?_⟩
  · rw [List.find?_filterMap, List.find?_append, hy]
    exact hgy
  rcases hfg y hys with e | e
  · have hfirst : xs.find? (fun x => (f x).any p) = some y := by
      refine List.find?_eq_some_iff_append.2 ⟨e ▸ hpy, before, after, hsplit, fun x' hx' => ?_⟩
      have hx's : x' ∈ xs := hsplit ▸ List.mem_append_left _ hx'
      rw [Bool.not_eq_true', ← Bool.not_eq_true]
      intro hp
      have hnot := hbefore x' hx'
      rw [hmore x' hx's hp] at hnot
      nomatch hnot
    have hxy : x = y := Option.some.inj (hx.symm.trans hfirst)
    subst hxy
    exact Or.inl (Option.some.inj (hgy.symm.trans (e ▸ hfx)))
  · exact Or.inr ⟨y, hys, e, hgy⟩

/-- A definition of the kept documents has the same id as one in a file that is not among theirs, and one of the two can be called while
the other cannot. -/
def SharesId (place : Place) (kept all : List Document) (id : String) : Prop :=
  ∃ x ∈ definitions place kept, ∃ y ∈ definitions place all, x.entity.id = id ∧ y.entity.id = id ∧
    (∀ d ∈ kept, y.entity.filePath ≠ place.path d.path) ∧ x.entity.kind.isCallable ≠ y.entity.kind.isCallable

/-- A link between two entities stays when other files are added, and so does its kind unless the id of its target is shared. -/
theorem exists_edge_append (h : Apart docs more) {e : Edge} (he : e ∈ (ofDocuments place docs).edges) :
    ∃ e' ∈ (ofDocuments place (docs ++ more)).edges, e'.fromId = e.fromId ∧ e'.toId = e.toId ∧
      (e'.kind = e.kind ∨ SharesId place docs (docs ++ more) e.toId) := by
  have hagree : ∀ s ∈ sites place docs,
      referenceIn? place docs s = referenceIn? place (docs ++ more) s ∨ referenceIn? place docs s = none :=
    fun s hs => (referenceIn?_append h hs).imp_right And.left
  rw [edges_ofDocuments, Calls.mem_firstByKey_iff] at he
  obtain ⟨e', hfind, hcase⟩ := find?_filterMap_append (sites place more) hagree he
  have hkey := List.find?_some hfind
  have hends : ends e' = ends e := beq_iff_eq.1 hkey
  have hmem : e' ∈ (ofDocuments place (docs ++ more)).edges := by
    rw [edges_ofDocuments, Calls.mem_firstByKey_iff, sites_append, hends]
    exact hfind
  refine ⟨e', hmem, congrArg Prod.fst hends, congrArg Prod.snd hends, ?_⟩
  rcases hcase with rfl | ⟨s, hs, hnone, hsome⟩
  · exact Or.inl rfl
  obtain ⟨s₀, -, href⟩ := List.mem_filterMap.1 (List.mem_of_find?_eq_some he)
  obtain ⟨t, ht⟩ := exists_of_reference? href
  obtain ⟨x, hx, rfl, -⟩ := exists_of_target? ht.target
  obtain ⟨t', ht'⟩ := exists_of_reference? hsome
  obtain ⟨y, hy, rfl, hsymbol⟩ := exists_of_target? ht'.target
  have htoId : e'.toId = e.toId := congrArg Prod.snd hends
  by_cases hkind : x.entity.kind.isCallable = y.entity.kind.isCallable
  · exact Or.inl (by rw [ht'.kind, ht.kind, hkind])
  refine Or.inr ⟨x, hx, y, hy, ht.toId.symm, ht'.toId.symm.trans htoId, ?_, hkind⟩
  have hundefined : target? (definitions place docs) s.occurrence.symbol = none := by
    rcases referenceIn?_append h hs with e | ⟨-, e⟩
    · exact nomatch hnone.symm.trans (e.trans hsome)
    · exact e
  rw [definitions_append, List.mem_append] at hy
  rcases hy with hy | hy
  · have hnot := List.find?_eq_none.1 (Option.map_eq_none_iff.1 hundefined) y hy
    exact absurd (beq_iff_eq.2 hsymbol) hnot
  · exact fun d hd => filePath_ne_of_mem_definitions h hd hy

/-- Documents of different paths are apart. -/
theorem apart_of_nodup (h : ((docs ++ more).map (·.path)).Nodup) : Apart docs more := by
  rw [List.map_append, List.nodup_append] at h
  exact fun d hd d' hd' => h.2.2 _ (List.mem_map_of_mem hd) _ (List.mem_map_of_mem hd')

/-- An index that breaks off gives the first of its documents and the first of its entities. If no file has two documents, it gives no
link that the whole index does not have; the kind of a link is that of the whole index, unless the id of its target is also that of a
definition in a file that is missing. -/
theorem truncation_only_loses (place : Place) (index : List UInt8) (n : Nat) :
    Document.decodeAll (index.take n) <+: Document.decodeAll index ∧
      (ofIndex place (index.take n)).entities <+: (ofIndex place index).entities ∧
        (((Document.decodeAll index).map (·.path)).Nodup →
          ∀ e ∈ (ofIndex place (index.take n)).edges, ∃ e' ∈ (ofIndex place index).edges,
            e'.fromId = e.fromId ∧ e'.toId = e.toId ∧
              (e'.kind = e.kind ∨
                SharesId place (Document.decodeAll (index.take n)) (Document.decodeAll index) e.toId)) := by
  have hprefix := Document.decodeAll_take index n
  obtain ⟨more, hmore⟩ := hprefix
  unfold ofIndex
  rw [← hmore]
  obtain ⟨added, hentities, -⟩ := entities_append place (Document.decodeAll (index.take n)) more
  refine ⟨List.prefix_append _ _, ⟨added, hentities.symm⟩, fun hnodup e he => exists_edge_append (apart_of_nodup hnodup) he⟩

/-- A method, a class that mentions another class and calls the method, and that other class. The coordinates of the method and of the
class that is mentioned read the same when they are put one after the other, so their ids are the same. -/
def confusable : List Document :=
  [⟨"x\x00class\x00f()", [⟨[0, 0, 1], "s a/f().", 1, []⟩]⟩,
    ⟨"y", [⟨[0, 0, 1], "s C#", 1, []⟩, ⟨[1, 0, 1], "s method\x00f\x00a/f()#", 0, []⟩, ⟨[2, 0, 1], "s a/f().", 0, []⟩]⟩,
    ⟨"x", [⟨[0, 0, 1], "s method\x00f\x00a/f()#", 1, []⟩]⟩]

/-- The number of bytes of that index before the file of the other class. -/
def cut : Nat := (bytesOf (confusable.take 2)).length

/-- Cut there, the index has one link, a call. The whole index has the link too, though not as a call. -/
theorem link_kept_at_shared_id :
    ((Document.decodeAll (bytesOf confusable)).map (·.path)).Nodup ∧
      ∃ e ∈ (ofIndex inRepository ((bytesOf confusable).take cut)).edges, e.kind = .calls ∧
        ∃ e' ∈ (ofIndex inRepository (bytesOf confusable)).edges, e'.fromId = e.fromId ∧ e'.toId = e.toId ∧
          (e'.kind = e.kind ∨ SharesId inRepository (Document.decodeAll ((bytesOf confusable).take cut))
            (Document.decodeAll (bytesOf confusable)) e.toId) := by
  have hnodup : ((Document.decodeAll (bytesOf confusable)).map (·.path)).Nodup := by decide +kernel
  have hcall : ∃ e ∈ (ofIndex inRepository ((bytesOf confusable).take cut)).edges, e.kind = .calls := by decide +kernel
  obtain ⟨e, he, hkind⟩ := hcall
  exact ⟨hnodup, e, he, hkind, (truncation_only_loses inRepository (bytesOf confusable) cut).2.2 hnodup e he⟩

/-- With the file of the other class, the call of the method is a mention of the class. -/
theorem call_lost_at_shared_id :
    ((Document.decodeAll (bytesOf confusable)).map (·.path)).Nodup ∧
      ∃ n ≤ (bytesOf confusable).length, ∃ e ∈ (ofIndex inRepository ((bytesOf confusable).take n)).edges,
        e.link ∉ (ofIndex inRepository (bytesOf confusable)).edges.map Edge.link :=
  ⟨by decide +kernel, cut, by decide +kernel, by decide +kernel⟩

end IndexedSymbols

end CodeAtlas
