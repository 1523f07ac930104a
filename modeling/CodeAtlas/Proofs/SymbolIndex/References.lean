import CodeAtlas.Proofs.SymbolIndex.WellFormed
import Mathlib.Data.List.Induction
import Mathlib.Data.Prod.Lex
import Mathlib.Data.String.Basic

/-!
# References read plainly

Where a reference leads can be said without tables, rows and halving: from the greatest line and id among the entities of its file that
begin at or before it, to the first occurrence in the documents that defines its symbol. Read in this way, one occurrence after the
other, the references give the links of an index in their order, each of them once.
-/

namespace CodeAtlas

/-- The keys of what is kept are the keys of all items, without repetitions. -/
theorem Calls.map_firstByKey {α β : Type} [BEq β] [LawfulBEq β] (key : α → β) (xs : List α) :
    (firstByKey key xs).map key = (xs.map key).eraseDups := by
  induction xs using List.reverseRecOn with
  | nil => rfl
  | append_singleton xs x ih =>
    have hlast : firstByKey key (xs ++ [x]) =
        if (firstByKey key xs).any fun y => key y == key x then firstByKey key xs else firstByKey key xs ++ [x] := by
      rw [firstByKey, List.foldl_append]
      rfl
    have hknown : ((firstByKey key xs).any fun y => key y == key x) = (xs.map key).contains (key x) := by
      rw [Bool.eq_iff_iff, List.contains_iff_mem, ← List.mem_eraseDups, ← ih, List.any_eq_true, List.mem_map]
      simp only [beq_iff_eq]
    rw [hlast, hknown, List.map_append, List.map_singleton, List.eraseDups_append, ← ih, List.cons_removeAll]
    cases (xs.map key).contains (key x) with
    | true => simp
    | false => simp [List.eraseDups_cons]

namespace IndexedSymbols

/-! ## Documents one by one -/

/-- The occurrences in a document of symbols that are not local. -/
def sitesIn (place : Place) (d : Document) : List Site :=
  (d.occurrences.filter fun o => !Descriptor.isLocal o.symbol).map fun o => ⟨place.path d.path, o⟩

/-- The definitions in a document. -/
def definitionsIn (place : Place) (d : Document) : List Definition := (sitesIn place d).filterMap (definition? place)

theorem sites_eq (place : Place) (docs : List Document) : sites place docs = docs.flatMap (sitesIn place) := rfl

/-- The definitions of an index are those of its documents, one document after the other. -/
theorem definitions_eq (place : Place) (docs : List Document) : definitions place docs = docs.flatMap (definitionsIn place) :=
  List.filterMap_flatMap ..

/-- The mentions in a document are its occurrences of global symbols, in the file of the document. -/
theorem mem_sitesIn {place : Place} {d : Document} {s : Site} :
    s ∈ sitesIn place d ↔ s.occurrence ∈ d.occurrences ∧ Descriptor.isLocal s.occurrence.symbol = false ∧
      s.path = place.path d.path := by
  simp only [sitesIn, List.mem_map, List.mem_filter, Bool.not_eq_true']
  constructor
  · rintro ⟨o, ⟨ho, hlocal⟩, rfl⟩
    exact ⟨ho, hlocal, rfl⟩
  · rintro ⟨ho, hlocal, hpath⟩
    exact ⟨s.occurrence, ⟨ho, hlocal⟩, hpath ▸ rfl⟩

/-- A mention is a definition where the occurrence is one and its symbol names an entity. -/
theorem definition?_eq_some_iff {place : Place} {s : Site} {x : Definition} :
    definition? place s = some x ↔ s.occurrence.isDefinition = true ∧
      ∃ y, Descriptor.ofSymbol s.occurrence.symbol = some y ∧ ⟨s.occurrence.symbol, entityOf place s y⟩ = x := by
  unfold definition?
  split
  · rename_i h
    rw [Option.map_eq_some_iff]
    exact (and_iff_right h).symm
  · rename_i h
    exact ⟨nofun, fun hdef => absurd hdef.1 h⟩

/-! ## The target of a reference -/

/-- The id of the first definition of a symbol: that of the first occurrence, one document after the other, that defines it. -/
def definitionId? (place : Place) (docs : List Document) (symbol : String) : Option String :=
  docs.findSome? fun d => d.occurrences.findSome? fun o =>
    if o.isDefinition && o.symbol == symbol then
      (Descriptor.ofSymbol symbol).map fun x => Identity.entity place.repoId (place.path d.path) x.kind.name x.name x.signature
    else none

/-- The definitions in a document, looked through for a symbol, are the occurrences that define it. -/
theorem map_id_find?_definitionsIn (place : Place) (d : Document) {symbol : String} (h : Descriptor.isLocal symbol = false) :
    ((definitionsIn place d).find? fun x => x.symbol == symbol).map (·.entity.id) = d.occurrences.findSome? fun o =>
      if o.isDefinition && o.symbol == symbol then
        (Descriptor.ofSymbol symbol).map fun x => Identity.entity place.repoId (place.path d.path) x.kind.name x.name x.signature
      else none := by
  unfold definitionsIn sitesIn
  generalize place.path d.path = path
  induction d.occurrences with
  | nil => rfl
  | cons o os ih =>
    rw [List.findSome?_cons, ← ih, List.filter_cons]
    by_cases hsymbol : o.symbol = symbol
    · subst hsymbol
      rw [h, Bool.not_false, if_pos rfl, List.map_cons, List.filterMap_cons, definition?]
      cases hdef : o.isDefinition with
      | false => simp
      | true =>
        cases Descriptor.ofSymbol o.symbol with
        | none => simp
        | some x => simp [entityOf]
    · have hother : (o.isDefinition && o.symbol == symbol) = false := by simp [hsymbol]
      rw [hother, if_neg Bool.false_ne_true]
      split
      · rw [List.map_cons, List.filterMap_cons]
        split
        · rfl
        · rename_i x hx
          obtain ⟨-, y, -, rfl⟩ := definition?_eq_some_iff.1 hx
          rw [List.find?_cons, beq_eq_false_iff_ne.2 hsymbol]
      · rfl

/-- The first definition of a symbol that is not local is that of the first occurrence that defines it. -/
theorem map_id_target? (place : Place) (docs : List Document) {symbol : String} (h : Descriptor.isLocal symbol = false) :
    (target? (definitions place docs) symbol).map (·.id) = definitionId? place docs symbol := by
  rw [target?, definitions_eq, List.find?_flatMap, Option.map_map, List.map_findSome?, definitionId?]
  exact congrArg (docs.findSome? ·) (funext fun d => map_id_find?_definitionsIn place d h)

/-! ## The source of a reference -/

/-- The greatest line and id among the entities of a file that begin at or before a line. -/
def latest? (entities : List Entity) (path : String) (line : Int) : Option (Int ×ₗ String) :=
  ((entities.filter fun e => e.filePath == path && decide (e.startLine ≤ line)).map fun e => toLex (e.startLine, e.id)).max?

/-- The container found for a line is the entity that begins last at or before the line, the larger id where two begin on one line. -/
theorem latest?_eq_some_iff {entities : List Entity} {path : String} {line : Int} {p : Int ×ₗ String} :
    latest? entities path line = some p ↔ ∃ e, IsLatest entities path line e ∧ toLex (e.startLine, e.id) = p := by
  have hmem : ∀ e, e ∈ entities.filter (fun e => e.filePath == path && decide (e.startLine ≤ line)) ↔
      e ∈ entities ∧ e.filePath = path ∧ e.startLine ≤ line := by
    intro e
    rw [List.mem_filter, Bool.and_eq_true, beq_iff_eq, decide_eq_true_iff]
  have hle : ∀ a b : Entity, toLex (a.startLine, a.id) ≤ toLex (b.startLine, b.id) ↔ startsBefore a b = true :=
    fun a b => Prod.Lex.toLex_le_toLex.trans startsBefore_iff.symm
  rw [latest?, List.max?_eq_some_iff, List.mem_map, List.forall_mem_map]
  constructor
  · rintro ⟨⟨e, he, rfl⟩, hlast⟩
    obtain ⟨hentity, hpath, hline⟩ := (hmem e).1 he
    refine ⟨e, ⟨hentity, hpath, hline, fun e' he' hpath' hline' => ?_⟩, rfl⟩
    exact (hle e' e).1 (hlast e' ((hmem e').2 ⟨he', hpath', hline'⟩))
  · rintro ⟨e, he, rfl⟩
    refine ⟨⟨e, (hmem e).2 ⟨he.mem, he.filePath, he.begun⟩, rfl⟩, fun e' he' => ?_⟩
    obtain ⟨hentity, hpath, hline⟩ := (hmem e').1 he'
    exact (hle e' e).2 (he.last e' hentity hpath hline)

/-- Halving the rows of a file finds the id of the greatest line and id. -/
theorem container?_rowsOf (entities : List Entity) (path : String) (line : Int) :
    container? (rowsOf entities path) line = (latest? entities path line).map fun p => (ofLex p).2 := by
  refine Option.ext fun id => ?_
  rw [container?_rowsOf_eq_some_iff, Option.map_eq_some_iff]
  simp only [latest?_eq_some_iff]
  constructor
  · rintro ⟨e, he, rfl⟩
    exact ⟨_, ⟨e, he, rfl⟩, rfl⟩
  · rintro ⟨p, ⟨e, he, rfl⟩, rfl⟩
    exact ⟨e, he, rfl⟩

/-! ## Links -/

/-- Where an occurrence in a document leads from and to. It leads nowhere if it is a definition or of a local symbol, if nothing defines
its symbol, if no entity of the file begins by then, and if it would lead to where it comes from. -/
def link? (place : Place) (docs : List Document) (d : Document) (o : Occurrence) : Option (String × String) :=
  if o.isDefinition || Descriptor.isLocal o.symbol then none
  else
    (definitionId? place docs o.symbol).bind fun target =>
      (latest? (ofDocuments place docs).entities (place.path d.path) o.startLine).bind fun container =>
        if (ofLex container).2 = target then none else some ((ofLex container).2, target)

/-- The link that an occurrence stands for is the ends of the edge that it gives, if any. -/
theorem map_ends_referenceIn? (place : Place) (docs : List Document) (d : Document) {o : Occurrence}
    (h : Descriptor.isLocal o.symbol = false) :
    (referenceIn? place docs ⟨place.path d.path, o⟩).map ends = link? place docs d o := by
  rw [referenceIn?, reference?, link?, h, Bool.or_false]
  split
  · rfl
  rw [← map_id_target? place docs h, container?_rowsOf, Option.map_bind, Option.bind_map]
  refine congrArg _ (funext fun target => ?_)
  rw [Function.comp_apply, Option.map_bind, Option.bind_map]
  refine congrArg _ (funext fun container => ?_)
  dsimp only [Function.comp_apply]
  split
  · rfl
  · rfl

/-- The links of an index are those of its occurrences, read plainly one after the other, in the order in which they come up first. -/
theorem ends_edges_ofDocuments (place : Place) (docs : List Document) :
    (ofDocuments place docs).edges.map ends = (docs.flatMap fun d => d.occurrences.filterMap (link? place docs d)).eraseDups := by
  have hdocument : ∀ d, ((sitesIn place d).filterMap (referenceIn? place docs)).map ends =
      d.occurrences.filterMap (link? place docs d) := by
    intro d
    rw [List.map_filterMap, sitesIn, List.filterMap_map, List.filterMap_filter]
    refine List.filterMap_congr fun o _ => ?_
    cases h : Descriptor.isLocal o.symbol with
    | false => exact map_ends_referenceIn? place docs d h
    | true => simp [link?, h]
  rw [edges_ofDocuments, Calls.map_firstByKey, sites_eq, List.filterMap_flatMap, List.map_flatMap]
  exact congrArg (fun f => (docs.flatMap f).eraseDups) (funext hdocument)

end IndexedSymbols

end CodeAtlas
