import CodeAtlas.Proofs.SymbolIndex.Containers
import CodeAtlas.Proofs.SymbolIndex.Resolve
import CodeAtlas.Proofs.SymbolIndex.RoundTrip
import Mathlib.Data.List.Nodup

/-!
# Whatever an index holds, its graph is well formed

The same symbol may be defined in several files, documents may repeat, and ranges may say anything. The entities of an index have ids of
their own all the same, and its edges lead between two of them, each pair once. Reading never leaves the bytes of the index, and the
ranges that it keeps have the numbers that lines are taken from.
-/

namespace CodeAtlas

open Wire

/-! ## Reading stays within the index -/

/-- The windows that are read of an index: the whole of it, and what the fields of such windows hold. -/
inductive Wire.Window.Reached (index : List UInt8) : Window → Prop
  | whole : Reached index ⟨0, index⟩
  | held {v w : Window} {f : Field} : Reached index w → f ∈ (fields w).read → f.value = .window v → Reached index v

namespace Wire.Window.Reached

variable {index : List UInt8} {w : Window}

/-- What is reached in an index is part of it. -/
theorem isPart (h : Reached index w) : w.IsPart ⟨0, index⟩ := by
  induction h with
  | whole => exact IsPart.refl _
  | held _ hf hv ih => exact (isPart_of_mem_read hf hv).trans ih

/-- Every window that is read lies in the index. -/
theorem ofBuffer?_eq (h : Reached index w) : ofBuffer? index w.start w.stop = .ok w := ofBuffer?_of_isPart h.isPart

end Wire.Window.Reached

/-- An occurrence that is read has a range of three numbers at least. -/
theorem Occurrence.three_le_of_decode {w : Window} {o : Occurrence} (h : decode w = .ok (some o)) : 3 ≤ o.range.length := by
  rw [decode_eq] at h
  cases hfold : foldFields readField { range := [], symbol := "" } w with
  | error e =>
    rw [hfold] at h
    nomatch h
  | ok o' =>
    rw [hfold] at h
    have hkept : (if o'.symbol.isEmpty || decide (o'.range.length < 3) then none else some o') = some o := Except.ok.inj h
    split at hkept
    · nomatch hkept
    · rename_i hrange
      cases hkept
      rw [Bool.or_eq_true, decide_eq_true_iff, not_or] at hrange
      omega

namespace Document

/-- Every range of the document has a start line, a start column and a third number at least. -/
def HasRanges (d : Document) : Prop := ∀ o ∈ d.occurrences, 3 ≤ o.range.length

/-- A field of a document keeps the ranges of its occurrences. -/
theorem hasRanges_readField {d d' : Document} {f : Field} (hd : d.HasRanges) (h : readField d f = .ok d') : d'.HasRanges := by
  unfold readField at h
  split at h
  · rename_i w _ _
    cases hdecode : Occurrence.decode w with
    | error e =>
      rw [hdecode] at h
      nomatch h
    | ok found =>
      rw [hdecode] at h
      cases h
      intro o ho
      rcases List.mem_append.1 ho with ho | ho
      · exact hd o ho
      · exact Occurrence.three_le_of_decode (hdecode.trans (congrArg Except.ok (Option.mem_toList.1 ho)))
  · cases h
    exact hd
  · cases h
    exact hd

/-- The documents of an index have occurrences with ranges. -/
theorem hasRanges_of_mem_decodeAll {index : List UInt8} {d : Document} (h : d ∈ decodeAll index) : d.HasRanges := by
  obtain ⟨⟨w, hw⟩, -⟩ := exists_of_mem_decodeAll h
  rw [decode_eq] at hw
  have hempty : HasRanges { path := "", occurrences := [] } := fun _ ho => absurd ho List.not_mem_nil
  exact invariant_of_foldFields (fun _ _ _ => hasRanges_readField) hempty hw

end Document

/-! ## The graph of an index -/

/-- The coordinates whose digest identifies an entity. -/
def Entity.coordinates (e : Entity) : List String := Identity.entityParts e.repoId e.filePath e.kind.name e.name e.signature

/-- An entity that an index defines: it has the id of its coordinates, a name and a file, and covers lines from the first on. -/
structure Entity.IsDefined (repoId : String) (e : Entity) : Prop where
  repo : e.repoId = repoId
  id : e.id = Identity.entity e.repoId e.filePath e.kind.name e.name e.signature
  name : e.name ≠ ""
  path : e.filePath ≠ ""
  first : 1 ≤ e.startLine
  range : e.startLine ≤ e.endLine

namespace IndexedSymbols

/-- The ends of an edge. -/
def ends (e : Edge) : String × String := (e.fromId, e.toId)

/-- A graph whose entities have ids of their own, and whose edges lead between two of them, each pair once. -/
structure WellFormed (repoId : String) (s : IndexedSymbols) : Prop where
  distinct : (s.entities.map (·.id)).Nodup
  entity : ∀ e ∈ s.entities, e.IsDefined repoId
  source : ∀ e ∈ s.edges, e.fromId ∈ s.entities.map (·.id)
  target : ∀ e ∈ s.edges, e.toId ∈ s.entities.map (·.id)
  proper : ∀ e ∈ s.edges, e.fromId ≠ e.toId
  pairs : (s.edges.map ends).Nodup

variable {place : Place} {docs : List Document} {index : List UInt8}

/-- The edge of a reference in some documents that are all there is. -/
def referenceIn? (place : Place) (docs : List Document) (s : Site) : Option Edge :=
  reference? place (definitions place docs) (ofDocuments place docs).entities s

theorem edges_ofDocuments (place : Place) (docs : List Document) :
    (ofDocuments place docs).edges = Calls.firstByKey ends ((sites place docs).filterMap (referenceIn? place docs)) := rfl

/-- The entities of an index are defined in it. -/
theorem isDefined_of_mem {e : Entity} (h : e ∈ (ofIndex place index).entities) : e.IsDefined place.repoId := by
  obtain ⟨d, hd, o, x, hx, rfl⟩ := eq_entityOf_of_mem h
  have hpath := place.path_ne_empty (Document.path_ne_empty_of_mem_decodeAll hd)
  have hfirst : (1 : Int) ≤ o.startLine := Int.ofNat_le.2 (Nat.le_add_left 1 _)
  have hrange : (o.startLine : Int) ≤ o.endLine := Int.ofNat_le.2 o.startLine_le_endLine
  exact ⟨rfl, rfl, Descriptor.name_ne_empty hx, hpath, hfirst, hrange⟩

/-- A line belongs to an entity of its file that begins at or before it. -/
theorem exists_of_container? {entities : List Entity} {path id : String} {line : Int}
    (h : container? (rowsOf entities path) line = some id) :
    ∃ e ∈ entities, e.id = id ∧ e.filePath = path ∧ e.startLine ≤ line := by
  obtain ⟨e, he, hid⟩ := container?_rowsOf_eq_some_iff.1 h
  exact ⟨e, he.mem, hid, he.filePath, he.begun⟩

/-- What is defined has the id of an entity. -/
theorem id_mem_of_mem_definitions {x : Definition} (h : x ∈ definitions place docs) :
    x.entity.id ∈ (ofDocuments place docs).entities.map (·.id) := by
  have hmem : x.entity ∈ (definitions place docs).map (·.entity) := List.mem_map_of_mem h
  have hkept : ∃ e ∈ (ofDocuments place docs).entities, e.id = x.entity.id := Calls.key_mem_firstByKey hmem
  exact List.mem_map.2 hkept

/-- Entities are told apart by their ids. -/
theorem eq_of_id_eq {c d : Entity} (hc : c ∈ (ofDocuments place docs).entities) (hd : d ∈ (ofDocuments place docs).entities)
    (h : c.id = d.id) : c = d :=
  List.inj_on_of_nodup_map (Calls.nodup_firstByKey _) hc hd h

/-- An edge is that of a reference. -/
theorem exists_of_mem_edges {e : Edge} (h : e ∈ (ofDocuments place docs).edges) :
    ∃ s ∈ sites place docs, ∃ t, IsReference place (definitions place docs) (ofDocuments place docs).entities s e t := by
  obtain ⟨s, hs, href⟩ := List.mem_filterMap.1 (Calls.mem_of_mem_firstByKey h)
  obtain ⟨t, ht⟩ := exists_of_reference? href
  exact ⟨s, hs, t, ht⟩

/-- What is read of an index is well-formed. -/
theorem wellFormed_ofIndex (place : Place) (index : List UInt8) : (ofIndex place index).WellFormed place.repoId where
  distinct := Calls.nodup_firstByKey _
  entity := fun _ => isDefined_of_mem
  source := by
    intro e he
    obtain ⟨s, -, t, href⟩ := exists_of_mem_edges he
    obtain ⟨c, hc, hid, -, -⟩ := exists_of_container? href.container
    exact List.mem_map.2 ⟨c, hc, hid⟩
  target := by
    intro e he
    obtain ⟨s, -, t, href⟩ := exists_of_mem_edges he
    obtain ⟨x, hx, rfl, -⟩ := exists_of_target? href.target
    exact href.toId ▸ id_mem_of_mem_definitions hx
  proper := by
    intro e he
    obtain ⟨s, -, t, href⟩ := exists_of_mem_edges he
    exact href.ends
  pairs := Calls.nodup_firstByKey _

/-- Definitions that differ in their coordinates differ in their ids. -/
def TellsApart (place : Place) (docs : List Document) : Prop :=
  ∀ x ∈ definitions place docs, ∀ y ∈ definitions place docs,
    x.entity.coordinates ≠ y.entity.coordinates → x.entity.id ≠ y.entity.id

/-- Whether documents tell their coordinates apart is decided by their definitions. -/
instance (place : Place) (docs : List Document) : Decidable (TellsApart place docs) :=
  inferInstanceAs (Decidable (∀ x ∈ definitions place docs, ∀ y ∈ definitions place docs,
    x.entity.coordinates ≠ y.entity.coordinates → x.entity.id ≠ y.entity.id))

/-- What has one id is then of one kind. -/
theorem TellsApart.kind_eq (h : TellsApart place docs) {x y : Definition} (hx : x ∈ definitions place docs)
    (hy : y ∈ definitions place docs) (hid : x.entity.id = y.entity.id) : x.entity.kind = y.entity.kind := by
  have hcoordinates : x.entity.coordinates = y.entity.coordinates := Decidable.not_not.1 fun hne => h x hx y hy hne hid
  simp only [Entity.coordinates, Identity.entityParts, List.cons.injEq] at hcoordinates
  obtain ⟨-, -, hname, -⟩ := hcoordinates
  exact congrArg EntityKind.mk hname

/-- Functions and methods are what can be called. -/
theorem isCallable_iff {k : EntityKind} : k.isCallable = true ↔ k = .function ∨ k = .method := by
  rw [EntityKind.isCallable, EntityKind.callable, List.contains_iff_mem]
  simp only [List.mem_cons, List.not_mem_nil, or_false]

/-- An edge is a call exactly if its target is a function or method. -/
theorem kind_of_tellsApart (h : TellsApart place docs) {e : Edge} (he : e ∈ (ofDocuments place docs).edges) {t : Entity}
    (ht : t ∈ (ofDocuments place docs).entities) (hid : t.id = e.toId) :
    e.kind = if t.kind = .function ∨ t.kind = .method then .calls else .references := by
  obtain ⟨s, -, t', href⟩ := exists_of_mem_edges he
  obtain ⟨x, hx, rfl, -⟩ := exists_of_target? href.target
  obtain ⟨y, hy, rfl⟩ := List.mem_map.1 (Calls.mem_of_mem_firstByKey ht)
  rw [h.kind_eq hy hx (hid.trans href.toId), href.kind]
  exact if_congr isCallable_iff rfl rfl

/-- Whatever the bytes of an index, reading keeps to them, the ranges it gives have three numbers at least, and the graph is well formed.
If other coordinates have other ids, calls are the edges that lead to functions and methods. -/
theorem ofIndex_sound (place : Place) (index : List UInt8) :
    (∀ w, Window.Reached index w → Window.ofBuffer? index w.start w.stop = .ok w) ∧
      (∀ d ∈ Document.decodeAll index, d.HasRanges) ∧
        (ofIndex place index).WellFormed place.repoId ∧
          (TellsApart place (Document.decodeAll index) →
            ∀ e ∈ (ofIndex place index).edges, ∀ t ∈ (ofIndex place index).entities, t.id = e.toId →
              e.kind = if t.kind = .function ∨ t.kind = .method then .calls else .references) :=
  ⟨fun _ => Window.Reached.ofBuffer?_eq, fun _ => Document.hasRanges_of_mem_decodeAll, wellFormed_ofIndex place index,
    fun h _ he _ ht => kind_of_tellsApart h he ht⟩

/-- The bytes of an index of some documents. -/
def bytesOf (docs : List Document) : List UInt8 := (Document.plainIndex docs).bytes

/-- Where an index of the repository `r` belongs. -/
def inRepository : Place := ⟨"r", "go", ""⟩

/-- A method that calls a method of another file. -/
def callAcrossFiles : List Document :=
  [⟨"a.go", [⟨[0, 5, 6], "s p F().", 1, [0, 0, 4, 1]⟩, ⟨[2, 1, 2], "s p G().", 0, []⟩]⟩, ⟨"b.go", [⟨[7, 5, 6], "s p G().", 1, []⟩]⟩]

/-- The one edge of that index is a call, as its target is a method. -/
theorem calls_acrossFiles :
    TellsApart inRepository (Document.decodeAll (bytesOf callAcrossFiles)) ∧
      ∃ e ∈ (ofIndex inRepository (bytesOf callAcrossFiles)).edges, ∃ t ∈ (ofIndex inRepository (bytesOf callAcrossFiles)).entities,
        t.id = e.toId ∧ t.kind = .method ∧ e.kind = .calls := by
  have hapart : TellsApart inRepository (Document.decodeAll (bytesOf callAcrossFiles)) := by decide +kernel
  have hfound : ∃ e ∈ (ofIndex inRepository (bytesOf callAcrossFiles)).edges,
      ∃ t ∈ (ofIndex inRepository (bytesOf callAcrossFiles)).entities, t.id = e.toId ∧ t.kind = .method := by
    decide +kernel
  obtain ⟨e, he, t, ht, hid, hkind⟩ := hfound
  have hcall := (ofIndex_sound inRepository (bytesOf callAcrossFiles)).2.2.2 hapart e he t ht hid
  rw [if_pos (Or.inr hkind)] at hcall
  exact ⟨hapart, e, he, t, ht, hid, hkind, hcall⟩

end IndexedSymbols

end CodeAtlas
