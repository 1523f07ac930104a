import CodeAtlas.Proofs.SymbolIndex.WellFormed

/-!
# Whose reference it is

A reference should belong to the entity whose lines it stands in. It is given to the entity that begins last at or before it, and where
that one ends is not looked at. The two agree as long as whatever has ended before the reference is followed by something else that
begins by then. Code at the end of a file, after its last function, is given to that function.
-/

namespace CodeAtlas

/-- The enclosing range is given in full and covers the line on which the occurrence begins. -/
def Occurrence.EnclosesItself (o : Occurrence) : Prop :=
  4 ≤ o.enclosing.length ∧ o.enclosing.getD 0 0 ≤ o.range.headD 0 ∧ o.range.headD 0 ≤ o.enclosing.getD 2 0

instance : DecidablePred Occurrence.EnclosesItself := fun o => inferInstanceAs
  (Decidable (4 ≤ o.enclosing.length ∧ o.enclosing.getD 0 0 ≤ o.range.headD 0 ∧ o.range.headD 0 ≤ o.enclosing.getD 2 0))

namespace IndexedSymbols

/-- An occurrence in the file of an entity mentions something that has the id at the end of an edge, and the edge begins at the entity. -/
structure Mentions (place : Place) (docs : List Document) (e : Edge) (c : Entity) (s : Site) : Prop where
  source : c.id = e.fromId
  filePath : c.filePath = s.path
  reference : s.occurrence.isDefinition = false
  target : ∃ x ∈ definitions place docs, x.symbol = s.occurrence.symbol ∧ x.entity.id = e.toId

/-- A mention of an edge is an occurrence in the file of its source, of a symbol that its target defines. -/
theorem mentions_iff {place : Place} {docs : List Document} {e : Edge} {c : Entity} {s : Site} :
    Mentions place docs e c s ↔ c.id = e.fromId ∧ c.filePath = s.path ∧ s.occurrence.isDefinition = false ∧
      ∃ x ∈ definitions place docs, x.symbol = s.occurrence.symbol ∧ x.entity.id = e.toId :=
  ⟨fun h => ⟨h.source, h.filePath, h.reference, h.target⟩, fun h => ⟨h.1, h.2.1, h.2.2.1, h.2.2.2⟩⟩

instance (place : Place) (docs : List Document) (e : Edge) (c : Entity) (s : Site) : Decidable (Mentions place docs e c s) :=
  decidable_of_iff' _ mentions_iff

/-- The entity is followed, by a line, by another one of its file. -/
def Followed (entities : List Entity) (line : Int) (d : Entity) : Prop :=
  ∃ d' ∈ entities, d'.filePath = d.filePath ∧ d'.id ≠ d.id ∧ startsBefore d d' = true ∧ d'.startLine ≤ line

variable {place : Place} {docs : List Document}

/-- The range of every entity of an index ends where it begins or later. -/
theorem startLine_le_endLine_of_mem {e : Entity} (h : e ∈ (ofDocuments place docs).entities) : e.startLine ≤ e.endLine := by
  obtain ⟨x, hx, rfl⟩ := List.mem_map.1 (Calls.mem_of_mem_firstByKey h)
  obtain ⟨d, -, o, y, -, rfl⟩ := exists_of_mem_definitions hx
  exact Int.ofNat_le.2 o.startLine_le_endLine

/-- Only an occurrence that defines nothing is a reference. -/
theorem isDefinition_of_reference? {defs : List Definition} {entities : List Entity} {s : Site} {e : Edge}
    (h : reference? place defs entities s = some e) : s.occurrence.isDefinition = false := by
  unfold reference? at h
  split at h
  · nomatch h
  · rename_i hdef
    exact Bool.eq_false_iff.2 hdef

/-- The entity that begins last has not ended exactly if everything that has ended is followed by something. -/
theorem IsLatest.le_endLine_iff {path : String} {line : Int} {c : Entity}
    (h : IsLatest (ofDocuments place docs).entities path line c) :
    line ≤ c.endLine ↔ ∀ d ∈ (ofDocuments place docs).entities, d.filePath = path → d.endLine < line →
      Followed (ofDocuments place docs).entities line d := by
  constructor
  · intro hline d hd hpath hended
    have hrange := startLine_le_endLine_of_mem hd
    refine ⟨c, h.mem, h.filePath.trans hpath.symm, fun hid => ?_, h.last d hd hpath (by omega), h.begun⟩
    rw [eq_of_id_eq h.mem hd hid] at hline
    omega
  · intro hall
    refine Int.not_lt.1 fun hended => ?_
    obtain ⟨d, hd, hpath, hid, hafter, hbegun⟩ := hall c h.mem h.filePath hended
    exact hid (id_eq_of_startsBefore (h.last d hd (hpath.trans h.filePath) hbegun) hafter)

/-- Every edge is that of a mention of its target at or after the beginning of its source. No entity that begins later holds that line. The
source holds it exactly if everything in the file that has ended before the line is followed by something that begins by then. -/
theorem within_source_iff_followed (place : Place) (docs : List Document) :
    ∀ e ∈ (ofDocuments place docs).edges, ∃ s ∈ sites place docs, ∃ c ∈ (ofDocuments place docs).entities,
      Mentions place docs e c s ∧ c.startLine ≤ s.occurrence.startLine ∧
        (∀ d ∈ (ofDocuments place docs).entities, d.filePath = s.path → d.startLine ≤ s.occurrence.startLine →
          startsBefore d c = true) ∧
          (s.occurrence.startLine ≤ c.endLine ↔
            ∀ d ∈ (ofDocuments place docs).entities, d.filePath = s.path → d.endLine < s.occurrence.startLine →
              Followed (ofDocuments place docs).entities s.occurrence.startLine d) := by
  intro e he
  obtain ⟨s, hs, href⟩ := List.mem_filterMap.1 (Calls.mem_of_mem_firstByKey he)
  obtain ⟨t, ht⟩ := exists_of_reference? href
  obtain ⟨x, hx, rfl, hsymbol⟩ := exists_of_target? ht.target
  obtain ⟨c, hc, hid⟩ := container?_rowsOf_eq_some_iff.1 ht.container
  have hmentions : Mentions place docs e c s :=
    ⟨hid, hc.filePath, isDefinition_of_reference? href, x, hx, hsymbol, ht.toId.symm⟩
  exact ⟨s, hs, c, hc.mem, hmentions, hc.begun, hc.last, hc.le_endLine_iff⟩

/-- A file with a function on its first two lines, and a call of a function of another file further down. -/
def callAfterFunction : List Document :=
  [⟨"a.go", [⟨[0, 5, 6], "s p F().", 1, [0, 0, 1, 1]⟩, ⟨[4, 1, 2], "s p G().", 0, []⟩]⟩,
    ⟨"b.go", [⟨[7, 5, 6], "s p G().", 1, [7, 0, 8, 1]⟩]⟩]

/-- The call is an edge. -/
theorem callAfterFunction_linked :
    ∃ e ∈ (ofDocuments inRepository callAfterFunction).edges, ∃ s ∈ sites inRepository callAfterFunction,
      ∃ c ∈ (ofDocuments inRepository callAfterFunction).entities,
        Mentions inRepository callAfterFunction e c s ∧ c.startLine ≤ s.occurrence.startLine ∧
          (∀ d ∈ (ofDocuments inRepository callAfterFunction).entities, d.filePath = s.path →
            d.startLine ≤ s.occurrence.startLine → startsBefore d c = true) ∧
            (s.occurrence.startLine ≤ c.endLine ↔
              ∀ d ∈ (ofDocuments inRepository callAfterFunction).entities, d.filePath = s.path →
                d.endLine < s.occurrence.startLine →
                  Followed (ofDocuments inRepository callAfterFunction).entities s.occurrence.startLine d) := by
  have hedge : ∃ e ∈ (ofDocuments inRepository callAfterFunction).edges, e.kind = .calls := by decide +kernel
  obtain ⟨e, he, -⟩ := hedge
  exact ⟨e, he, within_source_iff_followed inRepository callAfterFunction e he⟩

/-- Every definition of that index says where it ends. All the same the call, which stands below the function, is one of the function. -/
theorem call_outside_source :
    (∀ d ∈ callAfterFunction, ∀ o ∈ d.occurrences, o.isDefinition = true → o.EnclosesItself) ∧
      ∃ e ∈ (ofDocuments inRepository callAfterFunction).edges, ¬∃ s ∈ sites inRepository callAfterFunction,
        ∃ c ∈ (ofDocuments inRepository callAfterFunction).entities,
          Mentions inRepository callAfterFunction e c s ∧
            c.startLine ≤ s.occurrence.startLine ∧ s.occurrence.startLine ≤ c.endLine :=
  ⟨by decide, by decide +kernel⟩

end IndexedSymbols

end CodeAtlas
