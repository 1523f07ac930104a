import CodeAtlas.Proofs.Graph.Contract
import CodeAtlas.Proofs.Identity
import CodeAtlas.Proofs.Source.Calls
import CodeAtlas.SymbolIndex.Resolve

/-!
# Whatever an index holds, its records conform

The bytes of an index come from a tool and may be anything. What is made of them conforms to the graph contract all the same: documents
without a path are left out, a symbol whose descriptor says nothing is no definition, and a range never ends before it starts.
-/

namespace CodeAtlas

namespace Descriptor

/-- What is named has the kind that it is named with. -/
theorem kind_of_named {kind : EntityKind} {path : Text} {signature : Text → Option Text} {d : Descriptor}
    (h : named kind path signature = some d) : d.kind = kind := by
  unfold named at h
  dsimp only at h
  split at h
  · nomatch h
  · cases h
    rfl

/-- It has a name that is not empty. -/
theorem name_ne_empty_of_named {kind : EntityKind} {path : Text} {signature : Text → Option Text} {d : Descriptor}
    (h : named kind path signature = some d) : d.name ≠ "" := by
  unfold named at h
  dsimp only at h
  split at h
  · nomatch h
  · rename_i hname
    cases h
    exact fun e => hname (List.isEmpty_iff.2 (String.ofList_eq_empty_iff.1 e))

/-- The kind of a suffix is a known one. -/
theorem mem_known_of_suffixKind? {c : Char} {kind : EntityKind} (h : suffixKind? c = some kind) : kind ∈ EntityKind.known := by
  unfold suffixKind? at h
  split at h
  · cases h
    decide
  split at h
  · cases h
    decide
  split at h
  · cases h
    decide
  · nomatch h

/-- A symbol that says what it is names something of a known kind. -/
theorem exists_named_of_ofSymbol {symbol : String} {d : Descriptor} (h : ofSymbol symbol = some d) :
    ∃ kind ∈ EntityKind.known, ∃ path signature, named kind path signature = some d := by
  unfold ofSymbol at h
  dsimp only at h
  split at h
  · nomatch h
  · obtain ⟨path, -, hpath⟩ := Option.bind_eq_some_iff.1 h
    unfold ofPath at hpath
    split at hpath
    · split at hpath
      · rename_i isMethod _ _
        refine ⟨_, ?_, _, _, hpath⟩
        cases isMethod with
        | true => decide
        | false => decide
      · nomatch hpath
    · obtain ⟨kind, hkind, hnamed⟩ := Option.bind_eq_some_iff.1 hpath
      obtain ⟨c, -, hc⟩ := Option.bind_eq_some_iff.1 hkind
      exact ⟨kind, mem_known_of_suffixKind? hc, _, _, hnamed⟩

/-- The kinds that symbols speak of are known. -/
theorem kind_mem_known {symbol : String} {d : Descriptor} (h : ofSymbol symbol = some d) : d.kind ∈ EntityKind.known := by
  obtain ⟨kind, hkind, path, signature, hnamed⟩ := exists_named_of_ofSymbol h
  exact kind_of_named hnamed ▸ hkind

/-- A symbol that names something names it with a name that is not empty. -/
theorem name_ne_empty {symbol : String} {d : Descriptor} (h : ofSymbol symbol = some d) : d.name ≠ "" := by
  obtain ⟨kind, -, path, signature, hnamed⟩ := exists_named_of_ofSymbol h
  exact name_ne_empty_of_named hnamed

end Descriptor

/-- A document of an index is what a window holds, and has a path. -/
theorem Document.exists_of_mem_decodeAll {index : List UInt8} {d : Document} (h : d ∈ decodeAll index) :
    (∃ w, decode w = .ok d) ∧ d.path ≠ "" := by
  obtain ⟨f, -, hf⟩ := List.mem_filterMap.1 h
  unfold ofField at hf
  split at hf
  · split at hf
    · rename_i hdecode
      split at hf
      · nomatch hf
      · rename_i hpath
        cases hf
        exact ⟨⟨_, hdecode⟩, fun e => hpath (String.isEmpty_iff.2 e)⟩
    · nomatch hf
  · nomatch hf

/-- The documents of an index have paths. -/
theorem Document.path_ne_empty_of_mem_decodeAll {index : List UInt8} {d : Document} (h : d ∈ decodeAll index) : d.path ≠ "" :=
  (exists_of_mem_decodeAll h).2

namespace Occurrence

/-- The lines of an occurrence do not end before they begin. -/
theorem startLine_le_endLine (o : Occurrence) : o.startLine ≤ o.endLine := Nat.le_max_right _ _

end Occurrence

namespace IndexedSymbols

/-- The path of a file in its package is not empty. -/
theorem Place.path_ne_empty (p : Place) {relative : String} (h : relative ≠ "") : p.path relative ≠ "" := by
  unfold path
  split
  · exact h
  · intro e
    have hlen := congrArg String.length e
    have hpos : relative.length ≠ 0 := fun hzero => h (String.length_eq_zero_iff.1 hzero)
    rw [String.length_append, String.length_empty] at hlen
    omega

/-- Two files of a package have two paths. -/
theorem Place.path_injective (p : Place) {a b : String} (h : p.path a = p.path b) : a = b := by
  unfold path at h
  split at h
  · exact h
  · exact String.append_right_inj _ |>.1 h

variable {place : Place} {docs : List Document} {index : List UInt8}

/-- A definition is that of a symbol that occurs in one of the documents. -/
theorem exists_of_mem_definitions {x : Definition} (h : x ∈ definitions place docs) :
    ∃ d ∈ docs, ∃ (o : Occurrence) (y : Descriptor), Descriptor.ofSymbol o.symbol = some y ∧
      x = ⟨o.symbol, entityOf place ⟨place.path d.path, o⟩ y⟩ := by
  obtain ⟨s, hs, hsite⟩ := List.mem_filterMap.1 h
  obtain ⟨d, hd, hoccurrence⟩ := List.mem_flatMap.1 hs
  obtain ⟨o, -, rfl⟩ := List.mem_map.1 hoccurrence
  unfold definition? at hsite
  split at hsite
  · obtain ⟨y, hy, rfl⟩ := Option.map_eq_some_iff.1 hsite
    exact ⟨d, hd, o, y, hy, rfl⟩
  · nomatch hsite

/-- An entity of an index is the definition of a symbol in one of its documents. -/
theorem eq_entityOf_of_mem {e : Entity} (h : e ∈ (ofIndex place index).entities) :
    ∃ d ∈ Document.decodeAll index, ∃ (o : Occurrence) (x : Descriptor), Descriptor.ofSymbol o.symbol = some x ∧
      e = entityOf place ⟨place.path d.path, o⟩ x := by
  obtain ⟨definition, hdefinition, rfl⟩ := List.mem_map.1 (Calls.mem_of_mem_firstByKey h)
  obtain ⟨d, hd, o, x, hx, rfl⟩ := exists_of_mem_definitions hdefinition
  exact ⟨d, hd, o, x, hx, rfl⟩

/-- A reference leads from the entity that its line belongs to, to the first definition of its symbol, which is another entity. -/
structure IsReference (place : Place) (defs : List Definition) (entities : List Entity) (s : Site) (e : Edge) (t : Entity) : Prop where
  target : target? defs s.occurrence.symbol = some t
  container : container? (rowsOf entities s.path) s.occurrence.startLine = some e.fromId
  toId : e.toId = t.id
  ends : e.fromId ≠ e.toId
  kind : e.kind = if t.kind.isCallable then .calls else .references
  repoId : e.repoId = place.repoId
  confidence : e.confidence = Binary64.one

/-- A link is one of a reference. -/
theorem exists_of_reference? {defs : List Definition} {entities : List Entity} {s : Site} {e : Edge}
    (h : reference? place defs entities s = some e) : ∃ t, IsReference place defs entities s e t := by
  unfold reference? at h
  split at h
  · nomatch h
  obtain ⟨target, htarget, h⟩ := Option.bind_eq_some_iff.1 h
  obtain ⟨container, hcontainer, h⟩ := Option.bind_eq_some_iff.1 h
  split at h
  · nomatch h
  · rename_i hends
    cases h
    exact ⟨target, htarget, hcontainer, rfl, hends, rfl, rfl, rfl⟩

/-- The target of a symbol is an entity that is defined by it. -/
theorem exists_of_target? {defs : List Definition} {symbol : String} {e : Entity} (h : target? defs symbol = some e) :
    ∃ x ∈ defs, x.entity = e ∧ x.symbol = symbol := by
  obtain ⟨x, hx, rfl⟩ := Option.map_eq_some_iff.1 h
  have hsymbol := List.find?_some hx
  exact ⟨x, List.mem_of_find?_eq_some hx, rfl, beq_iff_eq.1 hsymbol⟩

/-- An entity of an index lies in one of the files that the index covers. -/
theorem filePath_mem_coveredFiles {e : Entity} (h : e ∈ (ofIndex place index).entities) :
    e.filePath ∈ (ofIndex place index).coveredFiles := by
  obtain ⟨d, hd, o, x, -, rfl⟩ := eq_entityOf_of_mem h
  exact List.mem_map_of_mem hd

/-- The entities of an index keep the contract. -/
theorem conforms_entity {e : Entity} (h : e ∈ (ofIndex place index).entities) : e.Conforms place.repoId := by
  obtain ⟨d, hd, o, x, hx, rfl⟩ := eq_entityOf_of_mem h
  have hpath := place.path_ne_empty (Document.path_ne_empty_of_mem_decodeAll hd)
  have hrange : (o.startLine : Int) ≤ o.endLine := Int.ofNat_le.2 o.startLine_le_endLine
  exact ⟨Identity.ofParts_ne_empty _, rfl, Descriptor.kind_mem_known hx, hpath, Int.natCast_nonneg _, hrange⟩

/-- So do its edges. -/
theorem conforms_edge {e : Edge} (h : e ∈ (ofIndex place index).edges) : e.Conforms place.repoId := by
  obtain ⟨s, -, hs⟩ := List.mem_filterMap.1 (Calls.mem_of_mem_firstByKey h)
  obtain ⟨t, href⟩ := exists_of_reference? hs
  have hkind : e.kind ∈ EdgeKind.known := by
    rw [href.kind]
    split <;> decide
  exact ⟨href.repoId, hkind, href.confidence ▸ Binary64.inUnitInterval_one⟩

end IndexedSymbols

end CodeAtlas
