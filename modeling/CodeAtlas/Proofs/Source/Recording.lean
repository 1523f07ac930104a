import CodeAtlas.Proofs.Source.Scan

/-!
# What recording changes

A scan records declarations and edges. A declaration is added at the end, unless one with its id is there already; a link adds an edge;
and a member gets the name of its type. Nothing else changes.
-/

namespace CodeAtlas

/-- A declaration without the name of the type that it belongs to, which is recorded after the declaration. -/
def Declaration.bare (d : Declaration) : Declaration := { d with parent := none }

/-- A declaration that begins on a line and whose block is still to be searched, before it is known what it belongs to. -/
structure Declaration.IsDraft (block : Block) (line : Nat) (d : Declaration) : Prop where
  start : d.startLine = line
  block : d.block = block
  ending : d.endLine = none
  parent : d.parent = none

/-- A draft is recorded as it is. -/
theorem Declaration.IsDraft.bare_eq {block : Block} {line : Nat} {d : Declaration} (hd : d.IsDraft block line) : d.bare = d := by
  have hparent := hd.parent
  cases d
  cases hparent
  rfl

namespace FileScan

/-- The declarations recorded so far, apart from what they belong to. -/
def recorded (s : FileScan) : List Declaration := s.decls.map Declaration.bare

variable {s s' : FileScan} {d : Declaration} {e : Edge} {fromId toId : String} {kind : EdgeKind}

/-- Recorded are the declarations, apart from what is found out later. -/
theorem mem_recorded_iff : d ∈ s.recorded ↔ ∃ e ∈ s.decls, e.bare = d := List.mem_map

/-- What is recorded has the ids of the declarations. -/
theorem map_id_recorded (s : FileScan) : s.recorded.map (·.id) = s.ids := by
  rw [recorded, List.map_map]
  rfl

@[simp]
theorem noise_link : (s.link fromId toId kind).noise = s.noise := by
  unfold link
  split <;> rfl

@[simp]
theorem decls_link : (s.link fromId toId kind).decls = s.decls := by
  unfold link
  split <;> rfl

/-- A link adds its edge, unless it leads back to where it begins. -/
theorem mem_edges_link :
    e ∈ (s.link fromId toId kind).edges ↔ e ∈ s.edges ∨ fromId ≠ toId ∧ e = { fromId, toId, kind, repoId := s.file.repoId } := by
  unfold link
  by_cases hself : fromId = toId <;> simp [hself]

/-- Linking a member to its owner records nothing. -/
theorem recorded_memberOf (member owner : Declaration) : (s.memberOf member owner).recorded = s.recorded := by
  rw [recorded, memberOf, decls_link, modify, List.map_map, recorded]
  refine List.map_congr_left fun d _ => ?_
  rw [Function.comp_apply]
  split <;> rfl

/-- Neither does it bring a new id. -/
theorem ids_memberOf (member owner : Declaration) : (s.memberOf member owner).ids = s.ids := by
  rw [← map_id_recorded, recorded_memberOf, map_id_recorded]

/-- A declaration is recorded when no other one has its id; else the other one is taken for it. -/
theorem declare_cases (s : FileScan) (d : Declaration) :
    (d.id ∉ s.ids ∧ s.declare d = ({ s with decls := s.decls ++ [d] }, d)) ∨
      ∃ e ∈ s.decls, e.id = d.id ∧ s.declare d = (s, e) := by
  unfold declare find?
  cases hfind : s.decls.find? fun e => e.id == d.id with
  | some e =>
    have hid := List.find?_some hfind
    exact Or.inr ⟨e, List.mem_of_find?_eq_some hfind, beq_iff_eq.1 hid, rfl⟩
  | none =>
    refine Or.inl ⟨fun hid => ?_, rfl⟩
    obtain ⟨e, he, heq⟩ := List.mem_map.1 hid
    exact List.find?_eq_none.1 hfind e he (beq_iff_eq.2 heq)

/-- A declaration with a new id is added as it is. -/
theorem declare_of_fresh (h : d.id ∉ s.ids) : s.declare d = ({ s with decls := s.decls ++ [d] }, d) := by
  rcases declare_cases s d with ⟨-, hdeclare⟩ | ⟨e, he, hid, -⟩
  · exact hdeclare
  · exact absurd (hid ▸ List.mem_map_of_mem he) h

@[simp]
theorem noise_declare (s : FileScan) (d : Declaration) : (s.declare d).1.noise = s.noise := by
  rcases declare_cases s d with ⟨-, hdeclare⟩ | ⟨e, -, -, hdeclare⟩ <;> rw [hdeclare]

@[simp]
theorem edges_declare (s : FileScan) (d : Declaration) : (s.declare d).1.edges = s.edges := by
  rcases declare_cases s d with ⟨-, hdeclare⟩ | ⟨e, -, -, hdeclare⟩ <;> rw [hdeclare]

theorem recorded_append (s : FileScan) (d : Declaration) : recorded { s with decls := s.decls ++ [d] } = s.recorded ++ [d.bare] := by
  simp [recorded]

/-- Either a declaration is recorded and given back, or the one that is given back has been recorded before. -/
theorem recorded_declare_cases (s : FileScan) (d : Declaration) :
    ((s.declare d).2 = d ∧ (s.declare d).1.recorded = s.recorded ++ [d.bare]) ∨
      ((s.declare d).2.bare ∈ s.recorded ∧ (s.declare d).1.recorded = s.recorded) := by
  rcases declare_cases s d with ⟨-, hdeclare⟩ | ⟨e, he, -, hdeclare⟩
  · rw [hdeclare]
    exact Or.inl ⟨rfl, recorded_append s d⟩
  · rw [hdeclare]
    exact Or.inr ⟨List.mem_map_of_mem he, rfl⟩

/-- What has been recorded stays. -/
theorem recorded_declare_of_mem {b : Declaration} (h : b ∈ s.recorded) : b ∈ (s.declare d).1.recorded := by
  rcases recorded_declare_cases s d with ⟨-, hrecorded⟩ | ⟨-, hrecorded⟩
  · rw [hrecorded]
    exact List.mem_append_left _ h
  · rwa [hrecorded]

/-- Recording a declaration adds at most that one. -/
theorem mem_recorded_declare {b : Declaration} (h : b ∈ (s.declare d).1.recorded) : b ∈ s.recorded ∨ b = d.bare := by
  rcases recorded_declare_cases s d with ⟨-, hrecorded⟩ | ⟨-, hrecorded⟩
  · rw [hrecorded] at h
    exact (List.mem_append.1 h).imp_right List.mem_singleton.1
  · rw [hrecorded] at h
    exact Or.inl h

/-- What has an id that was there before has been recorded before. -/
theorem mem_recorded_of_mem_ids {b : Declaration} (h : b ∈ (s.declare d).1.recorded) (hid : b.id ∈ s.ids) : b ∈ s.recorded := by
  rcases declare_cases s d with ⟨hfresh, hdeclare⟩ | ⟨e, -, -, hdeclare⟩
  · rcases mem_recorded_declare h with h | rfl
    · exact h
    · exact absurd hid hfresh
  · rwa [hdeclare] at h

@[simp]
theorem id_declare (s : FileScan) (d : Declaration) : (s.declare d).2.id = d.id := by
  rcases declare_cases s d with ⟨-, hdeclare⟩ | ⟨e, -, hid, hdeclare⟩
  · rw [hdeclare]
  · rw [hdeclare, hid]

/-- Recording a declaration brings at most its own id. -/
theorem mem_ids_declare {id : String} (h : id ∈ (s.declare d).1.ids) : id ∈ s.ids ∨ id = d.id := by
  rcases declare_cases s d with ⟨-, hdeclare⟩ | ⟨e, -, -, hdeclare⟩
  · rw [hdeclare] at h
    simpa [ids] using h
  · rw [hdeclare] at h
    exact Or.inl h

/-- Between one scan and another, edges have been recorded that make no members, and nothing else. -/
structure AddsLinks (s s' : FileScan) : Prop where
  noise : s'.noise = s.noise
  decls : s'.decls = s.decls
  old : ∀ e ∈ s.edges, e ∈ s'.edges
  new : ∀ e ∈ s'.edges, e ∈ s.edges ∨ e.kind ≠ .memberOf

namespace AddsLinks

/-- Without a link nothing is added. -/
theorem refl (s : FileScan) : AddsLinks s s := ⟨rfl, rfl, fun _ he => he, fun _ he => Or.inl he⟩

/-- A link that is not one of membership adds links only. -/
theorem link (h : AddsLinks s s') (hkind : kind ≠ .memberOf) : AddsLinks s (s'.link fromId toId kind) := by
  refine ⟨noise_link.trans h.noise, decls_link.trans h.decls, fun e he => mem_edges_link.2 (Or.inl (h.old e he)), fun e he => ?_⟩
  rcases mem_edges_link.1 he with he | ⟨-, rfl⟩
  · exact h.new e he
  · exact Or.inr hkind

/-- So do many of them. -/
theorem foldl_link (h : AddsLinks s s') {α : Type} (fromId : String) (target : α → String) (hkind : kind ≠ .memberOf) (targets : List α) :
    AddsLinks s (targets.foldl (fun scan t => scan.link fromId (target t) kind) s') :=
  List.foldlRecOn (motive := AddsLinks s) targets _ h fun _ h _ _ => h.link hkind

/-- Adding links records nothing. -/
theorem recorded (h : AddsLinks s s') : s'.recorded = s.recorded := by rw [FileScan.recorded, h.decls, FileScan.recorded]

/-- Adding links brings no id. -/
theorem ids (h : AddsLinks s s') : s'.ids = s.ids := by rw [FileScan.ids, h.decls, FileScan.ids]

end AddsLinks

end FileScan

end CodeAtlas
