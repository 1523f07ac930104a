import CodeAtlas.Graph.Batch

/-!
# What the graph contract accepts

The checks of a batch report the first violation. Here the contract is said without an order of checks, record by record, and the two
agree: a batch is accepted exactly when the contract holds of it.
-/

namespace CodeAtlas

theorem Binary64.inUnitInterval_one : one.inUnitInterval = true := by decide

/-- What the contract asks of an entity of a repository, apart from its tag. -/
structure Entity.Conforms (repoId : String) (e : Entity) : Prop where
  id : e.id ≠ ""
  repo : e.repoId = repoId
  kind : e.kind ∈ EntityKind.known
  path : e.filePath ≠ ""
  start : 0 ≤ e.startLine
  range : e.startLine ≤ e.endLine

/-- What the contract asks of an edge of a repository, apart from its ends and its tag. -/
structure Edge.Conforms (repoId : String) (e : Edge) : Prop where
  repo : e.repoId = repoId
  kind : e.kind ∈ EdgeKind.known
  confidence : e.confidence.inUnitInterval = true

namespace Contract

/-- A check in a row of checks finds nothing when its condition fails and the rest finds nothing. -/
theorem check_eq_none {c : Prop} [Decidable c] {v : ContractViolation} {rest : Option ContractViolation} :
    (if c then some v else rest) = none ↔ ¬c ∧ rest = none := by
  split <;> simp [*]

/-- No violation is found in an entity that conforms and carries the tag, and in no other. -/
theorem ofEntity_eq_none_iff {repoId : String} {version : Option String} {e : Entity} :
    ofEntity repoId version e = none ↔ e.Conforms repoId ∧ stampedWith version e.indexVersion = true := by
  simp only [ofEntity, check_eq_none, String.isEmpty_iff, Decidable.not_not, not_or, Int.not_lt, Bool.not_eq_true',
    Bool.not_eq_false, List.contains_iff_mem, and_true]
  constructor
  · rintro ⟨h1, h2, h3, h4, ⟨h5, h6⟩, h7⟩
    exact ⟨⟨h1, h2, h3, h4, h5, h6⟩, h7⟩
  · rintro ⟨⟨h1, h2, h3, h4, h5, h6⟩, h7⟩
    exact ⟨h1, h2, h3, h4, ⟨h5, h6⟩, h7⟩

/-- No violation is found in an edge that conforms, has both ends in the batch and carries the tag, and in no other. -/
theorem ofEdge_eq_none_iff {repoId : String} {version : Option String} {ids : List String} {e : Edge} :
    ofEdge repoId version ids e = none ↔
      e.Conforms repoId ∧ e.fromId ∈ ids ∧ e.toId ∈ ids ∧ stampedWith version e.indexVersion = true := by
  simp only [ofEdge, check_eq_none, Decidable.not_not, Bool.or_eq_true, not_or, Bool.not_eq_true', Bool.not_eq_false,
    List.contains_iff_mem, and_true]
  constructor
  · rintro ⟨h1, h2, h3, ⟨h4, h5⟩, h6⟩
    exact ⟨⟨h1, h2, h3⟩, h4, h5, h6⟩
  · rintro ⟨⟨h1, h2, h3⟩, h4, h5, h6⟩
    exact ⟨h1, h2, h3, ⟨h4, h5⟩, h6⟩

/-- The contract of a batch. -/
structure Holds (repoId : String) (version : Option String) (entities : List Entity) (edges : List Edge) : Prop where
  entityIds : (entities.map (·.id)).Nodup
  entity : ∀ e ∈ entities, e.Conforms repoId
  entityTag : ∀ e ∈ entities, stampedWith version e.indexVersion = true
  edgeIds : (edges.map Edge.id).Nodup
  edge : ∀ e ∈ edges, e.Conforms repoId
  ends : ∀ e ∈ edges, e.fromId ∈ entities.map (·.id) ∧ e.toId ∈ entities.map (·.id)
  edgeTag : ∀ e ∈ edges, stampedWith version e.indexVersion = true

/-- Records that are accepted without a tag are accepted with the tag of the run. -/
theorem Holds.stamp {repoId : String} {entities : List Entity} {edges : List Edge} (h : Holds repoId none entities edges)
    (version : String) : Holds repoId (some version) (entities.map (Entity.stamp version)) (edges.map (Edge.stamp version)) := by
  have hids : (entities.map (Entity.stamp version)).map (·.id) = entities.map (·.id) := List.map_map
  have hedgeIds : (edges.map (Edge.stamp version)).map Edge.id = edges.map Edge.id := List.map_map
  refine ⟨hids ▸ h.entityIds, ?_, ?_, hedgeIds ▸ h.edgeIds, ?_, ?_, ?_⟩
  · intro e' he'
    obtain ⟨e, he, rfl⟩ := List.mem_map.1 he'
    have hc := h.entity e he
    exact ⟨hc.id, hc.repo, hc.kind, hc.path, hc.start, hc.range⟩
  · intro e' he'
    obtain ⟨e, -, rfl⟩ := List.mem_map.1 he'
    exact beq_self_eq_true (some version)
  · intro e' he'
    obtain ⟨e, he, rfl⟩ := List.mem_map.1 he'
    have hc := h.edge e he
    exact ⟨hc.repo, hc.kind, hc.confidence⟩
  · intro e' he'
    obtain ⟨e, he, rfl⟩ := List.mem_map.1 he'
    exact hids ▸ h.ends e he
  · intro e' he'
    obtain ⟨e, -, rfl⟩ := List.mem_map.1 he'
    exact beq_self_eq_true (some version)

/-- No violation is found in ids that are all different, and in no others. -/
theorem distinct_eq_none_iff {v : ContractViolation} {ids : List String} : distinct v ids = none ↔ ids.Nodup := by
  unfold distinct
  split <;> simp [*]

/-- A batch has no violation exactly when the contract holds of it. -/
theorem violation?_eq_none_iff {repoId : String} {version : Option String} {entities : List Entity} {edges : List Edge} :
    violation? repoId version entities edges = none ↔ Holds repoId version entities edges := by
  have horElse : ∀ a b : Option ContractViolation, (a <|> b) = none ↔ a = none ∧ b = none := by
    intro a b
    cases a <;> simp
  simp only [violation?, horElse, distinct_eq_none_iff, List.findSome?_eq_none_iff, ofEntity_eq_none_iff, ofEdge_eq_none_iff]
  constructor
  · rintro ⟨h1, h2, h3, h4⟩
    exact ⟨h1, fun e he => (h2 e he).1, fun e he => (h2 e he).2, h3, fun e he => (h4 e he).1,
      fun e he => ⟨(h4 e he).2.1, (h4 e he).2.2.1⟩, fun e he => (h4 e he).2.2.2⟩
  · intro h
    exact ⟨h.entityIds, fun e he => ⟨h.entity e he, h.entityTag e he⟩, h.edgeIds,
      fun e he => ⟨h.edge e he, (h.ends e he).1, (h.ends e he).2, h.edgeTag e he⟩⟩

theorem stampedWith_some {version : String} {tag : Option String} : stampedWith (some version) tag = true ↔ tag = some version := by
  simp [stampedWith]

end Contract

/-- A run has a batch exactly when the contract holds of what is assembled. -/
theorem WriteBatch.ofRun_eq_ok_iff {repoId : String} {version : Option String} {files : List IndexedFile}
    {entities : List Entity} {edges : List Edge} {b : WriteBatch} :
    ofRun repoId version files entities edges = .ok b ↔
      assemble repoId version files entities edges = b ∧ Contract.Holds repoId version b.entities b.edges := by
  unfold ofRun
  dsimp only
  constructor
  · intro h
    split at h
    · nomatch h
    · rename_i hnone
      cases h
      exact ⟨rfl, Contract.violation?_eq_none_iff.1 hnone⟩
  · rintro ⟨rfl, h⟩
    rw [Contract.violation?_eq_none_iff.2 h]

end CodeAtlas
