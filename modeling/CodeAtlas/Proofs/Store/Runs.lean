import CodeAtlas.Proofs.Graph.Contract
import CodeAtlas.Proofs.Store.Calls
import CodeAtlas.Proofs.Store.Tags

/-!
# Indexing runs on a store

A run writes its batch and then finalizes. What it may do to a store, however far it gets, follows from its batch: it puts records of
the batch and nothing else.
-/

namespace CodeAtlas

/-- What an indexing run has found, the repository that it is about and the tag that it writes under. -/
structure IndexingRun where
  repoId : String
  version : String
  files : List IndexedFile := []
  entities : List Entity := []
  edges : List Edge := []

namespace IndexingRun

/-- The batch that a run writes, unless it breaks the contract. -/
def batch (run : IndexingRun) : Except ContractViolation WriteBatch :=
  WriteBatch.ofRun run.repoId (some run.version) run.files run.entities run.edges

/-- A run writes its batch and finalizes when that is done. -/
def session (run : IndexingRun) : StoreSession (Except ContractViolation (Option String)) := do
  match ← StoreSession.write run.repoId (some run.version) run.files run.entities run.edges with
  | .error v => return .error v
  | .ok _ => return .ok (← StoreSession.finalize run.repoId run.version)

/-- The entities of the batch; there are none when it breaks the contract. -/
def batchEntities (run : IndexingRun) : List Entity :=
  match run.batch with
  | .ok b => b.entities
  | .error _ => []

/-- The edges of the batch; there are none when it breaks the contract. -/
def batchEdges (run : IndexingRun) : List Edge :=
  match run.batch with
  | .ok b => b.edges
  | .error _ => []

variable {run : IndexingRun} {b : WriteBatch}

/-- The entities of an accepted batch are those the run writes. -/
theorem batchEntities_of_batch (h : run.batch = .ok b) : run.batchEntities = b.entities := by
  rw [batchEntities, h]

/-- The edges of an accepted batch are those the run writes. -/
theorem batchEdges_of_batch (h : run.batch = .ok b) : run.batchEdges = b.edges := by
  rw [batchEdges, h]

/-- An accepted batch keeps the write contract under the tag of its run. -/
theorem batch_holds (h : run.batch = .ok b) : Contract.Holds run.repoId (some run.version) b.entities b.edges :=
  (WriteBatch.ofRun_eq_ok_iff.1 h).2

/-- The contract holds of what a run writes, be it nothing. -/
theorem holds (run : IndexingRun) : Contract.Holds run.repoId (some run.version) run.batchEntities run.batchEdges := by
  cases h : run.batch with
  | ok b =>
    rw [batchEntities_of_batch h, batchEdges_of_batch h]
    exact batch_holds h
  | error v =>
    have hnone : ∀ {α : Type} {P : α → Prop}, ∀ x ∈ ([] : List α), P x := fun x hx => absurd hx List.not_mem_nil
    rw [batchEntities, batchEdges, h]
    exact ⟨List.nodup_nil, hnone, hnone, List.nodup_nil, hnone, hnone, hnone⟩

/-- Every entity that a run writes carries the tag of the run. -/
theorem tag_of_entity {e : Entity} (he : e ∈ run.batchEntities) : e.indexVersion = some run.version :=
  Contract.stampedWith_some.1 (run.holds.entityTag e he)

/-- Every edge that a run writes carries the tag of the run. -/
theorem tag_of_edge {e : Edge} (he : e ∈ run.batchEdges) : e.indexVersion = some run.version :=
  Contract.stampedWith_some.1 (run.holds.edgeTag e he)

/-- A run whose batch breaks the contract makes no call. -/
theorem session_of_error {v : ContractViolation} (h : run.batch = .error v) : run.session = .done (.error v) := by
  unfold batch at h
  simp only [session, StoreSession.write, h]
  rfl

/-- The calls of a run with a batch: the entities, the edges, and the calls of finalizing. -/
theorem session_of_batch (h : run.batch = .ok b) :
    run.session = .upsertEntities run.batchEntities fun _ => .upsertEdges run.batchEdges fun _ =>
      (StoreSession.finalize run.repoId run.version).bind fun retired => .done (.ok retired) := by
  rw [batchEntities_of_batch h, batchEdges_of_batch h]
  unfold batch at h
  simp only [session, StoreSession.write, h]
  rfl

/-- The store once the batch is written. -/
def written (run : IndexingRun) (s : GraphStore) : GraphStore := (s.upsertEntities run.batchEntities).upsertEdges run.batchEdges

/-- Every id of the batch is in the store, under the tag of the run. -/
def Stands (run : IndexingRun) (s : GraphStore) : Prop :=
  (∀ e ∈ run.batchEntities, ∃ row ∈ s.entities, row.1 = e.id ∧ row.2.indexVersion = some run.version) ∧
    ∀ e ∈ run.batchEdges, ∃ row ∈ s.edges, row.1 = e.id ∧ row.2.indexVersion = some run.version

instance (run : IndexingRun) (s : GraphStore) : Decidable (run.Stands s) := inferInstanceAs (Decidable (_ ∧ _))

/-- The tags that a run retires, read from the store once its batch is written. -/
def stale (run : IndexingRun) (s : GraphStore) : List String :=
  StoreSession.staleVersions run.version (s.activeVersion run.repoId) (s.versionCounts run.repoId)

/-- A whole run: its batch is written, the stale tags are deleted and its own becomes the active one. -/
theorem run_session (h : run.batch = .ok b) (s : GraphStore) :
    run.session.run s = (.ok (run.stale (run.written s)).head?,
      ((run.written s).deleteVersions run.repoId (run.stale (run.written s))).setActiveVersion run.repoId run.version) := by
  rw [session_of_batch h, StoreSession.run_step, StoreSession.step, StoreSession.run_step, StoreSession.step, StoreSession.run_bind,
    StoreSession.run_finalize]
  rfl

/-- A run with a batch that is not broken off comes to its end. -/
theorem exists_finished (h : run.batch = .ok b) (s : GraphStore) :
    ∃ calls retired, (StoreSession.after calls s run.session).2 = .done (.ok retired) := by
  obtain ⟨calls, hcalls⟩ := StoreSession.exists_after_done s run.session
  refine ⟨calls, (run.stale (run.written s)).head?, ?_⟩
  rw [hcalls, run_session h]

/-- A run that comes to its end without a violation has a batch. -/
theorem exists_batch {calls : Nat} {s : GraphStore} {retired : Option String}
    (h : (StoreSession.after calls s run.session).2 = .done (.ok retired)) : ∃ b, run.batch = .ok b := by
  cases hb : run.batch with
  | ok b => exact ⟨b, rfl⟩
  | error v =>
    have hrun := StoreSession.run_of_after_done h
    rw [session_of_error hb, StoreSession.run_done] at hrun
    nomatch (Prod.mk.inj hrun).1

end IndexingRun

namespace StoreCall

/-- A call that puts no other entities and edges than those described. -/
def PutsOnly (P : Entity → Prop) (Q : Edge → Prop) : StoreCall → Prop
  | upsertEntities es => ∀ e ∈ es, P e
  | upsertEdges es => ∀ e ∈ es, Q e
  | _ => True

/-- Calls that put only certain records keep a store in which there are only such records. -/
theorem PutsOnly.keeps {P : Entity → Prop} {Q : Edge → Prop} (c : StoreCall) (s : GraphStore) (hc : c.PutsOnly P Q)
    (hs : s.WellFormed ∧ (∀ row ∈ s.entities, P row.2) ∧ ∀ row ∈ s.edges, Q row.2) :
    (c.effect s).WellFormed ∧ (∀ row ∈ (c.effect s).entities, P row.2) ∧ ∀ row ∈ (c.effect s).edges, Q row.2 := by
  obtain ⟨wf, hP, hQ⟩ := hs
  refine ⟨effect_wellFormed wf c, ?_⟩
  cases c with
  | upsertEntities es =>
    refine ⟨?_, hQ⟩
    intro row hrow
    rcases Keyed.mem_putAll_imp wf.entityKeys hrow with ⟨e, he, rfl⟩ | hrow
    · exact hc e he
    · exact hP row hrow
  | upsertEdges es =>
    refine ⟨hP, ?_⟩
    intro row hrow
    rcases Keyed.mem_putAll_imp wf.edgeKeys hrow with ⟨e, he, rfl⟩ | hrow
    · exact hc e he
    · exact hQ row hrow
  | deleteVersion r v =>
    exact ⟨fun row hrow => hP row (GraphStore.mem_entities_deleteVersion.1 hrow).1,
      fun row hrow => hQ row (GraphStore.mem_edges_deleteVersion.1 hrow).1⟩
  | setActiveVersion r v => exact ⟨hP, hQ⟩
  | activeVersion r => exact ⟨hP, hQ⟩
  | versionCounts r => exact ⟨hP, hQ⟩

end StoreCall

namespace StoreSession

/-- What holds of every deletion of a version holds of every call of `deleteVersions`. -/
theorem calls_deleteVersions {P : StoreCall → Prop} (repoId : String) {versions : List String}
    (h : ∀ v ∈ versions, P (.deleteVersion repoId v)) : (deleteVersions repoId versions).Calls P := by
  induction versions with
  | nil => trivial
  | cons v vs ih => exact ⟨h v List.mem_cons_self, fun _ => ih fun w hw => h w (List.mem_cons_of_mem v hw)⟩

/-- Finalizing reads the active tag and the counts, deletes tags other than its own, and makes its own the active one. -/
theorem calls_finalize {P : StoreCall → Prop} {repoId version : String} (active : P (.activeVersion repoId))
    (counts : P (.versionCounts repoId)) (delete : ∀ v, v ≠ version → P (.deleteVersion repoId v))
    (set : P (.setActiveVersion repoId version)) : (finalize repoId version).Calls P := by
  refine ⟨active, fun previous => ⟨counts, fun c => ?_⟩⟩
  refine Calls.bind (calls_deleteVersions repoId ?_) fun _ => ⟨set, trivial⟩
  intro v hv
  exact delete v (mem_staleVersions.1 hv).2.2

end StoreSession

/-- Whatever a run calls, it puts no other records than those of its batch. -/
theorem IndexingRun.session_putsOnly (run : IndexingRun) :
    run.session.Calls (StoreCall.PutsOnly (· ∈ run.batchEntities) (· ∈ run.batchEdges)) := by
  cases h : run.batch with
  | error v =>
    rw [session_of_error h]
    trivial
  | ok b =>
    rw [session_of_batch h, batchEntities_of_batch h, batchEdges_of_batch h]
    refine ⟨fun _ he => he, fun _ => ⟨fun _ he => he, fun _ => ?_⟩⟩
    exact (StoreSession.calls_finalize trivial trivial (fun _ _ => trivial) trivial).bind fun _ => trivial

/-! ## Small records for sample runs -/

namespace SampleRuns

/-- A file of one line. -/
def file (repoId id : String) : Entity where
  id := id
  repoId := repoId
  kind := .file
  name := id
  filePath := id
  startLine := 1
  endLine := 1
  language := ""

/-- One file imports another. -/
def imports (repoId fromId toId : String) : Edge where
  fromId := fromId
  toId := toId
  kind := .imports
  repoId := repoId

end SampleRuns

end CodeAtlas
