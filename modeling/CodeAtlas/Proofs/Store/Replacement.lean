import CodeAtlas.Proofs.Store.Audit
import CodeAtlas.Proofs.Store.Runs

/-!
# A finished run replaces the generation of its repository

Runs follow one another on a store that was empty at first, each of them broken off after any number of calls. Every record in the store
then comes from the batch of some run of its repository and carries the tag of that run, so that a run which comes to its end finds every
tag but its own among the counts, and retires it.
-/

namespace CodeAtlas

/-- The stores that runs may leave one after the other. Each run writes under a tag that no record of its repository carries yet, and may
be broken off after any number of calls. -/
inductive Reached : List IndexingRun → GraphStore → Prop where
  | start : Reached [] .empty
  | run {runs : List IndexingRun} {s : GraphStore} (earlier : Reached runs s) (run : IndexingRun) (calls : Nat)
      (tagged : run.version ≠ "") (unused : s.Unused run.repoId run.version) :
      Reached (runs ++ [run]) (StoreSession.after calls s run.session).1

/-- Entities of different repositories have different ids. -/
def DisjointRepositories (runs : List IndexingRun) : Prop :=
  ∀ run ∈ runs, ∀ other ∈ runs, run.repoId ≠ other.repoId →
    ∀ e ∈ run.batchEntities, ∀ f ∈ other.batchEntities, e.id ≠ f.id

/-- Edges with the same id are the same link. -/
def CollisionFree (runs : List IndexingRun) : Prop :=
  ∀ run ∈ runs, ∀ other ∈ runs, ∀ e ∈ run.batchEdges, ∀ f ∈ other.batchEdges, e.id = f.id → e.link = f.link

instance (runs : List IndexingRun) : Decidable (DisjointRepositories runs) :=
  inferInstanceAs (Decidable (∀ run ∈ runs, ∀ other ∈ runs, run.repoId ≠ other.repoId →
    ∀ e ∈ run.batchEntities, ∀ f ∈ other.batchEntities, e.id ≠ f.id))

instance (runs : List IndexingRun) : Decidable (CollisionFree runs) :=
  inferInstanceAs (Decidable (∀ run ∈ runs, ∀ other ∈ runs,
    ∀ e ∈ run.batchEdges, ∀ f ∈ other.batchEdges, e.id = f.id → e.link = f.link))

/-- Every record of a store is in the batch of one of some runs, all of which write under a tag. -/
structure FromRuns (runs : List IndexingRun) (s : GraphStore) : Prop where
  wellFormed : s.WellFormed
  tagged : ∀ run ∈ runs, run.version ≠ ""
  entity : ∀ row ∈ s.entities, ∃ run ∈ runs, row.2 ∈ run.batchEntities
  edge : ∀ row ∈ s.edges, ∃ run ∈ runs, row.2 ∈ run.batchEdges

namespace FromRuns

variable {runs : List IndexingRun} {s : GraphStore}

/-- One more run, wherever it is broken off, adds records of its own batch only. -/
theorem after (h : FromRuns runs s) (run : IndexingRun) (calls : Nat) (tagged : run.version ≠ "") :
    FromRuns (runs ++ [run]) (StoreSession.after calls s run.session).1 := by
  have hold : ∀ r ∈ runs, r ∈ runs ++ [run] := fun r hr => List.mem_append.2 (Or.inl hr)
  have hnew : run ∈ runs ++ [run] := List.mem_append.2 (Or.inr (List.mem_singleton.2 rfl))
  have putsOnly : run.session.Calls (StoreCall.PutsOnly (fun e => ∃ r ∈ runs ++ [run], e ∈ r.batchEntities)
      fun e => ∃ r ∈ runs ++ [run], e ∈ r.batchEdges) := by
    refine run.session_putsOnly.mono fun c hc => ?_
    cases c with
    | upsertEntities es => exact fun e he => ⟨run, hnew, hc e he⟩
    | upsertEdges es => exact fun e he => ⟨run, hnew, hc e he⟩
    | _ => trivial
  obtain ⟨wf, hentity, hedge⟩ := putsOnly.after_keeps StoreCall.PutsOnly.keeps calls
    ⟨h.wellFormed, fun row hrow => (h.entity row hrow).imp fun r hr => ⟨hold r hr.1, hr.2⟩,
      fun row hrow => (h.edge row hrow).imp fun r hr => ⟨hold r hr.1, hr.2⟩⟩
  refine ⟨wf, ?_, hentity, hedge⟩
  intro r hr
  rcases List.mem_append.1 hr with hr | hr
  · exact h.tagged r hr
  · exact List.mem_singleton.1 hr ▸ tagged

/-- Every entity carries a tag, which is not empty. -/
theorem entity_tag (h : FromRuns runs s) {row : String × Entity} (hrow : row ∈ s.entities) :
    ∃ w, row.2.indexVersion = some w ∧ w ≠ "" := by
  obtain ⟨run, hrun, he⟩ := h.entity row hrow
  exact ⟨run.version, IndexingRun.tag_of_entity he, h.tagged run hrun⟩

/-- Every edge carries a tag, which is not empty. -/
theorem edge_tag (h : FromRuns runs s) {row : String × Edge} (hrow : row ∈ s.edges) :
    ∃ w, row.2.indexVersion = some w ∧ w ≠ "" := by
  obtain ⟨run, hrun, he⟩ := h.edge row hrow
  exact ⟨run.version, IndexingRun.tag_of_edge he, h.tagged run hrun⟩

/-- The ends of an edge of one repository are no entities of another. -/
theorem ends_apart (h : FromRuns runs s) (disjoint : DisjointRepositories runs) {row : String × Edge} (hrow : row ∈ s.edges)
    {repoId : String} (other : row.2.repoId ≠ repoId) (w : String) :
    row.2.fromId ∉ s.entityIds repoId w ∧ row.2.toId ∉ s.entityIds repoId w := by
  obtain ⟨run, hrun, hedge⟩ := h.edge row hrow
  have apart : ∀ id ∈ run.batchEntities.map (·.id), id ∉ s.entityIds repoId w := by
    intro id hid hk
    obtain ⟨e, he, rfl⟩ := List.mem_map.1 hid
    obtain ⟨f, hf, hfr, -⟩ := GraphStore.mem_entityIds.1 hk
    obtain ⟨run', hrun', hfc⟩ := h.entity _ hf
    refine disjoint run hrun run' hrun' ?_ e he f hfc (h.wellFormed.entityIds _ hf)
    rw [← (run.holds.edge _ hedge).repo, ← (run'.holds.entity _ hfc).repo, hfr]
    exact other
  exact ⟨apart _ (run.holds.ends _ hedge).1, apart _ (run.holds.ends _ hedge).2⟩

end FromRuns

/-- In every store that runs leave, the records come from the runs. -/
theorem Reached.fromRuns {runs : List IndexingRun} {s : GraphStore} (h : Reached runs s) : FromRuns runs s := by
  induction h with
  | start =>
    exact ⟨GraphStore.wellFormed_empty, fun _ h => absurd h List.not_mem_nil, fun _ h => absurd h List.not_mem_nil,
      fun _ h => absurd h List.not_mem_nil⟩
  | run _ run calls tagged _ ih => exact ih.after run calls tagged

namespace IndexingRun

open GraphStore

variable {run : IndexingRun} {b : WriteBatch} {runs : List IndexingRun} {s : GraphStore}

/-! ## The store once a batch is written -/

/-- After the write there are the entities of the batch, and those with other ids from before. -/
theorem mem_entities_written (wf : s.WellFormed) (row : String × Entity) :
    row ∈ (run.written s).entities ↔
      (∃ e ∈ run.batchEntities, row = (e.id, e)) ∨ row.1 ∉ run.batchEntities.map (·.id) ∧ row ∈ s.entities :=
  Keyed.mem_putAll run.holds.entityIds wf.entityKeys row

/-- After the write of a run the edges of its batch are there with their new contents, and all other edges as they were. -/
theorem mem_edges_written (wf : s.WellFormed) (row : String × Edge) :
    row ∈ (run.written s).edges ↔
      (∃ e ∈ run.batchEdges, row = (e.id, e)) ∨ row.1 ∉ run.batchEdges.map Edge.id ∧ row ∈ s.edges :=
  Keyed.mem_putAll run.holds.edgeIds wf.edgeKeys row

/-- The store after the write is one that the run may leave when it is broken off. -/
theorem written_eq_after (h : run.batch = .ok b) : run.written s = (StoreSession.after 2 s run.session).1 := by
  rw [session_of_batch h]
  rfl

/-- The entities of a batch stand under their ids with the tag of the run, and under no other tag. -/
theorem not_mem_entityIds_written (wf : s.WellFormed) {id w : String} (hid : id ∈ run.batchEntities.map (·.id))
    (hw : w ≠ run.version) (repoId : String) : id ∉ (run.written s).entityIds repoId w := by
  intro hk
  obtain ⟨e, hm, -, htag⟩ := mem_entityIds.1 hk
  rcases (mem_entities_written wf _).1 hm with ⟨f, hf, heq⟩ | ⟨hn, -⟩
  · cases heq
    exact hw (Option.some.inj (htag.symm.trans (tag_of_entity hf)))
  · exact hn hid

/-- The write leaves the entities of the other repositories. -/
theorem entityRows_written_of_ne (from_ : FromRuns runs s) (disjoint : DisjointRepositories (runs ++ [run])) {other : String}
    (hne : other ≠ run.repoId) : (run.written s).entityRows other = s.entityRows other := by
  have hrepo : ∀ e ∈ run.batchEntities, e.repoId ≠ other := fun e he hr => hne (hr ▸ (run.holds.entity e he).repo)
  refine Keyed.filter_putAll from_.wellFormed.entityKeys (fun e he => beq_false_of_ne (hrepo e he)) ?_
  intro row hrow hid
  obtain ⟨e, he, hkey⟩ := List.mem_map.1 hid
  obtain ⟨run', hrun', hf⟩ := from_.entity row hrow
  refine beq_false_of_ne ?_
  intro hr
  have hrepo' : run.repoId ≠ run'.repoId := by
    rw [← (run'.holds.entity _ hf).repo, hr]
    exact fun e => hne e.symm
  exact disjoint run (by simp) run' (by simp [hrun']) hrepo' e he row.2 hf (hkey.trans (from_.wellFormed.entityIds row hrow))

/-- The write leaves the edges of the other repositories: one with the id of an edge of the batch would be the same link, and its ends
would be entities of both repositories. -/
theorem edgeRows_written_of_ne (from_ : FromRuns runs s) (disjoint : DisjointRepositories (runs ++ [run]))
    (collisionFree : CollisionFree (runs ++ [run])) {other : String} (hne : other ≠ run.repoId) :
    (run.written s).edgeRows other = s.edgeRows other := by
  have hrepo : ∀ e ∈ run.batchEdges, e.repoId ≠ other := fun e he hr => hne (hr ▸ (run.holds.edge e he).repo)
  refine Keyed.filter_putAll from_.wellFormed.edgeKeys (fun e he => beq_false_of_ne (hrepo e he)) ?_
  intro row hrow hid
  obtain ⟨e, he, hkey⟩ := List.mem_map.1 hid
  obtain ⟨run', hrun', hf⟩ := from_.edge row hrow
  refine beq_false_of_ne ?_
  intro hr
  have hrepo' : run.repoId ≠ run'.repoId := by
    rw [← (run'.holds.edge _ hf).repo, hr]
    exact fun e => hne e.symm
  have hlink := collisionFree run (by simp) run' (by simp [hrun']) e he row.2 hf (hkey.trans (from_.wellFormed.edgeIds row hrow))
  have hfrom : e.fromId = row.2.fromId := congrArg (·.1) hlink
  obtain ⟨x, hx, hxid⟩ := List.mem_map.1 (run.holds.ends e he).1
  obtain ⟨y, hy, hyid⟩ := List.mem_map.1 (run'.holds.ends _ hf).1
  exact disjoint run (by simp) run' (by simp [hrun']) hrepo' x hx y hy (hxid.trans (hfrom.trans hyid.symm))

/-! ## What finalizing retires -/

/-- The tags that a run retires are those found on the rows of its repository or active there, except its own and the empty one. -/
theorem mem_stale {w : String} :
    w ∈ run.stale s ↔ (s.activeVersion run.repoId = some w ∨
      (∃ row ∈ s.entities, row.2.repoId = run.repoId ∧ row.2.indexVersion = some w) ∨
        ∃ row ∈ s.edges, row.2.repoId = run.repoId ∧ row.2.indexVersion = some w) ∧ w ≠ "" ∧ w ≠ run.version := by
  rw [stale, StoreSession.mem_staleVersions, mem_versionCounts_entities, mem_versionCounts_edges]

/-- The store once the batch is written and the stale tags are deleted. -/
def replaced (run : IndexingRun) (s : GraphStore) : GraphStore :=
  (run.written s).deleteVersions run.repoId (run.stale (run.written s))

/-- In the end the entities of the repository are those of the batch. An older record carries a tag that finalizing finds. -/
theorem mem_entityRows_replaced (from_ : FromRuns runs s) (unused : s.Unused run.repoId run.version) (row : String × Entity) :
    row ∈ (run.replaced s).entityRows run.repoId ↔ ∃ e ∈ run.batchEntities, row = (e.id, e) := by
  rw [entityRows, replaced, List.mem_filter, mem_entities_deleteVersions, beq_iff_eq]
  constructor
  · rintro ⟨⟨hm, hkept⟩, hr⟩
    rcases (mem_entities_written from_.wellFormed row).1 hm with hb | ⟨-, hold⟩
    · exact hb
    · obtain ⟨w, htag, hw⟩ := from_.entity_tag hold
      have hne : w ≠ run.version := fun e => unused.1 row hold hr (e ▸ htag)
      exact absurd ⟨hr, htag⟩ (hkept w (mem_stale.2 ⟨Or.inr (Or.inl ⟨row, hm, hr, htag⟩), hw, hne⟩))
  · rintro ⟨e, he, rfl⟩
    refine ⟨⟨(mem_entities_written from_.wellFormed _).2 (Or.inl ⟨e, he, rfl⟩), ?_⟩, (run.holds.entity e he).repo⟩
    rintro w hw ⟨-, htag⟩
    exact (mem_stale.1 hw).2.2 (Option.some.inj (htag.symm.trans (tag_of_entity he)))

/-- In the end the edges of the repository are those of the batch. No entity of the batch is deleted, and so no edge of the batch loses an
end. -/
theorem mem_edgeRows_replaced (from_ : FromRuns runs s) (unused : s.Unused run.repoId run.version) (row : String × Edge) :
    row ∈ (run.replaced s).edgeRows run.repoId ↔ ∃ e ∈ run.batchEdges, row = (e.id, e) := by
  rw [edgeRows, replaced, List.mem_filter, mem_edges_deleteVersions, beq_iff_eq]
  constructor
  · rintro ⟨⟨hm, hkept⟩, hr⟩
    rcases (mem_edges_written from_.wellFormed row).1 hm with hb | ⟨-, hold⟩
    · exact hb
    · obtain ⟨w, htag, hw⟩ := from_.edge_tag hold
      have hne : w ≠ run.version := fun e => unused.2 row hold hr (e ▸ htag)
      exact absurd ⟨hr, htag⟩ (hkept w (mem_stale.2 ⟨Or.inr (Or.inr ⟨row, hm, hr, htag⟩), hw, hne⟩)).1
  · rintro ⟨e, he, rfl⟩
    refine ⟨⟨(mem_edges_written from_.wellFormed _).2 (Or.inl ⟨e, he, rfl⟩), ?_⟩, (run.holds.edge e he).repo⟩
    intro w hw
    have hne := (mem_stale.1 hw).2.2
    refine ⟨fun htag => hne (Option.some.inj (htag.2.symm.trans (tag_of_edge he))), ?_, ?_⟩
    · exact not_mem_entityIds_written from_.wellFormed (run.holds.ends e he).1 hne _
    · exact not_mem_entityIds_written from_.wellFormed (run.holds.ends e he).2 hne _

/-- Finalizing leaves the entities of the other repositories. -/
theorem entityRows_replaced_of_ne (from_ : FromRuns runs s) (disjoint : DisjointRepositories (runs ++ [run])) {other : String}
    (hne : other ≠ run.repoId) : (run.replaced s).entityRows other = s.entityRows other := by
  rw [replaced, entityRows_deleteVersions_of_ne _ hne, entityRows_written_of_ne from_ disjoint hne]

/-- Finalizing leaves the edges of the other repositories, since none of them ends at an entity that is deleted. -/
theorem edgeRows_replaced_of_ne (h : run.batch = .ok b) (from_ : FromRuns runs s) (tagged : run.version ≠ "")
    (disjoint : DisjointRepositories (runs ++ [run])) (collisionFree : CollisionFree (runs ++ [run])) {other : String}
    (hne : other ≠ run.repoId) : (run.replaced s).edgeRows other = s.edgeRows other := by
  have fromWritten : FromRuns (runs ++ [run]) (run.written s) := written_eq_after h ▸ from_.after run 2 tagged
  rw [replaced, edgeRows_deleteVersions_of_ne hne, edgeRows_written_of_ne from_ disjoint collisionFree hne]
  intro row hrow hr w _
  exact fromWritten.ends_apart disjoint hrow (hr ▸ hne) w

end IndexingRun

/-- What a finished run leaves, beside the store that it found: its repository is what it has written, all under its tag, which is
the active one, and nothing else has changed. -/
structure Replaces (run : IndexingRun) (batch : WriteBatch) (found left : GraphStore) : Prop where
  entities : (left.entityRows run.repoId).Perm (batch.entities.map fun e => (e.id, e))
  edges : (left.edgeRows run.repoId).Perm (batch.edges.map fun e => (e.id, e))
  entityTags : ∀ row ∈ left.entityRows run.repoId, row.2.indexVersion = some run.version
  edgeTags : ∀ row ∈ left.edgeRows run.repoId, row.2.indexVersion = some run.version
  active : left.activeVersion run.repoId = some run.version
  audit : ((StoreSession.audit run.repoId run.version).run left).1.ok = true
  others : ∀ repoId ≠ run.repoId, left.entityRows repoId = found.entityRows repoId ∧
    left.edgeRows repoId = found.edgeRows repoId ∧ left.activeVersion repoId = found.activeVersion repoId

/-- A run that comes to its end, after whatever earlier runs have left, replaces the generation of its repository by its batch. -/
theorem finished_run_replaces {runs : List IndexingRun} {s : GraphStore} (reached : Reached runs s) (run : IndexingRun)
    (tagged : run.version ≠ "") (unused : s.Unused run.repoId run.version) (disjoint : DisjointRepositories (runs ++ [run]))
    (collisionFree : CollisionFree (runs ++ [run])) {calls : Nat} {retired : Option String}
    (finished : (StoreSession.after calls s run.session).2 = .done (.ok retired)) :
    ∃ b, run.batch = .ok b ∧ Replaces run b s (StoreSession.after calls s run.session).1 := by
  have from_ := reached.fromRuns
  obtain ⟨b, hb⟩ := IndexingRun.exists_batch finished
  have hleft : (StoreSession.after calls s run.session).1 = (run.replaced s).setActiveVersion run.repoId run.version := by
    have h := StoreSession.run_of_after_done finished
    rw [IndexingRun.run_session hb] at h
    exact (Prod.mk.inj h).2.symm
  have wf : (run.replaced s).WellFormed :=
    ((from_.wellFormed.upsertEntities run.batchEntities).upsertEdges run.batchEdges).deleteVersions _ _
  have hentities := IndexingRun.mem_entityRows_replaced from_ unused
  have hedges := IndexingRun.mem_edgeRows_replaced from_ unused
  have entityTags : ∀ row ∈ (run.replaced s).entityRows run.repoId, row.2.indexVersion = some run.version := by
    intro row hrow
    obtain ⟨e, he, rfl⟩ := (hentities row).1 hrow
    exact IndexingRun.tag_of_entity he
  have edgeTags : ∀ row ∈ (run.replaced s).edgeRows run.repoId, row.2.indexVersion = some run.version := by
    intro row hrow
    obtain ⟨e, he, rfl⟩ := (hedges row).1 hrow
    exact IndexingRun.tag_of_edge he
  refine ⟨b, hb, ?_⟩
  rw [hleft]
  refine ⟨?_, ?_, entityTags, edgeTags, Keyed.find_put_self _ _ _, GraphStore.audit_ok entityTags edgeTags, ?_⟩
  · rw [← IndexingRun.batchEntities_of_batch hb]
    exact Keyed.perm_of_mem_iff run.holds.entityIds (wf.entityKeys.sublist (List.filter_sublist.map _)) hentities
  · rw [← IndexingRun.batchEdges_of_batch hb]
    exact Keyed.perm_of_mem_iff run.holds.edgeIds (wf.edgeKeys.sublist (List.filter_sublist.map _)) hedges
  · intro repoId hne
    refine ⟨IndexingRun.entityRows_replaced_of_ne from_ disjoint hne,
      IndexingRun.edgeRows_replaced_of_ne hb from_ tagged disjoint collisionFree hne, ?_⟩
    refine (Keyed.find_put_of_ne hne _ _).trans ?_
    rw [IndexingRun.replaced, GraphStore.active_deleteVersions]
    rfl

namespace SampleRuns

/-- The first run of a repository, to be broken off before it finalizes. -/
def crashed : IndexingRun :=
  { repoId := "r", version := "a", entities := [file "r" "f", file "r" "g"], edges := [imports "r" "f" "g"] }

/-- A run of another repository. -/
def elsewhere : IndexingRun := { repoId := "q", version := "a", entities := [file "q" "h"] }

/-- A later run of the first repository: a file is gone, another one is new. -/
def last : IndexingRun :=
  { repoId := "r", version := "b", entities := [file "r" "g", file "r" "k"], edges := [imports "r" "g" "k"] }

/-- What the crashed run and the other repository's run leave. -/
def found : GraphStore :=
  (StoreSession.after 6 (StoreSession.after 2 .empty crashed.session).1 elsewhere.session).1

/-- The store `found` is left by a run that broke off and a run of another repository. -/
theorem found_reached : Reached [crashed, elsewhere] found :=
  .run (.run .start crashed 2 (by decide) (by decide +kernel)) elsewhere 6 (by decide) (by decide +kernel)

end SampleRuns

open SampleRuns in
/-- The run that follows on a crashed one finishes and leaves nothing of it. -/
theorem last_replaces_crashed : ∃ calls b, last.batch = .ok b ∧ b.entities.length = 2 ∧ b.edges.length = 1 ∧
    Replaces last b found (StoreSession.after calls found last.session).1 := by
  have hsize : (last.batch.toOption.map fun b => (b.entities.length, b.edges.length)) = some (2, 1) := by decide +kernel
  cases h : last.batch with
  | error v =>
    rw [h] at hsize
    nomatch hsize
  | ok b =>
    rw [h] at hsize
    obtain ⟨hentities, hedges⟩ := Prod.mk.inj (Option.some.inj hsize)
    obtain ⟨calls, retired, finished⟩ := IndexingRun.exists_finished h found
    obtain ⟨c, hc, replaces⟩ := finished_run_replaces found_reached last (by decide) (by decide +kernel) (by decide +kernel)
      (by decide +kernel) finished
    cases h.symm.trans hc
    exact ⟨calls, b, rfl, hentities, hedges, replaces⟩

end CodeAtlas
