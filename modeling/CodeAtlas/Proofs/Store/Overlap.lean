import CodeAtlas.Proofs.Store.Runs

/-!
# Two runs of a repository at a time

Nothing keeps two runs from taking turns on one store. Each puts its records over the other's, and each retires the tag of the other if it
finds it. So the batch of a run stands in the end exactly if, when the run makes its first call, the other one has already taken its
look at the tags and will not delete the one of the run.
-/

namespace CodeAtlas

/-! ## A run, stage by stage -/

/-- How far a run has come. -/
inductive RunStage where
  | entities
  | edges
  | active
  | counts (previous : Option String)
  | sweep (versions : List String) (retired : Option String)
  | ended (retired : Option String)

namespace RunStage

/-- What is left of a run while it sweeps. -/
def sweeping (run : IndexingRun) (retired : Option String) : List String → StoreSession (Except ContractViolation (Option String))
  | [] => .setActiveVersion run.repoId run.version (.done (.ok retired))
  | v :: vs => .deleteVersion run.repoId v fun _ => sweeping run retired vs

/-- What is left of a run once it knows the active tag. -/
def counting (run : IndexingRun) (previous : Option String) : StoreSession (Except ContractViolation (Option String)) :=
  .versionCounts run.repoId fun counts =>
    let stale := StoreSession.staleVersions run.version previous counts
    sweeping run stale.head? stale

/-- What is left of a run at a stage. -/
def session (run : IndexingRun) : RunStage → StoreSession (Except ContractViolation (Option String))
  | entities => .upsertEntities run.batchEntities fun _ => .upsertEdges run.batchEdges fun _ =>
      .activeVersion run.repoId (counting run)
  | edges => .upsertEdges run.batchEdges fun _ => .activeVersion run.repoId (counting run)
  | active => .activeVersion run.repoId (counting run)
  | counts previous => counting run previous
  | sweep versions retired => sweeping run retired versions
  | ended retired => .done (.ok retired)

/-- The store after the next call of a run at a stage. -/
def store (run : IndexingRun) (s : GraphStore) : RunStage → GraphStore
  | entities => s.upsertEntities run.batchEntities
  | edges => s.upsertEdges run.batchEdges
  | sweep [] _ => s.setActiveVersion run.repoId run.version
  | sweep (v :: _) _ => s.deleteVersion run.repoId v
  | active => s
  | counts _ => s
  | ended _ => s

/-- The stage after the next call. -/
def next (run : IndexingRun) (s : GraphStore) : RunStage → RunStage
  | entities => edges
  | edges => active
  | active => counts (s.activeVersion run.repoId)
  | counts previous =>
    let stale := StoreSession.staleVersions run.version previous (s.versionCounts run.repoId)
    sweep stale stale.head?
  | sweep [] retired => ended retired
  | sweep (_ :: vs) retired => sweep vs retired
  | ended retired => ended retired

variable {run : IndexingRun}

/-- At every stage of a run the store is well-formed. -/
theorem wellFormed_store (run : IndexingRun) {s : GraphStore} (h : s.WellFormed) (stage : RunStage) :
    (stage.store run s).WellFormed := by
  cases stage with
  | entities => exact h.upsertEntities _
  | edges => exact h.upsertEdges _
  | active => exact h
  | counts previous => exact h
  | sweep versions retired =>
    cases versions with
    | nil => exact h.setActiveVersion _ _
    | cons v vs => exact h.deleteVersion _ _
  | ended retired => exact h

/-- A session makes a step as its stage does. -/
theorem step_session (s : GraphStore) (stage : RunStage) :
    (stage.session run).step s = (stage.store run s, (stage.next run s).session run) := by
  cases stage with
  | sweep versions retired => cases versions <;> rfl
  | _ => rfl

/-- What is left of finalizing is to delete the tags and to set the active one. -/
theorem bind_deleteVersions (retired : Option String) (versions : List String) :
    ((StoreSession.deleteVersions run.repoId versions).bind fun _ =>
      (StoreSession.setActiveVersion run.repoId run.version (.done retired)).bind fun r => .done (.ok r)) =
        sweeping run retired versions := by
  induction versions with
  | nil => rfl
  | cons v vs ih =>
    rw [StoreSession.deleteVersions, sweeping]
    exact congrArg _ (funext fun _ => ih)

/-- A run with a batch begins at the first stage. -/
theorem session_entities {b : WriteBatch} (h : run.batch = .ok b) : run.session = entities.session run := by
  rw [IndexingRun.session_of_batch h, session]
  have hfinalize : (StoreSession.finalize run.repoId run.version).bind (fun retired => .done (.ok retired)) =
      .activeVersion run.repoId (counting run) := by
    refine congrArg (StoreSession.activeVersion run.repoId) (funext fun previous => ?_)
    refine congrArg (StoreSession.versionCounts run.repoId) (funext fun counts => ?_)
    exact (StoreSession.bind_assoc _ _ _).trans (bind_deleteVersions _ _)
  rw [hfinalize]

/-- A run has ended when nothing is left of it. -/
theorem eq_ended {stage : RunStage} {retired : Option String} (h : stage.session run = .done (.ok retired)) :
    stage = ended retired := by
  cases stage with
  | ended r =>
    cases h
    rfl
  | sweep versions r =>
    cases versions with
    | nil => nomatch h
    | cons v vs => nomatch h
  | entities => nomatch h
  | edges => nomatch h
  | active => nomatch h
  | counts previous => nomatch h

end RunStage

/-! ## Taking turns -/

/-- One of two sides. -/
inductive Side where
  | first
  | second
  deriving DecidableEq

namespace Side

/-- The side that a side takes turns with. -/
def other : Side → Side
  | first => second
  | second => first

/-- The other side is another one. -/
theorem other_ne (side : Side) : side.other ≠ side := by
  cases side <;> decide

/-- A side that is not this one is the other. -/
theorem eq_other_of_ne {side own : Side} (h : side ≠ own) : side = own.other := by
  cases side <;> cases own <;> first | rfl | exact absurd rfl h

end Side

/-- Two sessions and the store that they share. -/
structure Overlap (α : Type) where
  store : GraphStore
  session : Side → StoreSession α

namespace Overlap

section

variable {α : Type}

/-- One side makes its next call. -/
def step (o : Overlap α) (side : Side) : Overlap α where
  store := ((o.session side).step o.store).1
  session := fun u => if u = side then ((o.session side).step o.store).2 else o.session u

/-- The sides make their calls in the order of their turns. -/
def play (o : Overlap α) (turns : List Side) : Overlap α := turns.foldl step o

/-- A turn takes the session of its side one step further. -/
theorem session_step_self (o : Overlap α) (side : Side) : (o.step side).session side = ((o.session side).step o.store).2 := if_pos rfl

/-- It leaves the session of the other side. -/
theorem session_step_of_ne (o : Overlap α) {own side : Side} (h : own ≠ side) : (o.step side).session own = o.session own :=
  if_neg h

/-- Turns are played one after the other. -/
theorem play_append (o : Overlap α) (turns more : List Side) : o.play (turns ++ more) = (o.play turns).play more :=
  List.foldl_append

/-- The session of a side stays while the other side makes calls. -/
theorem session_play_of_ne (o : Overlap α) {turns : List Side} {own : Side} (h : ∀ side ∈ turns, side ≠ own) :
    (o.play turns).session own = o.session own := by
  induction turns generalizing o with
  | nil => rfl
  | cons side turns ih =>
    refine (ih (o.step side) fun u hu => h u (List.mem_cons_of_mem side hu)).trans ?_
    exact o.session_step_of_ne fun e => h side List.mem_cons_self e.symm

end

/-- The run of a side has come to its end. -/
def Finished (o : Overlap (Except ContractViolation (Option String))) (side : Side) : Prop :=
  ∃ retired, o.session side = .done (.ok retired)

/-- Whether a side has finished is decided by its session. -/
instance (o : Overlap (Except ContractViolation (Option String))) (side : Side) : Decidable (o.Finished side) :=
  match h : o.session side with
  | .done (.ok retired) => .isTrue ⟨retired, h⟩
  | .done (.error _) => .isFalse fun ⟨_, e⟩ => nomatch h.symm.trans e
  | .upsertEntities _ _ => .isFalse fun ⟨_, e⟩ => nomatch h.symm.trans e
  | .upsertEdges _ _ => .isFalse fun ⟨_, e⟩ => nomatch h.symm.trans e
  | .deleteVersion _ _ _ => .isFalse fun ⟨_, e⟩ => nomatch h.symm.trans e
  | .activeVersion _ _ => .isFalse fun ⟨_, e⟩ => nomatch h.symm.trans e
  | .setActiveVersion _ _ _ => .isFalse fun ⟨_, e⟩ => nomatch h.symm.trans e
  | .versionCounts _ _ => .isFalse fun ⟨_, e⟩ => nomatch h.symm.trans e

/-- Two runs on a store before either has made a call. -/
def start (run : Side → IndexingRun) (s : GraphStore) : Overlap (Except ContractViolation (Option String)) :=
  ⟨s, fun side => (run side).session⟩

variable {run : Side → IndexingRun} {own : Side}

/-- Two runs are at certain stages. -/
def At (run : Side → IndexingRun) (own : Side) (o : Overlap (Except ContractViolation (Option String))) (p q : RunStage) : Prop :=
  o.session own = p.session (run own) ∧ o.session own.other = q.session (run own.other)

/-- What the calls of both runs keep, at whatever stages they are, is kept by every order of turns. -/
theorem play_keeps (run : Side → IndexingRun) (own : Side) {I : GraphStore → RunStage → RunStage → Prop}
    (keepOwn : ∀ s p q, I s p q → I (p.store (run own) s) (p.next (run own) s) q)
    (keepOther : ∀ s p q, I s p q → I (q.store (run own.other) s) p (q.next (run own.other) s))
    {o : Overlap (Except ContractViolation (Option String))} (h : ∃ p q, At run own o p q ∧ I o.store p q) (turns : List Side) :
    ∃ p q, At run own (o.play turns) p q ∧ I (o.play turns).store p q := by
  induction turns generalizing o with
  | nil => exact h
  | cons side turns ih =>
    refine ih (o := o.step side) ?_
    obtain ⟨p, q, ⟨hp, hq⟩, hI⟩ := h
    by_cases e : side = own
    · subst e
      refine ⟨p.next (run side) o.store, q, ⟨?_, ?_⟩, ?_⟩
      · rw [session_step_self, hp, RunStage.step_session]
      · rw [o.session_step_of_ne side.other_ne, hq]
      · simpa only [step, hp, RunStage.step_session] using keepOwn _ _ _ hI
    · obtain rfl := Side.eq_other_of_ne e
      refine ⟨p, q.next (run own.other) o.store, ⟨?_, ?_⟩, ?_⟩
      · rw [o.session_step_of_ne own.other_ne.symm, hp]
      · rw [session_step_self, hq, RunStage.step_session]
      · simpa only [step, hq, RunStage.step_session] using keepOther _ _ _ hI

end Overlap

/-! ## What a run must be spared -/

/-- A call that neither writes nor looks for tags, and does not delete the given one. -/
def StoreCall.Spares (version : String) : StoreCall → Prop
  | deleteVersion _ v => v ≠ version
  | setActiveVersion _ _ => True
  | _ => False

/-- Whatever is left of a session spares a tag. -/
def StoreSession.Spares {α : Type} (version : String) (p : StoreSession α) : Prop := p.Calls (StoreCall.Spares version)

namespace RunStage

/-- A stage from which on a tag is spared. -/
def Spares (version : String) : RunStage → Prop
  | sweep versions _ => version ∉ versions
  | ended _ => True
  | _ => False

/-- A deletion of tags spares those that are not among them. -/
theorem spares_sweeping {run : IndexingRun} {version : String} {retired : Option String} {versions : List String} :
    (sweeping run retired versions).Spares version ↔ version ∉ versions := by
  induction versions with
  | nil => exact ⟨fun _ => List.not_mem_nil, fun _ => ⟨trivial, trivial⟩⟩
  | cons v vs ih =>
    rw [List.mem_cons, not_or]
    constructor
    · rintro ⟨hv, hvs⟩
      exact ⟨fun e => hv e.symm, ih.1 (hvs 0)⟩
    · rintro ⟨hv, hvs⟩
      exact ⟨fun e => hv e.symm, fun _ => ih.2 hvs⟩

/-- The session of a stage spares what the stage spares. -/
theorem spares_session (run : IndexingRun) {version : String} (stage : RunStage) :
    (stage.session run).Spares version ↔ stage.Spares version := by
  cases stage with
  | sweep versions retired => exact spares_sweeping
  | ended retired => exact Iff.rfl
  | entities => exact ⟨fun h => h.1, fun h => h.elim⟩
  | edges => exact ⟨fun h => h.1, fun h => h.elim⟩
  | active => exact ⟨fun h => h.1, fun h => h.elim⟩
  | counts previous => exact ⟨fun h => h.1, fun h => h.elim⟩

end RunStage

namespace GraphStore

variable {run : IndexingRun} {s : GraphStore}

/-- The entities of a run's batch are in a store as they were written. -/
def HasEntities (s : GraphStore) (run : IndexingRun) : Prop := ∀ e ∈ run.batchEntities, (e.id, e) ∈ s.entities

/-- The edges of a run's batch are in a store as they were written. -/
def HasEdges (s : GraphStore) (run : IndexingRun) : Prop := ∀ e ∈ run.batchEdges, (e.id, e) ∈ s.edges

/-- Deleting another tag leaves the entities of a batch. -/
theorem HasEntities.deleteVersion (h : s.HasEntities run) {v : String} (hv : v ≠ run.version) (repoId : String) :
    (s.deleteVersion repoId v).HasEntities run := by
  intro e he
  refine mem_entities_deleteVersion.2 ⟨h e he, ?_⟩
  rintro ⟨-, htag⟩
  exact hv (Option.some.inj (htag.symm.trans (IndexingRun.tag_of_entity he)))

/-- Where the entities of a batch are, deleting another tag leaves the edges of the batch: no end of theirs is deleted. -/
theorem HasEdges.deleteVersion (wf : s.WellFormed) (h : s.HasEdges run) (ends : s.HasEntities run) {v : String}
    (hv : v ≠ run.version) (repoId : String) : (s.deleteVersion repoId v).HasEdges run := by
  have hend : ∀ id ∈ run.batchEntities.map (·.id), id ∉ s.entityIds repoId v := by
    intro id hid hk
    obtain ⟨e, he, rfl⟩ := List.mem_map.1 hid
    obtain ⟨f, hf, -, htag⟩ := mem_entityIds.1 hk
    cases Keyed.eq_of_mem wf.entityKeys (ends e he) hf
    exact hv (Option.some.inj (htag.symm.trans (IndexingRun.tag_of_entity he)))
  intro e he
  refine mem_edges_deleteVersion.2 ⟨h e he, ?_, hend _ (run.holds.ends e he).1, hend _ (run.holds.ends e he).2⟩
  rintro ⟨-, htag⟩
  exact hv (Option.some.inj (htag.symm.trans (IndexingRun.tag_of_edge he)))

end GraphStore

namespace Overlap

open RunStage

/-- The batch of a run that is past its first call, beside a run that spares it: the entities are there, and so are the edges once they
have been written. -/
structure Kept (run : IndexingRun) (s : GraphStore) (p q : RunStage) : Prop where
  wellFormed : s.WellFormed
  entities : s.HasEntities run
  edges : p = .edges ∨ s.HasEdges run
  own : p ≠ .entities
  ownSweep : ∀ versions retired, p = .sweep versions retired → run.version ∉ versions
  spared : q.Spares run.version

/-- Whatever the run calls, its batch is kept. -/
theorem Kept.ownStep {run : IndexingRun} {s : GraphStore} {p q : RunStage} (h : Kept run s p q) :
    Kept run (p.store run s) (p.next run s) q := by
  have wf := wellFormed_store run h.wellFormed p
  cases p with
  | entities => exact absurd rfl h.own
  | edges =>
    refine ⟨wf, h.entities, Or.inr ?_, nofun, nofun, h.spared⟩
    exact fun e he => (Keyed.mem_putAll run.holds.edgeIds h.wellFormed.edgeKeys _).2 (Or.inl ⟨e, he, rfl⟩)
  | active =>
    have hedges := h.edges.resolve_left nofun
    exact ⟨wf, h.entities, Or.inr hedges, nofun, nofun, h.spared⟩
  | counts previous =>
    have hedges := h.edges.resolve_left nofun
    refine ⟨wf, h.entities, Or.inr hedges, nofun, ?_, h.spared⟩
    rintro versions retired e hmem
    cases e
    exact (StoreSession.mem_staleVersions.1 hmem).2.2 rfl
  | sweep versions retired =>
    have hedges := h.edges.resolve_left nofun
    have hsweep := h.ownSweep versions retired rfl
    cases versions with
    | nil =>
      exact ⟨wf, h.entities, Or.inr hedges, nofun, nofun, h.spared⟩
    | cons v vs =>
      obtain ⟨hv, hvs⟩ := not_or.1 fun hmem => hsweep (List.mem_cons.2 hmem)
      refine ⟨wf, h.entities.deleteVersion (fun e => hv e.symm) _,
        Or.inr (hedges.deleteVersion h.wellFormed h.entities (fun e => hv e.symm) _), nofun, ?_, h.spared⟩
      rintro versions retired e
      cases e
      exact hvs
  | ended retired => exact h

/-- Whatever a run calls that spares the tag, the batch under the tag is kept. -/
theorem Kept.otherStep {run other : IndexingRun} {s : GraphStore} {p q : RunStage} (h : Kept run s p q) :
    Kept run (q.store other s) p (q.next other s) := by
  have wf := wellFormed_store other h.wellFormed q
  have hspared := h.spared
  cases q with
  | sweep versions retired =>
    cases versions with
    | nil => exact ⟨wf, h.entities, h.edges, h.own, h.ownSweep, trivial⟩
    | cons v vs =>
      obtain ⟨hv, hvs⟩ := not_or.1 fun hmem => hspared (List.mem_cons.2 hmem)
      refine ⟨wf, h.entities.deleteVersion (fun e => hv e.symm) _, ?_, h.own, h.ownSweep, hvs⟩
      exact h.edges.imp_right fun hedges => hedges.deleteVersion h.wellFormed h.entities (fun e => hv e.symm) _
  | ended retired => exact h
  | entities => exact hspared.elim
  | edges => exact hspared.elim
  | active => exact hspared.elim
  | counts previous => exact hspared.elim

/-- An entity of a run that is past its first call, beside a run that does not spare it: the entity has lost its tag, or the other run will
see to it. -/
structure Doomed (run : IndexingRun) (x : Entity) (s : GraphStore) (p q : RunStage) : Prop where
  wellFormed : s.WellFormed
  repo : ∀ e, (x.id, e) ∈ s.entities → e.repoId = run.repoId
  own : p ≠ .entities
  lost : (∀ e, (x.id, e) ∈ s.entities → e.indexVersion ≠ some run.version) ∨ ¬q.Spares run.version

/-- A run that has made its first call does not bring an entity back. -/
theorem Doomed.ownStep {run : IndexingRun} {x : Entity} {s : GraphStore} {p q : RunStage} (h : Doomed run x s p q) :
    Doomed run x (p.store run s) (p.next run s) q := by
  have wf := wellFormed_store run h.wellFormed p
  cases p with
  | entities => exact absurd rfl h.own
  | edges => exact ⟨wf, h.repo, nofun, h.lost⟩
  | active => exact ⟨wf, h.repo, nofun, h.lost⟩
  | counts previous => exact ⟨wf, h.repo, nofun, h.lost⟩
  | sweep versions retired =>
    cases versions with
    | nil => exact ⟨wf, h.repo, nofun, h.lost⟩
    | cons v vs =>
      have hsub : ∀ e, (x.id, e) ∈ (s.deleteVersion run.repoId v).entities → (x.id, e) ∈ s.entities :=
        fun e he => (GraphStore.mem_entities_deleteVersion.1 he).1
      exact ⟨wf, fun e he => h.repo e (hsub e he), nofun,
        h.lost.imp_left fun hl e he => hl e (hsub e he)⟩
  | ended retired => exact ⟨wf, h.repo, nofun, h.lost⟩

/-- A run that looks for tags finds that of the entity, unless it is lost already, and then deletes it. -/
theorem Doomed.otherStep {run other : IndexingRun} {x : Entity} {s : GraphStore} {p q : RunStage} (h : Doomed run x s p q)
    (repo : other.repoId = run.repoId) (differ : other.version ≠ run.version) (tagged : run.version ≠ "") :
    Doomed run x (q.store other s) p (q.next other s) := by
  have wf := wellFormed_store other h.wellFormed q
  cases q with
  | entities =>
    refine ⟨wf, ?_, h.own, Or.inr id⟩
    intro e he
    rcases Keyed.mem_putAll_imp h.wellFormed.entityKeys he with ⟨f, hf, heq⟩ | hold
    · obtain rfl : e = f := (Prod.mk.inj heq).2
      exact (other.holds.entity e hf).repo.trans repo
    · exact h.repo e hold
  | edges => exact ⟨wf, h.repo, h.own, Or.inr id⟩
  | active => exact ⟨wf, h.repo, h.own, Or.inr id⟩
  | counts previous =>
    refine ⟨wf, h.repo, h.own, ?_⟩
    by_cases found : ∃ e, (x.id, e) ∈ s.entities ∧ e.indexVersion = some run.version
    · obtain ⟨e, he, htag⟩ := found
      have hcounted : some run.version ∈ (s.versionCounts other.repoId).entities.map (·.1) :=
        GraphStore.mem_versionCounts_entities.2 ⟨_, he, (h.repo e he).trans repo.symm, htag⟩
      refine Or.inr fun hspared => hspared ?_
      exact StoreSession.mem_staleVersions.2 ⟨Or.inr (Or.inl hcounted), tagged, differ.symm⟩
    · exact Or.inl fun e he htag => found ⟨e, he, htag⟩
  | sweep versions retired =>
    cases versions with
    | nil =>
      exact ⟨wf, h.repo, h.own, Or.inl (h.lost.resolve_right fun hn => hn List.not_mem_nil)⟩
    | cons v vs =>
      have hsub : ∀ e, (x.id, e) ∈ (s.deleteVersion other.repoId v).entities → (x.id, e) ∈ s.entities :=
        fun e he => (GraphStore.mem_entities_deleteVersion.1 he).1
      refine ⟨wf, fun e he => h.repo e (hsub e he), h.own, ?_⟩
      rcases h.lost with hl | hdoomed
      · exact Or.inl fun e he => hl e (hsub e he)
      · by_cases hv : v = run.version
        · refine Or.inl fun e he htag => ?_
          obtain ⟨hm, hkept⟩ := GraphStore.mem_entities_deleteVersion.1 he
          exact hkept ⟨(h.repo e hm).trans repo.symm, hv ▸ htag⟩
        · refine Or.inr fun hspared => hdoomed fun hmem => ?_
          exact (List.mem_cons.1 hmem).elim (fun e => hv e.symm) hspared
  | ended retired => exact ⟨wf, h.repo, h.own, h.lost⟩

/-- One call of a run makes its tag the active one, or leaves the active tags and does not bring the run to its end. -/
theorem active_store (run : IndexingRun) (s : GraphStore) (stage : RunStage) :
    (stage.store run s).activeVersion run.repoId = some run.version ∨
      (stage.store run s).active = s.active ∧ ∀ retired, stage.next run s = .ended retired → stage = .ended retired := by
  cases stage with
  | sweep versions retired =>
    cases versions with
    | nil => exact Or.inl (Keyed.find_put_self _ _ _)
    | cons v vs => exact Or.inr ⟨rfl, nofun⟩
  | ended retired => exact Or.inr ⟨rfl, fun _ h => h⟩
  | entities => exact Or.inr ⟨rfl, nofun⟩
  | edges => exact Or.inr ⟨rfl, nofun⟩
  | active => exact Or.inr ⟨rfl, nofun⟩
  | counts previous => exact Or.inr ⟨rfl, nofun⟩

/-- One of the two tags is active, or neither run has ended. -/
def Recorded (run : Side → IndexingRun) (s : GraphStore) (p q : RunStage) : Prop :=
  (∃ side, s.activeVersion (run side).repoId = some (run side).version) ∨
    (∀ retired, p ≠ .ended retired) ∧ ∀ retired, q ≠ .ended retired

variable {run : Side → IndexingRun} {own : Side} {o : Overlap (Except ContractViolation (Option String))} {s : GraphStore}
  {turns : List Side}

/-- Nothing but the making of a tag active changes what is recorded. -/
theorem Recorded.of_active {p q : RunStage} {t : GraphStore} (h : Recorded run s p q) (active : t.active = s.active) {p' q' : RunStage}
    (hp : ∀ retired, p' = .ended retired → p = .ended retired) (hq : ∀ retired, q' = .ended retired → q = .ended retired) :
    Recorded run t p' q' := by
  rcases h with ⟨side, hside⟩ | ⟨hnp, hnq⟩
  · refine Or.inl ⟨side, ?_⟩
    rw [GraphStore.activeVersion, active]
    exact hside
  · exact Or.inr ⟨fun r e => hnp r (hp r e), fun r e => hnq r (hq r e)⟩

/-- Once both runs have ended, the active tag is one of theirs. -/
theorem exists_active (own : Side) (h : ∃ p q, At run own o p q ∧ Recorded run o.store p q)
    (finished : (o.play turns).Finished own) :
    ∃ side, (o.play turns).store.activeVersion (run side).repoId = some (run side).version := by
  obtain ⟨p, q, hat, hrec⟩ := play_keeps run own (I := Recorded run)
    (fun s p q h => (active_store (run own) s p).elim (fun ha => Or.inl ⟨own, ha⟩)
      fun ha => h.of_active ha.1 ha.2 fun _ e => e)
    (fun s p q h => (active_store (run own.other) s q).elim (fun ha => Or.inl ⟨own.other, ha⟩)
      fun ha => h.of_active ha.1 (fun _ e => e) ha.2) h turns
  obtain ⟨retired, hdone⟩ := finished
  exact hrec.resolve_right fun hn => hn.1 retired (eq_ended (hat.1.symm.trans hdone))

/-- The turns before the first one of a side. -/
def before (own : Side) (turns : List Side) : List Side := turns.takeWhile fun side => side ≠ own

/-- Before its own first turn, a side has none. -/
theorem ne_of_mem_before {side : Side} (h : side ∈ before own turns) : side ≠ own :=
  of_decide_eq_true (List.all_eq_true.1 (List.all_takeWhile (p := fun side => decide (side ≠ own))) side h)

/-- A run that comes to its end has a turn. -/
theorem exists_first_turn (h : o.session own = RunStage.entities.session (run own))
    (finished : (o.play turns).Finished own) : ∃ later, turns = before own turns ++ own :: later := by
  have hsplit : before own turns ++ turns.dropWhile (fun side => decide (side ≠ own)) = turns := List.takeWhile_append_dropWhile
  have hhead := List.head?_dropWhile_not (fun side => decide (side ≠ own)) turns
  cases hrest : turns.dropWhile (fun side => decide (side ≠ own)) with
  | nil =>
    rw [hrest, List.append_nil] at hsplit
    obtain ⟨retired, hdone⟩ := finished
    rw [← hsplit, session_play_of_ne o fun _ => ne_of_mem_before, h] at hdone
    nomatch eq_ended hdone
  | cons side later =>
    rw [hrest] at hsplit hhead
    have hside : side = own := by simpa using hhead
    exact ⟨later, (hside ▸ hsplit).symm⟩

/-- At the first call of a run with a batch the other run is at some stage, and that call writes the entities. -/
theorem exists_at_first_call (own : Side) (turns : List Side) (batch : ∀ side, ∃ b, (run side).batch = .ok b) (wf : s.WellFormed) :
    ∃ q, At run own ((start run s).play (before own turns)) .entities q ∧
      ((start run s).play (before own turns)).store.WellFormed := by
  have hstart : ∀ side, (start run s).session side = RunStage.entities.session (run side) := by
    intro side
    obtain ⟨b, hb⟩ := batch side
    exact session_entities hb
  obtain ⟨p, q, hat, hwf⟩ := play_keeps run own (I := fun s _ _ => s.WellFormed)
    (fun _ p _ h => wellFormed_store _ h p) (fun _ _ q h => wellFormed_store _ h q)
    (o := start run s) ⟨.entities, .entities, ⟨hstart own, hstart own.other⟩, wf⟩ (before own turns)
  refine ⟨q, ⟨?_, hat.2⟩, hwf⟩
  rw [session_play_of_ne _ fun _ => ne_of_mem_before, hstart]

/-- After its first call the run has its entities in the store. -/
theorem At.first_call {q : RunStage} (h : At run own o .entities q) :
    At run own (o.step own) .edges q ∧ (o.step own).store = o.store.upsertEntities (run own).batchEntities := by
  refine ⟨⟨?_, ?_⟩, ?_⟩
  · rw [session_step_self, h.1, step_session]
    rfl
  · rw [o.session_step_of_ne own.other_ne, h.2]
  · rw [step, h.1, step_session]
    rfl

/-- Putting in the entities of a batch, the store has them. -/
theorem hasEntities_upsertEntities (wf : s.WellFormed) (run : IndexingRun) : (s.upsertEntities run.batchEntities).HasEntities run :=
  fun e he => (Keyed.mem_putAll run.holds.entityIds wf.entityKeys _).2 (Or.inl ⟨e, he, rfl⟩)

/-- A run whose tag the other one spares from its first call on has its batch in the store in the end. -/
theorem stands_of_spared {q : RunStage} (hat : At run own o .entities q) (wf : o.store.WellFormed) (spared : q.Spares (run own).version)
    {later : List Side} (finished : ((o.step own).play later).Finished own) :
    (run own).Stands ((o.step own).play later).store := by
  obtain ⟨hfirst, hstore⟩ := hat.first_call
  have hkept : Kept (run own) (o.step own).store .edges q := by
    rw [hstore]
    exact ⟨wf.upsertEntities _, hasEntities_upsertEntities wf _, Or.inl rfl, nofun, nofun, spared⟩
  obtain ⟨p, q, hlast, h⟩ := play_keeps run own (I := Kept (run own)) (fun _ _ _ h => h.ownStep)
    (fun _ _ _ h => h.otherStep) ⟨.edges, q, hfirst, hkept⟩ later
  obtain ⟨retired, hdone⟩ := finished
  obtain rfl := eq_ended (hlast.1.symm.trans hdone)
  exact ⟨fun e he => ⟨_, h.entities e he, rfl, IndexingRun.tag_of_entity he⟩,
    fun e he => ⟨_, h.edges.resolve_left nofun e he, rfl, IndexingRun.tag_of_edge he⟩⟩

/-- A run whose tag the other one does not spare has lost its entities in the end. -/
theorem not_stands_of_not_spared {q : RunStage} (hat : At run own o .entities q) (wf : o.store.WellFormed)
    (repo : (run own.other).repoId = (run own).repoId) (differ : (run own.other).version ≠ (run own).version)
    (tagged : (run own).version ≠ "") (spared : ¬q.Spares (run own).version) (some_ : (run own).batchEntities ≠ [])
    {later : List Side} (finished : ((o.step own).play later).Finished own.other) :
    ¬(run own).Stands ((o.step own).play later).store := by
  obtain ⟨x, hx⟩ := List.exists_mem_of_ne_nil _ some_
  obtain ⟨hfirst, hstore⟩ := hat.first_call
  have hdoomed : Doomed (run own) x (o.step own).store .edges q := by
    rw [hstore]
    refine ⟨wf.upsertEntities _, ?_, nofun, Or.inr spared⟩
    intro e he
    cases Keyed.eq_of_mem (wf.upsertEntities _).entityKeys (hasEntities_upsertEntities wf (run own) x hx) he
    exact ((run own).holds.entity x hx).repo
  obtain ⟨p, q, hlast, h⟩ := play_keeps run own (I := Doomed (run own) x) (fun _ _ _ h => h.ownStep)
    (fun _ _ _ h => h.otherStep repo differ tagged) ⟨.edges, q, hfirst, hdoomed⟩ later
  obtain ⟨retired, hdone⟩ := finished
  obtain rfl := eq_ended (hlast.2.symm.trans hdone)
  intro stands
  obtain ⟨⟨key, e⟩, he, rfl, htag⟩ := stands.1 x hx
  exact h.lost.resolve_right (fun hn => hn trivial) e he htag

/-- Only a run with a batch comes to its end without a violation. -/
theorem exists_batch_of_finished {side : Side} (finished : ((start run s).play turns).Finished side) :
    ∃ b, (run side).batch = .ok b := by
  cases hb : (run side).batch with
  | ok b => exact ⟨b, rfl⟩
  | error v =>
    have hstays : ∀ (turns : List Side) (o : Overlap (Except ContractViolation (Option String))),
        o.session side = .done (.error v) → (o.play turns).session side = .done (.error v) := by
      intro turns
      induction turns with
      | nil => exact fun o h => h
      | cons u turns ih =>
        intro o h
        refine ih (o.step u) ?_
        by_cases e : side = u
        · subst e
          rw [session_step_self, h, StoreSession.step]
        · rw [o.session_step_of_ne e, h]
    obtain ⟨retired, hdone⟩ := finished
    rw [hstays turns _ (IndexingRun.session_of_error hb)] at hdone
    nomatch hdone

end Overlap

/-- An empty batch stands in every store. -/
theorem IndexingRun.stands_of_empty {run : IndexingRun} (h : run.batchEntities = []) (s : GraphStore) : run.Stands s := by
  refine ⟨fun e he => ?_, fun e he => ?_⟩
  · rw [h] at he
    nomatch he
  · have hend := (run.holds.ends e he).1
    rw [h] at hend
    nomatch hend

open Overlap in
/-- Two runs of a repository take turns, after whatever calls, and both come to their ends. The active tag is then one of theirs, and the
batch of a run stands if it is empty, or if the other run spares its tag from the first call of the run on. Under a tag that is not empty
it stands only then. -/
theorem overlap_stands_iff_spared (run : Side → IndexingRun) (repo : (run .first).repoId = (run .second).repoId)
    (differ : (run .first).version ≠ (run .second).version) (earlier : List StoreCall) (turns : List Side)
    (finished : ∀ side, ((start run (.ofCalls earlier)).play turns).Finished side) :
    (∃ side, ((start run (.ofCalls earlier)).play turns).store.activeVersion (run side).repoId = some (run side).version) ∧
      ∀ own, let spared := (((start run (.ofCalls earlier)).play (before own turns)).session own.other).Spares (run own).version
        ((run own).batchEntities = [] ∨ spared → (run own).Stands ((start run (.ofCalls earlier)).play turns).store) ∧
        ((run own).version ≠ "" → (run own).Stands ((start run (.ofCalls earlier)).play turns).store →
          (run own).batchEntities = [] ∨ spared) := by
  have wf := GraphStore.ofCalls_wellFormed earlier
  have batch : ∀ side, ∃ b, (run side).batch = .ok b := fun side => exists_batch_of_finished (finished side)
  have hstart : ∀ side, (start run (.ofCalls earlier)).session side = RunStage.entities.session (run side) := by
    intro side
    obtain ⟨b, hb⟩ := batch side
    exact RunStage.session_entities hb
  refine ⟨exists_active .first ⟨.entities, .entities, ⟨hstart _, hstart _⟩, Or.inr ⟨nofun, nofun⟩⟩ (finished .first), ?_⟩
  intro own spared
  obtain ⟨later, hturns⟩ := exists_first_turn (hstart own) (finished own)
  obtain ⟨q, hat, hwf⟩ := exists_at_first_call own turns batch wf
  have hspared : spared ↔ q.Spares (run own).version := by
    rw [← RunStage.spares_session (run own.other), ← hat.2]
  have hlast : (start run (.ofCalls earlier)).play turns =
      (((start run (.ofCalls earlier)).play (before own turns)).step own).play later := by
    conv => lhs; rw [hturns, play_append]
    rfl
  rw [hlast] at finished ⊢
  constructor
  · rintro (hempty | h)
    · exact IndexingRun.stands_of_empty hempty _
    · exact stands_of_spared hat hwf (hspared.1 h) (finished own)
  · intro tagged stands
    refine Classical.or_iff_not_imp_left.2 fun some_ => hspared.2 (Classical.byContradiction fun h => ?_)
    refine not_stands_of_not_spared hat hwf ?_ ?_ tagged h some_ (finished own.other) stands
    · cases own
      · exact repo.symm
      · exact repo
    · cases own
      · exact differ.symm
      · exact differ

namespace SampleRuns

/-- Two runs that find the same file; the second finds another one besides. -/
def pair : Side → IndexingRun
  | .first => { repoId := "r", version := "a", entities := [file "r" "x"] }
  | .second => { repoId := "r", version := "b", entities := [file "r" "x", file "r" "y"] }

/-- The second run has looked for tags before the first one begins, and makes its own active in the end. -/
def lateFirst : List Side :=
  [.second, .second, .second, .second, .first, .first, .first, .first, .first, .first, .second]

/-- Both runs write before either of them finalizes. -/
def crossed : List Side :=
  [.first, .first, .second, .second, .first, .first, .first, .first, .second, .second, .second, .second]

end SampleRuns

open Overlap SampleRuns in
/-- The batch of the run that begins late stands, since the other one has seen its tags already; that one's batch does not, though its tag
is the active one. -/
theorem late_first_spared :
    let o := (start pair .empty).play lateFirst
    (∀ side, o.Finished side) ∧ o.store.activeVersion "r" = some "b" ∧
      ((start pair .empty).play (before .first lateFirst) |>.session .second).Spares "a" ∧ (pair .first).Stands o.store ∧
      ¬((start pair .empty).play (before .second lateFirst) |>.session .first).Spares "b" := by
  have finished : ∀ side, ((start pair (.ofCalls [])).play lateFirst).Finished side := by
    intro side
    cases side <;> decide +kernel
  obtain ⟨-, h⟩ := overlap_stands_iff_spared pair rfl (by decide) [] lateFirst finished
  have first : (pair .first).Stands ((start pair .empty).play lateFirst).store := by decide +kernel
  have second : ¬(pair .second).Stands ((start pair .empty).play lateFirst).store := by decide +kernel
  exact ⟨finished, by decide +kernel, ((h .first).2 (by decide) first).resolve_left (by decide +kernel), first,
    fun hspared => second ((h .second).1 (Or.inr hspared))⟩

open Overlap SampleRuns in
/-- Of two runs that both write before they finalize, the one whose tag is active in the end may have lost its whole batch: the first to
finalize deletes what the other has written over its own records. -/
theorem crossed_runs_lose_active_batch :
    let o := (start pair .empty).play crossed
    (pair .first).repoId = (pair .second).repoId ∧ (pair .first).version ≠ (pair .second).version ∧ (∀ side, o.Finished side) ∧
      o.store.activeVersion "r" = some (pair .second).version ∧ o.store.entities.length = 0 ∧
      ¬(pair .second).Stands o.store := by
  refine ⟨rfl, by decide, ?_, by decide +kernel, by decide +kernel, by decide +kernel⟩
  intro side
  cases side <;> decide +kernel

end CodeAtlas
