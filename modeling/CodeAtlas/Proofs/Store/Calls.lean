import CodeAtlas.Store.Generation
import CodeAtlas.Proofs.Store.Rows

/-!
# Sessions, call by call

What one call does to a store is said without the session around it, and a condition on the calls that a session may come to make is
handed down from the session to whatever remains of it. A property of the store that every such call keeps is then kept by the session,
wherever it is broken off.
-/

namespace CodeAtlas

/-- A call to a store, without what follows it. -/
inductive StoreCall where
  | upsertEntities (entities : List Entity)
  | upsertEdges (edges : List Edge)
  | deleteVersion (repoId version : String)
  | activeVersion (repoId : String)
  | setActiveVersion (repoId version : String)
  | versionCounts (repoId : String)

namespace StoreCall

/-- The store that a call leaves. -/
def effect (s : GraphStore) : StoreCall → GraphStore
  | upsertEntities es => s.upsertEntities es
  | upsertEdges es => s.upsertEdges es
  | deleteVersion r v => s.deleteVersion r v
  | setActiveVersion r v => s.setActiveVersion r v
  | activeVersion _ => s
  | versionCounts _ => s

/-- Every call keeps a store well-formed. -/
theorem effect_wellFormed {s : GraphStore} (h : s.WellFormed) (c : StoreCall) : (c.effect s).WellFormed := by
  cases c with
  | upsertEntities es => exact h.upsertEntities es
  | upsertEdges es => exact h.upsertEdges es
  | deleteVersion r v => exact h.deleteVersion r v
  | setActiveVersion r v => exact h.setActiveVersion r v
  | activeVersion r => exact h
  | versionCounts r => exact h

end StoreCall

/-- The store that some calls leave, made on an empty one. -/
def GraphStore.ofCalls (calls : List StoreCall) : GraphStore := calls.foldl StoreCall.effect .empty

/-- Calls on an empty store leave a well-formed one. -/
theorem GraphStore.ofCalls_wellFormed (calls : List StoreCall) : (ofCalls calls).WellFormed := by
  have h : ∀ s : GraphStore, s.WellFormed → (calls.foldl StoreCall.effect s).WellFormed := by
    induction calls with
    | nil => exact fun s hs => hs
    | cons c cs ih => exact fun s hs => ih (c.effect s) (StoreCall.effect_wellFormed hs c)
  exact h .empty GraphStore.wellFormed_empty

namespace StoreSession

variable {α β : Type}

/-- Every call that a session may come to make, whatever the answers, meets a condition. -/
def Calls (P : StoreCall → Prop) : StoreSession α → Prop
  | done _ => True
  | upsertEntities es next => P (.upsertEntities es) ∧ ∀ n, (next n).Calls P
  | upsertEdges es next => P (.upsertEdges es) ∧ ∀ n, (next n).Calls P
  | deleteVersion r v next => P (.deleteVersion r v) ∧ ∀ n, (next n).Calls P
  | activeVersion r next => P (.activeVersion r) ∧ ∀ v, (next v).Calls P
  | setActiveVersion r v next => P (.setActiveVersion r v) ∧ next.Calls P
  | versionCounts r next => P (.versionCounts r) ∧ ∀ c, (next c).Calls P

/-- What the calls of a session satisfy may be weakened. -/
theorem Calls.mono {P Q : StoreCall → Prop} (imp : ∀ c, P c → Q c) {p : StoreSession α} (h : p.Calls P) : p.Calls Q := by
  induction p with
  | done => trivial
  | upsertEntities es next ih => exact ⟨imp _ h.1, fun n => ih n (h.2 n)⟩
  | upsertEdges es next ih => exact ⟨imp _ h.1, fun n => ih n (h.2 n)⟩
  | deleteVersion r v next ih => exact ⟨imp _ h.1, fun n => ih n (h.2 n)⟩
  | activeVersion r next ih => exact ⟨imp _ h.1, fun v => ih v (h.2 v)⟩
  | setActiveVersion r v next ih => exact ⟨imp _ h.1, ih h.2⟩
  | versionCounts r next ih => exact ⟨imp _ h.1, fun c => ih c (h.2 c)⟩

/-- The calls of two sessions in a row are those of the one and those of the other. -/
theorem Calls.bind {P : StoreCall → Prop} {p : StoreSession α} {f : α → StoreSession β} (hp : p.Calls P)
    (hf : ∀ a, (f a).Calls P) : (p.bind f).Calls P := by
  induction p with
  | done a => exact hf a
  | upsertEntities es next ih => exact ⟨hp.1, fun n => ih n (hp.2 n)⟩
  | upsertEdges es next ih => exact ⟨hp.1, fun n => ih n (hp.2 n)⟩
  | deleteVersion r v next ih => exact ⟨hp.1, fun n => ih n (hp.2 n)⟩
  | activeVersion r next ih => exact ⟨hp.1, fun v => ih v (hp.2 v)⟩
  | setActiveVersion r v next ih => exact ⟨hp.1, ih hp.2⟩
  | versionCounts r next ih => exact ⟨hp.1, fun c => ih c (hp.2 c)⟩

/-- What remains of a session after a call makes no other calls than the session. -/
theorem Calls.step {P : StoreCall → Prop} {p : StoreSession α} (h : p.Calls P) (s : GraphStore) : (p.step s).2.Calls P := by
  cases p with
  | done a => exact h
  | upsertEntities es next => exact h.2 _
  | upsertEdges es next => exact h.2 _
  | deleteVersion r v next => exact h.2 _
  | activeVersion r next => exact h.2 _
  | setActiveVersion r v next => exact h.2
  | versionCounts r next => exact h.2 _

/-- One call keeps what all calls of the session keep. -/
theorem Calls.step_keeps {P : StoreCall → Prop} {I : GraphStore → Prop} (keep : ∀ c s, P c → I s → I (c.effect s))
    {p : StoreSession α} (h : p.Calls P) {s : GraphStore} (hs : I s) : I (p.step s).1 := by
  cases p with
  | done a => exact hs
  | upsertEntities es next => exact keep _ s h.1 hs
  | upsertEdges es next => exact keep _ s h.1 hs
  | deleteVersion r v next => exact keep _ s h.1 hs
  | activeVersion r next => exact hs
  | setActiveVersion r v next => exact keep _ s h.1 hs
  | versionCounts r next => exact hs

/-- However many calls are made, they keep what every call of the session keeps. -/
theorem Calls.after_keeps {P : StoreCall → Prop} {I : GraphStore → Prop} (keep : ∀ c s, P c → I s → I (c.effect s))
    (n : Nat) {p : StoreSession α} (h : p.Calls P) {s : GraphStore} (hs : I s) : I (after n s p).1 := by
  induction n generalizing s p with
  | zero => exact hs
  | succ n ih => exact ih (h.step s) (h.step_keeps keep hs)

/-- A whole session is its first call and then the rest. -/
theorem run_step (s : GraphStore) (p : StoreSession α) : p.run s = (p.step s).2.run (p.step s).1 := by
  cases p <;> rfl

theorem run_done (s : GraphStore) (a : α) : (done a).run s = (a, s) := rfl

/-- A session that is over makes no further calls. -/
theorem after_done (n : Nat) (s : GraphStore) (a : α) : after n s (done a) = (s, done a) := by
  induction n with
  | zero => rfl
  | succ n ih => exact ih

/-- A session that is over after some calls has run as a whole. -/
theorem run_of_after_done {n : Nat} {s : GraphStore} {p : StoreSession α} {a : α} (h : (after n s p).2 = done a) :
    p.run s = (a, (after n s p).1) := by
  induction n generalizing s p with
  | zero =>
    rw [show p = done a from h]
    rfl
  | succ n ih =>
    rw [run_step]
    exact ih h

/-- Every session on a store in memory comes to its end. -/
theorem exists_after_done (s : GraphStore) (p : StoreSession α) : ∃ n, after n s p = ((p.run s).2, done (p.run s).1) := by
  induction p generalizing s with
  | done a => exact ⟨0, rfl⟩
  | upsertEntities es next ih =>
    obtain ⟨n, h⟩ := ih _ (s.upsertEntities es)
    exact ⟨n + 1, h⟩
  | upsertEdges es next ih =>
    obtain ⟨n, h⟩ := ih _ (s.upsertEdges es)
    exact ⟨n + 1, h⟩
  | deleteVersion r v next ih =>
    obtain ⟨n, h⟩ := ih _ (s.deleteVersion r v)
    exact ⟨n + 1, h⟩
  | activeVersion r next ih =>
    obtain ⟨n, h⟩ := ih _ s
    exact ⟨n + 1, h⟩
  | setActiveVersion r v next ih =>
    obtain ⟨n, h⟩ := ih (s.setActiveVersion r v)
    exact ⟨n + 1, h⟩
  | versionCounts r next ih =>
    obtain ⟨n, h⟩ := ih _ s
    exact ⟨n + 1, h⟩

/-- One session after the other runs as the first, and the second on the store that it leaves. -/
theorem run_bind (s : GraphStore) (p : StoreSession α) (f : α → StoreSession β) :
    (p.bind f).run s = (f (p.run s).1).run (p.run s).2 := by
  induction p generalizing s with
  | done a => rfl
  | upsertEntities es next ih => exact ih _ _
  | upsertEdges es next ih => exact ih _ _
  | deleteVersion r v next ih => exact ih _ _
  | activeVersion r next ih => exact ih _ _
  | setActiveVersion r v next ih => exact ih _
  | versionCounts r next ih => exact ih _ _

/-- Three sessions in a row may be grouped either way. -/
theorem bind_assoc {γ : Type} (p : StoreSession α) (f : α → StoreSession β) (g : β → StoreSession γ) :
    (p.bind f).bind g = p.bind fun a => (f a).bind g := by
  induction p with
  | done a => rfl
  | upsertEntities es next ih => exact congrArg _ (funext fun n => ih n)
  | upsertEdges es next ih => exact congrArg _ (funext fun n => ih n)
  | deleteVersion r v next ih => exact congrArg _ (funext fun n => ih n)
  | activeVersion r next ih => exact congrArg _ (funext fun v => ih v)
  | setActiveVersion r v next ih => exact congrArg _ ih
  | versionCounts r next ih => exact congrArg _ (funext fun c => ih c)

/-- Deleting tags one after the other makes no other calls. -/
theorem run_deleteVersions (s : GraphStore) (repoId : String) (versions : List String) :
    (StoreSession.deleteVersions repoId versions).run s = ((), s.deleteVersions repoId versions) := by
  induction versions generalizing s with
  | nil => rfl
  | cons v vs ih =>
    rw [StoreSession.deleteVersions, run_step]
    exact ih _

/-- Finalizing deletes what its look at the store finds to be stale, and makes the tag of the run the active one. -/
theorem run_finalize (s : GraphStore) (repoId version : String) :
    (finalize repoId version).run s =
      let stale := staleVersions version (s.activeVersion repoId) (s.versionCounts repoId)
      (stale.head?, (s.deleteVersions repoId stale).setActiveVersion repoId version) := by
  rw [finalize, run_step, StoreSession.step, run_step, StoreSession.step, run_bind, run_deleteVersions]
  rfl

end StoreSession

end CodeAtlas
