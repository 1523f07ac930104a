import CodeAtlas.Proofs.Store.Runs

/-!
# No edge without its ends

A store that is filled by writes alone, and cleaned by deletions of tags and by finalizing, holds no edge that leads to or from an entity
that it does not hold. A write is accepted only when its edges have both ends in the batch, and the entities of the batch come first;
a deletion takes along the edges of whatever it deletes, under any tag and of any repository. This holds in every state that is reached,
also between two calls of one operation.
-/

namespace CodeAtlas

/-- What is done to a store from outside. -/
inductive StoreOperation where
  | write (repoId : String) (version : Option String) (files : List IndexedFile) (entities : List Entity) (edges : List Edge)
  | finalize (repoId version : String)
  | delete (repoId version : String)

namespace StoreOperation

/-- The session of an operation, which ends with a violation when a write is refused. -/
def session : StoreOperation → StoreSession (Except ContractViolation Unit)
  | write repoId version files entities edges =>
    (StoreSession.write repoId version files entities edges).bind fun outcome => .done (outcome.map fun _ => ())
  | finalize repoId version => (StoreSession.finalize repoId version).bind fun _ => .done (.ok ())
  | delete repoId version => .deleteVersion repoId version fun _ => .done (.ok ())

/-- A write makes no call at all, or upserts the entities and the edges of a batch for which the contract holds. -/
theorem session_write (repoId : String) (version : Option String) (files : List IndexedFile) (entities : List Entity)
    (edges : List Edge) :
    (∃ v, (write repoId version files entities edges).session = .done (.error v)) ∨
      ∃ b : WriteBatch, Contract.Holds repoId version b.entities b.edges ∧
        (write repoId version files entities edges).session =
          .upsertEntities b.entities fun _ => .upsertEdges b.edges fun _ => .done (.ok ()) := by
  cases h : WriteBatch.ofRun repoId version files entities edges with
  | error v =>
    refine Or.inl ⟨v, ?_⟩
    simp only [session, StoreSession.write, h]
    rfl
  | ok b =>
    refine Or.inr ⟨b, (WriteBatch.ofRun_eq_ok_iff.1 h).2, ?_⟩
    simp only [session, StoreSession.write, h]
    rfl

/-- A write is refused with the first violation of its batch. -/
theorem run_write_of_violation {repoId : String} {version : Option String} {files : List IndexedFile} {entities : List Entity}
    {edges : List Edge} {v : ContractViolation}
    (h : Contract.violation? repoId version (WriteBatch.assemble repoId version files entities edges).entities
      (WriteBatch.assemble repoId version files entities edges).edges = some v) (s : GraphStore) :
    ((write repoId version files entities edges).session.run s).1 = .error v := by
  have hrefused : WriteBatch.ofRun repoId version files entities edges = .error v := by
    unfold WriteBatch.ofRun
    dsimp only
    rw [h]
  simp only [session, StoreSession.write, hrefused]
  rfl

end StoreOperation

namespace GraphStore

/-- The store that some operations leave, one after the other on an empty one. -/
def ofOperations (operations : List StoreOperation) : GraphStore := operations.foldl (fun s op => (op.session.run s).2) .empty

/-- Both ends of an edge are ids of entities in the store. -/
def HasEnds (s : GraphStore) (e : Edge) : Prop := e.fromId ∈ s.entities.map (·.2.id) ∧ e.toId ∈ s.entities.map (·.2.id)

instance (s : GraphStore) (e : Edge) : Decidable (s.HasEnds e) := inferInstanceAs (Decidable (_ ∧ _))

/-- A well-formed store in which every edge has its ends. -/
structure Whole (s : GraphStore) : Prop where
  wellFormed : s.WellFormed
  ends : ∀ row ∈ s.edges, s.HasEnds row.2

/-- No edge is without its ends where there is none. -/
theorem whole_empty : empty.Whole := ⟨wellFormed_empty, fun _ h => absurd h List.not_mem_nil⟩

variable {s : GraphStore}

/-- In a well-formed store the keys of the entities are their ids. -/
theorem WellFormed.mem_ids (wf : s.WellFormed) {id : String} :
    id ∈ s.entities.map (·.2.id) ↔ ∃ e, (id, e) ∈ s.entities ∧ e.id = id := by
  constructor
  · intro h
    obtain ⟨⟨k, e⟩, hrow, rfl⟩ := List.mem_map.1 h
    have hk : k = e.id := wf.entityIds _ hrow
    exact ⟨e, hk ▸ hrow, rfl⟩
  · rintro ⟨e, hrow, he⟩
    exact List.mem_map.2 ⟨(id, e), hrow, he⟩

/-- An upsert adds the ids of its entities, and no id is lost. -/
theorem WellFormed.mem_ids_upsertEntities (wf : s.WellFormed) (es : List Entity) {id : String}
    (h : id ∈ es.map (·.id) ∨ id ∈ s.entities.map (·.2.id)) : id ∈ (s.upsertEntities es).entities.map (·.2.id) := by
  have hputAll : ∀ (es : List Entity) (t : Keyed Entity), (id ∈ es.map (·.id) ∨ id ∈ t.map (·.1)) →
      id ∈ (Keyed.putAll Entity.id es t).map (·.1) := by
    intro es
    induction es with
    | nil => exact fun t h => h.resolve_left List.not_mem_nil
    | cons e es ih =>
      intro t h
      refine ih (Keyed.put e.id e t) ?_
      rw [Keyed.keys_put]
      rcases h with h | h
      · rcases List.mem_cons.1 h with rfl | h
        · right
          split
          · assumption
          · exact List.mem_append_right _ (List.mem_singleton.2 rfl)
        · exact Or.inl h
      · right
        split
        · exact h
        · exact List.mem_append_left _ h
  have hkeys : ∀ {t : GraphStore}, t.WellFormed → t.entities.map (·.2.id) = t.entities.map (·.1) := fun ht =>
    List.map_congr_left fun row hrow => (ht.entityIds row hrow).symm
  rw [hkeys (wf.upsertEntities es)]
  rw [hkeys wf] at h
  exact hputAll es s.entities h

/-- A write of entities takes no end from an edge. -/
theorem Whole.upsertEntities (h : s.Whole) (es : List Entity) : (s.upsertEntities es).Whole where
  wellFormed := h.wellFormed.upsertEntities es
  ends row hrow := (h.ends row hrow).imp (fun hfrom => h.wellFormed.mem_ids_upsertEntities es (Or.inr hfrom))
    fun hto => h.wellFormed.mem_ids_upsertEntities es (Or.inr hto)

/-- Edges may be upserted once both ends of each are there. -/
theorem Whole.upsertEdges (h : s.Whole) {es : List Edge} (ends : ∀ e ∈ es, s.HasEnds e) : (s.upsertEdges es).Whole where
  wellFormed := h.wellFormed.upsertEdges es
  ends row hrow := by
    rcases Keyed.mem_putAll_imp h.wellFormed.edgeKeys hrow with ⟨e, he, rfl⟩ | hrow
    · exact ends e he
    · exact h.ends row hrow

/-- A deletion takes an entity only together with all edges that start or end there. -/
theorem Whole.deleteVersion (h : s.Whole) (repoId version : String) : (s.deleteVersion repoId version).Whole where
  wellFormed := h.wellFormed.deleteVersion repoId version
  ends row hrow := by
    obtain ⟨hrow, -, hfrom, hto⟩ := mem_edges_deleteVersion.1 hrow
    have hstays : ∀ {id : String}, id ∈ s.entities.map (·.2.id) → id ∉ s.entityIds repoId version →
        id ∈ (s.deleteVersion repoId version).entities.map (·.2.id) := by
      intro id hid hgone
      obtain ⟨e, he, hide⟩ := h.wellFormed.mem_ids.1 hid
      refine (h.wellFormed.deleteVersion repoId version).mem_ids.2 ⟨e, mem_entities_deleteVersion.2 ⟨he, ?_⟩, hide⟩
      exact fun htag => hgone (mem_entityIds.2 ⟨e, he, htag⟩)
    exact (h.ends row hrow).imp (fun hid => hstays hid hfrom) fun hid => hstays hid hto

/-- The active tag of a repository says nothing about its edges. -/
theorem Whole.setActiveVersion (h : s.Whole) (repoId version : String) : (s.setActiveVersion repoId version).Whole :=
  ⟨h.wellFormed.setActiveVersion repoId version, h.ends⟩

end GraphStore

/-- A call that upserts no edges keeps a store whole. -/
theorem StoreCall.effect_whole (c : StoreCall) (s : GraphStore) (hc : ∀ es, c ≠ .upsertEdges es) (h : s.Whole) :
    (c.effect s).Whole := by
  cases c with
  | upsertEntities es => exact h.upsertEntities es
  | upsertEdges es => exact absurd rfl (hc es)
  | deleteVersion r v => exact h.deleteVersion r v
  | activeVersion r => exact h
  | setActiveVersion r v => exact h.setActiveVersion r v
  | versionCounts r => exact h

namespace StoreOperation

/-- A session that upserts no edges keeps a store whole, wherever it is broken off. -/
theorem whole_after_of_calls (p : StoreSession (Except ContractViolation Unit))
    (hp : p.Calls fun c => ∀ es, c ≠ .upsertEdges es) (calls : Nat) {s : GraphStore} (h : s.Whole) :
    (StoreSession.after calls s p).1.Whole :=
  hp.after_keeps StoreCall.effect_whole calls h

/-- An operation keeps a store whole, wherever it is broken off. The edges of a batch come when its entities are there. -/
theorem whole_after (op : StoreOperation) (calls : Nat) {s : GraphStore} (h : s.Whole) :
    (StoreSession.after calls s op.session).1.Whole := by
  cases op with
  | finalize repoId version =>
    refine whole_after_of_calls (session (.finalize repoId version)) (StoreSession.Calls.bind ?_ fun _ => trivial) calls h
    exact StoreSession.calls_finalize (fun _ => nofun) (fun _ => nofun) (fun _ _ _ => nofun) fun _ => nofun
  | delete repoId version =>
    exact whole_after_of_calls (session (.delete repoId version)) ⟨fun _ => nofun, fun _ => trivial⟩ calls h
  | write repoId version files entities edges =>
    obtain ⟨v, hsession⟩ | ⟨b, hb, hsession⟩ := session_write repoId version files entities edges
    · rw [hsession]
      exact whole_after_of_calls (.done _) trivial calls h
    · rw [hsession]
      have hends : ∀ e ∈ b.edges, (s.upsertEntities b.entities).HasEnds e := fun e he =>
        (hb.ends e he).imp (fun hfrom => h.wellFormed.mem_ids_upsertEntities b.entities (Or.inl hfrom))
          fun hto => h.wellFormed.mem_ids_upsertEntities b.entities (Or.inl hto)
      match calls with
      | 0 => exact h
      | 1 => exact h.upsertEntities b.entities
      | n + 2 => exact whole_after_of_calls (.done _) trivial n ((h.upsertEntities b.entities).upsertEdges hends)

/-- An operation that reaches its end leaves every edge with its ends. -/
theorem whole_run (op : StoreOperation) {s : GraphStore} (h : s.Whole) : (op.session.run s).2.Whole := by
  obtain ⟨calls, hcalls⟩ := StoreSession.exists_after_done s op.session
  have hwhole := op.whole_after calls h
  rwa [hcalls] at hwhole

/-- A refused operation has made no call: however far one looks, the store is what it was. -/
theorem after_of_refused {op : StoreOperation} {s : GraphStore} {v : ContractViolation} (h : (op.session.run s).1 = .error v)
    (calls : Nat) : StoreSession.after calls s op.session = (s, .done (.error v)) := by
  cases op with
  | finalize repoId version =>
    rw [session, StoreSession.run_bind] at h
    nomatch h
  | delete repoId version => nomatch h
  | write repoId version files entities edges =>
    obtain ⟨w, hsession⟩ | ⟨b, -, hsession⟩ := session_write repoId version files entities edges
    · rw [hsession, StoreSession.run_done] at h
      obtain rfl : w = v := Except.error.inj h
      rw [hsession]
      exact StoreSession.after_done calls s _
    · rw [hsession] at h
      nomatch h

end StoreOperation

namespace GraphStore

/-- After any operations every edge has its ends. -/
theorem whole_ofOperations (operations : List StoreOperation) : (ofOperations operations).Whole := by
  have h : ∀ s : GraphStore, s.Whole → (operations.foldl (fun s op => (op.session.run s).2) s).Whole := by
    induction operations with
    | nil => exact fun s hs => hs
    | cons op ops ih => exact fun s hs => ih _ (op.whole_run hs)
  exact h .empty whole_empty

end GraphStore

/-- After any operations on an empty store, and after any number of calls of one more, every edge in the store has both ends there. When
the one more is refused, the store is what it was, all along. -/
theorem operations_keep_ends (operations : List StoreOperation) (next : StoreOperation) (calls : Nat) :
    let s := GraphStore.ofOperations operations
    let t := (StoreSession.after calls s next.session).1
    (∀ row ∈ s.edges, s.HasEnds row.2) ∧ (∀ row ∈ t.edges, t.HasEnds row.2) ∧
      ∀ v, (next.session.run s).1 = .error v → t = s ∧ (next.session.run s).2 = s := by
  intro s t
  have hs : s.Whole := GraphStore.whole_ofOperations operations
  refine ⟨hs.ends, (next.whole_after calls hs).ends, ?_⟩
  intro v hv
  have hafter := StoreOperation.after_of_refused hv
  obtain ⟨n, hn⟩ := StoreSession.exists_after_done s next.session
  exact ⟨congrArg (·.1) (hafter calls), (congrArg (·.1) hn).symm.trans (congrArg (·.1) (hafter n))⟩

namespace SampleRuns

/-- Two repositories come to share the id of a file, and the one that wrote it last deletes it. -/
def sharedThenDeleted : List StoreOperation :=
  [.write "r" (some "1") [] [file "r" "a", file "r" "b", file "r" "c"] [imports "r" "a" "b", imports "r" "c" "b"],
    .write "q" (some "2") [] [file "q" "a"] [], .delete "q" "2"]

/-- A write with an entity of another repository. -/
def foreignWrite : StoreOperation := .write "r" (some "3") [] [file "r" "d", file "q" "e"] [imports "r" "d" "b"]

end SampleRuns

/-- The shared file takes along an edge of the other repository; the write of a foreign entity then leaves everything as it is. -/
theorem foreign_write_after_cascade :
    let s := GraphStore.ofOperations SampleRuns.sharedThenDeleted
    s.edges.map (fun row => (row.2.fromId, row.2.toId)) = [("c", "b")] ∧ (∀ row ∈ s.edges, s.HasEnds row.2) ∧
      (SampleRuns.foreignWrite.session.run s).1 = .error (.foreignEntity "e") ∧ (SampleRuns.foreignWrite.session.run s).2 = s := by
  intro s
  have hrefused : (SampleRuns.foreignWrite.session.run s).1 = .error (.foreignEntity "e") :=
    StoreOperation.run_write_of_violation (by decide +kernel) s
  obtain ⟨hends, -, hunchanged⟩ := operations_keep_ends SampleRuns.sharedThenDeleted SampleRuns.foreignWrite 0
  exact ⟨by decide +kernel, hends, hrefused, (hunchanged _ hrefused).2⟩

end CodeAtlas
