import CodeAtlas.Proofs.Store.Runs

/-!
# Finalizing that is broken off and begun again

An attempt to finalize that is broken off has deleted some of the stale tags, or has done everything. The next attempt looks at the store
anew. Of the tags that were stale it misses only those under which nothing is left, since all that carried them went with the tags already
deleted; so it deletes what the first attempt would have deleted, and any number of broken attempts come to the same store.
-/

namespace CodeAtlas

/-- Putting a value in twice is putting it in once. -/
theorem Keyed.put_put {α : Type} (k : String) (v : α) (t : Keyed α) : put k v (put k v t) = put k v t := by
  induction t with
  | nil => simp [put]
  | cons r rs ih =>
    by_cases h : r.1 = k
    · simp [put, h]
    · simp only [put, h, if_false, ih]

namespace GraphStore

variable {s : GraphStore} {repoId version : String}

theorem setActiveVersion_self (s : GraphStore) (repoId version : String) :
    (s.setActiveVersion repoId version).setActiveVersion repoId version = s.setActiveVersion repoId version := by
  simp only [setActiveVersion, Keyed.put_put]

/-- Tags are deleted in one go or in two. -/
theorem deleteVersions_append (s : GraphStore) (repoId : String) (versions more : List String) :
    s.deleteVersions repoId (versions ++ more) = (s.deleteVersions repoId versions).deleteVersions repoId more :=
  List.foldl_append

/-- Deletions only leave out records; the order of the others and the active tags stay. -/
theorem exists_filter_deleteVersions (s : GraphStore) (repoId : String) (versions : List String) :
    ∃ p q, s.deleteVersions repoId versions = { s with entities := s.entities.filter p, edges := s.edges.filter q } := by
  induction versions generalizing s with
  | nil =>
    refine ⟨fun _ => true, fun _ => true, ?_⟩
    rw [List.filter_eq_self.2 fun _ _ => rfl, List.filter_eq_self.2 fun _ _ => rfl]
    rfl
  | cons v vs ih =>
    obtain ⟨p, q, h⟩ := ih (s.deleteVersion repoId v)
    rw [deleteVersions_cons, h]
    exact ⟨_, _, by simp only [deleteVersion, List.filter_filter]; rfl⟩

/-- Deletions that leave the same records leave the same store. -/
theorem deleteVersions_congr {versions others : List String}
    (entities : ∀ row ∈ s.entities, row ∈ (s.deleteVersions repoId versions).entities ↔ row ∈ (s.deleteVersions repoId others).entities)
    (edges : ∀ row ∈ s.edges, row ∈ (s.deleteVersions repoId versions).edges ↔ row ∈ (s.deleteVersions repoId others).edges) :
    s.deleteVersions repoId versions = s.deleteVersions repoId others := by
  have hagree : ∀ {α : Type} {l : List α} {p q : α → Bool}, (∀ x ∈ l, x ∈ l.filter p ↔ x ∈ l.filter q) → l.filter p = l.filter q := by
    intro α l p q h
    refine List.filter_congr fun x hx => Bool.eq_iff_iff.2 ?_
    have hmem := h x hx
    rw [List.mem_filter, List.mem_filter] at hmem
    exact ⟨fun hp => (hmem.1 ⟨hx, hp⟩).2, fun hq => (hmem.2 ⟨hx, hq⟩).2⟩
  obtain ⟨p, q, hversions⟩ := exists_filter_deleteVersions s repoId versions
  obtain ⟨p', q', hothers⟩ := exists_filter_deleteVersions s repoId others
  rw [hversions, hothers] at entities edges ⊢
  rw [hagree entities, hagree edges]

/-- The tags that finalizing a run retires when it looks at the store. -/
def stale (s : GraphStore) (repoId version : String) : List String :=
  StoreSession.staleVersions version (s.activeVersion repoId) (s.versionCounts repoId)

/-- Stale are the tags of the repository's rows and the active one, except the given tag and the empty one. -/
theorem mem_stale {w : String} :
    w ∈ s.stale repoId version ↔
      (s.activeVersion repoId = some w ∨ (∃ row ∈ s.entities, row.2.repoId = repoId ∧ row.2.indexVersion = some w) ∨
        ∃ row ∈ s.edges, row.2.repoId = repoId ∧ row.2.indexVersion = some w) ∧ w ≠ "" ∧ w ≠ version := by
  rw [stale, StoreSession.mem_staleVersions, mem_versionCounts_entities, mem_versionCounts_edges]

/-- What finalizing retires after some of the stale tags are gone was stale before. -/
theorem stale_deleteVersions_subset (s : GraphStore) (repoId version : String) (gone : List String) :
    (s.deleteVersions repoId gone).stale repoId version ⊆ s.stale repoId version := by
  intro w hw
  obtain ⟨huse, hw⟩ := mem_stale.1 hw
  refine mem_stale.2 ⟨?_, hw⟩
  rcases huse with hactive | ⟨row, hrow, h⟩ | ⟨row, hrow, h⟩
  · rw [activeVersion, active_deleteVersions] at hactive
    exact Or.inl hactive
  · exact Or.inr (Or.inl ⟨row, (mem_entities_deleteVersions.1 hrow).1, h⟩)
  · exact Or.inr (Or.inr ⟨row, (mem_edges_deleteVersions.1 hrow).1, h⟩)

/-- Once some stale tags are deleted, deleting what is found to be stale then leaves what deleting all of them would have left. An end of an
edge that carries a stale tag is still there after the first deletions, or they took the edge along. -/
theorem deleteVersions_stale_deleteVersions {gone : List String} (h : gone ⊆ s.stale repoId version) :
    (s.deleteVersions repoId gone).deleteVersions repoId ((s.deleteVersions repoId gone).stale repoId version) =
      s.deleteVersions repoId (s.stale repoId version) := by
  let t := s.deleteVersions repoId gone
  have hsub : gone ++ t.stale repoId version ⊆ s.stale repoId version :=
    List.append_subset.2 ⟨h, stale_deleteVersions_subset s repoId version gone⟩
  have hstale : ∀ w ∈ s.stale repoId version, ((∃ row ∈ t.entities, row.2.repoId = repoId ∧ row.2.indexVersion = some w) ∨
      ∃ row ∈ t.edges, row.2.repoId = repoId ∧ row.2.indexVersion = some w) → w ∈ gone ++ t.stale repoId version :=
    fun w hw huse => List.mem_append_right _ (mem_stale.2 ⟨Or.inr huse, (mem_stale.1 hw).2⟩)
  have hentity : ∀ row ∈ s.entities, ∀ w ∈ s.stale repoId version, row.2.repoId = repoId ∧ row.2.indexVersion = some w →
      row ∈ t.entities → w ∈ gone ++ t.stale repoId version :=
    fun row _ w hw htag hrow => hstale w hw (Or.inl ⟨row, hrow, htag⟩)
  rw [← deleteVersions_append]
  refine deleteVersions_congr (fun row hrow => ?_) fun row hrow => ?_
  · rw [mem_entities_deleteVersions, mem_entities_deleteVersions]
    refine and_congr_right fun _ => ⟨fun hkept w hw htag => ?_, fun hkept w hw => hkept w (hsub hw)⟩
    have hrow' : row ∈ t.entities :=
      mem_entities_deleteVersions.2 ⟨hrow, fun w hw => hkept w (List.mem_append_left _ hw)⟩
    exact hkept w (hentity row hrow w hw htag hrow') htag
  · rw [mem_edges_deleteVersions, mem_edges_deleteVersions]
    refine and_congr_right fun _ => ⟨fun hkept w hw => ?_, fun hkept w hw => hkept w (hsub hw)⟩
    have hrow' : row ∈ t.edges := mem_edges_deleteVersions.2 ⟨hrow, fun w hw => hkept w (List.mem_append_left _ hw)⟩
    have hend : ∀ id, (∀ w ∈ gone ++ t.stale repoId version, id ∉ s.entityIds repoId w) → id ∉ s.entityIds repoId w := by
      intro id hid hgone
      obtain ⟨e, he, htag⟩ := mem_entityIds.1 hgone
      have hnot : w ∉ gone := fun hw' => hid w (List.mem_append_left _ hw') hgone
      have he' : (id, e) ∈ t.entities := by
        refine mem_entities_deleteVersions.2 ⟨he, fun w' hw' htag' => ?_⟩
        exact hnot (Option.some.inj (htag.2.symm.trans htag'.2) ▸ hw')
      exact hid w (hstale w hw (Or.inl ⟨(id, e), he', htag⟩)) hgone
    refine ⟨fun htag => ?_, hend _ fun w hw => (hkept w hw).2.1, hend _ fun w hw => (hkept w hw).2.2⟩
    exact (hkept w (hstale w hw (Or.inr ⟨row, hrow', htag⟩))).1 htag

/-- What finalizing leaves of a store. -/
def finalized (s : GraphStore) (repoId version : String) : GraphStore :=
  (s.deleteVersions repoId (s.stale repoId version)).setActiveVersion repoId version

/-- Nothing is stale once a run is finalized. -/
theorem stale_finalized (s : GraphStore) (repoId version : String) : (s.finalized repoId version).stale repoId version = [] := by
  refine List.eq_nil_iff_forall_not_mem.2 fun w hw => ?_
  obtain ⟨huse, hempty, hown⟩ := mem_stale.1 hw
  rcases huse with hactive | ⟨row, hrow, htag⟩ | ⟨row, hrow, htag⟩
  · have hfound : some version = some w := (Keyed.find_put_self repoId version _).symm.trans hactive
    exact hown (Option.some.inj hfound).symm
  · obtain ⟨hrow, hkept⟩ := mem_entities_deleteVersions.1 hrow
    exact hkept w (mem_stale.2 ⟨Or.inr (Or.inl ⟨row, hrow, htag⟩), hempty, hown⟩) htag
  · obtain ⟨hrow, hkept⟩ := mem_edges_deleteVersions.1 hrow
    exact (hkept w (mem_stale.2 ⟨Or.inr (Or.inr ⟨row, hrow, htag⟩), hempty, hown⟩)).1 htag

/-- Finalizing twice is finalizing once. -/
theorem finalized_finalized (s : GraphStore) (repoId version : String) :
    (s.finalized repoId version).finalized repoId version = s.finalized repoId version := by
  conv => lhs; rw [finalized, stale_finalized]
  exact setActiveVersion_self _ _ _

end GraphStore

namespace StoreSession

/-- The session of finalizing leaves the finalized store. -/
theorem run_finalize_snd (s : GraphStore) (repoId version : String) :
    ((finalize repoId version).run s).2 = s.finalized repoId version :=
  congrArg (·.2) (run_finalize s repoId version)

/-- Sweeping that is broken off has deleted some tags from the front, or has come to its end. -/
theorem after_sweep (n : Nat) (s : GraphStore) (repoId version : String) (versions : List String) (retired : Option String) :
    (after n s ((deleteVersions repoId versions).bind fun _ => setActiveVersion repoId version (done retired))).1 =
        s.deleteVersions repoId (versions.take n) ∨
      (after n s ((deleteVersions repoId versions).bind fun _ => setActiveVersion repoId version (done retired))).1 =
        (s.deleteVersions repoId versions).setActiveVersion repoId version := by
  induction versions generalizing n s with
  | nil =>
    cases n with
    | zero => exact Or.inl rfl
    | succ n => exact Or.inr (congrArg (·.1) (after_done n _ retired))
  | cons v vs ih =>
    cases n with
    | zero => exact Or.inl rfl
    | succ n => exact ih n (s.deleteVersion repoId v)

/-- Finalizing that is broken off has deleted some of the stale tags, or has come to its end. -/
theorem after_finalize (n : Nat) (s : GraphStore) (repoId version : String) :
    (∃ gone ⊆ s.stale repoId version, (after n s (finalize repoId version)).1 = s.deleteVersions repoId gone) ∨
      (after n s (finalize repoId version)).1 = s.finalized repoId version := by
  match n with
  | 0 => exact Or.inl ⟨[], List.nil_subset _, rfl⟩
  | 1 => exact Or.inl ⟨[], List.nil_subset _, rfl⟩
  | n + 2 =>
    refine (after_sweep n s repoId version (s.stale repoId version) (s.stale repoId version).head?).imp (fun h => ?_) fun h => h
    exact ⟨_, List.take_subset n _, h⟩

/-- After an attempt that is broken off, finalizing leaves what it would have left without the attempt. -/
theorem finalized_after (n : Nat) (s : GraphStore) (repoId version : String) :
    (after n s (finalize repoId version)).1.finalized repoId version = s.finalized repoId version := by
  rcases after_finalize n s repoId version with ⟨gone, hgone, h⟩ | h
  · rw [h, GraphStore.finalized, GraphStore.deleteVersions_stale_deleteVersions hgone]
    rfl
  · rw [h, GraphStore.finalized_finalized]

/-- What attempts to finalize a run leave of a store, each broken off after some number of calls. -/
def attempts (repoId version : String) (cuts : List Nat) (s : GraphStore) : GraphStore :=
  cuts.foldl (fun s n => (after n s (finalize repoId version)).1) s

/-- Attempts that were broken off do not change what finalizing leads to. -/
theorem finalized_attempts (repoId version : String) (cuts : List Nat) (s : GraphStore) :
    (attempts repoId version cuts s).finalized repoId version = s.finalized repoId version := by
  induction cuts generalizing s with
  | nil => rfl
  | cons n cuts ih => exact (ih _).trans (finalized_after n s repoId version)

end StoreSession

/-- A record that finalizing a run of a repository leaves alone: one of another repository, or one without a tag. -/
def Spared (repoId recordRepo : String) (tag : Option String) : Prop := recordRepo ≠ repoId ∨ tag = none ∨ tag = some ""

/-- A spared record carries none of the tags that finalizing deletes. -/
theorem Spared.not_of_ne_empty {repoId recordRepo w : String} {tag : Option String} (h : Spared repoId recordRepo tag) (hw : w ≠ "") :
    ¬(recordRepo = repoId ∧ tag = some w) := by
  rintro ⟨rfl, rfl⟩
  rcases h with h | h | h
  · exact h rfl
  · nomatch h
  · exact hw (Option.some.inj h)

namespace GraphStore

/-- Of two stores, the second holds the spared records of the first, edges unless an end of theirs is missing. -/
structure Keeps (repoId : String) (s t : GraphStore) : Prop where
  entities : ∀ row ∈ s.entities, Spared repoId row.2.repoId row.2.indexVersion → row ∈ t.entities
  edges : ∀ row ∈ s.edges, Spared repoId row.2.repoId row.2.indexVersion →
    (∀ e ∈ s.entities, e.1 = row.2.fromId ∨ e.1 = row.2.toId → e ∈ t.entities) → row ∈ t.edges

/-- Deletions of tags that are not empty keep the spared records. -/
theorem keeps_deleteVersions (s : GraphStore) (repoId : String) {versions : List String} (h : "" ∉ versions) :
    s.Keeps repoId (s.deleteVersions repoId versions) where
  entities row hrow spared := by
    refine mem_entities_deleteVersions.2 ⟨hrow, fun w hw => spared.not_of_ne_empty ?_⟩
    exact fun e => h (e ▸ hw)
  edges row hrow spared hends := by
    refine mem_edges_deleteVersions.2 ⟨hrow, fun w hw => ⟨spared.not_of_ne_empty fun e => h (e ▸ hw), ?_, ?_⟩⟩
    · intro hgone
      obtain ⟨e, he, htag⟩ := mem_entityIds.1 hgone
      exact (mem_entities_deleteVersions.1 (hends _ he (Or.inl rfl))).2 w hw htag
    · intro hgone
      obtain ⟨e, he, htag⟩ := mem_entityIds.1 hgone
      exact (mem_entities_deleteVersions.1 (hends _ he (Or.inr rfl))).2 w hw htag

/-- The empty tag is not stale. -/
theorem empty_not_mem_stale (s : GraphStore) (repoId version : String) : "" ∉ s.stale repoId version :=
  fun h => (mem_stale.1 h).2.1 rfl

/-- Finalizing keeps what it must keep. -/
theorem keeps_finalized (s : GraphStore) (repoId version : String) : s.Keeps repoId (s.finalized repoId version) :=
  have h := s.keeps_deleteVersions repoId (s.empty_not_mem_stale repoId version)
  ⟨h.entities, h.edges⟩

end GraphStore

namespace StoreSession

/-- However many attempts are broken off, some stale tags are deleted, or the run is finalized. -/
theorem attempts_cases (repoId version : String) (cuts : List Nat) (s : GraphStore) :
    (∃ gone ⊆ s.stale repoId version, attempts repoId version cuts s = s.deleteVersions repoId gone) ∨
      attempts repoId version cuts s = s.finalized repoId version := by
  induction cuts generalizing s with
  | nil => exact Or.inl ⟨[], List.nil_subset _, rfl⟩
  | cons n cuts ih =>
    have hstep : attempts repoId version (n :: cuts) s = attempts repoId version cuts (after n s (finalize repoId version)).1 := rfl
    rw [hstep]
    rcases ih (after n s (finalize repoId version)).1 with ⟨more, hmore, h⟩ | h
    · rcases after_finalize n s repoId version with ⟨gone, hgone, hn⟩ | hn
      · rw [hn] at h hmore
        refine Or.inl ⟨gone ++ more, List.append_subset.2 ⟨hgone, ?_⟩, ?_⟩
        · exact List.Subset.trans hmore (GraphStore.stale_deleteVersions_subset s repoId version gone)
        · rw [hn, h, GraphStore.deleteVersions_append]
      · rw [hn, GraphStore.stale_finalized] at hmore
        rw [h, List.subset_nil.1 hmore, hn]
        exact Or.inr rfl
    · rw [h, finalized_after]
      exact Or.inr rfl

/-- Whatever attempts are made, the spared records are kept. -/
theorem keeps_attempts (repoId version : String) (cuts : List Nat) (s : GraphStore) :
    s.Keeps repoId (attempts repoId version cuts s) := by
  rcases attempts_cases repoId version cuts s with ⟨gone, hgone, h⟩ | h
  · rw [h]
    exact s.keeps_deleteVersions repoId fun hempty => s.empty_not_mem_stale repoId version (hgone hempty)
  · rw [h]
    exact s.keeps_finalized repoId version

end StoreSession

/-- After attempts to finalize a run that are broken off, each after any number of calls, finalizing leaves the same store as one attempt
that is not broken off. Once more it changes nothing and retires nothing. The records that are not its to delete are kept all along. -/
theorem finalize_resumes (s : GraphStore) (repoId version : String) (cuts : List Nat) :
    let whole := ((StoreSession.finalize repoId version).run s).2
    let t := StoreSession.attempts repoId version cuts s
    ((StoreSession.finalize repoId version).run t).2 = whole ∧ (StoreSession.finalize repoId version).run whole = (none, whole) ∧
      s.Keeps repoId t ∧ s.Keeps repoId whole := by
  intro whole t
  have hwhole : whole = s.finalized repoId version := StoreSession.run_finalize_snd s repoId version
  refine ⟨?_, ?_, StoreSession.keeps_attempts repoId version cuts s, hwhole ▸ s.keeps_finalized repoId version⟩
  · rw [StoreSession.run_finalize_snd, hwhole, StoreSession.finalized_attempts]
  · have hnone : (whole.stale repoId version).head? = none := by
      rw [hwhole, GraphStore.stale_finalized]
      rfl
    have hsame : whole.finalized repoId version = whole := by
      rw [hwhole, GraphStore.finalized_finalized]
    calc (StoreSession.finalize repoId version).run whole
        = ((whole.stale repoId version).head?, whole.finalized repoId version) := StoreSession.run_finalize whole repoId version
      _ = (none, whole) := by rw [hnone, hsame]

end CodeAtlas
