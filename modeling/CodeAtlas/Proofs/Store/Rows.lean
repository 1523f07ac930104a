import CodeAtlas.Store.Memory

/-!
# Records under keys, and what a store call does to them

A record put under a key is found there, and the records under other keys stay. In a well-formed store the keys are distinct and
every record stands under its own id, so what an upsert or a deletion leaves can be said record by record.
-/

namespace CodeAtlas

namespace Keyed

variable {α : Type}

/-- The keys after a put: the key is new at the end, or was there. -/
theorem keys_put (k : String) (v : α) (t : Keyed α) :
    (put k v t).map (·.1) = if k ∈ t.map (·.1) then t.map (·.1) else t.map (·.1) ++ [k] := by
  induction t with
  | nil => simp [put]
  | cons r rs ih =>
    by_cases h : r.1 = k
    · simp [put, h]
    · have h' : ¬k = r.1 := fun e => h e.symm
      simp only [put, h, if_false, List.map_cons, ih, List.mem_cons, h', false_or]
      split <;> simp

/-- A put keeps the keys distinct. -/
theorem nodup_put {k : String} {v : α} {t : Keyed α} (h : (t.map (·.1)).Nodup) : ((put k v t).map (·.1)).Nodup := by
  rw [keys_put]
  split
  · exact h
  · rename_i hk
    rw [List.nodup_append]
    refine ⟨h, by simp, ?_⟩
    rintro a ha b hb rfl
    rw [List.mem_singleton] at hb
    exact hk (hb ▸ ha)

/-- After a put there is the new record, and the records under other keys. -/
theorem mem_put {k : String} {v : α} {t : Keyed α} (h : (t.map (·.1)).Nodup) (row : String × α) :
    row ∈ put k v t ↔ row = (k, v) ∨ row.1 ≠ k ∧ row ∈ t := by
  induction t with
  | nil => simp [put]
  | cons r rs ih =>
    rw [List.map_cons, List.nodup_cons] at h
    by_cases hr : r.1 = k
    · have hne : ∀ row ∈ rs, row.1 ≠ k := by
        intro x hx e
        exact h.1 (hr ▸ e ▸ List.mem_map_of_mem hx)
      simp only [put, hr, if_true, List.mem_cons]
      constructor
      · rintro (rfl | hx)
        · exact Or.inl rfl
        · exact Or.inr ⟨hne row hx, Or.inr hx⟩
      · rintro (rfl | ⟨hk, rfl | hx⟩)
        · exact Or.inl rfl
        · exact absurd hr hk
        · exact Or.inr hx
    · simp only [put, hr, if_false, List.mem_cons, ih h.2]
      constructor
      · rintro (rfl | rfl | ⟨hk, hx⟩)
        · exact Or.inr ⟨hr, Or.inl rfl⟩
        · exact Or.inl rfl
        · exact Or.inr ⟨hk, Or.inr hx⟩
      · rintro (rfl | ⟨hk, rfl | hx⟩)
        · exact Or.inr (Or.inl rfl)
        · exact Or.inl rfl
        · exact Or.inr (Or.inr ⟨hk, hx⟩)

/-- The record just put is found. -/
theorem find_put_self (k : String) (v : α) (t : Keyed α) : find k (put k v t) = some v := by
  induction t with
  | nil => simp [put, find]
  | cons r rs ih =>
    by_cases h : r.1 = k
    · simp [put, find, h]
    · have hb : (r.1 == k) = false := beq_false_of_ne h
      simp only [put, h, if_false, find, List.find?_cons, hb]
      exact ih

/-- A put leaves what is found under other keys. -/
theorem find_put_of_ne {k k' : String} (h : k' ≠ k) (v : α) (t : Keyed α) : find k' (put k v t) = find k' t := by
  induction t with
  | nil => simp [put, find, h.symm]
  | cons r rs ih =>
    by_cases hr : r.1 = k
    · simp [put, find, hr, h.symm]
    · simp only [put, hr, if_false, find, List.find?_cons]
      split
      · rfl
      · exact ih

/-- Under distinct keys every record is found. -/
theorem find_of_mem {k : String} {v : α} {t : Keyed α} (h : (t.map (·.1)).Nodup) (hm : (k, v) ∈ t) : find k t = some v := by
  induction t with
  | nil => simp at hm
  | cons r rs ih =>
    rw [List.map_cons, List.nodup_cons] at h
    rcases List.mem_cons.1 hm with rfl | hm
    · simp [find]
    · have hne : r.1 ≠ k := by
        intro e
        exact h.1 (e ▸ List.mem_map_of_mem hm)
      have := ih h.2 hm
      simpa [find, List.find?_cons, hne] using this

/-- Under distinct keys there is one record to a key. -/
theorem eq_of_mem {k : String} {v w : α} {t : Keyed α} (h : (t.map (·.1)).Nodup) (hv : (k, v) ∈ t) (hw : (k, w) ∈ t) : v = w :=
  Option.some.inj ((find_of_mem h hv).symm.trans (find_of_mem h hw))

/-- Puts items under their ids, one after the other. -/
def putAll (id : α → String) (xs : List α) (t : Keyed α) : Keyed α := xs.foldl (fun t x => put (id x) x t) t

/-- Putting rows in brings no key twice. -/
theorem nodup_putAll (id : α → String) (xs : List α) {t : Keyed α} (h : (t.map (·.1)).Nodup) :
    ((putAll id xs t).map (·.1)).Nodup := by
  induction xs generalizing t with
  | nil => exact h
  | cons x xs ih => exact ih (nodup_put h)

/-- A record that is there after some puts was there before, or is one of the items under its id. -/
theorem mem_putAll_imp {id : α → String} {xs : List α} {t : Keyed α} (h : (t.map (·.1)).Nodup) {row : String × α}
    (hm : row ∈ putAll id xs t) : (∃ x ∈ xs, row = (id x, x)) ∨ row ∈ t := by
  induction xs generalizing t with
  | nil => exact Or.inr hm
  | cons x xs ih =>
    rcases ih (nodup_put h) hm with ⟨y, hy, e⟩ | hm
    · exact Or.inl ⟨y, List.mem_cons_of_mem x hy, e⟩
    · rcases (mem_put h row).1 hm with rfl | ⟨-, hm⟩
      · exact Or.inl ⟨x, List.mem_cons_self, rfl⟩
      · exact Or.inr hm

/-- After putting items with distinct ids there are these items, and the records under keys that are none of the ids. -/
theorem mem_putAll {id : α → String} {xs : List α} {t : Keyed α} (hx : (xs.map id).Nodup) (h : (t.map (·.1)).Nodup)
    (row : String × α) : row ∈ putAll id xs t ↔ (∃ x ∈ xs, row = (id x, x)) ∨ row.1 ∉ xs.map id ∧ row ∈ t := by
  induction xs generalizing t with
  | nil => simp [putAll]
  | cons x xs ih =>
    rw [List.map_cons, List.nodup_cons] at hx
    have step := ih (t := put (id x) x t) hx.2 (nodup_put h)
    rw [mem_put h] at step
    simp only [putAll, List.foldl_cons] at step ⊢
    rw [step]
    simp only [List.map_cons, List.mem_cons, not_or]
    constructor
    · rintro (⟨y, hy, rfl⟩ | ⟨hn, rfl | ⟨hne, hm⟩⟩)
      · exact Or.inl ⟨y, Or.inr hy, rfl⟩
      · exact Or.inl ⟨x, Or.inl rfl, rfl⟩
      · exact Or.inr ⟨⟨hne, hn⟩, hm⟩
    · rintro (⟨y, rfl | hy, rfl⟩ | ⟨⟨hne, hn⟩, hm⟩)
      · exact Or.inr ⟨hx.1, Or.inl rfl⟩
      · exact Or.inl ⟨y, hy, rfl⟩
      · exact Or.inr ⟨hn, Or.inr ⟨hne, hm⟩⟩

/-- Under a key there is, after putting items with distinct ids, the item with this id, or else what was there before. -/
theorem find_putAll {id : α → String} {xs : List α} (hx : (xs.map id).Nodup) (k : String) (t : Keyed α) :
    find k (putAll id xs t) = (xs.find? fun x => id x == k).or (find k t) := by
  induction xs generalizing t with
  | nil => rfl
  | cons x xs ih =>
    rw [List.map_cons, List.nodup_cons] at hx
    have step : find k (putAll id (x :: xs) t) = (xs.find? fun x => id x == k).or (find k (put (id x) x t)) := ih hx.2 _
    rw [step]
    by_cases h : id x = k
    · have hnone : (xs.find? fun x => id x == k) = none := by
        refine List.find?_eq_none.2 fun y hy hk => hx.1 ?_
        rw [h, ← beq_iff_eq.1 hk]
        exact List.mem_map_of_mem hy
      rw [hnone, ← h, find_put_self, List.find?_cons, beq_self_eq_true]
      rfl
    · rw [find_put_of_ne (Ne.symm h), List.find?_cons, beq_false_of_ne h]

/-- A put of a record that a filter leaves out, under the key of none that it keeps, changes nothing for the filter. -/
theorem filter_put {p : String × α → Bool} {k : String} {v : α} {t : Keyed α} (hv : p (k, v) = false)
    (ht : ∀ row ∈ t, row.1 = k → p row = false) : (put k v t).filter p = t.filter p := by
  induction t with
  | nil => simp [put, hv]
  | cons r rs ih =>
    by_cases hr : r.1 = k
    · simp [put, hr, hv, ht r List.mem_cons_self hr]
    · have hrs := ih fun row hrow => ht row (List.mem_cons_of_mem r hrow)
      simp only [put, hr, if_false, List.filter_cons, hrs]

/-- Puts that a filter leaves out, under keys of records that it leaves out, change nothing for the filter. -/
theorem filter_putAll {p : String × α → Bool} {id : α → String} {xs : List α} {t : Keyed α}
    (h : (t.map (·.1)).Nodup) (hx : ∀ x ∈ xs, p (id x, x) = false)
    (ht : ∀ row ∈ t, row.1 ∈ xs.map id → p row = false) : (putAll id xs t).filter p = t.filter p := by
  induction xs generalizing t with
  | nil => rfl
  | cons x xs ih =>
    have hv := hx x List.mem_cons_self
    have hput : (put (id x) x t).filter p = t.filter p :=
      filter_put hv fun row hrow e => ht row hrow (by simp [e])
    rw [← hput]
    refine ih (nodup_put h) (fun y hy => hx y (List.mem_cons_of_mem x hy)) ?_
    intro row hrow hk
    rcases (mem_put h row).1 hrow with rfl | ⟨-, hrow⟩
    · exact hv
    · exact ht row hrow (by simp only [List.map_cons, List.mem_cons]; exact Or.inr hk)

/-- Records under distinct keys that are just some items under distinct ids are these items in some order. -/
theorem perm_of_mem_iff {id : α → String} {xs : List α} {t : Keyed α} (hx : (xs.map id).Nodup) (h : (t.map (·.1)).Nodup)
    (mem : ∀ row, row ∈ t ↔ ∃ x ∈ xs, row = (id x, x)) : t.Perm (xs.map fun x => (id x, x)) := by
  have hkeys : ((xs.map fun x => (id x, x)).map (·.1)).Nodup := by
    rw [List.map_map]
    exact hx
  have hne : ∀ a b : String × α, a.1 ≠ b.1 → a ≠ b := fun a b hab e => hab (congrArg (·.1) e)
  refine (List.perm_ext_iff_of_nodup (List.Pairwise.of_map _ hne h) (List.Pairwise.of_map _ hne hkeys)).2 fun row => ?_
  rw [mem, List.mem_map]
  exact exists_congr fun x => and_congr_right fun _ => eq_comm

end Keyed

namespace GraphStore

/-- The keys of a store are distinct, and every record stands under its own id. -/
structure WellFormed (s : GraphStore) : Prop where
  entityKeys : (s.entities.map (·.1)).Nodup
  edgeKeys : (s.edges.map (·.1)).Nodup
  entityIds : ∀ row ∈ s.entities, row.1 = row.2.id
  edgeIds : ∀ row ∈ s.edges, row.1 = row.2.id

/-- The entities of a repository under their keys. -/
def entityRows (s : GraphStore) (repoId : String) : Keyed Entity := s.entities.filter fun r => r.2.repoId == repoId

/-- The edges of a repository under their keys. -/
def edgeRows (s : GraphStore) (repoId : String) : Keyed Edge := s.edges.filter fun r => r.2.repoId == repoId

/-- No record of a repository carries the tag. -/
def Unused (s : GraphStore) (repoId version : String) : Prop :=
  (∀ row ∈ s.entities, row.2.repoId = repoId → row.2.indexVersion ≠ some version) ∧
    ∀ row ∈ s.edges, row.2.repoId = repoId → row.2.indexVersion ≠ some version

/-- Whether a tag is unused is decided by the rows of the store. -/
instance (s : GraphStore) (repoId version : String) : Decidable (s.Unused repoId version) := inferInstanceAs (Decidable (_ ∧ _))

theorem entityHas_iff {repoId version : String} {e : Entity} :
    entityHas repoId version e = true ↔ e.repoId = repoId ∧ e.indexVersion = some version := by
  simp [entityHas]

theorem edgeHas_iff {repoId version : String} {e : Edge} :
    edgeHas repoId version e = true ↔ e.repoId = repoId ∧ e.indexVersion = some version := by
  simp [edgeHas]

/-- The ids that a deletion of a tag takes along are the keys of the entities with that tag. -/
theorem mem_entityIds {s : GraphStore} {repoId version k : String} :
    k ∈ s.entityIds repoId version ↔ ∃ e, (k, e) ∈ s.entities ∧ e.repoId = repoId ∧ e.indexVersion = some version := by
  simp only [entityIds, List.mem_map, List.mem_filter, entityHas_iff]
  constructor
  · rintro ⟨row, ⟨hm, hr, hv⟩, rfl⟩
    exact ⟨row.2, hm, hr, hv⟩
  · rintro ⟨e, hm, hr, hv⟩
    exact ⟨(k, e), ⟨hm, hr, hv⟩, rfl⟩

/-- An entity survives a deletion unless it carries the tag. -/
theorem mem_entities_deleteVersion {s : GraphStore} {repoId version : String} {row : String × Entity} :
    row ∈ (s.deleteVersion repoId version).entities ↔
      row ∈ s.entities ∧ ¬(row.2.repoId = repoId ∧ row.2.indexVersion = some version) := by
  rw [← entityHas_iff, Bool.not_eq_true, ← Bool.not_eq_true']
  exact List.mem_filter

/-- An edge survives a deletion unless it carries the tag or has an end among the deleted entities. -/
theorem mem_edges_deleteVersion {s : GraphStore} {repoId version : String} {row : String × Edge} :
    row ∈ (s.deleteVersion repoId version).edges ↔
      row ∈ s.edges ∧ ¬(row.2.repoId = repoId ∧ row.2.indexVersion = some version) ∧
        row.2.fromId ∉ s.entityIds repoId version ∧ row.2.toId ∉ s.entityIds repoId version := by
  have hends : ∀ id, (s.entityIds repoId version).contains id = false ↔ id ∉ s.entityIds repoId version := by
    intro id
    rw [← Bool.not_eq_true, List.contains_iff_mem]
  have hhas : edgeHas repoId version row.2 = false ↔ ¬(row.2.repoId = repoId ∧ row.2.indexVersion = some version) := by
    rw [← Bool.not_eq_true, edgeHas_iff]
  simp only [deleteVersion, List.mem_filter, Bool.not_eq_true', Bool.or_eq_false_iff, hends, hhas, and_assoc]

/-- An empty store is well-formed. -/
theorem wellFormed_empty : empty.WellFormed :=
  ⟨List.nodup_nil, List.nodup_nil, fun _ h => absurd h List.not_mem_nil, fun _ h => absurd h List.not_mem_nil⟩

/-- Putting entities in keeps a store well-formed. -/
theorem WellFormed.upsertEntities {s : GraphStore} (h : s.WellFormed) (es : List Entity) : (s.upsertEntities es).WellFormed where
  entityKeys := Keyed.nodup_putAll Entity.id es h.entityKeys
  edgeKeys := h.edgeKeys
  entityIds := by
    intro row hrow
    rcases Keyed.mem_putAll_imp h.entityKeys hrow with ⟨e, -, rfl⟩ | hrow
    · rfl
    · exact h.entityIds row hrow
  edgeIds := h.edgeIds

/-- So does putting edges in. -/
theorem WellFormed.upsertEdges {s : GraphStore} (h : s.WellFormed) (es : List Edge) : (s.upsertEdges es).WellFormed where
  entityKeys := h.entityKeys
  edgeKeys := Keyed.nodup_putAll Edge.id es h.edgeKeys
  entityIds := h.entityIds
  edgeIds := by
    intro row hrow
    rcases Keyed.mem_putAll_imp h.edgeKeys hrow with ⟨e, -, rfl⟩ | hrow
    · rfl
    · exact h.edgeIds row hrow

/-- So does deleting a tag. -/
theorem WellFormed.deleteVersion {s : GraphStore} (h : s.WellFormed) (repoId version : String) :
    (s.deleteVersion repoId version).WellFormed where
  entityKeys := h.entityKeys.sublist (List.filter_sublist.map _)
  edgeKeys := h.edgeKeys.sublist (List.filter_sublist.map _)
  entityIds := fun row hrow => h.entityIds row (List.mem_filter.1 hrow).1
  edgeIds := fun row hrow => h.edgeIds row (List.mem_filter.1 hrow).1

/-- So does setting the active tag. -/
theorem WellFormed.setActiveVersion {s : GraphStore} (h : s.WellFormed) (repoId version : String) :
    (s.setActiveVersion repoId version).WellFormed :=
  ⟨h.entityKeys, h.edgeKeys, h.entityIds, h.edgeIds⟩

/-- Deletes the records with each of some tags, one tag after the other. -/
def deleteVersions (s : GraphStore) (repoId : String) (versions : List String) : GraphStore :=
  versions.foldl (fun s v => s.deleteVersion repoId v) s

theorem deleteVersions_cons (s : GraphStore) (repoId v : String) (vs : List String) :
    s.deleteVersions repoId (v :: vs) = (s.deleteVersion repoId v).deleteVersions repoId vs := rfl

/-- Deleting tags keeps a store well-formed. -/
theorem WellFormed.deleteVersions {s : GraphStore} (h : s.WellFormed) (repoId : String) (versions : List String) :
    (s.deleteVersions repoId versions).WellFormed := by
  induction versions generalizing s with
  | nil => exact h
  | cons v vs ih => exact ih (h.deleteVersion repoId v)

/-- It leaves the active tags. -/
theorem active_deleteVersions (s : GraphStore) (repoId : String) (versions : List String) :
    (s.deleteVersions repoId versions).active = s.active := by
  induction versions generalizing s with
  | nil => rfl
  | cons v vs ih => rw [deleteVersions_cons, ih, deleteVersion]

/-- A deletion leaves the entities with any other tag. -/
theorem mem_entityIds_deleteVersion {s : GraphStore} {repoId v w k : String} :
    k ∈ (s.deleteVersion repoId v).entityIds repoId w ↔ k ∈ s.entityIds repoId w ∧ w ≠ v := by
  simp only [mem_entityIds, mem_entities_deleteVersion]
  constructor
  · rintro ⟨e, ⟨hm, hn⟩, hr, hw⟩
    exact ⟨⟨e, hm, hr, hw⟩, fun e => hn ⟨hr, e ▸ hw⟩⟩
  · rintro ⟨⟨e, hm, hr, hw⟩, hne⟩
    exact ⟨e, ⟨hm, fun h => hne (Option.some.inj (hw.symm.trans h.2))⟩, hr, hw⟩

/-- It leaves the entities without these tags, and those of other repositories. -/
theorem mem_entities_deleteVersions {s : GraphStore} {repoId : String} {versions : List String} {row : String × Entity} :
    row ∈ (s.deleteVersions repoId versions).entities ↔
      row ∈ s.entities ∧ ∀ w ∈ versions, ¬(row.2.repoId = repoId ∧ row.2.indexVersion = some w) := by
  induction versions generalizing s with
  | nil => simp [deleteVersions]
  | cons v vs ih => rw [deleteVersions_cons, ih, mem_entities_deleteVersion, List.forall_mem_cons, and_assoc]

/-- An edge survives some deletions unless it carries one of the tags, or one of its ends is an entity that does. -/
theorem mem_edges_deleteVersions {s : GraphStore} {repoId : String} {versions : List String} {row : String × Edge} :
    row ∈ (s.deleteVersions repoId versions).edges ↔
      row ∈ s.edges ∧ ∀ w ∈ versions, ¬(row.2.repoId = repoId ∧ row.2.indexVersion = some w) ∧
        row.2.fromId ∉ s.entityIds repoId w ∧ row.2.toId ∉ s.entityIds repoId w := by
  induction versions generalizing s with
  | nil => simp [deleteVersions]
  | cons v vs ih =>
    rw [deleteVersions_cons, ih, mem_edges_deleteVersion, List.forall_mem_cons, and_assoc]
    simp only [mem_entityIds_deleteVersion]
    constructor
    · rintro ⟨hm, hv, hvs⟩
      refine ⟨hm, hv, ?_⟩
      intro w hw
      by_cases e : w = v
      · exact e ▸ hv
      · obtain ⟨h, hfrom, hto⟩ := hvs w hw
        exact ⟨h, fun hk => hfrom ⟨hk, e⟩, fun hk => hto ⟨hk, e⟩⟩
    · rintro ⟨hm, hv, hvs⟩
      refine ⟨hm, hv, ?_⟩
      intro w hw
      obtain ⟨h, hfrom, hto⟩ := hvs w hw
      exact ⟨h, fun hk => hfrom hk.1, fun hk => hto hk.1⟩

/-- Deletions of tags of one repository leave the entities of the others. -/
theorem entityRows_deleteVersions_of_ne (s : GraphStore) {repoId other : String} (h : other ≠ repoId) (versions : List String) :
    (s.deleteVersions repoId versions).entityRows other = s.entityRows other := by
  induction versions generalizing s with
  | nil => rfl
  | cons v vs ih =>
    rw [deleteVersions_cons, ih]
    simp only [entityRows, deleteVersion, List.filter_filter]
    refine List.filter_congr ?_
    intro row _
    by_cases e : row.2.repoId = other
    · simp [entityHas, e, h]
    · simp [e]

/-- They leave also the edges of the others, unless one starts or ends at an entity that is deleted. -/
theorem edgeRows_deleteVersions_of_ne {s : GraphStore} {repoId other : String} (h : other ≠ repoId) {versions : List String}
    (apart : ∀ row ∈ s.edges, row.2.repoId = other →
      ∀ w ∈ versions, row.2.fromId ∉ s.entityIds repoId w ∧ row.2.toId ∉ s.entityIds repoId w) :
    (s.deleteVersions repoId versions).edgeRows other = s.edgeRows other := by
  induction versions generalizing s with
  | nil => rfl
  | cons v vs ih =>
    rw [deleteVersions_cons, ih]
    · simp only [edgeRows, deleteVersion, List.filter_filter]
      refine List.filter_congr ?_
      intro row hrow
      by_cases e : row.2.repoId = other
      · obtain ⟨hfrom, hto⟩ := apart row hrow e v List.mem_cons_self
        simp [edgeHas, e, h, hfrom, hto]
      · simp [e]
    · intro row hrow e w hw
      obtain ⟨hfrom, hto⟩ := apart row (mem_edges_deleteVersion.1 hrow).1 e w (List.mem_cons_of_mem v hw)
      exact ⟨fun hk => hfrom (mem_entityIds_deleteVersion.1 hk).1, fun hk => hto (mem_entityIds_deleteVersion.1 hk).1⟩

end GraphStore

end CodeAtlas
