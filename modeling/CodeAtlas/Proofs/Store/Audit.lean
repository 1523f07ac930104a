import CodeAtlas.Proofs.Store.Tags

/-!
# What an audit tells of a store

An audit sees the counts by tag, not the records. It subtracts the records without a tag and those with the expected one from all of
them, and what is left are the records with another tag: every record has either no tag, the expected one or another.
-/

namespace CodeAtlas

namespace VersionAudit

/-- What an audit tells of some records, by their tags: how many there are, how many have a tag other than the expected one, and how many
have none. -/
structure Tells (expected : String) (tags : List (Option String)) (total unexpected unstamped : Int) : Prop where
  all : total = tags.length
  others : unexpected = tags.countP fun tag => tag ≠ none ∧ tag ≠ some expected
  untagged : unstamped = tags.count none
  /-- No record is missed and none is counted twice. -/
  parts : total = tags.count (some expected) + unexpected + unstamped

variable {expected : String} {tags : List (Option String)}

/-- A record has the expected tag, another or none. -/
theorem length_eq_add (expected : String) (tags : List (Option String)) :
    tags.length = tags.count (some expected) + tags.countP (fun tag => tag ≠ none ∧ tag ≠ some expected) + tags.count none := by
  induction tags with
  | nil => rfl
  | cons tag tags ih =>
    rw [List.length_cons, ih, List.count_cons, List.count_cons, List.countP_cons]
    cases tag with
    | none =>
      simp
      omega
    | some version =>
      by_cases h : version = expected
      · simp [h]
        omega
      · simp [h]
        omega

/-- The counts of the tags of some records tell what an audit has to. -/
theorem tells_ofTags (expected : String) (tags : List (Option String)) :
    Tells expected tags (TagCounts.ofTags tags).total (VersionAudit.unexpected (TagCounts.ofTags tags) expected)
      ((TagCounts.ofTags tags).count none) := by
  have hlength := length_eq_add expected tags
  refine ⟨TagCounts.total_ofTags tags, ?_, TagCounts.count_ofTags tags none, ?_⟩
  · rw [VersionAudit.unexpected, TagCounts.total_ofTags, TagCounts.count_ofTags, TagCounts.count_ofTags]
    omega
  · rw [VersionAudit.unexpected]
    rw [TagCounts.total_ofTags, TagCounts.count_ofTags, TagCounts.count_ofTags]
    omega

/-- Nothing is unexpected and nothing without a tag exactly if all records have the expected tag. -/
theorem Tells.clean_iff {total unexpected unstamped : Int} (h : Tells expected tags total unexpected unstamped) :
    unexpected = 0 ∧ unstamped = 0 ↔ ∀ tag ∈ tags, tag = some expected := by
  have hall : (∀ tag ∈ tags, some expected = tag) ↔ tags.count (some expected) = tags.length := List.count_eq_length.symm
  have hparts := h.parts
  rw [h.all] at hparts
  have hunexpected := h.others
  have hunstamped := h.untagged
  constructor
  · rintro ⟨hu, hn⟩ tag htag
    refine (hall.2 ?_ tag htag).symm
    omega
  · intro hexpected
    have hcount := hall.1 fun tag htag => (hexpected tag htag).symm
    omega

end VersionAudit

namespace GraphStore

variable {s : GraphStore} {repoId expected : String}

/-- An audit reads the counts of its repository and leaves the store alone. -/
theorem run_audit (s : GraphStore) (repoId expected : String) :
    (StoreSession.audit repoId expected).run s = (.ofCounts repoId expected (s.versionCounts repoId), s) := rfl

theorem forall_mem_entityRows {P : String × Entity → Prop} :
    (∀ row ∈ s.entityRows repoId, P row) ↔ ∀ row ∈ s.entities, row.2.repoId = repoId → P row := by
  simp only [entityRows, List.mem_filter, beq_iff_eq, and_imp]

theorem forall_mem_edgeRows {P : String × Edge → Prop} :
    (∀ row ∈ s.edgeRows repoId, P row) ↔ ∀ row ∈ s.edges, row.2.repoId = repoId → P row := by
  simp only [edgeRows, List.mem_filter, beq_iff_eq, and_imp]

/-- An audit finds nothing exactly if all records of the repository carry the expected tag. -/
theorem audit_ok_iff : ((StoreSession.audit repoId expected).run s).1.ok = true ↔
    (∀ row ∈ s.entityRows repoId, row.2.indexVersion = some expected) ∧
      ∀ row ∈ s.edgeRows repoId, row.2.indexVersion = some expected := by
  have hentities := (VersionAudit.tells_ofTags expected ((s.entityRows repoId).map (·.2.indexVersion))).clean_iff
  have hedges := (VersionAudit.tells_ofTags expected ((s.edgeRows repoId).map (·.2.indexVersion))).clean_iff
  rw [List.forall_mem_map] at hentities hedges
  rw [← hentities, ← hedges, run_audit]
  simp only [VersionAudit.ok, Bool.and_eq_true, beq_iff_eq]
  exact ⟨fun ⟨⟨⟨hu, hu'⟩, hn⟩, hn'⟩ => ⟨⟨hu, hn⟩, hu', hn'⟩, fun ⟨⟨hu, hn⟩, hu', hn'⟩ => ⟨⟨⟨hu, hu'⟩, hn⟩, hn'⟩⟩

/-- An audit finds nothing when all records of the repository carry the expected tag. -/
theorem audit_ok {version : String} (entities : ∀ row ∈ s.entityRows repoId, row.2.indexVersion = some version)
    (edges : ∀ row ∈ s.edgeRows repoId, row.2.indexVersion = some version) :
    ((StoreSession.audit repoId version).run s).1.ok = true :=
  audit_ok_iff.2 ⟨entities, edges⟩

end GraphStore

/-- An audit of a repository leaves the store alone and tells how many entities and edges of the repository there are, how many of them
carry an unexpected tag and how many carry none. It is content exactly if every entity and every edge of the repository carries the
expected tag. -/
theorem audit_exact (s : GraphStore) (repoId expected : String) :
    let (audit, t) := (StoreSession.audit repoId expected).run s
    t = s ∧ audit.repoId = repoId ∧ audit.expectedVersion = expected ∧
      VersionAudit.Tells expected ((s.entityRows repoId).map (·.2.indexVersion)) audit.entityCount audit.unexpectedEntities
        audit.unstampedEntities ∧
      VersionAudit.Tells expected ((s.edgeRows repoId).map (·.2.indexVersion)) audit.edgeCount audit.unexpectedEdges
        audit.unstampedEdges ∧
      (audit.ok = true ↔ (∀ row ∈ s.entities, row.2.repoId = repoId → row.2.indexVersion = some expected) ∧
        ∀ row ∈ s.edges, row.2.repoId = repoId → row.2.indexVersion = some expected) := by
  refine ⟨rfl, rfl, rfl, VersionAudit.tells_ofTags expected _, VersionAudit.tells_ofTags expected _, ?_⟩
  rw [← GraphStore.forall_mem_entityRows, ← GraphStore.forall_mem_edgeRows]
  exact GraphStore.audit_ok_iff

end CodeAtlas
