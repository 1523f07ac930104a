import CodeAtlas.Store.Generation
import CodeAtlas.Proofs.Store.Rows

/-!
# Counts by tag, and the tags that finalizing retires

The counts of a list of tags are what counting each tag in the list gives. From the counts, finalizing retires every non-empty tag in
use, and the tag that was active, except for the tag of the run.
-/

namespace CodeAtlas

namespace TagCounts

/-- One more record with a tag raises the count of that tag by one. -/
theorem count_add (t : Option String) (counts : TagCounts) (u : Option String) :
    (add t counts).count u = counts.count u + if u = t then 1 else 0 := by
  induction counts with
  | nil =>
    by_cases h : u = t
    · simp [add, count, h]
    · have h' : (t == u) = false := beq_false_of_ne fun e => h e.symm
      simp [add, count, h, h']
  | cons c cs ih =>
    unfold count at ih ⊢
    by_cases hc : c.1 = t
    · simp only [add, hc, if_true, List.find?_cons]
      by_cases h : u = t
      · simp [h]
      · have h' : (t == u) = false := beq_false_of_ne fun e => h e.symm
        simp [h, h']
    · simp only [add, hc, if_false, List.find?_cons]
      by_cases h : c.1 = u
      · have hu : u ≠ t := fun e => hc (h.trans e)
        simp [h, hu]
      · have h' : (c.1 == u) = false := beq_false_of_ne h
        simpa only [h'] using ih

/-- Every row that is told counts as one. -/
theorem total_add (t : Option String) (counts : TagCounts) : (add t counts).total = counts.total + 1 := by
  induction counts with
  | nil => simp [add, total]
  | cons c cs ih =>
    unfold total at ih ⊢
    by_cases hc : c.1 = t
    · simp only [add, hc, if_true, List.foldr_cons]
      omega
    · simp only [add, hc, if_false, List.foldr_cons, ih]
      omega

/-- A row that is told adds its tag. -/
theorem mem_keys_add (t : Option String) (counts : TagCounts) (u : Option String) :
    u ∈ (add t counts).map (·.1) ↔ u = t ∨ u ∈ counts.map (·.1) := by
  induction counts with
  | nil => simp [add]
  | cons c cs ih =>
    by_cases hc : c.1 = t
    · simp only [add, hc, if_true, List.map_cons, List.mem_cons, or_self_left]
    · simp only [add, hc, if_false, List.map_cons, List.mem_cons, ih, or_left_comm]

/-- The count of a tag is how often the tag occurs. -/
theorem count_ofTags (tags : List (Option String)) (u : Option String) : (ofTags tags).count u = tags.count u := by
  have h : ∀ counts : TagCounts, (tags.foldl (fun c t => add t c) counts).count u = counts.count u + tags.count u := by
    induction tags with
    | nil => simp
    | cons t ts ih =>
      intro counts
      rw [List.foldl_cons, ih, count_add, List.count_cons]
      by_cases e : u = t
      · simp [e]
        omega
      · have e' : (t == u) = false := beq_false_of_ne fun h => e h.symm
        simp [e, e']
  simpa [ofTags, count] using h []

/-- All counts together are the number of records. -/
theorem total_ofTags (tags : List (Option String)) : (ofTags tags).total = tags.length := by
  have h : ∀ counts : TagCounts, (tags.foldl (fun c t => add t c) counts).total = counts.total + tags.length := by
    induction tags with
    | nil => simp
    | cons t ts ih =>
      intro counts
      rw [List.foldl_cons, ih, total_add, List.length_cons]
      omega
  simpa [ofTags, total] using h []

/-- The tags that are counted are those that occur. -/
theorem mem_keys_ofTags (tags : List (Option String)) (u : Option String) : u ∈ (ofTags tags).map (·.1) ↔ u ∈ tags := by
  have h : ∀ counts : TagCounts,
      u ∈ (tags.foldl (fun c t => add t c) counts).map (·.1) ↔ u ∈ counts.map (·.1) ∨ u ∈ tags := by
    induction tags with
    | nil => simp
    | cons t ts ih =>
      intro counts
      rw [List.foldl_cons, ih, mem_keys_add, List.mem_cons, or_assoc, or_left_comm]
  simpa [ofTags] using h []

end TagCounts

namespace StoreSession

/-- The tags in use other than the one of the run are those that some record is counted under. -/
theorem mem_otherVersions (version w : String) (counts : VersionCounts) :
    w ∈ otherVersions version counts ↔
      (some w ∈ counts.entities.map (·.1) ∨ some w ∈ counts.edges.map (·.1)) ∧ w ≠ "" ∧ w ≠ version := by
  simp only [otherVersions, List.mem_mergeSort, List.mem_eraseDups, List.mem_filter, List.mem_filterMap, List.mem_append,
    Bool.and_eq_true, Bool.not_eq_true', bne_iff_ne, ne_eq, List.mem_map]
  have hempty : w.isEmpty = false ↔ ¬w = "" := by
    rw [← Bool.not_eq_true, String.isEmpty_iff]
  rw [hempty]
  constructor
  · rintro ⟨⟨c, hc | hc, e⟩, h⟩
    · exact ⟨Or.inl ⟨c, hc, e⟩, h⟩
    · exact ⟨Or.inr ⟨c, hc, e⟩, h⟩
  · rintro ⟨⟨c, hc, e⟩ | ⟨c, hc, e⟩, h⟩
    · exact ⟨⟨c, Or.inl hc, e⟩, h⟩
    · exact ⟨⟨c, Or.inr hc, e⟩, h⟩

/-- Finalizing retires the non-empty tags that are in use or were active, except for the one of the run. -/
theorem mem_staleVersions {version w : String} {previous : Option String} {counts : VersionCounts} :
    w ∈ staleVersions version previous counts ↔
      (previous = some w ∨ some w ∈ counts.entities.map (·.1) ∨ some w ∈ counts.edges.map (·.1)) ∧ w ≠ "" ∧ w ≠ version := by
  have hother := mem_otherVersions version w counts
  cases previous with
  | none => simpa [staleVersions] using hother
  | some p =>
    simp only [staleVersions, Option.some.injEq]
    split
    · rename_i hp
      have hp' : p = "" ∨ p = version := by
        simpa [String.isEmpty_iff] using hp
      rw [hother]
      constructor
      · rintro ⟨h, hw⟩
        exact ⟨Or.inr h, hw⟩
      · rintro ⟨rfl | h, hw⟩
        · exact absurd hp' (not_or.2 hw)
        · exact ⟨h, hw⟩
    · rename_i hp
      have hp' : p ≠ "" ∧ p ≠ version := by
        simpa [String.isEmpty_iff] using hp
      rw [List.mem_cons, List.mem_filter, hother]
      constructor
      · rintro (rfl | ⟨⟨h, hw⟩, -⟩)
        · exact ⟨Or.inl rfl, hp'⟩
        · exact ⟨Or.inr h, hw⟩
      · rintro ⟨rfl | h, hw⟩
        · exact Or.inl rfl
        · by_cases e : w = p
          · exact Or.inl e
          · exact Or.inr ⟨⟨h, hw⟩, by simpa using e⟩

end StoreSession

namespace GraphStore

/-- The records of a repository carry only tags under which some record of it is counted. -/
theorem mem_versionCounts_entities {s : GraphStore} {repoId : String} {tag : Option String} :
    tag ∈ (s.versionCounts repoId).entities.map (·.1) ↔ ∃ row ∈ s.entities, row.2.repoId = repoId ∧ row.2.indexVersion = tag := by
  rw [versionCounts, TagCounts.mem_keys_ofTags]
  simp only [List.mem_map, List.mem_filter, beq_iff_eq, and_assoc]

/-- The tags counted on edges are those of the edges of the repository. -/
theorem mem_versionCounts_edges {s : GraphStore} {repoId : String} {tag : Option String} :
    tag ∈ (s.versionCounts repoId).edges.map (·.1) ↔ ∃ row ∈ s.edges, row.2.repoId = repoId ∧ row.2.indexVersion = tag := by
  rw [versionCounts, TagCounts.mem_keys_ofTags]
  simp only [List.mem_map, List.mem_filter, beq_iff_eq, and_assoc]

end GraphStore

end CodeAtlas
