import CodeAtlas.Graph.Structure
import CodeAtlas.Proofs.Path

/-!
# The files and directories of a run

A run's structure has every path of its files and of the declarations that were found in them, each once, and every directory above such
a path, each once.
-/

namespace CodeAtlas

/-- What is left without repetitions holds nothing twice. -/
theorem nodup_eraseDups {α : Type} [BEq α] [LawfulBEq α] (xs : List α) : xs.eraseDups.Nodup := by
  match xs with
  | [] => exact List.nodup_nil
  | x :: xs =>
    rw [List.eraseDups_cons, List.nodup_cons]
    refine ⟨?_, nodup_eraseDups _⟩
    intro hx
    have hne := (List.mem_filter.1 (List.mem_eraseDups.1 hx)).2
    rw [beq_self_eq_true] at hne
    nomatch hne
termination_by xs.length
decreasing_by exact Nat.lt_succ_of_le (List.length_filter_le _ _)

/-- What is sorted by a key has its keys in order. -/
theorem pairwise_mergeSort_key {α κ : Type} [LE κ] [DecidableLE κ] [Std.IsLinearPreorder κ] (key : α → κ) (xs : List α) :
    (xs.mergeSort fun a b => decide (key a ≤ key b)).Pairwise fun a b => key a ≤ key b := by
  refine (List.pairwise_mergeSort ?_ ?_ xs).imp of_decide_eq_true
  · intro a b c hab hbc
    exact decide_eq_true (Std.le_trans (of_decide_eq_true hab) (of_decide_eq_true hbc))
  · intro a b
    rw [Bool.or_eq_true, decide_eq_true_iff, decide_eq_true_iff]
    exact Std.le_total

namespace Structure

variable {files : List IndexedFile} {entities : List Entity}

/-- Sorting by path leaves the files as they are. -/
theorem mem_allFiles {f : IndexedFile} : f ∈ allFiles files entities ↔ f ∈ knownFiles files entities := List.mem_mergeSort

/-- A given file is one of the run's. -/
theorem mem_files_of_mem_given {f : IndexedFile} (h : f ∈ given files) : f ∈ files := by
  obtain ⟨p, -, hp⟩ := List.mem_filterMap.1 h
  exact List.mem_reverse.1 (List.mem_of_find?_eq_some hp)

/-- Every path of the run's files is that of a given file. -/
theorem exists_mem_given {f : IndexedFile} (hf : f ∈ files) : ∃ f' ∈ given files, f'.path = f.path := by
  have hsome : (files.reverse.find? fun g => g.path == f.path).isSome :=
    List.find?_isSome.2 ⟨f, List.mem_reverse.2 hf, beq_self_eq_true _⟩
  obtain ⟨g, hg⟩ := Option.isSome_iff_exists.1 hsome
  refine ⟨g, List.mem_filterMap.2 ⟨f.path, List.mem_eraseDups.2 (List.mem_map_of_mem hf), hg⟩, ?_⟩
  exact beq_iff_eq.1 (List.find?_some (p := fun g : IndexedFile => g.path == f.path) hg)

/-- No path is given twice. -/
theorem nodup_given (files : List IndexedFile) : ((given files).map (·.path)).Nodup := by
  refine List.pairwise_map.2 (List.pairwise_filterMap.2 ((nodup_eraseDups _).imp ?_))
  intro p q hne f hf g hg e
  have hp := beq_iff_eq.1 (List.find?_some (p := fun f : IndexedFile => f.path == p) hf)
  have hq := beq_iff_eq.1 (List.find?_some (p := fun f : IndexedFile => f.path == q) hg)
  exact hne (hp.symm.trans (e.trans hq))

/-- Mentioning a file leaves the others. -/
theorem subset_mention (out : List IndexedFile) (e : Entity) : out ⊆ mention out e := by
  intro f hf
  unfold mention
  split
  · exact hf
  · exact List.mem_append_left _ hf

/-- Mentioning a file brings no other. -/
theorem mem_or_path_of_mem_mention {out : List IndexedFile} {e : Entity} {f : IndexedFile} (h : f ∈ mention out e) :
    f ∈ out ∨ f.path = e.filePath := by
  unfold mention at h
  split at h
  · exact Or.inl h
  · rcases List.mem_append.1 h with h | h
    · exact Or.inl h
    · obtain rfl := List.mem_singleton.1 h
      exact Or.inr rfl

/-- A file that is mentioned is there. -/
theorem exists_mem_mention (out : List IndexedFile) (e : Entity) : ∃ f ∈ mention out e, f.path = e.filePath := by
  unfold mention
  split
  · rename_i hany
    obtain ⟨f, hf, hpath⟩ := List.any_eq_true.1 hany
    exact ⟨f, hf, beq_iff_eq.1 hpath⟩
  · exact ⟨_, List.mem_append_right _ (List.mem_singleton_self _), rfl⟩

/-- Mentioning a file brings no path twice. -/
theorem nodup_mention {out : List IndexedFile} (h : (out.map (·.path)).Nodup) (e : Entity) : ((mention out e).map (·.path)).Nodup := by
  unfold mention
  split
  · exact h
  · rename_i hany
    have hnew : e.filePath ∉ out.map (·.path) := by
      intro hmem
      obtain ⟨f, hf, hpath⟩ := List.mem_map.1 hmem
      exact hany (List.any_eq_true.2 ⟨f, hf, beq_iff_eq.2 hpath⟩)
    rw [List.map_append, List.map_singleton, List.nodup_append]
    refine ⟨h, List.nodup_cons.2 ⟨List.not_mem_nil, List.nodup_nil⟩, ?_⟩
    intro p hp q hq heq
    obtain rfl : q = e.filePath := List.mem_singleton.1 hq
    exact hnew (heq ▸ hp)

/-- Mentioning many files leaves the others. -/
theorem subset_foldl_mention (es : List Entity) (out : List IndexedFile) : out ⊆ es.foldl mention out := by
  induction es generalizing out with
  | nil => exact List.Subset.refl out
  | cons e es ih => exact List.Subset.trans (subset_mention out e) (ih (mention out e))

/-- A file that is there after many are mentioned was there before, or is one of them. -/
theorem mem_or_path_of_mem_foldl_mention {es : List Entity} {out : List IndexedFile} {f : IndexedFile} (h : f ∈ es.foldl mention out) :
    f ∈ out ∨ ∃ e ∈ es, f.path = e.filePath := by
  induction es generalizing out with
  | nil => exact Or.inl h
  | cons e es ih =>
    rcases ih h with hf | ⟨e', he', hpath⟩
    · rcases mem_or_path_of_mem_mention hf with hf | hpath
      · exact Or.inl hf
      · exact Or.inr ⟨e, List.mem_cons_self, hpath⟩
    · exact Or.inr ⟨e', List.mem_cons_of_mem e he', hpath⟩

/-- Mentioning many files brings no path twice. -/
theorem nodup_foldl_mention {out : List IndexedFile} (h : (out.map (·.path)).Nodup) (es : List Entity) :
    ((es.foldl mention out).map (·.path)).Nodup := by
  induction es generalizing out with
  | nil => exact h
  | cons e es ih => exact ih (nodup_mention h e)

/-- A file of the structure is one of the run's files, or an entity lies in it. -/
theorem path_of_mem_allFiles {f : IndexedFile} (h : f ∈ allFiles files entities) :
    (∃ f' ∈ files, f'.path = f.path) ∨ ∃ e ∈ entities, e.filePath = f.path := by
  rcases mem_or_path_of_mem_foldl_mention (mem_allFiles.1 h) with hf | ⟨e, he, hpath⟩
  · exact Or.inl ⟨f, mem_files_of_mem_given hf, rfl⟩
  · exact Or.inr ⟨e, (List.mem_filter.1 he).1, hpath.symm⟩

/-- Every file of a run is a file of its structure. -/
theorem exists_mem_allFiles {f : IndexedFile} (hf : f ∈ files) (entities : List Entity) :
    ∃ f' ∈ allFiles files entities, f'.path = f.path := by
  obtain ⟨f', hf', hpath⟩ := exists_mem_given hf
  exact ⟨f', mem_allFiles.2 (subset_foldl_mention _ _ hf'), hpath⟩

/-- So is the file of every declaration. -/
theorem exists_mem_allFiles_of_declaration {e : Entity} (he : e ∈ entities) (hdeclaration : isDeclaration e = true)
    (files : List IndexedFile) : ∃ f ∈ allFiles files entities, f.path = e.filePath := by
  obtain ⟨before, after, hsplit⟩ := List.append_of_mem (List.mem_filter.2 ⟨he, hdeclaration⟩)
  obtain ⟨f, hf, hpath⟩ := exists_mem_mention (before.foldl mention (given files)) e
  refine ⟨f, mem_allFiles.2 ?_, hpath⟩
  rw [knownFiles, hsplit, List.foldl_append, List.foldl_cons]
  exact subset_foldl_mention after _ hf

/-- No path occurs twice in the structure. -/
theorem nodup_allFiles (files : List IndexedFile) (entities : List Entity) : ((allFiles files entities).map (·.path)).Nodup := by
  rw [allFiles, ((List.mergeSort_perm _ _).map _).nodup_iff]
  exact nodup_foldl_mention (nodup_given files) _

/-- The root is no directory of the structure. -/
theorem ne_empty_of_mem_allDirectories {d : String} (h : d ∈ allDirectories files) : d ≠ "" := by
  obtain ⟨f, -, hd⟩ := List.mem_flatMap.1 (List.mem_eraseDups.1 (List.mem_mergeSort.1 h))
  intro e
  have hfilter := (List.mem_filter.1 hd).2
  rw [e] at hfilter
  nomatch hfilter

/-- A directory above a file of the structure is one of its directories. -/
theorem mem_allDirectories {f : IndexedFile} (hf : f ∈ files) {d : String} (hd : d ∈ Path.ancestry f.path) (hne : d ≠ "") :
    d ∈ allDirectories files := by
  refine List.mem_mergeSort.2 (List.mem_eraseDups.2 (List.mem_flatMap.2 ⟨f, hf, List.mem_filter.2 ⟨hd, ?_⟩⟩))
  rw [Bool.not_eq_true', ← Bool.not_eq_true, String.isEmpty_iff]
  exact hne

/-- The directories of the structure are those above its files. -/
theorem mem_allDirectories_iff (hfiles : ∀ f ∈ files, Path.IsRelative f.path) {d : String} :
    d ∈ allDirectories files ↔ d ≠ "" ∧ ∃ f ∈ files, Path.IsAbove f.path d := by
  constructor
  · intro h
    obtain ⟨f, hf, hd⟩ := List.mem_flatMap.1 (List.mem_eraseDups.1 (List.mem_mergeSort.1 h))
    exact ⟨ne_empty_of_mem_allDirectories h, f, hf, (Path.mem_ancestry_iff (hfiles f hf)).1 (List.mem_filter.1 hd).1⟩
  · rintro ⟨hne, f, hf, habove⟩
    exact mem_allDirectories hf ((Path.mem_ancestry_iff (hfiles f hf)).2 habove) hne

/-- No directory occurs twice. -/
theorem nodup_allDirectories (files : List IndexedFile) : (allDirectories files).Nodup :=
  (List.mergeSort_perm _ _).nodup_iff.2 (nodup_eraseDups _)

end Structure

end CodeAtlas
