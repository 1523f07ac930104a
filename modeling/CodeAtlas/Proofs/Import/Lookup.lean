import CodeAtlas.Proofs.NormalPath

/-!
# Looking up by the end of a path

A path is recorded under every tail of its segments. These are the texts that it ends in at the beginning of a segment, whether segments
repeat or are empty. Every entry of the index keeps its paths in the order of preference, so that what is looked up is found as if
all paths had been searched.
-/

namespace CodeAtlas

namespace Path

/-- A path ends in a tail if it is the tail, or ends with the tail behind a slash. -/
def EndsIn (p tail : String) : Prop := p = tail ∨ ("/" ++ tail).text <:+ p.text

/-- Whether a path ends in a tail is decided by its characters. -/
instance (p tail : String) : Decidable (EndsIn p tail) := inferInstanceAs (Decidable (_ ∨ _))

variable {p tail : String}

/-- A path ends in a tail if it is the tail, or has it behind a slash. -/
theorem endsIn_iff : EndsIn p tail ↔ p = tail ∨ ∃ head, p = head ++ "/" ++ tail := by
  refine or_congr_right ⟨?_, ?_⟩
  · rintro ⟨head, h⟩
    refine ⟨String.ofList head, String.toList_inj.1 ?_⟩
    rw [String.append_assoc, String.toList_append, String.toList_ofList]
    exact h.symm
  · rintro ⟨head, rfl⟩
    exact ⟨head.text, by rw [String.append_assoc, ← String.toList_append]⟩

/-- The tails of some segments are how they end. -/
theorem mem_segmentTails {ss ts : List String} : ts ∈ segmentTails ss ↔ ts ≠ [] ∧ ts <:+ ss := by
  induction ss with
  | nil => simp [segmentTails]
  | cons s ss ih =>
    rw [segmentTails, List.mem_cons, ih, List.suffix_cons_iff]
    constructor
    · rintro (rfl | ⟨hne, h⟩)
      · exact ⟨List.cons_ne_nil _ _, Or.inl rfl⟩
      · exact ⟨hne, Or.inr h⟩
    · rintro ⟨hne, rfl | h⟩
      · exact Or.inl rfl
      · exact Or.inr ⟨hne, h⟩

/-- The tails of a path are the texts that it ends in. -/
theorem mem_tails_iff : tail ∈ tails p ↔ EndsIn p tail := by
  rw [tails, List.mem_map, endsIn_iff]
  constructor
  · rintro ⟨ts, hts, rfl⟩
    obtain ⟨hne, ss, h⟩ := mem_segmentTails.1 hts
    by_cases hss : ss = []
    · left
      rw [← ofSegments_segments p, ← h, hss, List.nil_append]
    · right
      exact ⟨ofSegments ss, by rw [← ofSegments_append hss hne, h, ofSegments_segments]⟩
  · intro h
    refine ⟨segments tail, mem_segmentTails.2 ⟨segments_ne_nil tail, ?_⟩, ofSegments_segments tail⟩
    rcases h with rfl | ⟨head, rfl⟩
    · exact List.suffix_rfl
    · rw [segments_append]
      exact List.suffix_append _ _

/-- The heads of some segments are how they begin, with something behind. -/
theorem mem_segmentHeads {ss head : List String} :
    head ∈ segmentHeads ss ↔ head ≠ [] ∧ ∃ rest, rest ≠ [] ∧ head ++ rest = ss := by
  refine ⟨exists_of_mem_segmentHeads, ?_⟩
  rintro ⟨hne, rest, hrest, rfl⟩
  induction head with
  | nil => exact absurd rfl hne
  | cons s head ih =>
    obtain ⟨t, ts, hts⟩ := List.exists_cons_of_ne_nil (List.append_ne_nil_of_right_ne_nil head hrest)
    rw [List.cons_append, hts, segmentHeads, List.mem_cons, ← hts]
    · by_cases hhead : head = []
      · exact Or.inl (by rw [hhead])
      · exact Or.inr (List.mem_map_of_mem (ih hhead))
    · exact List.cons_ne_nil t ts

end Path

/-! ## The order of preference -/

theorem shorterFirst_iff {a b : String} : shorterFirst a b = true ↔ a.length < b.length ∨ a.length = b.length ∧ a ≤ b := by
  simp [shorterFirst]

/-- The order of paths is reflexive. -/
theorem shorterFirst_refl (a : String) : shorterFirst a a = true := shorterFirst_iff.2 (Or.inr ⟨rfl, String.le_refl a⟩)

/-- It is transitive. -/
theorem shorterFirst_trans {a b c : String} (hab : shorterFirst a b = true) (hbc : shorterFirst b c = true) :
    shorterFirst a c = true := by
  rw [shorterFirst_iff] at *
  rcases hab with hab | ⟨hab, hle⟩ <;> rcases hbc with hbc | ⟨hbc, hle'⟩
  · exact Or.inl (hab.trans hbc)
  · exact Or.inl (hbc ▸ hab)
  · exact Or.inl (hab ▸ hbc)
  · exact Or.inr ⟨hab.trans hbc, String.le_trans hle hle'⟩

/-- It is total. -/
theorem shorterFirst_of_not {a b : String} (h : ¬shorterFirst a b = true) : shorterFirst b a = true := by
  rw [shorterFirst_iff] at *
  rcases Nat.lt_trichotomy a.length b.length with hlt | heq | hgt
  · exact absurd (Or.inl hlt) h
  · rcases String.le_total a b with hle | hle
    · exact absurd (Or.inr ⟨heq, hle⟩) h
    · exact Or.inr ⟨heq.symm, hle⟩
  · exact Or.inl hgt

/-- It is antisymmetric. -/
theorem shorterFirst_antisymm {a b : String} (hab : shorterFirst a b = true) (hba : shorterFirst b a = true) : a = b := by
  rw [shorterFirst_iff] at *
  rcases hab with hab | ⟨hab, hle⟩ <;> rcases hba with hba | ⟨hba, hle'⟩
  · omega
  · omega
  · omega
  · exact String.le_antisymm hle hle'

/-- Of the paths with a tail the one that is preferred: the shortest, and of several equally long ones the first in the order of code
points. -/
structure IsPreferred (paths : List String) (tail p : String) : Prop where
  mem : p ∈ paths
  endsIn : Path.EndsIn p tail
  least : ∀ q ∈ paths, Path.EndsIn q tail → p.length < q.length ∨ p.length = q.length ∧ p ≤ q

namespace TailIndex

variable {paths : List String} {tail p : String}

/-- Inserting a path keeps the order. -/
theorem pairwise_insertOrdered {ps : List String} (h : ps.Pairwise (shorterFirst · ·)) :
    (insertOrdered p ps).Pairwise (shorterFirst · ·) := by
  induction ps with
  | nil => exact List.pairwise_singleton _ p
  | cons q qs ih =>
    obtain ⟨hq, hqs⟩ := List.pairwise_cons.1 h
    unfold insertOrdered
    split
    · rename_i hpq
      refine List.pairwise_cons.2 ⟨fun x hx => ?_, h⟩
      rcases List.mem_cons.1 hx with rfl | hx
      · exact hpq
      · exact shorterFirst_trans hpq (hq x hx)
    · rename_i hpq
      refine List.pairwise_cons.2 ⟨fun x hx => ?_, ih hqs⟩
      rcases mem_insertOrdered.1 hx with rfl | hx
      · exact shorterFirst_of_not hpq
      · exact hq x hx

/-- Each entry of an index is in the order of preference. -/
def Ordered (index : TailIndex) : Prop := ∀ tail, (index.getD tail []).Pairwise (shorterFirst · ·)

/-- Adding a path to an index keeps it ordered. -/
theorem Ordered.add {index : TailIndex} (h : index.Ordered) (t p : String) : (index.add t p).Ordered := by
  intro tail
  rw [TailIndex.add, Std.HashMap.getD_insert]
  split
  · exact pairwise_insertOrdered (h t)
  · exact h tail

/-- The index of some paths is ordered. -/
theorem ordered_ofPaths (paths : List String) : (ofPaths paths).Ordered := by
  refine List.foldlRecOn (motive := Ordered) paths _ ?_ ?_
  · intro tail
    rw [Std.HashMap.getD_empty]
    exact List.Pairwise.nil
  · intro index hindex p _
    exact List.foldlRecOn (motive := Ordered) (Path.tails p) _ hindex fun index hindex t _ => hindex.add t p

/-- The first of an entry is the preferred one. -/
theorem first?_ofPaths_eq_some_iff : (ofPaths paths).first? tail = some p ↔ IsPreferred paths tail p := by
  have hmem : ∀ q, q ∈ (ofPaths paths).getD tail [] ↔ q ∈ paths ∧ Path.EndsIn q tail := by
    intro q
    rw [mem_getD_ofPaths, Path.mem_tails_iff]
  have hordered := ordered_ofPaths paths tail
  unfold first?
  generalize (ofPaths paths).getD tail [] = entry at hmem hordered
  constructor
  · intro h
    obtain ⟨rest, rfl⟩ := List.head?_eq_some_iff.1 h
    obtain ⟨hp, hends⟩ := (hmem p).1 List.mem_cons_self
    refine ⟨hp, hends, fun q hq hqends => shorterFirst_iff.1 ?_⟩
    rcases List.mem_cons.1 ((hmem q).2 ⟨hq, hqends⟩) with rfl | hrest
    · exact shorterFirst_refl q
    · exact List.rel_of_pairwise_cons hordered hrest
  · intro h
    cases entry with
    | nil => exact absurd ((hmem p).2 ⟨h.mem, h.endsIn⟩) List.not_mem_nil
    | cons q rest =>
      obtain ⟨hq, hqends⟩ := (hmem q).1 List.mem_cons_self
      have hpq : shorterFirst p q = true := shorterFirst_iff.2 (h.least q hq hqends)
      rcases List.mem_cons.1 ((hmem p).2 ⟨h.mem, h.endsIn⟩) with rfl | hrest
      · rfl
      · rw [List.head?_cons, shorterFirst_antisymm (List.rel_of_pairwise_cons hordered hrest) hpq]

/-- An index has nothing under a tail exactly if no path ends in it. -/
theorem first?_ofPaths_eq_none_iff : (ofPaths paths).first? tail = none ↔ ∀ q ∈ paths, ¬Path.EndsIn q tail := by
  rw [first?, List.head?_eq_none_iff, List.eq_nil_iff_forall_not_mem]
  simp only [mem_getD_ofPaths, Path.mem_tails_iff, not_and]

end TailIndex

namespace KnownPaths

/-- Of the files that end in a tail, the index has the preferred one first. -/
theorem first?_fileTails_eq_some_iff {files : List String} {tail p : String} :
    (ofFiles files).fileTails.first? tail = some p ↔ IsPreferred files tail p := by
  have hmem : ∀ q, q ∈ files.eraseDups ↔ q ∈ files := fun q => List.mem_eraseDups
  have hfirst : (ofFiles files).fileTails.first? tail = some p ↔ IsPreferred files.eraseDups tail p :=
    TailIndex.first?_ofPaths_eq_some_iff
  rw [hfirst]
  exact ⟨fun h => ⟨(hmem p).1 h.mem, h.endsIn, fun q hq => h.least q ((hmem q).2 hq)⟩,
    fun h => ⟨(hmem p).2 h.mem, h.endsIn, fun q hq => h.least q ((hmem q).1 hq)⟩⟩

/-- It has none exactly if no file ends in the tail. -/
theorem first?_fileTails_eq_none_iff {files : List String} {tail : String} :
    (ofFiles files).fileTails.first? tail = none ↔ ∀ q ∈ files, ¬Path.EndsIn q tail := by
  have hfirst : (ofFiles files).fileTails.first? tail = none ↔ ∀ q ∈ files.eraseDups, ¬Path.EndsIn q tail :=
    TailIndex.first?_ofPaths_eq_none_iff
  simp only [hfirst, List.mem_eraseDups]

/-- The directories are made up of the first segments of the files, at least one and not all. -/
theorem mem_dirs_ofFiles_iff {files : List String} {d : String} : d ∈ (ofFiles files).dirs ↔
    ∃ p ∈ files, ∃ head rest, head ≠ [] ∧ rest ≠ [] ∧ Path.segments p = head ++ rest ∧ d = Path.ofSegments head := by
  have hdirs : (ofFiles files).dirs = (files.eraseDups.flatMap Path.ancestors).eraseDups := rfl
  simp only [hdirs, List.mem_eraseDups, List.mem_flatMap, Path.ancestors, List.mem_map, Path.mem_segmentHeads]
  refine exists_congr fun p => and_congr_right fun _ => exists_congr fun head => ?_
  constructor
  · rintro ⟨⟨hhead, rest, hrest, h⟩, rfl⟩
    exact ⟨rest, hhead, hrest, h.symm, rfl⟩
  · rintro ⟨rest, hhead, hrest, h, rfl⟩
    exact ⟨⟨hhead, rest, hrest, h.symm⟩, rfl⟩

end KnownPaths

/-- Known paths are found as a search of all of them would find them. A lookup takes the first extension with which some file ends in the
module path, and of the files that do the preferred one; it finds nothing if there is no such extension. The directories are made up of
the first segments of files, at least one and never all of them, and are looked up in the same order of preference. -/
theorem lookup_eq_search (files : List String) :
    (∀ modulePath extensions p, (KnownPaths.ofFiles files).lookup modulePath extensions = some p ↔
      ∃ before e after, extensions = before ++ e :: after ∧
        (∀ other ∈ before, ∀ q ∈ files, ¬Path.EndsIn q (modulePath ++ other)) ∧ IsPreferred files (modulePath ++ e) p) ∧
    (∀ modulePath extensions, (KnownPaths.ofFiles files).lookup modulePath extensions = none ↔
      ∀ e ∈ extensions, ∀ q ∈ files, ¬Path.EndsIn q (modulePath ++ e)) ∧
    (∀ d, d ∈ (KnownPaths.ofFiles files).dirs ↔
      ∃ p ∈ files, ∃ head rest, head ≠ [] ∧ rest ≠ [] ∧ Path.segments p = head ++ rest ∧ d = Path.ofSegments head) ∧
    (∀ tail d, (KnownPaths.ofFiles files).lookupDir tail = some d ↔ IsPreferred (KnownPaths.ofFiles files).dirs tail d) ∧
    ∀ tail, (KnownPaths.ofFiles files).lookupDir tail = none ↔ ∀ d ∈ (KnownPaths.ofFiles files).dirs, ¬Path.EndsIn d tail := by
  refine ⟨?_, ?_, fun d => KnownPaths.mem_dirs_ofFiles_iff, ?_, ?_⟩
  · intro modulePath extensions p
    simp only [KnownPaths.lookup, List.findSome?_eq_some_iff, KnownPaths.first?_fileTails_eq_some_iff,
      KnownPaths.first?_fileTails_eq_none_iff]
    exact exists_congr fun before => exists_congr fun e => exists_congr fun after => and_congr_right fun _ => and_comm
  · intro modulePath extensions
    simp only [KnownPaths.lookup, List.findSome?_eq_none_iff, KnownPaths.first?_fileTails_eq_none_iff]
  · exact fun tail d => TailIndex.first?_ofPaths_eq_some_iff
  · exact fun tail => TailIndex.first?_ofPaths_eq_none_iff

end CodeAtlas
