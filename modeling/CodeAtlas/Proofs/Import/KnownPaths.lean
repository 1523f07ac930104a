import CodeAtlas.Import.KnownPaths
import CodeAtlas.Proofs.Path
import CodeAtlas.Proofs.Text.Split

/-!
# What is known of a workspace

The directories of a path are found in two ways: from its segments, and by climbing from directory to directory. Where no segment is
empty the two agree. The indexes by the tails of paths give back nothing but the paths that were put in.
-/

namespace CodeAtlas

namespace Path

/-- Segments that are not empty and hold no slash. -/
def Plain (ss : List String) : Prop := ∀ s ∈ ss, s ≠ "" ∧ '/' ∉ s.text

/-- The pieces between the slashes make up the path. -/
theorem ofSegments_segments (p : String) : ofSegments (segments p) = p := by
  refine String.toList_inj.1 ?_
  rw [ofSegments, segments, String.toList_intercalate, List.map_map, Text.splitOn_eq]
  have hid : String.toList ∘ String.ofList = id := funext fun l => String.toList_ofList
  rw [hid, List.map_id]
  exact List.intercalate_splitOn '/'

/-- The segments of a path hold no slash. -/
theorem plain_segments {p : String} (h : "" ∉ segments p) : Plain (segments p) := by
  intro s hs
  refine ⟨fun e => h (e ▸ hs), ?_⟩
  obtain ⟨t, ht, rfl⟩ := List.mem_map.1 hs
  rw [String.text, String.toList_ofList]
  exact Text.not_mem_of_mem_splitOn ht

/-- A further segment is written behind a slash. -/
theorem text_ofSegments_concat {ss : List String} (h : ss ≠ []) (s : String) :
    (ofSegments (ss ++ [s])).text = (ofSegments ss).text ++ '/' :: s.text := by
  simp only [ofSegments, String.text, String.toList_intercalate, List.map_append, List.map_cons, List.map_nil]
  induction ss with
  | nil => exact absurd rfl h
  | cons r ss ih =>
    cases ss with
    | nil => simp [List.intercalate_cons_cons, List.intercalate_singleton]
    | cons r' ss =>
      have hrec := ih (List.cons_ne_nil _ _)
      simp only [List.map_cons, List.cons_append, List.intercalate_cons_cons] at hrec ⊢
      rw [hrec]
      simp

/-- What is made up of plain segments ends in a character that is no slash. -/
theorem Plain.exists_last {ss : List String} (h : Plain ss) (hne : ss ≠ []) :
    ∃ a c, (ofSegments ss).text = a ++ [c] ∧ c ≠ '/' := by
  obtain ⟨init, s, rfl⟩ : ∃ init s, ss = init ++ [s] := ⟨_, _, (List.dropLast_concat_getLast hne).symm⟩
  obtain ⟨hs, hslash⟩ := h s (List.mem_append_right _ (List.mem_singleton_self s))
  obtain ⟨a, c, ha⟩ : ∃ a c, s.text = a ++ [c] :=
    ⟨_, _, (List.dropLast_concat_getLast fun e => hs (String.toList_eq_nil_iff.1 e)).symm⟩
  have hc : c ≠ '/' := by
    rintro rfl
    exact hslash (ha ▸ List.mem_append_right _ (List.mem_singleton_self _))
  by_cases hinit : init = []
  · subst hinit
    exact ⟨a, c, ha, hc⟩
  · exact ⟨(ofSegments init).text ++ '/' :: a, c, by rw [text_ofSegments_concat hinit, ha, List.append_assoc, List.cons_append], hc⟩

/-- Segments that are not empty make a path that is not empty. -/
theorem Plain.ofSegments_ne_empty {ss : List String} (h : Plain ss) (hne : ss ≠ []) : ofSegments ss ≠ "" := by
  obtain ⟨a, c, ha, -⟩ := h.exists_last hne
  intro e
  rw [e] at ha
  exact List.append_ne_nil_of_right_ne_nil a (List.cons_ne_nil c []) ha.symm

/-- The directory of a path is made up of all its segments but the last. -/
theorem dirname_ofSegments {ss : List String} (h : Plain ss) {s : String} (hs : '/' ∉ s.text) :
    dirname (ofSegments (ss ++ [s])) = ofSegments ss := by
  unfold dirname PathAux.splitLast
  by_cases hne : ss = []
  · subst hne
    have htext : (ofSegments ([] ++ [s])).text = s.text := by
      simp [ofSegments]
    rw [htext, Text.cutLast?_of_not_mem hs]
    rfl
  · obtain ⟨a, c, ha, hc⟩ := h.exists_last hne
    rw [text_ofSegments_concat hne, Text.cutLast?_append hs]
    have hall : ((ofSegments ss).text ++ ['/']).all (· == '/') = false := by
      rw [ha]
      simp [hc]
    have htrim : Text.trimRight (· == '/') ((ofSegments ss).text ++ ['/']) = (ofSegments ss).text := by
      rw [ha]
      simp [Text.trimRight, hc]
    dsimp only
    rw [hall, if_neg Bool.false_ne_true, htrim]
    exact String.ofList_toList

/-- A head of some segments is not empty, and others follow it. -/
theorem exists_of_mem_segmentHeads {ss h : List String} (hh : h ∈ segmentHeads ss) :
    h ≠ [] ∧ ∃ rest, rest ≠ [] ∧ h ++ rest = ss := by
  induction ss generalizing h with
  | nil => nomatch hh
  | cons s ss ih =>
    cases ss with
    | nil => nomatch hh
    | cons s' ss =>
      rcases List.mem_cons.1 hh with rfl | hh
      · exact ⟨List.cons_ne_nil _ _, s' :: ss, List.cons_ne_nil _ _, rfl⟩
      · obtain ⟨h', hh', rfl⟩ := List.mem_map.1 hh
        obtain ⟨-, rest, hrest, e⟩ := ih hh'
        exact ⟨List.cons_ne_nil _ _, rest, hrest, congrArg (s :: ·) e⟩

/-- The climb from a path passes every beginning of its segments. -/
theorem mem_climbAll {n : Nat} {h rest : List String} (hplain : Plain (h ++ rest)) (hh : h ≠ []) (hrest : rest ≠ [])
    (hn : (ofSegments (h ++ rest)).length < n) : ofSegments h ∈ PathAux.climbAll n (ofSegments (h ++ rest)) := by
  induction n generalizing rest with
  | zero => nomatch hn
  | succ n ih =>
    obtain ⟨rest, s, rfl⟩ : ∃ init s, rest = init ++ [s] := ⟨_, _, (List.dropLast_concat_getLast hrest).symm⟩
    rw [← List.append_assoc] at hplain hn ⊢
    have hinit : Plain (h ++ rest) := fun t ht => hplain t (List.mem_append_left _ ht)
    have hdir := dirname_ofSegments hinit (hplain s (List.mem_append_right _ (List.mem_singleton_self s))).2
    have hne : h ++ rest ≠ [] := List.append_ne_nil_of_left_ne_nil hh rest
    unfold PathAux.climbAll
    rw [hdir]
    dsimp only
    by_cases hr : rest = []
    · subst hr
      rw [List.append_nil]
      exact List.mem_cons_self
    · have hlt : (ofSegments (h ++ rest)).length < n := by
        have hlen := congrArg List.length (text_ofSegments_concat hne s)
        rw [List.length_append, List.length_cons, String.length_toList, String.length_toList] at hlen
        omega
      rw [if_neg fun e => hinit.ofSegments_ne_empty hne (String.isEmpty_iff.1 e)]
      exact List.mem_cons_of_mem _ (ih hinit hr hlt)

/-- Cutting a path into segments finds no other directories than climbing does. -/
theorem mem_ancestry_of_mem_ancestors {p d : String} (hp : "" ∉ segments p) (h : d ∈ ancestors p) : d ∈ ancestry p ∧ d ≠ "" := by
  obtain ⟨ss, hss, rfl⟩ := List.mem_map.1 h
  obtain ⟨hne, rest, hrest, e⟩ := exists_of_mem_segmentHeads hss
  have hplain : Plain (ss ++ rest) := e ▸ plain_segments hp
  refine ⟨?_, Plain.ofSegments_ne_empty (fun s hs => hplain s (List.mem_append_left _ hs)) hne⟩
  have hmem := mem_climbAll hplain hne hrest (Nat.lt_succ_self _)
  rwa [e, ofSegments_segments] at hmem

end Path

namespace TailIndex

variable {index : TailIndex} {paths : List String}

/-- All paths in an index are among the given ones. -/
def Within (paths : List String) (index : TailIndex) : Prop := ∀ tail, ∀ p ∈ index.getD tail [], p ∈ paths

/-- Inserting a path in order adds that one. -/
theorem mem_insertOrdered {p q : String} {qs : List String} : q ∈ insertOrdered p qs ↔ q = p ∨ q ∈ qs := by
  induction qs with
  | nil => simp [insertOrdered]
  | cons x xs ih =>
    unfold insertOrdered
    split
    · exact List.mem_cons
    · rw [List.mem_cons, ih, List.mem_cons, or_left_comm]

variable {tail t p q : String}

/-- Adding a path to an index adds it under its tail. -/
theorem mem_getD_add : q ∈ (index.add t p).getD tail [] ↔ tail = t ∧ q = p ∨ q ∈ index.getD tail [] := by
  rw [add, Std.HashMap.getD_insert]
  split
  · rename_i ht
    obtain rfl := eq_of_beq ht
    rw [mem_insertOrdered, and_iff_right rfl]
  · rename_i ht
    have hne : tail ≠ t := fun e => ht (beq_iff_eq.2 e.symm)
    rw [or_iff_right fun h => hne h.1]

/-- A path is recorded under each of some tails. -/
theorem mem_getD_addAll (index : TailIndex) (ts : List String) :
    q ∈ (ts.foldl (fun index t => index.add t p) index).getD tail [] ↔ tail ∈ ts ∧ q = p ∨ q ∈ index.getD tail [] := by
  induction ts generalizing index with
  | nil => rw [List.foldl_nil, or_iff_right fun h => List.not_mem_nil h.1]
  | cons t ts ih => rw [List.foldl_cons, ih, mem_getD_add, List.mem_cons, or_and_right, or_left_comm, or_assoc]

/-- The index of some paths holds each of them under its own tails. -/
theorem mem_getD_ofPaths : q ∈ (ofPaths paths).getD tail [] ↔ q ∈ paths ∧ tail ∈ Path.tails q := by
  have h : ∀ index : TailIndex, q ∈ (paths.foldl (fun index p => (Path.tails p).foldl (fun index t => index.add t p) index) index).getD
      tail [] ↔ q ∈ paths ∧ tail ∈ Path.tails q ∨ q ∈ index.getD tail [] := by
    induction paths with
    | nil =>
      intro index
      rw [List.foldl_nil, or_iff_right fun h => List.not_mem_nil h.1]
    | cons p paths ih =>
      intro index
      rw [List.foldl_cons, ih, mem_getD_addAll, List.mem_cons, or_and_right, or_left_comm, or_assoc]
      have hp : tail ∈ Path.tails p ∧ q = p ↔ q = p ∧ tail ∈ Path.tails q :=
        ⟨fun ⟨ht, e⟩ => ⟨e, e ▸ ht⟩, fun ⟨e, ht⟩ => ⟨e ▸ ht, e⟩⟩
      rw [hp]
  rw [ofPaths, h, Std.HashMap.getD_empty, or_iff_left List.not_mem_nil]

/-- The index of some paths holds no others. -/
theorem within_ofPaths (paths : List String) : (ofPaths paths).Within paths := fun _ _ hp => (mem_getD_ofPaths.1 hp).1

/-- What an index has first is one of its paths. -/
theorem Within.mem_of_first? (h : index.Within paths) {tail p : String} (hp : index.first? tail = some p) : p ∈ paths :=
  h tail p (List.mem_of_head? hp)

end TailIndex

namespace KnownPaths

/-- The indexes of known paths hold none but the files and the directories. -/
structure Sound (k : KnownPaths) : Prop where
  fileTails : k.fileTails.Within k.files
  dirTails : k.dirTails.Within k.dirs

/-- The paths of some files are indexed soundly. -/
theorem sound_ofFiles (files : List String) : (ofFiles files).Sound := ⟨TailIndex.within_ofPaths _, TailIndex.within_ofPaths _⟩

/-- The files that are known are the given ones. -/
theorem mem_files_ofFiles {files : List String} {p : String} : p ∈ (ofFiles files).files ↔ p ∈ files := List.mem_eraseDups

/-- The directories that are known are those above a file. -/
theorem exists_of_mem_dirs_ofFiles {files : List String} {d : String} (h : d ∈ (ofFiles files).dirs) :
    ∃ p ∈ files, d ∈ Path.ancestors p := by
  obtain ⟨p, hp, hd⟩ := List.mem_flatMap.1 (List.mem_eraseDups.1 h)
  exact ⟨p, List.mem_eraseDups.1 hp, hd⟩

variable {k : KnownPaths} {p : String}

/-- A file that is looked up is known. -/
theorem Sound.mem_of_lookup (h : k.Sound) {modulePath : String} {extensions : List String}
    (hp : k.lookup modulePath extensions = some p) : p ∈ k.files := by
  obtain ⟨e, -, he⟩ := List.exists_of_findSome?_eq_some hp
  exact h.fileTails.mem_of_first? he

/-- A directory that is looked up is known. -/
theorem Sound.mem_of_lookupDir (h : k.Sound) {tail : String} (hp : k.lookupDir tail = some p) : p ∈ k.dirs :=
  h.dirTails.mem_of_first? hp

/-- The first of some candidates that is a file is known. -/
theorem mem_of_firstFile? {candidates : List String} (h : k.firstFile? candidates = some p) : p ∈ k.files :=
  List.contains_iff_mem.1 (List.find?_some (p := k.hasFile) h)

/-- The name of what lies in a directory is found below it. -/
theorem below?_append (dir name : String) (hdir : dir ≠ "") : below? dir (dir ++ "/" ++ name) = some name.text := by
  have htext : (dir ++ "/" ++ name).text = (dir ++ "/").text ++ name.text := String.toList_append
  have hlength : (dir ++ "/").text.length = dir.length + 1 := by
    rw [String.text, String.length_toList, String.length_append]
    rfl
  have hprefix : (dir ++ "/" ++ name).text.startsWith (dir ++ "/") = true := by
    rw [htext]
    exact List.isPrefixOf_iff_prefix.2 ⟨name.text, rfl⟩
  rw [below?, if_neg (by rwa [String.isEmpty_iff]), if_pos hprefix, htext, List.drop_left' hlength]

/-- What is found below a directory lies in it. -/
theorem exists_of_below? {dir p : String} (hdir : dir ≠ "") {r : Text} (h : below? dir p = some r) :
    p = dir ++ "/" ++ String.ofList r := by
  rw [below?, if_neg (by rwa [String.isEmpty_iff])] at h
  split at h
  · rename_i hprefix
    obtain ⟨r', hr'⟩ := List.isPrefixOf_iff_prefix.1 hprefix
    obtain rfl : p = dir ++ "/" ++ String.ofList r' := by
      rw [← String.toList_inj, String.toList_append, String.toList_ofList, hr']
    have hbelow := below?_append dir (String.ofList r') hdir
    rw [below?, if_neg (by rwa [String.isEmpty_iff]), if_pos hprefix, h, String.text, String.toList_ofList] at hbelow
    rw [Option.some.inj hbelow]
  · cases h

/-- The files directly in a directory are those with one more segment. -/
theorem mem_filesIn {dir p : String} (hdir : dir ≠ "") :
    p ∈ k.filesIn dir ↔ p ∈ k.files ∧ ∃ name : String, '/' ∉ name.text ∧ p = dir ++ "/" ++ name := by
  rw [filesIn, List.mem_mergeSort, List.mem_filter]
  refine and_congr_right fun _ => ⟨fun h => ?_, ?_⟩
  · obtain ⟨r, hr, hname⟩ := (Option.any_eq_true _ _).1 h
    refine ⟨String.ofList r, ?_, exists_of_below? hdir hr⟩
    rwa [String.text, String.toList_ofList, ← List.contains_iff_mem, Bool.not_eq_true, ← Bool.not_eq_true']
  · rintro ⟨name, hname, rfl⟩
    rwa [below?_append dir name hdir, Option.any_some, Bool.not_eq_true', ← Bool.not_eq_true, List.contains_iff_mem]

end KnownPaths

end CodeAtlas
