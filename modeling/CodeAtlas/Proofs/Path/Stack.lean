import CodeAtlas.Import.Target
import CodeAtlas.Proofs.NormalPath

/-!
# Relative paths on a stack

A specifier is taken relative to the directory of a file by joining the two and normalising the result, and the text that comes out
tells whether the path has left the workspace. Here the segments are followed one by one on a stack, from the root of the workspace
down. The two agree: normalising keeps two dots at the bottom of its stack exactly where following the segments climbs out of the
workspace.
-/

namespace CodeAtlas

namespace Path

open WorkspaceTree (plain)

/-- Follows one segment from where a stack of segments, the last one on top, leads to. Two dots lead to the directory above, and nowhere
from the root of the workspace. -/
def step? (stack : List String) (s : String) : Option (List String) :=
  if s = "" ∨ s = "." then some stack
  else if s = ".." then
    match stack with
    | [] => none
    | _ :: below => some below
  else some (s :: stack)

/-- Where segments lead to from the root of the workspace; nowhere if they climb out of it. -/
def follow? (ss : List String) : Option (List String) := (ss.foldlM step? []).map List.reverse

/-- The segments that are no empty ones and no dots. -/
def solid (ss : List String) : List String := ss.filter fun s => s != "" && s != "."

/-- The segments of the directory of a file, and after them those of a specifier. -/
def segmentsFrom (fromFile specifier : String) : List String := (segments fromFile).dropLast ++ segments specifier

/-! ## Following segments -/

/-- Segments lead nowhere if two dots among them are met at the root. -/
theorem foldlM_step?_eq_none_iff {ss stack : List String} :
    ss.foldlM step? stack = none ↔ ∃ before after, ss = before ++ ".." :: after ∧ before.foldlM step? stack = some [] := by
  constructor
  · induction ss generalizing stack with
    | nil => nofun
    | cons s ss ih =>
      intro h
      rw [List.foldlM_cons] at h
      cases hstep : step? stack s with
      | none =>
        have hroot : s = ".." ∧ stack = [] := by
          unfold step? at hstep
          split at hstep
          · nomatch hstep
          · split at hstep
            · cases stack with
              | nil => exact ⟨‹_›, rfl⟩
              | cons t below => nomatch hstep
            · nomatch hstep
        obtain ⟨rfl, rfl⟩ := hroot
        exact ⟨[], ss, rfl, rfl⟩
      | some next =>
        rw [hstep] at h
        obtain ⟨before, after, rfl, hbefore⟩ := ih h
        refine ⟨s :: before, after, rfl, ?_⟩
        rw [List.foldlM_cons, hstep]
        exact hbefore
  · rintro ⟨before, after, rfl, hbefore⟩
    rw [List.foldlM_append, hbefore]
    rfl

/-- A path leaves its beginning exactly if a step back finds nothing on the stack. -/
theorem follow?_eq_none_iff {ss : List String} :
    follow? ss = none ↔ ∃ before after, ss = before ++ ".." :: after ∧ follow? before = some [] := by
  simp only [follow?, Option.map_eq_none_iff, foldlM_step?_eq_none_iff, Option.map_eq_some_iff, List.reverse_eq_nil_iff,
    exists_eq_right]

/-- Segments lead to names. -/
theorem isName_of_foldlM_step? {ss stack out : List String} (hss : ∀ s ∈ ss, '/' ∉ s.text) (hstack : ∀ s ∈ stack, IsName s)
    (h : ss.foldlM step? stack = some out) : ∀ s ∈ out, IsName s := by
  induction ss generalizing stack with
  | nil => exact Option.some.inj h ▸ hstack
  | cons s ss ih =>
    rw [List.foldlM_cons] at h
    obtain ⟨next, hnext, h⟩ := Option.bind_eq_some_iff.1 h
    refine ih (fun t ht => hss t (List.mem_cons_of_mem s ht)) ?_ h
    unfold step? at hnext
    split at hnext
    · exact Option.some.inj hnext ▸ hstack
    · rename_i hplain
      rw [not_or] at hplain
      split at hnext
      · cases stack with
        | nil => nomatch hnext
        | cons t below => exact Option.some.inj hnext ▸ fun x hx => hstack x (List.mem_cons_of_mem t hx)
      · rename_i hdots
        have hs : IsName s := ⟨hplain.1, hplain.2, hdots, hss s List.mem_cons_self⟩
        exact Option.some.inj hnext ▸ List.forall_mem_cons.2 ⟨hs, hstack⟩

/-- The segments of two lists that are more than dots are those of both. -/
theorem solid_append (ss ts : List String) : solid (ss ++ ts) = solid ss ++ solid ts := List.filter_append ss ts

/-- Empty segments and dots lead on. -/
theorem foldlM_step?_solid (ss stack : List String) : (solid ss).foldlM step? stack = ss.foldlM step? stack := by
  induction ss generalizing stack with
  | nil => rfl
  | cons s ss ih =>
    rw [List.foldlM_cons]
    by_cases hs : s = "" ∨ s = "."
    · have hsolid : solid (s :: ss) = solid ss := List.filter_cons_of_neg (by simpa [or_iff_not_imp_left] using hs)
      have hstep : step? stack s = some stack := if_pos hs
      rw [hsolid, ih, hstep]
      rfl
    · have hsolid : solid (s :: ss) = s :: solid ss := List.filter_cons_of_pos (by simpa using hs)
      rw [hsolid, List.foldlM_cons]
      exact congrArg _ (funext ih)

/-- Empty segments and single dots do not matter. -/
theorem follow?_congr {ss ts : List String} (h : solid ss = solid ts) : follow? ss = follow? ts := by
  rw [follow?, ← foldlM_step?_solid, h, foldlM_step?_solid, follow?]

/-- A segment has no slash. -/
theorem slash_not_mem_of_mem_segments {p s : String} (h : s ∈ segments p) : '/' ∉ s.text := by
  obtain ⟨t, ht, rfl⟩ := List.mem_map.1 h
  rw [String.text, String.toList_ofList]
  exact Text.not_mem_of_mem_splitOn ht

/-- What segments of paths lead to are names. -/
theorem isName_of_follow? {ss out : List String} (hss : ∀ s ∈ ss, '/' ∉ s.text) (h : follow? ss = some out) :
    ∀ s ∈ out, IsName s := by
  obtain ⟨stack, hstack, rfl⟩ := Option.map_eq_some_iff.1 h
  exact fun s hs => isName_of_foldlM_step? hss (fun _ ht => absurd ht List.not_mem_nil) hstack s (List.mem_reverse.1 hs)

/-- A segment of a specifier has no slash either, seen from a file. -/
theorem slash_not_mem_of_mem_segmentsFrom {fromFile specifier s : String} (h : s ∈ segmentsFrom fromFile specifier) :
    '/' ∉ s.text :=
  (List.mem_append.1 h).elim (fun h => slash_not_mem_of_mem_segments (List.dropLast_subset _ h)) slash_not_mem_of_mem_segments

/-! ## Normalising and following -/

/-- Two dots at the bottom of the stack stay there. -/
theorem getLast?_climb {stack : List Text} (h : stack.getLast? = some ['.', '.']) (s : Text) :
    (PathAux.climb false stack s).getLast? = some ['.', '.'] := by
  have hcons : ∀ t : Text, (t :: stack).getLast? = some ['.', '.'] := by
    intro t
    rw [List.getLast?_cons, h]
    rfl
  unfold PathAux.climb
  split
  · exact h
  split
  · cases stack with
    | nil => nomatch h
    | cons top below =>
      dsimp only
      split
      · exact hcons s
      · rename_i htop
        cases below with
        | nil => exact absurd (Option.some.inj h) htop
        | cons next below => rwa [List.getLast?_cons_cons] at h
  · exact hcons s

/-- Without two dots on the stack one step of normalising is one segment followed, and leaves two dots at the bottom if that leads
nowhere. -/
theorem climb_cases {stack : List Text} (h : ['.', '.'] ∉ stack) (s : Text) :
    (step? (stack.map String.ofList) (String.ofList s) = some ((PathAux.climb false stack s).map String.ofList) ∧
        ['.', '.'] ∉ PathAux.climb false stack s) ∨
      step? (stack.map String.ofList) (String.ofList s) = none ∧ (PathAux.climb false stack s).getLast? = some ['.', '.'] := by
  have hempty : String.ofList s = "" ↔ s = [] := String.ofList_eq_empty_iff
  have hinj : ∀ t : Text, String.ofList s = String.ofList t ↔ s = t := fun _ => String.ofList_inj
  have hdot : String.ofList s = "." ↔ s = ['.'] := hinj ['.']
  have hdots : String.ofList s = ".." ↔ s = ['.', '.'] := hinj ['.', '.']
  unfold step? PathAux.climb
  simp only [hempty, hdot, hdots]
  split
  · exact Or.inl ⟨rfl, h⟩
  split
  · cases stack with
    | nil =>
      rename_i hs
      exact Or.inr ⟨rfl, congrArg some hs⟩
    | cons top below =>
      rw [List.mem_cons, not_or] at h
      refine Or.inl ?_
      dsimp only [List.map_cons]
      rw [if_neg fun e => h.1 e.symm]
      exact ⟨rfl, h.2⟩
  · rename_i hs
    exact Or.inl ⟨rfl, fun hmem => (List.mem_cons.1 hmem).elim (fun e => hs e.symm) h⟩

/-- Normalising keeps what the segments lead to, or two dots at the bottom if they lead nowhere. -/
theorem foldl_climb_cases (segs : List Text) {stack : List Text} (h : ['.', '.'] ∉ stack) :
    (segs.map String.ofList).foldlM step? (stack.map String.ofList) =
        some ((segs.foldl (PathAux.climb false) stack).map String.ofList) ∨
      (segs.map String.ofList).foldlM step? (stack.map String.ofList) = none ∧
        (segs.foldl (PathAux.climb false) stack).getLast? = some ['.', '.'] := by
  have hbottom : ∀ (segs stack : List Text), stack.getLast? = some ['.', '.'] →
      (segs.foldl (PathAux.climb false) stack).getLast? = some ['.', '.'] := by
    intro segs
    induction segs with
    | nil => exact fun _ h => h
    | cons s segs ih => exact fun stack h => ih _ (getLast?_climb h s)
  induction segs generalizing stack with
  | nil => exact Or.inl rfl
  | cons s segs ih =>
    rw [List.map_cons, List.foldlM_cons, List.foldl_cons]
    obtain ⟨hstep, hnodots⟩ | ⟨hstep, hdots⟩ := climb_cases h s
    · rw [hstep]
      exact ih hnodots
    · rw [hstep]
      exact Or.inr ⟨rfl, hbottom segs _ hdots⟩

/-- What normalising keeps of a path is what its segments lead to; where they lead nowhere, it begins with two dots. -/
theorem kept_cases (p : String) :
    follow? (segments p) = some (kept p) ∨ follow? (segments p) = none ∧ ∃ rest, kept p = ".." :: rest := by
  have hempty : ['.', '.'] ∉ ([] : List Text) := List.not_mem_nil
  obtain h | ⟨h, hlast⟩ := foldl_climb_cases (Text.splitOn '/' p.text) hempty
  · refine Or.inl ?_
    rw [follow?, segments, kept, ← List.map_nil (f := String.ofList), h, Option.map_some, List.map_reverse]
  · refine Or.inr ⟨?_, ?_⟩
    · rw [follow?, segments, ← List.map_nil (f := String.ofList), h]
      rfl
    · rw [← List.head?_reverse] at hlast
      obtain ⟨rest, hrest⟩ := List.head?_eq_some_iff.1 hlast
      exact ⟨rest.map String.ofList, by rw [kept, hrest]; rfl⟩

/-- The normal form of a relative path is made of what is kept, or is a dot. -/
theorem normalize_eq_ite {p : String} (h : IsRelative p) : normalize p = if kept p = [] then "." else ofSegments (kept p) := by
  by_cases hempty : p = ""
  · subst hempty
    rfl
  · exact normalize_of_isRelative h hempty

/-- A normal path that has left the workspace, or is its root. -/
def Leaves (p : String) : Prop := p = "." ∨ p = ".." ∨ p.text.startsWith "../" = true

/-- A path that begins with two dots leaves its beginning. -/
theorem leaves_ofSegments_dots (rest : List String) : Leaves (ofSegments (".." :: rest)) := by
  cases rest with
  | nil => exact Or.inr (Or.inl String.intercalate_singleton)
  | cons s rest =>
    refine Or.inr (Or.inr ?_)
    have hpath : ofSegments (".." :: s :: rest) = "../" ++ ofSegments (s :: rest) :=
      ofSegments_append (List.cons_ne_nil ".." []) (List.cons_ne_nil s rest)
    rw [hpath, String.text, String.toList_append]
    exact List.isPrefixOf_iff_prefix.2 (List.prefix_append _ _)

/-- A path of names stays below the root. -/
theorem not_leaves_of_isName {p : String} (h : ∀ s ∈ segments p, IsName s) : ¬Leaves p := by
  rintro (rfl | rfl | hprefix)
  · exact (h "." List.mem_cons_self).ne_dot rfl
  · exact (h ".." List.mem_cons_self).ne_dots rfl
  · obtain ⟨r, hr⟩ := List.isPrefixOf_iff_prefix.1 hprefix
    have hp : p = ".." ++ "/" ++ String.ofList r := by
      rw [← String.toList_inj, String.toList_append, String.toList_ofList]
      exact hr.symm
    refine (h ".." ?_).ne_dots rfl
    rw [hp, segments_append]
    exact List.mem_append_left _ List.mem_cons_self

/-! ## Segments of directories and joined paths -/

/-- A slash at the end does not matter. -/
theorem plain_ofList_concat (t : Text) : plain (String.ofList (t ++ ['/'])) = plain (String.ofList t) := by
  have htext : String.ofList (t ++ ['/']) = String.ofList t ++ "/" ++ "" := by
    rw [String.append_empty, String.ofList_append]
  rw [htext, plain_append]
  exact List.append_nil _

/-- Neither do many. -/
theorem plain_trimRight (t : Text) : plain (String.ofList (Text.trimRight (· == '/') t)) = plain (String.ofList t) := by
  induction t using List.reverseRecOn with
  | nil => rfl
  | append_singleton t c ih =>
    by_cases hc : c = '/'
    · subst hc
      have htrim : Text.trimRight (· == '/') (t ++ ['/']) = Text.trimRight (· == '/') t := List.rdropWhile_concat_pos _ _ _ rfl
      rw [htrim, ih, plain_ofList_concat]
    · have htrim : Text.trimRight (· == '/') (t ++ [c]) = t ++ [c] := List.rdropWhile_concat_neg _ _ _ (by simpa using hc)
      rw [htrim]

/-- A text with a slash has a last one. -/
theorem exists_last_slash {t : Text} (h : '/' ∈ t) : ∃ a b, t = a ++ '/' :: b ∧ '/' ∉ b := by
  obtain ⟨r, q, hreverse, hr⟩ := List.eq_append_cons_of_mem (List.mem_reverse.2 h)
  refine ⟨q.reverse, r.reverse, ?_, fun hmem => hr (List.mem_reverse.1 hmem)⟩
  rw [← List.reverse_reverse t, hreverse, List.reverse_append, List.reverse_cons, List.append_assoc, List.singleton_append]

/-- The directory of a path has the segments before the last one, apart from empty ones. -/
theorem plain_dirname (p : String) : plain (dirname p) = solid (segments p).dropLast := by
  unfold dirname PathAux.splitLast
  by_cases hslash : '/' ∈ p.text
  · obtain ⟨a, b, hp, hb⟩ := exists_last_slash hslash
    have hsegments : (segments p).dropLast = segments (String.ofList a) := by
      rw [segments, hp, Text.splitOn_append, Text.splitOn_of_not_mem hb, List.map_append, List.map_singleton, List.dropLast_concat,
        segments, String.text, String.toList_ofList]
    have hhead : plain (String.ofList (a ++ ['/'])) = solid (segments p).dropLast := by
      rw [plain_ofList_concat, hsegments]
      rfl
    rw [hp, Text.cutLast?_append hb]
    dsimp only
    split
    · exact hhead
    · rw [plain_trimRight, hhead]
  · rw [segments_of_not_mem hslash, Text.cutLast?_of_not_mem hslash]
    rfl

/-- Joining to a path one that is relative puts their segments together. -/
theorem plain_join (a : String) {b : String} (hb : IsRelative b) : plain (join a b) = plain a ++ plain b := by
  have hrelative : b.text.startsWith "/" = false := hb
  unfold join
  rw [if_neg (Bool.eq_false_iff.1 hrelative)]
  by_cases hempty : a = ""
  · subst hempty
    exact congrArg plain String.empty_append
  · rw [String.isEmpty_eq_false_iff.2 hempty, Bool.false_or]
    split
    · rename_i hend
      obtain ⟨r, hr⟩ := List.isSuffixOf_iff_suffix.1 hend
      have ha : a = String.ofList (r ++ ['/']) := by
        rw [← String.toList_inj, String.toList_ofList]
        exact hr.symm
      have hjoined : a ++ b = String.ofList r ++ "/" ++ b := by
        rw [ha, String.ofList_append]
      rw [hjoined, plain_append, ha, plain_ofList_concat]
    · exact plain_append a b

/-- A relative path joined to nothing is itself. -/
theorem join_empty {b : String} (hb : IsRelative b) : join "" b = b := by
  have hrelative : b.text.startsWith "/" = false := hb
  unfold join
  rw [if_neg (Bool.eq_false_iff.1 hrelative)]
  exact String.empty_append

/-- Joined paths are relative if both are. -/
theorem IsRelative.join {a b : String} (ha : IsRelative a) (hb : IsRelative b) : IsRelative (join a b) := by
  by_cases hempty : a = ""
  · rwa [hempty, join_empty hb]
  · have hrelative : b.text.startsWith "/" = false := hb
    unfold Path.join
    rw [if_neg (Bool.eq_false_iff.1 hrelative)]
    split
    · exact isRelative_append ha hempty
    · rw [String.append_assoc]
      exact isRelative_append ha hempty

end Path

end CodeAtlas

namespace CodeAtlas.ImportTarget

open CodeAtlas.Path
open WorkspaceTree (plain)

/-- What a specifier names relative to a file: what the segments lead to, if that is below the root of the workspace. -/
theorem relative?_eq {fromFile specifier : String} (hfile : IsRelative fromFile) (hspecifier : IsRelative specifier) :
    relative? fromFile specifier = (follow? (segmentsFrom fromFile specifier)).bind fun ss =>
      if ss = [] then none else some (ofSegments ss) := by
  have hjoined : (if (dirname fromFile).isEmpty then specifier else join (dirname fromFile) specifier) =
      join (dirname fromFile) specifier := by
    split
    · rename_i hempty
      rw [String.isEmpty_iff.1 hempty, join_empty hspecifier]
    · rfl
  have hfollow : follow? (segments (join (dirname fromFile) specifier)) = follow? (segmentsFrom fromFile specifier) := by
    refine follow?_congr ?_
    have hplain : plain (join (dirname fromFile) specifier) = _ := plain_join (dirname fromFile) hspecifier
    rw [plain_dirname] at hplain
    rw [segmentsFrom, solid_append]
    exact hplain
  have hnormal := normalize_eq_ite (hfile.dirname.join hspecifier)
  unfold relative?
  dsimp only
  rw [hjoined, hnormal, ← hfollow]
  obtain hsome | ⟨hnone, rest, hrest⟩ := kept_cases (join (dirname fromFile) specifier)
  · have hnames := isName_of_follow? (fun s => slash_not_mem_of_mem_segments) hsome
    rw [hsome, Option.bind_some]
    split
    · rw [if_pos (Or.inl rfl)]
    · rename_i hne
      refine if_neg (not_leaves_of_isName ?_)
      rwa [segments_ofSegments (plain_of_isName hnames) hne]
  · rw [hnone, hrest, if_neg (List.cons_ne_nil _ _)]
    exact if_pos (leaves_ofSegments_dots rest)

/-- A specifier relative to a file is what the segments of the file's directory and of the specifier lead to, one after the other. It names
nothing exactly if two dots among them are met at the root of the workspace, or if they end there. Else no empty segment, dot or two dots
are left in the path, and it is in normal form. -/
theorem relative?_follows_segments {fromFile specifier : String} (hfile : IsRelative fromFile) (hspecifier : IsRelative specifier) :
    (relative? fromFile specifier = none ↔
      (∃ before after, segmentsFrom fromFile specifier = before ++ ".." :: after ∧ follow? before = some []) ∨
        follow? (segmentsFrom fromFile specifier) = some []) ∧
      ∀ p, relative? fromFile specifier = some p → ∃ ss, follow? (segmentsFrom fromFile specifier) = some ss ∧ ss ≠ [] ∧
        p = ofSegments ss ∧ segments p = ss ∧ (∀ s ∈ segments p, s ≠ "" ∧ s ≠ "." ∧ s ≠ "..") ∧ normalize p = p := by
  rw [relative?_eq hfile hspecifier, ← follow?_eq_none_iff]
  constructor
  · cases follow? (segmentsFrom fromFile specifier) with
    | none => exact iff_of_true rfl (Or.inl rfl)
    | some ss => simp
  · intro p hp
    obtain ⟨ss, hss, hp⟩ := Option.bind_eq_some_iff.1 hp
    split at hp
    · nomatch hp
    · rename_i hne
      obtain rfl := Option.some.inj hp
      have hnames := isName_of_follow? (fun s => slash_not_mem_of_mem_segmentsFrom) hss
      have hsegments := segments_ofSegments (plain_of_isName hnames) hne
      refine ⟨ss, hss, hne, rfl, hsegments, ?_, normalize_of_isName ?_⟩
      · rw [hsegments]
        exact fun s hs => ⟨(hnames s hs).ne_empty, (hnames s hs).ne_dot, (hnames s hs).ne_dots⟩
      · rwa [hsegments]

/-- A page reaches a module beside its own directory over slashes and dots that lead on. -/
theorem relative?_follows_shared : IsRelative "web/ui//page.ts" ∧ IsRelative "..//../shared/./dates" ∧
    relative? "web/ui//page.ts" "..//../shared/./dates" = some "shared/dates" ∧ normalize "shared/dates" = "shared/dates" := by
  have hfile : IsRelative "web/ui//page.ts" := by decide
  have hspecifier : IsRelative "..//../shared/./dates" := by decide
  have hp : relative? "web/ui//page.ts" "..//../shared/./dates" = some "shared/dates" := by decide
  obtain ⟨-, -, -, -, -, -, hnormal⟩ := (relative?_follows_segments hfile hspecifier).2 _ hp
  exact ⟨hfile, hspecifier, hp, hnormal⟩

end CodeAtlas.ImportTarget
