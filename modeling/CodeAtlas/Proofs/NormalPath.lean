import CodeAtlas.Proofs.Import.KnownPaths
import CodeAtlas.Workspace.Tree
import Mathlib.Data.List.DropRight

/-!
# Normal paths

A relative path is in normal form if normalising leaves it as it is. What normalising keeps of a path are its segments without the
empty ones, the dots, and the segments that are climbed out of again. A name put at the end of a path is always kept, so a path that ends
in a name is in normal form exactly if the path before the name is, unless that is a mere dot.
-/

namespace CodeAtlas

namespace Path

open WorkspaceTree (plain)

/-- A name that something in a directory can have. -/
structure IsName (s : String) : Prop where
  ne_empty : s ≠ ""
  ne_dot : s ≠ "."
  ne_dots : s ≠ ".."
  slash : '/' ∉ s.text

/-- A name is a segment that is neither empty nor dots nor holds a slash. -/
theorem isName_iff {s : String} : IsName s ↔ s ≠ "" ∧ s ≠ "." ∧ s ≠ ".." ∧ '/' ∉ s.text :=
  ⟨fun h => ⟨h.ne_empty, h.ne_dot, h.ne_dots, h.slash⟩, fun h => ⟨h.1, h.2.1, h.2.2.1, h.2.2.2⟩⟩

/-- Whether a segment is a name is decided by its characters. -/
instance : DecidablePred IsName := fun _ => decidable_of_iff' _ isName_iff

/-- Names are plain segments. -/
theorem plain_of_isName {ss : List String} (h : ∀ s ∈ ss, IsName s) : Plain ss := fun s hs => ⟨(h s hs).ne_empty, (h s hs).slash⟩

/-! ## Segments -/

/-- What has no slash is one segment. -/
theorem segments_of_not_mem {s : String} (h : '/' ∉ s.text) : segments s = [s] := by
  rw [segments, Text.splitOn_of_not_mem h, List.map_singleton, String.ofList_toList]

/-- A path has at least one segment. -/
theorem segments_ne_nil (p : String) : segments p ≠ [] := by
  rw [segments, ne_eq, List.map_eq_nil_iff]
  exact Text.splitOn_ne_nil _ _

/-- The segments of two paths with a slash between are those of both. -/
theorem segments_append (a b : String) : segments (a ++ "/" ++ b) = segments a ++ segments b := by
  have htext : (a ++ "/" ++ b).text = a.text ++ '/' :: b.text := by
    rw [String.text, String.toList_append, String.toList_append, List.append_assoc]
    rfl
  rw [segments, htext, Text.splitOn_append, List.map_append, segments, segments]

/-- So are the plain segments. -/
theorem plain_append (a b : String) : plain (a ++ "/" ++ b) = plain a ++ plain b := by
  rw [plain, segments_append, List.filter_append, plain, plain]

/-- Segments are joined together or in two parts. -/
theorem ofSegments_append {ss ts : List String} (hs : ss ≠ []) (ht : ts ≠ []) :
    ofSegments (ss ++ ts) = ofSegments ss ++ "/" ++ ofSegments ts := by
  induction ss with
  | nil => exact absurd rfl hs
  | cons s ss ih =>
    rw [List.cons_append, ofSegments, String.intercalate_cons_of_ne_nil (List.append_ne_nil_of_right_ne_nil ss ht)]
    by_cases hss : ss = []
    · subst hss
      rw [List.nil_append, ofSegments, String.intercalate_singleton, ofSegments]
    · rw [← ofSegments, ih hss, ofSegments, ofSegments, ofSegments, String.intercalate_cons_of_ne_nil hss]
      simp only [String.append_assoc]

/-- The segments of what plain segments make up are these segments. -/
theorem segments_ofSegments {ss : List String} (h : Plain ss) (hne : ss ≠ []) : segments (ofSegments ss) = ss := by
  induction ss with
  | nil => exact absurd rfl hne
  | cons s ss ih =>
    have hs := segments_of_not_mem (h s List.mem_cons_self).2
    by_cases hss : ss = []
    · subst hss
      rw [ofSegments, String.intercalate_singleton, hs]
    · rw [← List.singleton_append, ofSegments_append (List.cons_ne_nil _ _) hss, ofSegments, String.intercalate_singleton,
        segments_append, hs, ih (fun t ht => h t (List.mem_cons_of_mem s ht)) hss]

/-! ## What normalising keeps -/

/-- The segments that normalising keeps of a relative path. -/
def kept (p : String) : List String := ((Text.splitOn '/' p.text).foldl (PathAux.climb false) []).reverse.map String.ofList

/-- A climb puts nothing on the stack but its segment. -/
theorem mem_climb {stack : List Text} {s t : Text} (h : t ∈ PathAux.climb false stack s) :
    t ∈ stack ∨ t = s ∧ s ≠ [] ∧ s ≠ ['.'] := by
  unfold PathAux.climb at h
  split at h
  · exact Or.inl h
  rename_i hs
  rw [not_or] at hs
  have hcons : ∀ {below}, t ∈ s :: below → t ∈ below ∨ t = s ∧ s ≠ [] ∧ s ≠ ['.'] := fun ht =>
    (List.mem_cons.1 ht).elim (fun e => Or.inr ⟨e, hs⟩) Or.inl
  split at h
  · cases stack with
    | nil =>
      rw [if_neg Bool.false_ne_true] at h
      exact hcons h
    | cons top below =>
      dsimp only at h
      split at h
      · exact hcons h
      · exact Or.inl (List.mem_cons_of_mem top h)
  · exact hcons h

/-- A walk along segments leaves only what was there and what it went along. -/
theorem mem_foldl_climb {segs stack : List Text} {t : Text} (h : t ∈ segs.foldl (PathAux.climb false) stack) :
    t ∈ stack ∨ t ∈ segs ∧ t ≠ [] ∧ t ≠ ['.'] := by
  induction segs generalizing stack with
  | nil => exact Or.inl h
  | cons s segs ih =>
    rcases ih h with h | ⟨h, hkeep⟩
    · rcases mem_climb h with h | ⟨rfl, hkeep⟩
      · exact Or.inl h
      · exact Or.inr ⟨List.mem_cons_self, hkeep⟩
    · exact Or.inr ⟨List.mem_cons_of_mem s h, hkeep⟩

/-- A segment that is kept is one of the path, neither empty nor a dot. -/
theorem mem_segments_of_mem_kept {p s : String} (h : s ∈ kept p) : s ∈ segments p ∧ s ≠ "" ∧ s ≠ "." := by
  obtain ⟨t, ht, rfl⟩ := List.mem_map.1 h
  obtain ⟨hmem, hempty, hdot⟩ := (mem_foldl_climb (List.mem_reverse.1 ht)).resolve_left List.not_mem_nil
  refine ⟨List.mem_map_of_mem hmem, fun e => hempty (String.ofList_eq_empty_iff.1 e), fun e => hdot ?_⟩
  rw [← String.toList_ofList (l := t), e]
  rfl

/-- What is kept has no slashes. -/
theorem plain_kept (p : String) : Plain (kept p) := by
  intro s hs
  obtain ⟨hmem, hempty, -⟩ := mem_segments_of_mem_kept hs
  obtain ⟨t, ht, rfl⟩ := List.mem_map.1 hmem
  exact ⟨hempty, by rw [String.text, String.toList_ofList]; exact Text.not_mem_of_mem_splitOn ht⟩

/-- The path that normalising leaves of a relative one. -/
theorem normalize_of_isRelative {p : String} (h : IsRelative p) (hne : p ≠ "") :
    normalize p = if kept p = [] then "." else ofSegments (kept p) := by
  have hroot : p.text.startsWith "/" = false := h
  have hnormal : normalize p = if (ofSegments (kept p)).isEmpty then "." else ofSegments (kept p) := by
    unfold normalize
    dsimp only
    rw [if_neg fun e => hne (String.toList_eq_nil_iff.1 (List.isEmpty_iff.1 e)), hroot, Bool.not_false, if_pos rfl, String.empty_append]
    rfl
  rw [hnormal]
  by_cases hkept : kept p = []
  · rw [hkept]
    rfl
  · rw [if_neg hkept, if_neg fun e => (plain_kept p).ofSegments_ne_empty hkept (String.isEmpty_iff.1 e)]

/-- A name is put on the stack. -/
theorem climb_of_isName {s : String} (h : IsName s) (stack : List Text) : PathAux.climb false stack s.text = s.text :: stack := by
  have hempty : s.text ≠ [] := fun e => h.ne_empty (String.toList_eq_nil_iff.1 e)
  have hdot : s.text ≠ ['.'] := fun e => h.ne_dot (String.toList_inj.1 e)
  have hdots : s.text ≠ ['.', '.'] := fun e => h.ne_dots (String.toList_inj.1 e)
  unfold PathAux.climb
  rw [if_neg (not_or.2 ⟨hempty, hdot⟩), if_neg hdots]

/-- A name at the end is kept. -/
theorem kept_append_name (dir : String) {name : String} (h : IsName name) : kept (dir ++ "/" ++ name) = kept dir ++ [name] := by
  have htext : (dir ++ "/" ++ name).text = dir.text ++ '/' :: name.text := by
    rw [String.text, String.toList_append, String.toList_append, List.append_assoc]
    rfl
  rw [kept, htext, Text.splitOn_append, Text.splitOn_of_not_mem h.slash, List.foldl_append, List.foldl_cons, List.foldl_nil,
    climb_of_isName h, List.reverse_cons, List.map_append, List.map_singleton, String.ofList_toList, kept]

/-- Of names everything is kept. -/
theorem kept_of_isName {p : String} (h : ∀ s ∈ segments p, IsName s) : kept p = segments p := by
  have hclimb : ∀ (segs stack : List Text), (∀ t ∈ segs, IsName (String.ofList t)) →
      segs.foldl (PathAux.climb false) stack = segs.reverse ++ stack := by
    intro segs
    induction segs with
    | nil => exact fun _ _ => rfl
    | cons t segs ih =>
      intro stack hsegs
      have ht := climb_of_isName (hsegs t List.mem_cons_self) stack
      rw [String.text, String.toList_ofList] at ht
      rw [List.foldl_cons, ht, ih _ fun t' ht' => hsegs t' (List.mem_cons_of_mem t ht'), List.reverse_cons, List.append_assoc,
        List.singleton_append]
  rw [kept, hclimb _ _ fun t ht => h _ (List.mem_map_of_mem ht), List.append_nil, List.reverse_reverse, segments]

/-! ## Normal form -/

/-- A path that begins with a relative one is relative. -/
theorem isRelative_append {a b : String} (ha : IsRelative a) (hne : a ≠ "") : IsRelative (a ++ b) := by
  rw [isRelative_iff, String.text] at ha ⊢
  rw [String.toList_append]
  cases htext : a.toList with
  | nil => exact absurd (String.toList_eq_nil_iff.1 htext) hne
  | cons c r =>
    rw [htext] at ha
    exact ha

/-- A path without empty segments is relative. -/
theorem isRelative_of_not_mem_segments {p : String} (h : "" ∉ segments p) : IsRelative p := by
  rw [isRelative_iff]
  intro hhead
  refine h (List.mem_map.2 ⟨[], ?_, rfl⟩)
  cases htext : p.text with
  | nil =>
    rw [htext] at hhead
    nomatch hhead
  | cons c r =>
    rw [htext] at hhead
    obtain rfl := Option.some.inj hhead
    exact List.mem_cons_self

/-- A path of names is in normal form. -/
theorem normalize_of_isName {p : String} (h : ∀ s ∈ segments p, IsName s) : normalize p = p := by
  have hempty : "" ∉ segments p := fun hs => (h "" hs).ne_empty rfl
  have hne : p ≠ "" := by
    rintro rfl
    exact hempty List.mem_cons_self
  rw [normalize_of_isRelative (isRelative_of_not_mem_segments hempty) hne, kept_of_isName h, if_neg (segments_ne_nil p),
    ofSegments_segments]

/-- A path in normal form leads, on paper, to all of its segments, unless it is a mere dot. -/
theorem plain_eq_segments_of_normalize {p : String} (h : IsRelative p) (hne : p ≠ "") (hdot : p ≠ ".") (hnormal : normalize p = p) :
    plain p = segments p := by
  rw [normalize_of_isRelative h hne] at hnormal
  split at hnormal
  · exact absurd hnormal.symm hdot
  · rename_i hkept
    have hsegments := segments_ofSegments (plain_kept p) hkept
    rw [hnormal] at hsegments
    rw [plain, hsegments, List.filter_eq_self]
    intro s hs
    obtain ⟨-, hempty, hdot⟩ := mem_segments_of_mem_kept hs
    rw [Bool.and_eq_true, bne_iff_ne, bne_iff_ne]
    exact ⟨hempty, hdot⟩

/-- A path of names is made of its plain segments. -/
theorem plain_eq_segments_of_isName {p : String} (h : ∀ s ∈ segments p, IsName s) : plain p = segments p :=
  List.filter_eq_self.2 fun s hs => by simp [(h s hs).ne_empty, (h s hs).ne_dot]

/-- A path that ends in a name is in normal form exactly if the path before the name is, and is more than a dot. -/
theorem normalize_append_name_iff {dir name : String} (hdir : IsRelative dir) (hne : dir ≠ "") (h : IsName name) :
    normalize (dir ++ "/" ++ name) = dir ++ "/" ++ name ↔ normalize dir = dir ∧ dir ≠ "." := by
  have hrelative : IsRelative (dir ++ "/" ++ name) := String.append_assoc ▸ isRelative_append hdir hne
  have hlength : (dir ++ "/" ++ name).length = dir.length + 1 + name.length := by
    rw [String.length_append, String.length_append]
    rfl
  have hlong : dir ++ "/" ++ name ≠ "" := by
    intro e
    rw [e, String.length_empty] at hlength
    omega
  rw [normalize_of_isRelative hrelative hlong, normalize_of_isRelative hdir hne, kept_append_name dir h,
    if_neg (List.append_ne_nil_of_right_ne_nil _ (List.cons_ne_nil _ _))]
  by_cases hkept : kept dir = []
  · rw [hkept, if_pos rfl]
    refine iff_of_false (fun e => ?_) fun e => e.2 e.1.symm
    have hshort := congrArg String.length e
    rw [List.nil_append, ofSegments, String.intercalate_singleton, hlength] at hshort
    omega
  · rw [if_neg hkept, ofSegments_append hkept (List.cons_ne_nil _ _), ofSegments, ofSegments, String.intercalate_singleton,
      String.append_left_inj, String.append_left_inj]
    refine (and_iff_left_of_imp fun _ => ?_).symm
    rintro rfl
    exact hkept rfl

/-! ## Paths of directories -/

/-- A relative path that names a directory, without a slash at its end. -/
structure IsDirectoryPath (r : String) : Prop where
  relative : IsRelative r
  ne_empty : r ≠ ""
  last : r.text.getLast? ≠ some '/'

/-- The path of a directory has no slash at its end. -/
theorem IsDirectoryPath.trimRight {r : String} (h : IsDirectoryPath r) : Text.trimRight (· == '/') r.text = r.text := by
  refine List.rdropWhile_eq_self_iff.2 fun hne hlast => h.last ?_
  rw [List.getLast?_eq_some_getLast hne, beq_iff_eq.1 hlast]

/-- What is trimmed of slashes does not end in one. -/
theorem getLast?_trimRight (t : Text) : (Text.trimRight (· == '/') t).getLast? ≠ some '/' := by
  intro hlast
  have hne : Text.trimRight (· == '/') t ≠ [] := fun e => Option.some_ne_none '/' (by rw [← hlast, e, List.getLast?_nil])
  rw [List.getLast?_eq_some_getLast hne, Option.some_inj] at hlast
  exact List.rdropWhile_last_not (· == '/') t hne (beq_iff_eq.2 hlast)

/-- A name does not begin with a slash. -/
theorem IsName.head? {s : String} (h : IsName s) : s.text.head? ≠ some '/' := fun hhead => h.slash (List.mem_of_head? hhead)

/-- A name is joined to a directory by a slash. -/
theorem IsDirectoryPath.join_name {dir name : String} (h : IsDirectoryPath dir) (hname : IsName name) :
    Path.join dir name = dir ++ "/" ++ name := by
  have hslash : "/".toList = ['/'] := rfl
  have hrelative : name.text.startsWith "/" = false := isRelative_iff.2 hname.head?
  have hend : dir.text.endsWith "/" = false := by
    refine Bool.eq_false_iff.2 fun hend => h.last ?_
    rw [Text.endsWith, hslash, List.isSuffixOf_iff_suffix] at hend
    obtain ⟨a, ha⟩ := hend
    rw [← ha, List.getLast?_concat]
  rw [Path.join, hrelative, if_neg Bool.false_ne_true, hend, Bool.or_false, if_neg fun e => h.ne_empty (String.isEmpty_iff.1 e)]

/-- A name below the path of a directory is such a path again. -/
theorem IsDirectoryPath.append_name {dir name : String} (h : IsDirectoryPath dir) (hname : IsName name) :
    IsDirectoryPath (dir ++ "/" ++ name) := by
  have hne : name.text ≠ [] := fun e => hname.ne_empty (String.toList_eq_nil_iff.1 e)
  have htext : (dir ++ "/" ++ name).text = (dir ++ "/").text ++ name.text := String.toList_append
  refine ⟨String.append_assoc ▸ isRelative_append h.relative h.ne_empty, fun e => ?_, fun hlast => ?_⟩
  · rw [e] at htext
    exact List.append_ne_nil_of_right_ne_nil _ hne htext.symm
  · rw [htext, List.getLast?_append_of_ne_nil _ hne] at hlast
    exact hname.slash (List.mem_of_getLast? hlast)

end Path

end CodeAtlas
