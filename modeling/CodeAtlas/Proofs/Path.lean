import CodeAtlas.Path

/-!
# Climbing relative paths

The directory of a relative path is relative and shorter. So the climb from directory to directory ends at the root of the workspace,
and it goes on for as many steps as that takes.
-/

namespace CodeAtlas

/-- What is found around the last place of a separator of one character makes up the text. -/
theorem Text.eq_of_cutLast?_eq_some {c : Char} {t a b : Text} (h : cutLast? [c] t = some (a, b)) : t = a ++ c :: b := by
  induction t generalizing a with
  | nil => nomatch h
  | cons x r ih =>
    unfold cutLast? at h
    split at h
    · rename_i p hp
      cases h
      rw [ih hp, List.cons_append]
    · split at h
      · rename_i hsep
        cases h
        have hx : c = x := by simpa using hsep
        rw [hx]
        rfl
      · nomatch h

/-- Dropping characters at the end leaves the beginning. -/
theorem Text.trimRight_prefix (p : Char → Bool) (t : Text) : trimRight p t <+: t := by
  have h := List.reverse_prefix.2 (List.dropWhile_suffix p (l := t.reverse))
  rwa [List.reverse_reverse] at h

namespace Path

/-- A path that does not begin with a slash. -/
def IsRelative (p : String) : Prop := p.text.startsWith "/" = false

/-- Whether a path is relative is decided by its first character. -/
instance : DecidablePred IsRelative := fun p => inferInstanceAs (Decidable (p.text.startsWith "/" = false))

/-- A path is relative if it does not begin with a slash. -/
theorem isRelative_iff {p : String} : IsRelative p ↔ p.text.head? ≠ some '/' := by
  have hslash : "/".toList = ['/'] := rfl
  unfold IsRelative Text.startsWith
  rw [hslash]
  cases p.text with
  | nil => simp
  | cons c r =>
    rw [List.head?_cons, ne_eq, Option.some_inj, List.isPrefixOf, List.isPrefixOf, Bool.and_true, beq_eq_false_iff_ne]
    exact ne_comm

/-- The directory of a relative path is how the path begins, short of its last slash. -/
theorem exists_dirname_append {p : String} (h : IsRelative p) :
    ∃ rest, p.text = (dirname p).text ++ rest ∧ (rest = [] → p = "") := by
  unfold dirname PathAux.splitLast
  dsimp only
  split
  · rename_i a b hcut
    have hp := Text.eq_of_cutLast?_eq_some hcut
    have hall : (a ++ ['/']).all (· == '/') = false := by
      cases a with
      | nil =>
        rw [isRelative_iff, hp] at h
        exact absurd rfl h
      | cons c a =>
        rw [isRelative_iff, hp] at h
        have hc : c ≠ '/' := fun e => h (e ▸ rfl)
        simp [hc]
    have htrim : Text.trimRight (· == '/') (a ++ ['/']) = Text.trimRight (· == '/') a := by
      rw [Text.trimRight, List.reverse_append, List.reverse_singleton, List.singleton_append,
        List.dropWhile_cons_of_pos (p := (· == '/')) (beq_self_eq_true '/'), Text.trimRight]
    obtain ⟨dropped, hdropped⟩ := Text.trimRight_prefix (· == '/') a
    refine ⟨dropped ++ '/' :: b, ?_, ?_⟩
    · rw [hall, if_neg Bool.false_ne_true, htrim, String.text, String.text, String.toList_ofList, ← List.append_assoc, hdropped]
      exact hp
    · exact fun e => absurd e (List.append_ne_nil_of_right_ne_nil _ (List.cons_ne_nil _ _))
  · refine ⟨p.text, ?_, ?_⟩
    · rfl
    · exact fun e => String.toList_eq_nil_iff.1 e

/-- How a relative path begins is relative. -/
theorem IsRelative.of_prefix {p q : String} (h : IsRelative p) (hbegins : q.text <+: p.text) : IsRelative q := by
  obtain ⟨rest, hp⟩ := hbegins
  rw [isRelative_iff] at h ⊢
  rw [← hp] at h
  cases hq : q.text with
  | nil => nofun
  | cons c r =>
    rw [hq] at h
    exact h

/-- The directory of a relative path is relative. -/
theorem IsRelative.dirname {p : String} (h : IsRelative p) : IsRelative (dirname p) := by
  obtain ⟨rest, hp, -⟩ := exists_dirname_append h
  exact h.of_prefix ⟨rest, hp.symm⟩

/-- It is shorter than the path. -/
theorem length_dirname_lt {p : String} (h : IsRelative p) (hne : p ≠ "") : (dirname p).length < p.length := by
  obtain ⟨rest, hp, hrest⟩ := exists_dirname_append h
  have hpos : 0 < rest.length := List.length_pos_iff.2 fun e => hne (hrest e)
  have hlen := congrArg List.length hp
  rw [List.length_append, String.length_toList, String.length_toList] at hlen
  omega

/-- A climb that is long enough ends at the root. -/
theorem getLast?_climbAll {n : Nat} {p : String} (h : IsRelative p) (hn : p.length < n) :
    (PathAux.climbAll n p).getLast? = some "" := by
  induction n generalizing p with
  | zero => nomatch hn
  | succ n ih =>
    unfold PathAux.climbAll
    dsimp only
    by_cases hd : dirname p = ""
    · simp [hd]
    · have hne : p ≠ "" := by
        rintro rfl
        exact hd rfl
      have hlt := length_dirname_lt h hne
      have hrec := ih h.dirname (by omega)
      rw [if_neg (by simpa using hd), List.getLast?_cons, hrec]
      rfl

/-- The climb from a relative path ends at the root of the workspace. -/
theorem getLast?_ancestry {p : String} (h : IsRelative p) : (ancestry p).getLast? = some "" :=
  getLast?_climbAll h (Nat.lt_succ_self _)

/-- The directory of a path, and every directory of one above it. The root of the workspace is above every relative path. -/
inductive IsAbove (p : String) : String → Prop where
  | dir : IsAbove p (dirname p)
  | up {d : String} : IsAbove p d → IsAbove p (dirname d)

/-- What is above the directory of a path is above the path. -/
theorem IsAbove.of_dirname {p d : String} (h : IsAbove (dirname p) d) : IsAbove p d := by
  induction h with
  | dir => exact IsAbove.dir.up
  | up _ ih => exact ih.up

/-- What a climb passes is above its path. -/
theorem isAbove_of_mem_climbAll {n : Nat} {p d : String} (h : d ∈ PathAux.climbAll n p) : IsAbove p d := by
  induction n generalizing p with
  | zero => nomatch h
  | succ n ih =>
    unfold PathAux.climbAll at h
    rcases List.mem_cons.1 h with rfl | h
    · exact IsAbove.dir
    · split at h
      · nomatch h
      · exact (ih h).of_dirname

/-- A climb that is long enough to end at the root passes the directory of all that it passes. -/
theorem dirname_mem_climbAll {n : Nat} {p d : String} (hp : IsRelative p) (hn : p.length < n) (h : d ∈ PathAux.climbAll n p) :
    dirname d ∈ PathAux.climbAll n p := by
  induction n generalizing p with
  | zero => nomatch h
  | succ n ih =>
    unfold PathAux.climbAll at h ⊢
    dsimp only at h ⊢
    by_cases hd : dirname p = ""
    · rw [hd] at h ⊢
      rw [List.mem_singleton.1 h]
      exact List.mem_singleton_self _
    · have hne : p ≠ "" := by
        rintro rfl
        exact hd rfl
      have hlt : (dirname p).length < n := by
        have := length_dirname_lt hp hne
        omega
      rw [if_neg fun e => hd (String.isEmpty_iff.1 e)] at h ⊢
      refine List.mem_cons_of_mem _ ?_
      rcases List.mem_cons.1 h with rfl | h
      · obtain ⟨m, rfl⟩ : ∃ m, n = m + 1 := ⟨n - 1, by omega⟩
        unfold PathAux.climbAll
        exact List.mem_cons_self
      · exact ih hp.dirname hlt h

/-- The climb from a relative path passes the directories above it. -/
theorem mem_ancestry_iff {p d : String} (h : IsRelative p) : d ∈ ancestry p ↔ IsAbove p d := by
  constructor
  · exact isAbove_of_mem_climbAll
  · intro hd
    induction hd with
    | dir =>
      unfold ancestry PathAux.climbAll
      exact List.mem_cons_self
    | up _ ih => exact dirname_mem_climbAll h (Nat.lt_succ_self _) ih

/-- What is above a relative path is relative. -/
theorem IsAbove.isRelative {p d : String} (h : IsRelative p) (hd : IsAbove p d) : IsRelative d := by
  induction hd with
  | dir => exact h.dirname
  | up _ ih => exact ih.dirname

end Path

end CodeAtlas
