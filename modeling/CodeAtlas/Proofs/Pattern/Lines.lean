import CodeAtlas.Proofs.Pattern.Reads

/-!
# Patterns at the beginning of a line

A pattern that fits only where a line begins is looked for there and nowhere else. As long as its matches stay within their lines, all of
them are found by looking at each line once.
-/

namespace CodeAtlas.Pattern

open SearchAux

/-- The pattern fits only where a line begins, and takes something there. -/
structure BeginsLines (p : Pattern) : Prop where
  before {at_ : Place} {m : Match} : p.matchAt (fun _ => true) at_ = some m → at_.before = none ∨ at_.before = some '\n'
  text_ne_nil {at_ : Place} {m : Match} : p.matchAt (fun _ => true) at_ = some m → m.text ≠ []
  text_prefix {at_ : Place} {m : Match} : p.matchAt (fun _ => true) at_ = some m → m.text <+: at_.rest

section Search

variable {p : Pattern} {offset : Nat} {before : Option Char} {c : Char} {w r : Text}

/-- The last character of a text and of what comes before it. -/
theorem getLast?_cons_or (c : Char) (w : Text) (before : Option Char) : (c :: w).getLast?.or before = w.getLast?.or (some c) := by
  rw [List.getLast?_cons]
  cases w.getLast? <;> rfl

/-- What belongs to a match is passed over. -/
theorem all_skip (p : Pattern) (offset : Nat) (before : Option Char) (w r : Text) :
    all p w.length offset before (w ++ r) = all p 0 (offset + w.length) (w.getLast?.or before) r := by
  induction w generalizing offset before with
  | nil => rfl
  | cons c w ih =>
    rw [List.length_cons, List.cons_append, all]
    rw [ih, getLast?_cons_or, Nat.add_assoc, Nat.add_comm 1]

/-- A match at the place where the search begins is found. -/
theorem mem_all_of_matchAt {t : Text} {m : Match} (h : p.matchAt (fun _ => true) ⟨offset, before, t⟩ = some m) : m ∈ all p 0 offset before t := by
  cases t with
  | nil =>
    rw [all, if_pos rfl]
    exact Option.mem_toList.2 h
  | cons c t =>
    rw [all, h]
    exact List.mem_cons_self

variable (hp : p.BeginsLines)
include hp

/-- A pattern that begins lines fits nowhere within a line. -/
theorem matchAt_within (hc : c ≠ '\n') : p.matchAt (fun _ => true) ⟨offset, some c, r⟩ = none := by
  cases hm : p.matchAt (fun _ => true) ⟨offset, some c, r⟩ with
  | none => rfl
  | some m => exact (hp.before hm).elim nofun fun h => absurd (Option.some.inj h) hc

/-- Nothing is found at the end of a text. -/
theorem all_nil : all p 0 offset before [] = [] := by
  have hnone : p.matchAt (fun _ => true) ⟨offset, before, []⟩ = none := by
    cases hm : p.matchAt (fun _ => true) ⟨offset, before, []⟩ with
    | none => rfl
    | some m => exact absurd (List.prefix_nil.1 (hp.text_prefix hm)) (hp.text_ne_nil hm)
  rw [all, if_pos rfl, hnone]
  rfl

/-- Within a line nothing is found. -/
theorem all_within (hc : c ≠ '\n') (hw : '\n' ∉ w) :
    all p 0 offset (some c) (w ++ r) = all p 0 (offset + w.length) (w.getLast?.or (some c)) r := by
  induction w generalizing offset c with
  | nil => rfl
  | cons d w ih =>
    rw [List.mem_cons, not_or] at hw
    rw [List.cons_append, all]
    rw [matchAt_within hp hc]
    dsimp only
    rw [ih (Ne.symm hw.1) hw.2, getLast?_cons_or, List.length_cons, Nat.add_assoc, Nat.add_comm 1]

/-- A line is looked at once, as long as what is found on it ends on it. -/
theorem all_line {l : Text} (hne : l ≠ []) (hl : '\n' ∉ l)
    (hstay : ∀ m, p.matchAt (fun _ => true) ⟨offset, before, l ++ r⟩ = some m → m.text.length ≤ l.length) :
    all p 0 offset before (l ++ r) =
      (p.matchAt (fun _ => true) ⟨offset, before, l ++ r⟩).toList ++ all p 0 (offset + l.length) l.getLast? r := by
  obtain ⟨c, t, rfl⟩ := List.exists_cons_of_ne_nil hne
  obtain ⟨hc, ht⟩ := not_or.1 (List.mem_cons.not.1 hl)
  have hlast : (c :: t).getLast? = t.getLast?.or (some c) := by
    rw [← getLast?_cons_or c t none, Option.or_none]
  rw [hlast, List.cons_append, all]
  cases hm : p.matchAt (fun _ => true) ⟨offset, before, c :: (t ++ r)⟩ with
  | none =>
    dsimp only
    rw [all_within hp (Ne.symm hc) ht, Option.toList_none, List.nil_append, List.length_cons, Nat.add_assoc, Nat.add_comm 1]
  | some m =>
    obtain ⟨u, hu⟩ := List.prefix_of_prefix_length_le (hp.text_prefix hm) (List.prefix_append (c :: t) r) (hstay m hm)
    obtain ⟨d, v, hv⟩ := List.exists_cons_of_ne_nil (hp.text_ne_nil hm)
    rw [hv, List.cons_append] at hu
    obtain ⟨rfl, rfl⟩ := List.cons.inj hu
    obtain ⟨e, he⟩ : ∃ e, v.getLast?.or (some d) = some e := by cases v.getLast? <;> exact ⟨_, rfl⟩
    have hbreak : e ≠ '\n' := by
      rintro rfl
      rcases Option.or_eq_some_iff.1 he with hlast | ⟨-, hd⟩
      · exact ht (List.mem_append_left u (List.mem_of_getLast? hlast))
      · exact hc (Option.some.inj hd).symm
    have hlast : (v ++ u).getLast?.or (some d) = u.getLast?.or (some e) := by rw [List.getLast?_append, Option.or_assoc, he]
    dsimp only
    rw [hv, List.length_cons, Nat.add_sub_cancel, List.append_assoc, all_skip, he, all_within hp hbreak fun h => ht (List.mem_append_right v h),
      hlast, List.length_cons, List.length_append]
    have hoffset : offset + 1 + v.length + u.length = offset + (v.length + u.length + 1) := by omega
    rw [hoffset]
    rfl

/-- A line feed behind a line ends it. -/
theorem all_lineFeed (hc : c ≠ '\n') : all p 0 offset (some c) ('\n' :: r) = all p 0 (offset + 1) (some '\n') r := by
  rw [all, matchAt_within hp hc]

end Search

end CodeAtlas.Pattern
