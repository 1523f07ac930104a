import CodeAtlas.Proofs.Source.Block

/-!
# Ranges by indentation

A line of code is in the range of an earlier line whose block ends with its indentation exactly if it belongs to the header of that line
or if all code from the end of the header up to it is indented deeper. Blank lines and comments do not count as code.
-/

namespace CodeAtlas

open Text

namespace Text

/-- There is code on a line that is neither blank nor a comment. -/
def HasCode (l : Text) : Prop := ((strip l).isEmpty || startsWith (strip l) "#") = false

/-- The line of a number, from one; beyond the text it is empty. -/
def lineAt (lines : List Text) (n : Nat) : Text := (lines.drop (n - 1)).headD []

/-- How deep the line of a number is indented. -/
def indentAt (lines : List Text) (n : Nat) : Nat := indent (lineAt lines n)

/-- All code on the lines from `first` to `last` is indented deeper than `base`. -/
def IsDeeper (lines : List Text) (base first last : Nat) : Prop :=
  ∀ n, first ≤ n → n ≤ last → HasCode (lineAt lines n) → base < indentAt lines n

variable {lines : List Text} {n : Nat} {l : Text} {ls : List Text}

theorem lineAt_of_drop (h : lines.drop n = l :: ls) : lineAt lines (n + 1) = l := by simp [lineAt, h]

theorem lineAt_drop (lines : List Text) (n k : Nat) : lineAt (lines.drop n) (k + 1) = lineAt lines (n + k + 1) := by simp [lineAt]

/-- What is deeper over a range of lines is deeper over a range within. -/
theorem IsDeeper.mono {base first first' last last' : Nat} (h : IsDeeper lines base first last) (hfirst : first ≤ first')
    (hlast : last' ≤ last) : IsDeeper lines base first' last' :=
  fun n hn hn' => h n (Nat.le_trans hfirst hn) (Nat.le_trans hn' hlast)

end Text

namespace Header

/-- A header ends on the line on which it begins, or below. -/
theorem le_lastLine {noise : Noise} {lines : List Text} {line : Nat} (hfirst : 1 ≤ line) (hlast : line ≤ lines.length) :
    line ≤ lastLine noise lines line := by
  suffices ∀ (rest : List Text) (depth : Int) (at_ : Nat), rest ≠ [] → at_ + rest.length = lines.length + 1 →
      at_ ≤ lastLine.go noise lines depth at_ rest by
    refine this _ 0 line ?_ (Block.add_length_drop hfirst hlast)
    intro hnil
    have hlength := Block.add_length_drop hfirst hlast
    rw [hnil, List.length_nil] at hlength
    omega
  intro rest
  induction rest with
  | nil => exact fun _ _ h => absurd rfl h
  | cons l ls ih =>
    intro depth at_ _ hlength
    rw [List.length_cons] at hlength
    unfold lastLine.go
    dsimp only
    split
    · exact Nat.le_refl _
    · cases ls with
      | nil =>
        rw [List.length_nil] at hlength
        unfold lastLine.go
        omega
      | cons m ms => exact Nat.le_of_succ_le (ih _ (at_ + 1) (List.cons_ne_nil m ms) (by omega))

end Header

namespace Block

/-- The search by indentation does not go back. -/
theorem le_indentEnd_go {base last at_ : Nat} (rest : List Text) (hlast : last < at_) : last ≤ indentEnd.go base last at_ rest := by
  induction rest generalizing last at_ with
  | nil => exact Nat.le_refl _
  | cons l ls ih =>
    unfold indentEnd.go
    dsimp only
    split
    · exact ih (Nat.lt_succ_of_lt hlast)
    · split
      · exact Nat.le_refl _
      · exact Nat.le_trans (Nat.le_of_lt hlast) (ih (Nat.lt_succ_self at_))

/-- A first line that is blank or indented deeper decides nothing about the lines behind it. -/
theorem isDeeper_cons_iff {base k : Nat} {l : Text} {ls : List Text} (hl : HasCode l → base < Text.indent l) :
    IsDeeper (l :: ls) base 1 (k + 1) ↔ IsDeeper ls base 1 k := by
  constructor
  · intro h n hn hnk hn'
    obtain ⟨m, rfl⟩ : ∃ m, n = m + 1 := ⟨n - 1, by omega⟩
    exact h (m + 2) (by omega) (by omega) hn'
  · intro h n hn hnk hn'
    obtain rfl | ⟨m, rfl⟩ : n = 1 ∨ ∃ m, n = m + 2 := by
      rcases Nat.lt_or_ge n 2 with hlt | hge
      · exact Or.inl (by omega)
      · exact Or.inr ⟨n - 2, by omega⟩
    · exact hl hn'
    · exact h (m + 1) (by omega) (by omega) hn'

/-- Of the lines after the last one found so far, those with code are passed as long as they are indented deeper. -/
theorem add_le_indentEnd_go_iff {base last at_ k : Nat} {rest : List Text} (hlast : last < at_) (hcode : HasCode (lineAt rest (k + 1))) :
    at_ + k ≤ indentEnd.go base last at_ rest ↔ IsDeeper rest base 1 (k + 1) := by
  induction rest generalizing last at_ k with
  | nil => simp [lineAt, HasCode, strip, trim, trimLeft, trimRight] at hcode
  | cons l ls ih =>
    have hfirst : lineAt (l :: ls) 1 = l := rfl
    unfold indentEnd.go
    dsimp only
    split
    · rename_i hblank
      have hl : ¬ HasCode l := by simp [HasCode, hblank]
      cases k with
      | zero => exact absurd hcode hl
      | succ k =>
        have hcount : at_ + (k + 1) = at_ + 1 + k := by omega
        rw [isDeeper_cons_iff fun h => absurd h hl, hcount]
        exact ih (Nat.lt_succ_of_lt hlast) hcode
    · rename_i hl
      have hl : HasCode l := by simpa [HasCode] using hl
      split
      · rename_i hshallow
        constructor
        · omega
        · intro h
          have hdeep := h 1 (Nat.le_refl 1) (Nat.le_add_left 1 k) hl
          rw [indentAt, hfirst] at hdeep
          omega
      · rename_i hdeep
        rw [isDeeper_cons_iff fun _ => Nat.lt_of_not_le hdeep]
        cases k with
        | zero =>
          refine iff_of_true (le_indentEnd_go ls (Nat.lt_succ_self at_)) ?_
          intro n hn hn'
          omega
        | succ k =>
          have hcount : at_ + (k + 1) = at_ + 1 + k := by omega
          rw [hcount]
          exact ih (Nat.lt_succ_self at_) hcode

/-- A line of code is in the range of an indented block exactly if it belongs to the header or if all code between the header and it,
and the line itself, is indented deeper than the header. -/
theorem le_indentEnd_iff {noise : Noise} {lines : List Text} {line n : Nat} (hcode : HasCode (lineAt lines n)) :
    n ≤ indentEnd noise lines line ↔ n ≤ Header.lastLine noise lines line ∨
      IsDeeper lines (indentAt lines line) (Header.lastLine noise lines line + 1) n := by
  unfold indentEnd
  extract_lets base header
  rcases Nat.lt_or_ge header n with hlt | hge
  · obtain ⟨k, rfl⟩ : ∃ k, n = header + 1 + k := ⟨n - (header + 1), by omega⟩
    have hshift : ∀ m, lineAt (lines.drop header) (m + 1) = lineAt lines (header + 1 + m) := by
      intro m
      rw [lineAt_drop, Nat.add_right_comm]
    rw [add_le_indentEnd_go_iff (Nat.lt_succ_self header) (hshift k ▸ hcode)]
    constructor
    · intro h
      refine Or.inr fun m hm hmk hm' => ?_
      obtain ⟨j, rfl⟩ : ∃ j, m = header + 1 + j := ⟨m - (header + 1), by omega⟩
      have hdeep := h (j + 1) (by omega) (by omega)
      rw [indentAt, hshift] at hdeep
      exact hdeep hm'
    · rintro (hle | h)
      · omega
      · intro j hj hjk hj'
        obtain ⟨j, rfl⟩ : ∃ i, j = i + 1 := ⟨j - 1, by omega⟩
        rw [hshift] at hj'
        rw [indentAt, hshift]
        exact h (header + 1 + j) (by omega) (by omega) hj'
  · exact iff_of_true (Nat.le_trans hge (le_indentEnd_go _ (Nat.lt_succ_self header))) (Or.inl hge)

end Block

end CodeAtlas
