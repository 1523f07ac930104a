import CodeAtlas.Text.Basic

/-!
# Trimming

Trimming takes characters of a class off the ends of a text and leaves the text between them.
-/

namespace CodeAtlas.Text

variable {p : Char → Bool} {t a b : Text}

/-- A character of one table is in no other that shares no range with it. -/
theorem inRanges_eq_false_of_disjoint {a b : List (Nat × Nat)} (h : ∀ x ∈ a, ∀ y ∈ b, x.2 < y.1 ∨ y.2 < x.1) {c : Char}
    (hc : inRanges a c = true) : inRanges b c = false := by
  refine List.any_eq_false.2 fun y hy hcy => ?_
  obtain ⟨x, hx, hcx⟩ := List.any_eq_true.1 hc
  simp only [Bool.and_eq_true, decide_eq_true_eq] at hcx hcy
  rcases h x hx y hy with h | h <;> omega

/-- A text that does not begin with a character of the class is not trimmed at its front. -/
theorem trimLeft_eq_self (h : ∀ c ∈ t.head?, p c = false) : trimLeft p t = t := by
  cases t with
  | nil => rfl
  | cons c r => exact List.dropWhile_cons_of_neg (Bool.eq_false_iff.1 (h c rfl))

/-- A text that does not end with one is not trimmed at its end. -/
theorem trimRight_eq_self (h : ∀ c ∈ t.getLast?, p c = false) : trimRight p t = t := by
  have hhead : ∀ c ∈ t.reverse.head?, p c = false := by
    rw [List.head?_reverse]
    exact h
  have hreverse : t.reverse.dropWhile p = t.reverse := trimLeft_eq_self hhead
  rw [trimRight, hreverse, List.reverse_reverse]

/-- A text is left as it is when it neither begins nor ends with a character of the class. -/
theorem trim_eq_self (hfirst : ∀ c ∈ t.head?, p c = false) (hlast : ∀ c ∈ t.getLast?, p c = false) : trim p t = t := by
  rw [trim, trimLeft_eq_self hfirst, trimRight_eq_self hlast]

/-- Characters of the class in front are trimmed. -/
theorem trimLeft_append (h : ∀ c ∈ a, p c = true) (t : Text) : trimLeft p (a ++ t) = trimLeft p t := List.dropWhile_append_of_pos h

/-- So are those at the end. -/
theorem trimRight_append (h : ∀ c ∈ b, p c = true) (t : Text) : trimRight p (t ++ b) = trimRight p t := by
  have hreverse : ∀ c ∈ b.reverse, p c = true := fun c hc => h c (List.mem_reverse.1 hc)
  rw [trimRight, List.reverse_append, List.dropWhile_append_of_pos hreverse, trimRight]

/-- What is taken off the end is of the class, and what is left does not end with it. -/
theorem exists_trimRight (p : Char → Bool) (t : Text) :
    ∃ b, t = trimRight p t ++ b ∧ (∀ c ∈ b, p c = true) ∧ ∀ c ∈ (trimRight p t).getLast?, p c = false := by
  refine ⟨(t.reverse.takeWhile p).reverse, ?_, fun c hc => List.all_eq_true.1 List.all_takeWhile c (List.mem_reverse.1 hc), ?_⟩
  · rw [trimRight, ← List.reverse_append, List.takeWhile_append_dropWhile, List.reverse_reverse]
  · intro c hc
    rw [trimRight, List.getLast?_reverse] at hc
    have hnot := List.head?_dropWhile_not p t.reverse
    rw [Option.mem_def.1 hc] at hnot
    simpa using hnot

/-- Trimming both ends takes off what stands in front. -/
theorem trim_append_left (h : ∀ c ∈ a, p c = true) (t : Text) : trim p (a ++ t) = trim p t := by
  rw [trim, trimLeft_append h, trim]

/-- It takes off what stands at the end. -/
theorem trim_append_right (h : ∀ c ∈ b, p c = true) (t : Text) : trim p (t ++ b) = trim p t := by
  rw [trim, trim, trimLeft, List.dropWhile_append, trimLeft]
  split
  · rename_i hempty
    rw [List.isEmpty_iff.1 hempty, ← List.append_nil b, List.dropWhile_append_of_pos h]
    rfl
  · exact trimRight_append h _

/-- Around the trimmed text stand characters of the class. -/
theorem exists_trim (p : Char → Bool) (t : Text) : ∃ a b, t = a ++ (trim p t ++ b) ∧ (∀ c ∈ a, p c = true) ∧ ∀ c ∈ b, p c = true := by
  obtain ⟨b, htrim, hb, -⟩ := exists_trimRight p (trimLeft p t)
  refine ⟨t.takeWhile p, b, ?_, List.all_eq_true.1 List.all_takeWhile, hb⟩
  rw [trim, ← htrim, trimLeft, List.takeWhile_append_dropWhile]

/-- A character that is not of the class is not taken off. -/
theorem mem_trim {c : Char} (hmem : c ∈ t) (hc : p c = false) : c ∈ trim p t := by
  have hleft : ∀ {s : Text}, c ∈ s → c ∈ s.dropWhile p := by
    intro s hs
    rw [← List.takeWhile_append_dropWhile (p := p) (l := s)] at hs
    refine (List.mem_append.1 hs).resolve_left fun htaken => ?_
    exact Bool.false_ne_true (hc.symm.trans (List.all_eq_true.1 List.all_takeWhile c htaken))
  exact List.mem_reverse.2 (hleft (List.mem_reverse.2 (hleft hmem)))

/-- A character that is not of the class is in the trimmed text if it is in the text. -/
theorem mem_trim_iff {c : Char} (hc : p c = false) : c ∈ trim p t ↔ c ∈ t := by
  refine ⟨fun h => ?_, fun h => mem_trim h hc⟩
  obtain ⟨a, b, ht, -, -⟩ := exists_trim p t
  rw [ht]
  exact List.mem_append_right a (List.mem_append_left b h)

end CodeAtlas.Text
