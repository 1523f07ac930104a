import CodeAtlas.Text.Basic

/-!
# Cutting text at a separator

The pieces between the separators of a text hold no separator, and with separators between them they are the text again. The last
separator is the one that none follows.
-/

namespace CodeAtlas.Text

/-- Cutting at one character is what the library does. -/
theorem splitOn_eq (sep : Char) (t : Text) : splitOn sep t = List.splitOn sep t := by
  induction t with
  | nil => rfl
  | cons c r ih =>
    have hcons : ∀ ps : List Text, ps ≠ [] → consHead c ps = ps.modifyHead (List.cons c) := by
      intro ps hps
      cases ps with
      | nil => exact absurd rfl hps
      | cons p ps => rfl
    rw [List.splitOn_eq_splitOnP] at ih ⊢
    rw [splitOn, List.splitOnP_cons_eq_if_modifyHead, ih, hcons _ (List.splitOnP_ne_nil _ _)]
    simp only [beq_iff_eq]

/-- There is always a piece. -/
theorem splitOn_ne_nil (sep : Char) (t : Text) : splitOn sep t ≠ [] := by
  cases t with
  | nil => exact List.cons_ne_nil _ _
  | cons c r =>
    unfold splitOn
    split
    · exact List.cons_ne_nil _ _
    · cases splitOn sep r <;> exact List.cons_ne_nil _ _

/-- A text without separators is one piece. -/
theorem splitOn_of_not_mem {sep : Char} {t : Text} (h : sep ∉ t) : splitOn sep t = [t] := by
  induction t with
  | nil => rfl
  | cons c r ih =>
    rw [List.mem_cons, not_or] at h
    rw [splitOn, if_neg (Ne.symm h.1), ih h.2]
    rfl

/-- A separator between two texts keeps their pieces apart. -/
theorem splitOn_append (sep : Char) (a b : Text) : splitOn sep (a ++ sep :: b) = splitOn sep a ++ splitOn sep b := by
  induction a with
  | nil => simp [splitOn]
  | cons c a ih =>
    rw [List.cons_append, splitOn, splitOn, ih]
    split
    · rfl
    · cases hpieces : splitOn sep a with
      | nil => exact absurd hpieces (splitOn_ne_nil sep a)
      | cons p ps => rfl

/-- No piece has a separator. -/
theorem not_mem_of_mem_splitOn {sep : Char} {t p : Text} (h : p ∈ splitOn sep t) : sep ∉ p := by
  induction t generalizing p with
  | nil =>
    rw [splitOn, List.mem_singleton] at h
    exact h ▸ List.not_mem_nil
  | cons c r ih =>
    unfold splitOn at h
    split at h
    · rcases List.mem_cons.1 h with rfl | h
      · exact List.not_mem_nil
      · exact ih h
    · rename_i hc
      cases hr : splitOn sep r with
      | nil =>
        rw [hr, consHead, List.mem_singleton] at h
        rw [h, List.mem_singleton]
        exact fun e => hc e.symm
      | cons q qs =>
        rw [hr] at h ih
        rcases List.mem_cons.1 h with rfl | h
        · rw [List.mem_cons]
          rintro (e | hq)
          · exact hc e.symm
          · exact ih List.mem_cons_self hq
        · exact ih (List.mem_cons_of_mem q h)

/-- Without the mark there is no last one. -/
theorem cutLast?_of_not_mem {c : Char} {t : Text} (h : c ∉ t) : cutLast? [c] t = none := by
  induction t with
  | nil => rfl
  | cons x r ih =>
    rw [List.mem_cons, not_or] at h
    rw [cutLast?, ih h.2]
    simp [h.1]

/-- The last separator is found where none follows. -/
theorem cutLast?_append {c : Char} {a b : Text} (h : c ∉ b) : cutLast? [c] (a ++ c :: b) = some (a, b) := by
  induction a with
  | nil =>
    rw [List.nil_append, cutLast?, cutLast?_of_not_mem h]
    simp
  | cons x a ih => rw [List.cons_append, cutLast?, ih]

section Cut

variable {sep t b a b' a' : Text}

/-- A text that is cut is what stands before the mark, the mark, and what stands behind it. -/
theorem eq_of_cut? (h : cut? sep t = some (b, a)) : t = b ++ sep ++ a := by
  induction t generalizing b with
  | nil =>
    unfold cut? at h
    split at h
    · rename_i hsep
      cases h
      rw [List.isEmpty_iff.1 hsep]
      rfl
    · nomatch h
  | cons c r ih =>
    unfold cut? at h
    split at h
    · rename_i hprefix
      cases h
      obtain ⟨rest, hrest⟩ := List.isPrefixOf_iff_prefix.1 hprefix
      rw [← hrest, List.drop_left, List.nil_append]
    · obtain ⟨⟨b₁, a₁⟩, hcut, hpair⟩ := Option.map_eq_some_iff.1 h
      cases hpair
      rw [ih hcut]
      simp only [List.cons_append]

/-- A cut is found where there is a separator, and it is the first: what follows any separator follows this one. -/
theorem exists_cut? (h : t = b' ++ sep ++ a') : ∃ b a, cut? sep t = some (b, a) ∧ a' <:+ a := by
  induction t generalizing b' with
  | nil =>
    obtain ⟨hsep, rfl⟩ := List.append_eq_nil_iff.1 h.symm
    obtain ⟨-, rfl⟩ := List.append_eq_nil_iff.1 hsep
    exact ⟨[], [], rfl, List.suffix_refl []⟩
  | cons c r ih =>
    unfold cut?
    split
    · refine ⟨[], _, rfl, ?_⟩
      have ha' : a' = (c :: r).drop (b' ++ sep).length := by rw [h, List.drop_left]
      rw [ha', List.length_append, Nat.add_comm, ← List.drop_drop]
      exact List.drop_suffix _ _
    · rename_i hprefix
      cases b' with
      | nil => exact absurd (List.isPrefixOf_iff_prefix.2 ⟨a', h.symm⟩) hprefix
      | cons d b' =>
        obtain ⟨b, a, hcut, hsuffix⟩ := ih (List.cons.inj h).2
        exact ⟨c :: b, a, by rw [hcut]; rfl, hsuffix⟩

/-- A text without the first character of a mark is not cut. -/
theorem cut?_of_not_mem {c : Char} {s : Text} (h : c ∉ t) : cut? (c :: s) t = none := by
  cases hcut : cut? (c :: s) t with
  | none => rfl
  | some p =>
    rw [eq_of_cut? hcut] at h
    simp at h

/-- No separator begins in a text without its first character. -/
theorem cut?_append_of_not_mem {c : Char} {s : Text} (h : c ∉ t) (r : Text) :
    cut? (c :: s) (t ++ r) = (cut? (c :: s) r).map fun p => (t ++ p.1, p.2) := by
  induction t with
  | nil => exact Option.map_id'.symm
  | cons d t ih =>
    rw [List.mem_cons, not_or] at h
    have hprefix : ¬(c :: s).isPrefixOf (d :: (t ++ r)) = true := by
      rw [List.isPrefixOf_iff_prefix, List.cons_prefix_cons]
      exact fun e => h.1 e.1
    rw [List.cons_append, cut?, if_neg hprefix, ih h.2, Option.map_map]
    rfl

/-- Without the mark, all of the text stands before it. -/
theorem before_of_not_mem {c : Char} (h : c ∉ t) : t.before (String.ofList [c]) = t := by
  rw [before, String.toList_ofList, cut?_of_not_mem h]

/-- Before the first mark stands what has none. -/
theorem before_append {c : Char} (h : c ∉ t) (r : Text) : (t ++ c :: r).before (String.ofList [c]) = t := by
  have hprefix : [c].isPrefixOf (c :: r) = true := List.isPrefixOf_iff_prefix.2 ⟨r, rfl⟩
  rw [before, String.toList_ofList, cut?_append_of_not_mem h, cut?, if_pos hprefix, Option.map_some]
  exact List.append_nil t

end Cut

end CodeAtlas.Text
