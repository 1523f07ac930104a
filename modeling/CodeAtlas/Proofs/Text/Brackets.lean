import CodeAtlas.Text.Basic

/-!
# Nested brackets

Brackets are nested where each that is opened is closed by the other one of its pair, and what stands between the two is nested as well.
A check that remembers the closing brackets it waits for finds nested text nested.
-/

namespace CodeAtlas.Text

/-- The text has nested brackets of these pairs, and no bracket of them besides. -/
inductive Nested (pairs : List (Char × Char)) : Text → Prop where
  | nil : Nested pairs []
  | other {c : Char} {t : Text} : (∀ p ∈ pairs, c ≠ p.1 ∧ c ≠ p.2) → Nested pairs t → Nested pairs (c :: t)
  | pair {p : Char × Char} {inside after : Text} : p ∈ pairs → Nested pairs inside → Nested pairs after →
    Nested pairs (p.1 :: (inside ++ p.2 :: after))

variable {pairs : List (Char × Char)}

/-- The text closes the brackets that wait, the first of them first, and is nested before, between and behind them. -/
def Closes (pairs : List (Char × Char)) : (waiting : List Char) → Text → Prop
  | [], t => Nested pairs t
  | d :: waiting, t => ∃ inside after, t = inside ++ d :: after ∧ Nested pairs inside ∧ Closes pairs waiting after

/-- Whether the brackets of a text are closed in the right order when these closing brackets are waited for. -/
def closesAll (pairs : List (Char × Char)) : (waiting : List Char) → Text → Bool
  | waiting, [] => waiting.isEmpty
  | waiting, c :: r =>
    match pairs.find? fun p => p.1 == c with
    | some p => closesAll pairs (p.2 :: waiting) r
    | none =>
      if pairs.any fun p => p.2 == c then waiting.head? == some c && closesAll pairs waiting.tail r else closesAll pairs waiting r

section Closes

variable {waiting : List Char} {c : Char} {p : Char × Char} {t : Text}

/-- A character that is no bracket leaves the open ones open. -/
theorem Closes.other (hc : ∀ p ∈ pairs, c ≠ p.1 ∧ c ≠ p.2) (h : Closes pairs waiting t) : Closes pairs waiting (c :: t) := by
  cases waiting with
  | nil => exact .other hc h
  | cons d waiting =>
    obtain ⟨inside, after, rfl, hinside, hafter⟩ := h
    exact ⟨c :: inside, after, rfl, .other hc hinside, hafter⟩

/-- An opening bracket waits for its closing one. -/
theorem Closes.opened (hp : p ∈ pairs) (h : Closes pairs (p.2 :: waiting) t) : Closes pairs waiting (p.1 :: t) := by
  obtain ⟨inside, after, rfl, hinside, hafter⟩ := h
  cases waiting with
  | nil => exact .pair hp hinside hafter
  | cons d waiting =>
    obtain ⟨inside', after', rfl, hinside', hafter'⟩ := hafter
    refine ⟨p.1 :: (inside ++ p.2 :: inside'), after', ?_, .pair hp hinside hinside', hafter'⟩
    rw [List.cons_append, List.append_assoc, List.cons_append]

/-- The scan over the brackets says that all of them are closed. -/
theorem closes_of_closesAll (h : closesAll pairs waiting t = true) : Closes pairs waiting t := by
  induction t generalizing waiting with
  | nil =>
    obtain rfl := List.isEmpty_iff.1 h
    exact .nil
  | cons c r ih =>
    unfold closesAll at h
    split at h
    · rename_i p hfind
      have hopen : p.1 = c := beq_iff_eq.1 (List.find?_some (p := fun p : Char × Char => p.1 == c) hfind)
      exact hopen ▸ (ih h).opened (List.mem_of_find?_eq_some hfind)
    · rename_i hnone
      have hopen : ∀ p ∈ pairs, c ≠ p.1 := fun p hp e => List.find?_eq_none.1 hnone p hp (beq_iff_eq.2 e.symm)
      split at h
      · obtain ⟨hhead, hrest⟩ := Bool.and_eq_true_iff.1 h
        cases waiting with
        | nil => nomatch hhead
        | cons d waiting =>
          obtain rfl : d = c := Option.some.inj (beq_iff_eq.1 hhead)
          exact ⟨[], r, rfl, .nil, ih hrest⟩
      · rename_i hclose
        have hclose : ∀ p ∈ pairs, c ≠ p.2 := fun p hp e => hclose (List.any_eq_true.2 ⟨p, hp, beq_iff_eq.2 e.symm⟩)
        exact (ih h).other fun p hp => ⟨hopen p hp, hclose p hp⟩

end Closes

/-- Where the check succeeds, the brackets are nested. -/
theorem nested_of_closesAll {t : Text} (h : closesAll pairs [] t = true) : Nested pairs t := closes_of_closesAll h

end CodeAtlas.Text
