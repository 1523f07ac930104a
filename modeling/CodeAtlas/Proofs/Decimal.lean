import CodeAtlas.Decimal.Written
import CodeAtlas.Proofs.Text.Trim
import Mathlib.Algebra.Order.Floor.Semifield
import Mathlib.Data.Nat.Digits.Defs
import Mathlib.Data.Rat.Floor

/-!
# What a written number stands for

A text stands for a whole number when blanks, a sign and groups of digits are all it has, the groups with one underscore between any two.
A double stands for the whole number that is left when its fraction is cut off. Both are said here without the scan of the digits and
without the arithmetic on the bits.
-/

namespace CodeAtlas

namespace Decimal

/-! ## Whole numbers in a text -/

/-- One or more decimal digits of any script. -/
def IsDigits (t : Text) : Prop := t ≠ [] ∧ ∀ c ∈ t, (Text.digitValue? c).isSome

/-- The number that digits make up, the first of them having the greatest weight. -/
def valueOf (t : Text) : Nat := Nat.ofDigits 10 (t.filterMap Text.digitValue?).reverse

/-- A sign, and whether it is that of a negative number. It may be left out. -/
inductive IsSign : Text → Bool → Prop where
  | none : IsSign [] false
  | plus : IsSign ['+'] false
  | minus : IsSign ['-'] true

/-- A text writes a whole number: a sign and groups of digits, with an underscore between any two groups and blanks around the whole. -/
def Writes (t : Text) (n : Int) : Prop :=
  ∃ before after sign negative groups, t = before ++ (sign ++ ['_'].intercalate groups ++ after) ∧
    (∀ c ∈ before, Text.isBlank c = true) ∧ (∀ c ∈ after, Text.isBlank c = true) ∧ IsSign sign negative ∧
    groups ≠ [] ∧ (∀ g ∈ groups, IsDigits g) ∧ n = if negative then -(valueOf groups.flatten : Int) else valueOf groups.flatten

/-- The value of digits, taken from the left. -/
theorem valueOf_eq_foldl (t : Text) : valueOf t = (t.filterMap Text.digitValue?).foldl (fun n d => n * 10 + d) 0 := by
  rw [valueOf, Nat.ofDigits_eq_foldr, List.foldr_reverse]
  congr 1
  funext n d
  rw [Nat.cast_id, Nat.add_comm, Nat.mul_comm]

/-- What is left to scan: digits that continue a number, at least one if a digit is wanted, and groups with an underscore before each. -/
structure GoesOn (wanted : Bool) (t first : Text) (groups : List Text) : Prop where
  text : t = ['_'].intercalate (first :: groups)
  nonempty : wanted = true → first ≠ []
  digits : ∀ c ∈ first, (Text.digitValue? c).isSome
  groups : ∀ g ∈ groups, IsDigits g

namespace GoesOn

variable {wanted : Bool} {r first : Text} {groups : List Text} {c : Char}

/-- Nothing is left to scan. -/
theorem nil : GoesOn false [] [] [] := ⟨by simp, by simp, by simp, by simp⟩

/-- A digit goes in front of the first group. -/
theorem digit (h : GoesOn false r first groups) (hc : (Text.digitValue? c).isSome) (wanted : Bool) :
    GoesOn wanted (c :: r) (c :: first) groups where
  text := by
    rw [h.text]
    cases groups <;> simp [List.intercalate_cons_cons]
  nonempty := by simp
  digits := List.forall_mem_cons.2 ⟨hc, h.digits⟩
  groups := h.groups

/-- An underscore begins another group. -/
theorem underscore (h : GoesOn true r first groups) : GoesOn false ('_' :: r) [] (first :: groups) where
  text := by simp [h.text, List.intercalate_cons_cons]
  nonempty := by simp
  digits := by simp
  groups := List.forall_mem_cons.2 ⟨⟨h.nonempty rfl, h.digits⟩, h.groups⟩

/-- Nothing is left only after a digit. -/
theorem eq_of_nil (h : GoesOn wanted [] first groups) : wanted = false ∧ first = [] ∧ groups = [] := by
  obtain ⟨ht, hne, -, -⟩ := h
  cases groups with
  | cons g gs => simp [List.intercalate_cons_cons] at ht
  | nil =>
    obtain rfl : first = [] := by simpa using ht
    simpa using hne

/-- What is left begins with a digit, or with an underscore where no digit is wanted. -/
theorem cases_cons (h : GoesOn wanted (c :: r) first groups) :
    (∃ first', first = c :: first' ∧ (Text.digitValue? c).isSome ∧ GoesOn false r first' groups) ∨
      wanted = false ∧ c = '_' ∧ first = [] ∧ ∃ g gs, groups = g :: gs ∧ GoesOn true r g gs := by
  obtain ⟨ht, hne, hdigits, hgroups⟩ := h
  cases first with
  | cons c' first =>
    obtain ⟨rfl, hr⟩ : c = c' ∧ r = ['_'].intercalate (first :: groups) := by
      cases groups <;> simpa [List.intercalate_cons_cons] using ht
    obtain ⟨hc, hdigits⟩ := List.forall_mem_cons.1 hdigits
    exact Or.inl ⟨first, rfl, hc, hr, by simp, hdigits, hgroups⟩
  | nil =>
    cases groups with
    | nil => simp at ht
    | cons g gs =>
      obtain ⟨rfl, hr⟩ : c = '_' ∧ r = ['_'].intercalate (g :: gs) := by simpa [List.intercalate_cons_cons] using ht
      obtain ⟨⟨hg, hdigits⟩, hgs⟩ := List.forall_mem_cons.1 hgroups
      exact Or.inr ⟨by simpa using hne, rfl, rfl, g, gs, rfl, hr, fun _ => hg, hdigits, hgs⟩

end GoesOn

/-- Digits are scanned to their end, and the groups of them make up one number. -/
theorem digitsFrom_eq_some_iff {n m : Nat} {wanted : Bool} {t : Text} :
    digitsFrom Text.digitValue? n wanted t = some m ↔
      ∃ first groups, GoesOn wanted t first groups ∧
        m = ((first :: groups).flatten.filterMap Text.digitValue?).foldl (fun n d => n * 10 + d) n := by
  have hunderscore : Text.digitValue? '_' = none := by decide +kernel
  induction t generalizing n wanted with
  | nil =>
    constructor
    · intro h
      cases wanted with
      | true => simp [digitsFrom] at h
      | false => exact ⟨[], [], GoesOn.nil, by simpa [digitsFrom, eq_comm] using h⟩
    · rintro ⟨first, groups, h, rfl⟩
      obtain ⟨rfl, rfl, rfl⟩ := h.eq_of_nil
      rfl
  | cons c r ih =>
    rw [digitsFrom]
    cases hc : Text.digitValue? c with
    | some d =>
      refine ih.trans ⟨?_, ?_⟩
      · rintro ⟨first, groups, h, rfl⟩
        exact ⟨c :: first, groups, h.digit (by rw [hc]; rfl) wanted, by simp [hc]⟩
      · rintro ⟨first, groups, h, rfl⟩
        rcases h.cases_cons with ⟨first, rfl, -, hrest⟩ | ⟨-, rfl, -⟩
        · exact ⟨first, groups, hrest, by simp [hc]⟩
        · rw [hunderscore] at hc
          nomatch hc
    | none =>
      constructor
      · intro h
        dsimp only at h
        split at h
        · rename_i hcond
          obtain ⟨rfl, rfl⟩ : c = '_' ∧ wanted = false := by simpa using hcond
          obtain ⟨first, groups, hrest, rfl⟩ := ih.1 h
          exact ⟨[], first :: groups, hrest.underscore, by simp⟩
        · nomatch h
      · rintro ⟨first, groups, h, rfl⟩
        rcases h.cases_cons with ⟨first, -, hdigit, -⟩ | ⟨rfl, rfl, rfl, g, gs, rfl, hrest⟩
        · rw [hc] at hdigit
          nomatch hdigit
        · exact (if_pos rfl).trans (ih.2 ⟨g, gs, hrest, by simp⟩)

/-- A decimal digit is no blank. -/
theorem isBlank_of_isDigit {c : Char} (h : (Text.digitValue? c).isSome) : Text.isBlank c = false := by
  have hdigit : Text.inRanges Text.digitRanges c = true := by
    obtain ⟨r, hr, hc⟩ : ∃ r ∈ Text.digitRanges, r.1 ≤ c.toNat ∧ c.toNat ≤ r.2 := by
      simpa [Text.digitValue?] using h
    exact List.any_eq_true.2 ⟨r, hr, by simpa using hc⟩
  exact Text.inRanges_eq_false_of_disjoint (by decide +kernel) hdigit

/-- Groups of digits have no blank among them. -/
theorem GoesOn.isBlank_eq_false {wanted : Bool} {t first : Text} {groups : List Text} (h : GoesOn wanted t first groups) :
    ∀ c ∈ t, Text.isBlank c = false := by
  induction t generalizing wanted first groups with
  | nil => simp
  | cons c r ih =>
    rcases h.cases_cons with ⟨first, -, hc, hrest⟩ | ⟨-, rfl, -, g, gs, -, hrest⟩
    · exact List.forall_mem_cons.2 ⟨isBlank_of_isDigit hc, ih hrest⟩
    · exact List.forall_mem_cons.2 ⟨by decide, ih hrest⟩

/-- Where digits begin, there is no sign before them. -/
theorem sign_eq_self {t first : Text} {groups : List Text} (h : GoesOn true t first groups) : sign t = (false, t) := by
  have hsigns : Text.digitValue? '-' = none ∧ Text.digitValue? '+' = none := by decide +kernel
  cases t with
  | nil => nomatch h.eq_of_nil.1
  | cons c r =>
    rcases h.cases_cons with ⟨first, -, hc, -⟩ | ⟨hwanted, -⟩
    · have hminus : c ≠ '-' := by
        rintro rfl
        simp [hsigns.1] at hc
      have hplus : c ≠ '+' := by
        rintro rfl
        simp [hsigns.2] at hc
      unfold sign
      split <;> simp_all
    · nomatch hwanted

/-- A sign is cut off from the digits after it. -/
theorem IsSign.sign_append {s t first : Text} {negative : Bool} {groups : List Text} (hs : IsSign s negative)
    (h : GoesOn true t first groups) : sign (s ++ t) = (negative, t) := by
  cases hs with
  | none => exact sign_eq_self h
  | plus => rfl
  | minus => rfl

/-- What is cut off from the front of a text is a sign. -/
theorem exists_isSign (t : Text) : ∃ s, IsSign s (sign t).1 ∧ t = s ++ (sign t).2 := by
  unfold sign
  split
  · exact ⟨_, IsSign.minus, rfl⟩
  · exact ⟨_, IsSign.plus, rfl⟩
  · exact ⟨_, IsSign.none, rfl⟩

/-- A sign is not blank. -/
theorem IsSign.isBlank_eq_false {s : Text} {negative : Bool} (hs : IsSign s negative) : ∀ c ∈ s, Text.isBlank c = false := by
  cases hs <;> decide

/-- A text is read as its digits, with its sign. -/
theorem whole?_eq_map (t : Text) :
    whole? t = (digitsFrom Text.digitValue? 0 true (sign (Text.strip t)).2).map fun m : Nat =>
      if (sign (Text.strip t)).1 then -(m : Int) else m := by
  rw [whole?]
  dsimp only
  cases digitsFrom Text.digitValue? 0 true (sign (Text.strip t)).2 <;> rfl

/-- The whole number that is read from a text is the one that the text writes. -/
theorem whole?_eq_some_iff {t : Text} {n : Int} : whole? t = some n ↔ Writes t n := by
  rw [whole?_eq_map]
  constructor
  · intro h
    obtain ⟨m, hm, hn⟩ := Option.map_eq_some_iff.1 h
    obtain ⟨first, groups, hgo, rfl⟩ := digitsFrom_eq_some_iff.1 hm
    obtain ⟨before, after, ht, hbefore, hafter⟩ := Text.exists_trim Text.isBlank t
    obtain ⟨s, hs, hstrip⟩ := exists_isSign (Text.strip t)
    refine ⟨before, after, s, _, first :: groups, ?_, hbefore, hafter, hs, by simp, ?_, ?_⟩
    · rw [← hgo.text, ← hstrip]
      exact ht
    · exact List.forall_mem_cons.2 ⟨⟨hgo.nonempty rfl, hgo.digits⟩, hgo.groups⟩
    · rw [valueOf_eq_foldl]
      exact hn.symm
  · rintro ⟨before, after, s, negative, groups, rfl, hbefore, hafter, hs, hne, hgroups, rfl⟩
    obtain ⟨first, rest, rfl⟩ := List.exists_cons_of_ne_nil hne
    obtain ⟨⟨hfirst, hdigits⟩, hrest⟩ := List.forall_mem_cons.1 hgroups
    have hgo : GoesOn true (['_'].intercalate (first :: rest)) first rest := ⟨rfl, fun _ => hfirst, hdigits, hrest⟩
    have hblank : ∀ c ∈ s ++ ['_'].intercalate (first :: rest), Text.isBlank c = false := by
      intro c hc
      exact (List.mem_append.1 hc).elim (hs.isBlank_eq_false c) (hgo.isBlank_eq_false c)
    have hstrip : Text.strip (before ++ (s ++ ['_'].intercalate (first :: rest) ++ after)) = s ++ ['_'].intercalate (first :: rest) := by
      rw [Text.strip, Text.trim_append_left hbefore, Text.trim_append_right hafter]
      exact Text.trim_eq_self (fun c hc => hblank c (List.mem_of_mem_head? hc)) fun c hc => hblank c (List.mem_of_getLast? hc)
    rw [hstrip, hs.sign_append hgo, valueOf_eq_foldl]
    exact Option.map_eq_some_iff.2 ⟨_, digitsFrom_eq_some_iff.2 ⟨first, rest, hgo, rfl⟩, rfl⟩

end Decimal

/-! ## The whole part of a double -/

namespace Dyadic

/-- The number without its sign. -/
def magnitude (v : Dyadic) : ℚ := v.mantissa * 2 ^ v.exponent

/-- The whole number that is left when the fraction of a number is cut off. -/
def HasWholePart (v : Dyadic) (n : Int) : Prop :=
  ∃ m : Nat, (m : ℚ) ≤ v.magnitude ∧ v.magnitude < m + 1 ∧ n = if v.negative then -(m : Int) else m

/-- A magnitude is a quotient of whole numbers, one of the powers of two being one. -/
theorem magnitude_eq_div (v : Dyadic) :
    v.magnitude = ((v.mantissa * twoTo v.exponent.toNat : Nat) : ℚ) / (twoTo (-v.exponent).toNat : Nat) := by
  obtain ⟨negative, mantissa, e | e⟩ := v
  · simp [magnitude, twoTo]
  · simp [magnitude, twoTo, zpow_negSucc, div_eq_mul_inv]

/-- The whole part of a magnitude is a quotient of whole numbers. -/
theorem floor_magnitude (v : Dyadic) : ⌊v.magnitude⌋₊ = v.mantissa * twoTo v.exponent.toNat / twoTo (-v.exponent).toNat := by
  rw [magnitude_eq_div, Nat.floor_div_eq_div]

/-- A magnitude is not negative. -/
theorem magnitude_nonneg (v : Dyadic) : 0 ≤ v.magnitude := by
  rw [magnitude_eq_div]
  positivity

end Dyadic

namespace Binary64

/-- A double is cut off to the whole part of its exact value. -/
theorem truncate?_eq_some_iff {x : Binary64} {n : Int} : x.truncate? = some n ↔ ∃ v, x.toDyadic? = some v ∧ v.HasWholePart n := by
  rw [truncate?, Option.map_eq_some_iff]
  refine exists_congr fun v => and_congr_right fun _ => ?_
  rw [← v.floor_magnitude]
  constructor
  · rintro rfl
    exact ⟨_, Nat.floor_le v.magnitude_nonneg, Nat.lt_floor_add_one _, rfl⟩
  · rintro ⟨m, hle, hlt, rfl⟩
    rw [(Nat.floor_eq_iff v.magnitude_nonneg).2 ⟨hle, hlt⟩]

/-- A double is finite where it has an exact value. -/
theorem toDyadic?_isSome_iff {x : Binary64} : x.toDyadic?.isSome ↔ x.isNan = false ∧ x.isInfinite = false := by
  rw [toDyadic?, isNan, isInfinite]
  split
  · rename_i h
    simp
    omega
  · rename_i h
    simp
    omega

end Binary64

end CodeAtlas
