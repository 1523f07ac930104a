import CodeAtlas.Text.Basic

/-!
# Declarations and the braces of a text

The body of a declaration begins at the first brace after its header, unless a semicolon comes first, and ends where this brace is
closed. Here the braces of a text are read one after another, and with them the declarations whose bodies they open and close. What a
line does to them is told by two numbers: how many of the braces that are open before the line it closes, and how many of its own braces
it leaves open.
-/

namespace CodeAtlas

namespace Text

/-- How many more braces than it has opened a text closes, at the place where these are most. -/
def dip : Text → Nat
  | [] => 0
  | c :: r => if c = '{' then dip r - 1 else if c = '}' then dip r + 1 else dip r

/-- How many of the braces that a text opens are open at its end. -/
def rise : Text → Nat
  | [] => 0
  | c :: r => if c = '{' ∧ dip r = 0 then rise r + 1 else rise r

section Braces

variable {r : Text}

@[simp]
theorem dip_open : dip ('{' :: r) = dip r - 1 := rfl

@[simp]
theorem dip_close : dip ('}' :: r) = dip r + 1 := rfl

/-- Another character changes nothing about it. -/
theorem dip_other {c : Char} (hopen : c ≠ '{') (hclose : c ≠ '}') : dip (c :: r) = dip r := by rw [dip, if_neg hopen, if_neg hclose]

@[simp]
theorem rise_open : rise ('{' :: r) = if dip r = 0 then rise r + 1 else rise r := by simp [rise]

theorem rise_other {c : Char} (hopen : c ≠ '{') : rise (c :: r) = rise r := by simp [rise, hopen]

@[simp]
theorem rise_close : rise ('}' :: r) = rise r := rise_other (by decide)

/-- The net change of the depth. -/
theorem count_sub_count (code : Text) : (code.count '{' : Int) - code.count '}' = rise code - dip code := by
  induction code with
  | nil => rfl
  | cons c r ih =>
    by_cases hopen : c = '{'
    · subst hopen
      rw [List.count_cons_self, List.count_cons_of_ne (by decide), dip_open, rise_open]
      split <;> omega
    · by_cases hclose : c = '}'
      · subst hclose
        rw [List.count_cons_self, List.count_cons_of_ne (by decide), dip_close, rise_close]
        omega
      · rw [List.count_cons_of_ne hopen, List.count_cons_of_ne hclose, dip_other hopen hclose, rise_other hopen, ih]

/-- A bound on the dip is one on every part of the text from its beginning. -/
theorem dip_le_iff {code : Text} {k : Nat} : dip code ≤ k ↔ ∀ n, (code.take n).count '}' ≤ (code.take n).count '{' + k := by
  induction code generalizing k with
  | nil => simp [dip]
  | cons c r ih =>
    have hsucc : (∀ n, ((c :: r).take n).count '}' ≤ ((c :: r).take n).count '{' + k) ↔
        ∀ n, (c :: r.take n).count '}' ≤ (c :: r.take n).count '{' + k := by
      refine ⟨fun h n => by simpa using h (n + 1), fun h n => ?_⟩
      cases n with
      | zero => simp
      | succ n => simpa using h n
    rw [hsucc]
    by_cases hopen : c = '{'
    · subst hopen
      have hle : dip r - 1 ≤ k ↔ dip r ≤ k + 1 := by omega
      simp only [dip_open, hle, ih, List.count_cons_self, List.count_cons_of_ne (show '{' ≠ '}' by decide), Nat.add_right_comm,
        Nat.add_assoc]
    · by_cases hclose : c = '}'
      · subst hclose
        simp only [dip_close, List.count_cons_self, List.count_cons_of_ne (show '}' ≠ '{' by decide)]
        cases k with
        | zero => exact iff_of_false (by omega) fun h => absurd (h 0) (by simp)
        | succ k => simp only [← Nat.add_assoc, Nat.add_le_add_iff_right, ih]
      · simp only [dip_other hopen hclose, ih, List.count_cons_of_ne hopen, List.count_cons_of_ne hclose]

/-- The braces that the first part leaves open are there for the second part to close. -/
theorem dip_append (a b : Text) : dip (a ++ b) = dip a + (dip b - rise a) ∧ rise (a ++ b) = rise b + (rise a - dip b) := by
  induction a with
  | nil => simp [dip, rise]
  | cons c r ih =>
    obtain ⟨hdip, hrise⟩ := ih
    rw [List.cons_append]
    by_cases hopen : c = '{'
    · subst hopen
      rw [dip_open, rise_open, dip_open, rise_open, hdip, hrise]
      split <;> split <;> omega
    · by_cases hclose : c = '}'
      · subst hclose
        rw [dip_close, rise_close, dip_close, rise_close, hdip, hrise]
        omega
      · rw [dip_other hopen hclose, rise_other hopen, dip_other hopen hclose, rise_other hopen]
        exact ⟨hdip, hrise⟩

end Braces

end Text

open Text

/-! ## Nesting -/

/-- The braces that are open at a place in a text, the innermost first, each with the declarations whose body it begins, and the
declarations whose headers wait for their braces, the last first. -/
structure Nesting (α : Type) where
  braces : List (List α) := []
  waiting : List α := []

variable {α : Type}

namespace Nesting

/-- Enters a declaration at its header. -/
def enter (n : Nesting α) : Option α → Nesting α
  | none => n
  | some d => { n with waiting := d :: n.waiting }

/-- Reads a character: a brace that is opened is the one that headers have waited for, a semicolon ends the wait. -/
def next (n : Nesting α) (c : Char) : Nesting α :=
  if c = '{' then { braces := n.waiting :: n.braces }
  else if c = '}' then { n with braces := n.braces.tail }
  else if c = ';' then { n with waiting := [] }
  else n

/-- Reads a line of code. -/
def read (n : Nesting α) (code : Text) : Nesting α := code.foldl next n

/-- The declarations whose body has not been opened yet, or not been closed yet, the innermost first. -/
def around (n : Nesting α) : List α := n.waiting ++ n.braces.flatten

/-- The declarations around a place, the outermost first. -/
def enclosing (n : Nesting α) : List α := n.around.reverse

/-- The innermost declaration around a place, if the innermost open brace is that of its body. -/
def owner (n : Nesting α) : Option α := if n.waiting.isEmpty then n.braces.head?.bind List.head? else none

/-! ## Reading a line -/

/-- A character that is neither an opening brace nor a semicolon. -/
def isBefore (c : Char) : Bool := c != '{' && c != ';'

/-- What a line does with headers that wait. -/
inductive Fate where
  | waits
  /-- Their body is opened, and open at the end of the line. -/
  | opens
  /-- They are ended by a semicolon, or their body is opened and closed. -/
  | ends
  deriving DecidableEq

/-- The fate of the headers that wait before a line of code. -/
def fate (code : Text) : Fate :=
  match code.dropWhile isBefore with
  | [] => .waits
  | c :: r => if c = '{' ∧ dip r = 0 then .opens else .ends

variable {braces : List (List α)} {waiting : List α} {code : Text}

/-- To read two texts is to read the first and then the second. -/
theorem read_append (n : Nesting α) (a b : Text) : n.read (a ++ b) = (n.read a).read b := List.foldl_append

/-- Without headers that wait, a line closes braces and then opens others. -/
theorem read_of_nil (h : dip code ≤ braces.length) :
    ({ braces } : Nesting α).read code = { braces := List.replicate (rise code) [] ++ braces.drop (dip code) } := by
  induction code generalizing braces with
  | nil => rfl
  | cons c r ih =>
    show (next { braces } c).read r = _
    by_cases hopen : c = '{'
    · subst hopen
      rw [dip_open] at h
      show ({ braces := [] :: braces } : Nesting α).read r = _
      rw [ih (by rw [List.length_cons]; omega), rise_open, dip_open]
      by_cases hdip : dip r = 0
      · rw [if_pos hdip, hdip, List.replicate_succ', List.append_assoc]
        rfl
      · obtain ⟨k, hk⟩ := Nat.exists_eq_succ_of_ne_zero hdip
        rw [if_neg hdip, hk]
        rfl
    · by_cases hclose : c = '}'
      · subst hclose
        rw [dip_close] at h
        show ({ braces := braces.tail } : Nesting α).read r = _
        rw [ih (by rw [List.length_tail]; omega), rise_close, dip_close, List.drop_tail]
      · have hnext : next { braces } c = ({ braces } : Nesting α) := by simp [next, hopen, hclose]
        rw [dip_other hopen hclose] at h
        rw [hnext, ih h, rise_other hopen, dip_other hopen hclose]

/-- As long as no brace is opened and no semicolon comes, headers wait. -/
theorem read_before (h : ∀ c ∈ code, isBefore c) :
    ({ braces, waiting } : Nesting α).read code = { braces := braces.drop (dip code), waiting } := by
  induction code generalizing braces with
  | nil => rfl
  | cons c r ih =>
    have hc := h c List.mem_cons_self
    have hr := fun c' hc' => h c' (List.mem_cons_of_mem c hc')
    show (next { braces, waiting } c).read r = _
    by_cases hclose : c = '}'
    · subst hclose
      show ({ braces := braces.tail, waiting } : Nesting α).read r = _
      rw [ih hr, dip_close, List.drop_tail]
    · simp only [isBefore, Bool.and_eq_true, bne_iff_ne] at hc
      have hnext : next { braces, waiting } c = { braces, waiting } := by simp [next, hc, hclose]
      rw [hnext, ih hr, dip_other hc.1 hclose]

/-- Nothing is opened before a mark. -/
theorem rise_before (h : ∀ c ∈ code, isBefore c) : rise code = 0 := by
  induction code with
  | nil => rfl
  | cons c r ih =>
    have hc := h c List.mem_cons_self
    simp only [isBefore, Bool.and_eq_true, bne_iff_ne] at hc
    rw [rise_other hc.1]
    exact ih fun c' hc' => h c' (List.mem_cons_of_mem c hc')

/-- Before a mark nothing is closed exactly if there is no closing brace. -/
theorem dip_before_eq_zero_iff (h : ∀ c ∈ code, isBefore c) : dip code = 0 ↔ '}' ∉ code := by
  induction code with
  | nil => simp [dip]
  | cons c r ih =>
    have hc := h c List.mem_cons_self
    simp only [isBefore, Bool.and_eq_true, bne_iff_ne] at hc
    by_cases hclose : c = '}'
    · subst hclose
      simp
    · rw [dip_other hc.1 hclose, ih fun c' hc' => h c' (List.mem_cons_of_mem c hc')]
      simp [Ne.symm hclose]

/-- The headers that wait before a line wait on, or else it is a brace or a semicolon that decides on them. -/
theorem fate_cases (code : Text) :
    (fate code = .waits ∧ ∀ c ∈ code, isBefore c) ∨
      ∃ pre c r, code = pre ++ c :: r ∧ code.takeWhile isBefore = pre ∧ (∀ c ∈ pre, isBefore c) ∧
        ((c = '{' ∧ dip r = 0 ∧ fate code = .opens) ∨ (c = '{' ∧ dip r ≠ 0 ∧ fate code = .ends) ∨ (c = ';' ∧ fate code = .ends)) := by
  have happend := List.takeWhile_append_dropWhile (p := isBefore) (l := code)
  have hpre : ∀ c ∈ code.takeWhile isBefore, isBefore c := List.all_eq_true.1 List.all_takeWhile
  unfold fate
  cases hrest : code.dropWhile isBefore with
  | nil =>
    rw [hrest, List.append_nil] at happend
    exact Or.inl ⟨rfl, happend ▸ hpre⟩
  | cons c r =>
    rw [hrest] at happend
    refine Or.inr ⟨_, c, r, happend.symm, rfl, hpre, ?_⟩
    have hc : c = '{' ∨ c = ';' := by
      have hstop := List.head_dropWhile_not isBefore (l := code) (by simp [hrest])
      simpa [hrest, isBefore, Classical.or_iff_not_imp_left] using hstop
    rcases hc with rfl | rfl
    · by_cases hdip : dip r = 0
      · exact Or.inl ⟨rfl, hdip, by simp [hdip]⟩
      · exact Or.inr (Or.inl ⟨rfl, hdip, by simp [hdip]⟩)
    · exact Or.inr (Or.inr ⟨rfl, by simp⟩)

/-- A line on which headers go on waiting has no mark. -/
theorem before_of_waits (hfate : fate code = .waits) : ∀ c ∈ code, isBefore c := by
  rcases fate_cases code with ⟨-, hcode⟩ | ⟨-, -, -, -, -, -, ⟨-, -, hother⟩ | ⟨-, -, hother⟩ | ⟨-, hother⟩⟩
  · exact hcode
  all_goals nomatch hfate.symm.trans hother

/-- A line that ends the headers that wait does with the braces what it does without these headers. -/
theorem read_of_ends (hfate : fate code = .ends) (h : dip code ≤ braces.length) :
    ({ braces, waiting } : Nesting α).read code = ({ braces } : Nesting α).read code := by
  rcases fate_cases code with ⟨hwaits, -⟩ | ⟨pre, c, r, rfl, -, hpre, hcases⟩
  · rw [hfate] at hwaits
    nomatch hwaits
  · have hread : ∀ waiting, ({ braces, waiting } : Nesting α).read (pre ++ c :: r) =
        (next { braces := braces.drop (dip pre), waiting } c).read r := by
      intro waiting
      rw [read_append, read_before hpre]
      rfl
    rw [hread, hread]
    rcases hcases with ⟨-, -, hopens⟩ | ⟨rfl, hdip, -⟩ | ⟨rfl, -⟩
    · rw [hfate] at hopens
      nomatch hopens
    · obtain ⟨k, hk⟩ := Nat.exists_eq_succ_of_ne_zero hdip
      have hle : ∀ ds : List α, dip r ≤ (ds :: braces.drop (dip pre)).length := by
        intro ds
        rw [(dip_append pre _).1, rise_before hpre, dip_open] at h
        rw [List.length_cons, List.length_drop]
        omega
      show ({ braces := waiting :: braces.drop (dip pre) } : Nesting α).read r =
        ({ braces := [] :: braces.drop (dip pre) } : Nesting α).read r
      rw [read_of_nil (hle _), read_of_nil (hle _), hk]
      rfl
    · rfl

/-- A line leaves as many braces open as it does not close, and those that it opens. -/
theorem length_read (n : Nesting α) (h : dip code ≤ n.braces.length) :
    (n.read code).braces.length = n.braces.length - dip code + rise code := by
  induction code generalizing n with
  | nil => simp [read, dip, rise]
  | cons c r ih =>
    show ((n.next c).read r).braces.length = _
    by_cases hopen : c = '{'
    · subst hopen
      have hlength : (n.next '{').braces.length = n.braces.length + 1 := rfl
      rw [dip_open] at h
      rw [ih _ (by omega), hlength, dip_open, rise_open]
      split <;> omega
    · by_cases hclose : c = '}'
      · subst hclose
        have hlength : (n.next '}').braces.length = n.braces.length - 1 := List.length_tail
        rw [dip_close] at h
        rw [ih _ (by omega), hlength, dip_close, rise_close]
        omega
      · have hbraces : (n.next c).braces = n.braces := by
          simp only [next, if_neg hopen, if_neg hclose]
          split <;> rfl
        rw [dip_other hopen hclose] at h
        rw [ih _ (by rwa [hbraces]), hbraces, dip_other hopen hclose, rise_other hopen]

@[simp]
theorem braces_enter (n : Nesting α) (entered : Option α) : (n.enter entered).braces = n.braces := by cases entered <;> rfl

/-- A declaration that is entered is around. -/
theorem around_enter (n : Nesting α) (entered : Option α) : (n.enter entered).around = entered.toList ++ n.around := by
  cases entered <;> rfl

/-- Reading takes declarations away and leaves the others in their order. -/
theorem around_read_sublist (n : Nesting α) (code : Text) : (n.read code).around.Sublist n.around := by
  refine List.foldlRecOn (motive := fun n' => n'.around.Sublist n.around) code next (List.Sublist.refl _) fun n' h c _ => ?_
  refine List.Sublist.trans ?_ h
  unfold next
  split
  · exact List.Sublist.refl _
  · split
    · refine List.Sublist.append_left ?_ _
      cases n'.braces with
      | nil => exact List.Sublist.refl _
      | cons ds below => exact List.sublist_append_right ds below.flatten
    · split
      · exact List.sublist_append_right n'.waiting n'.braces.flatten
      · exact List.Sublist.refl _

end Nesting

end CodeAtlas
