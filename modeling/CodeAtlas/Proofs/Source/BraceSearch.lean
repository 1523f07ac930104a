import CodeAtlas.Proofs.Source.Block
import CodeAtlas.Proofs.Source.Nesting

/-!
# The search for a closing brace

The end of a declaration is searched from its line on, until the brace is closed that is opened first. Two searches are compared here:
that of a declaration whose brace is open, and that of another one which begins within it. The second ends first where a brace is opened
or a semicolon stands before the first brace that is closed; else it runs past the end of the first.
-/

namespace CodeAtlas

open Text

/-- The code of some lines. -/
def Noise.code (noise : Noise) (lines : List Text) : Text := lines.flatMap noise.strip

namespace Block

/-- Whether a character means anything to the search. -/
def isMark (c : Char) : Bool := c == '{' || c == '}' || c == ';'

namespace BraceScan

variable {s s' : BraceScan} {code : Text}

theorem line_open (s : BraceScan) (r : Text) : s.line ('{' :: r) = line { depth := s.depth + 1, opened := true } r := rfl

/-- A closing brace takes it one higher, if it is not the last. -/
theorem line_close (h : ¬ (s.opened ∧ s.depth - 1 ≤ 0)) (r : Text) : s.line ('}' :: r) = line { s with depth := s.depth - 1 } r := by
  show (if _ then none else _) = _
  rw [if_neg h]

/-- The last closing brace ends the search. -/
theorem line_close_last (h : s.opened ∧ s.depth - 1 ≤ 0) (r : Text) : s.line ('}' :: r) = none := by
  show (if _ then none else _) = _
  rw [if_pos h]

/-- Another character does not matter, unless it is a semicolon before the body. -/
theorem line_other {c : Char} (hopen : c ≠ '{') (hclose : c ≠ '}') (h : ¬ (c = ';' ∧ !s.opened)) (r : Text) :
    s.line (c :: r) = s.line r := by
  rw [line, if_neg hopen, if_neg hclose, if_neg h]

/-- A semicolon before the body ends the search. -/
theorem line_semicolon (h : s.opened = false) (r : Text) : s.line (';' :: r) = none := by
  show (if _ then none else _) = _
  rw [if_pos (by simp [h])]

/-- What a search does with a character. -/
theorem line_cons_cases (s : BraceScan) (c : Char) :
    (∀ r, s.line (c :: r) = none) ∨
      ∃ s' : BraceScan, (∀ r, s.line (c :: r) = s'.line r) ∧
        ((c = '{' ∧ s' = { depth := s.depth + 1, opened := true }) ∨ (c = '}' ∧ s' = { s with depth := s.depth - 1 }) ∨
          (c ≠ '{' ∧ c ≠ '}' ∧ (c = ';' → s.opened = true) ∧ s' = s)) := by
  by_cases hopen : c = '{'
  · subst hopen
    exact Or.inr ⟨_, line_open s, Or.inl ⟨rfl, rfl⟩⟩
  · by_cases hclose : c = '}'
    · subst hclose
      by_cases hlast : s.opened ∧ s.depth - 1 ≤ 0
      · exact Or.inl (line_close_last hlast)
      · exact Or.inr ⟨_, line_close hlast, Or.inr (Or.inl ⟨rfl, rfl⟩)⟩
    · by_cases hend : c = ';' ∧ !s.opened
      · obtain ⟨rfl, hopened⟩ := hend
        exact Or.inl (line_semicolon (by simpa using hopened))
      · exact Or.inr ⟨s, line_other hopen hclose hend, Or.inr (Or.inr ⟨hopen, hclose, fun hc => by simpa [hc] using hend, rfl⟩)⟩

/-- To search two texts is to search the first and then the second. -/
theorem line_append (s : BraceScan) (a b : Text) : s.line (a ++ b) = (s.line a).bind (·.line b) := by
  induction a generalizing s with
  | nil => rfl
  | cons c r ih =>
    rcases line_cons_cases s c with hnone | ⟨s', hnext, -⟩
    · rw [List.cons_append, hnone, hnone]
      rfl
    · rw [List.cons_append, hnext, hnext, ih]

/-- Text without marks does not matter. -/
theorem line_of_no_mark (h : ∀ c ∈ code, isMark c = false) : s.line code = some s := by
  induction code with
  | nil => rfl
  | cons c r ih =>
    have hc := h c List.mem_cons_self
    simp only [isMark, Bool.or_eq_false_iff, beq_eq_false_iff_ne] at hc
    rw [line_other hc.1.1 hc.1.2 fun hend => hc.2 hend.1]
    exact ih fun c' hc' => h c' (List.mem_cons_of_mem c hc')

/-- A search looks at a line from its first mark on. -/
theorem exists_line_eq_of_find? {c : Char} (h : code.find? isMark = some c) : ∃ r, ∀ s : BraceScan, s.line code = s.line (c :: r) := by
  obtain ⟨-, pre, r, rfl, hpre⟩ := List.find?_eq_some_iff_append.1 h
  have hnone : ∀ c ∈ pre, isMark c = false := fun c hc => by simpa using hpre c hc
  refine ⟨r, fun s => ?_⟩
  rw [line_append, line_of_no_mark hnone, Option.bind_some]

/-- Text before an opening brace or a semicolon does not matter, if it closes nothing. -/
theorem line_of_before (h : ∀ c ∈ code, Nesting.isBefore c) (hclose : '}' ∉ code) : s.line code = some s := by
  refine line_of_no_mark fun c hc => ?_
  have hbefore := h c hc
  have hne : c ≠ '}' := fun heq => hclose (heq ▸ hc)
  simp only [Nesting.isBefore, Bool.and_eq_true, bne_iff_ne] at hbefore
  simp [isMark, hbefore, hne]

/-- A search that goes on has counted the braces, and as long as it has seen none opened, it has passed no semicolon either. -/
theorem of_line_eq_some (h : s.line code = some s') :
    s'.depth = s.depth + ((code.count '{' : Int) - code.count '}') ∧
      (s'.opened = false → s.opened = false ∧ ∀ c ∈ code, Nesting.isBefore c) := by
  induction code generalizing s with
  | nil =>
    cases h
    simp
  | cons c r ih =>
    rcases line_cons_cases s c with hnone | ⟨next, hnext, ⟨rfl, rfl⟩ | ⟨rfl, rfl⟩ | ⟨hopen, hclose, hsemicolon, rfl⟩⟩
    · rw [hnone] at h
      nomatch h
    · rw [hnext] at h
      obtain ⟨hdepth, hopened⟩ := ih h
      refine ⟨?_, fun hfalse => nomatch (hopened hfalse).1⟩
      rw [hdepth, List.count_cons_self, List.count_cons_of_ne (by decide)]
      dsimp only
      omega
    · rw [hnext] at h
      obtain ⟨hdepth, hopened⟩ := ih h
      refine ⟨?_, fun hfalse => ⟨(hopened hfalse).1, List.forall_mem_cons.2 ⟨by decide, (hopened hfalse).2⟩⟩⟩
      rw [hdepth, List.count_cons_self, List.count_cons_of_ne (by decide)]
      dsimp only
      omega
    · rw [hnext] at h
      obtain ⟨hdepth, hopened⟩ := ih h
      refine ⟨?_, fun hfalse => ⟨(hopened hfalse).1, List.forall_mem_cons.2 ⟨?_, (hopened hfalse).2⟩⟩⟩
      · rw [hdepth, List.count_cons_of_ne hopen, List.count_cons_of_ne hclose]
      · have hother : c ≠ ';' := fun hc => nomatch (hsemicolon hc).symm.trans (hopened hfalse).1
        simp [Nesting.isBefore, hopen, hother]

/-- Once a body is open, it has been open from then on. -/
theorem opened_of_line (h : s.line code = some s') (hopened : s.opened = true) : s'.opened = true := by
  cases hclosed : s'.opened with
  | true => rfl
  | false => nomatch hopened.symm.trans ((of_line_eq_some h).2 hclosed).1

/-- A search whose brace is open ends no later than one that is a brace further out. -/
theorem line_nested (code : Text) {depth : Int} (h : 1 ≤ depth) :
    line { depth, opened := true } code = none ∨ ∃ depth', 1 ≤ depth' ∧
      line { depth, opened := true } code = some { depth := depth', opened := true } ∧
      line { depth := depth + 1, opened := true } code = some { depth := depth' + 1, opened := true } := by
  induction code generalizing depth with
  | nil => exact Or.inr ⟨depth, h, rfl, rfl⟩
  | cons c r ih =>
    by_cases hopen : c = '{'
    · subst hopen
      rw [line_open, line_open]
      exact ih (Int.le_add_one h)
    · by_cases hclose : c = '}'
      · subst hclose
        by_cases hlast : depth - 1 ≤ 0
        · exact Or.inl (line_close_last ⟨rfl, hlast⟩ r)
        · have houter : depth + 1 - 1 = depth - 1 + 1 := by omega
          have hgoes : ¬ (true = true ∧ depth + 1 - 1 ≤ 0) := fun hend => hlast (by omega)
          rw [line_close fun hend => hlast hend.2, line_close hgoes]
          dsimp only
          rw [houter]
          exact ih (by omega)
      · rw [line_other hopen hclose (by simp), line_other hopen hclose (by simp)]
        exact ih h

/-- Without an opening brace and a semicolon, a search that has seen no brace goes on. -/
theorem exists_line_of_before (hopened : s.opened = false) (h : ∀ c ∈ code, Nesting.isBefore c) :
    ∃ s', s.line code = some s' ∧ s'.opened = false := by
  induction code generalizing s with
  | nil => exact ⟨s, rfl, hopened⟩
  | cons c r ih =>
    obtain ⟨hc, hr⟩ := List.forall_mem_cons.1 h
    by_cases hclose : c = '}'
    · subst hclose
      rw [line_close (by simp [hopened])]
      exact ih hopened hr
    · simp only [Nesting.isBefore, Bool.and_eq_true, bne_iff_ne] at hc
      rw [line_other hc.1 hclose fun hend => hc.2 hend.1]
      exact ih hopened hr

/-- A search whose brace is open ends at the first brace that is closed. -/
theorem line_of_close (h : ∀ c ∈ code, Nesting.isBefore c) (hclose : '}' ∈ code) : line { depth := 1, opened := true } code = none := by
  induction code with
  | nil => nomatch hclose
  | cons c r ih =>
    obtain ⟨hc, hr⟩ := List.forall_mem_cons.1 h
    by_cases hfirst : c = '}'
    · subst hfirst
      exact line_close_last (by decide) r
    · simp only [Nesting.isBefore, Bool.and_eq_true, bne_iff_ne] at hc
      rw [line_other hc.1 hfirst (by simp)]
      exact ih hr ((List.mem_cons.1 hclose).resolve_left (Ne.symm hfirst))

end BraceScan

/-- On the lines from one on, a brace is opened or a semicolon stands before a brace is closed. -/
def EndsBeforeClose (noise : Noise) (lines : List Text) (line : Nat) : Prop := (noise.code (lines.drop (line - 1))).find? isMark ≠ some '}'

/-- Whether a header ends before it closes a brace is decided by its code. -/
instance (noise : Noise) (lines : List Text) (line : Nat) : Decidable (EndsBeforeClose noise lines line) :=
  inferInstanceAs (Decidable (_ ≠ _))

/-- On the lines from one on, a brace is closed before one is opened or a semicolon stands, and the first of these is on a later line
than the closing brace. -/
def RunsPastClose (noise : Noise) (lines : List Text) (line : Nat) : Prop :=
  ∃ k, (∀ c ∈ noise.code ((lines.drop (line - 1)).take k), Nesting.isBefore c) ∧ '}' ∈ noise.code ((lines.drop (line - 1)).take k) ∧
    ∃ c ∈ noise.code ((lines.drop (line - 1)).drop k), Nesting.isBefore c = false

variable {code : Text → Text} {lines : List Text} {line at_ : Nat} {s s' : BraceScan} {rest : List Text}

/-- A line that ends the search is the end. -/
theorem braceEndBy_go_cons_of_none {l : Text} (h : s.line (code l) = none) : braceEndBy.go code lines line s at_ (l :: rest) = at_ := by
  rw [braceEndBy.go, h]

/-- A line that does not end it is passed. -/
theorem braceEndBy_go_cons_of_some {l : Text} (h : s.line (code l) = some s') :
    braceEndBy.go code lines line s at_ (l :: rest) = braceEndBy.go code lines line s' (at_ + 1) rest := by
  rw [braceEndBy.go, h]

/-- The lines that a search has passed decide on the state in which it reads the others. -/
theorem braceEndBy_go_of_some {k : Nat} (hk : k ≤ rest.length) (h : s.line ((rest.take k).flatMap code) = some s') :
    braceEndBy.go code lines line s at_ rest = braceEndBy.go code lines line s' (at_ + k) (rest.drop k) := by
  induction k generalizing s at_ rest with
  | zero =>
    cases h
    rfl
  | succ k ih =>
    cases rest with
    | nil => nomatch hk
    | cons l ls =>
      rw [List.take_succ_cons, List.flatMap_cons, BraceScan.line_append, Option.bind_eq_some_iff] at h
      obtain ⟨next, hnext, hrest⟩ := h
      rw [braceEndBy_go_cons_of_some hnext, List.drop_succ_cons, Nat.add_comm k 1, ← Nat.add_assoc]
      exact ih (Nat.le_of_succ_le_succ hk) hrest

/-- A search that is over on some lines has ended on one of them. -/
theorem braceEndBy_go_of_none {k : Nat} (h : s.line ((rest.take k).flatMap code) = none) :
    braceEndBy.go code lines line s at_ rest < at_ + k := by
  induction k generalizing s at_ rest with
  | zero => nomatch h
  | succ k ih =>
    cases rest with
    | nil => nomatch h
    | cons l ls =>
      rw [List.take_succ_cons, List.flatMap_cons, BraceScan.line_append] at h
      cases hnext : s.line (code l) with
      | none =>
        rw [braceEndBy_go_cons_of_none hnext]
        omega
      | some next =>
        rw [hnext] at h
        have hlt : braceEndBy.go code lines line next (at_ + 1) ls < at_ + 1 + k := ih h
        rw [braceEndBy_go_cons_of_some hnext]
        omega

/-- A search whose brace is open ends on the lines that are left. -/
theorem le_braceEndBy_go (hopened : s.opened = true) (hrest : rest ≠ []) (hlength : at_ + rest.length = lines.length + 1) :
    at_ ≤ braceEndBy.go code lines line s at_ rest := by
  induction rest generalizing s at_ with
  | nil => exact absurd rfl hrest
  | cons l ls ih =>
    rw [List.length_cons] at hlength
    cases hnext : s.line (code l) with
    | none => exact Nat.le_of_eq (braceEndBy_go_cons_of_none hnext).symm
    | some next =>
      have hnext' := BraceScan.opened_of_line hnext hopened
      rw [braceEndBy_go_cons_of_some hnext]
      cases ls with
      | nil =>
        rw [List.length_nil] at hlength
        simp only [braceEndBy.go, hnext', if_true]
        omega
      | cons m ms => exact Nat.le_of_succ_le (ih hnext' (List.cons_ne_nil m ms) (by omega))

/-- A block within another one ends on the same line or before. -/
theorem braceEndBy_go_nested {line' : Nat} {depth : Int} (h : 1 ≤ depth) (hlength : at_ + rest.length = lines.length + 1) :
    braceEndBy.go code lines line { depth, opened := true } at_ rest ≤
      braceEndBy.go code lines line' { depth := depth + 1, opened := true } at_ rest := by
  induction rest generalizing at_ depth with
  | nil => exact Nat.le_refl _
  | cons l ls ih =>
    rcases BraceScan.line_nested (code l) h with hnone | ⟨depth', hdepth', hinner, houter⟩
    · rw [braceEndBy_go_cons_of_none hnone]
      exact le_braceEndBy_go rfl (List.cons_ne_nil l ls) hlength
    · rw [braceEndBy_go_cons_of_some hinner, braceEndBy_go_cons_of_some houter]
      rw [List.length_cons] at hlength
      exact ih hdepth' (by omega)

/-- A declaration that begins where the brace of another one is the innermost, ends within it if a brace is opened or a semicolon
stands before the next brace that is closed. -/
theorem braceEndBy_go_le_of_mark {line' : Nat} (hline : line ≤ lines.length) (hlength : at_ + rest.length = lines.length + 1)
    (h : (rest.flatMap code).find? isMark ≠ some '}') :
    braceEndBy.go code lines line {} at_ rest ≤ braceEndBy.go code lines line' { depth := 1, opened := true } at_ rest := by
  induction rest generalizing at_ with
  | nil => exact hline
  | cons l ls ih =>
    rw [List.flatMap_cons, List.find?_append] at h
    have hlower : at_ ≤ braceEndBy.go code lines line' { depth := 1, opened := true } at_ (l :: ls) :=
      le_braceEndBy_go rfl (List.cons_ne_nil l ls) hlength
    rw [List.length_cons] at hlength
    cases hmark : (code l).find? isMark with
    | none =>
      have hnone : ∀ c ∈ code l, isMark c = false := fun c hc => Bool.eq_false_iff.2 (List.find?_eq_none.1 hmark c hc)
      rw [hmark, Option.none_or] at h
      rw [braceEndBy_go_cons_of_some (BraceScan.line_of_no_mark hnone), braceEndBy_go_cons_of_some (BraceScan.line_of_no_mark hnone)]
      exact ih (by omega) h
    | some c =>
      rw [hmark, Option.some_or] at h
      obtain ⟨r, hr⟩ := BraceScan.exists_line_eq_of_find? hmark
      have hcases : c = '{' ∨ c = ';' := by
        have hc := List.find?_some hmark
        simp only [isMark, Bool.or_eq_true, beq_iff_eq] at hc
        exact hc.imp_left fun hc => hc.resolve_right fun heq => h (congrArg some heq)
      rcases hcases with rfl | rfl
      · have hinner : BraceScan.line {} (code l) = BraceScan.line { depth := 1, opened := true } r := hr {}
        have houter : BraceScan.line { depth := 1, opened := true } (code l) =
            BraceScan.line { depth := 1 + 1, opened := true } r := hr { depth := 1, opened := true }
        rcases BraceScan.line_nested r (Int.le_refl 1) with hend | ⟨depth, hdepth, hend, hend'⟩
        · rw [braceEndBy_go_cons_of_none (hinner.trans hend)]
          exact hlower
        · rw [braceEndBy_go_cons_of_some (hinner.trans hend), braceEndBy_go_cons_of_some (houter.trans hend')]
          exact braceEndBy_go_nested hdepth (by omega)
      · rw [braceEndBy_go_cons_of_none ((hr {}).trans (BraceScan.line_semicolon rfl r))]
        exact hlower

/-- The end of a block is not before a mark in its code. -/
theorem le_braceEndBy_go_of_mark (hmark : ∃ c ∈ rest.flatMap code, Nesting.isBefore c = false)
    (hlength : at_ + rest.length = lines.length + 1) :
    at_ ≤ braceEndBy.go code lines line s at_ rest := by
  induction rest generalizing s at_ with
  | nil =>
    obtain ⟨c, hc, -⟩ := hmark
    nomatch hc
  | cons l ls ih =>
    rw [List.length_cons] at hlength
    cases hnext : s.line (code l) with
    | none => exact Nat.le_of_eq (braceEndBy_go_cons_of_none hnext).symm
    | some next =>
      rw [braceEndBy_go_cons_of_some hnext]
      cases hopened : next.opened with
      | true =>
        cases ls with
        | nil =>
          rw [List.length_nil] at hlength
          simp only [braceEndBy.go, hopened, if_true]
          omega
        | cons m ms => exact Nat.le_of_succ_le (le_braceEndBy_go hopened (List.cons_ne_nil m ms) (by omega))
      | false =>
        have hbefore := ((BraceScan.of_line_eq_some hnext).2 hopened).2
        obtain ⟨c, hc, hc'⟩ := hmark
        rw [List.flatMap_cons, List.mem_append] at hc
        rcases hc with hc | hc
        · rw [hbefore c hc] at hc'
          nomatch hc'
        · exact Nat.le_of_succ_le (ih ⟨c, hc, hc'⟩ (by omega))

/-- And it ends below the other one if the next lines close braces before one is opened or a semicolon stands, and such a mark follows
on a later line. -/
theorem braceEndBy_go_lt_of_close {line' k : Nat} (hk : k ≤ rest.length) (hlength : at_ + rest.length = lines.length + 1)
    (hbefore : ∀ c ∈ (rest.take k).flatMap code, Nesting.isBefore c) (hclose : '}' ∈ (rest.take k).flatMap code)
    (hmark : ∃ c ∈ (rest.drop k).flatMap code, Nesting.isBefore c = false) :
    braceEndBy.go code lines line' { depth := 1, opened := true } at_ rest < braceEndBy.go code lines line {} at_ rest := by
  obtain ⟨s', hline, -⟩ := BraceScan.exists_line_of_before (s := {}) rfl hbefore
  rw [braceEndBy_go_of_some hk hline]
  refine Nat.lt_of_lt_of_le (braceEndBy_go_of_none (BraceScan.line_of_close hbefore hclose)) ?_
  exact le_braceEndBy_go_of_mark hmark (by rw [List.length_drop]; omega)

end Block

end CodeAtlas
