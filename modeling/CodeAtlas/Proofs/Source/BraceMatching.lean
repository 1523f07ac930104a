import CodeAtlas.Proofs.Source.BraceSearch
import CodeAtlas.Proofs.Text.Brackets

/-!
# The brace that matches

The search for the end of a declaration keeps a counter and a flag, one for all lines. What it finds is told here by the braces
themselves: the first brace of the code and the one that matches it, with nested braces between them. Whatever tells the code of a line,
where no brace is closed before the first that is opened, the search ends on the line of the matching brace.
-/

namespace CodeAtlas.Block

open Text Nesting

/-- The one pair of brackets that the search looks at. -/
def braces : List (Char × Char) := [('{', '}')]

/-- The character stands on the line of a number, from zero, and this is the code before it. -/
def StandsOn (code : Text → Text) (lines : List Text) (k : Nat) (head : Text) (c : Char) : Prop :=
  ∃ l a b, lines[k]? = some l ∧ code l = a ++ c :: b ∧ head = (lines.take k).flatMap code ++ a

/-- If a brace is opened or a semicolon stands in a text, no brace is closed before the first of these. -/
def OpensFirst (t : Text) : Prop := (∃ c ∈ t, isBefore c = false) → '}' ∉ t.takeWhile isBefore

instance (t : Text) : Decidable (OpensFirst t) := inferInstanceAs (Decidable (_ → _))

/-- The line on which a declaration ends, told by the code from its first line on. -/
inductive EndsOn (code : Text → Text) (lines : List Text) (line : Nat) : Nat → Prop where
  /-- The line of the brace that matches the first one. -/
  | matched {head body : Text} {k : Nat} : (∀ c ∈ head, isBefore c) → Nested braces body →
    StandsOn code (lines.drop (line - 1)) k (head ++ '{' :: body) '}' → EndsOn code lines line (line + k)
  /-- The last line, when no brace matches the first one. -/
  | unmatched {head rest : Text} : (∀ c ∈ head, isBefore c) → (lines.drop (line - 1)).flatMap code = head ++ '{' :: rest →
    (∀ body after, rest = body ++ '}' :: after → ¬Nested braces body) → EndsOn code lines line lines.length
  /-- The line of a semicolon before any brace. -/
  | semicolon {head : Text} {k : Nat} : (∀ c ∈ head, isBefore c) → StandsOn code (lines.drop (line - 1)) k head ';' →
    EndsOn code lines line (line + k)
  /-- The first line, when there is neither a brace nor a semicolon. -/
  | neither : (∀ c ∈ (lines.drop (line - 1)).flatMap code, isBefore c) → EndsOn code lines line line

/-! ## Nested braces -/

namespace BraceScan

variable {depth : Int} {body t : Text}

/-- Nested braces leave the depth of an open search as it is. -/
theorem line_append_of_nested (hbody : Nested braces body) (h : 1 ≤ depth) (r : Text) :
    line { depth, opened := true } (body ++ r) = line { depth, opened := true } r := by
  induction hbody generalizing depth r with
  | nil => rfl
  | @other c t hc _ ih =>
    obtain ⟨hopen, hclose⟩ := hc ('{', '}') List.mem_cons_self
    rw [List.cons_append, line_other hopen hclose (by simp), ih h]
  | @pair p inside after hp _ _ ihInside ihAfter =>
    obtain rfl := List.mem_singleton.1 hp
    have hdeeper : 1 ≤ depth + 1 := by omega
    have hinner : ¬((true : Bool) = true ∧ depth + 1 - 1 ≤ 0) := fun hend => absurd hend.2 (by omega)
    rw [List.cons_append, List.append_assoc, List.cons_append, line_open, ihInside hdeeper, line_close hinner]
    dsimp only
    rw [Int.add_sub_cancel, ihAfter h]

/-- An open search that is over has met nested braces and behind them the brace that ends it, or the next one further out. -/
theorem exists_nested_of_line_eq_none {n : Nat} (h : line { depth := n + 1, opened := true } t = none) :
    ∃ body r, t = body ++ '}' :: r ∧ Nested braces body ∧ (n = 0 ∨ line { depth := n, opened := true } r = none) := by
  induction hlength : t.length using Nat.strongRecOn generalizing t n with
  | _ length ih =>
    cases t with
    | nil => nomatch h
    | cons c r =>
      rw [List.length_cons] at hlength
      by_cases hopen : c = '{'
      · subst hopen
        rw [line_open] at h
        obtain ⟨inside, r₁, rfl, hinside, h₁⟩ := ih r.length (by omega) (n := n + 1) (by exact_mod_cast h) rfl
        rw [List.length_append, List.length_cons] at hlength
        have h₁ := h₁.resolve_left (Nat.succ_ne_zero n)
        obtain ⟨after, r₂, rfl, hafter, h₂⟩ := ih r₁.length (by omega) (n := n) (by exact_mod_cast h₁) rfl
        refine ⟨'{' :: (inside ++ '}' :: after), r₂, by simp, .pair (p := ('{', '}')) List.mem_cons_self hinside hafter, h₂⟩
      · by_cases hclose : c = '}'
        · subst hclose
          refine ⟨[], r, rfl, .nil, ?_⟩
          rcases Nat.eq_zero_or_pos n with hn | hn
          · exact Or.inl hn
          · have hgoes : ¬((true : Bool) = true ∧ (n : Int) + 1 - 1 ≤ 0) := fun hend => absurd hend.2 (by omega)
            rw [line_close hgoes] at h
            dsimp only at h
            rw [Int.add_sub_cancel] at h
            exact Or.inr h
        · rw [line_other hopen hclose (by simp)] at h
          obtain ⟨body, after, rfl, hbody, hafter⟩ := ih r.length (by omega) h rfl
          have hc : ∀ p ∈ braces, c ≠ p.1 ∧ c ≠ p.2 := by
            intro p hp
            obtain rfl := List.mem_singleton.1 hp
            exact ⟨hopen, hclose⟩
          exact ⟨c :: body, after, rfl, .other hc hbody, hafter⟩

end BraceScan

/-! ## Places in the code -/

section Places

variable {code : Text → Text} {lines rest : List Text} {line at_ k : Nat} {s : BraceScan} {head after : Text} {c : Char}

/-- Every character of the code stands on a line. -/
theorem exists_standsOn (h : rest.flatMap code = head ++ c :: after) : ∃ k, StandsOn code rest k head c := by
  induction rest generalizing head with
  | nil => simp at h
  | cons l ls ih =>
    rw [List.flatMap_cons] at h
    have hnext : ∀ head' : Text, ls.flatMap code = head' ++ c :: after → head = code l ++ head' →
        ∃ k, StandsOn code (l :: ls) k head c := by
      intro head' hls hhead
      obtain ⟨k, m, a, b, hm, hcode, rfl⟩ := ih hls
      refine ⟨k + 1, m, a, b, hm, hcode, ?_⟩
      rw [hhead, List.take_succ_cons, List.flatMap_cons, List.append_assoc]
    rcases List.append_eq_append_iff.1 h with ⟨a, ha, hls⟩ | ⟨a, ha, hc⟩
    · exact hnext a hls ha
    · cases a with
      | nil =>
        rw [List.append_nil] at ha
        exact hnext [] hc.symm (by rw [List.append_nil, ha])
      | cons d a =>
        obtain ⟨rfl, -⟩ := List.cons.inj hc
        exact ⟨0, l, head, a, rfl, ha, rfl⟩

/-- A character that stands somewhere in the lines comes after the code before it. -/
theorem StandsOn.exists_after (h : StandsOn code rest k head c) : ∃ after, rest.flatMap code = head ++ c :: after := by
  obtain ⟨l, a, b, hl, hcode, rfl⟩ := h
  obtain ⟨hk, rfl⟩ := List.getElem?_eq_some_iff.1 hl
  refine ⟨b ++ (rest.drop (k + 1)).flatMap code, ?_⟩
  calc rest.flatMap code = (rest.take k ++ rest[k] :: rest.drop (k + 1)).flatMap code := by
        rw [← List.drop_eq_getElem_cons hk, List.take_append_drop]
    _ = _ := by rw [List.flatMap_append, List.flatMap_cons, hcode]; simp only [List.append_assoc, List.cons_append]

/-- A search that ends with a character ends on the line of the character. -/
theorem braceEndBy_go_of_standsOn {s' : BraceScan} (h : StandsOn code rest k head c) (hhead : s.line head = some s')
    (hc : ∀ r, s'.line (c :: r) = none) : braceEndBy.go code lines line s at_ rest = at_ + k := by
  obtain ⟨l, a, b, hl, hcode, rfl⟩ := h
  obtain ⟨hk, rfl⟩ := List.getElem?_eq_some_iff.1 hl
  rw [BraceScan.line_append, Option.bind_eq_some_iff] at hhead
  obtain ⟨next, hnext, ha⟩ := hhead
  rw [braceEndBy_go_of_some (Nat.le_of_lt hk) hnext, List.drop_eq_getElem_cons hk]
  refine braceEndBy_go_cons_of_none ?_
  rw [hcode, BraceScan.line_append, ha, Option.bind_some, hc]

/-- A search that passes all lines ends on the last line if it has seen a brace, and else where it began. -/
theorem braceEndBy_go_of_passed {s' : BraceScan} (h : s.line (rest.flatMap code) = some s') :
    braceEndBy.go code lines line s at_ rest = if s'.opened then lines.length else line := by
  have hall : s.line ((rest.take rest.length).flatMap code) = some s' := by rwa [List.take_length]
  rw [braceEndBy_go_of_some (Nat.le_refl _) hall, List.drop_length]
  rfl

end Places

/-! ## The end of a declaration -/

section Ends

variable {code : Text → Text} {lines : List Text} {line n : Nat}

/-- No closing brace comes before the first opening one. -/
theorem close_not_mem_of_opensFirst {t head after : Text} {c : Char} (h : OpensFirst t) (ht : t = head ++ c :: after)
    (hhead : ∀ d ∈ head, isBefore d) (hc : isBefore c = false) : '}' ∉ head := by
  subst ht
  have hmem : ∃ d ∈ head ++ c :: after, isBefore d = false := ⟨c, List.mem_append_right head List.mem_cons_self, hc⟩
  have hnot := h hmem
  rwa [List.takeWhile_append_of_pos hhead, List.takeWhile_cons_of_neg (Bool.eq_false_iff.1 hc), List.append_nil] at hnot

/-- The search finds the line on which the matching brace is. -/
theorem braceEndBy_of_endsOn (hfirst : OpensFirst ((lines.drop (line - 1)).flatMap code)) (h : EndsOn code lines line n) :
    braceEndBy code lines line = n := by
  have hbegin : ∀ {head after : Text} {c : Char}, (lines.drop (line - 1)).flatMap code = head ++ c :: after →
      (∀ d ∈ head, isBefore d) → isBefore c = false → BraceScan.line {} head = some {} := by
    intro head after c hcode hhead hc
    exact BraceScan.line_of_before hhead (close_not_mem_of_opensFirst hfirst hcode hhead hc)
  cases h with
  | @matched head body k hhead hbody hclose =>
    obtain ⟨after, hcode⟩ := hclose.exists_after
    rw [List.append_assoc, List.cons_append] at hcode
    have hopened : BraceScan.line {} (head ++ '{' :: body) = some { depth := 1, opened := true } := by
      have hinside := BraceScan.line_append_of_nested hbody (Int.le_refl 1) []
      rw [List.append_nil] at hinside
      rw [BraceScan.line_append, hbegin hcode hhead rfl, Option.bind_some, BraceScan.line_open]
      exact hinside
    exact braceEndBy_go_of_standsOn hclose hopened (BraceScan.line_close_last (by decide))
  | @unmatched head rest hhead hcode hnone =>
    cases hline : BraceScan.line {} ((lines.drop (line - 1)).flatMap code) with
    | none =>
      rw [hcode, BraceScan.line_append, hbegin hcode hhead rfl, Option.bind_some, BraceScan.line_open] at hline
      obtain ⟨body, after, hrest, hbody, -⟩ := BraceScan.exists_nested_of_line_eq_none (n := 0) hline
      exact absurd hbody (hnone body after hrest)
    | some s =>
      have hopened : s.opened = true := by
        refine Bool.of_not_eq_false fun hopened => ?_
        have hbefore := ((BraceScan.of_line_eq_some hline).2 hopened).2 '{' (by simp [hcode])
        nomatch hbefore
      rw [braceEndBy, braceEndBy_go_of_passed hline, if_pos hopened]
  | @semicolon head k hhead hsemicolon =>
    obtain ⟨after, hcode⟩ := hsemicolon.exists_after
    exact braceEndBy_go_of_standsOn hsemicolon (hbegin hcode hhead rfl) (BraceScan.line_semicolon rfl)
  | neither hbefore =>
    obtain ⟨s, hline, hopened⟩ := BraceScan.exists_line_of_before (s := {}) rfl hbefore
    rw [braceEndBy, braceEndBy_go_of_passed hline, hopened]
    rfl

/-- Every declaration ends somewhere. -/
theorem exists_endsOn (code : Text → Text) (lines : List Text) (line : Nat) : ∃ n, EndsOn code lines line n := by
  have happend := List.takeWhile_append_dropWhile (p := isBefore) (l := (lines.drop (line - 1)).flatMap code)
  have hhead : ∀ c ∈ ((lines.drop (line - 1)).flatMap code).takeWhile isBefore, isBefore c := List.all_eq_true.1 List.all_takeWhile
  cases hrest : ((lines.drop (line - 1)).flatMap code).dropWhile isBefore with
  | nil =>
    rw [hrest, List.append_nil] at happend
    exact ⟨line, .neither (happend ▸ hhead)⟩
  | cons c rest =>
    rw [hrest] at happend
    have hc : c = '{' ∨ c = ';' := by
      have hstop := List.head_dropWhile_not isBefore (l := (lines.drop (line - 1)).flatMap code) (by simp [hrest])
      simpa [hrest, isBefore, Classical.or_iff_not_imp_left] using hstop
    rcases hc with rfl | rfl
    · by_cases hmatch : ∃ body after, rest = body ++ '}' :: after ∧ Nested braces body
      · obtain ⟨body, after, rfl, hbody⟩ := hmatch
        rw [← List.cons_append, ← List.append_assoc] at happend
        obtain ⟨k, hk⟩ := exists_standsOn happend.symm
        exact ⟨line + k, .matched hhead hbody hk⟩
      · exact ⟨lines.length, .unmatched hhead happend.symm fun body after hsplit hbody => hmatch ⟨body, after, hsplit, hbody⟩⟩
    · obtain ⟨k, hk⟩ := exists_standsOn happend.symm
      exact ⟨line + k, .semicolon hhead hk⟩

/-- Where no brace is closed before one is opened or a semicolon stands, the search ends on the line of the matching brace, on the last
line when there is none, on the line of a semicolon before any brace, and where it began when there is neither. -/
theorem braceEndBy_eq_iff (code : Text → Text) (lines : List Text) (line n : Nat)
    (hfirst : OpensFirst ((lines.drop (line - 1)).flatMap code)) : braceEndBy code lines line = n ↔ EndsOn code lines line n := by
  refine ⟨?_, braceEndBy_of_endsOn hfirst⟩
  rintro rfl
  obtain ⟨n, hn⟩ := exists_endsOn code lines line
  rwa [braceEndBy_of_endsOn hfirst hn]

/-- A function with a brace in a string, two braces on one line and a semicolon in its body. -/
def bracedFunction : List Text :=
  ["void f()".text, "\x7b".text, "  s = \"\x7d\"; if (s) \x7b".text, "  \x7d \x7d".text, "int y;".text]

/-- It ends on the line of its own closing brace. -/
theorem endsOn_bracedFunction :
    OpensFirst ((bracedFunction.drop (1 - 1)).flatMap Noise.cLike.strip) ∧ EndsOn Noise.cLike.strip bracedFunction 1 4 := by
  have hfirst : OpensFirst ((bracedFunction.drop (1 - 1)).flatMap Noise.cLike.strip) := by decide
  exact ⟨hfirst, (braceEndBy_eq_iff Noise.cLike.strip bracedFunction 1 4 hfirst).1 (by decide)⟩

end Ends

end CodeAtlas.Block
