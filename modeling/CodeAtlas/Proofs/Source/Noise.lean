import CodeAtlas.Proofs.Text.Split
import CodeAtlas.Source.Noise

/-!
# Delimiters of a stripped line

A line of C-like text is code with string literals and block comments between, and maybe a line comment behind. Literals are blanked
before comments are, and so a quote in a comment can begin a literal that ends in a later piece of the line and takes the code between
with it. Block comments are blanked before the line comment is cut off, and so a star behind the two slashes can begin a block comment
with the second of them, and what is behind its end is taken for code. Where no quote of a comment leaves it, and the line comment exposes
no delimiter in this way, exactly the delimiters of the code are left.
-/

namespace CodeAtlas.Noise

open Text NoiseAux

/-- The three quotes of literals. -/
def isQuote (c : Char) : Bool := c = '"' || c = '\'' || c = '\x60'

/-- A text that can stand between two quotes of a style: its backslashes each hide a character, and none of the quotes is left unhidden. -/
inductive IsContent (quote : Char) : Text → Prop where
  | nil : IsContent quote []
  | escaped {c : Char} {r : Text} : c ≠ '\n' → IsContent quote r → IsContent quote ('\\' :: c :: r)
  | plain {c : Char} {r : Text} : c ≠ '\\' → c ≠ quote → IsContent quote r → IsContent quote (c :: r)

/-- The quotes of a text that begin no literal in it. -/
def leftOpen : LiteralMode → Text → List Char
  | _, [] => []
  | .code, c :: r => if opensCLike c r then leftOpen (.inside c) r else if isQuote c then c :: leftOpen .code r else leftOpen .code r
  | .inside q, c :: r =>
    if c = '\\' then leftOpen (.escaped q) r
    else if c = q then leftOpen .code r
    else leftOpen (.inside q) r
  | .escaped q, _ :: r => leftOpen (.inside q) r

/-- Whether the two characters that end a block comment stand in a text. -/
def hasEnd : Text → Bool
  | [] => false
  | c :: r => c == '*' && r.head? == some '/' || hasEnd r

/-- A stretch of code without quotes, slashes and stars. -/
structure Code where
  text : Text
  plain : ∀ c ∈ text, isQuote c = false ∧ c ≠ '/' ∧ c ≠ '*' ∧ c ≠ '\n'

/-- A complete string literal. -/
structure Literal where
  quote : Char
  content : Text
  quote_mem : isQuote quote = true
  complete : IsContent quote content

/-- A complete block comment on one line. -/
structure Comment where
  content : Text
  no_end : hasEnd content = false
  no_lineFeed : '\n' ∉ content

/-- A piece of a line whose delimiters do not count. -/
inductive Shade where
  | literal (l : Literal)
  | comment (c : Comment)

/-- A piece of a line. -/
inductive Piece where
  | code (c : Code)
  | shade (s : Shade)

namespace Shade

/-- How the piece is written. -/
def text : Shade → Text
  | literal l => l.quote :: (l.content ++ [l.quote])
  | comment c => '/' :: '*' :: (c.content ++ ['*', '/'])

/-- The quotes of a comment that begin no literal in it. -/
def openQuotes : Shade → List Char
  | literal _ => []
  | comment c => leftOpen .code c.content

/-- Whether the piece would end a literal of a quote that was begun before it. -/
def ends (quote : Char) : Shade → Bool
  | literal l => l.quote = quote || closes quote l.content
  | comment c => closes quote c.content

end Shade

namespace Piece

/-- How the piece is written. -/
def text : Piece → Text
  | code c => c.text
  | shade s => s.text

/-- The code of the piece, if it is code. -/
def codeText : Piece → Text
  | code c => c.text
  | shade _ => []

/-- The piece without its code. -/
def shade? : Piece → Option Shade
  | code _ => none
  | shade s => some s

end Piece

/-- A line comment with its mark, or nothing. -/
def remarkText : Option Text → Text
  | none => []
  | some r => '/' :: '/' :: r

/-- A line of pieces, with a line comment behind them or not. -/
def lineOf (pieces : List Piece) (remark : Option Text) : Text := pieces.flatMap (·.text) ++ remarkText remark

/-- Whether a literal of a quote that was begun before would end in one of the pieces or in the line comment. -/
def endsIn (quote : Char) (ss : List Shade) (remark : Option Text) : Bool := ss.any (·.ends quote) || remark.any (closes quote)

/-- No quote of a comment begins a literal that ends in a later piece or in the line comment. -/
def QuotesStay (remark : Option Text) : List Shade → Prop
  | [] => True
  | s :: ss => (∀ q ∈ s.openQuotes, endsIn q ss remark = false) ∧ QuotesStay remark ss

/-- A text, and the same text with its literals emptied. A quote begins a literal wherever the text behind it can complete one. -/
inductive Emptied : Text → Text → Prop where
  | nil : Emptied [] []
  | literal {q : Char} {a b t : Text} (hq : isQuote q = true) (ha : IsContent q a) (h : Emptied b t) :
      Emptied (q :: (a ++ q :: b)) ('"' :: '"' :: t)
  | other {c : Char} {r t : Text} (hc : isQuote c = true → ∀ a b, r = a ++ c :: b → ¬ IsContent c a) (h : Emptied r t) :
      Emptied (c :: r) (c :: t)

/-- A complete block comment is at the front of a text, with a rest behind it. -/
def BeginsComment (s rest : Text) : Prop :=
  ∃ inner, hasEnd inner = false ∧ '\n' ∉ inner ∧ s = '/' :: '*' :: (inner ++ '*' :: '/' :: rest)

/-- A character stands in a text outside of block comments and before any two slashes, the second of which does not begin a block
comment. -/
inductive InCode (d : Char) : Text → Prop where
  | here (r : Text) : InCode d (d :: r)
  | comment {s rest : Text} (hs : BeginsComment s rest) (h : InCode d rest) : InCode d s
  | other {c : Char} {r : Text}
      (hc : c = '/' → (∀ rest, ¬ BeginsComment ('/' :: r) rest) ∧ (r.head? = some '/' → ∃ rest, BeginsComment r rest))
      (h : InCode d r) : InCode d (c :: r)

/-- A line comment exposes a character: a star after the two slashes makes the second of them the beginning of a block comment, which ends
in the line comment, and the character is in the code behind its end. -/
def Exposes (remark : Option Text) (d : Char) : Prop :=
  ∃ r t rest, remark = some ('*' :: r) ∧ Emptied r t ∧ BeginsComment ('/' :: '*' :: t) rest ∧ InCode d rest

/-- The characters whose number in the code matters. -/
def delimiters : List Char := ['(', ')', '[', ']', '{', '}', ';']

/-! ## Ends of literals -/

section Closes

variable {p q d : Char} {s x : Text}

/-- What is no quote is none of the quotes. -/
theorem ne_quote (hd : isQuote d = false) (hq : isQuote q = true) : d ≠ q := by
  rintro rfl
  exact Bool.false_ne_true (hd.symm.trans hq)

/-- A quote is no backslash. -/
theorem ne_backslash_of_isQuote (h : isQuote q = true) : q ≠ '\\' := by
  rintro rfl
  nomatch h

/-- A character is no backslash if it neither ends the text as one nor hides the next character. -/
theorem ne_backslash {r : Text} (hlast : d = '\\' → r = [] → False) (hmore : ∀ e r', d = '\\' → r = e :: r' → False) : d ≠ '\\' := by
  intro hd
  cases r with
  | nil => exact hlast hd rfl
  | cons e r => exact hmore e r hd rfl

/-- A character that is no backslash hides nothing: it ends a literal, or the text behind it does. -/
theorem closes_cons (h : d ≠ '\\') (r : Text) : closes q (d :: r) = (decide (d = q) || closes q r) := by
  rw [closes]
  · rintro rfl rfl
    exact h rfl
  · rintro c r rfl
    exact absurd rfl h

/-- A mark behind a text ends no literal and hides nothing, whether a backslash hides it or not. -/
theorem closes_append_mark (hs : '\n' ∉ s) (hq : d ≠ q) (hd : d ≠ '\\') (hline : d ≠ '\n') :
    closes q (s ++ d :: x) = (closes q s || closes q x) := by
  fun_induction closes q s with
  | case1 => rw [List.nil_append, closes_cons hd, decide_eq_false hq]
  | case2 => rw [List.singleton_append, closes, if_neg hline, Bool.false_or]
  | case3 r => exact absurd (by simp) hs
  | case4 c r hc ih =>
    rw [List.cons_append, List.cons_append, closes, if_neg hc]
    exact ih fun h => hs (by simp [h])
  | case5 c r hlast hmore ih =>
    rw [List.cons_append, closes_cons (ne_backslash hlast hmore), ih fun h => hs (by simp [h]), Bool.or_assoc]

/-- What stands behind the content of a literal is read by itself. -/
theorem closes_append_content (hs : IsContent p s) : closes q (s ++ x) = (closes q s || closes q x) := by
  induction hs with
  | nil => rfl
  | escaped hc _ ih => rw [List.cons_append, List.cons_append, closes, if_neg hc, closes, if_neg hc, ih]
  | plain hc _ _ ih => rw [List.cons_append, closes_cons hc, closes_cons hc, ih, Bool.or_assoc]

/-- The content of a literal is ended by its quote. -/
theorem closes_of_isContent (hq : isQuote q = true) (hs : IsContent q s) : closes q (s ++ q :: x) = true := by
  rw [closes_append_content hs, closes_cons (ne_backslash_of_isQuote hq), decide_eq_true rfl, Bool.true_or, Bool.or_true]

/-- A text that ends a literal begins with the content of one. -/
theorem exists_of_closes (h : closes q s = true) : ∃ a b, s = a ++ q :: b ∧ IsContent q a := by
  fun_induction closes q s with
  | case1 => nomatch h
  | case2 => nomatch h
  | case3 r => nomatch h
  | case4 c r hc ih =>
    obtain ⟨a, b, rfl, ha⟩ := ih h
    exact ⟨'\\' :: c :: a, b, rfl, .escaped hc ha⟩
  | case5 c r hlast hmore ih =>
    by_cases hcq : c = q
    · exact ⟨[], r, by rw [hcq]; rfl, .nil⟩
    · obtain ⟨a, b, rfl, ha⟩ := ih (by simpa [hcq] using h)
      exact ⟨c :: a, b, rfl, .plain (ne_backslash hlast hmore) hcq ha⟩

/-- A text as a scan for literals reads it: a literal is passed over whole, and a quote that begins none is passed like other characters. -/
theorem scanInduction {motive : Text → Prop} (nil : motive [])
    (other : ∀ {c : Char} {r : Text}, isQuote c = false → motive r → motive (c :: r))
    (literal : ∀ {q : Char} {a b : Text}, isQuote q = true → IsContent q a → motive b → motive (q :: (a ++ q :: b)))
    (left : ∀ {q : Char} {r : Text}, isQuote q = true → closes q r = false → motive r → motive (q :: r)) (s : Text) : motive s := by
  induction hlength : s.length using Nat.strongRecOn generalizing s with
  | _ length ih =>
    cases s with
    | nil => exact nil
    | cons c r =>
      rw [List.length_cons] at hlength
      have hr : motive r := ih r.length (by omega) r rfl
      cases hc : isQuote c with
      | false => exact other hc hr
      | true =>
        cases hcloses : closes c r with
        | false => exact left hc hcloses hr
        | true =>
          obtain ⟨a, b, rfl, ha⟩ := exists_of_closes hcloses
          rw [List.length_append, List.length_cons] at hlength
          exact literal hc ha (ih b.length (by omega) b rfl)

end Closes

/-! ## Blanking literals -/

section Literals

variable {q c : Char} {s r a b x y : Text}

theorem opensCLike_eq (c : Char) (r : Text) : opensCLike c r = (isQuote c && closes c r) := rfl

/-- What is no quote is left as it is. -/
theorem blankLiterals_other (h : isQuote c = false) (r : Text) :
    blankLiterals opensCLike .code (c :: r) = c :: blankLiterals opensCLike .code r := by
  have hopens : opensCLike c r = false := by rw [opensCLike_eq, h, Bool.false_and]
  rw [blankLiterals, hopens, if_neg Bool.false_ne_true]

/-- A quote that nothing closes is left as it is. -/
theorem blankLiterals_left (h : closes q r = false) :
    blankLiterals opensCLike .code (q :: r) = q :: blankLiterals opensCLike .code r := by
  have hopens : opensCLike q r = false := by rw [opensCLike_eq, h, Bool.and_false]
  rw [blankLiterals, hopens, if_neg Bool.false_ne_true]

/-- A quote that the text behind it closes begins a literal. -/
theorem blankLiterals_begun (hq : isQuote q = true) (h : closes q r = true) :
    blankLiterals opensCLike .code (q :: r) = '"' :: '"' :: blankLiterals opensCLike (.inside q) r := by
  have hopens : opensCLike q r = true := by rw [opensCLike_eq, hq, h, Bool.true_and]
  rw [blankLiterals, if_pos hopens]

/-- Text without quotes is left as it is. -/
theorem blankLiterals_append (h : ∀ c ∈ a, isQuote c = false) (r : Text) :
    blankLiterals opensCLike .code (a ++ r) = a ++ blankLiterals opensCLike .code r := by
  induction a with
  | nil => rfl
  | cons c a ih =>
    obtain ⟨hc, ha⟩ := List.forall_mem_cons.1 h
    rw [List.cons_append, blankLiterals_other hc, ih ha, List.cons_append]

/-- The content of a literal and its closing quote are passed over. -/
theorem blankLiterals_inside (hq : isQuote q = true) (ha : IsContent q a) :
    blankLiterals opensCLike (.inside q) (a ++ q :: b) = blankLiterals opensCLike .code b := by
  induction ha with
  | nil => rw [List.nil_append, blankLiterals, if_neg (ne_backslash_of_isQuote hq), if_pos rfl]
  | escaped _ _ ih => rw [List.cons_append, List.cons_append, blankLiterals, if_pos rfl, blankLiterals, ih]
  | plain hc hne _ ih => rw [List.cons_append, blankLiterals, if_neg hc, if_neg hne, ih]

/-- A literal is left as two quotes. -/
theorem blankLiterals_literal (hq : isQuote q = true) (ha : IsContent q a) :
    blankLiterals opensCLike .code (q :: (a ++ q :: b)) = '"' :: '"' :: blankLiterals opensCLike .code b := by
  rw [blankLiterals_begun hq (closes_of_isContent hq ha), blankLiterals_inside hq ha]

/-- A literal that does not end in a comment goes on behind it. -/
theorem blankLiterals_inside_comment (hq : isQuote q = true) (hs : '\n' ∉ s) (h : closes q s = false) :
    blankLiterals opensCLike (.inside q) (s ++ '*' :: '/' :: y) = blankLiterals opensCLike (.inside q) y := by
  have hstar : '*' ≠ q := ne_quote rfl hq
  have hslash : '/' ≠ q := ne_quote rfl hq
  fun_induction closes q s with
  | case1 =>
    rw [List.nil_append, blankLiterals, if_neg (by decide), if_neg hstar, blankLiterals, if_neg (by decide), if_neg hslash]
  | case2 => rw [List.singleton_append, blankLiterals, if_pos rfl, blankLiterals, blankLiterals, if_neg (by decide), if_neg hslash]
  | case3 r => exact absurd (by simp) hs
  | case4 c r _ ih =>
    rw [List.cons_append, List.cons_append, blankLiterals, if_pos rfl, blankLiterals]
    exact ih (fun hr => hs (by simp [hr])) h
  | case5 c r hlast hmore ih =>
    obtain ⟨hc, hr⟩ := Bool.or_eq_false_iff.1 h
    rw [List.cons_append, blankLiterals, if_neg (ne_backslash hlast hmore), if_neg (of_decide_eq_false hc)]
    exact ih (fun hmem => hs (by simp [hmem])) hr

/-- What is no quote is not left open. -/
theorem leftOpen_other (h : isQuote c = false) (r : Text) : leftOpen .code (c :: r) = leftOpen .code r := by
  have hopens : opensCLike c r = false := by rw [opensCLike_eq, h, Bool.false_and]
  rw [leftOpen, hopens, if_neg Bool.false_ne_true, h, if_neg Bool.false_ne_true]

/-- A quote that nothing closes is left open. -/
theorem leftOpen_left (hq : isQuote q = true) (h : closes q r = false) : leftOpen .code (q :: r) = q :: leftOpen .code r := by
  have hopens : opensCLike q r = false := by rw [opensCLike_eq, h, Bool.and_false]
  rw [leftOpen, hopens, if_neg Bool.false_ne_true, if_pos hq]

/-- In a literal nothing is left open. -/
theorem leftOpen_literal (hq : isQuote q = true) (ha : IsContent q a) : leftOpen .code (q :: (a ++ q :: b)) = leftOpen .code b := by
  have hopens : opensCLike q (a ++ q :: b) = true := by
    rw [opensCLike_eq, hq, closes_of_isContent hq ha, Bool.true_and]
  rw [leftOpen, if_pos hopens]
  clear hopens
  induction ha with
  | nil => rw [List.nil_append, leftOpen, if_neg (ne_backslash_of_isQuote hq), if_pos rfl]
  | escaped _ _ ih => rw [List.cons_append, List.cons_append, leftOpen, if_pos rfl, leftOpen, ih]
  | plain hc hne _ ih => rw [List.cons_append, leftOpen, if_neg hc, if_neg hne, ih]

/-- What is left open is a quote. -/
theorem isQuote_of_mem_leftOpen (h : q ∈ leftOpen .code s) : isQuote q = true := by
  induction s using scanInduction with
  | nil => nomatch h
  | other hc ih => exact ih (leftOpen_other hc _ ▸ h)
  | literal hp ha ih => exact ih (leftOpen_literal hp ha ▸ h)
  | left hp hleft ih =>
    rw [leftOpen_left hp hleft] at h
    rcases List.mem_cons.1 h with rfl | h
    · exact hp
    · exact ih h

/-- The end of a comment closes no literal, whether a backslash hides its first character or not. -/
theorem closes_comment (hq : isQuote q = true) (hs : '\n' ∉ s) : closes q (s ++ '*' :: '/' :: y) = (closes q s || closes q y) := by
  have hstar : '*' ≠ q := ne_quote rfl hq
  have hslash : '/' ≠ q := ne_quote rfl hq
  rw [closes_append_mark hs hstar (by decide) (by decide), closes_cons (by decide), decide_eq_false hslash, Bool.false_or]

/-- Where no quote of a comment ends a literal behind it, the comment is read by itself. -/
theorem blankLiterals_comment (hs : '\n' ∉ s) (h : ∀ q ∈ leftOpen .code s, closes q y = false) :
    blankLiterals opensCLike .code (s ++ '*' :: '/' :: y) =
      blankLiterals opensCLike .code s ++ '*' :: '/' :: blankLiterals opensCLike .code y := by
  induction s using scanInduction with
  | nil => rw [List.nil_append, blankLiterals_other rfl, blankLiterals_other rfl]; rfl
  | other hc ih =>
    rw [leftOpen_other hc] at h
    rw [List.cons_append, blankLiterals_other hc, blankLiterals_other hc, ih (fun hmem => hs (by simp [hmem])) h]
    rfl
  | literal hq ha ih =>
    rw [leftOpen_literal hq ha] at h
    rw [List.cons_append, List.append_assoc, List.cons_append, blankLiterals_literal hq ha, blankLiterals_literal hq ha,
      ih (fun hmem => hs (by simp [hmem])) h]
    rfl
  | @left q r hq hleft ih =>
    rw [leftOpen_left hq hleft] at h
    obtain ⟨hy, h⟩ := List.forall_mem_cons.1 h
    have hr : '\n' ∉ r := fun hmem => hs (by simp [hmem])
    have hstill : closes q (r ++ '*' :: '/' :: y) = false := by rw [closes_comment hq hr, hleft, hy]; rfl
    rw [List.cons_append, blankLiterals_left hstill, blankLiterals_left hleft, ih hr h]
    rfl

/-- Where a quote of a comment ends a literal behind it, what follows the comment begins inside a literal, and so does every other text
that ends literals of the same quotes. -/
theorem exists_blankLiterals_comment (hs : '\n' ∉ s) (h : ∃ q ∈ leftOpen .code s, closes q y = true) :
    ∃ out q, isQuote q = true ∧ ∀ y', (∀ p, isQuote p = true → closes p y' = closes p y) →
      blankLiterals opensCLike .code (s ++ '*' :: '/' :: y') = out ++ blankLiterals opensCLike (.inside q) y' := by
  induction s using scanInduction with
  | nil =>
    obtain ⟨q, hq, -⟩ := h
    nomatch hq
  | @other c r hc ih =>
    rw [leftOpen_other hc] at h
    obtain ⟨out, q, hq, hout⟩ := ih (fun hmem => hs (by simp [hmem])) h
    refine ⟨c :: out, q, hq, fun y' hy' => ?_⟩
    rw [List.cons_append, blankLiterals_other hc, hout y' hy', List.cons_append]
  | literal hp ha ih =>
    rw [leftOpen_literal hp ha] at h
    obtain ⟨out, q, hq, hout⟩ := ih (fun hmem => hs (by simp [hmem])) h
    refine ⟨'"' :: '"' :: out, q, hq, fun y' hy' => ?_⟩
    rw [List.cons_append, List.append_assoc, List.cons_append, blankLiterals_literal hp ha, hout y' hy', List.cons_append, List.cons_append]
  | @left p r hp hleft ih =>
    have hr : '\n' ∉ r := fun hmem => hs (by simp [hmem])
    rw [leftOpen_left hp hleft] at h
    by_cases hy : closes p y = true
    · refine ⟨['"', '"'], p, hp, fun y' hy' => ?_⟩
      have hcloses : closes p (r ++ '*' :: '/' :: y') = true := by rw [closes_comment hp hr, hy' p hp, hy, Bool.or_true]
      rw [List.cons_append, blankLiterals_begun hp hcloses, blankLiterals_inside_comment hp hr hleft]
      rfl
    · have hrest : ∃ q ∈ leftOpen .code r, closes q y = true := by
        obtain ⟨q, hq, hcloses⟩ := h
        rcases List.mem_cons.1 hq with rfl | hq
        · exact absurd hcloses hy
        · exact ⟨q, hq, hcloses⟩
      obtain ⟨out, q, hq, hout⟩ := ih hr hrest
      refine ⟨p :: out, q, hq, fun y' hy' => ?_⟩
      have hstill : closes p (r ++ '*' :: '/' :: y') = false := by
        rw [closes_comment hp hr, hleft, hy' p hp, Bool.eq_false_iff.2 hy]
        rfl
      rw [List.cons_append, blankLiterals_left hstill, hout y' hy', List.cons_append]

end Literals

/-! ## Blanking comments -/

section Comments

variable {c : Char} {s t x : Text}

/-- Where there is no end of a comment, there is none in a later part. -/
theorem hasEnd_append_right (a : Text) (h : hasEnd (a ++ s) = false) : hasEnd s = false := by
  induction a with
  | nil => exact h
  | cons c a ih =>
    rw [List.cons_append, hasEnd] at h
    exact ih (Bool.or_eq_false_iff.1 h).2

/-- Blanking literals brings no slash to the front. -/
theorem head?_blankLiterals (h : (blankLiterals opensCLike .code s).head? = some '/') : s.head? = some '/' := by
  cases s with
  | nil => exact h
  | cons c r =>
    rw [blankLiterals] at h
    split at h
    · nomatch h
    · exact h

/-- A comment whose literals are blanked ends where it did. -/
theorem hasEnd_blankLiterals (h : hasEnd s = false) : hasEnd (blankLiterals opensCLike .code s) = false := by
  have hkept : ∀ {c : Char} {r : Text}, hasEnd (c :: r) = false → hasEnd (blankLiterals opensCLike .code r) = false →
      hasEnd (c :: blankLiterals opensCLike .code r) = false := by
    intro c r hcr hr
    obtain ⟨hmark, -⟩ := Bool.or_eq_false_iff.1 hcr
    rw [hasEnd, hr, Bool.or_false]
    refine Bool.eq_false_iff.2 fun hboth => ?_
    obtain ⟨hstar, hslash⟩ := Bool.and_eq_true_iff.1 hboth
    rw [hstar, head?_blankLiterals (beq_iff_eq.1 hslash)] at hmark
    nomatch hmark
  induction s using scanInduction with
  | nil => exact h
  | other hc ih =>
    rw [blankLiterals_other hc]
    exact hkept h (ih (hasEnd_append_right [_] h))
  | @literal q a b hq ha ih =>
    rw [blankLiterals_literal hq ha]
    exact ih (hasEnd_append_right (q :: a ++ [q]) (by simpa using h))
  | left _ hleft ih =>
    rw [blankLiterals_left hleft]
    exact hkept h (ih (hasEnd_append_right [_] h))

/-- Blanking literals brings no line feed in. -/
theorem lineFeed_not_mem_blankLiterals (h : '\n' ∉ s) : '\n' ∉ blankLiterals opensCLike .code s := by
  induction s using scanInduction with
  | nil => exact h
  | other hc ih =>
    rw [blankLiterals_other hc]
    simp only [List.mem_cons, not_or] at h ⊢
    exact ⟨h.1, ih h.2⟩
  | literal hq ha ih =>
    rw [blankLiterals_literal hq ha]
    simp only [List.mem_cons, List.mem_append, not_or] at h ⊢
    exact ⟨by decide, by decide, ih h.2.2.2⟩
  | left _ hleft ih =>
    rw [blankLiterals_left hleft]
    simp only [List.mem_cons, not_or] at h ⊢
    exact ⟨h.1, ih h.2⟩

/-- The end of a comment closes it if it stands on the same line. -/
theorem closesComment_append (hs : '\n' ∉ s) (x : Text) : closesComment (s ++ '*' :: '/' :: x) = true := by
  induction s with
  | nil => rfl
  | cons c s ih =>
    have hc : c ≠ '\n' := fun h => hs (h ▸ List.mem_cons_self)
    rw [List.cons_append]
    unfold closesComment
    split
    · rfl
    · rename_i heq
      obtain ⟨rfl, rfl⟩ := List.cons.inj heq
      rw [decide_eq_true hc, Bool.true_and, ih fun h => hs (List.mem_cons_of_mem _ h)]
    · rename_i heq
      nomatch heq

/-- In a comment everything is passed over up to its end. -/
theorem blankComments_inside (hs : hasEnd s = false) (x : Text) :
    blankComments .inside (s ++ '*' :: '/' :: x) = blankComments .code x := by
  induction s with
  | nil => rfl
  | cons c s ih =>
    obtain ⟨hmark, hrest⟩ := Bool.or_eq_false_iff.1 hs
    have hgoes : ¬(decide (c = '*') && decide ((s ++ '*' :: '/' :: x).head? = some '/')) = true := by
      cases s with
      | nil => simp
      | cons d s => simpa using hmark
    rw [List.cons_append, blankComments, if_neg hgoes, ih hrest]

/-- A block comment becomes a blank. -/
theorem blankComments_comment (hs : hasEnd s = false) (hline : '\n' ∉ s) (x : Text) :
    blankComments .code ('/' :: '*' :: (s ++ '*' :: '/' :: x)) = ' ' :: blankComments .code x := by
  rw [blankComments, if_pos, blankComments, blankComments_inside hs]
  simp [closesComment_append hline]

/-- Text without slashes is left as it is. -/
theorem blankComments_append (h : '/' ∉ t) (x : Text) : blankComments .code (t ++ x) = t ++ blankComments .code x := by
  induction t with
  | nil => rfl
  | cons c t ih =>
    rw [List.mem_cons, not_or] at h
    rw [List.cons_append, blankComments, if_neg (by simp [Ne.symm h.1]), ih h.2, List.cons_append]

/-- Text without slashes is not cut off. -/
theorem before_slashes_append (h : '/' ∉ t) (x : Text) : (t ++ x).before "//" = t ++ x.before "//" := by
  have hcut : cut? "//".toList (t ++ x) = (cut? "//".toList x).map fun p => (t ++ p.1, p.2) := cut?_append_of_not_mem h x
  rw [before, before, hcut]
  cases cut? "//".toList x <;> rfl

/-- A text that ends a block comment on its line has its first end there. -/
theorem exists_of_closesComment (h : closesComment s = true) :
    ∃ inner rest, hasEnd inner = false ∧ '\n' ∉ inner ∧ s = inner ++ '*' :: '/' :: rest := by
  fun_induction closesComment s with
  | case1 r => exact ⟨[], r, rfl, by simp, rfl⟩
  | case2 c r hend ih =>
    obtain ⟨hc, hr⟩ := Bool.and_eq_true_iff.1 h
    obtain ⟨inner, rest, hinner, hline, rfl⟩ := ih hr
    have hmark : (c == '*' && inner.head? == some '/') = false := by
      refine Bool.eq_false_iff.2 fun hboth => ?_
      obtain ⟨hstar, hslash⟩ := Bool.and_eq_true_iff.1 hboth
      obtain ⟨inner, rfl⟩ := List.head?_eq_some_iff.1 (beq_iff_eq.1 hslash)
      exact hend _ (beq_iff_eq.1 hstar) rfl
    have hfeed : c ≠ '\n' := of_decide_eq_true hc
    exact ⟨c :: inner, rest, by rw [hasEnd, hmark, hinner]; rfl, List.not_mem_cons_of_ne_of_not_mem hfeed.symm hline, rfl⟩
  | case3 => nomatch h

/-- A block comment is blanked where it is complete. -/
theorem blankComments_beginsComment {rest : Text} (h : BeginsComment s rest) :
    blankComments .code s = ' ' :: blankComments .code rest := by
  obtain ⟨inner, hend, hline, rfl⟩ := h
  exact blankComments_comment hend hline rest

/-- Where no block comment is complete, a character stays. -/
theorem blankComments_other (h : c = '/' → ∀ rest, ¬ BeginsComment ('/' :: t) rest) :
    blankComments .code (c :: t) = c :: blankComments .code t := by
  rw [blankComments, if_neg]
  intro hopens
  simp only [Bool.and_eq_true, decide_eq_true_eq] at hopens
  obtain ⟨⟨hc, hstar⟩, hcloses⟩ := hopens
  obtain ⟨t, rfl⟩ := List.head?_eq_some_iff.1 hstar
  obtain ⟨inner, rest, hend, hline, hs⟩ := exists_of_closesComment hcloses
  exact h hc rest ⟨inner, hend, hline, congrArg _ (congrArg _ hs)⟩

/-- The first character stays at the front, except a slash that begins a block comment. -/
theorem head?_blankComments_eq_slash_iff :
    (blankComments .code s).head? = some '/' ↔ s.head? = some '/' ∧ ∀ rest, ¬ BeginsComment s rest := by
  by_cases hs : ∃ rest, BeginsComment s rest
  · obtain ⟨rest, hrest⟩ := hs
    rw [blankComments_beginsComment hrest]
    constructor
    · intro h
      nomatch Option.some.inj h
    · intro h
      exact absurd hrest (h.2 rest)
  · have hnone : ∀ rest, ¬ BeginsComment s rest := not_exists.1 hs
    cases s with
    | nil => simp [blankComments]
    | cons c t =>
      have hother : c = '/' → ∀ rest, ¬ BeginsComment ('/' :: t) rest := by
        rintro rfl
        exact hnone
      simp [blankComments_other hother, hnone]

/-- Two slashes cut off what is behind them. -/
theorem before_slashes_of_head? (h : t.head? = some '/') : before ('/' :: t) "//" = [] := by
  obtain ⟨t, rfl⟩ := List.head?_eq_some_iff.1 h
  rfl

/-- A character stays where it does not begin two slashes. -/
theorem before_slashes_cons (h : c = '/' → t.head? ≠ some '/') : before (c :: t) "//" = c :: before t "//" := by
  have hapart : "//".toList.isPrefixOf (c :: t) = false := by
    refine Bool.eq_false_iff.2 fun hslashes => ?_
    obtain ⟨u, hu⟩ := List.isPrefixOf_iff_prefix.1 hslashes
    obtain ⟨rfl, rfl⟩ := List.cons.inj hu
    exact h rfl rfl
  rw [before, before, cut?, if_neg (by rw [hapart]; exact Bool.false_ne_true)]
  cases cut? "//".toList t <;> rfl

/-- A character that is no slash does not take part in a cut. -/
theorem before_slashes_cons_of_ne (h : c ≠ '/') : before (c :: t) "//" = c :: before t "//" :=
  before_slashes_cons fun hc => absurd hc h

/-- What stands in the code is left. -/
theorem mem_before_of_inCode {d : Char} (hslash : d ≠ '/') (h : InCode d s) : d ∈ before (blankComments .code s) "//" := by
  induction h with
  | here r =>
    rw [blankComments_other fun hd => absurd hd hslash, before_slashes_cons_of_ne hslash]
    exact List.mem_cons_self
  | comment hs _ ih =>
    rw [blankComments_beginsComment hs, before_slashes_cons_of_ne (by decide)]
    exact List.mem_cons_of_mem _ ih
  | @other c r hc _ ih =>
    have huncut : c = '/' → (blankComments .code r).head? ≠ some '/' := by
      intro hslash hhead
      obtain ⟨hr, hnone⟩ := head?_blankComments_eq_slash_iff.1 hhead
      obtain ⟨rest, hrest⟩ := (hc hslash).2 hr
      exact hnone rest hrest
    rw [blankComments_other fun hslash => (hc hslash).1, before_slashes_cons huncut]
    exact List.mem_cons_of_mem _ ih

/-- What is left and is no blank stands in the code. -/
theorem inCode_of_mem_before {d : Char} (hblank : d ≠ ' ') (h : d ∈ before (blankComments .code s) "//") : InCode d s := by
  induction hlength : s.length using Nat.strongRecOn generalizing s with
  | _ length ih =>
    by_cases hcomment : ∃ rest, BeginsComment s rest
    · obtain ⟨rest, hrest⟩ := hcomment
      have hshorter : rest.length < length := by
        obtain ⟨inner, -, -, rfl⟩ := hrest
        simp only [List.length_cons, List.length_append] at hlength
        omega
      rw [blankComments_beginsComment hrest, before_slashes_cons_of_ne (by decide)] at h
      have hmem := (List.mem_cons.1 h).resolve_left hblank
      exact InCode.comment hrest (ih _ hshorter hmem rfl)
    · have hnone : ∀ rest, ¬ BeginsComment s rest := not_exists.1 hcomment
      cases s with
      | nil => nomatch h
      | cons c r =>
        have hkept : c = '/' → ∀ rest, ¬ BeginsComment ('/' :: r) rest := by
          rintro rfl
          exact hnone
        have huncut : c = '/' → (blankComments .code r).head? ≠ some '/' := by
          rintro rfl hhead
          rw [blankComments_other hkept, before_slashes_of_head? hhead] at h
          nomatch h
        rw [blankComments_other hkept, before_slashes_cons huncut] at h
        rcases List.mem_cons.1 h with rfl | h
        · exact InCode.here r
        · refine InCode.other (fun hc => ⟨hkept hc, fun hr => ?_⟩) (ih _ (by simp [← hlength]) h rfl)
          exact Classical.byContradiction fun hnot => huncut hc (head?_blankComments_eq_slash_iff.2 ⟨hr, not_exists.1 hnot⟩)

/-- A character is left of a text without literals where it stands in the code. -/
theorem mem_before_blankComments_iff {d : Char} (hslash : d ≠ '/') (hblank : d ≠ ' ') :
    d ∈ before (blankComments .code s) "//" ↔ InCode d s :=
  ⟨inCode_of_mem_before hblank, mem_before_of_inCode hslash⟩

/-- Blanking literals empties them. -/
theorem emptied_iff : Emptied s t ↔ blankLiterals opensCLike .code s = t := by
  constructor
  · intro h
    induction h with
    | nil => rfl
    | literal hq ha _ ih => rw [blankLiterals_literal hq ha, ih]
    | @other c r t hc _ ih =>
      by_cases hquote : isQuote c = true
      · have hcloses : closes c r = false := by
          refine Bool.eq_false_iff.2 fun hcloses => ?_
          obtain ⟨a, b, hr, ha⟩ := exists_of_closes hcloses
          exact hc hquote a b hr ha
        rw [blankLiterals_left hcloses, ih]
      · rw [blankLiterals_other (Bool.eq_false_iff.2 hquote), ih]
  · rintro rfl
    induction s using scanInduction with
    | nil => exact Emptied.nil
    | other hc ih =>
      rw [blankLiterals_other hc]
      refine Emptied.other (fun hquote => ?_) ih
      rw [hc] at hquote
      nomatch hquote
    | literal hq ha ih =>
      rw [blankLiterals_literal hq ha]
      exact Emptied.literal hq ha ih
    | left hq hleft ih =>
      rw [blankLiterals_left hleft]
      refine Emptied.other (fun _ a b hr ha => ?_) ih
      rw [hr, closes_of_isContent hq ha] at hleft
      nomatch hleft

/-- A block comment begins behind a slash only with another slash, and that only with a star behind it. -/
theorem beginsComment_slash {rest : Text} (h : BeginsComment ('/' :: s) rest) : ∃ t, s = '*' :: t := by
  obtain ⟨inner, -, -, hs⟩ := h
  exact ⟨_, (List.cons.inj hs).2⟩

/-- What is left of a line comment stands behind a block comment that the second slash begins. -/
theorem inCode_slashes_iff {d : Char} (hslash : d ≠ '/') :
    InCode d ('/' :: '/' :: t) ↔ ∃ rest, BeginsComment ('/' :: t) rest ∧ InCode d rest := by
  constructor
  · intro h
    cases h with
    | here => exact absurd rfl hslash
    | comment hs _ =>
      obtain ⟨u, hu⟩ := beginsComment_slash hs
      nomatch (List.cons.inj hu).1
    | other hc h =>
      obtain ⟨rest, hrest⟩ := (hc rfl).2 rfl
      cases h with
      | here => exact absurd rfl hslash
      | comment hs h => exact ⟨_, hs, h⟩
      | other hc' _ => exact absurd hrest ((hc' rfl).1 rest)
  · rintro ⟨rest, hrest, h⟩
    refine InCode.other (fun _ => ⟨fun rest' hrest' => ?_, fun _ => ⟨rest, hrest⟩⟩) (InCode.comment hrest h)
    obtain ⟨u, hu⟩ := beginsComment_slash hrest'
    nomatch (List.cons.inj hu).1

/-- A line comment that is stripped alone leaves what it exposes. -/
theorem mem_stripCLike_remarkText_iff {remark : Option Text} {d : Char} (hslash : d ≠ '/') (hblank : d ≠ ' ') :
    d ∈ stripCLike (remarkText remark) ↔ Exposes remark d := by
  cases remark with
  | none =>
    constructor
    · intro h
      nomatch h
    · rintro ⟨r, t, rest, hr, -⟩
      nomatch hr
  | some r =>
    have hslashes : blankLiterals opensCLike .code (remarkText (some r)) = '/' :: '/' :: blankLiterals opensCLike .code r := by
      rw [remarkText, blankLiterals_other rfl, blankLiterals_other rfl]
    rw [stripCLike, hslashes, mem_before_blankComments_iff hslash hblank, inCode_slashes_iff hslash]
    constructor
    · rintro ⟨rest, hrest, h⟩
      obtain ⟨t, ht⟩ := beginsComment_slash hrest
      rw [ht] at hrest
      cases emptied_iff.2 ht with
      | other _ hr => exact ⟨_, t, rest, rfl, hr, hrest, h⟩
    · rintro ⟨r, t, rest, ⟨⟩, hr, hrest, h⟩
      rw [blankLiterals_other rfl, emptied_iff.1 hr]
      exact ⟨rest, hrest, h⟩

end Comments

/-! ## Lines of pieces -/

section Lines

variable {q : Char} {remark : Option Text}

/-- What is left of the piece when the literals are blanked. -/
def Piece.blanked : Piece → Text
  | .code c => c.text
  | .shade (.literal _) => ['"', '"']
  | .shade (.comment c) => '/' :: '*' :: (blankLiterals opensCLike .code c.content ++ ['*', '/'])

/-- What is left of the piece in the end. -/
def Piece.shown : Piece → Text
  | .code c => c.text
  | .shade (.literal _) => ['"', '"']
  | .shade (.comment _) => [' ']

/-- A literal ends in the first piece or in the others. -/
theorem endsIn_cons (s : Shade) (ss : List Shade) : endsIn q (s :: ss) remark = (s.ends q || endsIn q ss remark) := by
  rw [endsIn, endsIn, List.any_cons, Bool.or_assoc]

/-- The text of a literal, with what follows it. -/
theorem literal_append (l : Literal) (x : Text) : (Piece.shade (.literal l)).text ++ x = l.quote :: (l.content ++ l.quote :: x) := by
  rw [Piece.text, Shade.text, List.cons_append, List.append_assoc, List.singleton_append]

/-- The text of a comment, with what follows it. -/
theorem comment_append (c : Comment) (x : Text) : (Piece.shade (.comment c)).text ++ x = '/' :: '*' :: (c.content ++ '*' :: '/' :: x) := by
  rw [Piece.text, Shade.text, List.cons_append, List.cons_append, List.append_assoc]
  rfl

/-- A piece that is a literal is left as two quotes. -/
theorem blankLiterals_literal_append (l : Literal) (x : Text) :
    blankLiterals opensCLike .code ((Piece.shade (.literal l)).text ++ x) = '"' :: '"' :: blankLiterals opensCLike .code x := by
  rw [literal_append, blankLiterals_literal l.quote_mem l.complete]

/-- A piece that is a comment keeps its mark, and its content is read on. -/
theorem blankLiterals_comment_append (c : Comment) (x : Text) : blankLiterals opensCLike .code ((Piece.shade (.comment c)).text ++ x) =
    '/' :: '*' :: blankLiterals opensCLike .code (c.content ++ '*' :: '/' :: x) := by
  rw [comment_append, blankLiterals_other rfl, blankLiterals_other rfl]

/-- The text of a line begins with that of its first piece. -/
theorem lineOf_cons (p : Piece) (ps : List Piece) (remark : Option Text) : lineOf (p :: ps) remark = p.text ++ lineOf ps remark := by
  rw [lineOf, List.flatMap_cons, List.append_assoc, lineOf]

/-- No line begins with a line feed. -/
theorem lineFeed_not_head (ps : List Piece) (remark : Option Text) : (lineOf ps remark).head? ≠ some '\n' := by
  induction ps with
  | nil => cases remark <;> simp [lineOf, remarkText]
  | cons p ps ih =>
    rw [lineOf_cons]
    match p with
    | .code ⟨[], _⟩ => exact ih
    | .code ⟨c :: t, h⟩ => exact fun e => (h c List.mem_cons_self).2.2.2 (Option.some.inj e)
    | .shade (.literal l) =>
      intro e
      have hquote := l.quote_mem
      rw [Option.some.inj e] at hquote
      nomatch hquote
    | .shade (.comment c) => exact fun e => nomatch Option.some.inj e

/-- Code ends no literal, whether a backslash at its end hides the next character or not. -/
theorem closes_code (hq : isQuote q = true) {t y : Text} {b : Bool} (ht : ∀ c ∈ t, isQuote c = false ∧ c ≠ '/' ∧ c ≠ '*' ∧ c ≠ '\n')
    (hline : y.head? ≠ some '\n') (h : closes q y = b ∧ closes q (y.drop 1) = b) :
    closes q (t ++ y) = b ∧ closes q ((t ++ y).drop 1) = b := by
  induction t with
  | nil => exact h
  | cons c t ih =>
    obtain ⟨⟨hc, -⟩, htail⟩ := List.forall_mem_cons.1 ht
    obtain ⟨hnow, hnext⟩ := ih htail
    refine ⟨?_, hnow⟩
    by_cases hbackslash : c = '\\'
    · subst hbackslash
      cases hz : t ++ y with
      | nil => rw [List.cons_append, hz, ← hnow, hz]; rfl
      | cons d z =>
        have hd : d ≠ '\n' := by
          rintro rfl
          cases t with
          | nil => exact hline (congrArg List.head? hz)
          | cons e t => exact (htail e List.mem_cons_self).2.2.2 (List.cons.inj hz).1
        rw [hz] at hnext
        rw [List.cons_append, hz, closes, if_neg hd]
        exact hnext
    · rw [List.cons_append, closes_cons hbackslash, decide_eq_false (ne_quote hc hq), Bool.false_or, hnow]

/-- Where a literal ends is told by the pieces one by one. -/
theorem closes_lineOf (hq : isQuote q = true) (ps : List Piece) (remark : Option Text) :
    closes q (lineOf ps remark) = endsIn q (ps.filterMap (·.shade?)) remark ∧
      closes q ((lineOf ps remark).drop 1) = endsIn q (ps.filterMap (·.shade?)) remark := by
  have hslash : '/' ≠ q := ne_quote rfl hq
  have hstar : '*' ≠ q := ne_quote rfl hq
  induction ps with
  | nil =>
    cases remark with
    | none => exact ⟨rfl, rfl⟩
    | some r =>
      have hone : closes q ('/' :: r) = closes q r := by rw [closes_cons (by decide), decide_eq_false hslash, Bool.false_or]
      have htwo : closes q ('/' :: '/' :: r) = closes q r := by rw [closes_cons (by decide), decide_eq_false hslash, Bool.false_or, hone]
      exact ⟨htwo, hone⟩
  | cons p ps ih =>
    rw [lineOf_cons]
    match p with
    | .code c => exact closes_code hq c.plain (lineFeed_not_head ps remark) ih
    | .shade (.literal l) =>
      have hbackslash := ne_backslash_of_isQuote l.quote_mem
      have hbehind : closes q (l.content ++ l.quote :: lineOf ps remark) = endsIn q (Shade.literal l :: ps.filterMap (·.shade?)) remark := by
        rw [closes_append_content l.complete, closes_cons hbackslash, ih.1, endsIn_cons, Shade.ends, ← Bool.or_assoc,
          Bool.or_comm (closes q l.content)]
      have hagain : (decide (l.quote = q) || endsIn q (Shade.literal l :: ps.filterMap (·.shade?)) remark) =
          endsIn q (Shade.literal l :: ps.filterMap (·.shade?)) remark := by
        rw [endsIn_cons, Shade.ends, ← Bool.or_assoc, ← Bool.or_assoc, Bool.or_self]
      rw [literal_append]
      refine ⟨?_, hbehind⟩
      rw [closes_cons hbackslash, hbehind]
      exact hagain
    | .shade (.comment c) =>
      have hbehind : closes q ('*' :: (c.content ++ '*' :: '/' :: lineOf ps remark)) =
          endsIn q (Shade.comment c :: ps.filterMap (·.shade?)) remark := by
        rw [closes_cons (by decide), decide_eq_false hstar, Bool.false_or, closes_comment hq c.no_lineFeed, ih.1, endsIn_cons, Shade.ends]
      rw [comment_append]
      refine ⟨?_, hbehind⟩
      rw [closes_cons (by decide), decide_eq_false hslash, Bool.false_or, hbehind]
      rfl

/-- Where the quotes of comments stay in them, the pieces are read one by one. -/
theorem blankLiterals_lineOf {ps : List Piece} (h : QuotesStay remark (ps.filterMap (·.shade?))) :
    blankLiterals opensCLike .code (lineOf ps remark) = ps.flatMap (·.blanked) ++ blankLiterals opensCLike .code (remarkText remark) := by
  induction ps with
  | nil => rfl
  | cons p ps ih =>
    rw [lineOf_cons, List.flatMap_cons, List.append_assoc]
    match p with
    | .code c =>
      rw [Piece.text, blankLiterals_append fun d hd => (c.plain d hd).1, ih h]
      rfl
    | .shade (.literal l) =>
      rw [blankLiterals_literal_append, ih h.2]
      rfl
    | .shade (.comment c) =>
      have hclosed : ∀ q ∈ leftOpen .code c.content, closes q (lineOf ps remark) = false := by
        intro q hq
        rw [(closes_lineOf (isQuote_of_mem_leftOpen hq) ps remark).1]
        exact h.1 q hq
      rw [blankLiterals_comment_append, blankLiterals_comment c.no_lineFeed hclosed, ih h.2, Piece.blanked, List.cons_append,
        List.cons_append, List.append_assoc]
      rfl

/-- Of the pieces without their literals, comments become blanks. -/
theorem blankComments_pieces (ps : List Piece) (x : Text) :
    blankComments .code (ps.flatMap (·.blanked) ++ x) = ps.flatMap (·.shown) ++ blankComments .code x := by
  induction ps with
  | nil => rfl
  | cons p ps ih =>
    rw [List.flatMap_cons, List.flatMap_cons, List.append_assoc, List.append_assoc]
    match p with
    | .code c => rw [Piece.blanked, blankComments_append fun hmem => (c.plain _ hmem).2.1 rfl, ih, Piece.shown]
    | .shade (.literal l) => rw [Piece.blanked, blankComments_append (by decide), ih, Piece.shown]
    | .shade (.comment c) =>
      rw [Piece.blanked, List.cons_append, List.cons_append, List.append_assoc, Piece.shown, ← ih]
      exact blankComments_comment (hasEnd_blankLiterals c.no_end) (lineFeed_not_mem_blankLiterals c.no_lineFeed) _

/-- No slash is left of the pieces. -/
theorem slash_not_mem_shown (ps : List Piece) : '/' ∉ ps.flatMap (·.shown) := by
  intro hmem
  obtain ⟨p, -, hp⟩ := List.mem_flatMap.1 hmem
  match p with
  | .code c => exact (c.plain _ hp).2.1 rfl
  | .shade (.literal l) => simp [Piece.shown] at hp
  | .shade (.comment c) => simp [Piece.shown] at hp

/-- Where the quotes of comments stay in them, code is left as it is, of a literal its quotes are left, of a comment a blank, and of the
line comment what it is stripped to alone. -/
theorem stripCLike_lineOf {ps : List Piece} (h : QuotesStay remark (ps.filterMap (·.shade?))) :
    stripCLike (lineOf ps remark) = ps.flatMap (·.shown) ++ stripCLike (remarkText remark) := by
  rw [stripCLike, blankLiterals_lineOf h, blankComments_pieces, before_slashes_append (slash_not_mem_shown ps), stripCLike]

/-- Pieces that are no code are all there is when the code is left out. -/
theorem filterMap_shade (ss : List Shade) : (ss.map Piece.shade).filterMap (·.shade?) = ss := by
  rw [List.filterMap_map]
  exact List.filterMap_some

/-- Pieces that are no code have none. -/
theorem flatMap_codeText_shade (ss : List Shade) : (ss.map Piece.shade).flatMap (·.codeText) = [] := by
  rw [List.flatMap_map]
  exact List.flatMap_eq_nil_iff.2 fun _ _ => rfl

/-- A stretch of code that is one brace. -/
def brace : Code := ⟨['{'], by decide⟩

/-- Where a quote of a comment does not stay in it, a brace behind that comment is lost. -/
theorem exists_swallowed {ss : List Shade} (h : ¬QuotesStay remark ss) :
    ∃ ps : List Piece, ps.filterMap (·.shade?) = ss ∧ ps.flatMap (·.codeText) = ['{'] ∧
      blankLiterals opensCLike .code (lineOf ps remark) = blankLiterals opensCLike .code (lineOf (ss.map .shade) remark) := by
  induction ss with
  | nil => exact absurd trivial h
  | cons s ss ih =>
    by_cases hstay : ∀ q ∈ s.openQuotes, endsIn q ss remark = false
    · obtain ⟨ps, hshades, hcode, hsame⟩ := ih fun hrest => h ⟨hstay, hrest⟩
      refine ⟨.shade s :: ps, by rw [List.filterMap_cons, Piece.shade?, hshades], by rw [List.flatMap_cons, hcode]; rfl, ?_⟩
      rw [List.map_cons, lineOf_cons, lineOf_cons]
      cases s with
      | literal l => rw [blankLiterals_literal_append, blankLiterals_literal_append, hsame]
      | comment c =>
        have hclosed : ∀ ps : List Piece, ps.filterMap (·.shade?) = ss → ∀ q ∈ leftOpen .code c.content, closes q (lineOf ps remark) = false := by
          rintro ps rfl q hq
          rw [(closes_lineOf (isQuote_of_mem_leftOpen hq) ps remark).1]
          exact hstay q hq
        rw [blankLiterals_comment_append, blankLiterals_comment_append, blankLiterals_comment c.no_lineFeed (hclosed ps hshades),
          blankLiterals_comment c.no_lineFeed (hclosed _ (filterMap_shade ss)), hsame]
    · cases s with
      | literal l => exact absurd (fun q hq => nomatch hq) hstay
      | comment c =>
        have hends : ∃ q ∈ leftOpen .code c.content, closes q (lineOf (ss.map .shade) remark) = true := by
          simp only [Classical.not_forall, Bool.not_eq_false] at hstay
          obtain ⟨q, hq, hends⟩ := hstay
          refine ⟨q, hq, ?_⟩
          rw [(closes_lineOf (isQuote_of_mem_leftOpen hq) _ remark).1, filterMap_shade]
          exact hends
        obtain ⟨out, q, hq, hout⟩ := exists_blankLiterals_comment c.no_lineFeed hends
        have hcloses : ∀ p, isQuote p = true → closes p ('{' :: lineOf (ss.map .shade) remark) = closes p (lineOf (ss.map .shade) remark) := by
          intro p hp
          rw [closes_cons (by decide), decide_eq_false (ne_quote rfl hp), Bool.false_or]
        refine ⟨.shade (.comment c) :: .code brace :: ss.map .shade, ?_, ?_, ?_⟩
        · rw [List.filterMap_cons, Piece.shade?, List.filterMap_cons, Piece.shade?, filterMap_shade]
        · rw [List.flatMap_cons, List.flatMap_cons, flatMap_codeText_shade]
          rfl
        · rw [List.map_cons, lineOf_cons, lineOf_cons, lineOf_cons, blankLiterals_comment_append, blankLiterals_comment_append,
            hout _ fun _ _ => rfl]
          have hline : (Piece.code brace).text ++ lineOf (ss.map .shade) remark = '{' :: lineOf (ss.map .shade) remark := rfl
          rw [hline, hout _ hcloses, blankLiterals, if_neg (by decide), if_neg (ne_quote rfl hq)]

/-- What is left of the pieces has the delimiters of their code. -/
theorem count_shown {d : Char} (hd : d ∈ delimiters) (ps : List Piece) :
    (ps.flatMap (·.shown)).count d = (ps.flatMap (·.codeText)).count d := by
  have hshade : ∀ d ∈ delimiters, ['"', '"'].count d = 0 ∧ [' '].count d = 0 := by decide
  induction ps with
  | nil => rfl
  | cons p ps ih =>
    rw [List.flatMap_cons, List.flatMap_cons, List.count_append, List.count_append, ih]
    match p with
    | .code c => rfl
    | .shade (.literal l) => rw [Piece.shown, (hshade d hd).1]; rfl
    | .shade (.comment c) => rw [Piece.shown, (hshade d hd).2]; rfl

/-- Whatever code stands between given literals and comments, its delimiters are those of the stripped line, exactly if the quotes of
comments stay in them and the line comment exposes no delimiter. -/
theorem count_stripCLike_iff (ss : List Shade) (remark : Option Text) :
    (∀ ps : List Piece, ps.filterMap (·.shade?) = ss → ∀ d ∈ delimiters,
        (stripCLike (lineOf ps remark)).count d = (ps.flatMap (·.codeText)).count d) ↔
      QuotesStay remark ss ∧ ∀ d ∈ delimiters, ¬ Exposes remark d := by
  have hmarks : ∀ d ∈ delimiters, d ≠ '/' ∧ d ≠ ' ' := by decide
  constructor
  · intro h
    have hbare : ∀ d ∈ delimiters, (stripCLike (lineOf (ss.map .shade) remark)).count d = 0 := by
      intro d hd
      rw [h _ (filterMap_shade ss) d hd, flatMap_codeText_shade]
      rfl
    have hstay : QuotesStay remark ss := by
      refine Classical.byContradiction fun hnot => ?_
      obtain ⟨ps, hshades, hcode, hsame⟩ := exists_swallowed hnot
      have hbrace := h ps hshades '{' (by decide)
      rw [stripCLike, hsame, hcode] at hbrace
      exact absurd (hbrace.symm.trans (hbare '{' (by decide))) (by decide)
    refine ⟨hstay, fun d hd hexposed => ?_⟩
    have hmem := (mem_stripCLike_remarkText_iff (hmarks d hd).1 (hmarks d hd).2).2 hexposed
    have hcount := hbare d hd
    rw [stripCLike_lineOf (by rwa [filterMap_shade]), List.count_append] at hcount
    exact absurd hmem (List.count_eq_zero.1 (by omega))
  · rintro ⟨hstay, hremark⟩ ps rfl d hd
    have hnone : (stripCLike (remarkText remark)).count d = 0 := by
      refine List.count_eq_zero.2 fun hmem => hremark d hd ?_
      exact (mem_stripCLike_remarkText_iff (hmarks d hd).1 (hmarks d hd).2).1 hmem
    rw [stripCLike_lineOf hstay, List.count_append, count_shown hd, hnone, Nat.add_zero]

end Lines

/-- An apostrophe in each of two comments, and code between them. -/
def twoApostrophes : List Piece :=
  [.shade (.comment ⟨" don't ".text, by decide, by decide⟩), .code ⟨" f() \x7b ".text, by decide⟩,
    .shade (.comment ⟨" can't ".text, by decide, by decide⟩)]

/-- The apostrophes are taken for the quotes of a literal, and the brace is lost in it. -/
theorem count_stripCLike_twoApostrophes :
    (stripCLike (lineOf twoApostrophes none)).count '{' = 0 ∧ (twoApostrophes.flatMap (·.codeText)).count '{' = 1 := by
  constructor <;> decide

end CodeAtlas.Noise
