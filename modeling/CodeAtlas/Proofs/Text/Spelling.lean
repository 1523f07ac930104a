import CodeAtlas.Proofs.Source.CallSites
import CodeAtlas.Proofs.Text.Trim
import Mathlib.Data.List.Basic

/-!
# Words and marks with spaces between them

A statement is a row of words and marks. Written out it has spaces between them, as many as one likes; only next to a comma and inside
brackets there may be none. Joining two such texts by a space joins their rows, and cutting at a mark cuts the row there.
-/

namespace CodeAtlas.Text

/-- A word or a mark: text without blanks. -/
def IsToken (t : Text) : Prop := t ≠ [] ∧ ∀ c ∈ t, isBlank c = false

/-- Whether no space is needed between two tokens: next to a comma, after an opening bracket and before a closing one. -/
def mayTouch (a b : Text) : Bool :=
  [",".text, "(".text, "\x7b".text].contains a || [",".text, ")".text, "\x7d".text].contains b

/-- A token without commas, brackets and braces. -/
def IsPlain (t : Text) : Prop := ∀ c ∈ t, c ∉ [',', '(', ')', '\x7b', '\x7d']

/-- A plain token is none of the marks. -/
theorem IsPlain.ne_mark {t : Text} (h : IsPlain t) {c : Char} (hc : c ∈ [',', '(', ')', '\x7b', '\x7d']) : t ≠ [c] := by
  rintro rfl
  exact h c (List.mem_singleton_self c) hc

/-- A plain token touches only a comma and what closes brackets. -/
theorem mayTouch_eq_false {a b : Text} (ha : IsPlain a) (hb : b ∉ [",".text, ")".text, "\x7d".text]) : mayTouch a b = false := by
  have hopening : a ∉ [",".text, "(".text, "\x7b".text] := by
    simp only [List.mem_cons, List.not_mem_nil, or_false, not_or]
    exact ⟨ha.ne_mark (by decide), ha.ne_mark (by decide), ha.ne_mark (by decide)⟩
  refine Bool.or_eq_false_iff.2 ⟨?_, ?_⟩
  · exact Bool.eq_false_iff.2 fun h => hopening (List.contains_iff_mem.1 h)
  · exact Bool.eq_false_iff.2 fun h => hb (List.contains_iff_mem.1 h)

/-- Between two plain tokens a space is needed. -/
theorem mayTouch_of_isPlain {a b : Text} (ha : IsPlain a) (hb : IsPlain b) : mayTouch a b = false := by
  refine mayTouch_eq_false ha ?_
  simp only [List.mem_cons, List.not_mem_nil, or_false, not_or]
  exact ⟨hb.ne_mark (by decide), hb.ne_mark (by decide), hb.ne_mark (by decide)⟩

/-- A character of a word, or one of some marks that are not blank, is not blank. -/
theorem isBlank_of_wordOr {marks : String} (hmarks : ∀ d ∈ marks.toList, isBlank d = false) {c : Char} (h : Pattern.wordOr marks c = true) :
    isBlank c = false := by
  refine eq_false_of_ne_true fun hblank => ?_
  simp only [Pattern.wordOr, isWordChar_of_isBlank hblank, Bool.false_or, List.contains_iff_mem] at h
  exact Bool.false_ne_true ((hmarks c h).symm.trans hblank)

/-- Word characters make plain tokens. -/
theorem isPlain_of_wordOr {marks : String} (hmarks : ∀ d ∈ [',', '(', ')', '\x7b', '\x7d'], Pattern.wordOr marks d = false) {t : Text}
    (h : ∀ c ∈ t, Pattern.wordOr marks c = true) : IsPlain t :=
  fun c hc hmark => Bool.false_ne_true ((hmarks c hmark).symm.trans (h c hc))

/-- The text has these tokens in this order, and spaces between them. -/
inductive Spells : List Text → Text → Prop where
  | spaces (n : Nat) : Spells [] (List.replicate n ' ')
  | token {t l : Text} {ts : List Text} (n : Nat) : IsToken t → (∀ u ∈ ts.head?, mayTouch t u = true ∨ l.head? = some ' ') → Spells ts l →
    Spells (t :: ts) (List.replicate n ' ' ++ (t ++ l))

theorem isBlank_space : isBlank ' ' = true := by decide

/-- Spaces are blank. -/
theorem isBlank_of_mem_replicate {n : Nat} : ∀ c ∈ List.replicate n ' ', isBlank c = true := by
  intro c hc
  rw [List.eq_of_mem_replicate hc]
  exact isBlank_space

/-- Where two texts with a run of a class in front are the same, so are the runs. -/
theorem eq_of_runs {p : Char → Bool} {a b x y : Text} (h : a ++ x = b ++ y) (ha : ∀ c ∈ a, p c = true) (hb : ∀ c ∈ b, p c = true)
    (hx : ∀ c ∈ x.head?, p c = false) (hy : ∀ c ∈ y.head?, p c = false) : a = b ∧ x = y := by
  have hrun : ∀ {a x : Text}, (∀ c ∈ a, p c = true) → (∀ c ∈ x.head?, p c = false) → (a ++ x).takeWhile p = a := by
    intro a x ha hx
    rw [List.takeWhile_append_of_pos ha]
    cases x with
    | nil => rw [List.takeWhile_nil, List.append_nil]
    | cons c x => rw [List.takeWhile_cons_of_neg (Bool.eq_false_iff.1 (hx c rfl)), List.append_nil]
  have hab : a = b := by rw [← hrun ha hx, h, hrun hb hy]
  exact ⟨hab, List.append_cancel_left (hab ▸ h)⟩

/-- Where two texts with a run of a class behind are the same, so are the runs. -/
theorem eq_of_runs_behind {p : Char → Bool} {a b x y : Text} (h : a ++ x = b ++ y) (hx : ∀ c ∈ x, p c = true) (hy : ∀ c ∈ y, p c = true)
    (ha : ∀ c ∈ a.getLast?, p c = false) (hb : ∀ c ∈ b.getLast?, p c = false) : a = b ∧ x = y := by
  have hreverse : x.reverse ++ a.reverse = y.reverse ++ b.reverse := by rw [← List.reverse_append, h, List.reverse_append]
  obtain ⟨hxy, hab⟩ := eq_of_runs hreverse (fun c hc => hx c (List.mem_reverse.1 hc)) (fun c hc => hy c (List.mem_reverse.1 hc))
    (by rwa [List.head?_reverse]) (by rwa [List.head?_reverse])
  exact ⟨List.reverse_inj.1 hab, List.reverse_inj.1 hxy⟩

section Tokens

variable {t : Text}

/-- No blank is at the front of a token. -/
theorem IsToken.head? (h : IsToken t) (r : Text) : ∀ c ∈ (t ++ r).head?, isBlank c = false := by
  rw [List.head?_append_of_ne_nil _ h.1]
  exact fun c hc => h.2 c (List.mem_of_mem_head? hc)

/-- No blank is at the end of a token. -/
theorem IsToken.getLast? (h : IsToken t) (r : Text) : ∀ c ∈ (r ++ t).getLast?, isBlank c = false := by
  rw [List.getLast?_append_of_ne_nil _ h.1]
  exact fun c hc => h.2 c (List.mem_of_getLast? hc)

/-- A token has no space. -/
theorem IsToken.space_not_mem (h : IsToken t) : ' ' ∉ t := fun hmem => Bool.false_ne_true ((h.2 ' ' hmem).symm.trans isBlank_space)

/-- Texts that begin with a word after blanks, and are the same, have the same word. -/
theorem eq_of_words {b b' v w x y : Text} (h : b ++ (v ++ x) = b' ++ (w ++ y)) (hb : ∀ c ∈ b, isBlank c = true) (hb' : ∀ c ∈ b', isBlank c = true)
    (hv : IsToken v) (hw : IsToken w) (hx : ∀ c ∈ x.head?, isBlank c = true) (hy : ∀ c ∈ y.head?, isBlank c = true) : v = w ∧ x = y := by
  obtain ⟨-, h⟩ := eq_of_runs h hb hb' (hv.head? x) (hw.head? y)
  refine eq_of_runs (p := fun c => !isBlank c) h ?_ ?_ ?_ ?_
  · exact fun c hc => by rw [hv.2 c hc]; rfl
  · exact fun c hc => by rw [hw.2 c hc]; rfl
  · exact fun c hc => by rw [hx c hc]; rfl
  · exact fun c hc => by rw [hy c hc]; rfl

end Tokens

section Ends

variable {a b t : Text}

/-- The last character that is not blank. -/
def lastChar? (t : Text) : Option Char := t.reverse.find? fun c => !isBlank c

/-- The last character of two texts is that of the second, or that of the first if the second is blank. -/
theorem lastChar?_append (a b : Text) : lastChar? (a ++ b) = (lastChar? b).or (lastChar? a) := by
  rw [lastChar?, List.reverse_append, List.find?_append]
  rfl

/-- A blank text has no last character. -/
theorem lastChar?_of_blanks (h : ∀ c ∈ b, isBlank c = true) : lastChar? b = none := by
  refine List.find?_eq_none.2 fun c hc => ?_
  rw [h c (List.mem_reverse.1 hc)]
  decide

/-- Blanks at the end do not change the last character. -/
theorem lastChar?_append_blanks (h : ∀ c ∈ b, isBlank c = true) : lastChar? (a ++ b) = lastChar? a := by
  rw [lastChar?_append, lastChar?_of_blanks h, Option.none_or]

/-- A text that ends in a token ends in the last character of the token. -/
theorem IsToken.lastChar?_append (h : IsToken t) (a : Text) : Text.lastChar? (a ++ t) = t.getLast? := by
  obtain ⟨t, c, rfl⟩ := (List.eq_nil_or_concat' t).resolve_left h.1
  have hlast : Text.lastChar? [c] = some c := List.find?_cons_of_pos (by rw [h.2 c (List.mem_append_right t List.mem_cons_self)]; rfl)
  rw [← List.append_assoc, Text.lastChar?_append, hlast, List.getLast?_concat]
  rfl

end Ends

section Gaps

variable {g g' : Text}

/-- Blanks, and at least one. -/
def IsGap (g : Text) : Prop := g ≠ [] ∧ ∀ c ∈ g, isBlank c = true

/-- A gap begins with a blank. -/
theorem IsGap.head? (h : IsGap g) (r : Text) : ∀ c ∈ (g ++ r).head?, isBlank c = true := by
  rw [List.head?_append_of_ne_nil _ h.1]
  exact fun c hc => h.2 c (List.mem_of_mem_head? hc)

/-- Two gaps are a gap. -/
theorem IsGap.append (h : IsGap g) (h' : IsGap g') : IsGap (g ++ g') :=
  ⟨List.append_ne_nil_of_left_ne_nil h.1 g', List.forall_mem_append.2 ⟨h.2, h'.2⟩⟩

/-- Spaces, at least one, are a gap. -/
theorem isGap_spaces (n : Nat) : IsGap (' ' :: List.replicate n ' ') :=
  ⟨List.cons_ne_nil _ _, List.forall_mem_cons.2 ⟨isBlank_space, isBlank_of_mem_replicate⟩⟩

/-- A space is a blank at the front. -/
theorem head?_space (r : Text) : ∀ c ∈ (' ' :: r).head?, isBlank c = true := by
  rintro c ⟨⟩
  exact isBlank_space

end Gaps

namespace Spells

variable {ts us : List Text} {t l m : Text}

/-- What a text spells are tokens. -/
theorem isToken (h : Spells ts l) : ∀ t ∈ ts, IsToken t := by
  induction h with
  | spaces => exact nofun
  | token n ht _ _ ih => exact List.forall_mem_cons.2 ⟨ht, ih⟩

/-- A text is made of spaces and the characters of its tokens. -/
theorem of_mem (h : Spells ts l) {c : Char} (hc : c ∈ l) : c = ' ' ∨ ∃ t ∈ ts, c ∈ t := by
  induction h with
  | spaces n => exact Or.inl (List.eq_of_mem_replicate hc)
  | token n _ _ _ ih =>
    rcases List.mem_append.1 hc with hc | hc
    · exact Or.inl (List.eq_of_mem_replicate hc)
    rcases List.mem_append.1 hc with hc | hc
    · exact Or.inr ⟨_, List.mem_cons_self, hc⟩
    · exact (ih hc).imp_right fun ⟨t, ht, hc⟩ => ⟨t, List.mem_cons_of_mem _ ht, hc⟩

/-- Of all blanks there are only spaces. -/
theorem not_mem_of_isBlank (h : Spells ts l) {c : Char} (hc : isBlank c = true) (hspace : c ≠ ' ') : c ∉ l := by
  intro hmem
  obtain e | ⟨t, ht, hct⟩ := h.of_mem hmem
  · exact hspace e
  · exact Bool.false_ne_true (((h.isToken t ht).2 c hct).symm.trans hc)

/-- Apart from spaces, a text has the characters of its tokens. -/
theorem count_eq (h : Spells ts l) {c : Char} (hc : c ≠ ' ') : l.count c = ts.flatten.count c := by
  have hspaces : ∀ n, (List.replicate n ' ').count c = 0 := fun n => List.count_eq_zero.2 fun h => hc (List.eq_of_mem_replicate h)
  induction h with
  | spaces n => exact hspaces n
  | token n _ _ _ ih => rw [List.count_append, List.count_append, hspaces, Nat.zero_add, ih, List.flatten_cons, List.count_append]

/-- A text without tokens consists of spaces. -/
theorem eq_replicate (h : Spells [] l) : ∃ n, l = List.replicate n ' ' := by
  cases h with
  | spaces n => exact ⟨n, rfl⟩

/-- A text with a token is not empty. -/
theorem ne_nil (h : Spells (t :: ts) l) : l ≠ [] := by
  cases h with
  | token n ht _ _ => exact List.append_ne_nil_of_right_ne_nil _ (List.append_ne_nil_of_left_ne_nil ht.1 _)

/-- Spaces in front change nothing. -/
theorem after_spaces (h : Spells ts l) (n : Nat) : Spells ts (List.replicate n ' ' ++ l) := by
  cases h with
  | spaces k =>
    rw [List.replicate_append_replicate]
    exact .spaces (n + k)
  | token k ht htouch hrest =>
    rw [← List.append_assoc, List.replicate_append_replicate]
    exact .token (n + k) ht htouch hrest

/-- Every row of tokens can be written out, with one space between any two. -/
theorem of_tokens (h : ∀ t ∈ ts, IsToken t) : Spells ts ([' '].intercalate ts) := by
  induction ts with
  | nil => exact .spaces 0
  | cons t ts ih =>
    obtain ⟨ht, hts⟩ := List.forall_mem_cons.1 h
    cases ts with
    | nil =>
      have hspells : Spells [t] (List.replicate 0 ' ' ++ (t ++ List.replicate 0 ' ')) := .token 0 ht (fun _ hu => nomatch hu) (.spaces 0)
      rw [List.intercalate_singleton]
      rwa [List.replicate_zero, List.nil_append, List.append_nil] at hspells
    | cons u ts =>
      rw [List.intercalate_cons_cons, List.append_assoc]
      exact .token 0 ht (fun _ _ => Or.inr rfl) ((ih hts).after_spaces 1)

/-- Blanks in front may be left off. -/
theorem of_blanks_append {g : Text} (h : Spells ts (g ++ l)) (hg : ∀ c ∈ g, isBlank c = true) : Spells ts l := by
  generalize hall : g ++ l = all at h
  cases h with
  | spaces n =>
    have hl : ∀ c ∈ l, c = ' ' := fun c hc => List.eq_of_mem_replicate (hall ▸ List.mem_append_right g hc)
    rw [List.eq_replicate_of_mem hl]
    exact .spaces _
  | @token t l' ts n ht htouch hrest =>
    induction n generalizing g with
    | zero =>
      cases g with
      | nil =>
        rw [List.nil_append] at hall
        rw [hall]
        exact .token 0 ht htouch hrest
      | cons c g =>
        have hhead := ht.head? l' c (by rw [← List.nil_append (t ++ l'), ← List.replicate_zero, ← hall]; rfl)
        exact absurd ((hg c List.mem_cons_self).symm.trans hhead) (by decide)
    | succ n ih =>
      cases g with
      | nil =>
        rw [List.nil_append] at hall
        rw [hall]
        exact .token (n + 1) ht htouch hrest
      | cons c g =>
        rw [List.replicate_succ, List.cons_append, List.cons_append] at hall
        exact ih (fun c hc => hg c (List.mem_cons_of_mem _ hc)) (List.cons.inj hall).2

/-- Between two tokens that may not touch there is a space. -/
theorem exists_gap {u : Text} (h : Spells (t :: u :: ts) l) (hu : mayTouch t u = false) :
    ∃ n l', l = List.replicate n ' ' ++ (t ++ ' ' :: l') ∧ Spells (u :: ts) l' := by
  cases h with
  | @token _ l _ n _ htouch hrest =>
    have hhead : l.head? = some ' ' := (htouch u rfl).resolve_left (Bool.eq_false_iff.1 hu)
    obtain ⟨l', rfl⟩ := List.head?_eq_some_iff.1 hhead
    exact ⟨n, l', rfl, of_blanks_append (g := [' ']) hrest (List.forall_mem_singleton.2 isBlank_space)⟩

/-- Behind a plain token stands a space, a comma or a closing bracket, if anything. -/
theorem exists_behind (h : Spells (t :: ts) l) (ht : IsPlain t) :
    ∃ n l', l = List.replicate n ' ' ++ (t ++ l') ∧ ∀ c ∈ l'.head?, c ∈ [' ', ',', ')', '\x7d'] := by
  cases h with
  | @token _ l _ n _ htouch hrest =>
    refine ⟨n, l, rfl, fun c hc => ?_⟩
    have hspace : ∀ {k : Nat} {l' : Text}, c ∈ (List.replicate (k + 1) ' ' ++ l').head? → c ∈ [' ', ',', ')', '\x7d'] := by
      rintro k l' ⟨⟩
      exact List.mem_cons_self
    cases hrest with
    | spaces k =>
      cases k with
      | zero => nomatch hc
      | succ k => exact hspace (List.append_nil (List.replicate (k + 1) ' ') ▸ hc)
    | @token u l' us k hu _ _ =>
      cases k with
      | succ k => exact hspace hc
      | zero =>
        by_cases hmark : u ∈ [",".text, ")".text, "\x7d".text]
        · simp only [List.mem_cons, List.not_mem_nil, or_false] at hmark
          rcases hmark with rfl | rfl | rfl <;> cases hc <;> decide
        · have hgap := (htouch u rfl).resolve_left (Bool.eq_false_iff.1 (mayTouch_eq_false ht hmark))
          rw [Option.mem_def.1 hc] at hgap
          cases hgap
          exact List.mem_cons_self

/-- Two texts with a space between them have the tokens of both. -/
theorem joined (h : Spells ts l) (h' : Spells us m) : Spells (ts ++ us) (l ++ ' ' :: m) := by
  induction h with
  | spaces n =>
    have hspace : List.replicate n ' ' ++ ' ' :: m = List.replicate (n + 1) ' ' ++ m := by
      rw [List.replicate_succ', List.append_assoc, List.singleton_append]
    rw [hspace]
    exact h'.after_spaces (n + 1)
  | @token t l ts n ht htouch hrest ih =>
    rw [List.append_assoc, List.append_assoc]
    refine .token n ht (fun u hu => ?_) ih
    cases ts with
    | nil =>
      obtain ⟨k, rfl⟩ := hrest.eq_replicate
      exact Or.inr (by cases k <;> rfl)
    | cons v ts =>
      refine (htouch u hu).imp_right fun hspace => ?_
      rw [List.head?_append_of_ne_nil _ hrest.ne_nil, hspace]

/-- Behind its last token a text has nothing but spaces. -/
theorem exists_spaces (h : Spells ts l) : ∃ l' n, l = l' ++ List.replicate n ' ' ∧ Spells ts l' ∧ ∀ c ∈ l'.getLast?, isBlank c = false := by
  induction h with
  | spaces n => exact ⟨[], n, rfl, .spaces 0, nofun⟩
  | @token t l ts n ht htouch hrest ih =>
    obtain ⟨l', k, rfl, hspells, hlast⟩ := ih
    refine ⟨List.replicate n ' ' ++ (t ++ l'), k, by simp only [List.append_assoc], .token n ht (fun u hu => ?_) hspells, ?_⟩
    · refine (htouch u hu).imp_right fun hspace => ?_
      cases ts with
      | nil => nomatch hu
      | cons v ts => rwa [List.head?_append_of_ne_nil _ hspells.ne_nil] at hspace
    · cases l' with
      | nil =>
        rw [List.append_nil]
        exact ht.getLast? _
      | cons c l' =>
        rw [← List.append_assoc, List.getLast?_append_of_ne_nil _ (List.cons_ne_nil c l')]
        exact hlast

/-- A text spells its tokens also when its end is trimmed. -/
theorem trimRight (h : Spells ts l) : Spells ts (trimRight isBlank l) := by
  obtain ⟨l', n, rfl, hspells, hlast⟩ := h.exists_spaces
  rwa [trimRight_append isBlank_of_mem_replicate, trimRight_eq_self hlast]

/-- So it does when its front is trimmed. -/
theorem trimLeft (h : Spells ts l) : Spells ts (trimLeft isBlank l) := by
  cases h with
  | spaces n =>
    have hspaces : Text.trimLeft isBlank (List.replicate n ' ' ++ []) = [] := trimLeft_append isBlank_of_mem_replicate []
    rw [List.append_nil] at hspaces
    rw [hspaces]
    exact .spaces 0
  | token n ht htouch hrest =>
    rw [trimLeft_append isBlank_of_mem_replicate, trimLeft_eq_self (ht.head? _)]
    exact .token 0 ht htouch hrest

/-- So it does when both are trimmed. -/
theorem strip (h : Spells ts l) : Spells ts (strip l) := h.trimLeft.trimRight

/-- A row of tokens can be cut anywhere. -/
theorem exists_append (h : Spells (ts ++ us) l) : ∃ a b, l = a ++ b ∧ Spells ts a ∧ Spells us b := by
  induction ts generalizing l with
  | nil => exact ⟨[], l, rfl, .spaces 0, h⟩
  | cons t ts ih =>
    cases h with
    | token n ht htouch hrest =>
      obtain ⟨a, b, rfl, ha, hb⟩ := ih hrest
      refine ⟨List.replicate n ' ' ++ (t ++ a), b, by simp only [List.append_assoc], .token n ht (fun u hu => ?_) ha, hb⟩
      cases ts with
      | nil => nomatch hu
      | cons v ts =>
        refine (htouch u hu).imp_right fun hspace => ?_
        rwa [List.head?_append_of_ne_nil _ ha.ne_nil] at hspace

/-- So it does with spaces behind it. -/
theorem before_spaces (h : Spells ts l) (n : Nat) : Spells ts (l ++ List.replicate n ' ') := by
  cases n with
  | zero =>
    rw [List.replicate_zero, List.append_nil]
    exact h
  | succ n =>
    have hjoined := h.joined (.spaces n)
    rwa [List.append_nil] at hjoined

/-- Blanks behind may be left off. -/
theorem of_append_blanks {g : Text} (h : Spells ts (l ++ g)) (hg : ∀ c ∈ g, isBlank c = true) : Spells ts l := by
  obtain ⟨l', n, hl, hspells, hlast⟩ := h.exists_spaces
  obtain ⟨b, hb, hblank, hend⟩ := exists_trimRight isBlank l
  rw [hb, List.append_assoc] at hl
  obtain ⟨htrim, hspaces⟩ := eq_of_runs_behind hl (List.forall_mem_append.2 ⟨hblank, hg⟩) isBlank_of_mem_replicate hend hlast
  have hspace : ∀ c ∈ b, c = ' ' := fun c hc => List.eq_of_mem_replicate (hspaces ▸ List.mem_append_left g hc)
  rw [hb, htrim, List.eq_replicate_of_mem hspace]
  exact hspells.before_spaces _

/-- A single token has spaces on both sides. -/
theorem exists_single (h : Spells [t] l) : ∃ n k, l = List.replicate n ' ' ++ (t ++ List.replicate k ' ') ∧ IsToken t := by
  cases h with
  | token n ht _ hrest =>
    obtain ⟨k, rfl⟩ := hrest.eq_replicate
    exact ⟨n, k, rfl, ht⟩

/-- A text ends in its last token. -/
theorem lastChar?_eq (h : Spells (ts ++ [t]) l) : lastChar? l = t.getLast? := by
  obtain ⟨a, z, rfl, -, hz⟩ := h.exists_append
  obtain ⟨n, k, rfl, ht⟩ := hz.exists_single
  rw [← List.append_assoc, ← List.append_assoc, lastChar?_append_blanks isBlank_of_mem_replicate]
  exact ht.lastChar?_append _

/-- What stands in front of the last token spells the others. -/
theorem of_last {b : Text} (h : Spells (ts ++ [t]) (l ++ (t ++ b))) (hb : ∀ c ∈ b, isBlank c = true) : Spells ts l := by
  obtain ⟨a, z, hall, ha, hz⟩ := h.exists_append
  obtain ⟨n, k, rfl, ht⟩ := hz.exists_single
  rw [← List.append_assoc, ← List.append_assoc, ← List.append_assoc] at hall
  obtain ⟨hfront, -⟩ := eq_of_runs_behind hall hb isBlank_of_mem_replicate (ht.getLast? l) (ht.getLast? _)
  rw [List.append_cancel_right hfront]
  exact ha.before_spaces n

/-- What stands behind the first token spells the others. -/
theorem of_first (h : Spells (t :: ts) (t ++ l)) : Spells ts l := by
  generalize hall : t ++ l = all at h
  cases h with
  | @token _ l' _ n ht _ hrest =>
    have hall : t ++ l = List.replicate n ' ' ++ (t ++ l') := hall
    obtain ⟨-, hsame⟩ := eq_of_runs (a := []) hall nofun isBlank_of_mem_replicate (ht.head? l) (ht.head? l')
    rw [List.append_cancel_left hsame]
    exact hrest

/-- At a mark, the text is cut in two. -/
theorem exists_mark (h : Spells (ts ++ t :: us) l) : ∃ a b, l = a ++ (t ++ b) ∧ Spells ts a ∧ Spells us b := by
  obtain ⟨a, b, rfl, ha, hb⟩ := h.exists_append
  cases hb with
  | token n _ _ hrest => exact ⟨a ++ List.replicate n ' ', _, (List.append_assoc _ _ _).symm, ha.before_spaces n, hrest⟩

/-- The trimmed text of a single token is the token. -/
theorem strip_eq_of_singleton (h : Spells [t] l) : Text.strip l = t := by
  obtain ⟨n, k, rfl, ht⟩ := h.exists_single
  have hlast : ∀ c ∈ t.getLast?, isBlank c = false := fun c hc => ht.2 c (List.mem_of_getLast? hc)
  rw [Text.strip, trim, trimLeft_append isBlank_of_mem_replicate, trimLeft_eq_self (ht.head? _),
    trimRight_append isBlank_of_mem_replicate, trimRight_eq_self hlast]

/-- A trimmed text begins with its first token. -/
theorem exists_strip (h : Spells (t :: ts) l) : ∃ l', Text.strip l = t ++ l' := by
  cases h with
  | @token _ l _ n ht _ hrest =>
    obtain ⟨l', k, rfl, -, hlast⟩ := hrest.exists_spaces
    refine ⟨l', ?_⟩
    have hends : ∀ c ∈ (t ++ l').getLast?, isBlank c = false := by
      cases l' with
      | nil =>
        rw [List.append_nil]
        exact ht.getLast? []
      | cons c l' => rwa [List.getLast?_append_of_ne_nil _ (List.cons_ne_nil c l')]
    rw [Text.strip, trim, trimLeft_append isBlank_of_mem_replicate, trimLeft_eq_self (ht.head? _), ← List.append_assoc,
      trimRight_append isBlank_of_mem_replicate, trimRight_eq_self hends]

/-- Where the second token may not touch the first, the trimmed text has a space behind the first. -/
theorem exists_strip_gap {u : Text} (h : Spells (t :: u :: ts) l) (hu : mayTouch t u = false) :
    ∃ l', Text.strip l = t ++ ' ' :: l' ∧ Spells (u :: ts) l' := by
  obtain ⟨n, l', hl, hspells⟩ := h.strip.exists_gap hu
  obtain ⟨l'', hstrip⟩ := h.exists_strip
  cases n with
  | zero => exact ⟨l', hl, hspells⟩
  | succ n =>
    have hhead := (h.isToken t List.mem_cons_self).head? l'' ' ' (by rw [← hstrip, hl]; rfl)
    exact absurd hhead (by decide)

/-- A text without tokens is trimmed to nothing. -/
theorem strip_eq_nil (h : Spells [] l) : Text.strip l = [] := by
  obtain ⟨n, rfl⟩ := h.eq_replicate
  have hspaces : Text.trimLeft isBlank (List.replicate n ' ' ++ []) = [] := trimLeft_append isBlank_of_mem_replicate []
  rw [List.append_nil] at hspaces
  rw [Text.strip, trim, hspaces]
  rfl

end Spells

end CodeAtlas.Text
