import CodeAtlas.Proofs.Text.Brackets
import CodeAtlas.Proofs.Text.Trim
import CodeAtlas.Source.Header

/-!
# Counting parameters

A parameter list is cut at the commas outside brackets, and one counter stands for the depth in all four kinds of them. It takes the end
of an arrow for a closing bracket, so behind an arrow it lies lower than the brackets are deep. The parameters are counted right exactly
when every comma inside brackets has more brackets open around it than arrows before it.
-/

namespace CodeAtlas.Header

open Text

/-- The brackets of a parameter list. -/
def parameterBrackets : List (Char × Char) := [('<', '>'), ('(', ')'), ('[', ']'), ('{', '}')]

/-- Whether a character opens or closes one of them. -/
def isBracket (c : Char) : Bool := parameterBrackets.any fun p => p.1 == c || p.2 == c

/-- How many more brackets a text opens than it closes. -/
def bracketDepth (t : Text) : Int := balance "<([\x7b" ">)]\x7d" t

/-- Whether two characters are an arrow. -/
def isArrow (c d : Char) : Bool := (c == '=' || c == '-') && d == '>'

/-- The text without its arrows. -/
def withoutArrows : Text → Text
  | c :: d :: r => if isArrow c d then withoutArrows r else c :: withoutArrows (d :: r)
  | t => t

/-- How many arrows a text has. -/
def arrows : Text → Nat
  | c :: d :: r => if isArrow c d then arrows r + 1 else arrows (d :: r)
  | _ => 0

/-- The text is one parameter that counts: it is neither blank nor left out, and apart from arrows its brackets are nested and its commas
inside them. -/
structure IsParameter (skip : List String) (t : Text) : Prop where
  not_blank : strip t ≠ []
  not_skipped : String.ofList (strip t) ∉ skip
  nested : Nested parameterBrackets (withoutArrows t)
  commas : ∀ a b, t = a ++ ',' :: b → 0 < bracketDepth (withoutArrows a)

/-- Parameters with commas between them, and with a comma behind the last or not. -/
def listed (ts : List Text) (trailing : Bool) : Text := join "," ts ++ if trailing then [','] else []

/-- Every comma inside brackets has more brackets open around it than arrows before it, `before` of which stand before the text. -/
def CommasHeld (before : Nat) (t : Text) : Prop :=
  ∀ a b, t = a ++ ',' :: b → 0 < bracketDepth (withoutArrows a) → before + arrows a < bracketDepth (withoutArrows a)

/-! ## Depth and arrows -/

section Depth

variable {a b t : Text} {c : Char}

theorem bracketDepth_append (a b : Text) : bracketDepth (a ++ b) = bracketDepth a + bracketDepth b := by
  simp only [bracketDepth, balance, countAny, List.countP_append]
  omega

theorem bracketDepth_nil : bracketDepth [] = 0 := rfl

theorem bracketDepth_comma : bracketDepth [','] = 0 := rfl

/-- The depth of a text is that of its first character and of the rest. -/
theorem bracketDepth_cons (c : Char) (t : Text) : bracketDepth (c :: t) = bracketDepth [c] + bracketDepth t :=
  bracketDepth_append [c] t

/-- A character that is no bracket has depth nought. -/
theorem bracketDepth_of_not_bracket (h : isBracket c = false) : bracketDepth [c] = 0 := by
  simp [isBracket, parameterBrackets] at h
  simp [bracketDepth, balance, countAny]
  grind

/-- So has a text without brackets. -/
theorem bracketDepth_eq_zero (h : ∀ c ∈ t, isBracket c = false) : bracketDepth t = 0 := by
  induction t with
  | nil => rfl
  | cons c t ih =>
    rw [bracketDepth_cons, bracketDepth_of_not_bracket (h c List.mem_cons_self), ih fun d hd => h d (List.mem_cons_of_mem c hd)]
    rfl

/-- Nested brackets leave the depth as it is. -/
theorem bracketDepth_of_nested (h : Nested parameterBrackets t) : bracketDepth t = 0 := by
  induction h with
  | nil => rfl
  | @other c t hc _ ih =>
    have hbracket : isBracket c = false := by
      refine List.any_eq_false.2 fun p hp => ?_
      simp [(hc p hp).1.symm, (hc p hp).2.symm]
    rw [bracketDepth_cons, bracketDepth_of_not_bracket hbracket, ih]
    rfl
  | @pair p inside after hp _ _ ihInside ihAfter =>
    have hpair : ∀ p ∈ parameterBrackets, bracketDepth [p.1] + bracketDepth [p.2] = 0 := by decide
    rw [bracketDepth_cons, bracketDepth_append, bracketDepth_cons p.2, ihInside, ihAfter]
    have := hpair p hp
    omega

/-- The end of each arrow counts as a closing bracket. -/
theorem bracketDepth_eq_sub (t : Text) : bracketDepth t = bracketDepth (withoutArrows t) - arrows t := by
  fun_induction withoutArrows t with
  | case1 c d r h ih =>
    have harrow : bracketDepth [c] + bracketDepth [d] = -1 := by
      obtain ⟨hc, hd⟩ := Bool.and_eq_true_iff.1 h
      obtain rfl := beq_iff_eq.1 hd
      rcases Bool.or_eq_true_iff.1 hc with hc | hc <;> obtain rfl := beq_iff_eq.1 hc <;> rfl
    rw [bracketDepth_cons, bracketDepth_cons d, ih, arrows, if_pos h]
    omega
  | case2 c d r h ih =>
    rw [bracketDepth_cons, ih, bracketDepth_cons c (withoutArrows _), arrows, if_neg h]
    omega
  | case3 t h =>
    have hnone : arrows t = 0 := by
      unfold arrows
      split
      · exact absurd rfl (h _ _ _)
      · rfl
    rw [hnone]
    exact (Int.sub_zero _).symm

/-- A comma is no part of an arrow. -/
theorem isArrow_comma (c : Char) : isArrow c ',' = false ∧ isArrow ',' c = false := ⟨Bool.and_false _, rfl⟩

/-- No arrow reaches over a comma. -/
theorem withoutArrows_append_comma (a b : Text) : withoutArrows (a ++ ',' :: b) = withoutArrows a ++ ',' :: withoutArrows b := by
  have hcomma : withoutArrows (',' :: b) = ',' :: withoutArrows b := by cases b <;> rfl
  fun_induction withoutArrows a with
  | case1 c d r h ih => rw [List.cons_append, List.cons_append, withoutArrows, if_pos h, ih]
  | case2 c d r h ih => rw [List.cons_append, List.cons_append, withoutArrows, if_neg h, ← List.cons_append, ih, List.cons_append]
  | case3 t h =>
    match t with
    | [] => exact hcomma
    | [c] => rw [List.singleton_append, withoutArrows, if_neg (by simp [isArrow_comma]), hcomma]; rfl
    | c :: d :: r => exact absurd rfl (h c d r)

/-- The arrows of two texts with a comma between are those of both. -/
theorem arrows_append_comma (a b : Text) : arrows (a ++ ',' :: b) = arrows a + arrows b := by
  have hcomma : arrows (',' :: b) = arrows b := by cases b <;> rfl
  fun_induction arrows a with
  | case1 c d r h ih => rw [List.cons_append, List.cons_append, arrows, if_pos h, ih]; omega
  | case2 c d r h ih => rw [List.cons_append, List.cons_append, arrows, if_neg h, ← List.cons_append, ih]
  | case3 t h =>
    match t with
    | [] => rw [List.nil_append, hcomma, Nat.zero_add]
    | [c] => rw [List.singleton_append, arrows, if_neg (by simp [isArrow_comma]), hcomma, Nat.zero_add]
    | c :: d :: r => exact absurd rfl (h c d r)

/-- What is left without arrows was there with them. -/
theorem mem_of_mem_withoutArrows (h : c ∈ withoutArrows t) : c ∈ t := by
  fun_induction withoutArrows t with
  | case1 d e r _ ih => exact List.mem_cons_of_mem d (List.mem_cons_of_mem e (ih h))
  | case2 d e r _ ih => exact (List.mem_cons.1 h).elim (fun e => e ▸ List.mem_cons_self) fun h => List.mem_cons_of_mem d (ih h)
  | case3 => exact h

/-- A text that is out of balance apart from its arrows has a bracket. -/
theorem exists_bracket (h : bracketDepth (withoutArrows t) ≠ 0) : ∃ c ∈ t, isBracket c = true := by
  refine Classical.byContradiction fun hnone => h (bracketDepth_eq_zero fun c hc => ?_)
  exact Bool.eq_false_iff.2 fun hbracket => hnone ⟨c, mem_of_mem_withoutArrows hc, hbracket⟩

end Depth

/-! ## Cutting a list -/

section Cutting

variable {a b t r : Text} {c : Char} {depth : Int}

/-- A comma outside of brackets begins another piece; any other character belongs to the first piece. -/
theorem parameters_cons (depth : Int) (c : Char) (r : Text) :
    parameters depth (c :: r) =
      if c = ',' ∧ depth ≤ 0 then [] :: parameters depth r else consHead c (parameters (depth + bracketDepth [c]) r) := by
  have hstep : (if parameters.among "<([\x7b" c then depth + 1 else if parameters.among ">)]\x7d" c then depth - 1 else depth) =
      depth + bracketDepth [c] := by
    simp [parameters.among, bracketDepth, balance, countAny]
    grind
  rw [parameters, hstep]
  by_cases hc : c = ','
  · subst hc
    rw [bracketDepth_comma, Int.add_zero]
  · rw [if_neg fun h => hc h.1, if_neg fun h => hc h.1]

/-- There is always a piece. -/
theorem parameters_ne_nil (depth : Int) (t : Text) : parameters depth t ≠ [] := by
  cases t with
  | nil => exact List.cons_ne_nil _ _
  | cons c r =>
    rw [parameters_cons]
    split
    · exact List.cons_ne_nil _ _
    · cases parameters (depth + bracketDepth [c]) r <;> exact List.cons_ne_nil _ _

/-- A character in front belongs to the first of all pieces. -/
theorem consHead_append {ps : List Text} (h : ps ≠ []) (c : Char) (qs : List Text) : consHead c (ps ++ qs) = consHead c ps ++ qs := by
  cases ps with
  | nil => exact absurd rfl h
  | cons p ps => rfl

/-- A list is cut at a comma that no bracket is open around, as far as the counter tells. -/
theorem parameters_append (h : depth + bracketDepth t ≤ 0) :
    parameters depth (t ++ ',' :: r) = parameters depth t ++ parameters (depth + bracketDepth t) r := by
  induction t generalizing depth with
  | nil =>
    rw [bracketDepth_nil, Int.add_zero] at h ⊢
    rw [List.nil_append, parameters_cons, if_pos ⟨rfl, h⟩]
    rfl
  | cons c t ih =>
    rw [bracketDepth_cons, ← Int.add_assoc] at h ⊢
    rw [List.cons_append, parameters_cons, parameters_cons, ih h, consHead_append (parameters_ne_nil _ _)]
    split
    · rename_i hcomma
      have hsame : depth + bracketDepth [c] = depth := by
        rw [hcomma.1]
        exact Int.add_zero depth
      rw [hsame] at h ⊢
      rw [ih h, List.cons_append]
    · rfl

/-- A text is left whole when the counter finds a bracket open around each of its commas. -/
theorem parameters_of_held (h : ∀ a b, t = a ++ ',' :: b → 0 < depth + bracketDepth a) : parameters depth t = [t] := by
  induction t generalizing depth with
  | nil => rfl
  | cons c t ih =>
    have hcut : ¬(c = ',' ∧ depth ≤ 0) := by
      rintro ⟨rfl, hdepth⟩
      have hopen : 0 < depth + bracketDepth [] := h [] t rfl
      rw [bracketDepth_nil] at hopen
      omega
    rw [parameters_cons, if_neg hcut, ih]
    · rfl
    · rintro a b rfl
      have hopen := h (c :: a) b rfl
      rwa [bracketDepth_cons, ← Int.add_assoc] at hopen

/-- Every character but a comma is kept in one of the pieces. -/
theorem exists_mem_parameters (depth : Int) (hc : c ∈ t) (hcomma : c ≠ ',') : ∃ p ∈ parameters depth t, c ∈ p := by
  induction t generalizing depth with
  | nil => nomatch hc
  | cons d t ih =>
    rw [parameters_cons]
    rcases List.mem_cons.1 hc with rfl | hc
    · rw [if_neg fun h => hcomma h.1]
      cases parameters (depth + bracketDepth [c]) t <;> exact ⟨_, List.mem_cons_self, List.mem_cons_self⟩
    · split
      · obtain ⟨p, hp, hcp⟩ := ih depth hc
        exact ⟨p, List.mem_cons_of_mem [] hp, hcp⟩
      · obtain ⟨p, hp, hcp⟩ := ih (depth + bracketDepth [d]) hc
        cases hrest : parameters (depth + bracketDepth [d]) t with
        | nil => exact absurd hrest (parameters_ne_nil _ _)
        | cons q qs =>
          rw [hrest] at hp
          rcases List.mem_cons.1 hp with rfl | hp
          · exact ⟨d :: p, List.mem_cons_self, List.mem_cons_of_mem d hcp⟩
          · exact ⟨p, List.mem_cons_of_mem _ hp, hcp⟩

end Cutting

/-! ## Counting -/

section Counting

variable {skip : List String} {t a b : Text} {before : Nat} {ts : List Text}

/-- How many pieces of a text count when the counter begins at a depth. -/
def countFrom (skip : List String) (depth : Int) (t : Text) : Nat :=
  ((parameters depth t).map strip).countP fun p => !p.isEmpty && !skip.contains (String.ofList p)

/-- A comma that is outside of brackets begins a count of its own. -/
theorem countFrom_append {depth : Int} (h : depth + bracketDepth t ≤ 0) (r : Text) :
    countFrom skip depth (t ++ ',' :: r) = countFrom skip depth t + countFrom skip (depth + bracketDepth t) r := by
  rw [countFrom, parameters_append h, List.map_append, List.countP_append]
  rfl

/-- A text with a bracket has a piece that counts, when nothing with a bracket is left out. -/
theorem one_le_countFrom (hskip : ∀ s ∈ skip, ∀ c ∈ s.toList, isBracket c = false) (h : ∃ c ∈ t, isBracket c = true) (depth : Int) :
    1 ≤ countFrom skip depth t := by
  obtain ⟨c, hc, hbracket⟩ := h
  have hne : c ≠ ',' := fun e => nomatch e ▸ hbracket
  have hblank : isBlank c = false := by
    refine Bool.eq_false_iff.2 fun hblank => ?_
    simp [isBracket, parameterBrackets] at hbracket
    rcases hbracket with (rfl | rfl) | (rfl | rfl) | (rfl | rfl) | (rfl | rfl) <;> nomatch hblank
  obtain ⟨p, hp, hcp⟩ := exists_mem_parameters depth hc hne
  have hmem : c ∈ strip p := mem_trim hcp hblank
  have hcounts : (!(strip p).isEmpty && !skip.contains (String.ofList (strip p))) = true := by
    have hkept : String.ofList (strip p) ∉ skip := fun hs =>
      Bool.false_ne_true ((hskip _ hs c (by rwa [String.toList_ofList])).symm.trans hbracket)
    simp [List.ne_nil_of_mem hmem, hkept]
  exact List.countP_pos_iff.2 ⟨strip p, List.mem_map_of_mem hp, hcounts⟩

namespace IsParameter

/-- Apart from its arrows, a parameter closes the brackets that it opens. -/
theorem bracketDepth_eq (h : IsParameter skip t) : bracketDepth t = -arrows t := by
  rw [bracketDepth_eq_sub, bracketDepth_of_nested h.nested, Int.zero_sub]

/-- A parameter whose commas are held counts once. -/
theorem countFrom_eq_one (h : IsParameter skip t) (hheld : CommasHeld before t) : countFrom skip (-before) t = 1 := by
  have hwhole : parameters (-before) t = [t] := by
    refine parameters_of_held fun a b hab => ?_
    have hopen := hheld a b hab (h.commas a b hab)
    rw [bracketDepth_eq_sub]
    omega
  rw [countFrom, hwhole, List.map_singleton, List.countP_singleton]
  simp [h.not_blank, h.not_skipped]

/-- A parameter that is cut counts more than once, since there are brackets on both sides of the comma. -/
theorem two_le_countFrom (hskip : ∀ s ∈ skip, ∀ c ∈ s.toList, isBracket c = false) (h : IsParameter skip t)
    (hheld : ¬CommasHeld before t) : 2 ≤ countFrom skip (-before) t := by
  simp only [CommasHeld, Classical.not_forall] at hheld
  obtain ⟨a, b, rfl, hopen, hcut⟩ := hheld
  have hbalance := bracketDepth_of_nested h.nested
  rw [withoutArrows_append_comma, bracketDepth_append, bracketDepth_cons, bracketDepth_comma] at hbalance
  have hdepth : -(before : Int) + bracketDepth a ≤ 0 := by
    rw [bracketDepth_eq_sub]
    omega
  rw [countFrom_append hdepth]
  exact Nat.add_le_add (one_le_countFrom hskip (exists_bracket (by omega)) _) (one_le_countFrom hskip (exists_bracket (by omega)) _)

end IsParameter

/-- What stands behind a parameter and a comma is as deep as it is alone. -/
theorem bracketDepth_behind (h : bracketDepth (withoutArrows t) = 0) (a : Text) :
    bracketDepth (withoutArrows (t ++ ',' :: a)) = bracketDepth (withoutArrows a) := by
  rw [withoutArrows_append_comma, bracketDepth_append, bracketDepth_cons, h, bracketDepth_comma, Int.zero_add, Int.zero_add]

/-- In a text whose brackets are closed, commas are held exactly if they are in it and in what follows, where its arrows count. -/
theorem commasHeld_append (h : bracketDepth (withoutArrows t) = 0) (r : Text) :
    CommasHeld before (t ++ ',' :: r) ↔ CommasHeld before t ∧ CommasHeld (before + arrows t) r := by
  constructor
  · intro hheld
    constructor
    · rintro a b rfl hopen
      exact hheld a (b ++ ',' :: r) (by simp) hopen
    · rintro a b rfl hopen
      have hbehind := hheld (t ++ ',' :: a) b (by simp)
      rw [bracketDepth_behind h, arrows_append_comma] at hbehind
      have := hbehind hopen
      omega
  · rintro ⟨hfirst, hrest⟩ a b hab hopen
    rcases List.append_eq_append_iff.1 hab with ⟨a', rfl, ha'⟩ | ⟨b', rfl, hb'⟩
    · cases a' with
      | nil =>
        rw [List.append_nil, h] at hopen
        exact absurd hopen (Int.lt_irrefl 0)
      | cons c a' =>
        obtain ⟨rfl, hr⟩ := List.cons.inj ha'
        rw [bracketDepth_behind h] at hopen ⊢
        have := hrest a' b hr hopen
        rw [arrows_append_comma]
        omega
    · cases b' with
      | nil =>
        rw [List.append_nil] at h
        exact absurd hopen (by omega)
      | cons c b' =>
        obtain ⟨rfl, -⟩ := List.cons.inj hb'
        exact hfirst a b' rfl hopen

/-- A list of parameters is its first one, alone or with a comma and the others behind it. -/
theorem listed_cons (t : Text) (ts : List Text) (trailing : Bool) :
    (ts = [] ∧ listed (t :: ts) trailing = t) ∨ ∃ trailing', listed (t :: ts) trailing = t ++ ',' :: listed ts trailing' := by
  cases ts with
  | nil =>
    cases trailing with
    | false => exact Or.inl ⟨rfl, by simp [listed, join]⟩
    | true => exact Or.inr ⟨false, by simp [listed, join]⟩
  | cons u ts => exact Or.inr ⟨trailing, by simp [listed, join, List.intercalate_cons_cons]⟩

/-- In a list without parameters nothing counts. -/
theorem countFrom_listed_nil (trailing : Bool) : countFrom skip (-before) (listed [] trailing) = 0 := by
  cases trailing with
  | false => rfl
  | true =>
    have hdepth : -(before : Int) + bracketDepth [] ≤ 0 := by
      rw [bracketDepth_nil]
      omega
    exact countFrom_append hdepth []

/-- What follows a parameter and a comma is counted by itself. -/
theorem IsParameter.countFrom_append (h : IsParameter skip t) (r : Text) :
    countFrom skip (-before) (t ++ ',' :: r) = countFrom skip (-before) t + countFrom skip (-(before + arrows t : Nat)) r := by
  have hdepth : -(before : Int) + bracketDepth t = -(before + arrows t : Nat) := by
    rw [h.bracketDepth_eq]
    omega
  rw [Header.countFrom_append (by omega), hdepth]

/-- Parameters whose commas are held count once each. -/
theorem countFrom_listed (hts : ∀ t ∈ ts, IsParameter skip t) {trailing : Bool} (hheld : CommasHeld before (listed ts trailing)) :
    countFrom skip (-before) (listed ts trailing) = ts.length := by
  induction ts generalizing before trailing with
  | nil => exact countFrom_listed_nil trailing
  | cons t ts ih =>
    have ht := hts t List.mem_cons_self
    have hts := fun u hu => hts u (List.mem_cons_of_mem t hu)
    rcases listed_cons t ts trailing with ⟨rfl, hlist⟩ | ⟨trailing', hlist⟩ <;> rw [hlist] at hheld ⊢
    · exact ht.countFrom_eq_one hheld
    · obtain ⟨hfirst, hrest⟩ := (commasHeld_append (bracketDepth_of_nested ht.nested) _).1 hheld
      rw [ht.countFrom_append, ht.countFrom_eq_one hfirst, ih hts hrest, List.length_cons, Nat.add_comm]

section Brackets

variable (hskip : ∀ s ∈ skip, ∀ c ∈ s.toList, isBracket c = false)
include hskip

/-- A parameter counts at least once. -/
theorem IsParameter.one_le_countFrom (h : IsParameter skip t) : 1 ≤ countFrom skip (-before) t := by
  by_cases hheld : CommasHeld before t
  · exact Nat.le_of_eq (h.countFrom_eq_one hheld).symm
  · exact Nat.le_of_succ_le (h.two_le_countFrom hskip hheld)

/-- No parameter is lost. -/
theorem length_le_countFrom (hts : ∀ t ∈ ts, IsParameter skip t) (trailing : Bool) :
    ts.length ≤ countFrom skip (-before) (listed ts trailing) := by
  induction ts generalizing before trailing with
  | nil => exact Nat.zero_le _
  | cons t ts ih =>
    have ht := hts t List.mem_cons_self
    have hts := fun u hu => hts u (List.mem_cons_of_mem t hu)
    rcases listed_cons t ts trailing with ⟨rfl, hlist⟩ | ⟨trailing', hlist⟩ <;> rw [hlist]
    · exact ht.one_le_countFrom hskip
    · rw [ht.countFrom_append, List.length_cons, Nat.add_comm]
      exact Nat.add_le_add (ht.one_le_countFrom hskip) (ih hts trailing')

/-- Parameters that count once each have their commas held. -/
theorem commasHeld_of_countFrom (hts : ∀ t ∈ ts, IsParameter skip t) {trailing : Bool}
    (h : countFrom skip (-before) (listed ts trailing) = ts.length) : CommasHeld before (listed ts trailing) := by
  induction ts generalizing before trailing with
  | nil =>
    intro a b hab hopen
    have ha : a = [] := by
      cases trailing with
      | false => simp [listed, join] at hab
      | true =>
        have hlength := congrArg List.length hab
        simp [listed, join] at hlength
        exact List.eq_nil_of_length_eq_zero (by omega)
    subst ha
    exact absurd hopen (Int.lt_irrefl 0)
  | cons t ts ih =>
    have ht := hts t List.mem_cons_self
    have hts := fun u hu => hts u (List.mem_cons_of_mem t hu)
    have hheld : ∀ {k : Nat}, countFrom skip (-k) t = 1 → CommasHeld k t := by
      intro k hone
      refine Classical.byContradiction fun hcut => ?_
      have := ht.two_le_countFrom hskip hcut
      omega
    rcases listed_cons t ts trailing with ⟨rfl, hlist⟩ | ⟨trailing', hlist⟩ <;> rw [hlist] at h ⊢
    · exact hheld h
    · rw [ht.countFrom_append, List.length_cons] at h
      have hone : 1 ≤ countFrom skip (-before) t := ht.one_le_countFrom hskip
      have hrest : ts.length ≤ countFrom skip (-(before + arrows t : Nat)) (listed ts trailing') := length_le_countFrom hskip hts trailing'
      exact (commasHeld_append (bracketDepth_of_nested ht.nested) _).2 ⟨hheld (by omega), ih hts (by omega)⟩

end Brackets

/-- The parameters of a list are counted right when every comma inside brackets has more brackets open around it than arrows before it,
and, where nothing with a bracket is left out, only then. -/
theorem countParameters_listed (skip : List String) (ts : List Text) (trailing : Bool) (hts : ∀ t ∈ ts, IsParameter skip t) :
    (CommasHeld 0 (listed ts trailing) → countParameters (listed ts trailing) skip = ts.length) ∧
      ((∀ s ∈ skip, ∀ c ∈ s.toList, isBracket c = false) → countParameters (listed ts trailing) skip = ts.length →
        CommasHeld 0 (listed ts trailing)) :=
  ⟨countFrom_listed hts, fun hskip h => commasHeld_of_countFrom hskip hts h⟩

end Counting

/-! ## Checking a list -/

section Checking

variable {skip : List String} {t : Text}

/-- What holds before every comma of a text can be checked at its places. -/
theorem forall_comma_iff {p : Text → Prop} :
    (∀ a b, t = a ++ ',' :: b → p a) ↔ ∀ i < t.length, t[i]? = some ',' → p (t.take i) := by
  constructor
  · intro h i hi hcomma
    obtain ⟨_, hget⟩ := List.getElem?_eq_some_iff.1 hcomma
    exact h (t.take i) (t.drop (i + 1)) (by rw [← hget, ← List.drop_eq_getElem_cons hi, List.take_append_drop])
  · rintro h a b rfl
    have hp := h a.length (by simp) (by simp)
    rwa [List.take_left] at hp

/-- Whether commas are held is decided comma by comma. -/
instance (before : Nat) (t : Text) : Decidable (CommasHeld before t) := decidable_of_iff _ forall_comma_iff.symm

/-- A text is a parameter if it passes these checks, each of which can be computed. -/
theorem IsParameter.of_checks (h : strip t ≠ [] ∧ String.ofList (strip t) ∉ skip ∧ closesAll parameterBrackets [] (withoutArrows t) = true ∧
    ∀ i < t.length, t[i]? = some ',' → 0 < bracketDepth (withoutArrows (t.take i))) : IsParameter skip t :=
  ⟨h.1, h.2.1, nested_of_closesAll h.2.2.1, forall_comma_iff.2 h.2.2.2⟩

/-- A generic type with a comma in it, and the type of a function that stands in two brackets. -/
def heldParameters : List Text := ["m: Map<K, V>".text, " fs: List<(a: A, b: B) => [C, D]>".text]

/-- A list with commas in brackets, and an arrow behind them, is counted right. -/
theorem countParameters_heldParameters : (∀ t ∈ heldParameters, IsParameter ["self"] t) ∧ CommasHeld 0 (listed heldParameters true) ∧
    countParameters (listed heldParameters true) ["self"] = 2 := by
  have hts : ∀ t ∈ heldParameters, IsParameter ["self"] t :=
    List.forall_mem_cons.2 ⟨.of_checks (by decide), List.forall_mem_singleton.2 (.of_checks (by decide))⟩
  have hheld : CommasHeld 0 (listed heldParameters true) := by decide
  exact ⟨hts, hheld, (countParameters_listed ["self"] heldParameters true hts).1 hheld⟩

/-- The type of a function in front of a generic type. -/
def arrowFirst : List Text := ["f: () => void".text, " m: Map<K, V>".text]

/-- Behind the arrow, the comma of the generic type is taken for one between parameters. -/
theorem countParameters_arrowFirst : (∀ t ∈ arrowFirst, IsParameter [] t) ∧ countParameters (listed arrowFirst false) = 3 :=
  ⟨List.forall_mem_cons.2 ⟨.of_checks (by decide), List.forall_mem_singleton.2 (.of_checks (by decide))⟩, by decide⟩

end Checking

end CodeAtlas.Header
