import CodeAtlas.Proofs.Import.DeclarationFile

/-!
# Calls that load modules

A file of declarations makes no calls, and what stands between its specifiers has no brackets. Yet a call can be read across two
specifiers: when one ends in the beginning of a call, its closing quote opens the text up to the next, and that one goes on with a closing
bracket. Nowhere else is a call found.
-/

namespace CodeAtlas.TypeScript

open Text Pattern

/-- A text that ends in the beginning of a call, perhaps with blanks behind it. -/
def EndsInCall (t : Text) : Prop := ∃ u w b, t = u ++ (w ++ b) ∧ w ∈ ["require(".text, "import(".text] ∧
  (∀ c ∈ u.getLast?, isWordChar c = false) ∧ ∀ c ∈ b, isBlank c = true

/-- A text that begins with a closing bracket, perhaps with blanks before it. -/
def BeginsWithClose (t : Text) : Prop := ∃ b r, t = b ++ ')' :: r ∧ ∀ c ∈ b, isBlank c = true

/-- Two specifiers across which a call is read. -/
def Specifier.CallsAcross (s s' : Specifier) : Prop := EndsInCall s.text ∧ BeginsWithClose s'.text

/-- A text in which no quote comes before the first line feed. -/
def BreaksBeforeQuote (t : Text) : Prop := ∀ {v r : Text} {q : Char}, t = v ++ q :: r → IsQuote q → '\n' ∈ v

/-- A text in which these specifiers stand in quotes, each on its own line, with neither quotes nor opening brackets between them. -/
inductive Quoting : List Specifier → Text → Prop where
  | outside {o : Text} : (∀ c ∈ o, ¬IsQuote c ∧ c ≠ '(') → Quoting [] o
  | specifier {o t : Text} {s : Specifier} {ss : List Specifier} : (∀ c ∈ o, ¬IsQuote c ∧ c ≠ '(') → BreaksBeforeQuote t → Quoting ss t →
    Quoting (s :: ss) (o ++ (s.quoted ++ t))

section Calls

variable {a t u x r : Text} {q q' : Char} {s : Specifier} {ss : List Specifier}

/-- What stands behind a character goes on before a text without it. -/
theorem exists_of_not_mem_behind (h : a ++ q :: t = u ++ x) (hq : q ∉ x) : ∃ t', t = t' ++ x ∧ u = a ++ q :: t' := by
  rcases List.append_eq_append_iff.1 h with ⟨b, rfl, hb⟩ | ⟨b, rfl, rfl⟩
  · cases b with
    | nil =>
      rw [List.nil_append] at hb
      exact absurd (hb ▸ List.mem_cons_self) hq
    | cons c b =>
      obtain ⟨rfl, rfl⟩ := List.cons.inj hb
      exact ⟨b, rfl, rfl⟩
  · exact absurd (List.mem_append_right b List.mem_cons_self) hq

/-- What is no quote may stand in a specifier. -/
theorem except_of_not_isQuote {c : Char} (h : ¬IsQuote c) : except "'\"" c = true := by
  rw [except, Bool.not_eq_true']
  exact Bool.eq_false_iff.2 h

/-- The opening of a call has no quote. -/
theorem not_isQuote_of_mem_call {w b : Text} (hw : w ∈ ["require(".text, "import(".text]) (hb : ∀ c ∈ b, isBlank c = true) :
    ∀ c ∈ w ++ b, ¬IsQuote c := by
  have hcalls : ∀ w ∈ ["require(".text, "import(".text], ∀ c ∈ w, ¬IsQuote c := by
    unfold IsQuote
    decide
  refine List.forall_mem_append.2 ⟨hcalls w hw, fun c hc hquote => ?_⟩
  exact Bool.false_ne_true ((isClauseChar_of_isQuote hquote).symm.trans (isClauseChar_of_isBlank (hb c hc)))

/-- Text that ends in the opening of a call has a bracket. -/
theorem EndsInCall.bracket_mem (h : EndsInCall t) : '(' ∈ t := by
  obtain ⟨u, w, b, rfl, hw, -, -⟩ := h
  have hcalls : ∀ w ∈ ["require(".text, "import(".text], '(' ∈ w := by decide
  exact List.mem_append_right u (List.mem_append_left b (hcalls w hw))

/-- The beginning of a call stands behind the last quote. -/
theorem EndsInCall.of_quote (h : EndsInCall (a ++ q :: t)) (hq : IsQuote q) : EndsInCall t := by
  obtain ⟨u, w, b, hall, hw, hedge, hb⟩ := h
  obtain ⟨u', rfl, rfl⟩ := exists_of_not_mem_behind hall fun hmem => not_isQuote_of_mem_call hw hb q hmem hq
  refine ⟨u', w, b, rfl, hw, fun c hc => hedge c ?_, hb⟩
  rw [List.getLast?_append, List.getLast?_cons, Option.mem_def.1 hc]
  rfl

/-- A closing bracket stands in front of the next quote. -/
theorem BeginsWithClose.of_quote (h : BeginsWithClose (t ++ q :: r)) (hq : IsQuote q) : BeginsWithClose t := by
  obtain ⟨b, z, hall, hb⟩ := h
  have hquote : q ∉ b ++ [')'] := by
    simp only [List.mem_append, List.mem_singleton, not_or]
    refine ⟨fun hmem => ?_, fun e => absurd (e ▸ hq) (by unfold IsQuote; decide)⟩
    exact Bool.false_ne_true ((isClauseChar_of_isQuote hq).symm.trans (isClauseChar_of_isBlank (hb q hmem)))
  have hall : (b ++ [')']) ++ z = t ++ q :: r := by
    rw [hall, List.append_assoc]
    rfl
  obtain ⟨z', rfl, -⟩ := exists_of_not_mem hall hquote
  exact ⟨b, z', List.append_assoc _ _ _, hb⟩

/-- A specifier has no quote of any kind. -/
theorem Specifier.not_mem_of_isQuote (s : Specifier) (hq : IsQuote q) : q ∉ s.text :=
  fun hmem => Bool.false_ne_true ((except_of_isQuote hq).symm.trans (s.chars q hmem))

/-- A text between two quotes that begins outside the specifiers ends where the first specifier begins. -/
theorem Quoting.exists_of_append (h : Quoting ss t) (ht : t = u ++ q :: r) (hu : ∀ c ∈ u, except "'\"" c = true) (hq : IsQuote q) :
    ∃ s ss' r', ss = s :: ss' ∧ r = s.text ++ s.quote :: r' := by
  cases h with
  | outside ho => exact absurd hq (ho q (ht ▸ List.mem_append_right u List.mem_cons_self)).1
  | @specifier o t s ss ho _ _ =>
    rw [Specifier.quoted, List.cons_append, List.append_assoc] at ht
    have hoChars : ∀ c ∈ o, except "'\"" c = true := fun c hc => except_of_not_isQuote (ho c hc).1
    obtain ⟨-, hquoted⟩ := eq_of_runs ht hoChars hu (by rintro c ⟨⟩; exact except_of_isQuote s.quote_mem)
      (by rintro c ⟨⟩; exact except_of_isQuote hq)
    exact ⟨s, ss, t, rfl, (List.cons.inj hquoted).2.symm⟩

/-- A call in the text is read across two specifiers, and across the end of a line. -/
theorem Quoting.across (h : Quoting ss t) {v : Text} (ht : t = u ++ q :: (v ++ q' :: r)) (hq : IsQuote q) (hq' : IsQuote q')
    (hv : ∀ c ∈ v, except "'\"" c = true) (hu : EndsInCall u) (hclose : BeginsWithClose r) :
    '\n' ∈ v ∧ ¬ss.IsChain fun s s' => ¬s.CallsAcross s' := by
  induction h generalizing u with
  | outside ho => exact absurd hq (ho q (ht ▸ List.mem_append_right u List.mem_cons_self)).1
  | @specifier o t s ss ho hbreaks hquoting ih =>
    rw [Specifier.quoted, List.cons_append, List.append_assoc] at ht
    obtain ⟨u₁, rfl, h₁⟩ := exists_of_not_mem ht fun hmem => (ho q hmem).1 hq
    cases u₁ with
    | nil =>
      rw [List.append_nil] at hu
      exact absurd rfl (ho '(' hu.bracket_mem).2
    | cons c u₁ =>
      obtain ⟨rfl, htext⟩ := List.cons.inj h₁
      have hinside := hu.of_quote s.quote_mem
      obtain ⟨u₂, rfl, h₂⟩ := exists_of_not_mem htext (s.not_mem_of_isQuote hq)
      cases u₂ with
      | nil =>
        rw [List.append_nil] at hinside
        obtain ⟨-, rfl⟩ := List.cons.inj h₂
        obtain ⟨s', ss', r', rfl, rfl⟩ := hquoting.exists_of_append rfl hv hq'
        exact ⟨hbreaks rfl hq', fun hchain => (List.isChain_cons_cons.1 hchain).1 ⟨hinside, hclose.of_quote s'.quote_mem⟩⟩
      | cons c u₂ =>
        obtain ⟨rfl, hbehind⟩ := List.cons.inj h₂
        obtain ⟨hmem, hchain⟩ := ih hbehind (hinside.of_quote s.quote_mem)
        exact ⟨hmem, fun h => hchain h.tail⟩

/-- The opening of a call at the end is there with a quote and more in front. -/
theorem EndsInCall.append_quote (h : EndsInCall t) (hq : IsQuote q) : EndsInCall (a ++ q :: t) := by
  obtain ⟨u, w, b, rfl, hw, hedge, hb⟩ := h
  refine ⟨a ++ q :: u, w, b, by simp only [List.append_assoc, List.cons_append], hw, fun c hc => ?_, hb⟩
  rw [List.getLast?_append, List.getLast?_cons, Option.some_or] at hc
  cases hlast : u.getLast? with
  | none =>
    rw [hlast] at hc
    cases hc
    have hquotes : ∀ q ∈ "'\"".toList, isWordChar q = false := by decide
    exact hquotes q (List.contains_iff_mem.1 hq)
  | some c' =>
    rw [hlast] at hc
    cases hc
    exact hedge c' hlast

/-- Where a call can be read across two specifiers, it is in the text. -/
theorem Quoting.exists_call (h : Quoting ss t) (hchain : ¬ss.IsChain fun s s' => ¬s.CallsAcross s') : ∃ u q v q' r,
    t = u ++ q :: (v ++ q' :: r) ∧ IsQuote q ∧ IsQuote q' ∧ v ≠ [] ∧ (∀ c ∈ v, except "'\"" c = true) ∧ EndsInCall u ∧ BeginsWithClose r := by
  induction h with
  | outside => exact absurd List.isChain_nil hchain
  | @specifier o t s ss ho hbreaks hquoting ih =>
    by_cases hnext : ss.IsChain fun s s' => ¬s.CallsAcross s'
    · cases hquoting with
      | outside => exact absurd (List.isChain_singleton s) hchain
      | @specifier o' t' s' ss' ho' _ _ =>
        have hacross : s.CallsAcross s' := by
          by_contra hacross
          exact hchain (List.isChain_cons_cons.2 ⟨hacross, hnext⟩)
        obtain ⟨b, z, htext, hb⟩ := hacross.2
        refine ⟨o ++ s.quote :: s.text, s.quote, o', s'.quote, s'.text ++ s'.quote :: t', ?_, s.quote_mem, s'.quote_mem, ?_,
          fun c hc => except_of_not_isQuote (ho' c hc).1, hacross.1.append_quote s.quote_mem, b, z ++ s'.quote :: t', ?_, hb⟩
        · simp [Specifier.quoted]
        · exact List.ne_nil_of_mem (hbreaks rfl s'.quote_mem)
        · rw [htext, List.append_assoc]
          rfl
    · obtain ⟨u, q, v, q', r, rfl, hq, hq', hne, hv, hu, hclose⟩ := ih hnext
      refine ⟨o ++ s.quote :: (s.text ++ s.quote :: u), q, v, q', r, ?_, hq, hq', hne, hv, ?_, hclose⟩
      · simp [Specifier.quoted]
      · exact (hu.append_quote s.quote_mem).append_quote s.quote_mem

end Calls

/-! ## What a call is read from -/

section Patterns

variable {p : Pattern} {m : Match} {before : Option Char} {x r t : Text} {ps : List (Part × Text)} {ss : List Specifier} {w : String}

/-- One of the two neighbours of a place is a word character, and the other is none. -/
def IsEdge (before : Option Char) (r : Text) : Prop := (before.any isWordChar != r.head?.any isWordChar) = true

/-- A pattern that stops only at the edge of a word, and reads nothing there if need be. -/
structure StopsAtEdge (p : Pattern) : Prop where
  starFree : p.StarFree
  isEdge {before : Option Char} {x r : Text} {ps : List (Part × Text)} : p.Reads before x r ps → IsEdge (x.getLast?.or before) r
  reads_nil {before : Option Char} {r : Text} : IsEdge before r → ∃ ps, p.Reads before [] r ps

/-- The edge of a word stops at itself. -/
theorem stopsAtEdge_edge : StopsAtEdge edge where
  starFree := trivial
  isEdge h := by
    obtain ⟨hholds, rfl, -⟩ := reads_here_iff.1 h
    exact hholds
  reads_nil h := ⟨[], reads_here_iff.2 ⟨h, rfl, rfl⟩⟩

/-- What may be left out in front of an edge stops there. -/
theorem stopsAtEdge_opt (hp : p.StarFree) : StopsAtEdge (opt p ++ edge) where
  starFree := ⟨⟨hp, trivial⟩, trivial⟩
  isEdge h := by
    obtain ⟨u, v, _, _, -, hedge, rfl, -⟩ := reads_append_iff.1 h
    obtain ⟨hholds, rfl, -⟩ := reads_here_iff.1 hedge
    rwa [List.append_nil]
  reads_nil {before r} h := by
    have hnothing : (opt p).Reads before [] ([] ++ r) [] := reads_opt_iff.2 (Or.inr ⟨rfl, rfl⟩)
    have hedge : edge.Reads (([] : Text).getLast?.or before) [] r [] := reads_here_iff.2 ⟨h, rfl, rfl⟩
    exact ⟨_, hnothing.append hedge⟩

/-- A call of a function behind what a pattern reads. -/
def call (p : Pattern) (w : String) : Pattern := p ++ w ++ blanks ++ quotedSpecifier ++ blanks ++ ")"

/-- A call repeats characters only. -/
theorem starFree_call (hp : p.StarFree) : (call p w).StarFree :=
  ⟨⟨⟨⟨⟨hp, starFree_lit _⟩, trivial⟩, starFree_quotedSpecifier⟩, trivial⟩, starFree_lit _⟩

/-- At the beginning of one of these words is its edge, where no word is left behind. -/
theorem isEdge_iff {v : Text} (hv : v ∈ ["require(".text, "import(".text]) : IsEdge before (v ++ r) ↔ ∀ c ∈ before, isWordChar c = false := by
  have hhead : (v ++ r).head?.any isWordChar = true := by
    have hwords : ∀ v ∈ ["require(".text, "import(".text], v.head?.any isWordChar = true := by decide
    have hne : ∀ v ∈ ["require(".text, "import(".text], v ≠ [] := by decide
    rw [List.head?_append_of_ne_nil _ (hne v hv)]
    exact hwords v hv
  rw [IsEdge, hhead]
  cases before with
  | none => simp
  | some c => simp

/-- A call is read from the beginning of a word, a specifier in quotes and a closing bracket. -/
theorem of_call (h : (call p w).Reads before x r ps) (hp : StopsAtEdge p) (hw : w.text ∈ ["require(".text, "import(".text]) :
    ∃ u b q s q' b' ps', x = u ++ (w.text ++ (b ++ q :: (s ++ q' :: (b' ++ [')'])))) ∧ (∀ c ∈ u.getLast?.or before, isWordChar c = false) ∧
      (∀ c ∈ b, isBlank c = true) ∧ IsQuote q ∧ IsQuote q' ∧ (∀ c ∈ s, except "'\"" c = true) ∧ (∀ c ∈ b', isBlank c = true) ∧
        ps = (.specifier, s) :: ps' := by
  obtain ⟨w₅, v₅, _, _, h₅, hclose, rfl, rfl⟩ := reads_append_iff.1 h
  obtain ⟨w₄, b', _, _, h₄, hblanks', rfl, rfl⟩ := reads_append_iff.1 h₅
  obtain ⟨w₃, v₃, _, _, h₃, hquoted, rfl, rfl⟩ := reads_append_iff.1 h₄
  obtain ⟨w₂, b, _, _, h₂, hblanks, rfl, rfl⟩ := reads_append_iff.1 h₃
  obtain ⟨u, v₁, _, _, h₁, hword, rfl, rfl⟩ := reads_append_iff.1 h₂
  obtain ⟨rfl, rfl⟩ := reads_lit_iff.1 hclose
  obtain ⟨hb', rfl⟩ := reads_any0_iff.1 hblanks'
  obtain ⟨q, s, q', rfl, hq, hq', -, hs, rfl⟩ := of_quotedSpecifier hquoted
  obtain ⟨hb, rfl⟩ := reads_any0_iff.1 hblanks
  obtain ⟨rfl, rfl⟩ := reads_lit_iff.1 hword
  refine ⟨u, b, q, s, q', b', _, ?_, (isEdge_iff hw).1 (hp.isEdge h₁), hb, hq, hq', hs, hb', rfl⟩
  simp only [List.append_assoc, List.cons_append, List.nil_append]
  rfl

/-- What is written as a call can be read as one. -/
theorem call_reads {b v b' : Text} {q q' : Char} (hp : StopsAtEdge p) (hw : w.text ∈ ["require(".text, "import(".text])
    (hword : ∀ c ∈ before, isWordChar c = false) (hb : ∀ c ∈ b, isBlank c = true) (hq : IsQuote q) (hq' : IsQuote q') (hne : v ≠ [])
    (hv : ∀ c ∈ v, except "'\"" c = true) (hb' : ∀ c ∈ b', isBlank c = true) :
    ∃ ps, (call p w).Reads before (w.text ++ (b ++ (q :: (v ++ [q']) ++ (b' ++ ")".text)))) r ps := by
  obtain ⟨ps, hedge⟩ : ∃ ps, p.Reads before [] (w.text ++ (b ++ (q :: (v ++ [q']) ++ (b' ++ (")".text ++ r))))) ps :=
    hp.reads_nil ((isEdge_iff hw).2 hword)
  have hreads : (call p w).Reads before ([] ++ w.text ++ b ++ (q :: (v ++ [q'])) ++ b' ++ ")".text) r _ :=
    ((((hedge.append (reads_lit_iff.2 ⟨rfl, rfl⟩)).append (reads_any0_iff.2 ⟨hb, rfl⟩)).append (quotedSpecifier_reads hq hq' hne hv)).append
      (reads_any0_iff.2 ⟨hb', rfl⟩)).append (reads_lit_iff.2 ⟨rfl, rfl⟩)
  simp only [List.append_assoc, List.nil_append] at hreads
  exact ⟨_, hreads⟩

section Found

variable (hp : StopsAtEdge p) (hw : w.text ∈ ["require(".text, "import(".text])
include hp hw

/-- A call that is found is read across two specifiers, and its specifier goes across the end of a line. -/
theorem Quoting.of_mem_findAll (h : Quoting ss t) (hm : m ∈ (call p w).findAll t) :
    '\n' ∈ m.get .specifier ∧ ¬ss.IsChain fun s s' => ¬s.CallsAcross s' := by
  obtain ⟨u, r, rfl, hm⟩ := exists_place_of_mem_all hm
  obtain ⟨hrest, hreads⟩ := reads_of_matchAt (starFree_call hp.starFree) hm
  obtain ⟨u', b, q, s, q', b', ps', htext, hword, hb, hq, hq', hs, hb', hparts⟩ := of_call hreads hp hw
  have hrest : r = m.text ++ m.rest := hrest
  have hspecifier : m.get .specifier = s := by
    rw [Match.get, Match.get?, hparts]
    rfl
  have hends : EndsInCall (u ++ (u' ++ (w.text ++ b))) := by
    refine ⟨u ++ u', w.text, b, by simp only [List.append_assoc], hw, fun c hc => hword c ?_, hb⟩
    rw [List.getLast?_append] at hc
    rwa [Place.after, Option.or_none]
  rw [hspecifier]
  refine h.across ?_ hq hq' hs hends ⟨b', m.rest, rfl, hb'⟩
  rw [hrest, htext]
  simp only [List.append_assoc, List.cons_append, List.nil_append]

/-- Where such a word stands in front of a text in quotes and a closing bracket, a call is found. -/
theorem findAll_call_ne_nil {u b v r : Text} {q q' : Char} (ht : t = u ++ (w.text ++ b) ++ q :: (v ++ q' :: r))
    (hword : ∀ c ∈ u.getLast?, isWordChar c = false) (hb : ∀ c ∈ b, isBlank c = true) (hq : IsQuote q) (hq' : IsQuote q') (hne : v ≠ [])
    (hv : ∀ c ∈ v, except "'\"" c = true) (hclose : BeginsWithClose r) : (call p w).findAll t ≠ [] := by
  obtain ⟨b', z, rfl, hb'⟩ := hclose
  have hall : t = u ++ (w.text ++ (b ++ (q :: (v ++ [q']) ++ (b' ++ ")".text))) ++ z) := by
    rw [ht]
    simp only [List.append_assoc, List.cons_append, List.nil_append]
    rfl
  have hbefore : ∀ c ∈ u.getLast?.or none, isWordChar c = false := by rwa [Option.or_none]
  obtain ⟨ps, hreads⟩ := call_reads (r := z) hp hw hbefore hb hq hq' hne hv hb'
  obtain ⟨m, hm⟩ : ∃ m, (call p w).matchAt (fun _ => true)
      ((⟨0, none, t⟩ : Place).after u (w.text ++ (b ++ (q :: (v ++ [q']) ++ (b' ++ ")".text))) ++ z)) = some m :=
    exists_matchAt_of_reads (starFree_call hp.starFree) hreads rfl
  rcases mem_all_or_within hall (Nat.zero_le _) hm with hmem | ⟨m', hmem, -⟩
  · exact List.ne_nil_of_mem hmem
  · exact List.ne_nil_of_mem hmem

end Found

end Patterns

/-! ## Files -/

section Files

variable {d : ModuleDeclaration} {ds : List ModuleDeclaration} {final : Bool} {o t : Text} {ss : List Specifier}

/-- The specifiers of the declarations, in their order. -/
def specifiers (ds : List ModuleDeclaration) : List Specifier := ds.filterMap fun d => d.form.specifier?

/-- Text without quotes in front does not change whether a line ends before the next quote. -/
theorem BreaksBeforeQuote.prepend (h : BreaksBeforeQuote t) (ho : ∀ c ∈ o, ¬IsQuote c ∧ c ≠ '(') : BreaksBeforeQuote (o ++ t) := by
  intro v r q hall hq
  obtain ⟨v', rfl, ht⟩ := exists_of_not_mem hall fun hmem => (ho q hmem).1 hq
  exact List.mem_append_right o (h ht hq)

/-- Text without quotes and brackets may stand in front of specifiers. -/
theorem Quoting.prepend (h : Quoting ss t) (ho : ∀ c ∈ o, ¬IsQuote c ∧ c ≠ '(') : Quoting ss (o ++ t) := by
  cases h with
  | outside ho' => exact .outside (List.forall_mem_append.2 ⟨ho, ho'⟩)
  | specifier ho' hbreaks h =>
    rw [← List.append_assoc]
    exact .specifier (List.forall_mem_append.2 ⟨ho, ho'⟩) hbreaks h

/-- A character of a clause is neither a quote nor a bracket. -/
theorem not_isQuote_of_isClauseChar {c : Char} (h : isClauseChar c = true) : ¬IsQuote c ∧ c ≠ '(' :=
  ⟨fun hq => Bool.false_ne_true ((isClauseChar_of_isQuote hq).symm.trans h), fun e => absurd (e ▸ h) (by decide)⟩

/-- Behind its specifier a declaration has neither quotes nor brackets. -/
theorem ModuleDeclaration.not_isQuote_of_mem_rear (d : ModuleDeclaration) : ∀ c ∈ d.rear, ¬IsQuote c ∧ c ≠ '(' := by
  have hsemicolon : ¬IsQuote ';' ∧ ';' ≠ '(' := by
    unfold IsQuote
    decide
  intro c hc
  rcases d.rear_spells.of_mem hc with rfl | ⟨t, ht, hct⟩
  · exact not_isQuote_of_isClauseChar (by decide)
  · cases hd : d.semicolon with
    | false =>
      rw [hd] at ht
      nomatch ht
    | true =>
      rw [hd] at ht
      obtain rfl := List.mem_singleton.1 ht
      obtain rfl := List.mem_singleton.1 hct
      exact hsemicolon

/-- Behind the lines of declarations, a line ends before the next quote. -/
theorem breaksBeforeQuote_behind (ds : List ModuleDeclaration) : BreaksBeforeQuote (behind final ds) := by
  have hlineFeed : ∀ {t v r : Text} {q : Char}, '\n' :: t = v ++ q :: r → IsQuote q → '\n' ∈ v := by
    intro t v r q h hq
    cases v with
    | nil =>
      obtain ⟨rfl, -⟩ := List.cons.inj h
      exact absurd hq (by unfold IsQuote; decide)
    | cons c v =>
      obtain ⟨rfl, -⟩ := List.cons.inj h
      exact List.mem_cons_self
  intro v r q h hq
  cases ds with
  | nil =>
    cases final with
    | false => exact absurd h.symm (List.append_ne_nil_of_right_ne_nil v (List.cons_ne_nil q r))
    | true => exact hlineFeed h hq
  | cons d ds => exact hlineFeed h hq

/-- The line of a declaration adds its specifier to those behind it. -/
theorem Quoting.line (d : ModuleDeclaration) (h : Quoting (specifiers ds) t) (ht : BreaksBeforeQuote t) :
    Quoting (specifiers (d :: ds)) (d.line ++ t) := by
  have hfront : ∀ c ∈ d.front, ¬IsQuote c ∧ c ≠ '(' := fun c hc => not_isQuote_of_isClauseChar (d.isClauseChar_of_mem_front c hc)
  have hrear : Quoting (specifiers ds) (d.rear ++ t) := h.prepend d.not_isQuote_of_mem_rear
  rw [specifiers, List.filterMap_cons]
  cases hspecifier : d.form.specifier? with
  | none =>
    rw [d.line_of_none hspecifier, List.append_assoc]
    exact hrear.prepend hfront
  | some s =>
    rw [d.line_of_some hspecifier, List.append_assoc, List.append_assoc]
    exact .specifier hfront (ht.prepend d.not_isQuote_of_mem_rear) hrear

/-- Behind a line the specifiers of the other declarations stand in quotes. -/
theorem quoting_behind (ds : List ModuleDeclaration) : Quoting (specifiers ds) (behind final ds) := by
  have hlineFeed : ∀ c ∈ ['\n'], ¬IsQuote c ∧ c ≠ '(' := fun c hc => not_isQuote_of_isClauseChar (List.mem_singleton.1 hc ▸ by decide)
  induction ds with
  | nil =>
    cases final with
    | false => exact .outside nofun
    | true => exact .outside hlineFeed
  | cons d ds ih => exact (ih.line d (breaksBeforeQuote_behind ds)).prepend hlineFeed

/-- The text of a file has the specifiers of its declarations and no other quotes. -/
theorem quoting_fileText (ds : List ModuleDeclaration) : Quoting (specifiers ds) (fileText final ds) := by
  cases ds with
  | nil => exact .outside nofun
  | cons d ds => exact (quoting_behind ds).line d (breaksBeforeQuote_behind ds)

/-- The variables that a call is bound to. -/
def binding : Pattern :=
  oneOfWords ["const", "let", "var"] ++ gap ++ .part .binding (("\x7b" ++ any0 (except "\x7d") ++ "\x7d") <|> some1 (wordOr "$")) ++
    blanks ++ "=" ++ blanks

theorem requireCall_eq : requireCall = call (opt binding ++ edge) "require(" := rfl

theorem dynamicImport_eq : dynamicImport = call edge "import(" := rfl

/-- A binding that may be left out stops at the edge of a word. -/
theorem stopsAtEdge_binding : StopsAtEdge (opt binding ++ edge) :=
  stopsAtEdge_opt ⟨⟨⟨⟨⟨starFree_oneOfWords _, starFree_gap⟩, ⟨⟨starFree_lit _, trivial⟩, starFree_lit _⟩, trivial, trivial⟩, trivial⟩,
    starFree_lit _⟩, trivial⟩

/-- The specifiers of the calls that are found go across the ends of lines. -/
theorem lineFeed_mem_of_mem_calls {m : Match} (h : m ∈ requireCall.findAll (fileText final ds) ++ dynamicImport.findAll (fileText final ds)) :
    '\n' ∈ m.get .specifier := by
  rcases List.mem_append.1 h with h | h
  · exact ((quoting_fileText ds).of_mem_findAll stopsAtEdge_binding (by decide) (requireCall_eq ▸ h)).1
  · exact ((quoting_fileText ds).of_mem_findAll stopsAtEdge_edge (by decide) (dynamicImport_eq ▸ h)).1

/-- No calls are found exactly where none is read across two specifiers. -/
theorem calls_eq_nil_iff : requireCall.findAll (fileText final ds) = [] ∧ dynamicImport.findAll (fileText final ds) = [] ↔
    (specifiers ds).IsChain fun s s' => ¬s.CallsAcross s' := by
  constructor
  · rintro ⟨hrequire, hdynamic⟩
    by_contra hchain
    obtain ⟨u, q, v, q', r, ht, hq, hq', hne, hv, ⟨u, w, b, rfl, hw, hword, hb⟩, hclose⟩ := (quoting_fileText ds).exists_call hchain
    simp only [List.mem_cons, List.not_mem_nil, or_false] at hw
    rcases hw with rfl | rfl
    · exact findAll_call_ne_nil stopsAtEdge_binding (by decide) ht hword hb hq hq' hne hv hclose (requireCall_eq ▸ hrequire)
    · exact findAll_call_ne_nil stopsAtEdge_edge (by decide) ht hword hb hq hq' hne hv hclose (dynamicImport_eq ▸ hdynamic)
  · intro hchain
    refine ⟨List.eq_nil_iff_forall_not_mem.2 fun m hm => ?_, List.eq_nil_iff_forall_not_mem.2 fun m hm => ?_⟩
    · exact ((quoting_fileText ds).of_mem_findAll stopsAtEdge_binding (by decide) (requireCall_eq ▸ hm)).2 hchain
    · exact ((quoting_fileText ds).of_mem_findAll stopsAtEdge_edge (by decide) (dynamicImport_eq ▸ hm)).2 hchain

end Files

end CodeAtlas.TypeScript
