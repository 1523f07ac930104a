import CodeAtlas.Proofs.Pattern.Fits

/-!
# What patterns read

Which texts a pattern fits can be told without the places of a match: from the text that is read, the character before it, the text that
follows, and the texts of the named parts. A match that is found reads such a text, and where such a text can be read a match is found.
-/

namespace CodeAtlas

namespace Pattern

open RunAux

/-- Whether a pattern reads the text `w` behind the character `before` and in front of `r`, with these named parts, the latest first. -/
def Reads : Pattern → (before : Option Char) → (w r : Text) → List (Part × Text) → Prop
  | nothing, _, w, _, ps => w = [] ∧ ps = []
  | one accepts, _, w, _, ps => (∃ c, w = [c] ∧ accepts c = true) ∧ ps = []
  | many accepts _, _, w, _, ps => (∀ c ∈ w, accepts c = true) ∧ ps = []
  | seq p q, before, w, r, ps => ∃ w₁ w₂ ps₁ ps₂, p.Reads before w₁ (w₂ ++ r) ps₁ ∧ q.Reads (w₁.getLast?.or before) w₂ r ps₂ ∧
    w = w₁ ++ w₂ ∧ ps = ps₂ ++ ps₁
  | alt p q, before, w, r, ps => p.Reads before w r ps ∨ q.Reads before w r ps
  | star _ _, _, _, _, _ => False
  | part label p, before, w, r, ps => ∃ ps', p.Reads before w r ps' ∧ ps = (label, w) :: ps'
  | here holds, before, w, r, ps => holds before r = true ∧ w = [] ∧ ps = []

/-- The parts of a progress with their texts. -/
def texts (parts : List MarkedPart) : List (Part × Text) := parts.map fun p => (p.label, p.text)

/-- A progress that has come from another by reading a text. -/
structure HasRead (s s' : Progress) (w r : Text) (ps : List (Part × Text)) : Prop where
  rest : s.place.rest = w ++ r
  place : s'.place = s.place.after w r
  parts : texts s'.parts = ps ++ texts s.parts

namespace HasRead

variable {s m s' : Progress} {w w₁ w₂ r : Text} {ps ps₁ ps₂ : List (Part × Text)}

/-- To read nothing is to stay. -/
theorem refl (s : Progress) : HasRead s s [] s.place.rest [] := ⟨rfl, rfl, rfl⟩

/-- To go past a character is to read it. -/
theorem past {c : Char} (h : s.place.rest = c :: r) : HasRead s (past s c r) [c] r [] := ⟨h, rfl, rfl⟩

/-- What is read in two steps is read in one. -/
theorem trans (h : HasRead s m w₁ (w₂ ++ r) ps₁) (h' : HasRead m s' w₂ r ps₂) : HasRead s s' (w₁ ++ w₂) r (ps₂ ++ ps₁) := by
  refine ⟨by rw [h.rest, List.append_assoc], ?_, by rw [h'.parts, h.parts, List.append_assoc]⟩
  rw [h'.place, h.place, Place.after_append]

/-- What is left is what stands behind the text that was read. -/
theorem rest_eq (h : HasRead s s' w r ps) : s'.place.rest = r := by rw [h.place]; rfl

/-- In front of what is left stands the last character that was read. -/
theorem before_eq (h : HasRead s s' w r ps) : s'.place.before = w.getLast?.or s.place.before := by rw [h.place]; rfl

/-- The text that a part remembers is the text that was read. -/
theorem part (h : HasRead s s' w r ps) (label : Part) :
    HasRead s { s' with parts := ⟨label, s.place.rest, s'.place.offset - s.place.offset⟩ :: s'.parts } w r ((label, w) :: ps) := by
  refine ⟨h.rest, h.place, ?_⟩
  have hoffset : s'.place.offset - s.place.offset = w.length := by
    rw [h.place]
    exact Nat.add_sub_cancel_left _ _
  have htext : MarkedPart.text ⟨label, s.place.rest, s'.place.offset - s.place.offset⟩ = w := by
    rw [MarkedPart.text, hoffset, h.rest, List.take_left]
  rw [texts, List.map_cons, htext]
  exact congrArg ((label, w) :: ·) h.parts

end HasRead

variable {p : Pattern} {s s' : Progress}

/-- A way to fit reads a text. -/
theorem exists_reads_of_fits (hp : p.StarFree) (h : Fits p s s') :
    ∃ w r ps, HasRead s s' w r ps ∧ p.Reads s.place.before w r ps := by
  induction h with
  | nothing => exact ⟨[], _, [], .refl _, rfl, rfl⟩
  | one hrest hc => exact ⟨_, _, [], .past hrest, ⟨_, rfl, hc⟩, rfl⟩
  | manyEnd => exact ⟨[], _, [], .refl _, nofun, rfl⟩
  | manyTurn hrest hc _ ih =>
    obtain ⟨w, r', ps, hread, hw, rfl⟩ := ih hp
    obtain rfl := show _ = w ++ r' from hread.rest
    exact ⟨_, r', _, (HasRead.past hrest).trans hread, List.forall_mem_append.2 ⟨List.forall_mem_singleton.2 hc, hw⟩, rfl⟩
  | seq _ _ ihp ihq =>
    obtain ⟨w₁, r₁, ps₁, hread₁, hp₁⟩ := ihp hp.1
    obtain ⟨w₂, r, ps₂, hread₂, hq₂⟩ := ihq hp.2
    obtain rfl : r₁ = w₂ ++ r := hread₁.rest_eq.symm.trans hread₂.rest
    rw [hread₁.before_eq] at hq₂
    exact ⟨w₁ ++ w₂, r, ps₂ ++ ps₁, hread₁.trans hread₂, w₁, w₂, ps₁, ps₂, hp₁, hq₂, rfl, rfl⟩
  | first _ ih =>
    obtain ⟨w, r, ps, hread, h⟩ := ih hp.1
    exact ⟨w, r, ps, hread, Or.inl h⟩
  | second _ ih =>
    obtain ⟨w, r, ps, hread, h⟩ := ih hp.2
    exact ⟨w, r, ps, hread, Or.inr h⟩
  | starEnd => exact hp.elim
  | starTurn => exact hp.elim
  | @part label _ _ _ _ ih =>
    obtain ⟨w, r, ps, hread, h⟩ := ih hp
    exact ⟨w, r, (label, w) :: ps, hread.part label, ps, h, rfl⟩
  | here hholds => exact ⟨[], _, [], .refl _, hholds, rfl, rfl⟩

/-- Where a text can be read there is a way to fit. -/
theorem exists_fits_of_reads {w r : Text} {ps : List (Part × Text)} (h : p.Reads s.place.before w r ps) (hrest : s.place.rest = w ++ r) :
    ∃ s', Fits p s s' ∧ HasRead s s' w r ps := by
  induction p generalizing s w r ps with
  | nothing =>
    obtain ⟨rfl, rfl⟩ := h
    obtain rfl : s.place.rest = r := hrest
    exact ⟨s, .nothing, .refl s⟩
  | one accepts =>
    obtain ⟨⟨c, rfl, hc⟩, rfl⟩ := h
    exact ⟨_, .one hrest hc, .past hrest⟩
  | many accepts lazy =>
    obtain ⟨hw, rfl⟩ := h
    induction w generalizing s with
    | nil =>
      obtain rfl : s.place.rest = r := hrest
      exact ⟨s, .manyEnd, .refl s⟩
    | cons c w ih =>
      obtain ⟨hc, hw⟩ := List.forall_mem_cons.1 hw
      obtain ⟨s', hfits, hread⟩ := ih (s := past s c (w ++ r)) rfl hw
      exact ⟨s', .manyTurn hrest hc hfits, (HasRead.past hrest).trans hread⟩
  | seq p q ihp ihq =>
    obtain ⟨w₁, w₂, ps₁, ps₂, hp, hq, rfl, rfl⟩ := h
    obtain ⟨m, hfits₁, hread₁⟩ := ihp hp (hrest.trans (List.append_assoc _ _ _))
    rw [← hread₁.before_eq] at hq
    obtain ⟨s', hfits₂, hread₂⟩ := ihq hq hread₁.rest_eq
    exact ⟨s', .seq hfits₁ hfits₂, hread₁.trans hread₂⟩
  | alt p q ihp ihq =>
    rcases h with h | h
    · obtain ⟨s', hfits, hread⟩ := ihp h hrest
      exact ⟨s', .first hfits, hread⟩
    · obtain ⟨s', hfits, hread⟩ := ihq h hrest
      exact ⟨s', .second hfits, hread⟩
  | star p lazy => exact h.elim
  | part label p ih =>
    obtain ⟨ps', h, rfl⟩ := h
    obtain ⟨s', hfits, hread⟩ := ih h hrest
    exact ⟨_, .part hfits, hread.part label⟩
  | here holds =>
    obtain ⟨h, rfl, rfl⟩ := h
    obtain rfl : s.place.rest = r := hrest
    exact ⟨s, .here h, .refl s⟩

section Matches

variable {m : Match} {at_ : Place}

/-- A match has read its text. -/
theorem reads_of_matchAt (hp : p.StarFree) (h : p.matchAt (fun _ => true) at_ = some m) :
    at_.rest = m.text ++ m.rest ∧ p.Reads at_.before m.text m.rest m.parts := by
  obtain ⟨s', hfits, hm⟩ := fits_of_run h
  obtain ⟨w, r, ps, hread, hreads⟩ := exists_reads_of_fits hp hfits
  cases hm
  have hoffset : s'.place.offset - at_.offset = w.length := by
    rw [hread.place]
    exact Nat.add_sub_cancel_left _ _
  have hrest : at_.rest = w ++ r := hread.rest
  have hparts : texts s'.parts = ps := hread.parts.trans (List.append_nil ps)
  have htext : at_.rest.take (s'.place.offset - at_.offset) = w := by rw [hoffset, hrest, List.take_left]
  dsimp only
  rw [htext, hread.rest_eq]
  refine ⟨hrest, ?_⟩
  rw [← hparts] at hreads
  exact hreads

/-- Where a text can be read a match is found. -/
theorem exists_matchAt_of_reads (hp : p.StarFree) {w r : Text} {ps : List (Part × Text)} (h : p.Reads at_.before w r ps)
    (hrest : at_.rest = w ++ r) : ∃ m, p.matchAt (fun _ => true) at_ = some m := by
  obtain ⟨s', hfits, -⟩ := exists_fits_of_reads (s := ⟨at_, []⟩) h hrest
  exact exists_matchAt_of_fits hp hfits

end Matches

/-! ## Which way is taken -/

section Preference

variable {α : Type} {k : Progress → Option α} {accepts : Char → Bool} {w r : Text}

/-- Repeated characters depend on what follows only where they fit. -/
theorem chars_congr {lazy : Bool} {k' : Progress → Option α} {t : Text} (ht : s.place.rest = t)
    (h : ∀ {s' : Progress}, Fits (many accepts lazy) s s' → k s' = k' s') : chars accepts lazy k t s = chars accepts lazy k' t s := by
  induction t generalizing s with
  | nil => exact h .manyEnd
  | cons c t ih =>
    by_cases hc : accepts c = true
    · rw [chars, chars, h .manyEnd, ih rfl fun hfits => h (.manyTurn ht hc hfits)]
    · rw [chars, chars, if_pos (by rw [Bool.eq_false_iff.2 hc]; rfl), if_pos (by rw [Bool.eq_false_iff.2 hc]; rfl), h .manyEnd]

/-- What is to follow matters only where the pattern can lead. -/
theorem run_congr (hp : p.StarFree) {k' : Progress → Option α} (h : ∀ {s' : Progress}, Fits p s s' → k s' = k' s') :
    p.run s k = p.run s k' := by
  induction p generalizing s k k' with
  | nothing => exact h .nothing
  | one accepts =>
    rw [run, run]
    cases hrest : s.place.rest with
    | nil => rfl
    | cons c r =>
      dsimp only
      by_cases hc : accepts c = true
      · rw [if_pos hc, if_pos hc, h (.one hrest hc)]
      · rw [if_neg hc, if_neg hc]
  | many accepts lazy => exact chars_congr rfl h
  | seq p q ihp ihq => exact ihp hp.1 fun hfits => ihq hp.2 fun hfits' => h (.seq hfits hfits')
  | alt p q ihp ihq => rw [run, run, ihp hp.1 fun hfits => h (.first hfits), ihq hp.2 fun hfits => h (.second hfits)]
  | star p lazy => exact hp.elim
  | part label p ih => exact ih hp fun hfits => h (.part hfits)
  | here holds =>
    rw [run, run]
    by_cases hholds : holds s.place.before s.place.rest = true
    · rw [if_pos hholds, if_pos hholds, h (.here hholds)]
    · rw [if_neg hholds, if_neg hholds]

/-- A repetition takes all the characters it can, where what is to follow succeeds then. -/
theorem run_any0_of_isSome (hrest : s.place.rest = w ++ r) (hw : ∀ c ∈ w, accepts c = true) (hr : ∀ c ∈ r.head?, accepts c = false)
    (hk : (k (s.after w r)).isSome = true) : (any0 accepts).run s k = k (s.after w r) := by
  rw [any0, run, hrest]
  induction w generalizing s with
  | nil =>
    obtain rfl : s.place.rest = r := hrest
    have hafter : s.after [] s.place.rest = s := rfl
    rw [List.nil_append, hafter]
    cases hr' : s.place.rest with
    | nil => rw [chars]
    | cons c r => rw [chars, if_pos (by rw [hr c (by rw [hr']; rfl)]; rfl)]
  | cons c w ih =>
    obtain ⟨hc, hw⟩ := List.forall_mem_cons.1 hw
    have hafter : (past s c (w ++ r)).after w r = s.after (c :: w) r := after_append [c] w (w ++ r) r
    rw [← hafter] at hk ⊢
    obtain ⟨x, hx⟩ := Option.isSome_iff_exists.1 hk
    rw [List.cons_append, chars, if_neg (by rw [hc]; decide), if_neg Bool.false_ne_true, ih rfl hw hk, hx]
    rfl

/-- A gap takes all the blanks there are, where what is to follow succeeds then. -/
theorem run_gap_of_isSome {g : Text} (hrest : s.place.rest = g ++ r) (hne : g ≠ []) (hg : ∀ c ∈ g, Text.isBlank c = true)
    (hr : ∀ c ∈ r.head?, Text.isBlank c = false) (hk : (k (s.after g r)).isSome = true) : gap.run s k = k (s.after g r) := by
  obtain ⟨c, g, rfl⟩ := List.exists_cons_of_ne_nil hne
  obtain ⟨hc, hg⟩ := List.forall_mem_cons.1 hg
  have hafter : (past s c (g ++ r)).after g r = s.after (c :: g) r := after_append [c] g (g ++ r) r
  have hmany : (any0 Text.isBlank).run (past s c (g ++ r)) k = k ((past s c (g ++ r)).after g r) :=
    run_any0_of_isSome rfl hg hr (hafter ▸ hk)
  rw [gap, some1, run, run, hrest]
  dsimp only [List.cons_append]
  rw [if_pos hc, ← hafter]
  exact hmany

/-- An optional part is taken, where what is to follow succeeds then. -/
theorem run_opt_of_isSome (h : (p.run s k).isSome = true) : (opt p).run s k = p.run s k := by
  obtain ⟨x, hx⟩ := Option.isSome_iff_exists.1 h
  rw [opt, run, hx]
  rfl

end Preference

/-! ## Composite patterns -/

section Shapes

variable {before : Option Char} {w r : Text} {ps : List (Part × Text)} {q : Pattern}

theorem reads_append_iff : (p ++ q).Reads before w r ps ↔ ∃ w₁ w₂ ps₁ ps₂, p.Reads before w₁ (w₂ ++ r) ps₁ ∧
    q.Reads (w₁.getLast?.or before) w₂ r ps₂ ∧ w = w₁ ++ w₂ ∧ ps = ps₂ ++ ps₁ := Iff.rfl

/-- What the two parts of a sequence read is read together. -/
theorem Reads.append {w₁ w₂ : Text} {ps₁ ps₂ : List (Part × Text)} (hp : p.Reads before w₁ (w₂ ++ r) ps₁)
    (hq : q.Reads (w₁.getLast?.or before) w₂ r ps₂) : (p ++ q).Reads before (w₁ ++ w₂) r (ps₂ ++ ps₁) :=
  ⟨w₁, w₂, ps₁, ps₂, hp, hq, rfl, rfl⟩

theorem reads_part_iff {label : Part} : (part label p).Reads before w r ps ↔ ∃ ps', p.Reads before w r ps' ∧ ps = (label, w) :: ps' :=
  Iff.rfl

theorem reads_here_iff {holds : Option Char → Text → Bool} :
    (here holds).Reads before w r ps ↔ holds before r = true ∧ w = [] ∧ ps = [] := Iff.rfl

theorem reads_one_iff {accepts : Char → Bool} :
    (one accepts).Reads before w r ps ↔ (∃ c, w = [c] ∧ accepts c = true) ∧ ps = [] := Iff.rfl

theorem reads_any0_iff {accepts : Char → Bool} : (any0 accepts).Reads before w r ps ↔ (∀ c ∈ w, accepts c = true) ∧ ps = [] := Iff.rfl

theorem reads_few0_iff {accepts : Char → Bool} : (few0 accepts).Reads before w r ps ↔ (∀ c ∈ w, accepts c = true) ∧ ps = [] := Iff.rfl

/-- Repeated characters, at least one, read characters of their class and not nothing. -/
theorem reads_some1_iff {accepts : Char → Bool} :
    (some1 accepts).Reads before w r ps ↔ w ≠ [] ∧ (∀ c ∈ w, accepts c = true) ∧ ps = [] := by
  constructor
  · rintro ⟨_, w₂, _, _, ⟨⟨c, rfl, hc⟩, rfl⟩, ⟨hw, rfl⟩, rfl, rfl⟩
    exact ⟨List.cons_ne_nil c w₂, List.forall_mem_cons.2 ⟨hc, hw⟩, rfl⟩
  · rintro ⟨hne, hw, rfl⟩
    obtain ⟨c, w, rfl⟩ := List.exists_cons_of_ne_nil hne
    obtain ⟨hc, hw⟩ := List.forall_mem_cons.1 hw
    exact ⟨[c], w, [], [], ⟨⟨c, rfl, hc⟩, rfl⟩, ⟨hw, rfl⟩, rfl, rfl⟩

theorem reads_opt_iff : (opt p).Reads before w r ps ↔ p.Reads before w r ps ∨ w = [] ∧ ps = [] := Iff.rfl

/-- A literal reads its own text. -/
theorem reads_lit_iff {v : String} : (lit v).Reads before w r ps ↔ w = v.text ∧ ps = [] := by
  unfold lit String.text
  induction v.toList generalizing before w ps with
  | nil => exact Iff.rfl
  | cons c v ih =>
    rw [List.foldr_cons]
    constructor
    · rintro ⟨_, w₂, _, ps₂, ⟨⟨d, rfl, hd⟩, rfl⟩, hrest, rfl, rfl⟩
      obtain ⟨rfl, rfl⟩ := ih.1 hrest
      rw [beq_iff_eq.1 hd]
      exact ⟨rfl, rfl⟩
    · rintro ⟨rfl, rfl⟩
      exact ⟨[c], v, [], [], ⟨⟨c, rfl, beq_self_eq_true c⟩, rfl⟩, ih.2 ⟨rfl, rfl⟩, rfl, rfl⟩

/-- A choice among words reads one of them. -/
theorem reads_oneOfWords_iff {vs : List String} : (oneOfWords vs).Reads before w r ps ↔ (∃ v ∈ vs, w = v.text) ∧ ps = [] := by
  unfold oneOfWords
  induction vs with
  | nil => simp [anyOf, Reads]
  | cons v vs ih =>
    cases vs with
    | nil => simp [anyOf, reads_lit_iff]
    | cons u us =>
      have hfirst : (∃ x ∈ v :: u :: us, w = x.text) ↔ w = v.text ∨ ∃ x ∈ u :: us, w = x.text := by
        simp only [List.mem_cons, exists_eq_or_imp]
      rw [hfirst, or_and_right, ← ih, ← reads_lit_iff]
      exact Iff.rfl

end Shapes

end Pattern

end CodeAtlas
