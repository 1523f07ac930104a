import CodeAtlas.Pattern.Match
import Mathlib.Data.List.Pairwise

/-!
# What matching finds

A pattern fits from one place to another in ways that do not depend on the order in which they are tried. Trying them in order is sound,
and for patterns without repeated bodies it is complete: it fails only where no way leads on. All matches of a text are found from left
to right, so a way to fit that is not found itself begins within a match that is.
-/

namespace CodeAtlas

/-- The place after a text, when `r` is what follows it. -/
def Place.after (at_ : Place) (w r : Text) : Place := ⟨at_.offset + w.length, w.getLast?.or at_.before, r⟩

/-- The progress after a text, when `r` is what follows it. -/
def Progress.after (s : Progress) (w r : Text) : Progress := { s with place := s.place.after w r }

/-- The place behind a text is that behind its first character and then behind the rest. -/
theorem Place.after_cons (at_ : Place) (c : Char) (w r r' : Text) :
    at_.after (c :: w) r = (⟨at_.offset + 1, some c, r'⟩ : Place).after w r := by
  simp only [after, List.length_cons, Place.mk.injEq, and_true]
  refine ⟨by omega, ?_⟩
  cases w with
  | nil => rfl
  | cons d w => rw [List.getLast?_cons_cons]; cases h : (d :: w).getLast? <;> simp_all

/-- The place behind two texts is that behind the second, from the place behind the first. -/
theorem Place.after_append (at_ : Place) (w w' r r' : Text) : (at_.after w r).after w' r' = at_.after (w ++ w') r' := by
  simp only [after, List.length_append, Place.mk.injEq, and_true]
  refine ⟨by omega, ?_⟩
  rw [List.getLast?_append, Option.or_assoc]

namespace Pattern

open RunAux

/-- A way to fit a pattern, from a progress to one further on. -/
inductive Fits : Pattern → Progress → Progress → Prop where
  | nothing {s : Progress} : Fits nothing s s
  | one {accepts : Char → Bool} {s : Progress} {c : Char} {r : Text} :
    s.place.rest = c :: r → accepts c = true → Fits (one accepts) s (past s c r)
  | manyEnd {accepts : Char → Bool} {lazy : Bool} {s : Progress} : Fits (many accepts lazy) s s
  | manyTurn {accepts : Char → Bool} {lazy : Bool} {s s' : Progress} {c : Char} {r : Text} :
    s.place.rest = c :: r → accepts c = true → Fits (many accepts lazy) (past s c r) s' → Fits (many accepts lazy) s s'
  | seq {p q : Pattern} {s m s' : Progress} : Fits p s m → Fits q m s' → Fits (seq p q) s s'
  | first {p q : Pattern} {s s' : Progress} : Fits p s s' → Fits (alt p q) s s'
  | second {p q : Pattern} {s s' : Progress} : Fits q s s' → Fits (alt p q) s s'
  | starEnd {p : Pattern} {lazy : Bool} {s : Progress} : Fits (star p lazy) s s
  | starTurn {p : Pattern} {lazy : Bool} {s m s' : Progress} : Fits p s m → Fits (star p lazy) m s' → Fits (star p lazy) s s'
  | part {label : Part} {p : Pattern} {s s' : Progress} : Fits p s s' →
    Fits (part label p) s { s' with parts := ⟨label, s.place.rest, s'.place.offset - s.place.offset⟩ :: s'.parts }
  | here {holds : Option Char → Text → Bool} {s : Progress} : holds s.place.before s.place.rest = true → Fits (here holds) s s

/-- A pattern that repeats characters only. -/
def StarFree : Pattern → Prop
  | nothing => True
  | one _ => True
  | many _ _ => True
  | seq p q => p.StarFree ∧ q.StarFree
  | alt p q => p.StarFree ∧ q.StarFree
  | star _ _ => False
  | part _ p => p.StarFree
  | here _ => True

section Run

variable {α : Type} {k : Progress → Option α} {x : α}

/-- A choice has the result of one of its sides. -/
theorem orElse_eq_some {a : Option α} {b : Unit → Option α} (h : a.orElse b = some x) : a = some x ∨ b () = some x := by
  cases a with
  | none => exact Or.inr h
  | some y => exact Or.inl h

/-- A choice has a result if one of its sides has. -/
theorem isSome_orElse {a : Option α} {b : Unit → Option α} : (a.orElse b).isSome = true ↔ a.isSome = true ∨ (b ()).isSome = true := by
  cases a with
  | none => exact (or_iff_right Bool.false_ne_true).symm
  | some y => exact iff_of_true rfl (Or.inl rfl)

/-- Where repeated characters give a result, they fit some text and what follows gives it. -/
theorem fits_of_chars {accepts : Char → Bool} {lazy : Bool} {t : Text} {s : Progress} (ht : s.place.rest = t)
    (h : chars accepts lazy k t s = some x) : ∃ s', Fits (many accepts lazy) s s' ∧ k s' = some x := by
  induction t generalizing s with
  | nil => exact ⟨s, .manyEnd, h⟩
  | cons c r ih =>
    unfold chars at h
    split at h
    · exact ⟨s, .manyEnd, h⟩
    · rename_i hc
      have hc : accepts c = true := by simpa using hc
      have hturn : chars accepts lazy k r (past s c r) = some x → ∃ s', Fits (many accepts lazy) s s' ∧ k s' = some x := fun h => by
        obtain ⟨s', hfits, hk⟩ := ih rfl h
        exact ⟨s', .manyTurn ht hc hfits, hk⟩
      split at h
      · exact (orElse_eq_some h).elim (fun h => ⟨s, .manyEnd, h⟩) hturn
      · exact (orElse_eq_some h).elim hturn fun h => ⟨s, .manyEnd, h⟩

/-- Where a loop gives a result, it fits some text and what follows gives it. -/
theorem fits_of_loop {p : Pattern} (hp : ∀ {s : Progress} {k : Progress → Option α}, p.run s k = some x →
      ∃ s', Fits p s s' ∧ k s' = some x) {lazy : Bool} {turns : Text} {s : Progress}
    (h : loop (run p) lazy k turns s = some x) : ∃ s', Fits (star p lazy) s s' ∧ k s' = some x := by
  induction turns generalizing s with
  | nil =>
    have hturn : p.run s k = some x → ∃ s', Fits (star p lazy) s s' ∧ k s' = some x := fun h => by
      obtain ⟨s', hfits, hk⟩ := hp h
      exact ⟨s', .starTurn hfits .starEnd, hk⟩
    unfold loop at h
    split at h
    · exact (orElse_eq_some h).elim (fun h => ⟨s, .starEnd, h⟩) hturn
    · exact (orElse_eq_some h).elim hturn fun h => ⟨s, .starEnd, h⟩
  | cons c turns ih =>
    have hturn : (p.run s fun s' => if s'.place.offset = s.place.offset then k s' else loop (run p) lazy k turns s') = some x →
        ∃ s', Fits (star p lazy) s s' ∧ k s' = some x := fun h => by
      obtain ⟨m, hfits, hm⟩ := hp h
      split at hm
      · exact ⟨m, .starTurn hfits .starEnd, hm⟩
      · obtain ⟨s', hrest, hk⟩ := ih hm
        exact ⟨s', .starTurn hfits hrest, hk⟩
    unfold loop at h
    dsimp only at h
    split at h
    · exact (orElse_eq_some h).elim (fun h => ⟨s, .starEnd, h⟩) hturn
    · exact (orElse_eq_some h).elim hturn fun h => ⟨s, .starEnd, h⟩

/-- What is found is a way to fit that lets the rest succeed. -/
theorem fits_of_run {p : Pattern} {s : Progress} (h : p.run s k = some x) : ∃ s', Fits p s s' ∧ k s' = some x := by
  induction p generalizing s k with
  | nothing => exact ⟨s, .nothing, h⟩
  | one accepts =>
    unfold run at h
    split at h
    · nomatch h
    · rename_i c r hrest
      split at h
      · rename_i hc
        exact ⟨_, .one hrest hc, h⟩
      · nomatch h
  | many accepts lazy => exact fits_of_chars rfl h
  | seq p q ihp ihq =>
    obtain ⟨m, hp, hm⟩ := ihp h
    obtain ⟨s', hq, hk⟩ := ihq hm
    exact ⟨s', .seq hp hq, hk⟩
  | alt p q ihp ihq =>
    rcases orElse_eq_some h with h | h
    · obtain ⟨s', hp, hk⟩ := ihp h
      exact ⟨s', .first hp, hk⟩
    · obtain ⟨s', hq, hk⟩ := ihq h
      exact ⟨s', .second hq, hk⟩
  | star p lazy ih => exact fits_of_loop ih h
  | part label p ih =>
    obtain ⟨s', hp, hk⟩ := ih h
    exact ⟨_, .part hp, hk⟩
  | here holds =>
    unfold run at h
    split at h
    · rename_i hholds
      exact ⟨s, .here hholds, h⟩
    · nomatch h

/-- Where a way to fit lets the rest succeed, one is found. -/
theorem isSome_run_of_fits {p : Pattern} (hp : p.StarFree) {s s' : Progress} (h : Fits p s s') (hk : (k s').isSome = true) :
    (p.run s k).isSome = true := by
  induction h generalizing k with
  | nothing => exact hk
  | one hrest hc =>
    unfold run
    rw [hrest]
    dsimp only
    rw [if_pos hc]
    exact hk
  | @manyEnd accepts lazy s =>
    rw [run]
    cases s.place.rest with
    | nil => exact hk
    | cons c r =>
      unfold chars
      split
      · exact hk
      · split
        · exact isSome_orElse.2 (Or.inl hk)
        · exact isSome_orElse.2 (Or.inr hk)
  | manyTurn hrest hc _ ih =>
    have hturn := ih hp hk
    rw [run] at hturn ⊢
    rw [hrest]
    unfold chars
    rw [hc, if_neg (by decide)]
    split
    · exact isSome_orElse.2 (Or.inr hturn)
    · exact isSome_orElse.2 (Or.inl hturn)
  | seq _ _ ihp ihq => exact ihp hp.1 (ihq hp.2 hk)
  | first _ ih => exact isSome_orElse.2 (Or.inl (ih hp.1 hk))
  | second _ ih => exact isSome_orElse.2 (Or.inr (ih hp.2 hk))
  | starEnd => exact hp.elim
  | starTurn => exact hp.elim
  | part _ ih => exact ih hp hk
  | here hholds =>
    unfold run
    rw [if_pos hholds]
    exact hk

end Run

section Shapes

variable {s s' : Progress}

/-- A sequence fits if its second part fits behind the first. -/
theorem fits_append_iff {p q : Pattern} : Fits (p ++ q) s s' ↔ ∃ m, Fits p s m ∧ Fits q m s' := by
  constructor
  · intro h
    cases h with
    | seq hp hq => exact ⟨_, hp, hq⟩
  · rintro ⟨m, hp, hq⟩
    exact .seq hp hq

/-- A choice fits where one of its sides does. -/
theorem fits_orElse_iff {p q : Pattern} : Fits (p <|> q) s s' ↔ Fits p s s' ∨ Fits q s s' := by
  constructor
  · intro h
    cases h with
    | first h => exact Or.inl h
    | second h => exact Or.inr h
  · exact fun h => h.elim .first .second

/-- What may be left out fits where it does, or nothing. -/
theorem fits_opt_iff {p : Pattern} : Fits (opt p) s s' ↔ Fits p s s' ∨ s' = s := by
  constructor
  · intro h
    cases h with
    | first h => exact Or.inl h
    | second h =>
      cases h
      exact Or.inr rfl
  · rintro (h | rfl)
    · exact .first h
    · exact .second .nothing

/-- A class of characters fits one character of it. -/
theorem fits_one_iff {accepts : Char → Bool} :
    Fits (one accepts) s s' ↔ ∃ c r, s.place.rest = c :: r ∧ accepts c = true ∧ s' = s.after [c] r := by
  constructor
  · intro h
    cases h with
    | one hrest hc => exact ⟨_, _, hrest, hc, rfl⟩
  · rintro ⟨c, r, hrest, hc, rfl⟩
    exact .one hrest hc

/-- A condition fits nothing, where it holds. -/
theorem fits_here_iff {holds : Option Char → Text → Bool} :
    Fits (here holds) s s' ↔ holds s.place.before s.place.rest = true ∧ s' = s := by
  constructor
  · intro h
    cases h with
    | here h => exact ⟨h, rfl⟩
  · rintro ⟨h, rfl⟩
    exact .here h

/-- A label fits where its pattern does, and notes the text. -/
theorem fits_part_iff {label : Part} {p : Pattern} : Fits (part label p) s s' ↔ ∃ m, Fits p s m ∧
    s' = { m with parts := ⟨label, s.place.rest, m.place.offset - s.place.offset⟩ :: m.parts } := by
  constructor
  · intro h
    cases h with
    | part h => exact ⟨_, h, rfl⟩
  · rintro ⟨m, h, rfl⟩
    exact .part h

/-- To go on by two texts is to go on by both together. -/
theorem after_append (w w' r r' : Text) : (s.after w r).after w' r' = s.after (w ++ w') r' :=
  congrArg (Progress.mk · s.parts) (s.place.after_append w w' r r')

/-- A repetition of characters takes any text of them that comes next. -/
theorem fits_any0_iff {accepts : Char → Bool} : Fits (any0 accepts) s s' ↔
    ∃ w r, s.place.rest = w ++ r ∧ (∀ c ∈ w, accepts c = true) ∧ s' = s.after w r := by
  constructor
  · intro h
    generalize hp : any0 accepts = p at h
    induction h with
    | manyEnd => exact ⟨[], _, rfl, nofun, rfl⟩
    | @manyTurn _ _ s s' c r hrest hc _ ih =>
      cases hp
      obtain ⟨w, r', hr, hw, rfl⟩ := ih rfl
      have hr : r = w ++ r' := hr
      refine ⟨c :: w, r', by rw [hrest, hr, List.cons_append], List.forall_mem_cons.2 ⟨hc, hw⟩, ?_⟩
      exact after_append [c] w r r'
    | _ => nomatch hp
  · rintro ⟨w, r, hrest, hw, rfl⟩
    induction w generalizing s with
    | nil =>
      obtain rfl : s.place.rest = r := hrest
      exact .manyEnd
    | cons c w ih =>
      have hturn := ih (s := s.after [c] (w ++ r)) rfl (List.forall_mem_cons.1 hw).2
      rw [after_append] at hturn
      exact .manyTurn hrest (List.forall_mem_cons.1 hw).1 hturn

/-- Repeated characters fit characters of their class, at least one. -/
theorem fits_some1_iff {accepts : Char → Bool} : Fits (some1 accepts) s s' ↔
    ∃ w r, w ≠ [] ∧ s.place.rest = w ++ r ∧ (∀ c ∈ w, accepts c = true) ∧ s' = s.after w r := by
  constructor
  · intro h
    obtain ⟨m, hone, hmany⟩ := fits_append_iff.1 h
    obtain ⟨c, r, hrest, hc, rfl⟩ := fits_one_iff.1 hone
    obtain ⟨w, r', hr, hw, rfl⟩ := fits_any0_iff.1 hmany
    have hr : r = w ++ r' := hr
    exact ⟨c :: w, r', List.cons_ne_nil _ _, by rw [hrest, hr, List.cons_append], List.forall_mem_cons.2 ⟨hc, hw⟩,
      after_append [c] w r r'⟩
  · rintro ⟨w, r, hne, hrest, hw, rfl⟩
    cases w with
    | nil => exact absurd rfl hne
    | cons c w =>
      have hone := fits_one_iff.2 ⟨c, w ++ r, hrest, (List.forall_mem_cons.1 hw).1, rfl⟩
      have hmany := fits_any0_iff.2 ⟨w, r, (rfl : (s.after [c] (w ++ r)).place.rest = w ++ r), (List.forall_mem_cons.1 hw).2, rfl⟩
      rw [after_append] at hmany
      exact fits_append_iff.2 ⟨_, hone, hmany⟩

/-- A literal fits its own text. -/
theorem fits_lit_iff {w : String} : Fits (lit w) s s' ↔ ∃ r, s.place.rest = w.text ++ r ∧ s' = s.after w.text r := by
  unfold lit String.text
  induction w.toList generalizing s with
  | nil =>
    constructor
    · intro h
      cases h
      exact ⟨_, rfl, rfl⟩
    · rintro ⟨r, hr, rfl⟩
      obtain rfl : s.place.rest = r := hr
      exact .nothing
  | cons c w ih =>
    rw [List.foldr_cons]
    constructor
    · intro h
      obtain ⟨m, hone, hrest⟩ := fits_append_iff.1 h
      obtain ⟨d, r, hd, hc, rfl⟩ := fits_one_iff.1 hone
      obtain ⟨r', hr, rfl⟩ := ih.1 hrest
      obtain rfl : d = c := beq_iff_eq.1 hc
      have hr : r = w ++ r' := hr
      exact ⟨r', by rw [hd, hr, List.cons_append], after_append [d] w r r'⟩
    · rintro ⟨r, hr, rfl⟩
      refine fits_append_iff.2 ⟨_, fits_one_iff.2 ⟨c, w ++ r, hr, beq_self_eq_true c, rfl⟩, ih.2 ⟨r, rfl, ?_⟩⟩
      rw [after_append]
      rfl

/-- Of several words any may come next, in whatever order they are tried. -/
theorem fits_oneOfWords_iff {ws : List String} : Fits (oneOfWords ws) s s' ↔ ∃ w ∈ ws, Fits (lit w) s s' := by
  unfold oneOfWords
  induction ws with
  | nil =>
    constructor
    · intro h
      cases h with
      | here h => nomatch h
    · rintro ⟨w, hw, -⟩
      nomatch hw
  | cons w ws ih =>
    cases ws with
    | nil => simp [anyOf]
    | cons v vs =>
      rw [show (∃ x ∈ w :: v :: vs, Fits (lit x) s s') ↔ Fits (lit w) s s' ∨ ∃ x ∈ v :: vs, Fits (lit x) s s' by
        simp only [List.mem_cons, exists_eq_or_imp], ← ih]
      exact fits_orElse_iff (p := lit w) (q := anyOf ((v :: vs).map lit))

end Shapes

/-- A literal repeats characters only. -/
theorem starFree_lit (w : String) : (lit w).StarFree := by
  unfold lit
  induction w.toList with
  | nil => trivial
  | cons c r ih => exact ⟨trivial, ih⟩

/-- So does a choice among words. -/
theorem starFree_oneOfWords (ws : List String) : (oneOfWords ws).StarFree := by
  unfold oneOfWords
  induction ws with
  | nil => trivial
  | cons w ws ih =>
    cases ws with
    | nil => exact starFree_lit w
    | cons v vs => exact ⟨starFree_lit w, ih⟩

section Occurrences

variable {p : Pattern} {m : Match}

/-- A match comes from a way to fit. -/
theorem fits_of_matchAt {at_ : Place} (h : p.matchAt (fun _ => true) at_ = some m) : ∃ s', Fits p ⟨at_, []⟩ s' ∧
    m.text = at_.rest.take (s'.place.offset - at_.offset) ∧ m.parts = s'.parts.map fun p => (p.label, p.text) := by
  obtain ⟨s', hfits, hm⟩ := fits_of_run h
  cases hm
  exact ⟨s', hfits, rfl, rfl⟩

/-- A match begins at the place that was looked at. -/
theorem offset_of_matchAt {at_ : Place} {accept : Place → Bool} (h : p.matchAt accept at_ = some m) : m.offset = at_.offset := by
  obtain ⟨s', -, hm⟩ := fits_of_run h
  split at hm
  · cases hm
    rfl
  · nomatch hm

/-- Where a pattern without loops fits, there is a match. -/
theorem exists_matchAt_of_fits (hp : p.StarFree) {at_ : Place} {s' : Progress} (h : Fits p ⟨at_, []⟩ s') :
    ∃ m, p.matchAt (fun _ => true) at_ = some m := Option.isSome_iff_exists.1 (isSome_run_of_fits hp h rfl)

/-- Every match that is found is one at some place. -/
theorem exists_place_of_mem_all {skip offset : Nat} {before : Option Char} {t : Text} (h : m ∈ SearchAux.all p skip offset before t) :
    ∃ w r, t = w ++ r ∧ p.matchAt (fun _ => true) ((⟨offset, before, t⟩ : Place).after w r) = some m := by
  induction t generalizing skip offset before with
  | nil =>
    unfold SearchAux.all at h
    split at h
    · exact ⟨[], [], rfl, Option.mem_toList.1 h⟩
    · nomatch h
  | cons c t ih =>
    have hlater : ∀ {skip}, m ∈ SearchAux.all p skip (offset + 1) (some c) t → ∃ w r, c :: t = w ++ r ∧
        p.matchAt (fun _ => true) ((⟨offset, before, c :: t⟩ : Place).after w r) = some m := fun h => by
      obtain ⟨w, r, rfl, hm⟩ := ih h
      exact ⟨c :: w, r, rfl, by rwa [Place.after_cons]⟩
    unfold SearchAux.all at h
    split at h
    · exact hlater h
    · split at h
      · rename_i m' hm'
        rcases List.mem_cons.1 h with rfl | h
        · exact ⟨[], c :: t, rfl, hm'⟩
        · exact hlater h
      · exact hlater h

/-- A pattern that takes a whole text has a way to fit that leads to its end. -/
theorem fits_of_isWhole {t : Text} (h : p.isWhole t = true) : ∃ s', Fits p ⟨Place.ofText t, []⟩ s' ∧ s'.place.rest = [] := by
  obtain ⟨m, hm⟩ := Option.isSome_iff_exists.1 h
  obtain ⟨s', hfits, hend⟩ := fits_of_run hm
  split at hend
  · rename_i hempty
    exact ⟨s', hfits, List.isEmpty_iff.1 hempty⟩
  · nomatch hend

/-- No match is found before the place from which the search goes on. -/
theorem le_offset_of_mem_all {skip offset : Nat} {before : Option Char} {t : Text} (h : m ∈ SearchAux.all p skip offset before t) :
    offset + skip ≤ m.offset := by
  induction t generalizing skip offset before with
  | nil =>
    unfold SearchAux.all at h
    split at h
    · rename_i hskip
      rw [offset_of_matchAt (Option.mem_toList.1 h), hskip]
      exact Nat.le_refl _
    · nomatch h
  | cons c t ih =>
    unfold SearchAux.all at h
    split at h
    · have hle := ih h
      omega
    · split at h
      · rename_i m' hm'
        rcases List.mem_cons.1 h with rfl | h
        · exact Nat.le_of_eq (offset_of_matchAt hm').symm
        · have hle := ih h
          omega
      · have hle := ih h
        omega

/-- Matches are found from left to right, and none overlaps another. -/
theorem pairwise_all (skip offset : Nat) (before : Option Char) (t : Text) : (SearchAux.all p skip offset before t).Pairwise
    fun m m' => m.offset < m'.offset ∧ m.offset + m.text.length ≤ m'.offset := by
  induction t generalizing skip offset before with
  | nil =>
    unfold SearchAux.all
    split
    · cases p.matchAt (fun _ => true) ⟨offset, before, []⟩ with
      | none => exact .nil
      | some m => exact List.pairwise_singleton _ m
    · exact .nil
  | cons c t ih =>
    unfold SearchAux.all
    split
    · exact ih _ _ _
    · split
      · rename_i m hm
        refine .cons (fun m' hm' => ?_) (ih _ _ _)
        have hle := le_offset_of_mem_all hm'
        have hoffset : m.offset = offset := offset_of_matchAt hm
        omega
      · exact ih _ _ _

/-- Matches do not overlap, and are found from left to right. -/
theorem pairwise_findAll (p : Pattern) (t : Text) : (p.findAll t).Pairwise
    fun m m' => m.offset < m'.offset ∧ m.offset + m.text.length ≤ m'.offset := pairwise_all 0 0 none t

/-- A match that is found begins not before the end of one that begins earlier. -/
theorem le_of_mem_findAll {t : Text} {m' : Match} (hm : m ∈ p.findAll t) (hm' : m' ∈ p.findAll t) (h : m.offset < m'.offset) :
    m.offset + m.text.length ≤ m'.offset := by
  have hpairs := pairwise_findAll p t
  exact List.Pairwise.forall_of_forall_of_flip (R := fun m m' : Match => m.offset < m'.offset → m.offset + m.text.length ≤ m'.offset)
    (fun m _ h => absurd h (Nat.lt_irrefl m.offset)) (hpairs.imp fun h _ => h.2)
    (hpairs.imp fun h h' => absurd h' (Nat.lt_asymm h.1)) hm hm' h

/-- A match at a place that is not skipped is found, or the place lies within a match that is found. -/
theorem mem_all_or_within {skip offset : Nat} {before : Option Char} {t w r : Text} (ht : t = w ++ r) (hskip : skip ≤ w.length)
    (hm : p.matchAt (fun _ => true) ((⟨offset, before, t⟩ : Place).after w r) = some m) :
    m ∈ SearchAux.all p skip offset before t ∨ ∃ m' ∈ SearchAux.all p skip offset before t, ∃ w' u, w = w' ++ u ∧ u ≠ [] ∧
      p.matchAt (fun _ => true) ((⟨offset, before, t⟩ : Place).after w' (u ++ r)) = some m' ∧ u.length < m'.text.length := by
  induction t generalizing skip offset before w with
  | nil =>
    obtain ⟨rfl, rfl⟩ := List.append_eq_nil_iff.1 ht.symm
    obtain rfl : skip = 0 := Nat.le_zero.1 hskip
    exact Or.inl (Option.mem_toList.2 hm)
  | cons c t ih =>
    have hlater : ∀ {skip w₁}, t = w₁ ++ r → w = c :: w₁ → skip ≤ w₁.length →
        m ∈ SearchAux.all p skip (offset + 1) (some c) t ∨ ∃ m' ∈ SearchAux.all p skip (offset + 1) (some c) t, ∃ w' u,
          w = w' ++ u ∧ u ≠ [] ∧ p.matchAt (fun _ => true) ((⟨offset, before, c :: t⟩ : Place).after w' (u ++ r)) = some m' ∧
            u.length < m'.text.length := by
      rintro skip w₁ hsplit rfl hskip
      rw [Place.after_cons _ _ _ _ t] at hm
      refine (ih hsplit hskip hm).imp_right ?_
      rintro ⟨m', hm', w', u, rfl, hu, hmatch, hwithin⟩
      exact ⟨m', hm', c :: w', u, rfl, hu, by rwa [Place.after_cons], hwithin⟩
    unfold SearchAux.all
    cases w with
    | nil =>
      obtain rfl : skip = 0 := Nat.le_zero.1 hskip
      obtain rfl : c :: t = r := ht
      have hm : p.matchAt (fun _ => true) ⟨offset, before, c :: t⟩ = some m := hm
      dsimp only
      rw [hm]
      exact Or.inl List.mem_cons_self
    | cons d w₁ =>
      obtain ⟨rfl, hsplit⟩ := List.cons.inj ht
      cases skip with
      | succ n => exact hlater hsplit rfl (Nat.le_of_succ_le_succ hskip)
      | zero =>
        dsimp only
        cases hhere : p.matchAt (fun _ => true) ⟨offset, before, c :: t⟩ with
        | none => exact hlater hsplit rfl (Nat.zero_le _)
        | some m₀ =>
          dsimp only
          by_cases hlong : m₀.text.length - 1 ≤ w₁.length
          · rcases hlater hsplit rfl hlong with h | ⟨m', hm', h⟩
            · exact Or.inl (List.mem_cons_of_mem m₀ h)
            · exact Or.inr ⟨m', List.mem_cons_of_mem m₀ hm', h⟩
          · subst hsplit
            refine Or.inr ⟨m₀, List.mem_cons_self, [], c :: w₁, rfl, List.cons_ne_nil c w₁, hhere, ?_⟩
            rw [List.length_cons]
            omega

end Occurrences

end Pattern

end CodeAtlas
