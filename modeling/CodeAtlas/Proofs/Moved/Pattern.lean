import CodeAtlas.Pattern.Match

/-!
# Searching below line feeds

Some patterns are looked for in the text of a file as a whole. Below line feeds they occur where they occurred, as many characters
further in, if their conditions do not tell the start of the text from the start of a line, and if none of their occurrences begins
with a line feed. A pattern that skips blanks at the start of a line may take the line feeds in, but its parts are the same.
-/

namespace CodeAtlas

/-- The same place when the text has one more line feed in front. -/
def Place.below (p : Place) : Place := ⟨p.offset + 1, some (p.before.getD '\n'), p.rest⟩

/-- The same progress when the text has one more line feed in front. -/
def Progress.below (s : Progress) : Progress := { s with place := s.place.below }

/-- The match `k` characters further in. -/
def Match.movedDown (k : Nat) (m : Match) : Match := { m with offset := m.offset + k }

namespace Pattern

/-- Whether the conditions of a pattern do not tell the start of the text from the start of a line. -/
def LineBlind : Pattern → Prop
  | nothing => True
  | one _ => True
  | many _ _ => True
  | seq p q => p.LineBlind ∧ q.LineBlind
  | alt p q => p.LineBlind ∧ q.LineBlind
  | star p _ => p.LineBlind
  | part _ p => p.LineBlind
  | here holds => ∀ rest, holds none rest = holds (some '\n') rest

/-- Whether no occurrence of a pattern at the start of a text begins with a line feed. -/
def RefusesLineFeed (p : Pattern) : Prop := ∀ t : Text, p.matchAt (fun _ => true) ⟨0, none, '\n' :: t⟩ = none

/-- Whether a pattern passes over a line feed at the start of a text. -/
def PassesLineFeed (p : Pattern) : Prop :=
  ∀ (t : Text) (k : Progress → Option (List (Part × Text))),
    p.run ⟨⟨0, none, '\n' :: t⟩, []⟩ k = p.run ⟨⟨1, some '\n', t⟩, []⟩ k

/-- Where every way to fit after a line feed is a way to fit before it, a pattern passes over it. -/
theorem PassesLineFeed.of_run {p : Pattern} (h : ∀ (t : Text) (k : Progress → Option (List (Part × Text))),
    p.run ⟨⟨0, none, '\n' :: t⟩, []⟩ k = (p.run ⟨⟨1, some '\n', t⟩, []⟩ k).orElse fun _ => none) : p.PassesLineFeed := by
  intro t k
  rw [h]
  cases p.run ⟨⟨1, some '\n', t⟩, []⟩ k <;> rfl

section Run

variable {α β : Type} {k : Progress → Option α}

namespace RunAux

/-- Repeated characters are read alike below. -/
theorem chars_below (accepts : Char → Bool) (lazy : Bool) (t : Text) (s : Progress) :
    chars accepts lazy k t s.below = chars accepts lazy (fun s => k s.below) t s := by
  induction t generalizing s with
  | nil => rfl
  | cons c r ih =>
    have hpast : past s.below c r = (past s c r).below := rfl
    rw [chars, chars, hpast, ih]

/-- A loop is read alike below, if its body is. -/
theorem loop_below {body : Progress → (Progress → Option α) → Option α}
    (hbody : ∀ s k, body s.below k = body s fun s' => k s'.below) (lazy : Bool) (turns : Text) (s : Progress) :
    loop body lazy k turns s.below = loop body lazy (fun s => k s.below) turns s := by
  induction turns generalizing s with
  | nil => rw [loop, loop, hbody]
  | cons c turns ih =>
    have hoffset : ∀ s : Progress, s.below.place.offset = s.place.offset + 1 := fun _ => rfl
    unfold loop
    simp only [hbody, ih, hoffset, Nat.add_right_cancel_iff]

/-- A map goes into both sides of a choice. -/
theorem map_orElse (f : α → β) (a : Option α) (b : Unit → Option α) :
    (a.orElse b).map f = (a.map f).orElse fun u => (b u).map f := by
  cases a <;> rfl

/-- What is made of a result may be made of it at the end of repeated characters. -/
theorem chars_map (accepts : Char → Bool) (lazy : Bool) (f : α → β) (t : Text) (s : Progress) :
    chars accepts lazy (fun s => (k s).map f) t s = (chars accepts lazy k t s).map f := by
  induction t generalizing s with
  | nil => rfl
  | cons c r ih =>
    unfold chars
    rw [ih, apply_ite (Option.map f), apply_ite (Option.map f), map_orElse, map_orElse]

/-- What is made of a result may be made of it at the end of a loop, if it may be in its body. -/
theorem loop_map (body : ∀ {γ : Type}, Progress → (Progress → Option γ) → Option γ) {f : α → β}
    (hbody : ∀ s (k : Progress → Option α), (body s fun s' => (k s').map f) = (body s k).map f) (lazy : Bool) (turns : Text)
    (s : Progress) : loop body lazy (fun s => (k s).map f) turns s = (loop body lazy k turns s).map f := by
  induction turns generalizing s with
  | nil =>
    unfold loop
    rw [hbody, apply_ite (Option.map f), map_orElse, map_orElse]
  | cons c turns ih =>
    unfold loop
    simp only [ih, ← apply_ite (Option.map f), hbody, ← map_orElse]

end RunAux

/-- A line feed in front of the text only changes how far in the places are. -/
theorem run_below {p : Pattern} (hp : p.LineBlind) (s : Progress) (k : Progress → Option α) :
    p.run s.below k = p.run s fun s' => k s'.below := by
  induction p generalizing s k with
  | nothing => rfl
  | one accepts =>
    unfold run
    cases hrest : s.place.rest <;> simp [Progress.below, Place.below, hrest, RunAux.past]
  | many accepts lazy => exact RunAux.chars_below accepts lazy s.place.rest s
  | seq p q ihp ihq =>
    rw [run, run, ihp hp.1]
    simp only [ihq hp.2]
  | alt p q ihp ihq => rw [run, run, ihp hp.1, ihq hp.2]
  | star p lazy ih => exact RunAux.loop_below (fun s k => ih hp s k) lazy s.place.rest s
  | part n p ih =>
    rw [run, run, ih hp]
    simp only [Progress.below, Place.below, Nat.add_sub_add_right]
  | here holds =>
    have hholds : holds s.below.place.before s.below.place.rest = holds s.place.before s.place.rest := by
      cases hbefore : s.place.before with
      | none => simp [Progress.below, Place.below, hbefore, hp s.place.rest]
      | some c => simp [Progress.below, Place.below, hbefore]
    rw [run, run, hholds]

/-- What is made of the end of a match may as well be made of the result. -/
theorem run_map (p : Pattern) (f : α → β) (s : Progress) (k : Progress → Option α) :
    (p.run s fun s' => (k s').map f) = (p.run s k).map f := by
  induction p generalizing s k with
  | nothing => rfl
  | one accepts =>
    unfold run
    cases s.place.rest with
    | nil => rfl
    | cons c r =>
      dsimp only
      rw [apply_ite (Option.map f), Option.map_none]
  | many accepts lazy => exact RunAux.chars_map accepts lazy f s.place.rest s
  | seq p q ihp ihq =>
    unfold run
    simp only [ihq, ihp]
  | alt p q ihp ihq =>
    unfold run
    rw [ihp, ihq, RunAux.map_orElse]
  | star p lazy ih => exact RunAux.loop_map (run p) (fun s k => ih s k) lazy s.place.rest s
  | part n p ih =>
    unfold run
    exact ih _ _
  | here holds =>
    unfold run
    rw [apply_ite (Option.map f), Option.map_none]

end Run

variable {p : Pattern}

/-- A match below is the match moved down. -/
theorem matchAt_below (hp : p.LineBlind) (at_ : Place) :
    p.matchAt (fun _ => true) at_.below = (p.matchAt (fun _ => true) at_).map (Match.movedDown 1) := by
  have hrun : ∀ k : Progress → Option Match, p.run ⟨at_.below, []⟩ k = p.run ⟨at_, []⟩ fun s => k s.below :=
    run_below hp ⟨at_, []⟩
  rw [matchAt, hrun, matchAt, ← run_map]
  simp only [if_true, Option.map_some, Progress.below, Place.below, Nat.add_sub_add_right, Match.movedDown]

/-! ## All occurrences -/

/-- All matches below are the matches moved down. -/
theorem all_below (hp : p.LineBlind) (skip offset : Nat) (before : Option Char) (t : Text) :
    SearchAux.all p skip (offset + 1) (some (before.getD '\n')) t =
      (SearchAux.all p skip offset before t).map (Match.movedDown 1) := by
  induction t generalizing skip offset before with
  | nil =>
    have hmatch := matchAt_below hp ⟨offset, before, []⟩
    rw [Place.below] at hmatch
    unfold SearchAux.all
    rw [hmatch]
    split
    · cases p.matchAt (fun _ => true) ⟨offset, before, []⟩ <;> rfl
    · rfl
  | cons c r ih =>
    have hmatch := matchAt_below hp ⟨offset, before, c :: r⟩
    have hrest : ∀ skip, SearchAux.all p skip (offset + 1 + 1) (some c) r =
        (SearchAux.all p skip (offset + 1) (some c) r).map (Match.movedDown 1) := fun skip => ih skip (offset + 1) (some c)
    rw [Place.below] at hmatch
    unfold SearchAux.all
    cases skip with
    | succ n => exact hrest n
    | zero =>
      dsimp only
      rw [hmatch]
      cases p.matchAt (fun _ => true) ⟨offset, before, c :: r⟩ with
      | none => exact hrest 0
      | some m => exact congrArg (m.movedDown 1 :: ·) (hrest _)

/-- Below line feeds a pattern occurs where it occurred, as many characters further in. -/
theorem findAll_replicate_append (hp : p.LineBlind) (hrefuses : p.RefusesLineFeed) (k : Nat) (t : Text) :
    p.findAll (List.replicate k '\n' ++ t) = (p.findAll t).map (Match.movedDown k) := by
  have hcons : ∀ t : Text, p.findAll ('\n' :: t) = (p.findAll t).map (Match.movedDown 1) := by
    intro t
    rw [findAll, SearchAux.all, hrefuses t]
    exact all_below hp 0 0 none t
  induction k with
  | zero => exact (List.map_id _).symm
  | succ k ih => rw [List.replicate_succ, List.cons_append, hcons, ih, List.map_map]; rfl

/-! ## The first occurrence -/

/-- The first match below is the first match moved down. -/
theorem first_below (hp : p.LineBlind) (offset : Nat) (before : Option Char) (t : Text) :
    SearchAux.first p (offset + 1) (some (before.getD '\n')) t =
      (SearchAux.first p offset before t).map (Match.movedDown 1) := by
  induction t generalizing offset before with
  | nil => exact matchAt_below hp ⟨offset, before, []⟩
  | cons c r ih =>
    have hmatch := matchAt_below hp ⟨offset, before, c :: r⟩
    rw [Place.below] at hmatch
    unfold SearchAux.first
    rw [hmatch]
    cases p.matchAt (fun _ => true) ⟨offset, before, c :: r⟩ with
    | none => exact ih (offset + 1) (some c)
    | some m => rfl

/-- A pattern that passes over a line feed has the same parts from either side of it. -/
theorem PassesLineFeed.parts_matchAt (h : p.PassesLineFeed) (t : Text) :
    (p.matchAt (fun _ => true) ⟨0, none, '\n' :: t⟩).map Match.parts =
      (p.matchAt (fun _ => true) ⟨1, some '\n', t⟩).map Match.parts := by
  rw [matchAt, matchAt, ← run_map, ← run_map]
  exact h t _

/-- The first occurrence below line feeds has the parts of the first occurrence before. -/
theorem parts_search?_replicate_append (hp : p.LineBlind) (h : p.RefusesLineFeed ∨ p.PassesLineFeed) (k : Nat) (t : Text) :
    (p.search? (List.replicate k '\n' ++ t)).map Match.parts = (p.search? t).map Match.parts := by
  have hcons : ∀ t : Text, (p.search? ('\n' :: t)).map Match.parts = (p.search? t).map Match.parts := by
    intro t
    have hrest : (SearchAux.first p 1 (some '\n') t).map Match.parts = (p.search? t).map Match.parts := by
      have hbelow : SearchAux.first p 1 (some '\n') t = (p.search? t).map (Match.movedDown 1) := first_below hp 0 none t
      rw [hbelow, Option.map_map]
      rfl
    rw [search?, SearchAux.first, ← hrest]
    cases hmatch : p.matchAt (fun _ => true) ⟨0, none, '\n' :: t⟩ with
    | none => rfl
    | some m =>
      rcases h with h | h
      · rw [h t] at hmatch
        nomatch hmatch
      · have hparts := h.parts_matchAt t
        rw [hmatch] at hparts
        cases t with
        | nil => exact hparts
        | cons c r =>
          obtain ⟨m', hm', hparts⟩ := Option.map_eq_some_iff.1 hparts.symm
          rw [SearchAux.first, hm']
          exact congrArg some hparts.symm
  induction k with
  | zero => rfl
  | succ k ih => rw [List.replicate_succ, List.cons_append, hcons, ih]

/-- What is made of the parts of the first occurrence stays the same. -/
theorem map_search?_replicate_append {α : Type} (hp : p.LineBlind) (h : p.RefusesLineFeed ∨ p.PassesLineFeed) {f : Match → α}
    (hf : ∀ m m' : Match, m.parts = m'.parts → f m = f m') (k : Nat) (t : Text) :
    (p.search? (List.replicate k '\n' ++ t)).map f = (p.search? t).map f := by
  have hparts := parts_search?_replicate_append hp h k t
  cases hsearch : p.search? t with
  | none =>
    rw [hsearch, Option.map_none, Option.map_eq_none_iff] at hparts
    rw [hparts]
  | some m =>
    rw [hsearch] at hparts
    obtain ⟨m', hm', hparts⟩ := Option.map_eq_some_iff.1 hparts
    rw [hm', Option.map_some, Option.map_some, hf m' m hparts]

/-- Line feeds in front do not change whether a pattern occurs. -/
theorem occursIn_replicate_append (hp : p.LineBlind) (h : p.RefusesLineFeed ∨ p.PassesLineFeed) (k : Nat) (t : Text) :
    p.occursIn (List.replicate k '\n' ++ t) = p.occursIn t := by
  have hparts := congrArg Option.isSome (parts_search?_replicate_append hp h k t)
  rwa [Option.isSome_map, Option.isSome_map] at hparts

/-! ## Patterns whose conditions do not tell -/

@[simp]
theorem lineBlind_lit (s : String) : (lit s).LineBlind := by
  unfold lit
  induction s.toList with
  | nil => trivial
  | cons c r ih => exact ⟨trivial, ih⟩

@[simp]
theorem lineBlind_append (p q : Pattern) : (p ++ q).LineBlind ↔ p.LineBlind ∧ q.LineBlind := Iff.rfl

@[simp]
theorem lineBlind_orElse (p q : Pattern) : (p <|> q).LineBlind ↔ p.LineBlind ∧ q.LineBlind := Iff.rfl

@[simp]
theorem lineBlind_part (label : Part) (p : Pattern) : (part label p).LineBlind ↔ p.LineBlind := Iff.rfl

@[simp]
theorem lineBlind_opt (p : Pattern) : (opt p).LineBlind ↔ p.LineBlind := and_iff_left trivial

@[simp]
theorem lineBlind_anyOf {ps : List Pattern} (hps : ∀ p ∈ ps, p.LineBlind) : (anyOf ps).LineBlind := by
  induction ps using anyOf.induct with
  | case1 => exact fun _ => rfl
  | case2 p => exact hps p (List.mem_singleton_self p)
  | case3 p ps hne ih =>
    rw [anyOf]
    · exact ⟨hps p List.mem_cons_self, ih fun q hq => hps q (List.mem_cons_of_mem p hq)⟩
    · exact hne

@[simp]
theorem lineBlind_oneOfWords (ws : List String) : (oneOfWords ws).LineBlind := by
  refine lineBlind_anyOf fun p hp => ?_
  obtain ⟨w, -, rfl⟩ := List.mem_map.1 hp
  exact lineBlind_lit w

@[simp]
theorem lineBlind_one (accepts : Char → Bool) : (one accepts).LineBlind := trivial

@[simp]
theorem lineBlind_any0 (accepts : Char → Bool) : (any0 accepts).LineBlind := trivial

@[simp]
theorem lineBlind_few0 (accepts : Char → Bool) : (few0 accepts).LineBlind := trivial

@[simp]
theorem lineBlind_some1 (accepts : Char → Bool) : (some1 accepts).LineBlind := ⟨trivial, trivial⟩

@[simp]
theorem lineBlind_blanks : blanks.LineBlind := trivial

@[simp]
theorem lineBlind_gap : gap.LineBlind := ⟨trivial, trivial⟩

@[simp]
theorem lineBlind_word : word.LineBlind := ⟨trivial, trivial⟩

@[simp]
theorem lineBlind_identifier : identifier.LineBlind := ⟨trivial, trivial⟩

@[simp]
theorem lineBlind_lineStart : lineStart.LineBlind := fun _ => rfl

@[simp]
theorem lineBlind_lineEnd : lineEnd.LineBlind := fun _ => rfl

/-- A line feed is no word character, just as there is none before the text. -/
@[simp]
theorem lineBlind_edge : edge.LineBlind := fun _ => rfl

end Pattern

end CodeAtlas
