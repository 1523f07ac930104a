import CodeAtlas.Proofs.Import.LogicalLine
import CodeAtlas.Proofs.Pattern.Reads

/-!
# Import statements on one line

On its logical line a statement is recognised by its words: `from` and a module before `import`, or `import` alone. The module is what
stands between the first two words, and the items are what follows `import`.
-/

namespace CodeAtlas.Python

open Text Pattern

/-- The path of a module in front of `import`: word characters and full stops. -/
structure IsModulePath (m : Text) : Prop where
  ne_nil : m ≠ []
  chars : ∀ c ∈ m, wordOr "." c = true
  ne_import : m ≠ "import".text

variable {indent text m v w x y g g' : Text} {us : List Text}

/-- The word `from` is a token. -/
theorem isToken_from : IsToken "from".text := by
  unfold IsToken
  decide

/-- So is the word `import`. -/
theorem isToken_import : IsToken "import".text := by
  unfold IsToken
  decide

/-- The path of a module is a token. -/
theorem IsModulePath.isToken (h : IsModulePath m) : IsToken m := ⟨h.ne_nil, fun c hc => isBlank_of_wordOr (by decide) (h.chars c hc)⟩

/-! ## What the patterns read -/

/-- The pattern of `from` imports repeats characters only. -/
theorem starFree_fromImport : fromImport.StarFree :=
  ⟨⟨⟨⟨⟨⟨⟨⟨⟨trivial, trivial⟩, starFree_lit _⟩, trivial, trivial⟩, trivial, trivial⟩, trivial, trivial⟩, starFree_lit _⟩, trivial, trivial⟩,
    trivial, trivial⟩, trivial⟩

/-- So does that of plain imports. -/
theorem starFree_plainImport : plainImport.StarFree :=
  ⟨⟨⟨⟨⟨trivial, trivial⟩, starFree_lit _⟩, trivial, trivial⟩, trivial, trivial⟩, trivial⟩

/-- What comes after the items is nothing or a last line feed. -/
def IsEnd (r : Text) : Prop := r = [] ∨ r = ['\n']

/-- An ending reads nothing, at an end. -/
theorem isEnd_of_ending {before : Option Char} {r : Text} {ps : List (Part × Text)} (h : ending.Reads before w r ps) :
    w = [] ∧ ps = [] ∧ IsEnd r := by
  obtain ⟨hends, rfl, rfl⟩ := reads_here_iff.1 h
  exact ⟨rfl, rfl, by simpa [IsEnd] using hends⟩

/-- What is found as a `from` import is written as one. -/
theorem of_fromImport {mt : Match} (h : fromImport.matchStart? text = some mt) :
    ∃ b g₁ w g₂ g₃ items r, text = b ++ ("from".text ++ (g₁ ++ (w ++ (g₂ ++ ("import".text ++ (g₃ ++ (items ++ r))))))) ∧
      (∀ c ∈ b, isBlank c = true) ∧ IsGap g₁ ∧ (∀ c ∈ w, wordOr "." c = true) ∧ IsGap g₂ ∧ IsGap g₃ ∧ IsEnd r ∧
      mt.get .specifier = w ∧ mt.get .items = items := by
  obtain ⟨htext, hreads⟩ := reads_of_matchAt starFree_fromImport h
  obtain ⟨w₉, v₉, ps₉, qs₉, hreads₈, hend, htext₉, hparts₉⟩ := reads_append_iff.1 hreads
  obtain ⟨w₈, v₈, ps₈, qs₈, hreads₇, hpart, rfl, rfl⟩ := reads_append_iff.1 hreads₈
  obtain ⟨w₇, v₇, ps₇, qs₇, hreads₆, hgap₃, rfl, rfl⟩ := reads_append_iff.1 hreads₇
  obtain ⟨w₆, v₆, ps₆, qs₆, hreads₅, himport, rfl, rfl⟩ := reads_append_iff.1 hreads₆
  obtain ⟨w₅, v₅, ps₅, qs₅, hreads₄, hgap₂, rfl, rfl⟩ := reads_append_iff.1 hreads₅
  obtain ⟨w₄, v₄, ps₄, qs₄, hreads₃, hspecifier, rfl, rfl⟩ := reads_append_iff.1 hreads₄
  obtain ⟨w₃, v₃, ps₃, qs₃, hreads₂, hgap₁, rfl, rfl⟩ := reads_append_iff.1 hreads₃
  obtain ⟨w₂, v₂, ps₂, qs₂, hreads₁, hfrom, rfl, rfl⟩ := reads_append_iff.1 hreads₂
  obtain ⟨w₁, v₁, ps₁, qs₁, hstart, hblanks, rfl, rfl⟩ := reads_append_iff.1 hreads₁
  obtain ⟨-, rfl, rfl⟩ := reads_here_iff.1 hstart
  obtain ⟨hb, rfl⟩ := reads_any0_iff.1 hblanks
  obtain ⟨rfl, rfl⟩ := reads_lit_iff.1 hfrom
  obtain ⟨hne₁, hg₁, rfl⟩ := reads_some1_iff.1 hgap₁
  obtain ⟨_, hmodule, rfl⟩ := reads_part_iff.1 hspecifier
  obtain ⟨d, n, _, _, hdots, hname, rfl, rfl⟩ := reads_append_iff.1 hmodule
  obtain ⟨hd, rfl⟩ := reads_any0_iff.1 hdots
  obtain ⟨hn, rfl⟩ := reads_any0_iff.1 hname
  obtain ⟨hne₂, hg₂, rfl⟩ := reads_some1_iff.1 hgap₂
  obtain ⟨rfl, rfl⟩ := reads_lit_iff.1 himport
  obtain ⟨hne₃, hg₃, rfl⟩ := reads_some1_iff.1 hgap₃
  obtain ⟨_, hitems, rfl⟩ := reads_part_iff.1 hpart
  obtain ⟨-, -, rfl⟩ := reads_some1_iff.1 hitems
  obtain ⟨rfl, rfl, hrest⟩ := isEnd_of_ending hend
  have hdots : ∀ c ∈ d, wordOr "." c = true := fun c hc => Bool.or_eq_true_iff.2 (Or.inr (hd c hc))
  refine ⟨v₁, v₃, d ++ n, v₅, v₇, v₈, mt.rest, ?_, hb, ⟨hne₁, hg₁⟩, List.forall_mem_append.2 ⟨hdots, hn⟩, ⟨hne₂, hg₂⟩, ⟨hne₃, hg₃⟩,
    hrest, ?_, ?_⟩
  · have htext : text = mt.text ++ mt.rest := htext
    rw [htext, htext₉]
    simp only [List.append_assoc, List.nil_append]
  · rw [Match.get, Match.get?, hparts₉]
    rfl
  · rw [Match.get, Match.get?, hparts₉]
    rfl

/-- What is found as a plain import is written as one. -/
theorem of_plainImport {mt : Match} (h : plainImport.matchStart? text = some mt) :
    ∃ b g items r, text = b ++ ("import".text ++ (g ++ (items ++ r))) ∧ (∀ c ∈ b, isBlank c = true) ∧ IsGap g ∧ IsEnd r ∧
      mt.get .items = items := by
  obtain ⟨htext, hreads⟩ := reads_of_matchAt starFree_plainImport h
  obtain ⟨w₅, v₅, ps₅, qs₅, hreads₄, hend, htext₅, hparts₅⟩ := reads_append_iff.1 hreads
  obtain ⟨w₄, v₄, ps₄, qs₄, hreads₃, hpart, rfl, rfl⟩ := reads_append_iff.1 hreads₄
  obtain ⟨w₃, v₃, ps₃, qs₃, hreads₂, hgap, rfl, rfl⟩ := reads_append_iff.1 hreads₃
  obtain ⟨w₂, v₂, ps₂, qs₂, hreads₁, himport, rfl, rfl⟩ := reads_append_iff.1 hreads₂
  obtain ⟨w₁, v₁, ps₁, qs₁, hstart, hblanks, rfl, rfl⟩ := reads_append_iff.1 hreads₁
  obtain ⟨-, rfl, rfl⟩ := reads_here_iff.1 hstart
  obtain ⟨hb, rfl⟩ := reads_any0_iff.1 hblanks
  obtain ⟨rfl, rfl⟩ := reads_lit_iff.1 himport
  obtain ⟨hne, hg, rfl⟩ := reads_some1_iff.1 hgap
  obtain ⟨_, hitems, rfl⟩ := reads_part_iff.1 hpart
  obtain ⟨-, -, rfl⟩ := reads_some1_iff.1 hitems
  obtain ⟨rfl, rfl, hrest⟩ := isEnd_of_ending hend
  refine ⟨v₁, v₃, v₄, mt.rest, ?_, hb, ⟨hne, hg⟩, hrest, ?_⟩
  · have htext : text = mt.text ++ mt.rest := htext
    rw [htext, htext₅]
    simp only [List.append_assoc, List.nil_append]
  · rw [Match.get, Match.get?, hparts₅]
    rfl

/-- What is written as a `from` import is found as one. -/
theorem exists_fromImport {b g₁ g₂ g₃ items : Text} (hb : ∀ c ∈ b, isBlank c = true) (hm : ∀ c ∈ m, wordOr "." c = true) (hg₁ : IsGap g₁)
    (hg₂ : IsGap g₂) (hg₃ : IsGap g₃) (hitems : items ≠ [] ∧ ∀ c ∈ items, inLine c = true)
    (htext : text = b ++ ("from".text ++ (g₁ ++ (m ++ (g₂ ++ ("import".text ++ (g₃ ++ items))))))) :
    ∃ mt, fromImport.matchStart? text = some mt := by
  have hreads : fromImport.Reads none ([] ++ b ++ "from".text ++ g₁ ++ ([] ++ m) ++ g₂ ++ "import".text ++ g₃ ++ items ++ []) [] _ :=
    ((((((((((reads_here_iff.2 ⟨rfl, rfl, rfl⟩).append (reads_any0_iff.2 ⟨hb, rfl⟩)).append (reads_lit_iff.2 ⟨rfl, rfl⟩)).append
      (reads_some1_iff.2 ⟨hg₁.1, hg₁.2, rfl⟩)).append
      (reads_part_iff.2 ⟨_, (reads_any0_iff.2 ⟨List.forall_mem_nil _, rfl⟩).append (reads_any0_iff.2 ⟨hm, rfl⟩), rfl⟩)).append
      (reads_some1_iff.2 ⟨hg₂.1, hg₂.2, rfl⟩)).append (reads_lit_iff.2 ⟨rfl, rfl⟩)).append (reads_some1_iff.2 ⟨hg₃.1, hg₃.2, rfl⟩)).append
      (reads_part_iff.2 ⟨_, reads_some1_iff.2 ⟨hitems.1, hitems.2, rfl⟩, rfl⟩)).append (reads_here_iff.2 ⟨rfl, rfl, rfl⟩))
  refine exists_matchAt_of_reads starFree_fromImport hreads ?_
  rw [Place.ofText, htext]
  simp only [List.append_assoc, List.nil_append, List.append_nil]

/-- What is written as a plain import is found as one. -/
theorem exists_plainImport {b g₁ items : Text} (hb : ∀ c ∈ b, isBlank c = true) (hg₁ : IsGap g₁)
    (hitems : items ≠ [] ∧ ∀ c ∈ items, inLine c = true) (htext : text = b ++ ("import".text ++ (g₁ ++ items))) :
    ∃ mt, plainImport.matchStart? text = some mt := by
  have hreads : plainImport.Reads none ([] ++ b ++ "import".text ++ g₁ ++ items ++ []) [] _ :=
    ((((((reads_here_iff.2 ⟨rfl, rfl, rfl⟩).append (reads_any0_iff.2 ⟨hb, rfl⟩)).append (reads_lit_iff.2 ⟨rfl, rfl⟩)).append
      (reads_some1_iff.2 ⟨hg₁.1, hg₁.2, rfl⟩)).append
      (reads_part_iff.2 ⟨_, reads_some1_iff.2 ⟨hitems.1, hitems.2, rfl⟩, rfl⟩)).append (reads_here_iff.2 ⟨rfl, rfl, rfl⟩))
  refine exists_matchAt_of_reads starFree_plainImport hreads ?_
  rw [Place.ofText, htext]
  simp only [List.append_assoc, List.nil_append, List.append_nil]

/-! ## Spelled statements -/

section Spelled

variable {l u : Text}

/-- What spells code stays on one line. -/
theorem inLine_of_spells (hcode : IsCode us) (h : Spells us l) : ∀ c ∈ l, inLine c = true := by
  intro c hc
  refine bne_iff_ne.2 ?_
  rintro rfl
  exact not_mem_of_spells hcode h (by decide) (by decide) hc

/-- What is read behind `import` spells the items. -/
theorem spells_items {items r : Text} (hcode : IsCode us) (h : Spells us l) (hg : IsGap g) (hr : IsEnd r) (hl : ' ' :: l = g ++ (items ++ r)) :
    Spells us items := by
  obtain rfl : r = [] := by
    refine hr.resolve_right ?_
    rintro rfl
    have hmem : '\n' ∈ ' ' :: l := hl ▸ List.mem_append_right g (List.mem_append_right items (List.mem_singleton_self _))
    have hline := inLine_of_spells hcode h '\n' ((List.mem_cons.1 hmem).resolve_left (by decide))
    exact absurd hline (by decide)
  rw [List.append_nil] at hl
  exact (hl ▸ h.after_spaces 1 : Spells us (g ++ items)).of_blanks_append hg.2

/-- The word `from` has no commas, brackets and braces. -/
theorem isPlain_from : IsPlain "from".text := by
  unfold IsPlain
  decide

/-- Neither has the word `import`. -/
theorem isPlain_import : IsPlain "import".text := by
  unfold IsPlain
  decide

/-- Neither has a text of word characters and dots. -/
theorem isPlain_path (h : ∀ c ∈ m, wordOr "." c = true) : IsPlain m := isPlain_of_wordOr (by decide) h

/-- Neither has the path of a module. -/
theorem IsModulePath.isPlain (h : IsModulePath m) : IsPlain m := isPlain_path h.chars

/-- An indentation with spaces behind it is blank. -/
theorem isBlank_indented (hindent : ∀ c ∈ indent, isBlank c = true) (n : Nat) : ∀ c ∈ indent ++ List.replicate n ' ', isBlank c = true :=
  List.forall_mem_append.2 ⟨hindent, isBlank_of_mem_replicate⟩

/-- A `from` import gives back its module and its items. Without a word in between, the module itself would be taken for `import`. -/
theorem fromImport_of_spells (hindent : ∀ c ∈ indent, isBlank c = true) (hm : IsModulePath m) (hcode : IsCode (u :: us))
    (hu : mayTouch "import".text u = false) (h : Spells ("from".text :: m :: "import".text :: u :: us) l) :
    ∃ mt, fromImport.matchStart? (indent ++ l) = some mt ∧ mt.get .specifier = m ∧ Spells (u :: us) (mt.get .items) := by
  obtain ⟨n₁, l₁, rfl, h₁⟩ := h.exists_gap (mayTouch_of_isPlain isPlain_from hm.isPlain)
  obtain ⟨n₂, l₂, rfl, h₂⟩ := h₁.exists_gap (mayTouch_of_isPlain hm.isPlain isPlain_import)
  obtain ⟨n₃, l₃, rfl, h₃⟩ := h₂.exists_gap hu
  have hblanks := isBlank_indented hindent n₁
  have hsplit : indent ++ (List.replicate n₁ ' ' ++ ("from".text ++ ' ' :: (List.replicate n₂ ' ' ++ (m ++ ' ' ::
      (List.replicate n₃ ' ' ++ ("import".text ++ ' ' :: l₃)))))) = (indent ++ List.replicate n₁ ' ') ++ ("from".text ++
      ((' ' :: List.replicate n₂ ' ') ++ (m ++ ((' ' :: List.replicate n₃ ' ') ++ ("import".text ++ ([' '] ++ l₃)))))) := by
    simp only [List.append_assoc, List.cons_append, List.nil_append]
  obtain ⟨mt, hmatch⟩ := exists_fromImport hblanks hm.chars (isGap_spaces n₂) (isGap_spaces n₃) (isGap_spaces 0)
    ⟨h₃.ne_nil, inLine_of_spells hcode h₃⟩ hsplit
  refine ⟨mt, hmatch, ?_⟩
  obtain ⟨b, g₁, w, g₂, g₃, items, r, htext, hb, hg₁, hw, hg₂, hg₃, hr, hspecifier, hitems⟩ := of_fromImport hmatch
  rw [← List.append_assoc] at htext
  obtain ⟨-, hrest⟩ := eq_of_words htext hblanks hb isToken_from isToken_from (head?_space _) (hg₁.head? _)
  have hrest : ' ' :: List.replicate n₂ ' ' ++ (m ++ ' ' :: (List.replicate n₃ ' ' ++ ("import".text ++ ' ' :: l₃))) =
      g₁ ++ (w ++ (g₂ ++ ("import".text ++ (g₃ ++ (items ++ r))))) := hrest
  by_cases hne : w = []
  · subst hne
    rw [List.nil_append, ← List.append_assoc g₁] at hrest
    obtain ⟨e, -⟩ := eq_of_words hrest (isGap_spaces n₂).2 (hg₁.append hg₂).2 hm.isToken isToken_import
      (head?_space _) (hg₃.head? _)
    exact absurd e hm.ne_import
  · obtain ⟨rfl, hafter⟩ := eq_of_words hrest (isGap_spaces n₂).2 hg₁.2 hm.isToken ⟨hne, fun c hc => isBlank_of_wordOr (by decide) (hw c hc)⟩
      (head?_space _) (hg₂.head? _)
    obtain ⟨-, hitemsText⟩ := eq_of_words (b := ' ' :: List.replicate n₃ ' ') hafter (isGap_spaces n₃).2 hg₂.2 isToken_import isToken_import
      (head?_space _) (hg₃.head? _)
    rw [hitems]
    exact ⟨hspecifier, spells_items hcode h₃ hg₃ hr hitemsText⟩

/-- A plain import gives back its items, and is no `from` import. -/
theorem plainImport_of_spells (hindent : ∀ c ∈ indent, isBlank c = true) (hcode : IsCode (u :: us)) (hu : mayTouch "import".text u = false)
    (h : Spells ("import".text :: u :: us) l) : fromImport.matchStart? (indent ++ l) = none ∧
      ∃ mt, plainImport.matchStart? (indent ++ l) = some mt ∧ Spells (u :: us) (mt.get .items) := by
  obtain ⟨n, l₁, rfl, h₁⟩ := h.exists_gap hu
  have hblanks := isBlank_indented hindent n
  constructor
  · cases hmatch : fromImport.matchStart? (indent ++ (List.replicate n ' ' ++ ("import".text ++ ' ' :: l₁))) with
    | none => rfl
    | some mt =>
      obtain ⟨b, g₁, w, g₂, g₃, items, r, htext, hb, hg₁, -⟩ := of_fromImport hmatch
      rw [← List.append_assoc] at htext
      obtain ⟨e, -⟩ := eq_of_words htext hblanks hb isToken_import isToken_from (head?_space _) (hg₁.head? _)
      exact absurd e (by decide)
  · obtain ⟨mt, hmatch⟩ := exists_plainImport hblanks (isGap_spaces 0) ⟨h₁.ne_nil, inLine_of_spells hcode h₁⟩
      (List.append_assoc indent _ _).symm
    refine ⟨mt, hmatch, ?_⟩
    obtain ⟨b, g, items, r, htext, hb, hg, hr, hitems⟩ := of_plainImport hmatch
    rw [← List.append_assoc] at htext
    obtain ⟨-, hrest⟩ := eq_of_words htext hblanks hb isToken_import isToken_import (head?_space _) (hg.head? _)
    rw [hitems]
    exact spells_items hcode h₁ hg hr hrest

end Spelled

end CodeAtlas.Python
