import CodeAtlas.Proofs.Import.Declarations
import CodeAtlas.Proofs.Pattern.Lines

/-!
# What is found on the line of a declaration

Up to its specifier a declaration consists of words, marks and blanks, and the first quote behind them is that of the specifier. So a
declaration with `from` is found where its line begins, with its own clause and its own specifier, and so is a bare import.
-/

namespace CodeAtlas.TypeScript

open Text Pattern ImportStatement

/-- A quote of a specifier. -/
def IsQuote (c : Char) : Prop := among "'\"" c = true

section Characters

variable {c : Char}

/-- A blank may stand in a clause. -/
theorem isClauseChar_of_isBlank (h : isBlank c = true) : isClauseChar c = true := Bool.or_eq_true_iff.2 (Or.inr h)

/-- So may a character of a word. -/
theorem isClauseChar_of_word (h : wordOr "$" c = true) : isClauseChar c = true := by
  refine Bool.or_eq_true_iff.2 (Or.inl (Bool.or_eq_true_iff.2 ?_))
  refine (Bool.or_eq_true_iff.1 h).imp_right fun hmark => ?_
  obtain rfl : c = '$' := List.mem_singleton.1 (List.contains_iff_mem.1 hmark)
  decide

/-- A quote ends a clause. -/
theorem isClauseChar_of_isQuote (h : IsQuote c) : isClauseChar c = false := by
  have hquotes : ∀ c ∈ "'\"".toList, isClauseChar c = false := by decide
  exact hquotes c (List.contains_iff_mem.1 h)

/-- A quote ends a specifier. -/
theorem except_of_isQuote (h : IsQuote c) : except "'\"" c = false := by
  have h : "'\"".toList.contains c = true := h
  rw [except, h]
  rfl

end Characters

/-! ## What the patterns read -/

section Reads

variable {before : Option Char} {w r : Text} {ps : List (Part × Text)}

/-- A keyword behind the indentation of a line. -/
def lead : Pattern := indentation ++ oneOfWords ["import", "export"]

/-- The modifier of a declaration. -/
def modifier : Pattern := .part .typeOnly ("type" ++ gap)

/-- The end of a declaration with `from`: its clause, `from` and the specifier. -/
def clauseEnd : Pattern := .part .clause (few0 isClauseChar) ++ blanks ++ "from" ++ blanks ++ quotedSpecifier

theorem matchAt_importFrom (at_ : Place) :
    importFrom.matchAt (fun _ => true) at_ = (lead ++ gap ++ opt modifier ++ clauseEnd).matchAt (fun _ => true) at_ := rfl

/-- The lead of a declaration repeats characters only. -/
theorem starFree_lead : lead.StarFree := ⟨⟨trivial, trivial⟩, starFree_oneOfWords _⟩

/-- So does a gap. -/
theorem starFree_gap : gap.StarFree := ⟨trivial, trivial⟩

/-- So does the modifier. -/
theorem starFree_modifier : modifier.StarFree := ⟨starFree_lit _, trivial, trivial⟩

/-- So does a specifier with its quotes. -/
theorem starFree_quotedSpecifier : quotedSpecifier.StarFree := ⟨⟨trivial, trivial, trivial⟩, trivial⟩

/-- So does the end of a declaration. -/
theorem starFree_clauseEnd : clauseEnd.StarFree := ⟨⟨⟨⟨trivial, trivial⟩, starFree_lit _⟩, trivial⟩, starFree_quotedSpecifier⟩

/-- So does a declaration with `from`. -/
theorem starFree_importFrom : importFrom.StarFree :=
  ⟨⟨⟨⟨⟨⟨⟨starFree_lead, starFree_gap⟩, starFree_modifier, trivial⟩, trivial⟩, trivial⟩, starFree_lit _⟩, trivial⟩, starFree_quotedSpecifier⟩

/-- So does a bare import. -/
theorem starFree_sideEffectImport : sideEffectImport.StarFree :=
  ⟨⟨⟨⟨trivial, trivial⟩, starFree_lit _⟩, trivial, trivial⟩, starFree_quotedSpecifier⟩

/-- An indentation consists of blanks. -/
theorem isBlank_of_indentation {i : Text} (h : ∀ c ∈ i, among " \t" c = true) : ∀ c ∈ i, isBlank c = true := by
  have hblank : ∀ c ∈ " \t".toList, isBlank c = true := by decide
  exact fun c hc => hblank c (List.contains_iff_mem.1 (h c hc))

/-- An indentation is read at the beginning of a line, and is blank. -/
theorem of_indentation (h : indentation.Reads before w r ps) :
    (before = none ∨ before = some '\n') ∧ (∀ c ∈ w, isBlank c = true) ∧ ps = [] := by
  obtain ⟨_, i, _, _, hstart, hspaces, rfl, rfl⟩ := reads_append_iff.1 h
  obtain ⟨hline, rfl, rfl⟩ := reads_here_iff.1 hstart
  obtain ⟨hi, rfl⟩ := reads_any0_iff.1 hspaces
  exact ⟨by simpa using hline, isBlank_of_indentation hi, rfl⟩

/-- A lead is an indentation and one of the two keywords. -/
theorem of_lead (h : lead.Reads before w r ps) : ∃ i kw, w = i ++ kw ∧ (before = none ∨ before = some '\n') ∧
    (∀ c ∈ i, isBlank c = true) ∧ (kw = "import".text ∨ kw = "export".text) ∧ ps = [] := by
  obtain ⟨i, kw, _, _, hspaces, hkw, rfl, rfl⟩ := reads_append_iff.1 h
  obtain ⟨hline, hi, rfl⟩ := of_indentation hspaces
  obtain ⟨⟨v, hv, rfl⟩, rfl⟩ := reads_oneOfWords_iff.1 hkw
  refine ⟨i, _, rfl, hline, hi, ?_, rfl⟩
  rcases List.mem_cons.1 hv with rfl | hv
  · exact Or.inl rfl
  · exact Or.inr (List.mem_singleton.1 hv ▸ rfl)

/-- A gap is read as blanks, at least one. -/
theorem of_gap (h : gap.Reads before w r ps) : IsGap w ∧ ps = [] := by
  obtain ⟨hne, hw, rfl⟩ := reads_some1_iff.1 h
  exact ⟨⟨hne, hw⟩, rfl⟩

/-- A modifier is its word and a gap. -/
theorem of_modifier (h : modifier.Reads before w r ps) : ∃ g, IsGap g ∧ w = "type".text ++ g ∧ ps = [(.typeOnly, w)] := by
  obtain ⟨_, hword, rfl⟩ := reads_part_iff.1 h
  obtain ⟨v, g, _, _, hv, hgap, rfl, rfl⟩ := reads_append_iff.1 hword
  obtain ⟨rfl, rfl⟩ := reads_lit_iff.1 hv
  obtain ⟨hg, rfl⟩ := of_gap hgap
  exact ⟨g, hg, rfl, rfl⟩

/-- A specifier stands between two quotes and has none itself; the two need not be the same. -/
theorem of_quotedSpecifier (h : quotedSpecifier.Reads before w r ps) : ∃ q s q', w = q :: (s ++ [q']) ∧ IsQuote q ∧ IsQuote q' ∧
    s ≠ [] ∧ (∀ c ∈ s, except "'\"" c = true) ∧ ps = [(.specifier, s)] := by
  obtain ⟨_, _, _, _, hfront, hclose, rfl, rfl⟩ := reads_append_iff.1 h
  obtain ⟨_, s, _, _, hopen, hpart, rfl, rfl⟩ := reads_append_iff.1 hfront
  obtain ⟨⟨q, rfl, hq⟩, rfl⟩ := reads_one_iff.1 hopen
  obtain ⟨_, hsome, rfl⟩ := reads_part_iff.1 hpart
  obtain ⟨hne, hs, rfl⟩ := reads_some1_iff.1 hsome
  obtain ⟨⟨q', rfl, hq'⟩, rfl⟩ := reads_one_iff.1 hclose
  exact ⟨q, s, q', rfl, hq, hq', hne, hs, rfl⟩

/-- The end of a declaration is a clause, the word `from`, and a specifier, with blanks between. -/
theorem of_clauseEnd (h : clauseEnd.Reads before w r ps) : ∃ clause b b' v q s q',
    w = clause ++ (b ++ ("from".text ++ (b' ++ v))) ∧ v = q :: (s ++ [q']) ∧ (∀ c ∈ clause, isClauseChar c = true) ∧
      (∀ c ∈ b, isBlank c = true) ∧ (∀ c ∈ b', isBlank c = true) ∧ IsQuote q ∧ IsQuote q' ∧ s ≠ [] ∧
      (∀ c ∈ s, except "'\"" c = true) ∧ ps = [(.specifier, s), (.clause, clause)] := by
  obtain ⟨w₄, v, _, _, h₃, hquoted, rfl, rfl⟩ := reads_append_iff.1 h
  obtain ⟨w₃, b', _, _, h₂, hblanks', rfl, rfl⟩ := reads_append_iff.1 h₃
  obtain ⟨w₂, u, _, _, h₁, hword, rfl, rfl⟩ := reads_append_iff.1 h₂
  obtain ⟨clause, b, _, _, hpart, hblanks, rfl, rfl⟩ := reads_append_iff.1 h₁
  obtain ⟨_, hchars, rfl⟩ := reads_part_iff.1 hpart
  obtain ⟨hclause, rfl⟩ := reads_few0_iff.1 hchars
  obtain ⟨hb, rfl⟩ := reads_any0_iff.1 hblanks
  obtain ⟨rfl, rfl⟩ := reads_lit_iff.1 hword
  obtain ⟨hb', rfl⟩ := reads_any0_iff.1 hblanks'
  obtain ⟨q, s, q', hv, hq, hq', hne, hs, rfl⟩ := of_quotedSpecifier hquoted
  exact ⟨clause, b, b', v, q, s, q', by simp only [List.append_assoc], hv, hclause, hb, hb', hq, hq', hne, hs, rfl⟩

/-- Spaces and tabs at the beginning of a line can be read as an indentation. -/
theorem indentation_reads (hbefore : before = none ∨ before = some '\n') (hw : ∀ c ∈ w, among " \t" c = true) :
    indentation.Reads before w r [] := by
  have hstart : lineStart.Reads before [] (w ++ r) [] := by
    refine reads_here_iff.2 ⟨?_, rfl, rfl⟩
    rcases hbefore with rfl | rfl <;> rfl
  exact hstart.append (reads_any0_iff.2 ⟨hw, rfl⟩)

/-- An indentation and a keyword can be read as a lead. -/
theorem lead_reads {i kw : Text} (hbefore : before = none ∨ before = some '\n') (hi : ∀ c ∈ i, among " \t" c = true)
    (hkw : kw = "import".text ∨ kw = "export".text) : lead.Reads before (i ++ kw) r [] := by
  refine (indentation_reads hbefore hi).append (reads_oneOfWords_iff.2 ⟨?_, rfl⟩)
  rcases hkw with rfl | rfl
  · exact ⟨"import", List.mem_cons_self, rfl⟩
  · exact ⟨"export", List.mem_cons_of_mem _ List.mem_cons_self, rfl⟩

/-- Blanks, at least one, can be read as a gap. -/
theorem gap_reads (h : IsGap w) : gap.Reads before w r [] := reads_some1_iff.2 ⟨h.1, h.2, rfl⟩

/-- The word and a gap can be read as a modifier. -/
theorem modifier_reads {g : Text} (hg : IsGap g) : modifier.Reads before ("type".text ++ g) r [(.typeOnly, "type".text ++ g)] :=
  reads_part_iff.2 ⟨[], (reads_lit_iff.2 ⟨rfl, rfl⟩).append (gap_reads hg), rfl⟩

/-- What has no quote can be read as a specifier between two. -/
theorem quotedSpecifier_reads {q q' : Char} {s : Text} (hq : IsQuote q) (hq' : IsQuote q') (hne : s ≠ [])
    (hs : ∀ c ∈ s, except "'\"" c = true) : quotedSpecifier.Reads before (q :: (s ++ [q'])) r [(.specifier, s)] :=
  ((reads_one_iff.2 ⟨⟨q, rfl, hq⟩, rfl⟩).append (reads_part_iff.2 ⟨[], reads_some1_iff.2 ⟨hne, hs, rfl⟩, rfl⟩)).append
    (reads_one_iff.2 ⟨⟨q', rfl, hq'⟩, rfl⟩)

/-- The specifier of a declaration can be read. -/
theorem quoted_reads {s : Specifier} (hs : s.text ≠ []) : quotedSpecifier.Reads before s.quoted r [(.specifier, s.text)] :=
  quotedSpecifier_reads s.quote_mem s.quote_mem hs s.chars

/-- A clause, the word `from` and a specifier can be read as the end of a declaration. -/
theorem clauseEnd_reads {clause b b' : Text} {s : Specifier} (hclause : ∀ c ∈ clause, isClauseChar c = true) (hb : ∀ c ∈ b, isBlank c = true)
    (hb' : ∀ c ∈ b', isBlank c = true) (hs : s.text ≠ []) :
    ∃ ps, clauseEnd.Reads before (clause ++ (b ++ ("from".text ++ (b' ++ s.quoted)))) r ps := by
  have hreads : clauseEnd.Reads before (clause ++ b ++ "from".text ++ b' ++ s.quoted) r _ :=
    ((((reads_part_iff.2 ⟨[], reads_few0_iff.2 ⟨hclause, rfl⟩, rfl⟩).append (reads_any0_iff.2 ⟨hb, rfl⟩)).append
      (reads_lit_iff.2 ⟨rfl, rfl⟩)).append (reads_any0_iff.2 ⟨hb', rfl⟩)).append (quoted_reads hs)
  simp only [List.append_assoc] at hreads
  exact ⟨_, hreads⟩

/-- A keyword, a gap and a specifier can be read as a bare import. -/
theorem sideEffectImport_reads {i g : Text} {s : Specifier} (hbefore : before = none ∨ before = some '\n')
    (hi : ∀ c ∈ i, among " \t" c = true) (hg : IsGap g) (hs : s.text ≠ []) :
    ∃ ps, sideEffectImport.Reads before (i ++ ("import".text ++ (g ++ s.quoted))) r ps := by
  have hreads : sideEffectImport.Reads before (i ++ "import".text ++ g ++ s.quoted) r _ :=
    (((indentation_reads hbefore hi).append (reads_lit_iff.2 ⟨rfl, rfl⟩)).append (gap_reads hg)).append (quoted_reads hs)
  simp only [List.append_assoc] at hreads
  exact ⟨_, hreads⟩

end Reads

/-! ## Matches -/

section Matches

variable {at_ : Place} {m : Match}

/-- What a match of a declaration with `from` is made of. -/
structure ReadAs (at_ : Place) (m : Match) (i kw g ty clause b b' s : Text) (q q' : Char) : Prop where
  before : at_.before = none ∨ at_.before = some '\n'
  rest : at_.rest = i ++ (kw ++ (g ++ (ty ++ (clause ++ (b ++ ("from".text ++ (b' ++ q :: (s ++ q' :: m.rest))))))))
  text : m.text = i ++ (kw ++ (g ++ (ty ++ (clause ++ (b ++ ("from".text ++ (b' ++ q :: (s ++ [q']))))))))
  indent : ∀ c ∈ i, isBlank c = true
  keyword : kw = "import".text ∨ kw = "export".text
  gap : IsGap g
  type : ty = [] ∨ ∃ g', IsGap g' ∧ ty = "type".text ++ g'
  clauseChars : ∀ c ∈ clause, isClauseChar c = true
  blanks : (∀ c ∈ b, isBlank c = true) ∧ ∀ c ∈ b', isBlank c = true
  quotes : IsQuote q ∧ IsQuote q'
  some_ : s ≠ []
  chars : ∀ c ∈ s, except "'\"" c = true
  specifier : m.get .specifier = s
  clause_eq : m.get .clause = clause
  typeOnly : m.has .typeOnly = !ty.isEmpty

/-- A match is made of a keyword, perhaps the modifier, a clause, `from` and a specifier. -/
theorem exists_readAs {p : Pattern} (hstar : p.StarFree)
    (hp : ∀ {before : Option Char} {w r : Text} {ps : List (Part × Text)}, p.Reads before w r ps →
      w = [] ∧ ps = [] ∨ ∃ g, IsGap g ∧ w = "type".text ++ g ∧ ps = [(.typeOnly, w)])
    (h : (lead ++ gap ++ p ++ clauseEnd).matchAt (fun _ => true) at_ = some m) :
    ∃ i kw g ty clause b b' s q q', ReadAs at_ m i kw g ty clause b b' s q q' ∧ ∃ before r ps, p.Reads before ty r ps := by
  have hstarFree : (lead ++ gap ++ p ++ clauseEnd).StarFree := ⟨⟨⟨starFree_lead, starFree_gap⟩, hstar⟩, starFree_clauseEnd⟩
  obtain ⟨hrest, hreads⟩ := reads_of_matchAt hstarFree h
  obtain ⟨w₃, v₃, _, _, h₂, hend, htext₃, hparts₃⟩ := reads_append_iff.1 hreads
  obtain ⟨w₂, ty, _, tp, h₁, htype, rfl, rfl⟩ := reads_append_iff.1 h₂
  obtain ⟨w₁, g, _, _, hlead, hgap, rfl, rfl⟩ := reads_append_iff.1 h₁
  obtain ⟨i, kw, rfl, hbefore, hi, hkw, rfl⟩ := of_lead hlead
  obtain ⟨hg, rfl⟩ := of_gap hgap
  obtain ⟨clause, b, b', v, q, s, q', rfl, rfl, hclause, hb, hb', hq, hq', hne, hs, rfl⟩ := of_clauseEnd hend
  have htext : m.text = i ++ (kw ++ (g ++ (ty ++ (clause ++ (b ++ ("from".text ++ (b' ++ q :: (s ++ [q'])))))))) := by
    rw [htext₃]
    simp only [List.append_assoc]
  have hparts : m.parts = (.specifier, s) :: (.clause, clause) :: tp := by rw [hparts₃]; simp
  have htypeOnly : m.has .typeOnly = !ty.isEmpty := by
    rw [Match.has, Match.get, Match.get?, hparts]
    rcases hp htype with ⟨rfl, rfl⟩ | ⟨g', -, rfl, rfl⟩ <;> rfl
  refine ⟨i, kw, g, ty, clause, b, b', s, q, q', ?_, _, _, _, htype⟩
  refine ⟨hbefore, ?_, htext, hi, hkw, hg, ?_, hclause, ⟨hb, hb'⟩, ⟨hq, hq'⟩, hne, hs, ?_, ?_, htypeOnly⟩
  · rw [hrest, htext]
    simp only [List.append_assoc, List.cons_append, List.nil_append]
  · rcases hp htype with ⟨hty, -⟩ | ⟨g', hg', hty, -⟩
    · exact Or.inl hty
    · exact Or.inr ⟨g', hg', hty⟩
  · rw [Match.get, Match.get?, hparts]
    rfl
  · rw [Match.get, Match.get?, hparts]
    rfl

/-- A match of a declaration with `from`, with the modifier or without. -/
theorem exists_readAs_importFrom (h : importFrom.matchAt (fun _ => true) at_ = some m) :
    ∃ i kw g ty clause b b' s q q', ReadAs at_ m i kw g ty clause b b' s q q' := by
  obtain ⟨i, kw, g, ty, clause, b, b', s, q, q', hread, -⟩ := exists_readAs (p := opt modifier) ⟨starFree_modifier, trivial⟩
    (fun h => (reads_opt_iff.1 h).symm.imp id of_modifier) h
  exact ⟨i, kw, g, ty, clause, b, b', s, q, q', hread⟩

/-- The keywords are words. -/
theorem isToken_keyword {kw : Text} (h : kw = "import".text ∨ kw = "export".text) : IsToken kw := by
  have hall : ∀ w ∈ ["import".text, "export".text], IsToken w := by
    unfold IsToken
    decide
  exact hall kw (by rcases h with rfl | rfl <;> decide)

/-- Texts that begin with a keyword, and are the same, have the same keyword. -/
theorem eq_of_keywords {kw kw' x y : Text} (hkw : kw = "import".text ∨ kw = "export".text) (hkw' : kw' = "import".text ∨ kw' = "export".text)
    (h : kw ++ x = kw' ++ y) : kw = kw' ∧ x = y := by
  rcases hkw with rfl | rfl <;> rcases hkw' with rfl | rfl
  · exact ⟨rfl, List.append_cancel_left h⟩
  · exact absurd (List.cons.inj h).1 (by decide)
  · exact absurd (List.cons.inj h).1 (by decide)
  · exact ⟨rfl, List.append_cancel_left h⟩

/-- Where the modifier and a clause can be read, the modifier is taken for one. -/
theorem run_of_modifier {α : Type} {k : Progress → Option α} (hk : ∀ s, (k s).isSome = true) {i kw g g' w r : Text}
    (hi : ∀ c ∈ i, isBlank c = true) (hkw : kw = "import".text ∨ kw = "export".text) (hg : IsGap g) (hg' : IsGap g')
    (hrest : at_.rest = i ++ (kw ++ (g ++ ("type".text ++ (g' ++ (w ++ r))))))
    (hend : ∀ before, ∃ ps, clauseEnd.Reads before w r ps) :
    (lead ++ gap ++ opt modifier ++ clauseEnd).run ⟨at_, []⟩ k = (lead ++ gap ++ modifier ++ clauseEnd).run ⟨at_, []⟩ k := by
  refine run_congr starFree_lead fun {s} hfits => ?_
  have hs : s.place.rest = g ++ ("type".text ++ (g' ++ (w ++ r))) := by
    obtain ⟨_, r', _, hread, hreads⟩ := exists_reads_of_fits starFree_lead hfits
    obtain ⟨i', kw', rfl, -, hi', hkw', rfl⟩ := of_lead hreads
    have hall : i ++ (kw ++ (g ++ ("type".text ++ (g' ++ (w ++ r))))) = i' ++ (kw' ++ r') := by
      rw [← hrest, ← List.append_assoc]
      exact hread.rest
    obtain ⟨-, hkeywords⟩ := eq_of_runs hall hi hi' ((isToken_keyword hkw).head? _) ((isToken_keyword hkw').head? _)
    exact hread.rest_eq.trans (eq_of_keywords hkw hkw' hkeywords).2.symm
  have hnoBlank : ∀ c ∈ ("type".text ++ (g' ++ (w ++ r))).head?, isBlank c = false := by
    rintro c ⟨⟩
    decide
  have hmodified : (modifier.run (s.after g ("type".text ++ (g' ++ (w ++ r)))) fun s' => clauseEnd.run s' k).isSome = true := by
    obtain ⟨s₁, hfits₁, hread₁⟩ := exists_fits_of_reads (s := s.after g ("type".text ++ (g' ++ (w ++ r)))) (modifier_reads hg')
      (List.append_assoc _ _ _).symm
    obtain ⟨ps, hend⟩ := hend s₁.place.before
    obtain ⟨s₂, hfits₂, -⟩ := exists_fits_of_reads hend hread₁.rest_eq
    exact isSome_run_of_fits starFree_modifier hfits₁ (isSome_run_of_fits starFree_clauseEnd hfits₂ (hk s₂))
  have hoptional := run_opt_of_isSome hmodified
  have hgap := run_gap_of_isSome (k := fun s' => modifier.run s' fun s' => clauseEnd.run s' k) hs hg.1 hg.2 hnoBlank hmodified
  have hgap' := run_gap_of_isSome (k := fun s' => (opt modifier).run s' fun s' => clauseEnd.run s' k) hs hg.1 hg.2 hnoBlank
    (by rw [hoptional]; exact hmodified)
  exact hgap'.trans (hoptional.trans hgap.symm)

/-- Where the modifier and a clause behind it can be read, a declaration is read with the modifier. -/
theorem matchAt_importFrom_of_type {i kw g g' w r : Text} (hi : ∀ c ∈ i, isBlank c = true) (hkw : kw = "import".text ∨ kw = "export".text)
    (hg : IsGap g) (hg' : IsGap g') (hrest : at_.rest = i ++ (kw ++ (g ++ ("type".text ++ (g' ++ (w ++ r))))))
    (hend : ∀ before, ∃ ps, clauseEnd.Reads before w r ps) :
    importFrom.matchAt (fun _ => true) at_ = (lead ++ gap ++ modifier ++ clauseEnd).matchAt (fun _ => true) at_ :=
  run_of_modifier (fun _ => rfl) hi hkw hg hg' hrest hend

/-- Where all the pieces of a declaration with `from` can be read, a match is found. -/
theorem exists_matchAt_importFrom {i kw g t w r : Text} (hbefore : at_.before = none ∨ at_.before = some '\n')
    (hi : ∀ c ∈ i, among " \t" c = true) (hkw : kw = "import".text ∨ kw = "export".text) (hg : IsGap g)
    (ht : t = [] ∨ ∃ g', IsGap g' ∧ t = "type".text ++ g') (hend : ∀ before, ∃ ps, clauseEnd.Reads before w r ps)
    (hrest : at_.rest = i ++ (kw ++ (g ++ (t ++ (w ++ r))))) : ∃ m, importFrom.matchAt (fun _ => true) at_ = some m := by
  have hmodifier : ∀ before r, ∃ ps, (opt modifier).Reads before t r ps := by
    intro before r
    rcases ht with rfl | ⟨g', hg', rfl⟩
    · exact ⟨[], reads_opt_iff.2 (Or.inr ⟨rfl, rfl⟩)⟩
    · exact ⟨_, reads_opt_iff.2 (Or.inl (modifier_reads hg'))⟩
  obtain ⟨tp, hmodifier⟩ := hmodifier (((i ++ kw) ++ g).getLast?.or at_.before) (w ++ r)
  obtain ⟨ps, hend⟩ := hend ((((i ++ kw) ++ g) ++ t).getLast?.or at_.before)
  have hreads := (((lead_reads hbefore hi hkw).append (gap_reads hg)).append hmodifier).append hend
  rw [matchAt_importFrom]
  refine exists_matchAt_of_reads ⟨⟨⟨starFree_lead, starFree_gap⟩, starFree_modifier, trivial⟩, starFree_clauseEnd⟩ hreads ?_
  rw [hrest]
  simp only [List.append_assoc]

end Matches

end CodeAtlas.TypeScript
