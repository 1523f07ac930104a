import CodeAtlas.Proofs.Import.DeclarationLine

/-!
# Declarations that are found

The words of a declaration run up to its specifier, and no other text of the file can stand for them. So where a declaration with `from`
begins, it is found with its own clause, and a bare import with its own specifier.
-/

namespace CodeAtlas.TypeScript

open Text Pattern ImportStatement

/-! ## Words of clause characters -/

section Words

variable {ts : List Text} {l : Text}

/-- The characters of a name may stand in a clause. -/
theorem Name.isClauseChar_of_mem (n : Name) : ∀ c ∈ n.text, isClauseChar c = true := fun c hc => isClauseChar_of_word (n.chars c hc)

/-- So may those of the words of a form. -/
theorem isClauseChar_of_mem_formWords : ∀ t ∈ formWords, ∀ c ∈ t, isClauseChar c = true := by decide

/-- So may those of the tokens of a clause. -/
theorem Clause.isClauseChar_of_mem (clause : Clause) : ∀ t ∈ clause.tokens, ∀ c ∈ t, isClauseChar c = true :=
  clause.forall_tokens Name.isClauseChar_of_mem isClauseChar_of_mem_formWords

/-- So may those of the keyword of a form and of the words behind it. -/
theorem Form.isClauseChar_of_mem (f : Form) : ∀ t ∈ f.keyword :: f.wordsBehind, ∀ c ∈ t, isClauseChar c = true :=
  f.forall_tokens Name.isClauseChar_of_mem isClauseChar_of_mem_formWords

/-- So may those of a text that spells such tokens. -/
theorem isClauseChar_of_spells (h : Spells ts l) (hts : ∀ t ∈ ts, ∀ c ∈ t, isClauseChar c = true) : ∀ c ∈ l, isClauseChar c = true := by
  intro c hc
  rcases h.of_mem hc with rfl | ⟨t, ht, hc⟩
  · decide
  · exact hts t ht c hc

/-- So may those in front of the specifier of a declaration. -/
theorem ModuleDeclaration.isClauseChar_of_mem_front (d : ModuleDeclaration) : ∀ c ∈ d.front, isClauseChar c = true :=
  isClauseChar_of_spells d.front_spells d.form.isClauseChar_of_mem

end Words

/-! ## The words of a match -/

section Matches

variable {at_ : Place} {m : Match} {d : ModuleDeclaration} {i kw g ty clause b b' s r : Text} {q q' q₀ : Char}

namespace ReadAs

variable (h : ReadAs at_ m i kw g ty clause b b' s q q')
include h

/-- So may those in front of the specifier of a match. -/
theorem isClauseChar_of_mem : ∀ c ∈ i ++ (kw ++ (g ++ (ty ++ (clause ++ (b ++ ("from".text ++ b')))))), isClauseChar c = true := by
  have hblank : ∀ {b : Text}, (∀ c ∈ b, isBlank c = true) → ∀ c ∈ b, isClauseChar c = true :=
    fun hb c hc => isClauseChar_of_isBlank (hb c hc)
  have hword : ∀ t ∈ ["import".text, "export".text, "type".text, "from".text], ∀ c ∈ t, isClauseChar c = true := by decide
  have hkw : ∀ c ∈ kw, isClauseChar c = true := by rcases h.keyword with rfl | rfl <;> exact hword _ (by decide)
  have hty : ∀ c ∈ ty, isClauseChar c = true := by
    rcases h.type with rfl | ⟨g', hg', rfl⟩
    · exact nofun
    · exact List.forall_mem_append.2 ⟨hword _ (by decide), hblank hg'.2⟩
  refine List.forall_mem_append.2 ⟨hblank h.indent, List.forall_mem_append.2 ⟨hkw, List.forall_mem_append.2 ⟨hblank h.gap.2,
    List.forall_mem_append.2 ⟨hty, List.forall_mem_append.2 ⟨h.clauseChars, List.forall_mem_append.2 ⟨hblank h.blanks.1, ?_⟩⟩⟩⟩⟩⟩
  exact List.forall_mem_append.2 ⟨hword _ (by decide), hblank h.blanks.2⟩

/-- What a match stands before is read up to its specifier. -/
theorem rest_eq : at_.rest = (i ++ (kw ++ (g ++ (ty ++ (clause ++ (b ++ ("from".text ++ b'))))))) ++ q :: (s ++ q' :: m.rest) := by
  rw [h.rest]
  simp only [List.append_assoc]

/-- The words of a match are the clause characters that stand before its specifier. -/
theorem eq_of_clauseChars {w : Text} (hrest : at_.rest = w ++ q₀ :: r) (hw : ∀ c ∈ w, isClauseChar c = true) (hq₀ : isClauseChar q₀ = false) :
    i ++ (kw ++ (g ++ (ty ++ (clause ++ (b ++ ("from".text ++ b')))))) = w ∧ q :: (s ++ q' :: m.rest) = q₀ :: r := by
  refine eq_of_runs (h.rest_eq.symm.trans hrest) h.isClauseChar_of_mem hw ?_ ?_
  · rintro c ⟨⟩
    exact isClauseChar_of_isQuote h.quotes.1
  · rintro c ⟨⟩
    exact hq₀

/-- A match that begins where a declaration does has the words of the declaration. -/
theorem spells_wordsBehind (hrest : at_.rest = d.front ++ q₀ :: r) (hq₀ : isClauseChar q₀ = false) :
    Spells d.form.wordsBehind (ty ++ (clause ++ (b ++ ("from".text ++ b')))) := by
  obtain ⟨hfront, -⟩ := h.eq_of_clauseChars hrest d.isClauseChar_of_mem_front hq₀
  obtain ⟨n, x, hx, hspells⟩ := d.exists_front
  rw [hx] at hfront
  obtain ⟨-, hwords⟩ := eq_of_runs hfront h.indent isBlank_of_mem_replicate ((isToken_keyword h.keyword).head? _)
    ((isToken_keyword d.form.keyword_eq).head? _)
  obtain ⟨-, hbehind⟩ := eq_of_keywords h.keyword d.form.keyword_eq hwords
  have hspells : Spells d.form.wordsBehind (' ' :: x) := hspells.after_spaces 1
  rw [← hbehind] at hspells
  exact hspells.of_blanks_append h.gap.2

end ReadAs

/-- A specifier ends where its quote is closed. -/
theorem eq_of_quoted {spec : Specifier} {r' : Text} (h : q :: (s ++ q' :: r) = spec.quoted ++ r') (hs : ∀ c ∈ s, except "'\"" c = true)
    (hq' : IsQuote q') : q :: (s ++ [q']) = spec.quoted ∧ s = spec.text := by
  rw [Specifier.quoted, List.cons_append, List.append_assoc] at h
  obtain ⟨rfl, htail⟩ := List.cons.inj h
  obtain ⟨rfl, hclose⟩ := eq_of_runs htail hs spec.chars (by rintro c ⟨⟩; exact except_of_isQuote hq')
    (by rintro c ⟨⟩; exact except_of_isQuote spec.quote_mem)
  rw [(List.cons.inj hclose).1]
  exact ⟨rfl, rfl⟩

/-- No clause begins with the modifier. -/
theorem Clause.not_spells_type {clause : Clause} {us : List Text} {x : Text} (hg : IsGap g) :
    ¬Spells (clause.tokens ++ us) ("type".text ++ (g ++ x)) := by
  have htype : IsToken "type".text := by
    unfold IsToken
    decide
  have hname : ∀ {n : Name} {vs : List Text}, ¬Spells (n.text :: vs) ("type".text ++ (g ++ x)) := by
    intro n vs h
    obtain ⟨k, y, htext, hy⟩ := h.exists_behind n.isPlain
    obtain ⟨-, hwords⟩ := eq_of_runs (a := []) htext nofun isBlank_of_mem_replicate (htype.head? _) (n.isToken.head? _)
    have hgap : ∀ c ∈ (g ++ x).head?, wordOr "$" c = false := fun c hc => by
      have hmarks : ∀ d ∈ "$".toList, isBlank d = false := by decide
      exact eq_false_of_ne_true fun hword => absurd (hg.head? x c hc) (Bool.eq_false_iff.1 (isBlank_of_wordOr hmarks hword))
    have hbehind : ∀ c ∈ y.head?, wordOr "$" c = false := by
      have hmarks : ∀ c ∈ [' ', ',', ')', '\x7d'], wordOr "$" c = false := by decide
      exact fun c hc => hmarks c (hy c hc)
    exact n.ne_type (eq_of_runs hwords (by decide) n.chars hgap hbehind).1.symm
  have hmark : ∀ {c : Char} {vs : List Text}, c ≠ 't' → ¬Spells ([c] :: vs) ("type".text ++ (g ++ x)) := by
    intro c vs hc h
    generalize htext : "type".text ++ (g ++ x) = l at h
    cases h with
    | token k ht _ _ =>
      obtain ⟨-, hwords⟩ := eq_of_runs (a := []) htext nofun isBlank_of_mem_replicate (htype.head? _) (ht.head? _)
      exact hc (List.cons.inj hwords).1.symm
  cases clause with
  | default_ name => exact hname
  | named list => exact hmark (by decide)
  | both name list => exact hname
  | everything name => exact hmark (by decide)

/-- The end of a declaration with `from` can be read, whatever stands before it. -/
theorem exists_clauseEnd {clause : Clause} {x : Text} {spec : Specifier} (h : Spells (clause.tokens ++ ["from".text]) x) (hne : spec.text ≠ [])
    (before : Option Char) : ∃ ps, clauseEnd.Reads before (x ++ spec.quoted) r ps := by
  obtain ⟨a, b', rfl, ha, hb'⟩ := h.exists_mark
  obtain ⟨n, rfl⟩ := hb'.eq_replicate
  obtain ⟨ps, hreads⟩ : ∃ ps, clauseEnd.Reads before (a ++ ([] ++ ("from".text ++ (List.replicate n ' ' ++ spec.quoted)))) r ps :=
    clauseEnd_reads (isClauseChar_of_spells ha clause.isClauseChar_of_mem) nofun isBlank_of_mem_replicate hne
  refine ⟨ps, ?_⟩
  rw [List.nil_append] at hreads
  rwa [List.append_assoc, List.append_assoc]

/-- What a match of a declaration with `from` has to give. -/
structure Gives (m : Match) (typeOnly : Bool) (clause : Clause) (spec : Specifier) (text : Text) : Prop where
  text_eq : m.text = text
  specifier : m.get .specifier = spec.text
  typeOnly_eq : m.has .typeOnly = typeOnly
  clause_spells : Spells clause.tokens (m.get .clause)

/-- A match with the words of a declaration has its clause, and its specifier too. -/
theorem ReadAs.gives {spec : Specifier} {cl : Clause} (h : ReadAs at_ m i kw g ty clause b b' s q q')
    (hrest : at_.rest = d.front ++ (spec.quoted ++ r)) (hclause : Spells (cl.tokens ++ ["from".text]) (clause ++ (b ++ ("from".text ++ b')))) :
    Gives m (!ty.isEmpty) cl spec (d.front ++ spec.quoted) := by
  obtain ⟨hfront, hquoted⟩ := h.eq_of_clauseChars hrest d.isClauseChar_of_mem_front (isClauseChar_of_isQuote spec.quote_mem)
  obtain ⟨hquoted, hs⟩ := eq_of_quoted hquoted h.chars h.quotes.2
  refine ⟨?_, h.specifier.trans hs, h.typeOnly, ?_⟩
  · rw [h.text, ← hfront, ← hquoted]
    simp only [List.append_assoc]
  · rw [← List.append_assoc] at hclause
    rw [h.clause_eq]
    exact (hclause.of_last h.blanks.2).of_append_blanks h.blanks.1

/-- Where a declaration with `from` begins, it is found with its clause and its specifier. -/
theorem exists_importFrom (at_ : Place) {exported typeOnly : Bool} {cl : Clause} {spec : Specifier} (hform : d.form = .withFrom exported typeOnly cl spec)
    (hne : spec.text ≠ []) (hbefore : at_.before = none ∨ at_.before = some '\n') (hrest : at_.rest = d.line ++ r) :
    ∃ m, importFrom.matchAt (fun _ => true) at_ = some m ∧ Gives m typeOnly cl spec (d.front ++ spec.quoted) := by
  have hrest : at_.rest = d.front ++ (spec.quoted ++ (d.rear ++ r)) := by
    rw [hrest, d.line_of_some (congrArg Form.specifier? hform), List.append_assoc, List.append_assoc]
  have hindent : ∀ {n : Nat}, ∀ c ∈ List.replicate n ' ', among " \t" c = true := fun c hc => List.eq_of_mem_replicate hc ▸ by decide
  obtain ⟨n, x, hfront, hspells⟩ := d.exists_front
  have hpieces : at_.rest = List.replicate n ' ' ++ (d.form.keyword ++ ([' '] ++ (x ++ (spec.quoted ++ (d.rear ++ r))))) := by
    rw [hrest, hfront]
    simp only [List.append_assoc, List.cons_append, List.nil_append]
  have hwords := fun {m i kw g ty clause b b' s q q'} (h : ReadAs at_ m i kw g ty clause b b' s q q') =>
    h.spells_wordsBehind (d := d) hrest (isClauseChar_of_isQuote spec.quote_mem)
  rw [hform, Form.wordsBehind] at hspells hwords
  cases typeOnly with
  | false =>
    obtain ⟨m, hm⟩ := exists_matchAt_importFrom (t := []) hbefore hindent d.form.keyword_eq (isGap_spaces 0) (Or.inl rfl)
      (exists_clauseEnd hspells hne) (by rw [hpieces, List.append_assoc]; rfl)
    refine ⟨m, hm, ?_⟩
    obtain ⟨i, kw, g, ty, clause, b, b', s, q, q', hread⟩ := exists_readAs_importFrom hm
    have hty : ty = [] := by
      refine hread.type.resolve_right ?_
      rintro ⟨g', hg', hty⟩
      have hspells := hwords hread
      rw [hty, List.append_assoc] at hspells
      exact cl.not_spells_type hg' hspells
    have hspells := hwords hread
    rw [hty] at hspells
    have hgives := hread.gives hrest hspells
    rwa [hty] at hgives
  | true =>
    obtain ⟨v, vs, htokens, hv⟩ := cl.exists_tokens
    have hgap : mayTouch "type".text v = false := mayTouch_eq_false isPlain_type hv
    have htyped : Spells ("type".text :: v :: (vs ++ ["from".text])) x := by rwa [htokens] at hspells
    obtain ⟨k, y, rfl, hbehind⟩ := htyped.exists_gap hgap
    rw [← List.cons_append, ← htokens] at hbehind
    have hpieces : at_.rest = List.replicate n ' ' ++ (d.form.keyword ++ ((' ' :: List.replicate k ' ') ++
        ("type".text ++ ([' '] ++ ((y ++ spec.quoted) ++ (d.rear ++ r)))))) := by
      rw [hpieces]
      simp only [List.append_assoc, List.cons_append, List.nil_append]
    have hend : ∀ before, ∃ ps, clauseEnd.Reads before (y ++ spec.quoted) (d.rear ++ r) ps := exists_clauseEnd hbehind hne
    obtain ⟨m, hm⟩ := exists_matchAt_importFrom (t := "type".text ++ [' ']) hbefore hindent d.form.keyword_eq (isGap_spaces k)
      (Or.inr ⟨[' '], isGap_spaces 0, rfl⟩) hend (hpieces.trans (by rw [List.append_assoc "type".text]))
    refine ⟨m, hm, ?_⟩
    rw [matchAt_importFrom_of_type isBlank_of_mem_replicate d.form.keyword_eq (isGap_spaces k) (isGap_spaces 0) hpieces hend] at hm
    obtain ⟨i, kw, g, ty, clause, b, b', s, q, q', hread, _, _, _, hmodifier⟩ := exists_readAs starFree_modifier (fun h => Or.inr (of_modifier h)) hm
    obtain ⟨g', hg', rfl, -⟩ := of_modifier hmodifier
    have hspells := hwords hread
    rw [if_pos rfl, List.singleton_append, List.append_assoc] at hspells
    exact hread.gives hrest (hspells.of_first.of_blanks_append hg'.2)

/-! ## Bare imports -/

/-- A bare import that is found. -/
theorem of_sideEffectImport (h : sideEffectImport.matchAt (fun _ => true) at_ = some m) : ∃ i g q s q',
    (at_.before = none ∨ at_.before = some '\n') ∧ at_.rest = (i ++ ("import".text ++ g)) ++ q :: (s ++ q' :: m.rest) ∧
      m.text = (i ++ ("import".text ++ g)) ++ q :: (s ++ [q']) ∧ (∀ c ∈ i, isBlank c = true) ∧ IsGap g ∧ IsQuote q ∧ IsQuote q' ∧
      s ≠ [] ∧ (∀ c ∈ s, except "'\"" c = true) ∧ m.get .specifier = s := by
  obtain ⟨hrest, hreads⟩ := reads_of_matchAt starFree_sideEffectImport h
  obtain ⟨w₂, v, _, _, h₁, hquoted, htext, hparts⟩ := reads_append_iff.1 hreads
  obtain ⟨w₁, g, _, _, h₀, hgap, rfl, rfl⟩ := reads_append_iff.1 h₁
  obtain ⟨i, w, _, _, hspaces, hword, rfl, rfl⟩ := reads_append_iff.1 h₀
  obtain ⟨hbefore, hi, rfl⟩ := of_indentation hspaces
  obtain ⟨rfl, rfl⟩ := reads_lit_iff.1 hword
  obtain ⟨hg, rfl⟩ := of_gap hgap
  obtain ⟨q, s, q', rfl, hq, hq', hne, hs, rfl⟩ := of_quotedSpecifier hquoted
  rw [List.append_assoc i] at htext
  refine ⟨i, g, q, s, q', hbefore, ?_, htext, hi, hg, hq, hq', hne, hs, ?_⟩
  · rw [hrest, htext]
    simp only [List.append_assoc, List.cons_append, List.nil_append]
  · rw [Match.get, Match.get?, hparts]
    rfl

/-- Where a bare import begins, it is found with its specifier. -/
theorem exists_sideEffectImport (at_ : Place) {spec : Specifier} (hform : d.form = .bare spec) (hne : spec.text ≠ [])
    (hbefore : at_.before = none ∨ at_.before = some '\n') (hrest : at_.rest = d.line ++ r) :
    ∃ m, sideEffectImport.matchAt (fun _ => true) at_ = some m ∧ m.text = d.front ++ spec.quoted ∧ m.get .specifier = spec.text := by
  have hrest : at_.rest = d.front ++ (spec.quoted ++ (d.rear ++ r)) := by
    rw [hrest, d.line_of_some (congrArg Form.specifier? hform), List.append_assoc, List.append_assoc]
  obtain ⟨n, x, hfront, hx⟩ := d.exists_front
  rw [hform] at hfront hx
  obtain ⟨k, rfl⟩ := hx.eq_replicate
  have hindent : ∀ c ∈ List.replicate n ' ', among " \t" c = true := fun c hc => List.eq_of_mem_replicate hc ▸ by decide
  obtain ⟨m, hm⟩ : ∃ m, sideEffectImport.matchAt (fun _ => true) at_ = some m := by
    obtain ⟨ps, hreads⟩ := sideEffectImport_reads (r := d.rear ++ r) hbefore hindent (isGap_spaces k) hne
    refine exists_matchAt_of_reads starFree_sideEffectImport hreads ?_
    rw [hrest, hfront]
    simp only [List.append_assoc, List.cons_append]
    rfl
  refine ⟨m, hm, ?_⟩
  obtain ⟨i, g, q, s, q', -, hall, htext, hi, hg, hq, hq', -, hs, hspecifier⟩ := of_sideEffectImport hm
  have hfrontChars : ∀ c ∈ i ++ ("import".text ++ g), isClauseChar c = true := by
    refine List.forall_mem_append.2 ⟨fun c hc => isClauseChar_of_isBlank (hi c hc), List.forall_mem_append.2 ⟨by decide, ?_⟩⟩
    exact fun c hc => isClauseChar_of_isBlank (hg.2 c hc)
  obtain ⟨hwords, hquoted⟩ := eq_of_runs (hall.symm.trans hrest) hfrontChars d.isClauseChar_of_mem_front
    (by rintro c ⟨⟩; exact isClauseChar_of_isQuote hq) (by rintro c ⟨⟩; exact isClauseChar_of_isQuote spec.quote_mem)
  obtain ⟨hquoted, hs⟩ := eq_of_quoted hquoted hs hq'
  exact ⟨by rw [htext, hwords, hquoted], hspecifier.trans hs⟩

/-- Where another declaration begins, no bare import is found. -/
theorem sideEffectImport_eq_none (hbare : ¬d.form.IsBare) (hrest : at_.rest = d.line ++ r) :
    sideEffectImport.matchAt (fun _ => true) at_ = none := by
  refine Option.eq_none_iff_forall_ne_some.2 fun m hm => ?_
  obtain ⟨i, g, q, s, q', -, hall, -, hi, hg, hq, -⟩ := of_sideEffectImport hm
  obtain ⟨n, x, hfront, hx⟩ := d.exists_front
  have hchars := d.form.isClauseChar_of_mem
  cases hbehind : d.form.wordsBehind with
  | nil => exact hbare (d.form.isBare_of_wordsBehind hbehind)
  | cons u us =>
    rw [hbehind] at hx hchars
    cases hx with
    | @token _ l _ k hu _ _ =>
      have hall : i ++ ("import".text ++ (g ++ q :: (s ++ q' :: m.rest))) =
          List.replicate n ' ' ++ (d.form.keyword ++ ((' ' :: List.replicate k ' ') ++ (u ++ (l ++ (d.quoted ++ d.rear ++ r))))) := by
        simpa [hrest, ModuleDeclaration.line, hfront] using hall.symm
      obtain ⟨-, hkeywords⟩ := eq_of_runs hall hi isBlank_of_mem_replicate ((isToken_keyword (Or.inl rfl)).head? _)
        ((isToken_keyword d.form.keyword_eq).head? _)
      obtain ⟨-, hgaps⟩ := eq_of_keywords (Or.inl rfl) d.form.keyword_eq hkeywords
      have hquote : ∀ c ∈ (q :: (s ++ q' :: m.rest)).head?, isBlank c = false := by
        rintro c ⟨⟩
        exact eq_false_of_ne_true fun h => absurd (isClauseChar_of_isBlank h) (by rw [isClauseChar_of_isQuote hq]; decide)
      obtain ⟨-, htokens⟩ := eq_of_runs hgaps hg.2 (isGap_spaces k).2 hquote (hu.head? _)
      obtain ⟨c, u, rfl⟩ := List.exists_cons_of_ne_nil hu.1
      obtain ⟨rfl, -⟩ := List.cons.inj htokens
      have hclause : isClauseChar q = true := hchars (q :: u) (List.mem_cons_of_mem _ List.mem_cons_self) q List.mem_cons_self
      exact Bool.false_ne_true ((isClauseChar_of_isQuote hq).symm.trans hclause)

end Matches

end CodeAtlas.TypeScript
