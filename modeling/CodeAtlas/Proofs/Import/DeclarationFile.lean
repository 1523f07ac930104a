import CodeAtlas.Proofs.Import.FoundDeclaration
import Mathlib.Data.List.Chain

/-!
# Files of declarations

In a file of declarations, each on its own line, a declaration with `from` is found where its line begins, and so is a bare import. Only
behind a list of local exports the pattern may go on to the next line: where no semicolon ends the list, and the next declaration has
`from`.
-/

namespace CodeAtlas.TypeScript

open Text Pattern ImportStatement

/-- What stands behind a declaration: the others, each on its own line, and perhaps a line feed at the end. -/
def behind (final : Bool) : List ModuleDeclaration → Text
  | [] => if final then ['\n'] else []
  | d :: ds => '\n' :: (d.line ++ behind final ds)

/-- The text of a file of declarations, each on its own line, perhaps with a line feed behind the last. -/
def fileText (final : Bool) : List ModuleDeclaration → Text
  | [] => []
  | d :: ds => d.line ++ behind final ds

/-- A list of local exports that no semicolon ends. -/
def ModuleDeclaration.IsOpen (d : ModuleDeclaration) : Prop := (∃ list, d.form = .exportList list) ∧ d.semicolon = false

/-- An open list in front of a declaration with `from`: nothing keeps the two apart. -/
def ModuleDeclaration.RunsInto (d d' : ModuleDeclaration) : Prop := d.IsOpen ∧ d'.form.HasFrom

section Lines

variable (d : ModuleDeclaration)

/-- The line of a declaration is not empty. -/
theorem ModuleDeclaration.line_ne_nil : d.line ≠ [] := List.append_ne_nil_of_left_ne_nil d.front_spells.ne_nil _

/-- It has no line feed. -/
theorem ModuleDeclaration.lineFeed_not_mem : '\n' ∉ d.line := by
  have hquoted : '\n' ∉ d.quoted := by
    rw [ModuleDeclaration.quoted]
    cases d.form.specifier? with
    | none => exact List.not_mem_nil
    | some s =>
      have hquotes : ∀ q ∈ "'\"".toList, '\n' ≠ q := by decide
      have hquote : '\n' ≠ s.quote := hquotes s.quote (List.contains_iff_mem.1 s.quote_mem)
      simp only [Option.map_some, Option.getD_some, Specifier.quoted, List.mem_cons, List.mem_append, List.not_mem_nil, or_false, not_or]
      exact ⟨hquote, s.oneLine, hquote⟩
  simp only [ModuleDeclaration.line, List.mem_append, not_or]
  exact ⟨d.front_spells.not_mem_of_isBlank (by decide) (by decide), hquoted, d.rear_spells.not_mem_of_isBlank (by decide) (by decide)⟩

/-- Its last character is no line feed. -/
theorem ModuleDeclaration.exists_getLast? : ∃ c, d.line.getLast? = some c ∧ c ≠ '\n' := by
  cases hlast : d.line.getLast? with
  | none => exact absurd (List.getLast?_eq_none_iff.1 hlast) d.line_ne_nil
  | some c =>
    refine ⟨c, rfl, ?_⟩
    rintro rfl
    exact d.lineFeed_not_mem (List.mem_of_getLast? hlast)

end Lines

/-! ## Where no declaration with `from` begins -/

section Others

variable {d : ModuleDeclaration} {ds : List ModuleDeclaration} {final : Bool} {at_ : Place} {m : Match} {a t w r : Text} {q : Char}

/-- What stands before a character goes on behind a text without it. -/
theorem exists_of_not_mem (h : a ++ t = w ++ q :: r) (hq : q ∉ a) : ∃ w', w = a ++ w' ∧ t = w' ++ q :: r := by
  rcases List.append_eq_append_iff.1 h with ⟨w', rfl, ht⟩ | ⟨b, rfl, hb⟩
  · exact ⟨w', rfl, ht⟩
  · cases b with
    | nil => exact ⟨[], by rw [List.append_nil, List.append_nil], hb.symm⟩
    | cons c b =>
      rw [List.cons_append] at hb
      obtain ⟨rfl, -⟩ := List.cons.inj hb
      exact absurd (List.mem_append_right w List.mem_cons_self) hq

/-- The character that the words of a declaration end in. -/
def Form.lastChar : Form → Char
  | .withFrom _ _ _ _ => 'm'
  | .bare _ => 't'
  | .exportList _ => '\x7d'

/-- What is written in front of a specifier ends as its form tells. -/
theorem ModuleDeclaration.lastChar?_front (d : ModuleDeclaration) : lastChar? d.front = some d.form.lastChar := by
  have hspells := d.front_spells
  cases hform : d.form with
  | withFrom exported typeOnly clause s =>
    rw [hform, Form.wordsBehind, ← List.append_assoc, ← List.cons_append] at hspells
    exact hspells.lastChar?_eq
  | bare s =>
    rw [hform] at hspells
    have hspells : Spells ([] ++ ["import".text]) d.front := hspells
    exact hspells.lastChar?_eq
  | exportList list =>
    rw [hform, Form.wordsBehind, NameList.tokens, ← List.cons_append, ← List.cons_append] at hspells
    exact hspells.lastChar?_eq

/-- An open list is made of characters of a clause, and ends in a brace. -/
theorem ModuleDeclaration.of_isOpen (hopen : d.IsOpen) : (∀ c ∈ d.line, isClauseChar c = true) ∧ lastChar? d.line = some '\x7d' := by
  obtain ⟨⟨list, hform⟩, hsemicolon⟩ := hopen
  have hrear := d.rear_spells
  rw [hsemicolon] at hrear
  obtain ⟨n, hrear⟩ := hrear.eq_replicate
  rw [d.line_of_none (congrArg Form.specifier? hform), hrear, lastChar?_append_blanks isBlank_of_mem_replicate, d.lastChar?_front, hform]
  exact ⟨List.forall_mem_append.2 ⟨d.isClauseChar_of_mem_front, fun c hc => isClauseChar_of_isBlank (isBlank_of_mem_replicate c hc)⟩, rfl⟩

/-- The clause characters at the beginning of a bare import, or of a list that a semicolon ends, do not end in `from`. -/
theorem lastChar?_ne_of_not_isOpen (hhead : ¬d.form.HasFrom) (hopen : ¬d.IsOpen) (h : d.line ++ t = w ++ q :: r)
    (hw : ∀ c ∈ w, isClauseChar c = true) (hq : IsQuote q) : lastChar? w ≠ some 'm' := by
  have hquote : ∀ c ∈ (q :: r).head?, isClauseChar c = false := by
    rintro c ⟨⟩
    exact isClauseChar_of_isQuote hq
  cases hform : d.form with
  | withFrom exported typeOnly clause s =>
    rw [hform] at hhead
    exact absurd trivial hhead
  | bare s =>
    rw [d.line_of_some (congrArg Form.specifier? hform), List.append_assoc] at h
    obtain ⟨rfl, -⟩ := eq_of_runs h.symm hw d.isClauseChar_of_mem_front hquote
      (by rintro c ⟨⟩; exact isClauseChar_of_isQuote s.quote_mem)
    rw [d.lastChar?_front, hform]
    exact fun e => absurd (Option.some.inj e) (by decide : 't' ≠ 'm')
  | exportList list =>
    have hsemicolon : d.semicolon = true := eq_true_of_ne_false fun hsemicolon => hopen ⟨⟨list, hform⟩, hsemicolon⟩
    have hrear := d.rear_spells
    rw [hsemicolon] at hrear
    obtain ⟨n, k, hrear, -⟩ := hrear.exists_single
    have hmark : w ++ q :: r = (d.front ++ List.replicate n ' ') ++ (';' :: List.replicate k ' ' ++ t) := by
      rw [← h, d.line_of_none (congrArg Form.specifier? hform), hrear]
      simp only [List.append_assoc]
      rfl
    have hblanks : ∀ c ∈ List.replicate n ' ', isClauseChar c = true := fun c hc => isClauseChar_of_isBlank (isBlank_of_mem_replicate c hc)
    obtain ⟨-, htail⟩ := eq_of_runs hmark hw (List.forall_mem_append.2 ⟨d.isClauseChar_of_mem_front, hblanks⟩) hquote
      (by rintro c ⟨⟩; decide)
    obtain ⟨rfl, -⟩ := List.cons.inj htail
    exact absurd hq (by unfold IsQuote; decide)

/-- Where a bare import or a list of local exports begins, the clause characters up to the next quote do not end in `from`. -/
theorem lastChar?_ne (hhead : ¬d.form.HasFrom) (hchain : (d :: ds).IsChain fun d d' => ¬d.RunsInto d')
    (h : d.line ++ behind final ds = w ++ q :: r) (hw : ∀ c ∈ w, isClauseChar c = true) (hq : IsQuote q) : lastChar? w ≠ some 'm' := by
  induction ds generalizing d w with
  | nil =>
    by_cases hopen : d.IsOpen
    · have hquote : q ∈ d.line ++ behind final [] := h ▸ List.mem_append_right w List.mem_cons_self
      have hchars : ∀ c ∈ behind final [], isClauseChar c = true := by cases final <;> decide
      have hclause := List.forall_mem_append.2 ⟨d.of_isOpen hopen |>.1, hchars⟩ q hquote
      exact absurd hclause (by rw [isClauseChar_of_isQuote hq]; decide)
    · exact lastChar?_ne_of_not_isOpen hhead hopen h hw hq
  | cons d' ds ih =>
    by_cases hopen : d.IsOpen
    · obtain ⟨hline, hlast⟩ := d.of_isOpen hopen
      have hchars : ∀ c ∈ d.line ++ ['\n'], isClauseChar c = true := List.forall_mem_append.2 ⟨hline, by decide⟩
      have hquote : q ∉ d.line ++ ['\n'] := fun hmem => absurd (hchars q hmem) (by rw [isClauseChar_of_isQuote hq]; decide)
      have hall : (d.line ++ ['\n']) ++ (d'.line ++ behind final ds) = w ++ q :: r := by
        rw [← h, List.append_assoc]
        rfl
      obtain ⟨w', rfl, hnext⟩ := exists_of_not_mem hall hquote
      have hnotFrom : ¬d'.form.HasFrom := fun hfrom => (List.isChain_cons_cons.1 hchain).1 ⟨hopen, hfrom⟩
      have hne := ih hnotFrom (List.isChain_cons_cons.1 hchain).2 hnext fun c hc => hw c (List.mem_append_right _ hc)
      rw [lastChar?_append, lastChar?_append_blanks (by decide), hlast]
      cases hlast' : lastChar? w' with
      | none => exact fun e => absurd (Option.some.inj e) (by decide : '\x7d' ≠ 'm')
      | some c => rwa [hlast'] at hne
    · exact lastChar?_ne_of_not_isOpen hhead hopen h hw hq

/-- Where the clause characters up to the next quote do not end in `from`, no declaration with `from` is found. -/
theorem importFrom_eq_none (h : ∀ {w r : Text} {q : Char}, at_.rest = w ++ q :: r → (∀ c ∈ w, isClauseChar c = true) → IsQuote q →
    lastChar? w ≠ some 'm') : importFrom.matchAt (fun _ => true) at_ = none := by
  refine Option.eq_none_iff_forall_ne_some.2 fun m hm => ?_
  obtain ⟨i, kw, g, ty, clause, b, b', s, q, q', hread⟩ := exists_readAs_importFrom hm
  refine h hread.rest_eq hread.isClauseChar_of_mem hread.quotes.1 ?_
  have hfrom : IsToken "from".text := by
    unfold IsToken
    decide
  simp only [← List.append_assoc]
  rw [lastChar?_append_blanks hread.blanks.2]
  exact hfrom.lastChar?_append _

/-- An open list in front of a declaration with `from` is taken for the beginning of its clause. -/
theorem exists_importFrom_of_runsInto (at_ : Place) {d' : ModuleDeclaration} (h : d.RunsInto d') (hne : ∀ s ∈ d'.form.specifier?, s.text ≠ [])
    (hbefore : at_.before = none ∨ at_.before = some '\n') (hrest : at_.rest = d.line ++ '\n' :: (d'.line ++ r)) :
    ∃ m, importFrom.matchAt (fun _ => true) at_ = some m := by
  obtain ⟨hopen, hfrom⟩ := h
  obtain ⟨hline, -⟩ := d.of_isOpen hopen
  obtain ⟨⟨list, hform⟩, -⟩ := hopen
  cases hform' : d'.form with
  | bare s =>
    rw [hform'] at hfrom
    exact hfrom.elim
  | exportList list =>
    rw [hform'] at hfrom
    exact hfrom.elim
  | withFrom exported typeOnly clause s =>
    rw [hform'] at hne
    obtain ⟨n, x, hfront, hx⟩ := d.exists_front
    have hwords := d'.front_spells
    rw [hform', Form.wordsBehind, ← List.append_assoc, ← List.cons_append] at hwords
    obtain ⟨a, b', hfront', -, hb'⟩ := hwords.exists_mark
    obtain ⟨k, rfl⟩ := hb'.eq_replicate
    have hline' : d.line = List.replicate n ' ' ++ (d.form.keyword ++ ([' '] ++ (x ++ d.rear))) := by
      rw [d.line_of_none (congrArg Form.specifier? hform), hfront]
      simp only [List.append_assoc, List.cons_append, List.nil_append]
    have hclause : ∀ c ∈ x ++ d.rear ++ '\n' :: a, isClauseChar c = true := by
      refine List.forall_mem_append.2 ⟨fun c hc => hline c ?_, List.forall_mem_cons.2 ⟨by decide, fun c hc => ?_⟩⟩
      · rw [hline']
        exact List.mem_append_right _ (List.mem_append_right _ (List.mem_append_right _ hc))
      · exact d'.isClauseChar_of_mem_front c (hfront' ▸ List.mem_append_left _ hc)
    have hindent : ∀ c ∈ List.replicate n ' ', among " \t" c = true := fun c hc => List.eq_of_mem_replicate hc ▸ by decide
    refine exists_matchAt_importFrom (t := []) (r := d'.rear ++ r) hbefore hindent d.form.keyword_eq (isGap_spaces 0) (Or.inl rfl)
      (fun before => clauseEnd_reads (b := []) (s := s) hclause (List.forall_mem_nil _) (isBlank_of_mem_replicate (n := k)) (hne s rfl)) ?_
    rw [hrest, hline', d'.line_of_some (congrArg Form.specifier? hform'), hfront']
    simp

end Others

/-! ## Line by line -/

section Search

/-- A text that ends where a line begins. -/
def EndsLine (t : Text) : Prop := t.getLast? = none ∨ t.getLast? = some '\n'

/-- In the file, the declaration stands behind the text `pre` and in front of the declarations `ds`. -/
structure StandsBehind (final : Bool) (all : List ModuleDeclaration) (pre : Text) (d : ModuleDeclaration) (ds : List ModuleDeclaration) : Prop where
  text_eq : fileText final all = pre ++ (d.line ++ behind final ds)
  endsLine : EndsLine pre
  split : ∃ es, all = es ++ d :: ds ∧ lineAfter pre = es.length + 1

variable {final : Bool} {all ds : List ModuleDeclaration} {d d' : ModuleDeclaration} {pre : Text}

/-- The first declaration of a file stands behind nothing. -/
theorem standsBehind_first : StandsBehind final (d :: ds) [] d ds := ⟨rfl, Or.inl rfl, [], rfl, rfl⟩

/-- The next line is behind one line more. -/
theorem lineAfter_next (pre : Text) (d : ModuleDeclaration) : lineAfter (pre ++ d.line ++ ['\n']) = lineAfter pre + 1 := by
  rw [lineAfter, List.count_append, List.count_append, List.count_eq_zero.2 d.lineFeed_not_mem]
  rfl

/-- The next declaration stands behind this one and its line feed. -/
theorem StandsBehind.next (h : StandsBehind final all pre d (d' :: ds)) : StandsBehind final all (pre ++ d.line ++ ['\n']) d' ds := by
  obtain ⟨es, hall, hline⟩ := h.split
  refine ⟨?_, Or.inr List.getLast?_concat, es ++ [d], ?_, ?_⟩
  · rw [h.text_eq, behind]
    simp only [List.append_assoc, List.cons_append, List.nil_append]
  · rw [hall, List.append_assoc]
    rfl
  · rw [lineAfter_next, hline, List.length_append, List.length_singleton]

/-- What a selection of the declarations gives, each at the offset of its line and with the number of its line. -/
def located {α : Type} (sel : Nat → Form → Option α) : (offset line : Nat) → List ModuleDeclaration → List (Nat × α)
  | _, _, [] => []
  | offset, line, d :: ds => ((sel line d.form).map (offset, ·)).toList ++ located sel (offset + d.line.length + 1) (line + 1) ds

variable {α : Type} {p : Pattern} {f : Match → Nat × α} {sel : Nat → Form → Option α}

/-- Where the line of a declaration begins, a pattern finds what is selected, and nothing that goes beyond the line. -/
structure FindsLine (p : Pattern) (f : Match → Nat × α) (sel : Nat → Form → Option α) (pre : Text) (d : ModuleDeclaration) (r : Text) : Prop where
  map_eq : (p.matchAt (fun _ => true) ⟨pre.length, pre.getLast?, d.line ++ r⟩).map f = (sel (lineAfter pre) d.form).map (pre.length, ·)
  length_le : ∀ m, p.matchAt (fun _ => true) ⟨pre.length, pre.getLast?, d.line ++ r⟩ = some m → m.text.length ≤ d.line.length

variable (hp : p.BeginsLines)
include hp

/-- Behind the last declaration nothing is found. -/
theorem all_behind_nil : SearchAux.all p 0 (pre ++ d.line).length (pre ++ d.line).getLast? (behind final []) = [] := by
  obtain ⟨c, hlast, hbreak⟩ := d.exists_getLast?
  cases final with
  | false => exact all_nil hp
  | true =>
    rw [List.getLast?_append_of_ne_nil _ d.line_ne_nil, hlast]
    exact (all_lineFeed hp hbreak).trans (all_nil hp)

/-- Behind another one, what is found begins on the next line. -/
theorem all_behind_cons : SearchAux.all p 0 (pre ++ d.line).length (pre ++ d.line).getLast? (behind final (d' :: ds)) =
    SearchAux.all p 0 (pre ++ d.line ++ ['\n']).length (pre ++ d.line ++ ['\n']).getLast? (d'.line ++ behind final ds) := by
  obtain ⟨c, hlast, hbreak⟩ := d.exists_getLast?
  rw [List.getLast?_append_of_ne_nil _ d.line_ne_nil, hlast, behind, all_lineFeed hp hbreak, List.getLast?_concat,
    ← List.length_concat, List.concat_eq_append]

/-- The line of a declaration is looked at once, as long as what is found on it ends on it. -/
theorem all_declaration {r : Text}
    (hstay : ∀ m, p.matchAt (fun _ => true) ⟨pre.length, pre.getLast?, d.line ++ r⟩ = some m → m.text.length ≤ d.line.length) :
    SearchAux.all p 0 pre.length pre.getLast? (d.line ++ r) =
      (p.matchAt (fun _ => true) ⟨pre.length, pre.getLast?, d.line ++ r⟩).toList ++
        SearchAux.all p 0 (pre ++ d.line).length (pre ++ d.line).getLast? r := by
  rw [all_line hp d.line_ne_nil d.lineFeed_not_mem hstay, List.length_append, List.getLast?_append_of_ne_nil _ d.line_ne_nil]

/-- What is found on a line and behind it. -/
theorem FindsLine.map_all {r : Text} (h : FindsLine p f sel pre d r) :
    (SearchAux.all p 0 pre.length pre.getLast? (d.line ++ r)).map f =
      ((sel (lineAfter pre) d.form).map (pre.length, ·)).toList ++
        (SearchAux.all p 0 (pre ++ d.line).length (pre ++ d.line).getLast? r).map f := by
  rw [all_declaration hp h.length_le, List.map_append, ← Option.toList_map, h.map_eq]

variable (hfinds : ∀ pre d ds, StandsBehind final all pre d ds → FindsLine p f sel pre d (behind final ds))
include hfinds

/-- What is found on the lines of a file is found line by line. -/
theorem map_all_eq_located (h : StandsBehind final all pre d ds) :
    (SearchAux.all p 0 pre.length pre.getLast? (d.line ++ behind final ds)).map f = located sel pre.length (lineAfter pre) (d :: ds) := by
  induction ds generalizing pre d with
  | nil => rw [(hfinds pre d [] h).map_all hp, all_behind_nil hp, located, located, List.map_nil]
  | cons d' ds ih =>
    have hlength : (pre ++ d.line ++ ['\n']).length = pre.length + d.line.length + 1 := by
      rw [List.length_append, List.length_append, List.length_singleton]
    rw [(hfinds pre d (d' :: ds) h).map_all hp, all_behind_cons hp, ih h.next, lineAfter_next, hlength]
    rfl

/-- A pattern that finds on each line what is selected finds what is selected. -/
theorem map_findAll_eq_located : (p.findAll (fileText final all)).map f = located sel 0 1 all := by
  cases all with
  | nil => rw [findAll, fileText, all_nil hp, located, List.map_nil]
  | cons d ds => exact map_all_eq_located hp hfinds standsBehind_first

end Search

/-! ## What each line gives -/

section Found

variable {d : ModuleDeclaration} {ds all : List ModuleDeclaration} {final : Bool} {pre r content : Text}

/-- What a declaration with `from` imports. -/
def Form.fromImport? (line : Nat) : Form → Option ImportStatement
  | withFrom exported typeOnly clause s => (withFrom exported typeOnly clause s).import? line
  | _ => none

/-- What a bare import imports. -/
def Form.bareImport? (line : Nat) : Form → Option ImportStatement
  | bare s => (bare s).import? line
  | _ => none

/-- A declaration with `from` begins a line. -/
theorem beginsLines_importFrom : importFrom.BeginsLines := by
  refine ⟨fun hm => ?_, fun hm => ?_, fun hm => ⟨_, (reads_of_matchAt starFree_importFrom hm).1.symm⟩⟩
  all_goals obtain ⟨i, kw, g, ty, clause, b, b', s, q, q', hread⟩ := exists_readAs_importFrom hm
  · exact hread.before
  · rw [hread.text]
    exact List.append_ne_nil_of_right_ne_nil _ (List.append_ne_nil_of_left_ne_nil (isToken_keyword hread.keyword).1 _)

/-- So does a bare import. -/
theorem beginsLines_sideEffectImport : sideEffectImport.BeginsLines := by
  refine ⟨fun hm => ?_, fun hm => ?_, fun hm => ⟨_, (reads_of_matchAt starFree_sideEffectImport hm).1.symm⟩⟩
  all_goals obtain ⟨i, g, q, s, q', hbefore, -, htext, -⟩ := of_sideEffectImport hm
  · exact hbefore
  · rw [htext]
    exact List.append_ne_nil_of_right_ne_nil _ (List.cons_ne_nil _ _)

/-- Where nothing is found, nothing must be declared. -/
theorem findsLine_none {α : Type} {p : Pattern} {f : Match → Nat × α} {sel : Nat → Form → Option α}
    (h : p.matchAt (fun _ => true) ⟨pre.length, pre.getLast?, d.line ++ r⟩ = none) (hsel : ∀ line, sel line d.form = none) :
    FindsLine p f sel pre d r := by
  refine ⟨by rw [h, hsel]; rfl, fun m hm => ?_⟩
  rw [h] at hm
  nomatch hm

/-- The statement of a match where a line begins has the number of the line. -/
theorem statement_eq {p : Pattern} {m : Match} {s : Specifier} {symbols : List String} {typeOnly importAll : Bool}
    (hm : p.matchAt (fun _ => true) ⟨pre.length, pre.getLast?, r⟩ = some m) (hs : m.get .specifier = s.text) :
    statement (pre ++ r) m symbols typeOnly importAll =
      (pre.length, { specifier := String.ofList s.text, line := lineAfter pre, symbols, typeOnly, importAll }) := by
  have hoffset : m.offset = pre.length := offset_of_matchAt hm
  rw [statement, hs, hoffset, List.take_left]

/-- A declaration with `from` is found on its line, and nothing is on the lines of others, unless a list runs on. -/
theorem findsLine_importFrom (hpre : EndsLine pre) (hne : ∀ s ∈ d.form.specifier?, s.text ≠ [])
    (hlist : ∀ list, d.form = .exportList list → importFrom.matchAt (fun _ => true) ⟨pre.length, pre.getLast?, d.line ++ r⟩ = none) :
    FindsLine importFrom (ofImportFrom (pre ++ (d.line ++ r))) Form.fromImport? pre d r := by
  cases hform : d.form with
  | withFrom exported typeOnly clause s =>
    rw [hform] at hne
    obtain ⟨m, hm, hgives⟩ := exists_importFrom ⟨pre.length, pre.getLast?, d.line ++ r⟩ hform (hne s rfl) hpre rfl
    refine ⟨?_, fun m' hm' => ?_⟩
    · rw [hm, hform, Option.map_some, ofImportFrom, clauseSymbols_of_spells hgives.clause_spells]
      dsimp only
      rw [statement_eq hm hgives.specifier, hgives.typeOnly_eq]
      rfl
    · obtain rfl := Option.some.inj (hm.symm.trans hm')
      rw [hgives.text_eq, d.line_of_some (congrArg Form.specifier? hform), ← List.append_assoc]
      exact (List.prefix_append _ d.rear).length_le
  | bare s =>
    have hopen : ¬d.IsOpen := fun ⟨⟨list, hlist⟩, _⟩ => nomatch hform.symm.trans hlist
    have hhead : ¬d.form.HasFrom := by
      rw [hform]
      exact id
    exact findsLine_none (importFrom_eq_none fun h hw hq => lastChar?_ne_of_not_isOpen hhead hopen h hw hq) fun line => by rw [hform]; rfl
  | exportList list => exact findsLine_none (hlist list hform) fun line => by rw [hform]; rfl

/-- A bare import is found on its line, and nothing is on the lines of others. -/
theorem findsLine_sideEffectImport (hpre : EndsLine pre) (hne : ∀ s ∈ d.form.specifier?, s.text ≠ []) :
    FindsLine sideEffectImport (fun m => statement (pre ++ (d.line ++ r)) m [] false false) Form.bareImport? pre d r := by
  cases hform : d.form with
  | bare s =>
    rw [hform] at hne
    obtain ⟨m, hm, htext, hspecifier⟩ := exists_sideEffectImport ⟨pre.length, pre.getLast?, d.line ++ r⟩ hform (hne s rfl) hpre rfl
    refine ⟨?_, fun m' hm' => ?_⟩
    · rw [hm, hform, Option.map_some, statement_eq hm hspecifier]
      rfl
    · obtain rfl := Option.some.inj (hm.symm.trans hm')
      rw [htext, d.line_of_some (congrArg Form.specifier? hform), ← List.append_assoc]
      exact (List.prefix_append _ d.rear).length_le
  | withFrom exported typeOnly clause s =>
    exact findsLine_none (sideEffectImport_eq_none (by rw [hform]; exact id) rfl) fun line => by rw [hform]; rfl
  | exportList list =>
    exact findsLine_none (sideEffectImport_eq_none (by rw [hform]; exact id) rfl) fun line => by rw [hform]; rfl

variable (hne : ∀ d ∈ all, ∀ s ∈ d.form.specifier?, s.text ≠ [])
include hne

/-- Where no list runs on, the declarations with `from` are found. -/
theorem map_findAll_importFrom (hchain : all.IsChain fun d d' => ¬d.RunsInto d') :
    (importFrom.findAll (fileText final all)).map (ofImportFrom (fileText final all)) = located Form.fromImport? 0 1 all := by
  refine map_findAll_eq_located beginsLines_importFrom fun pre d ds h => ?_
  obtain ⟨es, hall, -⟩ := h.split
  have hmem : d ∈ all := hall ▸ List.mem_append_right es List.mem_cons_self
  rw [h.text_eq]
  refine findsLine_importFrom h.endsLine (hne d hmem) fun list hform => importFrom_eq_none fun hrest hw hq => ?_
  have hhead : ¬d.form.HasFrom := by
    rw [hform]
    exact id
  exact lastChar?_ne hhead ((List.isChain_append.1 (hall ▸ hchain)).2.1) hrest hw hq

/-- The bare imports that are found are those that are declared. -/
theorem map_findAll_sideEffectImport :
    (sideEffectImport.findAll (fileText final all)).map (fun m => statement (fileText final all) m [] false false) =
      located Form.bareImport? 0 1 all := by
  refine map_findAll_eq_located beginsLines_sideEffectImport fun pre d ds h => ?_
  obtain ⟨es, hall, -⟩ := h.split
  rw [h.text_eq]
  exact findsLine_sideEffectImport h.endsLine (hne d (hall ▸ List.mem_append_right es List.mem_cons_self))

/-- Where a list runs on, something is found at the beginning of a list. -/
theorem exists_mem_of_not_isChain (h : StandsBehind final all pre d ds) (hchain : ¬(d :: ds).IsChain fun d d' => ¬d.RunsInto d') :
    ∃ m ∈ SearchAux.all importFrom 0 pre.length pre.getLast? (d.line ++ behind final ds), ∃ pre' e es list,
      StandsBehind final all pre' e es ∧ e.form = .exportList list ∧ m.offset = pre'.length := by
  induction ds generalizing pre d with
  | nil => exact absurd (List.isChain_singleton d) hchain
  | cons d' ds ih =>
    have hpass : (∀ m, importFrom.matchAt (fun _ => true) ⟨pre.length, pre.getLast?, d.line ++ behind final (d' :: ds)⟩ = some m →
        m.text.length ≤ d.line.length) → ¬d.RunsInto d' → ∃ m ∈ SearchAux.all importFrom 0 pre.length pre.getLast?
          (d.line ++ behind final (d' :: ds)), ∃ pre' e es list, StandsBehind final all pre' e es ∧ e.form = .exportList list ∧
            m.offset = pre'.length := by
      intro hstay hruns
      obtain ⟨m, hm, hlist⟩ := ih h.next fun hrest => hchain (List.isChain_cons_cons.2 ⟨hruns, hrest⟩)
      rw [all_declaration beginsLines_importFrom hstay, all_behind_cons beginsLines_importFrom]
      exact ⟨m, List.mem_append_right _ hm, hlist⟩
    have hmem : d ∈ all ∧ d' ∈ all := by
      obtain ⟨es, hall, -⟩ := h.split
      rw [hall]
      exact ⟨List.mem_append_right es List.mem_cons_self, List.mem_append_right es (List.mem_cons_of_mem d List.mem_cons_self)⟩
    by_cases hlist : ∃ list, d.form = .exportList list
    · cases hm : importFrom.matchAt (fun _ => true) ⟨pre.length, pre.getLast?, d.line ++ behind final (d' :: ds)⟩ with
      | some m =>
        obtain ⟨list, hform⟩ := hlist
        exact ⟨m, mem_all_of_matchAt hm, pre, d, d' :: ds, list, h, hform, offset_of_matchAt hm⟩
      | none =>
        refine hpass (fun m hm' => nomatch hm.symm.trans hm') fun hruns => ?_
        obtain ⟨m, hm'⟩ := exists_importFrom_of_runsInto ⟨_, _, d.line ++ behind final (d' :: ds)⟩ hruns (hne d' hmem.2) h.endsLine rfl
        exact nomatch hm.symm.trans hm'
    · refine hpass (findsLine_importFrom h.endsLine (hne d hmem.1) fun list hform => absurd ⟨list, hform⟩ hlist).length_le fun hruns => ?_
      exact hlist hruns.1.1

end Found

end CodeAtlas.TypeScript
