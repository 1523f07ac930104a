import CodeAtlas.Language.Python.Imports
import CodeAtlas.Proofs.Text.Spelling
import CodeAtlas.Proofs.Text.Split

/-!
# Statements over several lines

A statement may go on after the end of a line: while a bracket is open, and where a backslash ends the line. However its words and marks
are spread over lines, joining the lines gives them back in their order, and takes no line that comes after the statement.
-/

namespace CodeAtlas.Python

open Text Pattern

/-- A character that import statements are written with. -/
def isCodeChar (c : Char) : Bool := wordOr ".,()*" c

/-- A comment at the end of a line, or nothing. -/
def IsComment (t : Text) : Prop := t = [] ∨ ∃ r, t = '#' :: r

/-- Words and marks spread over lines, each behind some indentation, of which `depth` brackets are open before. A line is the last one when
no bracket is open behind it; another line ends within brackets or with a backslash. -/
inductive Layout : (depth : Int) → List Text → List Text → Prop where
  | last {depth : Int} {ts : List Text} {indent l comment : Text} :
    (∀ c ∈ indent, isBlank c = true) → Spells ts l → IsComment comment → depth + bracketDelta ts.flatten ≤ 0 →
      Layout depth ts [indent ++ l ++ comment]
  | bracket {depth : Int} {ts us : List Text} {indent l comment : Text} {ls : List Text} :
    (∀ c ∈ indent, isBlank c = true) → Spells ts l → IsComment comment → 0 < depth + bracketDelta ts.flatten →
      Layout (depth + bracketDelta ts.flatten) us ls → Layout depth (ts ++ us) ((indent ++ l ++ comment) :: ls)
  | backslash {depth : Int} {ts us : List Text} {indent l : Text} {ls : List Text} :
    (∀ c ∈ indent, isBlank c = true) → Spells ts l → Layout (depth + bracketDelta ts.flatten) us ls →
      Layout depth (ts ++ us) ((indent ++ l ++ ['\\']) :: ls)

section Code

variable {c : Char} {ts us : List Text} {l comment : Text}

/-- A character that neither begins a string nor a comment. -/
def IsQuiet (c : Char) : Prop := c ≠ '"' ∧ c ≠ '\'' ∧ c ≠ '\x60' ∧ c ≠ '#'

/-- A blank is quiet. -/
theorem isQuiet_of_isBlank (h : isBlank c = true) : IsQuiet c := by
  refine ⟨?_, ?_, ?_, ?_⟩ <;> rintro rfl <;> exact absurd h (by decide)

/-- So is a character of code. -/
theorem isQuiet_of_isCodeChar (h : isCodeChar c = true) : IsQuiet c := by
  refine ⟨?_, ?_, ?_, ?_⟩ <;> rintro rfl <;> exact absurd h (by decide)

/-- A row of words and marks of import statements. -/
def IsCode (ts : List Text) : Prop := ∀ t ∈ ts, ∀ c ∈ t, isCodeChar c = true

/-- Tokens are code if all of them are. -/
theorem IsCode.append_iff : IsCode (ts ++ us) ↔ IsCode ts ∧ IsCode us := List.forall_mem_append

/-- A character that is no code is not in a line of code, unless it is a space. -/
theorem not_mem_of_spells (hcode : IsCode ts) (h : Spells ts l) (hc : isCodeChar c = false) (hspace : c ≠ ' ') : c ∉ l := by
  intro hmem
  rcases h.of_mem hmem with e | ⟨t, ht, hct⟩
  · exact hspace e
  · exact Bool.false_ne_true (hc.symm.trans (hcode t ht c hct))

/-- The brackets that two texts leave open are those of both. -/
theorem bracketDelta_append (a b : Text) : bracketDelta (a ++ b) = bracketDelta a + bracketDelta b := by
  unfold bracketDelta
  rw [List.count_append, List.count_append]
  omega

/-- The brackets that a line leaves open are those of its tokens. -/
theorem bracketDelta_of_spells (h : Spells ts l) : bracketDelta l = bracketDelta ts.flatten := by
  unfold bracketDelta
  rw [h.count_eq (by decide), h.count_eq (by decide)]

/-- A blank line leaves none open. -/
theorem bracketDelta_blank (h : ∀ c ∈ l, isBlank c = true) : bracketDelta l = 0 := by
  have hnone : ∀ c, isBlank c = false → l.count c = 0 := fun c hc =>
    List.count_eq_zero.2 fun hmem => Bool.false_ne_true (hc.symm.trans (h c hmem))
  unfold bracketDelta
  rw [hnone '(' (by decide), hnone ')' (by decide)]
  rfl

/-- A text without quotes and hash signs is all code, up to the comment behind it. -/
theorem strip_hash (h : ∀ c ∈ l, IsQuiet c) (hcomment : IsComment comment) :
    Noise.hash.strip (l ++ comment) = l := by
  have hliterals : ∀ r, NoiseAux.blankLiterals NoiseAux.opensCLike .code (l ++ r) =
      l ++ NoiseAux.blankLiterals NoiseAux.opensCLike .code r := by
    intro r
    induction l with
    | nil => rfl
    | cons c l ih =>
      obtain ⟨⟨h₁, h₂, h₃, -⟩, hrest⟩ := List.forall_mem_cons.1 h
      have hopens : ∀ r, NoiseAux.opensCLike c r = false := fun r => by simp [NoiseAux.opensCLike, h₁, h₂, h₃]
      rw [List.cons_append, NoiseAux.blankLiterals, if_neg (Bool.eq_false_iff.1 (hopens _)), ih hrest]
      rfl
  have hhash : '#' ∉ l := fun hmem => (h '#' hmem).2.2.2 rfl
  have hmark : "#" = String.ofList ['#'] := rfl
  rw [Noise.strip, hliterals, hmark]
  rcases hcomment with rfl | ⟨r, rfl⟩
  · have hnil : NoiseAux.blankLiterals NoiseAux.opensCLike .code [] = [] := rfl
    rw [hnil, List.append_nil, before_of_not_mem hhash]
  · have hopens : NoiseAux.opensCLike '#' r = false := rfl
    rw [NoiseAux.blankLiterals, if_neg (Bool.eq_false_iff.1 hopens), before_append hhash]

end Code

section Lines

variable {depth : Int} {ts us ls : List Text} {indent text l mark : Text}

/-- The characters of a line of code are quiet, those of its indentation included. -/
theorem isQuiet_of_mem_line (hindent : ∀ c ∈ indent, isBlank c = true) (hcode : IsCode ts) (h : Spells ts l) :
    ∀ c ∈ indent ++ l, IsQuiet c := by
  intro c hc
  rcases List.mem_append.1 hc with hc | hc
  · exact isQuiet_of_isBlank (hindent c hc)
  rcases h.of_mem hc with rfl | ⟨t, ht, hct⟩
  · exact isQuiet_of_isBlank isBlank_space
  · exact isQuiet_of_isCodeChar (hcode t ht c hct)

/-- The comment of a line is no part of the statement. -/
theorem strip_line {comment : Text} (hindent : ∀ c ∈ indent, isBlank c = true) (hcode : IsCode ts) (h : Spells ts l)
    (hcomment : IsComment comment) : Noise.hash.strip (indent ++ l ++ comment) = indent ++ l :=
  strip_hash (isQuiet_of_mem_line hindent hcode h) hcomment

/-- Nothing is stripped from a line of code that goes on. -/
theorem strip_line_backslash (hindent : ∀ c ∈ indent, isBlank c = true) (hcode : IsCode ts) (h : Spells ts l) :
    Noise.hash.strip (indent ++ l ++ ['\\']) = indent ++ l ++ ['\\'] := by
  have hquiet : ∀ c ∈ indent ++ l ++ ['\\'], IsQuiet c :=
    List.forall_mem_append.2 ⟨isQuiet_of_mem_line hindent hcode h, List.forall_mem_singleton.2 (by unfold IsQuiet; decide)⟩
  have hstrip : Noise.hash.strip (indent ++ l ++ ['\\'] ++ []) = indent ++ l ++ ['\\'] := strip_hash hquiet (Or.inl rfl)
  rwa [List.append_nil] at hstrip

/-- A line of code has no backslash. -/
theorem backslash_not_mem (hindent : ∀ c ∈ indent, isBlank c = true) (hcode : IsCode ts) (h : Spells ts l) : '\\' ∉ indent ++ l := by
  intro hmem
  rcases List.mem_append.1 hmem with hmem | hmem
  · exact absurd (hindent _ hmem) (by decide)
  · exact not_mem_of_spells hcode h (by decide) (by decide) hmem

/-- Without a backslash, a text does not end in one. -/
theorem endsWith_backslash_of_not_mem (h : '\\' ∉ text) : endsWith text "\\" = false := by
  refine eq_false_of_ne_true fun hends => ?_
  obtain ⟨r, rfl⟩ := List.isSuffixOf_iff_suffix.1 hends
  exact h (List.mem_append_right _ (List.mem_singleton_self _))

/-- With a backslash behind it, it does. -/
theorem endsWith_backslash (text : Text) : endsWith (text ++ ['\\']) "\\" = true :=
  List.isSuffixOf_iff_suffix.2 (List.suffix_append text _)

/-- No more lines are joined when no bracket is open and no backslash ends the text. -/
theorem continued_of_closed (hdepth : depth ≤ 0) (htext : '\\' ∉ text) (after : List Text) : continued text depth after = (text, 0) := by
  cases after with
  | nil => rfl
  | cons l after => exact if_pos ⟨hdepth, by rw [endsWith_backslash_of_not_mem htext]; rfl⟩

/-- What a text ends with when its statement goes on on the next line. -/
def GoesOn (mark : Text) (depth : Int) : Prop := mark = [] ∧ 0 < depth ∨ mark = ['\\']

/-- One more line is joined, with a space in between. -/
theorem continued_cons (htext : '\\' ∉ text) (hmark : GoesOn mark depth) (l : Text) (ls : List Text) :
    continued (text ++ mark) depth (l :: ls) =
      ((continued (text ++ ' ' :: strip (Noise.hash.strip l)) (depth + bracketDelta (strip (Noise.hash.strip l))) ls).1,
        (continued (text ++ ' ' :: strip (Noise.hash.strip l)) (depth + bracketDelta (strip (Noise.hash.strip l))) ls).2 + 1) := by
  have hgoes : ¬(depth ≤ 0 ∧ (!endsWith (text ++ mark) "\\") = true) := by
    rcases hmark with ⟨rfl, hdepth⟩ | rfl
    · exact fun h => absurd h.1 (by omega)
    · rw [endsWith_backslash]
      exact fun h => nomatch h.2
  have hlast : ∀ c ∈ text.getLast?, (c == '\\') = false := by
    intro c hc
    refine beq_false_of_ne ?_
    rintro rfl
    exact htext (List.mem_of_getLast? hc)
  have htrim : trimRight (· == '\\') (text ++ mark) = text := by
    rcases hmark with ⟨rfl, -⟩ | rfl
    · rw [List.append_nil, trimRight_eq_self hlast]
    · rw [trimRight_append (by simp), trimRight_eq_self hlast]
  rw [continued, if_neg hgoes, htrim]

/-- Trimming leaves a backslash at the end. -/
theorem strip_append_backslash (l : Text) : strip (l ++ ['\\']) = trimLeft isBlank l ++ ['\\'] := by
  have hleft : trimLeft isBlank (l ++ ['\\']) = trimLeft isBlank l ++ ['\\'] := by
    unfold trimLeft
    rw [List.dropWhile_append]
    split
    · rename_i hempty
      rw [List.isEmpty_iff.1 hempty]
      rfl
    · rfl
  have hlast : ∀ c ∈ (trimLeft isBlank l ++ ['\\']).getLast?, isBlank c = false := by
    rw [List.getLast?_concat]
    rintro c ⟨⟩
    decide
  rw [strip, trim, hleft, trimRight_eq_self hlast]

/-- An indentation is trimmed. -/
theorem strip_indented (hindent : ∀ c ∈ indent, isBlank c = true) (l : Text) : strip (indent ++ l) = strip l := by
  rw [strip, trim, trimLeft_append hindent]
  rfl

/-- The lines of a statement are joined, and no others. -/
theorem continued_of_layout (h : Layout depth us ls) (hindent : ∀ c ∈ indent, isBlank c = true) (hts : IsCode ts) (hus : IsCode us)
    (htext : Spells ts text) (hmark : GoesOn mark depth) (after : List Text) :
    ∃ joined, Spells (ts ++ us) joined ∧ continued (indent ++ text ++ mark) depth (ls ++ after) = (indent ++ joined, ls.length) := by
  induction h generalizing ts text mark with
  | @last depth us begin l comment hbegin hl hcomment hdepth =>
    have hstrip : Noise.hash.strip (begin ++ l ++ comment) = begin ++ l := strip_line hbegin hus hl hcomment
    have hjoined := htext.joined hl.strip
    have hall : IsCode (ts ++ us) := IsCode.append_iff.2 ⟨hts, hus⟩
    refine ⟨_, hjoined, ?_⟩
    rw [List.singleton_append, continued_cons (backslash_not_mem hindent hts htext) hmark, hstrip, strip_indented hbegin,
      bracketDelta_of_spells hl.strip, List.append_assoc, continued_of_closed hdepth (backslash_not_mem hindent hall hjoined)]
    rfl
  | @bracket depth us vs begin l comment ls hbegin hl hcomment hopen _ ih =>
    obtain ⟨hus, hvs⟩ := IsCode.append_iff.1 hus
    have hstrip : Noise.hash.strip (begin ++ l ++ comment) = begin ++ l := strip_line hbegin hus hl hcomment
    obtain ⟨joined, hspells, hcontinued⟩ :=
      ih (IsCode.append_iff.2 ⟨hts, hus⟩) hvs (htext.joined hl.strip) (Or.inl ⟨rfl, hopen⟩)
    rw [List.append_nil, ← List.append_assoc] at hcontinued
    refine ⟨joined, by rwa [← List.append_assoc], ?_⟩
    rw [List.cons_append, continued_cons (backslash_not_mem hindent hts htext) hmark, hstrip, strip_indented hbegin,
      bracketDelta_of_spells hl.strip, hcontinued]
    rfl
  | @backslash depth us vs begin l ls hbegin hl _ ih =>
    obtain ⟨hus, hvs⟩ := IsCode.append_iff.1 hus
    have hstrip : strip (Noise.hash.strip (begin ++ l ++ ['\\'])) = trimLeft isBlank l ++ ['\\'] := by
      rw [strip_line_backslash hbegin hus hl, List.append_assoc, strip_indented hbegin, strip_append_backslash]
    have hdelta : bracketDelta (trimLeft isBlank l ++ ['\\']) = bracketDelta us.flatten := by
      rw [bracketDelta_append, bracketDelta_of_spells hl.trimLeft]
      exact Int.add_zero _
    obtain ⟨joined, hspells, hcontinued⟩ :=
      ih (IsCode.append_iff.2 ⟨hts, hus⟩) hvs (htext.joined hl.trimLeft) (Or.inr rfl)
    have hsplit : indent ++ (text ++ ' ' :: trimLeft isBlank l) ++ ['\\'] = indent ++ text ++ ' ' :: (trimLeft isBlank l ++ ['\\']) := by
      simp only [List.append_assoc, List.cons_append]
    rw [hsplit] at hcontinued
    refine ⟨joined, by rwa [← List.append_assoc], ?_⟩
    rw [List.cons_append, continued_cons (backslash_not_mem hindent hts htext) hmark, hstrip, hdelta, hcontinued]
    rfl

/-- An indentation leaves no brackets open. -/
theorem bracketDelta_indented (hindent : ∀ c ∈ indent, isBlank c = true) (hl : Spells ts l) :
    bracketDelta (indent ++ l) = bracketDelta ts.flatten := by
  rw [bracketDelta_append, bracketDelta_blank hindent, bracketDelta_of_spells hl, Int.zero_add]

/-- The indentation of a line that is not blank stays when blanks are taken off its end. -/
theorem trimRight_line (hl : Spells ts l) (hne : ts ≠ []) : trimRight isBlank (indent ++ l) = indent ++ trimRight isBlank l := by
  obtain ⟨l', n, rfl, hspells, hlast⟩ := hl.exists_spaces
  obtain ⟨t, ts, rfl⟩ := List.exists_cons_of_ne_nil hne
  have hends : ∀ c ∈ (indent ++ l').getLast?, isBlank c = false := by
    rwa [List.getLast?_append_of_ne_nil _ hspells.ne_nil]
  rw [← List.append_assoc, trimRight_append isBlank_of_mem_replicate, trimRight_eq_self hends, trimRight_append isBlank_of_mem_replicate,
    trimRight_eq_self hlast]

/-- The logical line of a statement has all its words and marks in order, and takes its lines and no more. -/
theorem logicalLine_of_layout {first : Text} {rest : List Text} (h : Layout 0 ts (first :: rest)) (hcode : IsCode ts) (hne : ts ≠ [])
    (after : List Text) : ∃ indent joined, (∀ c ∈ indent, isBlank c = true) ∧ Spells ts joined ∧
      logicalLine (first :: (rest ++ after)) = (indent ++ joined, rest.length) := by
  cases h with
  | @last _ _ indent l comment hindent hl hcomment hdepth =>
    refine ⟨indent, trimRight isBlank l, hindent, hl.trimRight, ?_⟩
    rw [Int.zero_add, ← bracketDelta_indented hindent hl.trimRight] at hdepth
    rw [logicalLine, List.headD_cons, List.drop_one, List.tail_cons, strip_line hindent hcode hl hcomment, trimRight_line hl hne,
      continued_of_closed hdepth (backslash_not_mem hindent hcode hl.trimRight)]
    rfl
  | @bracket _ us vs indent l comment _ hindent hl hcomment hopen hrest =>
    obtain ⟨hus, hvs⟩ := IsCode.append_iff.1 hcode
    have hsome : us ≠ [] := by
      rintro rfl
      exact absurd hopen (by decide)
    obtain ⟨joined, hspells, hcontinued⟩ := continued_of_layout hrest hindent hus hvs hl.trimRight (Or.inl ⟨rfl, hopen⟩) after
    refine ⟨indent, joined, hindent, hspells, ?_⟩
    rw [logicalLine, List.headD_cons, List.drop_one, List.tail_cons, strip_line hindent hus hl hcomment, trimRight_line hl hsome,
      bracketDelta_indented hindent hl.trimRight]
    rwa [List.append_nil, Int.zero_add] at hcontinued
  | @backslash _ us vs indent l _ hindent hl hrest =>
    obtain ⟨hus, hvs⟩ := IsCode.append_iff.1 hcode
    obtain ⟨joined, hspells, hcontinued⟩ := continued_of_layout hrest hindent hus hvs hl (Or.inr rfl) after
    have htrim : trimRight isBlank (indent ++ l ++ ['\\']) = indent ++ l ++ ['\\'] := by
      refine trimRight_eq_self ?_
      rw [List.getLast?_concat]
      rintro c ⟨⟩
      decide
    have hmark : bracketDelta (indent ++ l ++ ['\\']) = bracketDelta us.flatten := by
      rw [bracketDelta_append, bracketDelta_indented hindent hl]
      exact Int.add_zero _
    refine ⟨indent, joined, hindent, hspells, ?_⟩
    rw [logicalLine, List.headD_cons, List.drop_one, List.tail_cons, strip_line_backslash hindent hus hl, htrim, hmark]
    rwa [Int.zero_add] at hcontinued

end Lines

/-! ## Statements among other lines -/

/-- A line on which an import statement begins. -/
def BeginsImport (line : Text) : Prop := startsWithAny (trimLeft isBlank line) ["import ", "from "] = true

section Files

variable {line : Nat} {ls : List Text}

/-- The lines of a block are skipped together. -/
theorem importsFrom_skip (block after : List Text) (line : Nat) :
    importsFrom block.length line (block ++ after) = importsFrom 0 (line + block.length) after := by
  induction block generalizing line with
  | nil => rfl
  | cons l block ih =>
    rw [List.length_cons, List.cons_append, importsFrom, ih]
    congr 1
    omega

/-- A line on which no statement begins is passed over. -/
theorem importsFrom_other {l : Text} (h : ¬BeginsImport l) (after : List Text) :
    importsFrom 0 line (l :: after) = importsFrom 0 (line + 1) after := by
  rw [importsFrom]
  exact if_neg h

/-- A statement is read from its logical line, and reading goes on below its lines. -/
theorem importsFrom_of_logicalLine {first text : Text} {rest after : List Text} (h : BeginsImport first)
    (hline : logicalLine (first :: (rest ++ after)) = (text, rest.length)) :
    importsFrom 0 line (first :: (rest ++ after)) =
      ofLogicalLine line text ++ importsFrom 0 (line + (first :: rest).length) after := by
  have h : startsWithAny (trimLeft isBlank first) ["import ", "from "] = true := h
  rw [importsFrom, if_pos h, hline]
  dsimp only
  rw [importsFrom_skip, List.length_cons, Nat.add_assoc, Nat.add_comm 1]

end Files

end CodeAtlas.Python
