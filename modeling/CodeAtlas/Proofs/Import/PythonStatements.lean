import CodeAtlas.Proofs.Import.StatementLine
import CodeAtlas.Proofs.Import.SymbolList

/-!
# Import statements are read back

Whatever the layout of its import statements, a file of statements and other lines gives back one import for each module: its name and
line, and the names it brings, each once. One name is lost: `type`, where it is given another name.
-/

namespace CodeAtlas.Python

open Text Pattern ImportStatement

/-- The words that import statements are built with. -/
def statementWords : List Text := ["from".text, "import".text, "as".text]

/-- An identifier: letters, digits and underscores, no digit first, and none of the words of the statement. -/
structure Identifier where
  text : Text
  ne_nil : text ≠ []
  chars : ∀ c ∈ text, c.isAlphanum = true ∨ c = '_'
  first : ∀ c ∈ text.head?, c.isDigit = false
  not_word : text ∉ statementWords

/-- A dotted name of a module, with dots in front when it is relative. -/
structure ModuleName where
  dots : Nat
  names : List Identifier
  some_ : dots ≠ 0 ∨ names ≠ []

/-- The name as it is written. -/
def ModuleName.text (m : ModuleName) : Text := List.replicate m.dots '.' ++ ['.'].intercalate (m.names.map (·.text))

/-- A module of a plain import, and the name it is given. -/
structure ModuleItem where
  path : ModuleName
  absolute : path.dots = 0
  other : Option Identifier

/-- A name of a `from` import, and the name it is given. -/
structure NamedItem where
  name : Identifier
  other : Option Identifier

/-- Whether the names of a `from` import stand in brackets, and then perhaps with a comma behind the last. -/
inductive Brackets where
  | none
  | plain
  | comma

/-- An import statement. -/
inductive Statement where
  | modules (items : List ModuleItem) (some_ : items ≠ [])
  | names (path : ModuleName) (items : List NamedItem) (some_ : items ≠ []) (brackets : Brackets)
  | everything (path : ModuleName)

/-- The words of an item. -/
def ModuleItem.tokens (i : ModuleItem) : List Text := itemTokens i.path.text (i.other.map (·.text))

/-- The words of an item. -/
def NamedItem.tokens (i : NamedItem) : List Text := itemTokens i.name.text (i.other.map (·.text))

/-- A list of names, in brackets or not. -/
def Brackets.around (rows : List (List Text)) : Brackets → List Text
  | none => listTokens rows false
  | plain => "(".text :: (listTokens rows false ++ [")".text])
  | comma => "(".text :: (listTokens rows true ++ [")".text])

namespace Statement

/-- The words and marks of a statement. -/
def tokens : Statement → List Text
  | modules items _ => "import".text :: listTokens (items.map ModuleItem.tokens) false
  | names path items _ brackets =>
    "from".text :: path.text :: "import".text :: brackets.around (items.map NamedItem.tokens)
  | everything path => ["from".text, path.text, "import".text, "*".text]

/-- What a statement imports. -/
def imports (line : Nat) : Statement → List ImportStatement
  | modules items _ => items.map fun i => { specifier := String.ofList i.path.text, line, importAll := true }
  | names path items _ _ =>
    [{ specifier := String.ofList path.text, line, symbols := (items.map fun i => String.ofList i.name.text).eraseDups }]
  | everything path => [{ specifier := String.ofList path.text, line, importAll := true }]

/-- Whether a statement gives another name to the name `type`. -/
def RenamesType : Statement → Prop
  | names _ items _ _ => ∃ i ∈ items, i.name.text = "type".text ∧ i.other.isSome = true
  | _ => False

end Statement

/-- A line on which no statement begins, or the lines of a statement. -/
inductive Passage where
  | other (line : Text) (notImport : ¬BeginsImport line)
  | statement (s : Statement) (first : Text) (rest : List Text) (begins : BeginsImport first) (layout : Layout 0 s.tokens (first :: rest))

namespace Passage

/-- The lines of the passage. -/
def lines : Passage → List Text
  | other line _ => [line]
  | statement _ first rest _ _ => first :: rest

/-- The imports that the passage declares, when it begins on the given line. -/
def imports (line : Nat) : Passage → List ImportStatement
  | other _ _ => []
  | statement s _ _ _ _ => s.imports line

/-- Whether the name `type` is given another name in the passage. -/
def RenamesType : Passage → Prop
  | other _ _ => False
  | statement s _ _ _ _ => s.RenamesType

end Passage

/-- The imports of passages, of which the first begins on this line. -/
def importsOf : (line : Nat) → List Passage → List ImportStatement
  | _, [] => []
  | line, p :: ps => p.imports line ++ importsOf (line + p.lines.length) ps

/-! ## Names -/

section Names

variable {c : Char} {names : List Identifier} {rows : List (List Text)} {comma : Bool}

/-- Word characters and dots are characters of code. -/
theorem isCodeChar_of_wordOr (h : wordOr "." c = true) : isCodeChar c = true := by
  rcases Bool.or_eq_true_iff.1 h with h | h
  · exact Bool.or_eq_true_iff.2 (Or.inl h)
  · obtain rfl : c = '.' := List.mem_singleton.1 (List.contains_iff_mem.1 h)
    decide

/-- An identifier is made of word characters. -/
theorem Identifier.wordOr (i : Identifier) : ∀ c ∈ i.text, wordOr "." c = true := by
  intro c hc
  refine Bool.or_eq_true_iff.2 (Or.inl ?_)
  rcases i.chars c hc with h | rfl
  · simp only [isWordChar, h, Bool.true_or]
  · rfl

/-- An identifier has no commas, brackets and braces. -/
theorem Identifier.isPlain (i : Identifier) : IsPlain i.text := isPlain_path i.wordOr

/-- An identifier can be read as a name. -/
theorem Identifier.isName (i : Identifier) : IsName i.text where
  isToken := ⟨i.ne_nil, fun c hc => isBlank_of_wordOr (by decide) (i.wordOr c hc)⟩
  isPlain := i.isPlain
  ne_as := fun e => i.not_word (e ▸ by decide)

/-- Names with full stops between them are none of the words of the statement. -/
theorem dotted_not_word (h : names ≠ []) : ['.'].intercalate (names.map (·.text)) ∉ statementWords := by
  cases names with
  | nil => exact absurd rfl h
  | cons i names =>
    cases names with
    | nil =>
      rw [List.map_singleton, List.intercalate_singleton]
      exact i.not_word
    | cons j names =>
      have hwords : ∀ w ∈ statementWords, '.' ∉ w := by decide
      intro hword
      refine hwords _ hword ?_
      rw [List.map_cons, List.map_cons, List.intercalate_cons_cons]
      exact List.mem_append_left _ (List.mem_append_right _ (List.mem_singleton_self _))

/-- Dotted identifiers are made of word characters and dots. -/
theorem dotted_wordOr (names : List Identifier) : ∀ c ∈ ['.'].intercalate (names.map (·.text)), wordOr "." c = true := by
  induction names with
  | nil => exact nofun
  | cons i names ih =>
    cases names with
    | nil =>
      rw [List.map_singleton, List.intercalate_singleton]
      exact i.wordOr
    | cons j names =>
      rw [List.map_cons, List.map_cons, List.intercalate_cons_cons, List.forall_mem_append, List.forall_mem_append]
      exact ⟨⟨i.wordOr, by decide⟩, ih⟩

namespace ModuleName

variable (m : ModuleName)

/-- A module name is made of word characters and dots. -/
theorem wordOr : ∀ c ∈ m.text, Pattern.wordOr "." c = true := by
  refine List.forall_mem_append.2 ⟨fun c hc => ?_, dotted_wordOr m.names⟩
  rw [List.eq_of_mem_replicate hc]
  decide

/-- A module name is none of the words of a statement. -/
theorem not_word : m.text ∉ statementWords := by
  unfold text
  cases hdots : m.dots with
  | zero =>
    rw [List.replicate_zero, List.nil_append]
    exact dotted_not_word (m.some_.resolve_left fun h => h hdots)
  | succ n =>
    have hwords : ∀ w ∈ statementWords, '.' ∉ w := by decide
    exact fun hword => hwords _ hword (List.mem_append_left _ List.mem_cons_self)

/-- A module name is not empty. -/
theorem ne_nil : m.text ≠ [] := by
  rcases m.some_ with h | h
  · exact List.append_ne_nil_of_left_ne_nil (fun e => h ((List.replicate_eq_nil_iff '.').1 e)) _
  · refine List.append_ne_nil_of_right_ne_nil _ ?_
    obtain ⟨i, names, hnames⟩ := List.exists_cons_of_ne_nil h
    rw [hnames]
    cases names with
    | nil =>
      rw [List.map_singleton, List.intercalate_singleton]
      exact i.ne_nil
    | cons j names =>
      rw [List.map_cons, List.map_cons, List.intercalate_cons_cons, List.append_assoc]
      exact List.append_ne_nil_of_left_ne_nil i.ne_nil _

/-- A module name can be read as the path of a module. -/
theorem isModulePath : IsModulePath m.text where
  ne_nil := m.ne_nil
  chars := m.wordOr
  ne_import := fun e => m.not_word (e ▸ by decide)

/-- A module name can be read as a name. -/
theorem isName : IsName m.text where
  isToken := m.isModulePath.isToken
  isPlain := m.isModulePath.isPlain
  ne_as := fun e => m.not_word (e ▸ by decide)

end ModuleName

end Names

/-! ## Words and marks -/

section Tokens

variable {rows : List (List Text)} {comma : Bool} {t : Text}

/-- The rows of a list and the commas between them are code. -/
theorem isCode_listTokens (h : ∀ row ∈ rows, IsCode row) : IsCode (listTokens rows comma) := by
  intro t ht
  obtain rfl | ⟨row, hrow, ht⟩ := mem_listTokens ht
  · decide
  · exact h row hrow t ht

/-- The words of an item are made of word characters and dots. -/
theorem wordOr_of_mem_itemTokens {name : Text} {other : Option Identifier} (h : ∀ c ∈ name, wordOr "." c = true) :
    ∀ t ∈ itemTokens name (other.map (·.text)), ∀ c ∈ t, wordOr "." c = true := by
  cases other with
  | none => exact List.forall_mem_singleton.2 h
  | some o => exact List.forall_mem_cons.2 ⟨h, List.forall_mem_cons.2 ⟨by decide, List.forall_mem_singleton.2 o.wordOr⟩⟩

/-- So are those of an item of an `import` statement. -/
theorem ModuleItem.wordOr (i : ModuleItem) : ∀ t ∈ i.tokens, ∀ c ∈ t, wordOr "." c = true := wordOr_of_mem_itemTokens i.path.wordOr

/-- So are those of an item of a `from` statement. -/
theorem NamedItem.wordOr (i : NamedItem) : ∀ t ∈ i.tokens, ∀ c ∈ t, wordOr "." c = true := wordOr_of_mem_itemTokens i.name.wordOr

/-- Word characters and dots make code. -/
theorem isCode_of_wordOr {row : List Text} (h : ∀ t ∈ row, ∀ c ∈ t, wordOr "." c = true) : IsCode row :=
  fun t ht c hc => isCodeChar_of_wordOr (h t ht c hc)

/-- No word of an item has a comma. -/
theorem comma_not_mem_of_wordOr {row : List Text} (h : ∀ t ∈ row, ∀ c ∈ t, wordOr "." c = true) : ∀ t ∈ row, ',' ∉ t :=
  fun t ht hmem => absurd (h t ht ',' hmem) (by decide)

/-- An item has words. -/
theorem itemTokens_ne_nil {name : Text} {other : Option Text} : itemTokens name other ≠ [] := by
  cases other <;> exact List.cons_ne_nil _ _

/-- A list begins with a plain word. -/
theorem exists_listTokens (hrows : rows ≠ []) (h : ∀ row ∈ rows, ∃ t ts, row = t :: ts ∧ IsPlain t) (comma : Bool) :
    ∃ t ts, listTokens rows comma = t :: ts ∧ IsPlain t := by
  obtain ⟨row, rows, rfl⟩ := List.exists_cons_of_ne_nil hrows
  obtain ⟨t, ts, rfl, ht⟩ := h row List.mem_cons_self
  cases rows with
  | nil => exact ⟨t, _, by rw [listTokens, List.intercalate_singleton, List.cons_append], ht⟩
  | cons row' rows =>
    refine ⟨t, ts ++ [",".text] ++ [",".text].intercalate (row' :: rows) ++ if comma then [",".text] else [], ?_, ht⟩
    rw [listTokens, List.intercalate_cons_cons, List.cons_append, List.cons_append, List.cons_append]

/-- An item begins with its name. -/
theorem exists_itemTokens {name : Text} {other : Option Text} (h : IsPlain name) :
    ∃ t ts, itemTokens name other = t :: ts ∧ IsPlain t := by
  cases other <;> exact ⟨name, _, rfl, h⟩

end Tokens

/-! ## One statement -/

section Reading

variable {line : Nat} {indent l : Text}

/-- The other name of an item has no commas, brackets and braces. -/
theorem isPlain_of_mem_other {other : Option Identifier} : ∀ o ∈ other.map (·.text), IsPlain o := by
  intro o ho
  obtain ⟨i, -, rfl⟩ := Option.map_eq_some_iff.1 ho
  exact i.isPlain

/-- A plain import gives one import for each module. -/
theorem ofLogicalLine_modules (line : Nat) {items : List ModuleItem} (hitems : items ≠ []) (hindent : ∀ c ∈ indent, isBlank c = true)
    (h : Spells (Statement.modules items hitems).tokens l) :
    ofLogicalLine line (indent ++ l) = (Statement.modules items hitems).imports line := by
  have hcode : IsCode (listTokens (items.map ModuleItem.tokens) false) := isCode_listTokens (List.forall_mem_map.2 fun i _ => isCode_of_wordOr i.wordOr)
  have hrows : items.map ModuleItem.tokens ≠ [] := by rwa [Ne, List.map_eq_nil_iff]
  obtain ⟨u, us, htokens, hu⟩ := exists_listTokens hrows
    (List.forall_mem_map.2 fun i _ => exists_itemTokens i.path.isName.isPlain) false
  rw [Statement.tokens, htokens] at h
  rw [htokens] at hcode
  obtain ⟨hnone, mt, hmatch, hspells⟩ := plainImport_of_spells hindent hcode (mayTouch_of_isPlain isPlain_import hu) h
  rw [← htokens, listTokens, if_neg Bool.false_ne_true, List.append_nil] at hspells
  have hpieces := List.forall₂_map_left_iff.1 (splitOn_of_spells hrows
    (List.forall_mem_map.2 fun i _ => comma_not_mem_of_wordOr i.wordOr) hspells)
  have hnames := map_pieces (f := fun p => strip (before p " as ")) hpieces
    fun i _ p hp => (strip_before_as hp i.path.isName isPlain_of_mem_other : strip (before p " as ") = i.path.text)
  have hfilter : (items.map fun i => i.path.text).filter (fun m => !m.isEmpty) = items.map fun i => i.path.text := by
    refine List.filter_eq_self.2 (List.forall_mem_map.2 fun i _ => ?_)
    rw [List.isEmpty_eq_false_iff.2 i.path.ne_nil]
    rfl
  rw [ofLogicalLine, hnone, hmatch]
  dsimp only
  rw [modules, hnames, hfilter, List.map_map, List.map_map]
  rfl

/-- An import of everything gives one import that says so. -/
theorem ofLogicalLine_everything (line : Nat) {path : ModuleName} (hindent : ∀ c ∈ indent, isBlank c = true)
    (h : Spells (Statement.everything path).tokens l) :
    ofLogicalLine line (indent ++ l) = (Statement.everything path).imports line := by
  have hcode : IsCode ["*".text] := by
    unfold IsCode
    decide
  obtain ⟨mt, hmatch, hspecifier, hspells⟩ := fromImport_of_spells hindent path.isModulePath hcode (by decide) h
  have hstar : strip (trim (among "()") (strip (mt.get .items))) = ['*'] := by
    rw [hspells.strip_eq_of_singleton]
    decide
  rw [ofLogicalLine, hmatch]
  dsimp only
  rw [if_pos hstar, hspecifier]
  rfl

/-- What has no characters of a class is left as it is when they are trimmed. -/
theorem trim_eq_self_of_forall {p : Char → Bool} {t : Text} (h : ∀ c ∈ t, p c = false) : trim p t = t :=
  trim_eq_self (fun c hc => h c (List.mem_of_mem_head? hc)) fun c hc => h c (List.mem_of_getLast? hc)

/-- Brackets around a text without brackets are taken off. -/
theorem trim_brackets {t : Text} (h : ∀ c ∈ t, among "()" c = false) (hne : t ≠ []) : trim (among "()") ("(".text ++ (t ++ ")".text)) = t := by
  have hfirst : ∀ c ∈ (t ++ ")".text).head?, among "()" c = false := by
    rw [List.head?_append_of_ne_nil _ hne]
    exact fun c hc => h c (List.mem_of_mem_head? hc)
  rw [trim, trimLeft_append (by decide), trimLeft_eq_self hfirst, trimRight_append (by decide),
    trimRight_eq_self fun c hc => h c (List.mem_of_getLast? hc)]

/-- A list of names and commas is found without its brackets. -/
theorem spells_trim {rows : List (List Text)} {brackets : Brackets} (hrows : rows ≠ []) (hsome : ∀ row ∈ rows, row ≠ [])
    (hplain : ∀ row ∈ rows, ∀ t ∈ row, IsPlain t) (h : Spells (brackets.around rows) l) :
    ∃ comma, Spells (listTokens rows comma) (trim (among "()") (strip l)) := by
  have hnone : ∀ {comma : Bool} {l : Text}, Spells (listTokens rows comma) l → ∀ c ∈ l, among "()" c = false := by
    intro comma l hl c hc
    refine eq_false_of_ne_true fun hmark => ?_
    have hmark : c ∈ ['(', ')'] := List.contains_iff_mem.1 hmark
    obtain rfl | ⟨t, ht, hct⟩ := hl.of_mem hc
    · exact absurd hmark (by decide)
    obtain rfl | ⟨row, hrow, ht⟩ := mem_listTokens ht
    · obtain rfl : c = ',' := List.mem_singleton.1 hct
      exact absurd hmark (by decide)
    · have hmarks : ∀ d ∈ ['(', ')'], d ∈ [',', '(', ')', '\x7b', '\x7d'] := by decide
      exact hplain row hrow t ht c hct (hmarks c hmark)
  have hfirst : ∀ row ∈ rows, ∃ t ts, row = t :: ts ∧ IsPlain t := by
    intro row hrow
    obtain ⟨t, ts, rfl⟩ := List.exists_cons_of_ne_nil (hsome row hrow)
    exact ⟨t, ts, rfl, hplain _ hrow t List.mem_cons_self⟩
  have hbrackets : ∀ {comma : Bool}, Spells ("(".text :: (listTokens rows comma ++ [")".text])) l →
      Spells (listTokens rows comma) (trim (among "()") (strip l)) := by
    intro comma h
    have h : Spells ([] ++ "(".text :: (listTokens rows comma ++ [")".text])) l := h
    obtain ⟨a, m, rfl, ha, hm⟩ := h.exists_mark
    obtain ⟨t, d, rfl, ht, hd⟩ := hm.exists_mark
    obtain ⟨n, rfl⟩ := ha.eq_replicate
    obtain ⟨k, rfl⟩ := hd.eq_replicate
    have hne : t ≠ [] := by
      rintro rfl
      obtain ⟨u, us, hlist, -⟩ := exists_listTokens hrows hfirst comma
      exact (hlist ▸ ht).ne_nil rfl
    have hstrip : strip (List.replicate n ' ' ++ ("(".text ++ (t ++ (")".text ++ List.replicate k ' ')))) = "(".text ++ (t ++ ")".text) := by
      have hlast : ∀ c ∈ ("(".text ++ (t ++ ")".text)).getLast?, isBlank c = false := by
        rw [← List.append_assoc, List.getLast?_append_of_ne_nil _ (by decide)]
        decide
      rw [strip, trim, trimLeft_append isBlank_of_mem_replicate, trimLeft_eq_self (by rintro c ⟨⟩; decide), ← List.append_assoc t, ← List.append_assoc,
        trimRight_append isBlank_of_mem_replicate, trimRight_eq_self hlast]
    rw [hstrip, trim_brackets (hnone ht) hne]
    exact ht
  cases brackets with
  | none =>
    refine ⟨false, ?_⟩
    rw [trim_eq_self_of_forall (hnone h.strip)]
    exact h.strip
  | plain => exact ⟨false, hbrackets h⟩
  | comma => exact ⟨true, hbrackets h⟩

/-- The first word or mark behind `import` may not touch it. -/
theorem exists_around {items : List NamedItem} (hitems : items ≠ []) (brackets : Brackets) :
    ∃ u us, brackets.around (items.map NamedItem.tokens) = u :: us ∧ mayTouch "import".text u = false ∧ IsCode (u :: us) := by
  have hrows : items.map NamedItem.tokens ≠ [] := by rwa [Ne, List.map_eq_nil_iff]
  have hcode : ∀ comma, IsCode (listTokens (items.map NamedItem.tokens) comma) :=
    fun comma => isCode_listTokens (List.forall_mem_map.2 fun i _ => isCode_of_wordOr i.wordOr)
  have hbrackets : ∀ {ts : List Text}, IsCode ts → IsCode ("(".text :: (ts ++ [")".text])) := fun h =>
    List.forall_mem_cons.2 ⟨by decide, List.forall_mem_append.2 ⟨h, by decide⟩⟩
  cases brackets with
  | none =>
    obtain ⟨u, us, hlist, hu⟩ := exists_listTokens hrows (List.forall_mem_map.2 fun i _ => exists_itemTokens i.name.isPlain) false
    exact ⟨u, us, hlist, mayTouch_of_isPlain isPlain_import hu, hlist ▸ hcode false⟩
  | plain => exact ⟨_, _, rfl, by decide, hbrackets (hcode false)⟩
  | comma => exact ⟨_, _, rfl, by decide, hbrackets (hcode true)⟩

/-- A `from` import gives one import, with the symbols of its list. -/
theorem ofLogicalLine_names (line : Nat) {path : ModuleName} {items : List NamedItem} {brackets : Brackets} (hitems : items ≠ [])
    (hindent : ∀ c ∈ indent, isBlank c = true) (h : Spells (Statement.names path items hitems brackets).tokens l) :
    ∃ comma names, Spells (listTokens (items.map NamedItem.tokens) comma) names ∧
      ofLogicalLine line (indent ++ l) = [{ specifier := String.ofList path.text, line, symbols := symbolList names }] := by
  obtain ⟨u, us, haround, hu, hcode⟩ := exists_around hitems brackets
  rw [Statement.tokens, haround] at h
  obtain ⟨mt, hmatch, hspecifier, hspells⟩ := fromImport_of_spells hindent path.isModulePath hcode hu h
  obtain ⟨comma, hnames⟩ := spells_trim (by rwa [Ne, List.map_eq_nil_iff])
    (List.forall_mem_map.2 fun _ _ => itemTokens_ne_nil)
    (List.forall_mem_map.2 fun i _ t ht => isPlain_path (i.wordOr t ht))
    (haround ▸ hspells)
  have hstar : strip (trim (among "()") (strip (mt.get .items))) ≠ ['*'] := by
    intro e
    have hmem : '*' ∈ strip (trim (among "()") (strip (mt.get .items))) := e ▸ List.mem_singleton_self _
    obtain hspace | ⟨t, ht, hct⟩ := hnames.strip.of_mem hmem
    · exact absurd hspace (by decide)
    obtain rfl | ⟨row, hrow, ht⟩ := mem_listTokens ht
    · exact absurd hct (by decide)
    obtain ⟨i, -, rfl⟩ := List.mem_map.1 hrow
    exact absurd (i.wordOr t ht '*' hct) (by decide)
  refine ⟨comma, _, hnames, ?_⟩
  rw [ofLogicalLine, hmatch]
  dsimp only
  rw [if_neg hstar, hspecifier]

/-- The name of an item is read from its words, unless it is `type` with another name behind it. -/
theorem itemName_tokens {i : NamedItem} {p : Text} (htype : ¬(i.name.text = "type".text ∧ i.other.isSome = true))
    (h : Spells i.tokens p) : itemName p = i.name.text := by
  refine itemName_of_name h i.name.isName isPlain_of_mem_other fun hname => ?_
  cases hother : i.other with
  | none => rfl
  | some o => exact absurd ⟨hname, by rw [hother]; rfl⟩ htype

/-- The symbols are the names of the list, unless one of them is `type` and given another name. -/
theorem symbolList_iff {items : List NamedItem} {comma : Bool} (hitems : items ≠ [])
    (h : Spells (listTokens (items.map NamedItem.tokens) comma) l) :
    symbolList l = (items.map fun i => String.ofList i.name.text).eraseDups ↔
      ¬∃ i ∈ items, i.name.text = "type".text ∧ i.other.isSome = true := by
  have htokens : ∀ i ∈ items, i.tokens ≠ [] ∧ ∀ t ∈ i.tokens, ',' ∉ t := fun i _ => ⟨itemTokens_ne_nil, comma_not_mem_of_wordOr i.wordOr⟩
  constructor
  · rintro hsymbols ⟨i, hi, hname, hother⟩
    obtain ⟨o, hother⟩ := Option.isSome_iff_exists.1 hother
    have hspace : ∀ p, Spells i.tokens p → ' ' ∈ itemName p := by
      intro p hp
      rw [NamedItem.tokens, hname, hother] at hp
      exact space_mem_itemName hp o.isName
    obtain ⟨p, hp, hmem⟩ := exists_symbol_of_spells hitems htokens h hi fun p hp =>
      ⟨List.ne_nil_of_mem (hspace p hp), fun e => absurd (e ▸ hspace p hp) (by decide)⟩
    rw [hsymbols, List.mem_eraseDups] at hmem
    obtain ⟨j, -, hj⟩ := List.mem_map.1 hmem
    exact j.name.isName.isToken.space_not_mem (String.ofList_injective hj ▸ hspace p hp)
  · intro htype
    exact symbolList_of_spells hitems htokens (fun i hi p => itemName_tokens fun h => htype ⟨i, hi, h⟩)
      (fun i _ => ⟨i.name.ne_nil, fun e => absurd (i.name.wordOr '*' (e ▸ List.mem_singleton_self _)) (by decide)⟩) h

/-- A statement gives back its imports, unless it gives another name to the name `type`; in any case it gives as many. -/
theorem ofLogicalLine_of_spells (line : Nat) (s : Statement) (hindent : ∀ c ∈ indent, isBlank c = true) (h : Spells s.tokens l) :
    (ofLogicalLine line (indent ++ l)).length = (s.imports line).length ∧
      (ofLogicalLine line (indent ++ l) = s.imports line ↔ ¬s.RenamesType) := by
  cases s with
  | modules items hitems =>
    have heq := ofLogicalLine_modules line hitems hindent h
    exact ⟨congrArg List.length heq, iff_of_true heq not_false⟩
  | names path items hitems brackets =>
    obtain ⟨comma, names, hnames, heq⟩ := ofLogicalLine_names line hitems hindent h
    rw [heq]
    refine ⟨rfl, ?_⟩
    rw [Statement.imports, List.singleton_inj, ImportStatement.mk.injEq]
    simp only [true_and, and_true]
    exact symbolList_iff hitems hnames
  | everything path =>
    have heq := ofLogicalLine_everything line hindent h
    exact ⟨congrArg List.length heq, iff_of_true heq not_false⟩

end Reading

/-! ## A file -/

/-- The words of a statement are code. -/
theorem Statement.isCode_tokens (s : Statement) : IsCode s.tokens := by
  have hcode : ∀ {t : Text} {ts : List Text}, (∀ c ∈ t, isCodeChar c = true) → IsCode ts → IsCode (t :: ts) := fun ht hts =>
    List.forall_mem_cons.2 ⟨ht, hts⟩
  cases s with
  | modules items _ =>
    exact hcode (by decide) (isCode_listTokens (List.forall_mem_map.2 fun i _ => isCode_of_wordOr i.wordOr))
  | names path items hitems brackets =>
    obtain ⟨u, us, haround, -, haroundCode⟩ := exists_around hitems brackets
    rw [← haround] at haroundCode
    exact hcode (by decide) (hcode (fun c hc => isCodeChar_of_wordOr (path.wordOr c hc)) (hcode (by decide) haroundCode))
  | everything path =>
    refine hcode (by decide) (hcode (fun c hc => isCodeChar_of_wordOr (path.wordOr c hc)) ?_)
    unfold IsCode
    decide

/-- A statement has words. -/
theorem Statement.tokens_ne_nil (s : Statement) : s.tokens ≠ [] := by cases s <;> exact List.cons_ne_nil _ _

/-- The imports of some passages, wherever they begin. -/
theorem importsFrom_passages_iff (line : Nat) (ps : List Passage) :
    importsFrom 0 line (ps.flatMap Passage.lines) = importsOf line ps ↔ ∀ p ∈ ps, ¬p.RenamesType := by
  induction ps generalizing line with
  | nil => exact iff_of_true rfl nofun
  | cons p ps ih =>
    rw [List.flatMap_cons, importsOf, List.forall_mem_cons]
    cases p with
    | other l hother =>
      rw [Passage.lines, List.singleton_append, importsFrom_other hother, Passage.imports, List.nil_append, Passage.RenamesType,
        not_false_eq_true, true_and]
      exact ih (line + 1)
    | statement s first rest hbegins hlayout =>
      obtain ⟨indent, joined, hindent, hspells, hlogical⟩ :=
        logicalLine_of_layout hlayout s.isCode_tokens s.tokens_ne_nil (ps.flatMap Passage.lines)
      obtain ⟨hlength, hiff⟩ := ofLogicalLine_of_spells line s hindent hspells
      rw [Passage.lines, List.cons_append, importsFrom_of_logicalLine hbegins hlogical, Passage.imports, Passage.RenamesType, ← hiff,
        ← ih (line + (first :: rest).length)]
      exact ⟨fun h => List.append_inj h hlength, fun h => by rw [h.1, h.2]⟩

/-- The imports of a file are read back in order, each with its name, its line and its symbols, exactly when no statement gives another
name to the name `type`. -/
theorem importStatements_passages_iff (ps : List Passage) :
    importStatements (ps.flatMap Passage.lines) = importsOf 1 ps ↔ ∀ p ∈ ps, ¬p.RenamesType := importsFrom_passages_iff 1 ps

example : importStatements ["from .a import (  # of the package".text, "    b as c,".text, "    d,".text, ")".text, "".text, "import e.f, \\".text,
    "    g as h".text] = [{ specifier := ".a", line := 1, symbols := ["b", "d"] }, { specifier := "e.f", line := 6, importAll := true },
      { specifier := "g", line := 6, importAll := true }] := by decide

/-- `from m import type as t`. -/
def renamedType : Statement :=
  .names ⟨0, [⟨"m".text, by decide, by decide, by decide, by decide⟩], by decide⟩
    [⟨⟨"type".text, by decide, by decide, by decide, by decide⟩, some ⟨"t".text, by decide, by decide, by decide, by decide⟩⟩]
    (List.cons_ne_nil _ _) .none

/-- The name `type` is not read back where it is given another name. -/
theorem renamed_type_misread : ∃ p : Passage, p.lines = ["from m import type as t".text] ∧
    p.imports 1 = [{ specifier := "m", line := 1, symbols := ["type"] }] ∧
    importStatements p.lines = [{ specifier := "m", line := 1, symbols := ["as t"] }] := by
  have htokens : ∀ t ∈ renamedType.tokens, IsToken t := by
    unfold IsToken
    decide
  have hlayout : Layout 0 renamedType.tokens [[] ++ [' '].intercalate renamedType.tokens ++ []] :=
    .last nofun (.of_tokens htokens) (Or.inl rfl) (by decide)
  have hbegins : BeginsImport "from m import type as t".text := by
    unfold BeginsImport
    decide
  have himports : renamedType.imports 1 = [{ specifier := "m", line := 1, symbols := ["type"] }] := by decide
  have hread : importStatements ["from m import type as t".text] = [{ specifier := "m", line := 1, symbols := ["as t"] }] := by
    decide
  exact ⟨.statement renamedType _ [] hbegins hlayout, rfl, himports, hread⟩

end CodeAtlas.Python
