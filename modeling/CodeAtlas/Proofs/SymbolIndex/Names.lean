import CodeAtlas.Proofs.Text.Split
import CodeAtlas.Proofs.Text.Trim
import CodeAtlas.SymbolIndex.Descriptor
import CodeAtlas.Text.Letter

/-!
# Names on a path of descriptors

A name may hold the characters that separate descriptors, and the mark that quotes it. It is written between marks then, with its own
marks doubled, and is read back as it was. What a symbol is follows from what its path ends with.
-/

namespace CodeAtlas.Descriptor

open Text

/-! ## How names are written -/

/-- A character of a name that needs no quotes. -/
def isSimple (c : Char) : Bool := isWordChar c || c == '+' || c == '-' || c == '$'

/-- A character that a name may have. -/
def isNameChar (c : Char) : Bool := notBracket c && c != ' ' && c != '\n'

/-- Every mark becomes two. -/
def double (name : Text) : Text := name.flatMap fun c => if c = quoteMark then [c, c] else [c]

/-- A name between marks. -/
def inMarks (name : Text) : Text := quoteMark :: double name ++ [quoteMark]

/-- The ways to write a name: as it is when all its characters are simple, and between marks. -/
inductive IsWritten (name : Text) : Text → Prop where
  | simple : (∀ c ∈ name, isSimple c = true) → IsWritten name name
  | quoted : IsWritten name (inMarks name)

/-- A name on a path, as it is written there. -/
structure Component where
  name : Text
  written : Text
  nameChars : ∀ c ∈ name, isNameChar c = true
  isWritten : IsWritten name written

/-- A name on a path that more descriptors follow. -/
structure Enclosing extends Component where
  suffix : Char
  isSuffix : suffix = '/' ∨ suffix = '#' ∨ suffix = '.'

/-- The text of an enclosing descriptor. -/
def Enclosing.text (e : Enclosing) : Text := e.written ++ [e.suffix]

/-- The names on a path, as they are written there. -/
def pathText (enclosing : List Enclosing) (last : Component) : Text := enclosing.flatMap Enclosing.text ++ last.written

/-- What a path may end with: one of three suffixes, or brackets with a text in them that tells callables of one name apart. -/
inductive Ending where
  | ofClass
  | ofVariable
  | ofModule
  | ofFunction (inside : Text)
  | ofMethod (inside : Text)

namespace Ending

/-- The text at the end of a path. -/
def text : Ending → Text
  | ofClass => ['#']
  | ofVariable => ['.']
  | ofModule => ['/']
  | ofFunction inside => '(' :: inside ++ [')']
  | ofMethod inside => '(' :: inside ++ [')', '.']

/-- What a symbol is whose path ends so. -/
def kind : Ending → EntityKind
  | ofClass => .class_
  | ofVariable => .variable_
  | ofModule => .module_
  | ofFunction _ => .function
  | ofMethod _ => .method

/-- The text in the brackets. -/
def inside : Ending → Text
  | ofFunction inside => inside
  | ofMethod inside => inside
  | _ => []

/-- The signature on a path: the path, with the brackets of a callable. A path that is just the name says nothing more. -/
def signature (path name : Text) : Ending → Option Text
  | ofFunction inside => some (path ++ '(' :: inside ++ [')'])
  | ofMethod inside => some (path ++ '(' :: inside ++ [')'])
  | _ => if path = name then none else some path

end Ending

/-- The text of a symbol: words with a space behind each, and a path. -/
def symbolText (words : List Text) (path : Text) : Text := words.flatMap (· ++ [' ']) ++ path

/-! ## Reading names back -/

section Names

variable {c : Char} {name written rest : Text}

/-- Doubling the marks of a name goes character by character. -/
theorem double_cons (c : Char) (name : Text) : double (c :: name) = (if c = quoteMark then [c, c] else [c]) ++ double name :=
  List.flatMap_cons

/-- Doubled marks are read back. -/
theorem undouble_double (name : Text) : undouble (double name) = name := by
  induction name with
  | nil => rfl
  | cons c name ih =>
    rw [double_cons]
    by_cases hc : c = quoteMark
    · rw [if_pos hc, List.cons_append, List.singleton_append, undouble, if_pos ⟨hc, hc⟩, ih]
    · rw [if_neg hc, List.singleton_append]
      cases hname : double name with
      | nil =>
        rw [hname] at ih
        rw [← ih]
        rfl
      | cons d r =>
        rw [hname] at ih
        rw [undouble, if_neg fun h => hc h.1, ih]

/-- A quoted name ends at its last mark, not at a doubled one. -/
theorem quotedName?_double (name : Text) (h : rest.head? ≠ some quoteMark) :
    quotedName? (double name ++ quoteMark :: rest) = some (double name, rest) := by
  induction name with
  | nil =>
    cases rest with
    | nil => rfl
    | cons d r =>
      have hd : d ≠ quoteMark := fun e => h (congrArg some e)
      show quotedName? (quoteMark :: d :: r) = some ([], d :: r)
      rw [quotedName?, if_pos rfl, if_neg hd]
  | cons c name ih =>
    rw [double_cons]
    by_cases hc : c = quoteMark
    · rw [if_pos hc, List.append_assoc, List.cons_append, List.singleton_append, quotedName?, if_pos hc, if_pos hc, ih]
      rfl
    · rw [if_neg hc, List.append_assoc, List.singleton_append]
      obtain ⟨d, r, hdr⟩ : ∃ d r, double name ++ quoteMark :: rest = d :: r := by
        cases double name with
        | nil => exact ⟨_, _, rfl⟩
        | cons d r => exact ⟨d, _, rfl⟩
      rw [hdr] at ih ⊢
      rw [quotedName?, if_neg hc, ih]
      rfl

/-- A simple character is a plain one. -/
theorem isPlain_of_isSimple (h : isSimple c = true) : isPlain c = true := by
  unfold isPlain
  simp only [Bool.and_eq_true, bne_iff_ne, ne_eq]
  refine ⟨⟨⟨?_, ?_⟩, ?_⟩, ?_⟩ <;> rintro rfl <;> exact absurd h (by decide)

/-- A name is read back from the way it is written, quoted or not. -/
theorem IsWritten.unquote (h : IsWritten name written) : unquote written = name := by
  cases h with
  | simple h =>
    refine if_neg fun hquoted => ?_
    have hmark := isPlain_of_isSimple (h quoteMark (List.mem_of_mem_head? hquoted.1))
    exact absurd hmark (by decide)
  | quoted =>
    have hquoted : (inMarks name).head? = some quoteMark ∧ (inMarks name).getLast? = some quoteMark ∧ 2 ≤ (inMarks name).length :=
      ⟨rfl, List.getLast?_concat, by simp [inMarks]⟩
    have hinner : ((inMarks name).drop 1).dropLast = double name := List.dropLast_concat
    rw [Descriptor.unquote, if_pos hquoted, hinner, undouble_double]

/-- A name that is not empty is not written as nothing. -/
theorem IsWritten.ne_nil (h : IsWritten name written) (hname : name ≠ []) : written ≠ [] := by
  cases h with
  | simple => exact hname
  | quoted => exact List.cons_ne_nil _ _

end Names

/-! ## Splitting a path -/

section Paths

variable {name written rest : Text} {enclosing : List Enclosing} {last : Component}

/-- Characters that belong to a quoted name are passed over. -/
theorem components_drop (a r : Text) : components a.length (a ++ r) = components 0 r := by
  induction a with
  | nil => rfl
  | cons c a ih => exact ih

/-- A name that is written on a path is one piece of it, unless it is empty. -/
theorem IsWritten.components (h : IsWritten name written) (hrest : ∀ c ∈ rest.head?, isPlain c = false ∧ c ≠ quoteMark) :
    components 0 (written ++ rest) = (if written = [] then [] else [written]) ++ components 0 rest := by
  have hplain : ∀ c ∈ rest.head?, isPlain c = false := fun c hc => (hrest c hc).1
  cases h with
  | simple h =>
    cases name with
    | nil => rfl
    | cons c name =>
      obtain ⟨hc, hname⟩ := List.forall_mem_cons.1 h
      have hrun : (name ++ rest).takeWhile isPlain = name := by
        rw [List.takeWhile_append_of_pos fun d hd => isPlain_of_isSimple (hname d hd)]
        cases rest with
        | nil => rw [List.takeWhile_nil, List.append_nil]
        | cons d r => rw [List.takeWhile_cons_of_neg (Bool.eq_false_iff.1 (hplain d rfl)), List.append_nil]
      rw [List.cons_append, Descriptor.components, if_pos (isPlain_of_isSimple hc), hrun, components_drop, if_neg (List.cons_ne_nil c name)]
      rfl
  | quoted =>
    have hmark : rest.head? ≠ some quoteMark := fun e => (hrest quoteMark e).2 rfl
    have hsplit : inMarks name ++ rest = quoteMark :: (double name ++ quoteMark :: rest) := by
      simp [inMarks]
    have hpiece : double name ++ quoteMark :: rest = (double name ++ [quoteMark]) ++ rest := by
      rw [List.append_assoc, List.singleton_append]
    have hlength : (double name).length + 1 = (double name ++ [quoteMark]).length := by
      rw [List.length_append, List.length_singleton]
    have hmarkPlain : ¬isPlain quoteMark = true := by decide
    rw [hsplit, Descriptor.components, if_neg hmarkPlain, if_pos rfl, quotedName?_double name hmark]
    dsimp only
    have hne : inMarks name ≠ [] := List.cons_ne_nil _ _
    rw [hpiece, hlength, components_drop, if_neg hne]
    rfl

/-- The ending of an enclosing component is neither a plain character nor a quote. -/
theorem Enclosing.suffix_cases (e : Enclosing) : isPlain e.suffix = false ∧ e.suffix ≠ quoteMark := by
  rcases e.isSuffix with h | h | h <;> rw [h] <;> decide

/-- The pieces of a path end with its last name. -/
theorem exists_components_pathText (enclosing : List Enclosing) (hname : last.name ≠ []) :
    ∃ before, components 0 (pathText enclosing last) = before ++ [last.written] := by
  unfold pathText
  induction enclosing with
  | nil =>
    refine ⟨[], ?_⟩
    have hnone : ∀ c ∈ ([] : Text).head?, isPlain c = false ∧ c ≠ quoteMark := nofun
    have hlast := last.isWritten.components hnone
    rwa [List.append_nil, if_neg (last.isWritten.ne_nil hname)] at hlast
  | cons e enclosing ih =>
    obtain ⟨before, hbefore⟩ := ih
    obtain ⟨hplain, hmark⟩ := e.suffix_cases
    have hsuffix : components 0 (e.suffix :: (enclosing.flatMap Enclosing.text ++ last.written)) = before ++ [last.written] := by
      rw [components, if_neg (Bool.eq_false_iff.1 hplain), if_neg hmark, hbefore]
    refine ⟨(if e.written = [] then [] else [e.written]) ++ before, ?_⟩
    rw [List.flatMap_cons, Enclosing.text, List.append_assoc, List.append_assoc, List.singleton_append, e.isWritten.components, hsuffix,
      List.append_assoc]
    rintro c ⟨⟩
    exact e.suffix_cases

/-- The last name of a path is that of its last component. -/
theorem lastName_pathText (enclosing : List Enclosing) (hname : last.name ≠ []) : lastName (pathText enclosing last) = last.name := by
  obtain ⟨before, hbefore⟩ := exists_components_pathText enclosing hname
  rw [lastName, hbefore, List.getLast?_concat, Option.map_some, last.isWritten.unquote, Option.getD_some]

end Paths

/-! ## Telling symbols apart -/

section Endings

variable {path inside : Text} {c : Char}

/-- A path that ends in brackets is split before them. -/
theorem callable?_brackets (hpath : '\n' ∉ path) (hinside : ∀ c ∈ inside, notBracket c = true) (isMethod : Bool) :
    callable? (path ++ ('(' :: inside ++ ')' :: if isMethod then ['.'] else [])) = some (path, inside, isMethod) := by
  have hreverse : ∀ c ∈ inside.reverse, notBracket c = true := fun c hc => hinside c (List.mem_reverse.1 hc)
  have hopening : notBracket '(' = false := rfl
  have hdrop : (inside.reverse ++ '(' :: path.reverse).dropWhile notBracket = '(' :: path.reverse := by
    rw [List.dropWhile_append_of_pos hreverse, List.dropWhile_cons_of_neg (Bool.eq_false_iff.1 hopening)]
  have htake : (inside.reverse ++ '(' :: path.reverse).takeWhile notBracket = inside.reverse := by
    rw [List.takeWhile_append_of_pos hreverse, List.takeWhile_cons_of_neg (Bool.eq_false_iff.1 hopening), List.append_nil]
  have hline : path.reverse.contains '\n' = false := by simpa using hpath
  have hend : (path ++ ('(' :: inside ++ ')' :: if isMethod then ['.'] else [])).reverse =
      (if isMethod then ['.'] else []) ++ ')' :: (inside.reverse ++ '(' :: path.reverse) := by
    cases isMethod <;> simp
  rw [callable?, hend]
  cases isMethod <;>
    simp only [Bool.false_eq_true, if_false, if_true, List.nil_append, List.cons_append, List.cons.injEq, Char.reduceEq, false_and,
      imp_self, implies_true, hdrop, htake, hline, List.reverse_reverse]

/-- A path that ends in one of the three suffixes is no callable. -/
theorem callable?_suffix (hpath : ∀ c ∈ path, notBracket c = true) (hc : c ≠ ')') : callable? (path ++ [c]) = none := by
  have hclosing : ∀ r, path.reverse ≠ ')' :: r := by
    intro r h
    have hmem : ')' ∈ path := List.mem_reverse.1 (h ▸ List.mem_cons_self)
    exact absurd (hpath _ hmem) (by decide)
  have hreverse : (path ++ [c]).reverse = c :: path.reverse := by simp
  rw [callable?, hreverse]
  by_cases hdot : c = '.'
  · subst hdot
    dsimp only
    split
    · rename_i r hr
      exact absurd hr (hclosing r)
    · rfl
  · split
    rename_i isMethod r hsplit
    split at hsplit
    · rename_i hcons
      exact absurd (List.cons.inj hcons).1 hdot
    · obtain ⟨-, rfl⟩ := Prod.mk.inj hsplit
      split
      · rename_i hcons
        exact absurd (List.cons.inj hcons).1 hc
      · rfl

variable {enclosing : List Enclosing} {last : Component}

/-- Quoting a name brings in no character but the mark. -/
theorem Component.isNameChar_of_mem (x : Component) (hc : c ∈ x.written) : isNameChar c = true := by
  obtain ⟨name, written, hname, hwritten⟩ := x
  cases hwritten with
  | simple => exact hname c hc
  | quoted =>
    have hquote : c = quoteMark ∨ c ∈ name := by
      simp only [inMarks, double, List.cons_append, List.mem_cons, List.mem_append, List.mem_flatMap, List.not_mem_nil, or_false] at hc
      rcases hc with rfl | ⟨d, hd, hc⟩ | rfl
      · exact Or.inl rfl
      · refine Or.inr ?_
        split at hc <;> simp_all
      · exact Or.inl rfl
    rcases hquote with rfl | hc
    · rfl
    · exact hname c hc

/-- The characters of a path are those that names and endings may have. -/
theorem isNameChar_of_mem_pathText (hc : c ∈ pathText enclosing last) : isNameChar c = true := by
  rcases List.mem_append.1 hc with hc | hc
  · obtain ⟨e, -, hc⟩ := List.mem_flatMap.1 hc
    rcases List.mem_append.1 hc with hc | hc
    · exact e.toComponent.isNameChar_of_mem hc
    · rw [List.mem_singleton.1 hc]
      rcases e.isSuffix with h | h | h <;> rw [h] <;> rfl
  · exact last.isNameChar_of_mem hc

/-- A character that names and endings may have is no bracket. -/
theorem notBracket_of_isNameChar (h : isNameChar c = true) : notBracket c = true := by
  simp only [isNameChar, Bool.and_eq_true] at h
  exact h.1.1

/-- A path has no line feed. -/
theorem lineFeed_not_mem_pathText : '\n' ∉ pathText enclosing last := fun h => absurd (isNameChar_of_mem_pathText h) (by decide)

/-- A path with a last name is named by it. -/
theorem named_pathText (kind : EntityKind) (signature : Text → Option Text) (hname : last.name ≠ []) :
    named kind (pathText enclosing last) signature =
      some { kind, name := String.ofList last.name, signature := (signature last.name).map String.ofList } := by
  unfold named
  simp only [lastName_pathText enclosing hname, List.isEmpty_iff, hname, if_false]

/-- What a path says of its last name follows from its ending. -/
theorem ofPath_pathText (hname : last.name ≠ []) {ending : Ending} (hinside : ∀ c ∈ ending.inside, isNameChar c = true) :
    ofPath (pathText enclosing last ++ ending.text) = some
      { kind := ending.kind
        name := String.ofList last.name
        signature := (ending.signature (pathText enclosing last) last.name).map String.ofList } := by
  have hpath : ∀ c ∈ pathText enclosing last, notBracket c = true := fun c hc =>
    notBracket_of_isNameChar (isNameChar_of_mem_pathText hc)
  have hall : (pathText enclosing last).all notBracket = true := List.all_eq_true.2 hpath
  have hbrackets : ∀ {inside : Text}, (∀ c ∈ inside, isNameChar c = true) → ∀ isMethod : Bool,
      ofPath (pathText enclosing last ++ ('(' :: inside ++ ')' :: if isMethod then ['.'] else [])) = some
        { kind := if isMethod then .method else .function
          name := String.ofList last.name
          signature := some (String.ofList (pathText enclosing last ++ '(' :: inside ++ [')'])) } := by
    intro inside hinside isMethod
    rw [ofPath, callable?_brackets lineFeed_not_mem_pathText fun c hc => notBracket_of_isNameChar (hinside c hc)]
    dsimp only
    rw [hall, if_pos rfl, named_pathText _ _ hname]
    rfl
  have hsuffix : ∀ {c : Char} {kind : EntityKind}, c ≠ ')' → suffixKind? c = some kind →
      ofPath (pathText enclosing last ++ [c]) = some
        { kind
          name := String.ofList last.name
          signature := (if pathText enclosing last = last.name then none else some (pathText enclosing last)).map String.ofList } := by
    intro c kind hc hkind
    rw [ofPath, callable?_suffix hpath hc]
    dsimp only
    rw [List.getLast?_concat, Option.bind_some, hkind, Option.bind_some, List.dropLast_concat, named_pathText _ _ hname]
  cases ending with
  | ofClass => exact hsuffix (by decide) rfl
  | ofVariable => exact hsuffix (by decide) rfl
  | ofModule => exact hsuffix (by decide) rfl
  | ofFunction inside => exact hbrackets hinside false
  | ofMethod inside => exact hbrackets hinside true

end Endings

/-! ## Whole symbols -/

/-- A word in front of a path. -/
def IsSymbolWord (w : Text) : Prop := w ≠ [] ∧ ∀ c ∈ w, isBlank c = false

section Symbols

variable {words : List Text} {path : Text}

/-- A symbol falls into its words and its path. -/
theorem splitOn_symbolText (hwords : ∀ w ∈ words, IsSymbolWord w) (hpath : ' ' ∉ path) :
    splitOn ' ' (symbolText words path) = words ++ [path] := by
  induction words with
  | nil => exact splitOn_of_not_mem hpath
  | cons w words ih =>
    obtain ⟨hw, hrest⟩ := List.forall_mem_cons.1 hwords
    have hspace : ' ' ∉ w := fun h => absurd (hw.2 _ h) (by decide)
    have hsplit : symbolText (w :: words) path = w ++ ' ' :: symbolText words path := by simp [symbolText]
    rw [hsplit, splitOn_append, splitOn_of_not_mem hspace, ih hrest]
    rfl

/-- Nothing is trimmed off a symbol whose first word has text and whose path does not end with a blank. -/
theorem strip_symbolText (hwords : ∀ w ∈ words, IsSymbolWord w) (hne : words ≠ []) (hlast : ∃ c, path.getLast? = some c ∧ isBlank c = false) :
    strip (symbolText words path) = symbolText words path := by
  obtain ⟨c, hc, hblank⟩ := hlast
  refine trim_eq_self (fun d hd => ?_) fun d hd => ?_
  · cases words with
    | nil => exact absurd rfl hne
    | cons w words =>
      obtain ⟨⟨hw, hchars⟩, -⟩ := List.forall_mem_cons.1 hwords
      cases w with
      | nil => exact absurd rfl hw
      | cons x w =>
        obtain rfl : x = d := Option.some.inj hd
        exact hchars x List.mem_cons_self
  · rw [symbolText, List.getLast?_append, hc, Option.some_or] at hd
    obtain rfl : c = d := Option.some.inj hd
    exact hblank

/-- An ending has a last character, and that is not blank. -/
theorem Ending.exists_getLast? (ending : Ending) : ∃ c, ending.text.getLast? = some c ∧ isBlank c = false := by
  cases ending with
  | ofClass => exact ⟨_, rfl, by decide⟩
  | ofVariable => exact ⟨_, rfl, by decide⟩
  | ofModule => exact ⟨_, rfl, by decide⟩
  | ofFunction inside => exact ⟨_, List.getLast?_concat, by decide⟩
  | ofMethod inside => exact ⟨'.', List.getLast?_append, by decide⟩

/-- No ending has a space. -/
theorem ne_space_of_mem_ending {ending : Ending} {c : Char} (hinside : ∀ c ∈ ending.inside, isNameChar c = true)
    (hc : c ∈ ending.text) : c ≠ ' ' := by
  rintro rfl
  cases ending with
  | ofClass => exact absurd hc (by decide)
  | ofVariable => exact absurd hc (by decide)
  | ofModule => exact absurd hc (by decide)
  | ofFunction inside =>
    have hmem : ' ' ∈ inside := by simpa [Ending.text] using hc
    exact absurd (hinside _ hmem) (by decide)
  | ofMethod inside =>
    have hmem : ' ' ∈ inside := by simpa [Ending.text] using hc
    exact absurd (hinside _ hmem) (by decide)

/-- A symbol is what the ending of its path says, and its name is the last name on the path, however names are quoted there. -/
theorem ofSymbol_symbolText (words : List Text) (enclosing : List Enclosing) (last : Component) (ending : Ending)
    (hwords : ∀ w ∈ words, IsSymbolWord w) (hne : words ≠ []) (hname : last.name ≠ [])
    (hinside : ∀ c ∈ ending.inside, isNameChar c = true) :
    ofSymbol (String.ofList (symbolText words (pathText enclosing last ++ ending.text))) = some
      { kind := ending.kind
        name := String.ofList last.name
        signature := (ending.signature (pathText enclosing last) last.name).map String.ofList } := by
  obtain ⟨c, hc, hblank⟩ := ending.exists_getLast?
  have hlast : (pathText enclosing last ++ ending.text).getLast? = some c := by
    rw [List.getLast?_append, hc, Option.some_or]
  have hspace : ' ' ∉ pathText enclosing last ++ ending.text := by
    intro h
    rcases List.mem_append.1 h with h | h
    · exact absurd (isNameChar_of_mem_pathText h) (by decide)
    · exact ne_space_of_mem_ending hinside h rfl
  have hpath : (pathText enclosing last ++ ending.text).isEmpty = false := by
    rw [List.isEmpty_eq_false_iff]
    rintro h
    rw [h] at hlast
    nomatch hlast
  have hwordsLength : ¬(words ++ [pathText enclosing last ++ ending.text]).length < 2 := by
    have := List.length_pos_iff.2 hne
    simp only [List.length_append, List.length_singleton]
    omega
  unfold ofSymbol
  rw [String.text, String.toList_ofList, strip_symbolText hwords hne ⟨c, hlast, hblank⟩, splitOn_symbolText hwords hspace]
  dsimp only
  rw [if_neg hwordsLength, List.getLast?_concat, Option.filter_some, hpath, Bool.not_false, if_pos rfl, Option.bind_some,
    ofPath_pathText hname hinside]

end Symbols

/-- The words in front of the paths of an index. -/
def indexWords : List Text := ["scip-java".text, "maven".text]

/-- An enclosing class whose name holds a separator. -/
def slashedClass : Enclosing :=
  { name := "a/b".text, written := inMarks "a/b".text, nameChars := by decide, isWritten := .quoted, suffix := '#',
    isSuffix := Or.inr (Or.inl rfl) }

/-- A method whose name holds a mark and ends with a separator. -/
def markedMethod : Component :=
  { name := "x`y.".text, written := inMarks "x`y.".text, nameChars := by decide, isWritten := .quoted }

/-- A method with a mark in its name and a number behind it is read. -/
theorem ofSymbol_markedMethod :
    (∀ w ∈ indexWords, IsSymbolWord w) ∧ indexWords ≠ [] ∧ markedMethod.name ≠ [] ∧ (∀ c ∈ "+1".text, isNameChar c = true) ∧
      ofSymbol "scip-java maven `a/b`#`x``y.`(+1)." = some
        { kind := .method, name := "x`y.", signature := some "`a/b`#`x``y.`(+1)" } := by
  have hwords : ∀ w ∈ indexWords, IsSymbolWord w := by
    unfold IsSymbolWord
    decide
  have hinside : ∀ c ∈ (Ending.ofMethod "+1".text).inside, isNameChar c = true := by decide
  have hsymbol := ofSymbol_symbolText indexWords [slashedClass] markedMethod (.ofMethod "+1".text) hwords (by decide) (by decide) hinside
  exact ⟨hwords, by decide, by decide, hinside, hsymbol⟩

end CodeAtlas.Descriptor
