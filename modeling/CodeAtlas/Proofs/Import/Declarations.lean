import CodeAtlas.Language.TypeScript.Imports
import CodeAtlas.Proofs.Graph.Structure
import CodeAtlas.Proofs.Import.SymbolList

/-!
# Import and export declarations

A declaration with `from` binds the names of its clause: one name, a list in braces, both, or the whole module. Written out, whatever the
spaces, a clause gives back the names of its list and its own name, each once.
-/

namespace CodeAtlas.TypeScript

open Text Pattern ImportStatement

/-- The words around the names of a declaration. -/
def clauseWords : List Text := ["type".text, "from".text, "as".text]

/-- A name: word characters and dollar signs, and none of the words around it. -/
structure Name where
  text : Text
  ne_nil : text ≠ []
  chars : ∀ c ∈ text, wordOr "$" c = true
  not_word : text ∉ clauseWords

/-- A name of a list, perhaps with `type` in front, and the name it is given. -/
structure ListItem where
  modified : Bool
  name : Name
  other : Option Name

/-- A list in braces, perhaps with a comma behind its last item. -/
structure NameList where
  items : List ListItem
  comma : Bool
  comma_some : comma = true → items ≠ []

/-- What stands between the keyword and `from`. -/
inductive Clause where
  | default_ (name : Name)
  | named (list : NameList)
  | both (name : Name) (list : NameList)
  | everything (name : Name)

/-- The words of an item. -/
def ListItem.tokens (i : ListItem) : List Text := (if i.modified then ["type".text] else []) ++ itemTokens i.name.text (i.other.map (·.text))

/-- The words and marks of a list. -/
def NameList.tokens (l : NameList) : List Text := "\x7b".text :: (listTokens (l.items.map ListItem.tokens) l.comma ++ ["\x7d".text])

/-- The names of a list, as the module has them. -/
def NameList.names (l : NameList) : List String := l.items.map fun i => String.ofList i.name.text

namespace Clause

/-- The words and marks of a clause. -/
def tokens : Clause → List Text
  | default_ name => [name.text]
  | named list => list.tokens
  | both name list => name.text :: ",".text :: list.tokens
  | everything name => ["*".text, "as".text, name.text]

/-- The names of a clause: those of its list and its own, as the module has them. -/
def names : Clause → List String
  | default_ name => [String.ofList name.text]
  | named list => list.names
  | both name list => list.names ++ [String.ofList name.text]
  | everything _ => []

/-- Whether a clause binds the whole module. -/
def isEverything : Clause → Bool
  | everything _ => true
  | _ => false

end Clause

/-- A specifier in quotes: text without quotes on one line. -/
structure Specifier where
  text : Text
  quote : Char
  quote_mem : among "'\"" quote = true
  chars : ∀ c ∈ text, except "'\"" c = true
  oneLine : '\n' ∉ text

/-- The specifier as it is written. -/
def Specifier.quoted (s : Specifier) : Text := s.quote :: (s.text ++ [s.quote])

/-- A declaration: with `from`, imported or exported again; a bare import; or a list of local exports. -/
inductive Form where
  | withFrom (exported typeOnly : Bool) (clause : Clause) (specifier : Specifier)
  | bare (specifier : Specifier)
  | exportList (list : NameList)

namespace Form

/-- The specifier of a declaration; a list of local exports has none. -/
def specifier? : Form → Option Specifier
  | withFrom _ _ _ s => some s
  | bare s => some s
  | exportList _ => none

/-- The keyword that a declaration begins with. -/
def keyword : Form → Text
  | withFrom exported _ _ _ => if exported then "export".text else "import".text
  | bare _ => "import".text
  | exportList _ => "export".text

/-- The words and marks behind the keyword, up to the specifier. -/
def wordsBehind : Form → List Text
  | withFrom _ typeOnly clause _ => (if typeOnly then ["type".text] else []) ++ (clause.tokens ++ ["from".text])
  | bare _ => []
  | exportList list => list.tokens

/-- A form without anything between the keyword and the specifier. -/
def IsBare : Form → Prop
  | bare _ => True
  | _ => False

/-- A form whose specifier stands behind the word `from`. -/
def HasFrom : Form → Prop
  | withFrom _ _ _ _ => True
  | _ => False

/-- What a declaration imports: nothing, when it is a list of local exports. -/
def import? (line : Nat) : Form → Option ImportStatement
  | withFrom _ typeOnly clause s =>
    some { specifier := String.ofList s.text, line, symbols := clause.names.eraseDups, typeOnly, importAll := clause.isEverything }
  | bare s => some { specifier := String.ofList s.text, line }
  | exportList _ => none

end Form

/-- A declaration on a line of its own: its words and marks, its specifier if it has one, and perhaps a semicolon. -/
structure ModuleDeclaration where
  form : Form
  semicolon : Bool
  front : Text
  rear : Text
  front_spells : Spells (form.keyword :: form.wordsBehind) front
  front_gap : form.IsBare → front.getLast? = some ' '
  rear_spells : Spells (if semicolon then [";".text] else []) rear

namespace ModuleDeclaration

/-- The specifier of a declaration as it is written. -/
def quoted (d : ModuleDeclaration) : Text := (d.form.specifier?.map Specifier.quoted).getD []

/-- The line of a declaration. -/
def line (d : ModuleDeclaration) : Text := d.front ++ (d.quoted ++ d.rear)

variable (d : ModuleDeclaration) {s : Specifier}

/-- A declaration with a specifier is written in front of it, the specifier in quotes, and behind it. -/
theorem line_of_some (h : d.form.specifier? = some s) : d.line = d.front ++ (s.quoted ++ d.rear) := by
  rw [line, quoted, h]
  rfl

/-- A declaration without a specifier is written in one piece. -/
theorem line_of_none (h : d.form.specifier? = none) : d.line = d.front ++ d.rear := by
  rw [line, quoted, h]
  rfl

end ModuleDeclaration

/-! ## Names and lists -/

section Names

variable {c : Char} {t : Text}

namespace Name

variable (n : Name)

/-- A name is a word. -/
theorem isToken : IsToken n.text := ⟨n.ne_nil, fun c hc => isBlank_of_wordOr (by decide) (n.chars c hc)⟩

/-- A name has no commas, brackets and braces. -/
theorem isPlain : IsPlain n.text := isPlain_of_wordOr (by decide) n.chars

/-- A name can be read as one. -/
theorem isName : IsName n.text where
  isToken := n.isToken
  isPlain := n.isPlain
  ne_as := fun e => n.not_word (e ▸ by decide)

/-- No name is the modifier. -/
theorem ne_type : n.text ≠ "type".text := fun e => n.not_word (e ▸ by decide)

/-- No name has a star. -/
theorem star_not_mem : '*' ∉ n.text := fun h => absurd (n.chars '*' h) (by decide)

end Name

end Names

section Lists

variable {t : Text}

/-- The words of an item are made of word characters. -/
theorem wordOr_of_mem_itemTokens {name : Text} {other : Option Name} (h : ∀ c ∈ name, wordOr "$" c = true) :
    ∀ t ∈ itemTokens name (other.map (·.text)), ∀ c ∈ t, wordOr "$" c = true := by
  cases other with
  | none => exact List.forall_mem_singleton.2 h
  | some o => exact List.forall_mem_cons.2 ⟨h, List.forall_mem_cons.2 ⟨by decide, List.forall_mem_singleton.2 o.chars⟩⟩

/-- So are those of an item of a list. -/
theorem ListItem.wordOr (i : ListItem) : ∀ t ∈ i.tokens, ∀ c ∈ t, wordOr "$" c = true := by
  refine List.forall_mem_append.2 ⟨?_, wordOr_of_mem_itemTokens i.name.chars⟩
  cases i.modified with
  | false => exact nofun
  | true => exact List.forall_mem_singleton.2 (by decide)

/-- An item of a list has words. -/
theorem ListItem.tokens_ne_nil (i : ListItem) : i.tokens ≠ [] := by
  refine List.append_ne_nil_of_right_ne_nil _ ?_
  cases i.other <;> exact List.cons_ne_nil _ _

/-- The other name of an item has no commas, brackets and braces. -/
theorem isPlain_of_mem_other {other : Option Name} : ∀ o ∈ other.map (·.text), IsPlain o := by
  intro o ho
  obtain ⟨n, -, rfl⟩ := Option.map_eq_some_iff.1 ho
  exact n.isPlain

/-- The name of an item is read from its words. -/
theorem itemName_tokens {i : ListItem} (h : Spells i.tokens t) : itemName t = i.name.text := by
  unfold ListItem.tokens at h
  cases hmodified : i.modified with
  | false =>
    rw [hmodified] at h
    exact itemName_of_name h i.name.isName isPlain_of_mem_other fun e => absurd e i.name.ne_type
  | true =>
    rw [hmodified] at h
    exact itemName_of_modified h i.name.isName isPlain_of_mem_other

/-- A list gives back its names, each once. -/
theorem NameList.symbolList_eq {l : NameList} (h : Spells (listTokens (l.items.map ListItem.tokens) l.comma) t) :
    symbolList t = l.names.eraseDups := by
  by_cases hitems : l.items = []
  · have hcomma : l.comma = false := eq_false_of_ne_true fun hcomma => l.comma_some hcomma hitems
    have hnil : Spells [] t := by rwa [hitems, hcomma] at h
    have hfilled : isFilled t = false := eq_false_of_ne_true fun hfilled => (isFilled_iff hnil).1 hfilled rfl
    have hpieces : splitOn ',' t = [t] := splitOn_of_not_mem fun hmem =>
      (hnil.of_mem hmem).elim (by decide) fun ⟨_, hmem, _⟩ => nomatch hmem
    rw [symbolList_eq_of_spells h, hpieces, List.filter_cons_of_neg (by rw [hfilled]; decide), NameList.names, hitems]
    rfl
  · exact symbolList_of_spells hitems (fun i _ => ⟨i.tokens_ne_nil, fun t ht hmem => absurd (i.wordOr t ht ',' hmem) (by decide)⟩)
      (fun i _ p hp => itemName_tokens hp) (fun i _ => ⟨i.name.ne_nil, fun e => i.name.star_not_mem (e ▸ List.mem_singleton_self _)⟩) h

end Lists

/-! ## Clauses -/

section Clauses

variable {c : Text}

/-- What has no repetitions stays as it is without them. -/
theorem eraseDups_eq_self {α : Type} [BEq α] [LawfulBEq α] {xs : List α} (h : xs.Nodup) : xs.eraseDups = xs := by
  induction xs with
  | nil => rfl
  | cons x xs ih =>
    obtain ⟨hx, hxs⟩ := List.nodup_cons.1 h
    have hfilter : xs.filter (fun y => !y == x) = xs := by
      refine List.filter_eq_self.2 fun y hy => ?_
      have hne : y ≠ x := fun e => hx (e ▸ hy)
      rw [beq_false_of_ne hne]
      rfl
    rw [List.eraseDups_cons, hfilter, ih hxs]

/-- Repetitions may be left out of the beginning first. -/
theorem eraseDups_eraseDups_append {α : Type} [BEq α] [LawfulBEq α] (xs ys : List α) :
    (xs.eraseDups ++ ys).eraseDups = (xs ++ ys).eraseDups := by
  have hremove : ys.removeAll xs.eraseDups = ys.removeAll xs := by
    refine List.filter_congr fun y _ => ?_
    simp only [List.elem_eq_contains, List.contains_eq_mem, List.mem_eraseDups]
  rw [List.eraseDups_append, List.eraseDups_append, eraseDups_eq_self (nodup_eraseDups xs), hremove]

/-- A list in braces is found behind what stands in front of it. -/
theorem braced?_of_spells {ts : List Text} {list : NameList} (hts : ∀ t ∈ ts, '\x7b' ∉ t) (h : Spells (ts ++ list.tokens) c) :
    ∃ a t, braced? c = some (a, t) ∧ Spells ts a ∧ Spells (listTokens (list.items.map ListItem.tokens) list.comma) t := by
  obtain ⟨a, m, rfl, ha, hm⟩ := h.exists_mark
  obtain ⟨t, d, rfl, ht, hd⟩ := hm.exists_mark
  have hopen : '\x7b' ∉ a := fun hmem => (ha.of_mem hmem).elim (by decide) fun ⟨t, ht, hc⟩ => hts t ht hc
  have hclose : '\x7d' ∉ d := fun hmem => (hd.of_mem hmem).elim (by decide) fun ⟨_, hmem, _⟩ => nomatch hmem
  refine ⟨a, t, ?_, ha, ht⟩
  have hfirst : cut? ['\x7b'] ("\x7b".text ++ (t ++ ("\x7d".text ++ d))) = some ([], t ++ '\x7d' :: d) := by
    have hprefix : ['\x7b'].isPrefixOf ('\x7b' :: (t ++ '\x7d' :: d)) = true := List.isPrefixOf_iff_prefix.2 (List.prefix_append ['\x7b'] _)
    exact if_pos hprefix
  rw [braced?, cut?_append_of_not_mem hopen, hfirst, Option.map_some, Option.map_some]
  dsimp only
  rw [List.append_nil, cutLast?_append hclose]

/-- Without an opening brace there is nothing in braces. -/
theorem braced?_of_not_mem {ts : List Text} (hts : ∀ t ∈ ts, '\x7b' ∉ t) (h : Spells ts c) : braced? c = none := by
  have hopen : '\x7b' ∉ c := fun hmem => (h.of_mem hmem).elim (by decide) fun ⟨t, ht, hc⟩ => hts t ht hc
  rw [braced?, cut?_of_not_mem hopen]
  rfl

/-- The parts of what stands in front of the braces, blank ones left out. -/
def headParts (head : Text) : List Text := ((splitOn ',' head).map strip).filter fun p => !p.isEmpty

/-- The symbols of a clause are those before its braces and those in them. -/
theorem clauseSymbols_eq (c : Text) : clauseSymbols c =
    let front := ((braced? (strip c)).map Prod.fst).getD (strip c)
    let parts := headParts front
    (((((braced? (strip c)).map fun p => symbolList p.2).getD []) ++
      (parts.filter fun p => !startsWith p "*" && p != "type".toList).map String.ofList).eraseDups,
      parts.any fun p => startsWith p "*") := by
  rw [clauseSymbols]
  cases braced? (strip c) <;> rfl

/-- The parts in front of the braces are the pieces between commas, trimmed, without the empty ones. -/
theorem headParts_eq (head : Text) : headParts head = ((splitOn ',' head).filter isFilled).map strip := List.filter_map

/-- Nothing in front of the braces gives no parts. -/
theorem headParts_of_nil (h : Spells [] c) : headParts c = [] := by
  have hcomma : ',' ∉ c := fun hmem => (h.of_mem hmem).elim (by decide) fun ⟨_, hmem, _⟩ => nomatch hmem
  have hfilled : ¬isFilled c = true := fun hfilled => (isFilled_iff h).1 hfilled rfl
  rw [headParts_eq, splitOn_of_not_mem hcomma, List.filter_cons_of_neg hfilled]
  rfl

/-- In front of the braces there is one part, whether a comma follows it or not. -/
theorem headParts_of_spells {row : List Text} (comma : Bool) (hne : row ≠ []) (hrow : ∀ t ∈ row, ',' ∉ t)
    (h : Spells (listTokens [row] comma) c) : ∃ p, Spells row p ∧ headParts c = [strip p] := by
  have hrows : ∀ r ∈ [row], id r ≠ [] ∧ ∀ t ∈ id r, ',' ∉ t := List.forall_mem_singleton.2 ⟨hne, hrow⟩
  have hpieces := exists_pieces (List.cons_ne_nil row []) hrows ((List.map_id [row]).symm ▸ h)
  rw [headParts_eq]
  generalize (splitOn ',' c).filter isFilled = pieces at hpieces
  cases hpieces with
  | cons hp hnil =>
    cases hnil with
    | nil => exact ⟨_, hp, rfl⟩

/-- A name does not begin with a star. -/
theorem startsWith_star_name (n : Name) : startsWith n.text "*" = false := by
  refine eq_false_of_ne_true fun h => n.star_not_mem ?_
  exact (List.isPrefixOf_iff_prefix.1 h).subset (List.mem_singleton_self _)

/-- A name alone is one symbol. -/
theorem parts_of_name (n : Name) : ([n.text].filter fun p => !startsWith p "*" && p != "type".toList) = [n.text] ∧
    ([n.text].any fun p => startsWith p "*") = false := by
  have hkeep : (!startsWith n.text "*" && n.text != "type".toList) = true := by
    rw [startsWith_star_name, bne_iff_ne.2 n.ne_type]
    rfl
  refine ⟨List.filter_cons_of_pos hkeep, ?_⟩
  rw [List.any_cons, startsWith_star_name]
  rfl

/-- A clause begins with a word or an opening brace. -/
theorem Clause.exists_tokens (clause : Clause) : ∃ u us, clause.tokens = u :: us ∧ u ∉ [",".text, ")".text, "\x7d".text] := by
  have hname : ∀ n : Name, n.text ∉ [",".text, ")".text, "\x7d".text] := by
    intro n
    simp only [List.mem_cons, List.not_mem_nil, or_false, not_or]
    exact ⟨n.isPlain.ne_mark (by decide), n.isPlain.ne_mark (by decide), n.isPlain.ne_mark (by decide)⟩
  cases clause with
  | default_ name => exact ⟨_, _, rfl, hname name⟩
  | named list => exact ⟨_, _, rfl, by decide⟩
  | both name list => exact ⟨_, _, rfl, hname name⟩
  | everything name => exact ⟨_, _, rfl, by decide⟩

/-- A clause gives back its names, each once, and whether it binds the whole module. -/
theorem clauseSymbols_of_spells {clause : Clause} (h : Spells clause.tokens c) :
    clauseSymbols c = (clause.names.eraseDups, clause.isEverything) := by
  have hcomma : ∀ {t : Text}, (∀ c ∈ t, wordOr "$" c = true) → ',' ∉ t := fun ht hmem => absurd (ht ',' hmem) (by decide)
  have hopen : ∀ {t : Text}, (∀ c ∈ t, wordOr "$" c = true) → '\x7b' ∉ t := fun ht hmem => absurd (ht '\x7b' hmem) (by decide)
  have h := h.strip
  rw [clauseSymbols_eq]
  cases clause with
  | default_ name =>
    obtain ⟨p, hp, hparts⟩ := headParts_of_spells false (List.cons_ne_nil _ _) (List.forall_mem_singleton.2 (hcomma name.chars))
      (by rwa [listTokens, List.intercalate_singleton, if_neg Bool.false_ne_true, List.append_nil])
    rw [braced?_of_not_mem (List.forall_mem_singleton.2 (hopen name.chars)) h]
    dsimp only [Option.map_none, Option.getD_none]
    rw [hparts, hp.strip_eq_of_singleton, (parts_of_name name).1, (parts_of_name name).2]
    rfl
  | named list =>
    have h : Spells ([] ++ list.tokens) (strip c) := h
    obtain ⟨a, t, hbraced, ha, ht⟩ := braced?_of_spells (List.forall_mem_nil _) h
    rw [hbraced]
    dsimp only [Option.map_some, Option.getD_some]
    rw [headParts_of_nil ha, list.symbolList_eq ht, List.filter_nil, List.map_nil, eraseDups_eraseDups_append, List.append_nil]
    rfl
  | both name list =>
    have h : Spells ([name.text, ",".text] ++ list.tokens) (strip c) := h
    obtain ⟨a, t, hbraced, ha, ht⟩ :=
      braced?_of_spells (List.forall_mem_cons.2 ⟨hopen name.chars, List.forall_mem_singleton.2 (by decide)⟩) h
    obtain ⟨p, hp, hparts⟩ := headParts_of_spells true (List.cons_ne_nil _ _) (List.forall_mem_singleton.2 (hcomma name.chars))
      (by rwa [listTokens, List.intercalate_singleton, if_pos rfl])
    rw [hbraced]
    dsimp only [Option.map_some, Option.getD_some]
    rw [hparts, hp.strip_eq_of_singleton, (parts_of_name name).1, (parts_of_name name).2, list.symbolList_eq ht, eraseDups_eraseDups_append]
    rfl
  | everything name =>
    have htokens : ∀ {d : Char}, d ∉ "*".text → d ∉ "as".text → d ∉ name.text → ∀ t ∈ ["*".text, "as".text, name.text], d ∉ t :=
      fun hstar has hname => List.forall_mem_cons.2 ⟨hstar, List.forall_mem_cons.2 ⟨has, List.forall_mem_singleton.2 hname⟩⟩
    obtain ⟨p, hp, hparts⟩ := headParts_of_spells false (List.cons_ne_nil _ _) (htokens (by decide) (by decide) (hcomma name.chars))
      (by rwa [listTokens, List.intercalate_singleton, if_neg Bool.false_ne_true, List.append_nil])
    obtain ⟨l, hstrip⟩ := hp.exists_strip
    have hstar : startsWith (strip p) "*" = true := List.isPrefixOf_iff_prefix.2 ⟨l, hstrip.symm⟩
    rw [braced?_of_not_mem (htokens (by decide) (by decide) (hopen name.chars)) h]
    dsimp only [Option.map_none, Option.getD_none]
    rw [hparts, List.filter_cons_of_neg (by rw [hstar]; exact Bool.false_ne_true), List.any_cons, hstar]
    rfl

end Clauses

/-! ## Declarations -/

section Tokens

/-- A declaration begins with one of two keywords. -/
theorem Form.keyword_eq (f : Form) : f.keyword = "import".text ∨ f.keyword = "export".text := by
  cases f with
  | withFrom exported typeOnly clause s =>
    cases exported with
    | false => exact Or.inl rfl
    | true => exact Or.inr rfl
  | bare s => exact Or.inl rfl
  | exportList list => exact Or.inr rfl

/-- The words and marks around the names of a declaration. -/
def formWords : List Text :=
  ["import".text, "export".text, "type".text, "from".text, "as".text, ",".text, "*".text, "\x7b".text, "\x7d".text]

variable {P : Text → Prop} (hname : ∀ n : Name, P n.text) (hword : ∀ t ∈ formWords, P t)
include hname hword

/-- What holds of names and of the word `as` holds of the tokens of an item. -/
theorem ListItem.forall_tokens (i : ListItem) : ∀ t ∈ i.tokens, P t := by
  refine List.forall_mem_append.2 ⟨?_, ?_⟩
  · cases i.modified with
    | false => exact nofun
    | true => exact List.forall_mem_singleton.2 (hword _ (by decide))
  · cases i.other with
    | none => exact List.forall_mem_singleton.2 (hname i.name)
    | some o => exact List.forall_mem_cons.2 ⟨hname i.name, List.forall_mem_cons.2 ⟨hword _ (by decide), List.forall_mem_singleton.2 (hname o)⟩⟩

/-- What holds of names, of the word `as`, and of commas and braces holds of the tokens of a list. -/
theorem NameList.forall_tokens (list : NameList) : ∀ t ∈ list.tokens, P t := by
  refine List.forall_mem_cons.2 ⟨hword _ (by decide), List.forall_mem_append.2 ⟨fun t ht => ?_, List.forall_mem_singleton.2 (hword _ (by decide))⟩⟩
  obtain rfl | ⟨row, hrow, ht⟩ := mem_listTokens ht
  · exact hword _ (by decide)
  · obtain ⟨i, -, rfl⟩ := List.mem_map.1 hrow
    exact i.forall_tokens hname hword t ht

/-- What holds of names, of the words of a clause and of its marks holds of the tokens of a clause. -/
theorem Clause.forall_tokens (clause : Clause) : ∀ t ∈ clause.tokens, P t := by
  cases clause with
  | default_ name => exact List.forall_mem_singleton.2 (hname name)
  | named list => exact list.forall_tokens hname hword
  | both name list => exact List.forall_mem_cons.2 ⟨hname name, List.forall_mem_cons.2 ⟨hword _ (by decide), list.forall_tokens hname hword⟩⟩
  | everything name =>
    exact List.forall_mem_cons.2 ⟨hword _ (by decide), List.forall_mem_cons.2 ⟨hword _ (by decide), List.forall_mem_singleton.2 (hname name)⟩⟩

/-- What holds of names, and of the words and marks around them, holds of all tokens of a declaration. -/
theorem Form.forall_tokens (f : Form) : ∀ t ∈ f.keyword :: f.wordsBehind, P t := by
  refine List.forall_mem_cons.2 ⟨?_, ?_⟩
  · rcases f.keyword_eq with h | h <;> rw [h] <;> exact hword _ (by decide)
  cases f with
  | withFrom exported typeOnly clause s =>
    refine List.forall_mem_append.2 ⟨?_, List.forall_mem_append.2 ⟨clause.forall_tokens hname hword,
      List.forall_mem_singleton.2 (hword _ (by decide))⟩⟩
    cases typeOnly with
    | false => exact nofun
    | true => exact List.forall_mem_singleton.2 (hword _ (by decide))
  | bare s => exact nofun
  | exportList list => exact list.forall_tokens hname hword

end Tokens

section Fronts

/-- The words of a declaration have no commas, brackets and braces. -/
theorem isPlain_of_mem_words {t : Text} (h : t ∈ ["import".text, "export".text, "type".text, "from".text]) : IsPlain t := by
  have hall : ∀ t ∈ ["import".text, "export".text, "type".text, "from".text], IsPlain t := by
    unfold IsPlain
    decide
  exact hall t h

/-- Neither do the keywords. -/
theorem Form.isPlain_keyword (f : Form) : IsPlain f.keyword := by
  rcases f.keyword_eq with h | h <;> rw [h] <;> exact isPlain_of_mem_words (by decide)

/-- What comes behind the keyword is kept apart from it. -/
theorem Form.mayTouch_keyword (f : Form) {u : Text} {us : List Text} (h : f.wordsBehind = u :: us) : mayTouch f.keyword u = false := by
  refine mayTouch_eq_false f.isPlain_keyword ?_
  cases f with
  | withFrom exported typeOnly clause s =>
    cases typeOnly with
    | true =>
      obtain ⟨rfl, -⟩ := List.cons.inj h
      decide
    | false =>
      obtain ⟨v, vs, htokens, hv⟩ := clause.exists_tokens
      rw [Form.wordsBehind, if_neg Bool.false_ne_true, List.nil_append, htokens] at h
      exact (List.cons.inj h).1 ▸ hv
  | bare s => nomatch h
  | exportList list =>
    obtain ⟨rfl, -⟩ := List.cons.inj h
    decide

/-- Only a bare import has no words behind its keyword. -/
theorem Form.isBare_of_wordsBehind (f : Form) (h : f.wordsBehind = []) : f.IsBare := by
  cases f with
  | withFrom exported typeOnly clause s =>
    exact absurd h (List.append_ne_nil_of_right_ne_nil _ (List.append_ne_nil_of_right_ne_nil _ (List.cons_ne_nil _ _)))
  | bare s => trivial
  | exportList list => nomatch h

/-- A declaration begins with its keyword and a space. -/
theorem ModuleDeclaration.exists_front (d : ModuleDeclaration) : ∃ n x, d.front = List.replicate n ' ' ++ (d.form.keyword ++ ' ' :: x) ∧
    Spells d.form.wordsBehind x := by
  have hspells := d.front_spells
  cases hwords : d.form.wordsBehind with
  | nil =>
    rw [hwords] at hspells
    obtain ⟨n, k, hfront, htoken⟩ := hspells.exists_single
    cases k with
    | zero =>
      have hlast := d.front_gap (d.form.isBare_of_wordsBehind hwords)
      rw [hfront, List.replicate_zero, List.append_nil] at hlast
      exact absurd (htoken.getLast? _ ' ' hlast) (by decide)
    | succ k => exact ⟨n, List.replicate k ' ', hfront, .spaces k⟩
  | cons u us =>
    rw [hwords] at hspells
    exact hspells.exists_gap (d.form.mayTouch_keyword hwords)

end Fronts

/-! ## Written declarations -/

section Written

/-- The words of a form are tokens. -/
theorem isToken_of_mem_formWords : ∀ t ∈ formWords, IsToken t := by
  unfold IsToken
  decide

/-- The keyword of a form and the words behind it are tokens. -/
theorem Form.isToken (f : Form) : ∀ t ∈ f.keyword :: f.wordsBehind, IsToken t := f.forall_tokens Name.isToken isToken_of_mem_formWords

/-- A declaration written with one space between its words. -/
def Form.written (f : Form) (semicolon : Bool) : ModuleDeclaration where
  form := f
  semicolon := semicolon
  front := [' '].intercalate (f.keyword :: f.wordsBehind) ++ List.replicate (if f.specifier?.isSome then 1 else 0) ' '
  rear := if semicolon then ";".text else []
  front_spells := (Spells.of_tokens f.isToken).before_spaces _
  front_gap h := by
    cases f with
    | bare s => exact List.getLast?_concat
    | withFrom exported typeOnly clause s => exact h.elim
    | exportList list => exact h.elim
  rear_spells := by
    cases semicolon with
    | false => exact .spaces 0
    | true => exact .of_tokens (by unfold IsToken; decide)

end Written

end CodeAtlas.TypeScript
