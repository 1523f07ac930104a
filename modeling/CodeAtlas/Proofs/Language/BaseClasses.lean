import CodeAtlas.Language.Python.Declarations
import CodeAtlas.Proofs.Pattern.Fits
import CodeAtlas.Proofs.Text.Split
import CodeAtlas.Proofs.Text.Trim
import Mathlib.Data.List.Basic
import Mathlib.Data.List.TakeWhile

/-!
# The base classes of a header

The arguments in a class header are cut at every comma, those inside brackets too, and each piece is judged by itself. The first piece of
an argument should read as its base class, if it is one, and the other pieces, which stand inside brackets, as nothing. Both can go wrong:
the first is lost with an assignment in it, and one of the others is taken for a base class when it is a bare name or a name in front of a
bracket.
-/

namespace CodeAtlas.Python

open Text Pattern

/-- A name in a class header has no blanks and none of the marks that arguments are told apart by. -/
structure HeaderName where
  text : Text
  ne_nil : text ≠ []
  plain : ∀ c ∈ text, isBlank c = false ∧ among ",=[*" c = false

/-- What an argument in a class header is. -/
inductive ArgumentForm where
  /-- A base class, with the content of its subscript if it has one. -/
  | base (name : HeaderName) (subscript : Option Text)
  | keyword (name : HeaderName) (value : Text)
  | starred (value : Text)

/-- How the argument is written. -/
def ArgumentForm.text : ArgumentForm → Text
  | base n none => n.text
  | base n (some inside) => n.text ++ '[' :: (inside ++ [']'])
  | keyword n value => n.text ++ '=' :: value
  | starred value => '*' :: value

/-- An argument in a class header with the blanks around it. -/
structure ClassArgument where
  before : Text
  form : ArgumentForm
  after : Text
  before_blank : ∀ c ∈ before, isBlank c = true
  after_blank : ∀ c ∈ after, isBlank c = true

/-- Whether a text is an identifier that begins with an ASCII letter or an underscore. -/
def isIdentifier : Text → Bool
  | [] => false
  | c :: r => isNameStart c && r.all isWordChar

/-- What stands in front of the first bracket of a text, without the blanks around it. -/
def leadingName (t : Text) : Text := strip (t.before "[")

/-- A piece of a header reads as a base class when nothing is assigned in it and it leads with an identifier, though not `object`. -/
def ReadsAsBase (piece : Text) : Prop := '=' ∉ piece ∧ isIdentifier (leadingName piece) = true ∧ leadingName piece ≠ "object".text

/-- Whether a piece reads as a base is decided by its characters. -/
instance (piece : Text) : Decidable (ReadsAsBase piece) := inferInstanceAs (Decidable (_ ∧ _ ∧ _))

namespace ClassArgument

/-- How the argument is written. -/
def text (a : ClassArgument) : Text := a.before ++ (a.form.text ++ a.after)

/-- The class that an argument makes a base, unless it is `object`. -/
def base? (a : ClassArgument) : Option String :=
  match a.form with
  | .base n _ => if n.text = "object".text then none else some (String.ofList n.text)
  | _ => none

/-- The argument up to its first comma. -/
def first (a : ClassArgument) : Text := a.text.takeWhile (· != ',')

/-- The pieces between and behind the commas of the argument. -/
def inner (a : ClassArgument) : List Text := (splitOn ',' a.text).tail

/-- If the argument is a base class, its name is an identifier that is read, and nothing is assigned in front of its first comma. -/
def NameIsRead (a : ClassArgument) : Prop := ∀ s ∈ a.base?, isIdentifier s.text = true ∧ '=' ∉ a.first

/-- No piece behind a comma of the argument reads as a base class. -/
def InnerDropped (a : ClassArgument) : Prop := ∀ piece ∈ a.inner, ¬ReadsAsBase piece

/-- Whether the name of a base is read is decided by what stands before its subscript. -/
instance (a : ClassArgument) : Decidable a.NameIsRead := inferInstanceAs (Decidable (∀ s ∈ a.base?, _))

/-- Whether the pieces inside are dropped is decided one by one. -/
instance (a : ClassArgument) : Decidable a.InnerDropped := inferInstanceAs (Decidable (∀ piece ∈ a.inner, _))

end ClassArgument

/-! ## One piece -/

section Piece

variable {t piece b e : Text} {c : Char}

/-- The pattern of an identifier fits exactly the identifiers. -/
theorem isWhole_identifier (t : Text) : identifier.isWhole t = isIdentifier t := by
  refine Bool.eq_iff_iff.2 ⟨fun h => ?_, fun h => ?_⟩
  · obtain ⟨s', hfits, hend⟩ := fits_of_isWhole h
    obtain ⟨m, hone, hmany⟩ := fits_append_iff.1 hfits
    obtain ⟨c, r, hrest, hc, rfl⟩ := fits_one_iff.1 hone
    obtain ⟨w, r', hr, hw, rfl⟩ := fits_any0_iff.1 hmany
    obtain rfl : t = c :: r := hrest
    obtain rfl : r = w ++ r' := hr
    obtain rfl : r' = [] := hend
    rw [List.append_nil, isIdentifier, hc, Bool.true_and]
    exact List.all_eq_true.2 hw
  · cases t with
    | nil => nomatch h
    | cons c r =>
      obtain ⟨hc, hr⟩ := Bool.and_eq_true_iff.1 h
      have hone : Fits (one isNameStart) ⟨Place.ofText (c :: r), []⟩ (Progress.after ⟨Place.ofText (c :: r), []⟩ [c] r) :=
        fits_one_iff.2 ⟨c, r, rfl, hc, rfl⟩
      have hmany : Fits (any0 isWordChar) (Progress.after ⟨Place.ofText (c :: r), []⟩ [c] r) _ :=
        fits_any0_iff.2 ⟨r, [], (List.append_nil r).symm, List.all_eq_true.1 hr, rfl⟩
      have hfits : Fits identifier ⟨Place.ofText (c :: r), []⟩ _ := fits_append_iff.2 ⟨_, hone, hmany⟩
      have hstarFree : identifier.StarFree := ⟨trivial, trivial⟩
      exact isSome_run_of_fits hstarFree hfits rfl

/-- A character that may begin a name is a word character. -/
theorem isWordChar_of_isNameStart (h : isNameStart c = true) : isWordChar c = true := by
  rcases Bool.or_eq_true_iff.1 h with h | h <;> simp [isWordChar, Char.isAlphanum, h]

/-- An identifier is made of word characters. -/
theorem isWordChar_of_isIdentifier (h : isIdentifier t = true) : ∀ c ∈ t, isWordChar c = true := by
  cases t with
  | nil => nomatch h
  | cons c r =>
    obtain ⟨hc, hr⟩ := Bool.and_eq_true_iff.1 h
    exact List.forall_mem_cons.2 ⟨isWordChar_of_isNameStart hc, List.all_eq_true.1 hr⟩

/-- Text without a mark stays as it is in front of the mark. -/
theorem takeWhile_of_not_mem {d : Char} (h : d ∉ t) (r : Text) : (t ++ r).takeWhile (· != d) = t ++ r.takeWhile (· != d) :=
  List.takeWhile_append_of_pos fun _ hc => bne_iff_ne.2 fun e => h (e ▸ hc)

/-- Without the mark, all of the text stays. -/
theorem takeWhile_eq_self {d : Char} (h : d ∉ t) : t.takeWhile (· != d) = t :=
  List.takeWhile_eq_self_iff.2 fun _ hc => bne_iff_ne.2 fun e => h (e ▸ hc)

/-- What is before a bracket are the characters up to the first one. -/
theorem before_bracket (t : Text) : t.before "[" = t.takeWhile (· != '[') := by
  by_cases h : '[' ∈ t
  · obtain ⟨a, r, rfl, ha⟩ := List.eq_append_cons_of_mem h
    rw [takeWhile_of_not_mem ha, List.takeWhile_cons_of_neg (by simp), List.append_nil]
    exact before_append ha r
  · rw [takeWhile_eq_self h]
    exact before_of_not_mem h

/-- Blanks hold no mark. -/
theorem not_mem_of_blank {d : Char} (hd : isBlank d = false) (h : ∀ c ∈ t, isBlank c = true) : d ∉ t :=
  fun hmem => Bool.false_ne_true (hd.symm.trans (h d hmem))

/-- The blanks around a piece make no difference to what it leads with. -/
theorem leadingName_append (hb : ∀ c ∈ b, isBlank c = true) (he : ∀ c ∈ e, isBlank c = true) (t : Text) :
    leadingName (b ++ (t ++ e)) = leadingName t := by
  have hbracket : isBlank '[' = false := by decide
  have hrest : e.takeWhile (· != '[') = e := takeWhile_eq_self (not_mem_of_blank hbracket he)
  rw [leadingName, leadingName, before_bracket, before_bracket, takeWhile_of_not_mem (not_mem_of_blank hbracket hb), strip,
    trim_append_left hb, List.takeWhile_append]
  split
  · rename_i hlength
    rw [hrest, trim_append_right he, (List.takeWhile_sublist _).eq_of_length hlength]
    rfl
  · rfl

/-- The leading name of a text does not depend on the blanks around it. -/
theorem leadingName_strip (t : Text) : leadingName (strip t) = leadingName t := by
  obtain ⟨b, e, ht, hb, he⟩ := exists_trim isBlank t
  calc leadingName (strip t) = leadingName (b ++ (strip t ++ e)) := (leadingName_append hb he _).symm
    _ = leadingName t := congrArg leadingName ht.symm

/-- Every character in front of the first bracket that is not blank is part of the leading name. -/
theorem mem_leadingName (hc : c ∈ t.takeWhile (· != '[')) (hblank : isBlank c = false) : c ∈ leadingName t := by
  rw [leadingName, before_bracket]
  exact mem_trim hc hblank

/-- What a piece of a header is read as. -/
def baseName? (piece : Text) : Option String :=
  if ReadsAsBase piece then some (String.ofList (leadingName piece)) else none

/-- A star is not part of an identifier. -/
theorem isIdentifier_of_star (h : '*' ∈ t.takeWhile (· != '[')) : isIdentifier (leadingName t) = false := by
  refine Bool.eq_false_iff.2 fun hname => ?_
  exact absurd (isWordChar_of_isIdentifier hname '*' (mem_leadingName h (by decide))) (by decide)

/-- A header is cut at its commas, and the pieces that read as base classes are kept. -/
theorem baseClassNames_eq (raw : Text) : baseClassNames raw = (splitOn ',' raw).filterMap baseName? := by
  rw [baseClassNames]
  congr 1
  funext piece
  have hequals : (strip piece).contains '=' = decide ('=' ∈ piece) := by
    rw [Bool.eq_iff_iff, List.contains_iff_mem, strip, mem_trim_iff (by decide), decide_eq_true_iff]
  have hname : strip (before (strip piece) "[") = leadingName piece := leadingName_strip piece
  dsimp only
  rw [hname, hequals, isWhole_identifier]
  by_cases hread : ReadsAsBase piece
  · obtain ⟨hassigned, hidentifier, hobject⟩ := hread
    have hnonempty : (strip piece).isEmpty = false := by
      refine Bool.eq_false_iff.2 fun hempty => ?_
      rw [List.isEmpty_iff.1 hempty] at hname
      exact absurd (hname ▸ hidentifier) (by decide)
    have hstar : startsWith (strip piece) "*" = false := by
      refine Bool.eq_false_iff.2 fun hstarts => ?_
      obtain ⟨r, hr⟩ := List.isPrefixOf_iff_prefix.1 hstarts
      have hmem : '*' ∈ (strip piece).takeWhile (· != '[') := hr ▸ List.mem_cons_self
      rw [← leadingName_strip, isIdentifier_of_star hmem] at hidentifier
      nomatch hidentifier
    have hread : baseName? piece = some (String.ofList (leadingName piece)) := if_pos ⟨hassigned, hidentifier, hobject⟩
    rw [hread, if_neg (by simp [hnonempty, hstar, hassigned]), if_pos]
    exact Bool.and_eq_true_iff.2 ⟨hidentifier, bne_iff_ne.2 hobject⟩
  · rw [baseName?, if_neg hread]
    split
    · rfl
    · rename_i hkept
      refine if_neg fun hboth => hread ?_
      simp only [Bool.or_eq_true, decide_eq_true_iff, not_or] at hkept
      simp only [Bool.and_eq_true, bne_iff_ne] at hboth
      exact ⟨hkept.1.2, hboth⟩

/-- A piece gives no base exactly if it does not read as one. -/
theorem baseName?_eq_none_iff : baseName? piece = none ↔ ¬ReadsAsBase piece := by
  unfold baseName?
  split <;> simp [*]

end Piece

/-! ## One argument -/

section Argument

/-- The first piece between commas is what stands before the first comma. -/
theorem splitOn_eq_cons (t : Text) : ∃ ps, splitOn ',' t = t.takeWhile (· != ',') :: ps := by
  by_cases h : ',' ∈ t
  · obtain ⟨a, r, rfl, ha⟩ := List.eq_append_cons_of_mem h
    rw [splitOn_append, splitOn_of_not_mem ha, takeWhile_of_not_mem ha, List.takeWhile_cons_of_neg (by simp), List.append_nil]
    exact ⟨splitOn ',' r, rfl⟩
  · rw [takeWhile_eq_self h, splitOn_of_not_mem h]
    exact ⟨[], rfl⟩

/-- A name in a header has no comma, bracket, star or sign of equality. -/
theorem HeaderName.not_mem (n : HeaderName) {d : Char} (hd : among ",=[*" d = true) : d ∉ n.text :=
  fun h => Bool.false_ne_true ((n.plain d h).2.symm.trans hd)

/-- A name in a header has no blanks around it. -/
theorem HeaderName.strip_eq (n : HeaderName) : strip n.text = n.text :=
  trim_eq_self (fun c hc => (n.plain c (List.mem_of_mem_head? hc)).1) fun c hc => (n.plain c (List.mem_of_mem_getLast? hc)).1

variable (a : ClassArgument)

namespace ClassArgument

/-- At commas an argument falls into its first piece and those inside. -/
theorem splitOn_text : splitOn ',' a.text = a.first :: a.inner := by
  obtain ⟨ps, hps⟩ := splitOn_eq_cons a.text
  rw [inner, hps, first, List.tail_cons]

/-- The first piece of an argument that begins with a name and, behind it, no comma yet. -/
theorem first_of_name {n : HeaderName} {r : Text} (h : a.form.text = n.text ++ r) :
    a.first = a.before ++ (n.text ++ (r ++ a.after).takeWhile (· != ',')) := by
  rw [first, text, h, List.append_assoc, takeWhile_of_not_mem (not_mem_of_blank (by decide) a.before_blank),
    takeWhile_of_not_mem (n.not_mem (by decide))]

/-- The leading name of a base is its name. -/
theorem leadingName_of_base {n : HeaderName} {subscript : Option Text} (h : a.form = .base n subscript) : leadingName a.first = n.text := by
  have hafter : ∀ d : Char, isBlank d = false → a.after.takeWhile (· != d) = a.after := fun _ hd =>
    takeWhile_eq_self (not_mem_of_blank hd a.after_blank)
  have hblank : ∃ e, a.first.takeWhile (· != '[') = a.before ++ (n.text ++ e) ∧ ∀ c ∈ e, isBlank c = true := by
    have hfirst : ∀ r, a.form.text = n.text ++ r →
        a.first.takeWhile (· != '[') = a.before ++ (n.text ++ ((r ++ a.after).takeWhile (· != ',')).takeWhile (· != '[')) := by
      intro r hr
      rw [a.first_of_name hr, takeWhile_of_not_mem (not_mem_of_blank (by decide) a.before_blank), takeWhile_of_not_mem (n.not_mem (by decide))]
    cases subscript with
    | none =>
      refine ⟨a.after, ?_, a.after_blank⟩
      rw [hfirst [] (by rw [h, ArgumentForm.text, List.append_nil]), List.nil_append, hafter ',' (by decide), hafter '[' (by decide)]
    | some inside => exact ⟨[], hfirst ('[' :: (inside ++ [']'])) (by rw [h, ArgumentForm.text]), List.forall_mem_nil _⟩
  obtain ⟨e, hfirst, he⟩ := hblank
  rw [leadingName, before_bracket, hfirst, strip, trim_append_left a.before_blank, trim_append_right he]
  exact n.strip_eq

/-- The first piece of an argument is read as the base class that it is, or it is lost. -/
theorem baseName?_first : baseName? a.first = if a.NameIsRead then a.base? else none := by
  cases hform : a.form with
  | base n subscript =>
    have hname := a.leadingName_of_base hform
    have hbase : a.base? = if n.text = "object".text then none else some (String.ofList n.text) := by rw [base?, hform]
    by_cases hobject : n.text = "object".text
    · rw [hbase, if_pos hobject, ite_self]
      exact if_neg fun hread => hread.2.2 (hname.trans hobject)
    · rw [if_neg hobject] at hbase
      have hreads : ReadsAsBase a.first ↔ a.NameIsRead := by
        have hsame : a.NameIsRead ↔ isIdentifier n.text = true ∧ '=' ∉ a.first := by simp [NameIsRead, hbase]
        rw [hsame]
        constructor
        · rintro ⟨hassigned, hidentifier, -⟩
          exact ⟨hname ▸ hidentifier, hassigned⟩
        · rintro ⟨hidentifier, hassigned⟩
          exact ⟨hassigned, hname.symm ▸ hidentifier, hname.symm ▸ hobject⟩
      by_cases h : a.NameIsRead
      · rw [if_pos h, hbase, ← hname]
        exact if_pos (hreads.2 h)
      · rw [if_neg h]
        exact if_neg (mt hreads.1 h)
  | keyword n value =>
    have hnone : a.base? = none := by rw [base?, hform]
    rw [hnone, ite_self, baseName?_eq_none_iff]
    intro hread
    refine hread.1 ?_
    rw [a.first_of_name (by rw [hform, ArgumentForm.text]), List.cons_append, List.takeWhile_cons_of_pos rfl]
    simp
  | starred value =>
    have hnone : a.base? = none := by rw [base?, hform]
    have hstar : '*' ∈ a.first.takeWhile (· != '[') := by
      rw [first, text, hform, ArgumentForm.text, takeWhile_of_not_mem (not_mem_of_blank (by decide) a.before_blank), List.cons_append,
        List.takeWhile_cons_of_pos rfl, takeWhile_of_not_mem (not_mem_of_blank (by decide) a.before_blank), List.takeWhile_cons_of_pos rfl]
      simp
    rw [hnone, ite_self, baseName?_eq_none_iff]
    exact fun hread => Bool.false_ne_true ((isIdentifier_of_star hstar).symm.trans hread.2.1)

/-- What is found in an argument: what its first piece is read as, and what the pieces behind its commas are. -/
def found : List String := (baseName? a.first).toList ++ a.inner.filterMap baseName?

/-- The bases that are found in an argument are those of its pieces. -/
theorem filterMap_splitOn : (splitOn ',' a.text).filterMap baseName? = a.found := by
  rw [splitOn_text, List.filterMap_cons, found]
  cases baseName? a.first <;> rfl

/-- No bases are found inside exactly if all pieces inside are dropped. -/
theorem filterMap_inner_eq_nil_iff : a.inner.filterMap baseName? = [] ↔ a.InnerDropped := by
  rw [List.filterMap_eq_nil_iff]
  exact forall_congr' fun piece => forall_congr' fun _ => baseName?_eq_none_iff

end ClassArgument

end Argument

/-! ## A whole header -/

section Header

/-- The bases of a header are those found in its arguments one by one. -/
theorem baseClassNames_join (ts : List Text) :
    baseClassNames (join "," ts) = ts.flatMap fun t => (splitOn ',' t).filterMap baseName? := by
  rw [baseClassNames_eq]
  induction ts with
  | nil => rfl
  | cons t ts ih =>
    cases ts with
    | nil => simp [join]
    | cons u ts =>
      have hjoin : join "," (t :: u :: ts) = t ++ ',' :: join "," (u :: ts) := by simp [join, List.intercalate_cons_cons]
      rw [hjoin, splitOn_append, List.filterMap_append, ih]
      rfl

/-- So it is for arguments as they are written. -/
theorem baseClassNames_arguments (args : List ClassArgument) : baseClassNames (join "," (args.map (·.text))) = args.flatMap (·.found) := by
  rw [baseClassNames_join, List.flatMap_map]
  congr 1
  funext a
  exact a.filterMap_splitOn

section Lengths

variable {α β : Type} {f g : α → List β} {l : List α}

/-- Lists that are no longer item by item are no longer together. -/
theorem length_flatMap_le (hle : ∀ x ∈ l, (f x).length ≤ (g x).length) : (l.flatMap f).length ≤ (l.flatMap g).length := by
  induction l with
  | nil => exact Nat.le_refl 0
  | cons x l ih =>
    rw [List.flatMap_cons, List.flatMap_cons, List.length_append, List.length_append]
    exact Nat.add_le_add (hle x List.mem_cons_self) (ih fun y hy => hle y (List.mem_cons_of_mem x hy))

/-- Where each list is at most as long as its counterpart and all together are as long, each is as long as its counterpart. -/
theorem length_eq_of_flatMap (hle : ∀ x ∈ l, (f x).length ≤ (g x).length) (h : (l.flatMap f).length = (l.flatMap g).length) :
    ∀ x ∈ l, (f x).length = (g x).length := by
  induction l with
  | nil => exact List.forall_mem_nil _
  | cons x l ih =>
    have hx := hle x List.mem_cons_self
    have hrest := fun y hy => hle y (List.mem_cons_of_mem x hy)
    have hlater := length_flatMap_le hrest
    rw [List.flatMap_cons, List.flatMap_cons, List.length_append, List.length_append] at h
    exact List.forall_mem_cons.2 ⟨by omega, ih hrest (by omega)⟩

end Lengths

namespace ClassArgument

variable {a : ClassArgument}

/-- Where the name of the base is read, what is found besides it is inside. -/
theorem found_of_nameIsRead (h : a.NameIsRead) : a.found = a.base?.toList ++ a.inner.filterMap baseName? := by
  rw [found, baseName?_first, if_pos h]

/-- Where the pieces inside are dropped, the name of the base is all that is found. -/
theorem found_of_innerDropped (h : a.InnerDropped) : a.found = (if a.NameIsRead then a.base? else none).toList := by
  rw [found, baseName?_first, a.filterMap_inner_eq_nil_iff.2 h, List.append_nil]

end ClassArgument

/-- Where only one of the two goes wrong, if any does, the base classes of a header are found as they stand in it exactly when the name of
each is read and no piece behind a comma is taken for one. -/
theorem baseClassNames_eq_iff (args : List ClassArgument) (h : (∀ a ∈ args, a.NameIsRead) ∨ ∀ a ∈ args, a.InnerDropped) :
    baseClassNames (join "," (args.map (·.text))) = args.filterMap (·.base?) ↔ ∀ a ∈ args, a.NameIsRead ∧ a.InnerDropped := by
  rw [baseClassNames_arguments, List.filterMap_eq_flatMap_toList]
  constructor
  · intro heq
    have hlength := congrArg List.length heq
    rcases h with hread | hdropped
    · have hle : ∀ a ∈ args, a.base?.toList.length ≤ a.found.length := by
        intro a ha
        rw [ClassArgument.found_of_nameIsRead (hread a ha), List.length_append]
        exact Nat.le_add_right _ _
      intro a ha
      have hsame := length_eq_of_flatMap hle hlength.symm a ha
      rw [ClassArgument.found_of_nameIsRead (hread a ha), List.length_append] at hsame
      have hinner : a.inner.filterMap baseName? = [] := List.eq_nil_of_length_eq_zero (by omega)
      exact ⟨hread a ha, a.filterMap_inner_eq_nil_iff.1 hinner⟩
    · have hle : ∀ a ∈ args, a.found.length ≤ a.base?.toList.length := by
        intro a ha
        rw [ClassArgument.found_of_innerDropped (hdropped a ha)]
        split
        · exact Nat.le_refl _
        · exact Nat.zero_le _
      intro a ha
      refine ⟨Classical.byContradiction fun hlost => ?_, hdropped a ha⟩
      have hsame := length_eq_of_flatMap hle hlength a ha
      rw [ClassArgument.found_of_innerDropped (hdropped a ha), if_neg hlost] at hsame
      have hnone : a.base? = none := by
        cases hbase : a.base? with
        | none => rfl
        | some s => rw [hbase] at hsame; nomatch hsame
      exact hlost fun s hs => nomatch hnone ▸ hs
  · intro hall
    have hfound : ∀ a ∈ args, a.found = a.base?.toList := by
      intro a ha
      rw [ClassArgument.found_of_innerDropped (hall a ha).2, if_pos (hall a ha).1]
    rw [List.flatMap_def, List.flatMap_def, List.map_congr_left hfound]

/-- A subscript with two types, a class, a keyword whose value has a comma in round brackets, `object` and a starred argument. -/
def plainHeader : List ClassArgument :=
  [⟨[], .base ⟨"Mapping".text, by decide, by decide⟩ (some "str, int".text), [], by decide, by decide⟩,
    ⟨" ".text, .base ⟨"Base".text, by decide, by decide⟩ none, [], by decide, by decide⟩,
    ⟨" ".text, .keyword ⟨"metaclass".text, by decide, by decide⟩ "make(A, 1)".text, [], by decide, by decide⟩,
    ⟨" ".text, .base ⟨"object".text, by decide, by decide⟩ none, [], by decide, by decide⟩,
    ⟨" ".text, .starred "mixins".text, " ".text, by decide, by decide⟩]

/-- The bases are found among arguments with a subscript, a keyword and a star. -/
theorem baseClassNames_plainHeader : (∀ a ∈ plainHeader, a.NameIsRead) ∧ (∀ a ∈ plainHeader, a.InnerDropped) ∧
    baseClassNames (join "," (plainHeader.map (·.text))) = ["Mapping", "Base"] := by
  have hread : ∀ a ∈ plainHeader, a.NameIsRead := by decide
  have hdropped : ∀ a ∈ plainHeader, a.InnerDropped := by decide
  have hnames : plainHeader.filterMap (·.base?) = ["Mapping", "Base"] := by decide
  exact ⟨hread, hdropped, ((baseClassNames_eq_iff plainHeader (Or.inl hread)).2 fun a ha => ⟨hread a ha, hdropped a ha⟩).trans hnames⟩

/-- A subscript with a generic type behind a comma. -/
def nestedSubscript : ClassArgument :=
  ⟨[], .base ⟨"Repository".text, by decide, by decide⟩ (some "User, Dict[str, int]".text), [], by decide, by decide⟩

/-- The generic type in the subscript is taken for a base class. -/
theorem baseClassNames_nestedSubscript : [nestedSubscript].filterMap (·.base?) = ["Repository"] ∧
    baseClassNames (join "," ([nestedSubscript].map (·.text))) = ["Repository", "Dict"] := by
  constructor <;> decide

end Header

end CodeAtlas.Python
