import CodeAtlas.Graph.CrossFile
import CodeAtlas.Proofs.Pattern.Fits
import CodeAtlas.Proofs.Text.Trim

/-!
# Where a name is called

A name is called in a text where no word character stands before it and only blanks stand between it and an opening bracket. One pattern
looks for many names at once, the longest first, and its matches do not overlap. It finds every call of every name all the same: a name
that is called is a whole word, and no word within a match but the last is called.
-/

namespace CodeAtlas

namespace Text

/-- The word characters below the table of letters. -/
def asciiWordRanges : List (Nat × Nat) := [(0x30, 0x39), (0x41, 0x5A), (0x5F, 0x5F), (0x61, 0x7A)]

/-- A word character is in one of the tables. -/
theorem inRanges_of_isWordChar {c : Char} (h : isWordChar c = true) :
    inRanges asciiWordRanges c = true ∨ inRanges letterRanges c = true := by
  have hbounds : '0'.val.toNat = 0x30 ∧ '9'.val.toNat = 0x39 ∧ 'A'.val.toNat = 0x41 ∧ 'Z'.val.toNat = 0x5A ∧
      'a'.val.toNat = 0x61 ∧ 'z'.val.toNat = 0x7A := by decide
  have hnat : c.val.toNat = c.toNat := rfl
  have halphanum : c.isAlphanum = (decide ('A'.val ≤ c.val ∧ c.val ≤ 'Z'.val) || (decide ('a'.val ≤ c.val) && decide (c.val ≤ 'z'.val)) ||
      (decide ('0'.val ≤ c.val) && decide (c.val ≤ '9'.val))) := rfl
  simp only [isWordChar, halphanum, Bool.or_eq_true, Bool.and_eq_true, decide_eq_true_eq, beq_iff_eq, UInt32.le_iff_toNat_le] at h
  rcases h with (h | rfl) | ⟨-, h⟩
  · simp only [asciiWordRanges, inRanges, List.any_cons, List.any_nil, Bool.or_eq_true, Bool.and_eq_true, decide_eq_true_eq]
    omega
  · exact Or.inl rfl
  · exact Or.inr h

/-- A blank is no word character. -/
theorem isWordChar_of_isBlank {c : Char} (h : isBlank c = true) : isWordChar c = false := by
  refine eq_false_of_ne_true fun hw => ?_
  rcases inRanges_of_isWordChar hw with hw | hw
  · rw [inRanges_eq_false_of_disjoint (by decide) h] at hw
    nomatch hw
  · rw [inRanges_eq_false_of_disjoint (by decide +kernel) h] at hw
    nomatch hw

end Text

namespace Calls

open Text Pattern

/-- A word: one or more word characters. -/
def IsWord (name : String) : Prop := name ≠ "" ∧ ∀ c ∈ name.text, isWordChar c = true

/-- A character that a name may have when the blanks and the bracket of its call are to end it. -/
def isNameChar (c : Char) : Bool := !isBlank c && c != '('

/-- A name without blanks and opening brackets. -/
def IsUnbroken (name : String) : Prop := name ≠ "" ∧ ∀ c ∈ name.text, isNameChar c = true

/-- A text that begins with a name and an opening bracket after it, with nothing but blanks between them. -/
def BeginsWithCall (name : String) (t : Text) : Prop :=
  ∃ blanks after, t = name.text ++ (blanks ++ '(' :: after) ∧ ∀ c ∈ blanks, isBlank c = true

/-- A place at which a name is called. -/
def CalledAt (name : String) (at_ : Place) : Prop := at_.before.any isWordChar = false ∧ BeginsWithCall name at_.rest

/-- A name is called in a text. -/
def CalledIn (name : String) (body : Text) : Prop :=
  ∃ before rest, body = before ++ rest ∧ before.getLast?.any isWordChar = false ∧ BeginsWithCall name rest

/-- A name is called in a text if it is called at some place in it. -/
theorem calledIn_iff {name : String} {body : Text} :
    CalledIn name body ↔ ∃ w r, body = w ++ r ∧ CalledAt name ((Place.ofText body).after w r) := by
  have hbefore : ∀ w r : Text, ((Place.ofText body).after w r).before = w.getLast? := fun w r => Option.or_none
  simp only [CalledIn, CalledAt, hbefore]
  rfl

section Words

variable {name name' : String} {t u v : Text}

/-- A word character may stand in a name. -/
theorem isNameChar_of_isWordChar {c : Char} (h : isWordChar c = true) : isNameChar c = true := by
  refine Bool.and_eq_true_iff.2 ⟨?_, bne_iff_ne.2 ?_⟩
  · rw [Bool.not_eq_true']
    exact eq_false_of_ne_true fun hblank => Bool.false_ne_true ((isWordChar_of_isBlank hblank).symm.trans h)
  · rintro rfl
    exact Bool.false_ne_true h

/-- A word is unbroken. -/
theorem IsWord.isUnbroken (h : IsWord name) : IsUnbroken name := ⟨h.1, fun c hc => isNameChar_of_isWordChar (h.2 c hc)⟩

/-- In front of the blanks and the bracket of a call stands its name. -/
theorem takeWhile_append_call {a blanks after : Text} (ha : ∀ c ∈ a, isNameChar c = true) (hblank : ∀ c ∈ blanks, isBlank c = true) :
    (a ++ (blanks ++ '(' :: after)).takeWhile isNameChar = a := by
  rw [List.takeWhile_append_of_pos ha]
  cases blanks with
  | nil => simp [show isNameChar '(' = false by decide]
  | cons c blanks => simp [isNameChar, hblank c List.mem_cons_self]

/-- So it is where a call begins. -/
theorem takeWhile_of_beginsWithCall (hname : IsUnbroken name) (h : BeginsWithCall name t) : t.takeWhile isNameChar = name.text := by
  obtain ⟨bl, after, rfl, hblank⟩ := h
  exact takeWhile_append_call hname.2 hblank

/-- At a place not more than one name is called. -/
theorem eq_of_beginsWithCall (hname : IsUnbroken name) (hname' : IsUnbroken name') (h : BeginsWithCall name t)
    (h' : BeginsWithCall name' t) : name = name' := by
  rw [← String.toList_inj]
  exact (takeWhile_of_beginsWithCall hname h).symm.trans (takeWhile_of_beginsWithCall hname' h')

/-- A word ends before a place that no word character stands before. -/
theorem exists_append_of_word {a c : Text} (ha : ∀ x ∈ a, isWordChar x = true) (h : a ++ c = u ++ v) (hu : u ≠ [])
    (hlast : u.getLast?.any isWordChar = false) : ∃ u', u' ≠ [] ∧ u = a ++ u' ∧ c = u' ++ v := by
  have hword : ∀ x, a ≠ u ++ x := by
    rintro x rfl
    rw [List.getLast?_eq_some_getLast hu, Option.any_some, ha _ (List.mem_append_left x (List.getLast_mem hu))] at hlast
    nomatch hlast
  rcases List.append_eq_append_iff.1 h with ⟨u', rfl, hc⟩ | ⟨x, hx, -⟩
  · refine ⟨u', ?_, rfl, hc⟩
    rintro rfl
    exact hword [] (by simp)
  · exact absurd hx (hword x)

/-- What has no character of a class ends before a place at which one stands. -/
theorem exists_append_of_gap {p : Char → Bool} {b c : Text} (hb : ∀ x ∈ b, p x = false) (h : b ++ c = u ++ v)
    (hv : v.head?.any p = true) : ∃ u', u = b ++ u' ∧ c = u' ++ v := by
  rcases List.append_eq_append_iff.1 h with ⟨u', rfl, hc⟩ | ⟨x, rfl, rfl⟩
  · exact ⟨u', rfl, hc⟩
  · cases x with
    | nil => exact ⟨[], by simp, rfl⟩
    | cons d x =>
      have hd := hb d (by simp)
      rw [List.cons_append, List.head?_cons, Option.any_some, hd] at hv
      nomatch hv

/-- A call begins with the first character of its name. -/
theorem BeginsWithCall.head {p : Char → Bool} (hname : name ≠ "" ∧ ∀ c ∈ name.text, p c = true) (h : BeginsWithCall name t) :
    t.head?.any p = true := by
  obtain ⟨bl, after, rfl, -⟩ := h
  cases htext : name.text with
  | nil => exact absurd (String.toList_eq_nil_iff.1 htext) hname.1
  | cons c r =>
    rw [List.cons_append, List.head?_cons, Option.any_some]
    exact hname.2 c (htext ▸ List.mem_cons_self)

/-- No word begins between the name of a call and its bracket. -/
theorem exists_append_of_call {blanks after : Text} (hname : IsWord name) (hblank : ∀ c ∈ blanks, isBlank c = true)
    (h : name.text ++ (blanks ++ '(' :: after) = u ++ v) (hu : u ≠ []) (hlast : u.getLast?.any isWordChar = false)
    (hv : v.head?.any isWordChar = true) : ∃ u', u = name.text ++ (blanks ++ '(' :: u') := by
  obtain ⟨u', -, rfl, hrest⟩ := exists_append_of_word hname.2 h hu hlast
  have hgap : ∀ x ∈ blanks ++ ['('], isWordChar x = false := by
    intro x hx
    rcases List.mem_append.1 hx with hx | hx
    · exact isWordChar_of_isBlank (hblank x hx)
    · rw [List.mem_singleton.1 hx]
      decide
  obtain ⟨u'', rfl, -⟩ := exists_append_of_gap (c := after) hgap (by simpa using hrest) hv
  exact ⟨u'', by simp⟩

end Words

/-- The word that may stand before the name of a class of which an instance is made, with the blanks after it. -/
def IsNewGap (w : Text) : Prop := ∃ gap, gap ≠ [] ∧ (∀ c ∈ gap, isBlank c = true) ∧ w = "new".text ++ gap

/-- The word `new` and a gap do not end in a word character. -/
theorem getLast?_newGap {w : Text} (h : IsNewGap w) : w.getLast?.any isWordChar = false := by
  obtain ⟨gap, hne, hgap, rfl⟩ := h
  rw [List.getLast?_append, List.getLast?_eq_some_getLast hne, Option.some_or, Option.any_some]
  exact isWordChar_of_isBlank (hgap _ (List.getLast_mem hne))

/-- A pattern that stands before the name of a call: the edge of a word, perhaps with `new` after it. -/
structure IsLead (lead : Pattern) : Prop where
  starFree : lead.StarFree
  bare : ∀ {s : Progress}, Fits edge s s → Fits lead s s
  fits : ∀ {s m : Progress}, Fits lead s m → Fits edge s s ∧ ∃ w r, (w = [] ∨ IsNewGap w) ∧ s.place.rest = w ++ r ∧ m = s.after w r

/-- The edge of a word may lead a call. -/
theorem isLead_edge : IsLead edge := by
  refine ⟨trivial, id, fun {s m} h => ?_⟩
  obtain ⟨-, rfl⟩ := fits_here_iff.1 h
  exact ⟨h, [], m.place.rest, Or.inl rfl, rfl, rfl⟩

/-- So may the word `new`. -/
theorem isLead_edgeOrNew : IsLead (edge ++ "new" ++ gap <|> edge) := by
  refine ⟨⟨⟨⟨trivial, starFree_lit "new"⟩, trivial, trivial⟩, trivial⟩, fun h => fits_orElse_iff.2 (Or.inr h), fun {s m} h => ?_⟩
  rcases fits_orElse_iff.1 h with h | h
  · obtain ⟨m₂, h, hgap⟩ := fits_append_iff.1 h
    obtain ⟨m₁, hedge, hnew⟩ := fits_append_iff.1 h
    obtain ⟨-, rfl⟩ := fits_here_iff.1 hedge
    obtain ⟨r, hr, rfl⟩ := fits_lit_iff.1 hnew
    obtain ⟨w, r', hne, hr', hw, rfl⟩ := fits_some1_iff.1 hgap
    have hr' : r = w ++ r' := hr'
    refine ⟨hedge, "new".text ++ w, r', Or.inr ⟨w, hne, hw, rfl⟩, by rw [hr, hr', List.append_assoc], after_append _ _ _ _⟩
  · exact isLead_edge.fits h

/-- What a match of a call site is made of, at the place where it begins. -/
structure IsSite (at_ : Place) (m : Match) (lead : Text) (name : String) (blanks after : Text) : Prop where
  rest : at_.rest = lead ++ (name.text ++ (blanks ++ '(' :: after))
  before : at_.before.any isWordChar = false
  opening : lead = [] ∨ IsNewGap lead
  blank : ∀ c ∈ blanks, isBlank c = true
  length : m.text.length = lead.length + (name.text.length + (blanks.length + 1))
  named : m.get .name = name.text

section Sites

variable {lead : Pattern} {names : List String} {name : String} {at_ : Place} {m : Match}

/-- A call site of one of some names, after what stands before the name. -/
def siteAfter (lead : Pattern) (names : List String) : Pattern :=
  lead ++ .part .name (oneOfWords (ordered names)) ++ blanks ++ "("

/-- The pattern of calls repeats characters only. -/
theorem starFree_siteAfter (hlead : IsLead lead) : (siteAfter lead names).StarFree :=
  ⟨⟨⟨hlead.starFree, starFree_oneOfWords _⟩, trivial⟩, starFree_lit "("⟩

/-- Names are looked for in another order, and are the same ones. -/
theorem mem_ordered : name ∈ ordered names ↔ name ∈ names := List.mem_mergeSort

/-- The edge of a word before a text that begins with one has no word character before it. -/
theorem before_of_edge {s : Progress} (hedge : Fits edge s s) (hrest : s.place.rest.head?.any isWordChar = true) :
    s.place.before.any isWordChar = false := by
  have h := (fits_here_iff.1 hedge).1
  rw [hrest] at h
  simpa using h

/-- What a match of a call site is made of, after what stands before the name. -/
theorem fits_of_matchAt_siteAfter (h : (siteAfter lead names).matchAt (fun _ => true) at_ = some m) :
    ∃ s, Fits lead ⟨at_, []⟩ s ∧ ∃ name ∈ names, ∃ blanks after, s.place.rest = name.text ++ (blanks ++ '(' :: after) ∧
      (∀ c ∈ blanks, isBlank c = true) ∧
      m.text = at_.rest.take (s.place.offset + (name.text.length + (blanks.length + 1)) - at_.offset) ∧
      m.get .name = name.text := by
  obtain ⟨s', hfits, htext, hparts⟩ := fits_of_matchAt h
  obtain ⟨m₃, hfits, hbracket⟩ := fits_append_iff.1 hfits
  obtain ⟨m₂, hfits, hblanks⟩ := fits_append_iff.1 hfits
  obtain ⟨s, hlead, hpart⟩ := fits_append_iff.1 hfits
  obtain ⟨m', hword, rfl⟩ := fits_part_iff.1 hpart
  obtain ⟨name, hname, hlit⟩ := fits_oneOfWords_iff.1 hword
  obtain ⟨r₂, hr₂, rfl⟩ := fits_lit_iff.1 hlit
  obtain ⟨bl, r₃, hr₃, hblank, rfl⟩ := fits_any0_iff.1 hblanks
  obtain ⟨after, hr₄, rfl⟩ := fits_lit_iff.1 hbracket
  have hr₃ : r₂ = bl ++ r₃ := hr₃
  have hr₄ : r₃ = '(' :: after := hr₄
  have hbracket : "(".text.length = 1 := rfl
  refine ⟨s, hlead, name, mem_ordered.1 hname, bl, after, by rw [hr₂, hr₃, hr₄], hblank, ?_, ?_⟩
  · rw [htext]
    simp only [Progress.after, Place.after, hbracket, Nat.add_assoc]
  · rw [Match.get, Match.get?, hparts]
    simp [MarkedPart.text, Progress.after, Place.after, hr₂]

/-- A match is a call of one of the names. -/
theorem exists_isSite (hlead : IsLead lead) (hnames : ∀ name ∈ names, IsWord name)
    (h : (siteAfter lead names).matchAt (fun _ => true) at_ = some m) :
    ∃ name ∈ names, ∃ lead blanks after, IsSite at_ m lead name blanks after := by
  obtain ⟨s, hfits, name, hmem, bl, after, hrest, hblank, htext, hname⟩ := fits_of_matchAt_siteAfter h
  obtain ⟨hedge, w, r, hw, hr, rfl⟩ := hlead.fits hfits
  obtain rfl : r = name.text ++ (bl ++ '(' :: after) := hrest
  have hr : at_.rest = w ++ (name.text ++ (bl ++ '(' :: after)) := hr
  have hhead : at_.rest.head?.any isWordChar = true := by
    rw [hr]
    rcases hw with rfl | ⟨gap, -, -, rfl⟩
    · exact BeginsWithCall.head (hnames name hmem) ⟨bl, after, rfl, hblank⟩
    · rfl
  refine ⟨name, hmem, w, bl, after, hr, before_of_edge hedge hhead, hw, hblank, ?_, hname⟩
  rw [htext, hr]
  simp only [Progress.after, Place.after, List.length_take, List.length_append, List.length_cons]
  omega

/-- At the edge of a word, a call of one of the names makes a match. -/
theorem exists_matchAt_of_edge (hlead : IsLead lead) (hmem : name ∈ names) (hedge : Fits edge ⟨at_, []⟩ ⟨at_, []⟩)
    (h : BeginsWithCall name at_.rest) : ∃ m, (siteAfter lead names).matchAt (fun _ => true) at_ = some m := by
  obtain ⟨bl, after, hrest, hblank⟩ := h
  have hword : Fits (.part .name (oneOfWords (ordered names))) ⟨at_, []⟩ _ :=
    fits_part_iff.2 ⟨_, fits_oneOfWords_iff.2 ⟨name, mem_ordered.2 hmem, fits_lit_iff.2 ⟨_, hrest, rfl⟩⟩, rfl⟩
  exact exists_matchAt_of_fits (starFree_siteAfter hlead)
    (.seq (.seq (.seq (hlead.bare hedge) hword) (fits_any0_iff.2 ⟨bl, '(' :: after, rfl, hblank, rfl⟩))
      (fits_lit_iff.2 ⟨after, rfl, rfl⟩))

/-- Where a name is called, its call site matches. -/
theorem exists_matchAt_of_calledAt (hlead : IsLead lead) (hmem : name ∈ names) (hname : IsWord name) (h : CalledAt name at_) :
    ∃ m, (siteAfter lead names).matchAt (fun _ => true) at_ = some m := by
  refine exists_matchAt_of_edge hlead hmem (fits_here_iff.2 ⟨?_, rfl⟩) h.2
  have hhead : at_.rest.head?.any isWordChar = true := h.2.head hname
  simp [h.1, hhead]

namespace IsSite

variable {opening bl after : Text} {name' : String}

/-- Where a match is, its name is called. -/
theorem calledAt (h : IsSite at_ m opening name bl after) :
    CalledAt name (at_.after opening (name.text ++ (bl ++ '(' :: after))) := by
  refine ⟨?_, bl, after, rfl, h.blank⟩
  rcases h.opening with rfl | hgap
  · exact h.before
  · have hlast := getLast?_newGap hgap
    rw [Place.after]
    cases hopening : opening.getLast? with
    | none => exact h.before
    | some c => rwa [hopening] at hlast

/-- The match that begins where a name is called is one of that name. -/
theorem eq_of_calledAt (h : IsSite at_ m opening name bl after) (hname : IsWord name) (hname' : IsWord name')
    (hcalled : CalledAt name' at_) : name' = name := by
  obtain ⟨-, hbegins⟩ := hcalled
  rw [h.rest] at hbegins
  rcases h.opening with rfl | ⟨gap, hne, hgap, rfl⟩
  · exact eq_of_beginsWithCall hname'.isUnbroken hname.isUnbroken hbegins ⟨bl, after, rfl, h.blank⟩
  · obtain ⟨bl', after', hcall, hblank'⟩ := hbegins
    have hhead := BeginsWithCall.head hname ⟨bl, after, rfl, h.blank⟩
    obtain ⟨u, hu⟩ := exists_append_of_call hname' hblank' hcall.symm (by simp) (getLast?_newGap ⟨gap, hne, hgap, rfl⟩) hhead
    have hbracket : '(' ∈ "new".text ++ gap := hu ▸ by simp
    rcases List.mem_append.1 hbracket with hmem | hmem
    · exact absurd hmem (by decide)
    · exact absurd (hgap _ hmem) (by decide)

/-- A name that is called within a match is the name of the match. -/
theorem eq_of_within (h : IsSite at_ m opening name bl after) (hname : IsWord name) (hname' : IsWord name') {u r : Text}
    (hrest : at_.rest = u ++ r) (hu : u ≠ []) (hlast : u.getLast?.any isWordChar = false) (hbegins : BeginsWithCall name' r)
    (hwithin : u.length < m.text.length) : name' = name := by
  have hhead := hbegins.head hname'
  have hsplit := h.rest.symm.trans hrest
  have hlength := h.length
  have hbefore : ∀ {v}, name.text ++ (bl ++ '(' :: after) = v ++ r → v ≠ [] → v.getLast?.any isWordChar = false →
      name.text.length + (bl.length + 1) ≤ v.length := by
    intro v hv hne hnone
    obtain ⟨v', rfl⟩ := exists_append_of_call hname h.blank hv hne hnone hhead
    simp only [List.length_append, List.length_cons]
    omega
  rcases h.opening with rfl | ⟨gap, hne, hgap, rfl⟩
  · have hle := hbefore hsplit hu hlast
    rw [List.length_nil] at hlength
    omega
  · rw [List.append_assoc] at hsplit
    obtain ⟨u', -, rfl, hgaps⟩ := exists_append_of_word (List.all_eq_true.1 rfl) hsplit hu hlast
    obtain ⟨u'', rfl, hcall⟩ := exists_append_of_gap (fun c hc => isWordChar_of_isBlank (hgap c hc)) hgaps hhead
    cases u'' with
    | nil => exact eq_of_beginsWithCall hname'.isUnbroken hname.isUnbroken hbegins ⟨bl, after, hcall.symm, h.blank⟩
    | cons c u'' =>
      have hle := hbefore hcall (List.cons_ne_nil _ _) (by
        rwa [← List.append_assoc, List.getLast?_append, List.getLast?_eq_some_getLast (List.cons_ne_nil c u''), Option.some_or,
          ← List.getLast?_eq_some_getLast] at hlast)
      simp only [List.length_append] at hwithin hlength hle
      omega

end IsSite

/-- The names that are found are those that are called. -/
theorem mem_called_siteAfter_iff (hlead : IsLead lead) (hnames : ∀ name ∈ names, IsWord name) {body : Text} :
    name ∈ called (siteAfter lead names) body ↔ name ∈ names ∧ CalledIn name body := by
  have hfound : ∀ {m name opening bl after at_}, IsSite at_ m opening name bl after → String.ofList (m.get .name) = name :=
    fun h => h.named.symm ▸ String.ofList_toList
  constructor
  · intro h
    obtain ⟨m, hm, rfl⟩ := List.mem_map.1 h
    obtain ⟨w, r, rfl, hmatch⟩ := exists_place_of_mem_all hm
    obtain ⟨name, hmem, opening, bl, after, hsite⟩ := exists_isSite hlead hnames hmatch
    rw [hfound hsite]
    have hcalled := hsite.calledAt
    rw [Place.after_append] at hcalled
    obtain rfl : r = _ := hsite.rest
    exact ⟨hmem, calledIn_iff.2 ⟨w ++ opening, _, (List.append_assoc _ _ _).symm, hcalled⟩⟩
  · rintro ⟨hmem, hcalled⟩
    obtain ⟨w, r, rfl, hcalled⟩ := calledIn_iff.1 hcalled
    obtain ⟨m, hmatch⟩ := exists_matchAt_of_calledAt hlead hmem (hnames name hmem) hcalled
    obtain ⟨name₁, hmem₁, opening, bl, after, hsite⟩ := exists_isSite hlead hnames hmatch
    rcases mem_all_or_within rfl (Nat.zero_le _) hmatch with hm | ⟨m', hm', w', u, rfl, hu, hmatch', hwithin⟩
    · rw [hsite.eq_of_calledAt (hnames name₁ hmem₁) (hnames name hmem) hcalled, ← hfound hsite]
      exact List.mem_map_of_mem hm
    · obtain ⟨name', hmem', opening', bl', after', hsite'⟩ := exists_isSite hlead hnames hmatch'
      have hlast : u.getLast?.any isWordChar = false := by
        have h := hcalled.1
        rwa [Place.after, List.getLast?_append, List.getLast?_eq_some_getLast hu, Option.some_or, Option.some_or,
          ← List.getLast?_eq_some_getLast] at h
      rw [hsite'.eq_of_within (hnames name' hmem') (hnames name hmem) rfl hu hlast hcalled.2 hwithin, ← hfound hsite']
      exact List.mem_map_of_mem hm'

end Sites

/-- In the body of a function exactly those names of its file are found that are called there. -/
theorem mem_called_site_iff {names : List String} {name : String} {body : Text} (hnames : ∀ name ∈ names, IsWord name) :
    name ∈ called (site names) body ↔ name ∈ names ∧ CalledIn name body := mem_called_siteAfter_iff isLead_edge hnames

/-- So are the names in scope, also where an instance is made of a class. -/
theorem mem_called_crossFileSite_iff {names : List String} {name : String} {body : Text} (hnames : ∀ name ∈ names, IsWord name) :
    name ∈ called (CrossFile.site names) body ↔ name ∈ names ∧ CalledIn name body :=
  mem_called_siteAfter_iff isLead_edgeOrNew hnames

end Calls

end CodeAtlas
