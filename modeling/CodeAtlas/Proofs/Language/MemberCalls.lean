import CodeAtlas.Language.TypeScript.Declarations
import CodeAtlas.Proofs.Source.WithinFile

/-!
# Calls of members

The name of a member may begin with a hash or a dollar sign. What is called within a file is looked for at the edges of words, so a name
that begins with a word character is found wherever it is called, and one that begins with a sign is found directly after a word character
only.
-/

namespace CodeAtlas.TypeScript

open Text Pattern Calls

/-- A name that a member may have. -/
def IsMemberName (name : String) : Prop := memberName.isWhole name.text = true

/-- A member is called in a text: no character that a name may have stands before it, and a bracket comes after it. -/
def IsMemberCalled (name : String) (body : Text) : Prop :=
  ∃ before rest, body = before ++ rest ∧ before.getLast?.any (wordOr "$#") = false ∧ BeginsWithCall name rest

/-- A name that begins with a word character. -/
def BeginsWithWord (name : String) : Prop := name.text.head?.any isWordChar = true

section Names

variable {name : String}

/-- A character that may begin a name may stand in that of a member. -/
theorem wordOr_of_isNameStart {c : Char} (h : isNameStart c = true) : wordOr "$#" c = true := by
  simp only [isNameStart, Text.isNameStart, Bool.or_eq_true, beq_iff_eq] at h
  simp only [wordOr, isWordChar, Char.isAlphanum, Bool.or_eq_true, beq_iff_eq]
  rcases h with (h | rfl) | rfl
  · exact Or.inl (Or.inl (Or.inl (Or.inl h)))
  · exact Or.inl (Or.inl (Or.inr rfl))
  · exact Or.inr rfl

/-- So may a character of an identifier. -/
theorem wordOr_of_wordOr {c : Char} (h : wordOr "$" c = true) : wordOr "$#" c = true := by
  rcases Bool.or_eq_true_iff.1 h with h | h
  · exact Bool.or_eq_true_iff.2 (Or.inl h)
  · exact Bool.or_eq_true_iff.2 (Or.inr (List.contains_iff_mem.2 (List.mem_append_left ['#'] (List.contains_iff_mem.1 h))))

/-- A character of a member's name may stand in a name. -/
theorem isNameChar_of_wordOr {c : Char} (h : wordOr "$#" c = true) : isNameChar c = true := by
  rcases Bool.or_eq_true_iff.1 h with h | h
  · exact isNameChar_of_isWordChar h
  · have hsigns : "$#".toList.all isNameChar = true := by decide
    exact List.all_eq_true.1 hsigns c (List.contains_iff_mem.1 h)

/-- The name of a member is not empty and has characters of its class only. -/
theorem IsMemberName.chars (h : IsMemberName name) : name ≠ "" ∧ ∀ c ∈ name.text, wordOr "$#" c = true := by
  obtain ⟨s', hfits, hend⟩ := fits_of_isWhole h
  obtain ⟨m, hhash, hname⟩ := fits_append_iff.1 hfits
  obtain ⟨m', hfirst, hothers⟩ := fits_append_iff.1 hname
  obtain ⟨c, r, hr, hc, rfl⟩ := fits_one_iff.1 hfirst
  obtain ⟨w, r', hr', hw, rfl⟩ := fits_any0_iff.1 hothers
  obtain rfl : r' = [] := hend
  obtain rfl : r = w := hr'.trans (List.append_nil w)
  have hbare : ∀ x ∈ c :: r, wordOr "$#" x = true :=
    List.forall_mem_cons.2 ⟨wordOr_of_isNameStart hc, fun x hx => wordOr_of_wordOr (hw x hx)⟩
  have hwhole : ∃ hash : Text, name.text = hash ++ c :: r ∧ ∀ x ∈ hash, wordOr "$#" x = true := by
    rcases fits_opt_iff.1 hhash with hhash | rfl
    · obtain ⟨r', htext, rfl⟩ := fits_lit_iff.1 hhash
      obtain rfl : r' = c :: r := hr
      exact ⟨"#".text, htext, List.all_eq_true.1 (by decide)⟩
    · exact ⟨[], hr, nofun⟩
  obtain ⟨hash, htext, hhash⟩ := hwhole
  refine ⟨?_, fun x hx => ?_⟩
  · rintro rfl
    exact List.append_ne_nil_of_right_ne_nil hash (List.cons_ne_nil c r) htext.symm
  · rw [htext] at hx
    exact (List.mem_append.1 hx).elim (hhash x) (hbare x)

/-- The name of a member is unbroken. -/
theorem IsMemberName.isUnbroken (h : IsMemberName name) : IsUnbroken name :=
  ⟨h.chars.1, fun c hc => isNameChar_of_wordOr (h.chars.2 c hc)⟩

end Names

section Scan

variable {names : List String} {name : String} {w r : Text}

/-- A call begins with the first character of its name. -/
theorem head?_of_beginsWithCall (hname : name ≠ "") (h : BeginsWithCall name r) : r.head? = name.text.head? := by
  obtain ⟨bl, after, rfl, -⟩ := h
  exact List.head?_append_of_ne_nil name.text fun h => hname (String.toList_eq_nil_iff.1 h)

/-- Where a member is called, a name that begins with a word character is found. -/
theorem foundAt_of_beginsWithWord (hnames : ∀ name ∈ names, IsMemberName name) (hmem : name ∈ names) (hword : BeginsWithWord name)
    (hbefore : w.getLast?.any (wordOr "$#") = false) (hcall : BeginsWithCall name r) : FoundAt names name w r := by
  have hhead := head?_of_beginsWithCall (hnames name hmem).chars.1 hcall
  constructor
  case stands =>
    have hlast : w.getLast?.any isWordChar = false := by
      cases hw : w.getLast? with
      | none => rfl
      | some c =>
        rw [hw] at hbefore
        exact (Bool.or_eq_false_iff.1 hbefore).1
    exact ⟨by rw [hlast, hhead, hword]; rfl, hcall⟩
  case first =>
    rintro v u longer rfl hu hlonger htext -
    have hlast : wordOr "$#" (u.getLast hu) = true :=
      (hnames longer hlonger).chars.2 _ (htext ▸ List.mem_append_left _ (List.getLast_mem hu))
    rw [List.getLast?_append, List.getLast?_eq_some_getLast hu, Option.some_or, Option.any_some, hlast] at hbefore
    nomatch hbefore

/-- One that begins with a sign is found directly after a word character only. -/
theorem before_of_foundAt (hname : IsMemberName name) (hword : ¬ BeginsWithWord name) (h : FoundAt names name w r) :
    w.getLast?.any isWordChar = true := by
  have hedge := h.stands.edge
  rw [head?_of_beginsWithCall hname.chars.1 h.stands.call, eq_false_of_ne_true hword] at hedge
  simpa using hedge

/-- A member that is called is found if its name begins with a word character or if it is also called after one. -/
theorem foundIn_iff (hnames : ∀ name ∈ names, IsMemberName name) (hmem : name ∈ names) {body : Text}
    (hcalled : IsMemberCalled name body) : FoundIn names name body ↔ BeginsWithWord name ∨
      ∃ before rest, body = before ++ rest ∧ before.getLast?.any isWordChar = true ∧ FoundAt names name before rest := by
  constructor
  · rintro ⟨w, r, hbody, hfound⟩
    by_cases hword : BeginsWithWord name
    · exact Or.inl hword
    · exact Or.inr ⟨w, r, hbody, before_of_foundAt (hnames name hmem) hword hfound, hfound⟩
  · rintro (hword | ⟨w, r, hbody, -, hfound⟩)
    · obtain ⟨w, r, hbody, hbefore, hcall⟩ := hcalled
      exact ⟨w, r, hbody, foundAt_of_beginsWithWord hnames hmem hword hbefore hcall⟩
    · exact ⟨w, r, hbody, hfound⟩

end Scan

/-- The call of a member has an edge if its name begins with a word character. If it begins with a sign, there is one only where the body
also has the name directly after a word character, and not at the end of a longer name. -/
theorem memberCall_iff {kinds : List EntityKind} {entities : List Entity} {c t : Entity}
    (hnames : ∀ e ∈ entities, e.kind ∈ kinds → IsMemberName e.name) (h : CallsWithin IsMemberCalled kinds entities c t) :
    (BeginsWithWord t.name → ∃ e ∈ withinFile kinds entities, e.fromId = c.id ∧ e.toId = t.id) ∧
      ((entities.map (·.id)).Nodup → (callEdge c t ∈ withinFile kinds entities ↔ BeginsWithWord t.name ∨
        ∃ b before rest, c.body = some b ∧ b.text = before ++ rest ∧ before.getLast?.any isWordChar = true ∧
          FoundAt ((callees kinds entities).map (·.1)) t.name before rest)) := by
  have hcallees : ∀ name ∈ (callees kinds entities).map (·.1), IsMemberName name := by
    intro name hname
    obtain ⟨e, he, hkind, -, rfl⟩ := mem_map_callees.1 hname
    exact hnames e he hkind
  obtain ⟨b, hb, hne, hcalled⟩ := h.body
  have hfound : ScanFinds kinds entities t.name b.text ↔ BeginsWithWord t.name ∨ ∃ before rest, b.text = before ++ rest ∧
      before.getLast?.any isWordChar = true ∧ FoundAt ((callees kinds entities).map (·.1)) t.name before rest := by
    rw [ScanFinds, nameSite, mem_called_iff_foundIn fun name hname => (hcallees name hname).isUnbroken,
      foundIn_iff hcallees h.callee.name_mem hcalled]
    exact and_iff_right h.callee.name_mem
  have hcalls : ScanFinds kinds entities t.name b.text ↔ CallsWithin (ScanFinds kinds entities) kinds entities c t := by
    refine ⟨fun hfinds => { h with body := ⟨b, hb, hne, hfinds⟩ }, fun h' => ?_⟩
    obtain ⟨b', hb', -, hfinds⟩ := h'.body
    exact Option.some.inj (hb.symm.trans hb') ▸ hfinds
  refine ⟨fun hword => ?_, fun hids => ?_⟩
  · exact exists_mem_withinFile_iff.2 ⟨c, t, hcalls.1 (hfound.2 (Or.inl hword)), rfl, rfl⟩
  · have hedge : callEdge c t ∈ withinFile kinds entities ↔ CallsWithin (ScanFinds kinds entities) kinds entities c t := by
      rw [mem_withinFile_iff hids]
      refine ⟨?_, fun h => ⟨c, t, h, rfl⟩⟩
      rintro ⟨c', t', h', hedge⟩
      obtain rfl : c' = c := eq_of_id hids h'.caller h.caller (congrArg Edge.fromId hedge).symm
      obtain rfl : t' = t := eq_of_id hids h'.callee.mem h.callee.mem (congrArg Edge.toId hedge).symm
      exact h'
    rw [hedge, ← hcalls, hfound]
    simp only [hb, Option.some.injEq, exists_and_left, exists_eq_left']

/-- A method with its name for an id. -/
def namedMethod (name body : String) : Entity := { namedFunction name body with kind := .method }

/-- A method that calls two others, one with a dollar sign and one with a hash sign. -/
def signedNames : List Entity := [namedMethod "stop$" "", namedMethod "#run" "", namedMethod "go" "this.#run(); this.stop$();"]

/-- The names are looked for by their length. -/
theorem ordered_signedNames : ordered ((callees EntityKind.callable signedNames).map (·.1)) = ["stop$", "#run", "go"] :=
  List.mergeSort_of_pairwise (by decide)

/-- A method whose name ends in a sign is found to be called. -/
theorem stop_called : (∀ e ∈ signedNames, e.kind ∈ EntityKind.callable → IsMemberName e.name) ∧
    CallsWithin IsMemberCalled EntityKind.callable signedNames signedNames[2] signedNames[0] ∧ BeginsWithWord "stop$" ∧
    ∃ e ∈ withinFile EntityKind.callable signedNames, e.fromId = "go" ∧ e.toId = "stop$" := by
  have hall : ∀ e ∈ signedNames, memberName.isWhole e.name.text = true := by decide
  have hnames : ∀ e ∈ signedNames, e.kind ∈ EntityKind.callable → IsMemberName e.name := fun e he _ => hall e he
  have hcalled : IsMemberCalled "stop$" "this.#run(); this.stop$();".text :=
    ⟨"this.#run(); this.".text, "stop$();".text, rfl, rfl, [], ");".text, rfl, nofun⟩
  have hcalls : CallsWithin IsMemberCalled EntityKind.callable signedNames signedNames[2] signedNames[0] :=
    { caller := List.getElem_mem _
      callable := rfl
      body := ⟨_, rfl, by decide, hcalled⟩
      callee := ⟨by decide, [], _, rfl, by decide, List.forall_mem_nil _⟩
      otherName := by decide
      otherId := by decide }
  exact ⟨hnames, hcalls, rfl, (memberCall_iff hnames hcalls).1 rfl⟩

/-- The call of a private method has no edge, though its name stands before the bracket and no name goes before it. -/
theorem privateMethod_not_called : (∀ e ∈ signedNames, IsMemberName e.name ∧ 2 ≤ e.name.length) ∧ (signedNames.map (·.id)).Nodup ∧
    CallsWithin IsMemberCalled EntityKind.callable signedNames signedNames[2] signedNames[1] ∧
    ¬ ∃ e ∈ withinFile EntityKind.callable signedNames, e.fromId = "go" ∧ e.toId = "#run" := by
  have hcalled : IsMemberCalled "#run" "this.#run(); this.stop$();".text :=
    ⟨"this.".text, "#run(); this.stop$();".text, rfl, rfl, [], "); this.stop$();".text, rfl, nofun⟩
  have hcalls : CallsWithin IsMemberCalled EntityKind.callable signedNames signedNames[2] signedNames[1] :=
    { caller := List.getElem_mem _
      callable := rfl
      body := ⟨_, rfl, by decide, hcalled⟩
      callee := ⟨by decide, [signedNames[0]], _, rfl, by decide, by decide⟩
      otherName := by decide
      otherId := by decide }
  have hnames : ∀ e ∈ signedNames, memberName.isWhole e.name.text = true ∧ 2 ≤ e.name.length := by decide
  have hpairs : ("go", "#run") ∉ (withinFile EntityKind.callable signedNames).map fun e => (e.fromId, e.toId) := by
    rw [withinFile_eq, allCalls, nameSite, site, ordered_signedNames]
    decide
  refine ⟨fun e he => ⟨(hnames e he).1, (hnames e he).2⟩, by decide, hcalls, ?_⟩
  rintro ⟨e, he, hfrom, hto⟩
  exact hpairs (List.mem_map.2 ⟨e, he, Prod.ext hfrom hto⟩)

end CodeAtlas.TypeScript
