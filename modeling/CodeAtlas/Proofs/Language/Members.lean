import CodeAtlas.Proofs.Language.Braces
import CodeAtlas.Proofs.Source.Recording
import CodeAtlas.Proofs.Source.Steps
import Mathlib.Data.List.Nodup

/-!
# Members and their types

A method of TypeScript belongs to the class or interface that owns its line when the file is walked. Its range is found later on, by a
search of its own. So it begins below the first line of its type; and it lies within its type where a brace of its own or a semicolon
comes before the closing brace of the type, provided that the body of the type is still open on its line, as it is where all lines before
are plain ones.
-/

namespace CodeAtlas.TypeScript

open Text FileScan ScopeStack
open Declaration (IsDraft)

/-- The kinds of the types that have members. -/
def typeKinds : List EntityKind := [.class_, .interface]

/-- The declaration that a member is recorded as, if the header is one. -/
def memberDraft? (owner : Declaration) (header : Text) (line : Nat) (scan : FileScan) : Option Declaration :=
  let found := match propertyHeader.matchStart? header with
    | some m => some (m, m.has .async)
    | none => (methodHeader.matchStart? header).map fun m => (m, (words (m.get .modifiers)).contains "async".toList)
  match found with
  | none => none
  | some (m, isAsync) =>
    let n := String.ofList (m.get .name)
    if Header.controlWords.contains n then none
    else
      let isPrivate := (words (m.get .modifiers)).contains "private".toList || n.text.startsWith "#"
      let signature := owner.name ++ "." ++ n ++ "(" ++ String.ofList (strip (m.get .params)) ++ ")"
      some { scan.draft .method n line (some signature) with
        exported := owner.exported && !isPrivate
        isAsync
        parameterCount := some (Header.countParameters (m.get .params))
        returnType := returnType header }

variable {names : Names} {header : Text} {line : Nat} {owner d : Declaration} {w : Walk Unit}

/-- A header in the body of a type records a member, if it is one of a method. -/
theorem member_eq (owner : Declaration) (header : Text) (line : Nat) (w : Walk Unit) :
    member owner header line w =
      match memberDraft? owner header line w.scan with
      | none => w
      | some d => (w.declare d).1.memberOf (w.declare d).2 owner := by
  unfold member memberDraft?
  cases propertyHeader.matchStart? header with
  | some m =>
    by_cases hword : Header.controlWords.contains (String.ofList (m.get .name)) = true
    · simp only [if_pos hword]
    · simp only [if_neg hword]
  | none =>
    cases methodHeader.matchStart? header with
    | none => rfl
    | some m =>
      by_cases hword : Header.controlWords.contains (String.ofList (m.get .name)) = true
      · simp only [Option.map_some, if_pos hword]
      · simp only [Option.map_some, if_neg hword]

/-- What is recorded of a member is a method that begins on its line. -/
theorem of_memberDraft?_eq_some (h : memberDraft? owner header line w.scan = some d) : d.kind = .method ∧ d.IsDraft .brace line := by
  unfold memberDraft? at h
  dsimp only at h
  split at h
  · nomatch h
  · split at h
    · nomatch h
    · cases h
      exact ⟨rfl, rfl, rfl, rfl, rfl⟩

/-- Links that are not of membership are added without anything else. -/
theorem addsLinks_linkAll {scan : FileScan} (h : AddsLinks scan w.scan) (fromId : String) (toIds : List String) {kind : EdgeKind}
    (hkind : kind ≠ .memberOf) : AddsLinks scan (w.linkAll fromId toIds kind).scan := by
  rw [Walk.linkAll_eq]
  exact h.foldl_link fromId id hkind toIds

/-- What a header outside all types does: nothing; or it records a declaration without members; or it records a class or interface, with
links to others, and enters it. -/
theorem topLevel_cases (names : Names) (header : Text) (line : Nat) (w : Walk Unit) :
    topLevel names header line w = w ∨
      (∃ d, d.kind ∉ .method :: typeKinds ∧ topLevel names header line w = (w.declare d).1) ∨
      ∃ (d : Declaration) (w' : Walk Unit), d.kind ∈ typeKinds ∧ d.IsDraft .brace line ∧ AddsLinks (w.declare d).1.scan w'.scan ∧
        w'.scopes = w.scopes ∧ topLevel names header line w = w'.push (w.declare d).2 := by
  unfold topLevel
  dsimp only
  split
  · exact Or.inr (Or.inl ⟨_, (show EntityKind.function ∉ .method :: typeKinds by decide), rfl⟩)
  split
  · refine Or.inr (Or.inr ⟨_, _, (show EntityKind.class_ ∈ typeKinds by decide), ⟨rfl, rfl, rfl, rfl⟩, ?_, ?_, rfl⟩)
    · refine addsLinks_linkAll ?_ _ _ (by decide)
      split
      · exact addsLinks_linkAll (AddsLinks.refl _) _ _ (by decide)
      · exact AddsLinks.refl _
    · rw [Walk.scopes_linkAll]
      split
      · rw [Walk.scopes_linkAll, Walk.scopes_declare]
      · rfl
  split
  · refine Or.inr (Or.inr ⟨_, _, (show EntityKind.interface ∈ typeKinds by decide), ⟨rfl, rfl, rfl, rfl⟩, ?_, ?_, rfl⟩)
    · exact addsLinks_linkAll (AddsLinks.refl _) _ _ (by decide)
    · rw [Walk.scopes_linkAll, Walk.scopes_declare]
  split
  · exact Or.inr (Or.inl ⟨_, (show EntityKind.type ∉ .method :: typeKinds by decide), rfl⟩)
  split
  · exact Or.inr (Or.inl ⟨_, (show EntityKind.enum ∉ .method :: typeKinds by decide), rfl⟩)
  split
  · exact Or.inr (Or.inl ⟨_, (show EntityKind.function ∉ .method :: typeKinds by decide), rfl⟩)
  · exact Or.inl rfl

/-- What is recorded after a draft has been declared: what was there before, or the draft itself, which is then what is declared. -/
theorem mem_recorded_draft {b : Declaration} (hd : d.IsDraft .brace line) (hb : b ∈ (w.declare d).1.scan.recorded) :
    b ∈ w.scan.recorded ∨ b = d ∧ (w.declare d).2 = d := by
  rcases recorded_declare_cases w.scan d with ⟨hsame, -⟩ | ⟨-, hnew⟩
  · rw [← hd.bare_eq]
    exact (mem_recorded_declare hb).imp_right fun hb' => ⟨hb', hd.bare_eq.symm ▸ hsame⟩
  · exact Or.inl (hnew ▸ hb)

/-! ## What the lines of a file do -/

/-- A line is owned by a declaration: it stands directly in its body, as the stack of scopes has it. -/
def OwnedBy (steps : List (Step Declaration)) (t : Declaration) (line : Nat) : Prop :=
  ∃ j, j ≤ steps.length ∧ line = j + 1 ∧ (after (steps.take j)).owner = some t

/-- A line that a type owns stays its own when more lines follow. -/
theorem OwnedBy.append {steps : List (Step Declaration)} (h : OwnedBy steps owner line) (steps' : List (Step Declaration)) :
    OwnedBy (steps ++ steps') owner line := by
  obtain ⟨j, hj, hline, howner⟩ := h
  refine ⟨j, by rw [List.length_append]; omega, hline, ?_⟩
  rwa [List.take_append_of_le_length hj]

/-- The names of the declarations that are entered. -/
def enteredNames (steps : List (Step Declaration)) : List String := (steps.filterMap (·.entered)).map (·.name)

/-- The member that a header is read as, with the type that owns its line. -/
def noteMember (header : Text) (line : Nat) (w : Walk Unit) : Option (Declaration × Declaration) :=
  w.owner.bind fun owner => (memberDraft? owner header line w.scan).map fun d => (owner, d)

/-- Of two members with one id, each with its type, the types have one name. -/
def IdTellsType (p q : Declaration × Declaration) : Prop := p.2.id = q.2.id → p.1.name = q.1.name

/-- Whether an id tells the type of a member is decided by ids and names. -/
instance (p q : Declaration × Declaration) : Decidable (IdTellsType p q) := inferInstanceAs (Decidable (_ → _))

/-- What has been recorded after some lines, in which some members have been found: of each type the line of its header, of each member a
line that its type owns. -/
structure Gathered (done : List (Step Declaration)) (found : List (Declaration × Declaration)) (w : Walk Unit) : Prop where
  scopes : w.scopes = after done
  /-- Another declaration with the id of a type would be entered in its place, on a line that is not its own. -/
  entered : ∀ i d, EntersAt done i d → d.bare ∈ w.scan.recorded ∧ (d.kind ∈ typeKinds → d.startLine = i + 1)
  types : ∀ d ∈ w.scan.recorded, d.kind ∈ typeKinds → d.name ∈ enteredNames done
  ranged : ∀ d ∈ w.scan.recorded, d.kind ∈ .method :: typeKinds → d.block = .brace ∧ d.endLine = none
  /-- A method that is found again, with the id of another one, is not recorded again. -/
  methods : ∀ d ∈ w.scan.recorded, d.kind = .method → ∃ p ∈ found, p.2.id = d.id ∧ OwnedBy done p.1 d.startLine
  owners : ∀ p ∈ found, p.1 ∈ done.filterMap (·.entered)
  members : ∀ e ∈ w.scan.edges, e.kind = .memberOf → ∃ t ∈ done.filterMap (·.entered), e.toId = t.id ∧
    ∀ d ∈ w.scan.recorded, d.kind = .method → d.id = e.fromId → OwnedBy done t d.startLine

/-- A method and its type, as a walk has recorded them. -/
def IsMemberOf (w : Walk Unit) (m t : Declaration) : Prop :=
  m.kind = .method ∧ t.kind ∈ typeKinds ∧ ∃ e ∈ w.scan.edges, e.link = (m.id, t.id, .memberOf)

/-- Whether a method has been recorded as a member of a type is decided by the links. -/
instance (w : Walk Unit) (m t : Declaration) : Decidable (IsMemberOf w m t) := inferInstanceAs (Decidable (_ ∧ _ ∧ _))

namespace Gathered

variable {file : SourceFile} {done : List (Step Declaration)} {found : List (Declaration × Declaration)}

/-- A line without a header of a type. -/
theorem skip (h : Gathered done found w) (code : Text) : Gathered (done ++ [⟨none, code⟩]) found (w.advance code) := by
  have hentered : (done ++ [(⟨none, code⟩ : Step Declaration)]).filterMap (·.entered) = done.filterMap (·.entered) := by simp
  refine ⟨?scopes, ?entered, ?types, h.ranged, ?methods, ?owners, ?members⟩
  case scopes =>
    rw [after_append, ← h.scopes]
    rfl
  case entered =>
    intro i d hd
    rcases entersAt_append_singleton_iff.1 hd with hd | ⟨-, hd⟩
    · exact h.entered i d hd
    · nomatch hd
  case types =>
    intro d hd hkind
    rw [enteredNames, hentered]
    exact h.types d hd hkind
  case methods =>
    intro d hd hkind
    obtain ⟨p, hp, hid, howned⟩ := h.methods d hd hkind
    exact ⟨p, hp, hid, howned.append _⟩
  case owners =>
    rw [hentered]
    exact h.owners
  case members =>
    intro e he hkind
    obtain ⟨t, ht, hto, howned⟩ := h.members e he hkind
    exact ⟨t, hentered ▸ ht, hto, fun d hd hmethod hid => (howned d hd hmethod hid).append _⟩

/-- What has been entered stays recorded where one more declaration is recorded. -/
theorem entered_declare (h : Gathered done found w) (d : Declaration) {i : Nat} {b : Declaration} (hb : EntersAt done i b) :
    b.bare ∈ (w.declare d).1.scan.recorded ∧ (b.kind ∈ typeKinds → b.startLine = i + 1) :=
  ⟨recorded_declare_of_mem (h.entered i b hb).1, (h.entered i b hb).2⟩

/-- Types and methods that are recorded end by brace, as drafts do. -/
theorem ranged_declare (h : Gathered done found w) (hd : d.IsDraft .brace line) {b : Declaration}
    (hb : b ∈ (w.declare d).1.scan.recorded) (hkind : b.kind ∈ .method :: typeKinds) : b.block = .brace ∧ b.endLine = none := by
  rcases mem_recorded_draft hd hb with hb | ⟨rfl, -⟩
  · exact h.ranged b hb hkind
  · exact ⟨hd.block, hd.ending⟩

/-- A type is recorded with the line of its header, if none of its name, which might have its id, has been entered before. -/
theorem declared_here (h : Gathered done found w) (hd : d.IsDraft .brace (done.length + 1))
    (hname : (w.declare d).2.name ∉ enteredNames done) :
    (w.declare d).2.bare ∈ (w.declare d).1.scan.recorded ∧
      ((w.declare d).2.kind ∈ typeKinds → (w.declare d).2.startLine = done.length + 1) := by
  rcases recorded_declare_cases w.scan d with ⟨hsame, hnew⟩ | ⟨hmem, hnew⟩
  · refine ⟨?_, fun _ => (congrArg Declaration.startLine hsame).trans hd.start⟩
    refine hnew.symm ▸ List.mem_append_right _ ?_
    exact List.mem_singleton.2 (congrArg Declaration.bare hsame)
  · exact ⟨hnew.symm ▸ hmem, fun htype => absurd (h.types _ hmem htype) hname⟩

/-- A declaration without members. -/
theorem declare (h : Gathered done found w) (hkind : d.kind ∉ .method :: typeKinds) : Gathered done found (w.declare d).1 := by
  have hedges : (w.declare d).1.scan.edges = w.scan.edges := edges_declare w.scan d
  have hold : ∀ b ∈ (w.declare d).1.scan.recorded, b.kind ∈ .method :: typeKinds → b ∈ w.scan.recorded := by
    intro b hb hb'
    rcases mem_recorded_declare hb with hb | rfl
    · exact hb
    · exact absurd hb' hkind
  refine ⟨h.scopes, ?entered, ?types, ?ranged, ?methods, h.owners, ?members⟩
  case entered =>
    exact fun i b hb => h.entered_declare d hb
  case types =>
    exact fun b hb hb' => h.types b (hold b hb (List.mem_cons_of_mem _ hb')) hb'
  case ranged =>
    exact fun b hb hb' => h.ranged b (hold b hb hb') hb'
  case methods =>
    exact fun b hb hb' => h.methods b (hold b hb (hb' ▸ List.mem_cons_self)) hb'
  case members =>
    rw [hedges]
    intro e he hmember
    obtain ⟨t, ht, hto, howned⟩ := h.members e he hmember
    exact ⟨t, ht, hto, fun b hb hb' => howned b (hold b hb (hb' ▸ List.mem_cons_self)) hb'⟩

/-- A member of the type that owns its line. If its id is there already, it has been found in the same type before. -/
theorem member (h : Gathered done found w) (hsound : w.scan.Sound file [])
    (howner : w.owner = some owner) (hd : d.IsDraft .brace (done.length + 1)) (hkind : d.kind = .method)
    (hnames : (enteredNames done).Nodup) (hids : ∀ p ∈ found, IdTellsType p (owner, d)) :
    Gathered done (found ++ [(owner, d)]) ((w.declare d).1.memberOf (w.declare d).2 owner) := by
  have howner' : (after done).owner = some owner := h.scopes ▸ howner
  have hentered : owner ∈ done.filterMap (·.entered) := by
    obtain ⟨i, hi, -⟩ := exists_entersAt_of_owner howner'
    exact hi.mem
  have hhere : OwnedBy done owner (done.length + 1) := ⟨done.length, Nat.le_refl _, rfl, by rwa [List.take_length]⟩
  have hrecorded : ((w.declare d).1.memberOf (w.declare d).2 owner).scan.recorded = (w.declare d).1.scan.recorded :=
    recorded_memberOf _ _
  have hold : ∀ b ∈ (w.declare d).1.scan.recorded, b ∈ w.scan.recorded ∨ b = d := fun b hb =>
    (mem_recorded_draft hd hb).imp_right And.left
  have hmethods : ∀ b ∈ (w.declare d).1.scan.recorded, b.kind = .method →
      ∃ p ∈ found ++ [(owner, d)], p.2.id = b.id ∧ OwnedBy done p.1 b.startLine := by
    intro b hb hb'
    rcases hold b hb with hb | rfl
    · obtain ⟨p, hp, hid, howned⟩ := h.methods b hb hb'
      exact ⟨p, List.mem_append_left _ hp, hid, howned⟩
    · exact ⟨(owner, b), by simp, rfl, by rwa [hd.start]⟩
  refine ⟨h.scopes, ?entered, ?types, ?ranged, ?methods, ?owners, ?members⟩
  case entered =>
    rw [hrecorded]
    exact fun i b hb => h.entered_declare d hb
  case types =>
    rw [hrecorded]
    intro b hb hb'
    rcases hold b hb with hb | rfl
    · exact h.types b hb hb'
    · rw [hkind] at hb'
      exact absurd hb' (by decide)
  case ranged =>
    rw [hrecorded]
    exact fun b hb => h.ranged_declare hd hb
  case methods =>
    rw [hrecorded]
    exact hmethods
  case owners =>
    intro p hp
    rcases List.mem_append.1 hp with hp | hp
    · exact h.owners p hp
    · rw [List.mem_singleton.1 hp]
      exact hentered
  case members =>
    intro e he hmember
    rw [hrecorded]
    rcases mem_edges_link.1 he with he | ⟨-, rfl⟩
    · have he' : e ∈ w.scan.edges := by rwa [← edges_declare w.scan d]
      obtain ⟨t, ht, hto, howned⟩ := h.members e he' hmember
      refine ⟨t, ht, hto, fun b hb hb' hid => ?_⟩
      have hsource : b.id ∈ w.scan.ids := hid ▸ (hsound.links e he').source
      exact howned b (mem_recorded_of_mem_ids hb hsource) hb' hid
    · refine ⟨owner, hentered, rfl, fun b hb hb' hid => ?_⟩
      replace hid : b.id = d.id := hid.trans (id_declare w.scan d)
      rcases hold b hb with hb | rfl
      · obtain ⟨p, hp, hid', howned⟩ := h.methods b hb hb'
        have hsame : p.1 = owner :=
          List.inj_on_of_nodup_map hnames (h.owners p hp) hentered (hids p hp (hid'.trans hid))
        rwa [hsame] at howned
      · rwa [hd.start]

/-- A class or interface is entered at its header. -/
theorem enter (h : Gathered done found w) {w' : Walk Unit} (hd : d.IsDraft .brace (done.length + 1)) (hkind : d.kind ∈ typeKinds)
    (hlinks : AddsLinks (w.declare d).1.scan w'.scan) (hscopes : w'.scopes = w.scopes) {code : Text}
    (hnames : (enteredNames (done ++ [⟨some (w.declare d).2, code⟩])).Nodup) :
    Gathered (done ++ [⟨some (w.declare d).2, code⟩]) found ((w'.push (w.declare d).2).advance code) := by
  have hentered : (done ++ [(⟨some (w.declare d).2, code⟩ : Step Declaration)]).filterMap (·.entered) =
      done.filterMap (·.entered) ++ [(w.declare d).2] := by simp
  have hrecorded : ((w'.push (w.declare d).2).advance code).scan.recorded = (w.declare d).1.scan.recorded := hlinks.recorded
  have hother : d.kind ≠ .method := by
    intro hmethod
    rw [hmethod] at hkind
    exact absurd hkind (by decide)
  rw [enteredNames, hentered, List.map_append, List.nodup_append] at hnames
  have hname : (w.declare d).2.name ∉ enteredNames done := fun hmem => hnames.2.2 _ hmem _ (List.mem_singleton_self _) rfl
  refine ⟨?scopes, ?entered, ?types, ?ranged, ?methods, ?owners, ?members⟩
  case scopes =>
    rw [after_append, ← h.scopes, ← hscopes]
    rfl
  case entered =>
    rw [hrecorded]
    intro i b hb
    rcases entersAt_append_singleton_iff.1 hb with hb | ⟨rfl, hlast⟩
    · exact h.entered_declare d hb
    · cases hlast
      exact h.declared_here hd hname
  case types =>
    rw [hrecorded, enteredNames, hentered, List.map_append]
    intro b hb hb'
    rcases mem_recorded_draft hd hb with hb | ⟨rfl, hsame⟩
    · exact List.mem_append_left _ (h.types b hb hb')
    · exact List.mem_append_right _ (by rw [hsame]; exact List.mem_singleton_self _)
  case ranged =>
    rw [hrecorded]
    exact fun b hb => h.ranged_declare hd hb
  case methods =>
    rw [hrecorded]
    intro b hb hb'
    rcases mem_recorded_draft hd hb with hb | ⟨rfl, -⟩
    · obtain ⟨p, hp, hid, howned⟩ := h.methods b hb hb'
      exact ⟨p, hp, hid, howned.append _⟩
    · exact absurd hb' hother
  case owners =>
    rw [hentered]
    exact fun p hp => List.mem_append_left _ (h.owners p hp)
  case members =>
    rw [hrecorded, hentered]
    intro e he hmember
    have he' : e ∈ w.scan.edges := by
      rw [← edges_declare w.scan d]
      exact (hlinks.new e he).resolve_right fun hne => hne hmember
    obtain ⟨t, ht, hto, howned⟩ := h.members e he' hmember
    refine ⟨t, List.mem_append_left _ ht, hto, fun b hb hb' hid => ?_⟩
    rcases mem_recorded_draft hd hb with hb | ⟨rfl, -⟩
    · exact (howned b hb hb' hid).append _
    · exact absurd hb' hother

/-- What a visit and the braces of the line do. -/
theorem visit (h : Gathered done found w) (hsound : w.scan.Sound file []) {w' : Walk Unit} {code : Text}
    (hvisit : TypeScript.visit names header (done.length + 1) w = w')
    (hnames : (enteredNames (done ++ [⟨Walk.entered? w.scopes w'.scopes, code⟩])).Nodup)
    (hids : ∀ q ∈ noteMember header (done.length + 1) w, ∀ p ∈ found, IdTellsType p q) :
    Gathered (done ++ [⟨Walk.entered? w.scopes w'.scopes, code⟩]) (found ++ (noteMember header (done.length + 1) w).toList)
      (w'.advance code) := by
  have hskip : Walk.entered? w.scopes w.scopes = none := Walk.entered?_enter w.scopes none
  unfold TypeScript.visit at hvisit
  unfold noteMember at hids ⊢
  cases howner : w.owner with
  | some owner =>
    rw [howner] at hvisit hids
    dsimp only at hvisit
    rw [Option.bind_some] at hids ⊢
    rw [member_eq] at hvisit
    cases hdraft : memberDraft? owner header (done.length + 1) w.scan with
    | none =>
      rw [hdraft] at hvisit
      subst hvisit
      rw [hskip, Option.map_none, Option.toList_none, List.append_nil]
      exact h.skip code
    | some d =>
      obtain ⟨hkind, hd⟩ := of_memberDraft?_eq_some hdraft
      rw [hdraft] at hvisit hids
      subst hvisit
      have hscopes : ((w.declare d).1.memberOf (w.declare d).2 owner).scopes = w.scopes := rfl
      rw [hscopes, hskip] at hnames ⊢
      refine (h.member hsound howner hd hkind ?_ (hids (owner, d) rfl)).skip code
      simpa [enteredNames] using hnames
  | none =>
    rw [howner] at hvisit
    dsimp only at hvisit
    rw [Option.bind_none, Option.toList_none, List.append_nil]
    rcases topLevel_cases names header (done.length + 1) w with heq | ⟨d, hkind, heq⟩ | ⟨d, w₁, hkind, hd, hlinks, hscopes, heq⟩
    · rw [heq] at hvisit
      subst hvisit
      rw [hskip]
      exact h.skip code
    · rw [heq] at hvisit
      subst hvisit
      rw [Walk.scopes_declare, hskip]
      exact (h.declare hkind).skip code
    · rw [heq] at hvisit
      subst hvisit
      have hpush : Walk.entered? w.scopes (w₁.push (w.declare d).2).scopes = some (w.declare d).2 := by
        rw [← Walk.entered?_enter w.scopes (some (w.declare d).2), ← hscopes]
        rfl
      rw [hpush] at hnames ⊢
      exact h.enter hd hkind hlinks hscopes hnames

/-- What one more line does. -/
theorem visitLine (h : Gathered done found w) (hsound : w.scan.Sound file []) {lines : List Text} {w' : Walk Unit} {code : Text}
    (hvisited : Walk.visitLine false (TypeScript.visit names) lines (done.length + 1) w = w')
    (hnames : (enteredNames (done ++ [⟨Walk.entered? w.scopes w'.scopes, code⟩])).Nodup) {noted : Option (Declaration × Declaration)}
    (hnoted : ((Walk.header? false w.scan.noise lines).bind fun header => noteMember header (done.length + 1) w) = noted)
    (hids : ∀ q ∈ noted, ∀ p ∈ found, IdTellsType p q) :
    Gathered (done ++ [⟨Walk.entered? w.scopes w'.scopes, code⟩]) (found ++ noted.toList) (w'.advance code) := by
  rw [Walk.visitLine_eq] at hvisited
  cases hheader : Walk.header? false w.scan.noise lines with
  | none =>
    rw [hheader] at hvisited hnoted
    subst hvisited hnoted
    have hskip : Walk.entered? w.scopes w.scopes = none := Walk.entered?_enter w.scopes none
    rw [hskip, Option.bind_none, Option.toList_none, List.append_nil]
    exact h.skip code
  | some header =>
    rw [hheader] at hvisited hnoted
    rw [Option.bind_some] at hnoted
    subst hnoted
    exact h.visit hsound hvisited hnames hids

/-- Line after line, what has been recorded fits the lines that have been read. -/
theorem walk (h : Gathered done found w) (hsound : w.scan.Sound file []) {ls : List Text}
    (hlast : done.length + ls.length = file.lines.length)
    (hnames : (enteredNames (done ++ Walk.stepsFrom false (TypeScript.visit names) (done.length + 1) ls w)).Nodup)
    (hids : (found ++ Walk.gatherFrom false (TypeScript.visit names) noteMember (done.length + 1) ls w).Pairwise IdTellsType) :
    Gathered (done ++ Walk.stepsFrom false (TypeScript.visit names) (done.length + 1) ls w)
      (found ++ Walk.gatherFrom false (TypeScript.visit names) noteMember (done.length + 1) ls w)
      (Walk.visitLines false (TypeScript.visit names) (done.length + 1) ls w) := by
  induction ls generalizing done found w with
  | nil =>
    rw [Walk.stepsFrom, Walk.gatherFrom, List.append_nil, List.append_nil]
    exact h
  | cons l ls ih =>
    rw [List.length_cons] at hlast
    have hsound' : (Walk.visitLine false (TypeScript.visit names) (l :: ls) (done.length + 1) w).scan.Sound file [] :=
      Walk.visitLine_induction (I := fun w' => w'.scan.Sound file []) hsound fun header => sound_visit hsound ⟨by omega, by omega⟩
    rw [Walk.stepsFrom, Walk.gatherFrom, Walk.visitLines] at *
    rw [List.append_cons] at hnames ⊢
    rw [← List.append_assoc] at hids ⊢
    generalize hvisited : Walk.visitLine false (TypeScript.visit names) (l :: ls) (done.length + 1) w = w' at hsound' hnames hids ⊢
    generalize hnoted : ((Walk.header? false w.scan.noise (l :: ls)).bind fun header => noteMember header (done.length + 1) w) = noted
      at hids ⊢
    have hnow := (List.pairwise_append.1 (List.pairwise_append.1 hids).1).2.2
    have hentered : (enteredNames (done ++ [⟨Walk.entered? w.scopes w'.scopes, w.scan.noise.strip l⟩])).Nodup := by
      rw [enteredNames, List.filterMap_append, List.map_append] at hnames
      exact (List.nodup_append.1 hnames).1
    have hnext := h.visitLine hsound hvisited hentered hnoted fun q hq p hp => hnow p hp q (Option.mem_toList.2 hq)
    have hlength : (done ++ [(⟨Walk.entered? w.scopes w'.scopes, w.scan.noise.strip l⟩ : Step Declaration)]).length = done.length + 1 :=
      List.length_append
    have hrest := ih hnext hsound'
    rw [hlength] at hrest
    exact hrest (by omega) hnames hids

/-- The last line of a type or member is where the search for its closing brace ends. -/
theorem endLine_eq (h : Gathered done found w) (hnoise : w.scan.noise = .cLike) (hsound : w.scan.Sound file []) (hd : d ∈ w.scan.decls)
    (hkind : d.kind ∈ .method :: typeKinds) : w.scan.endLine d = max (Block.braceEnd .cLike file.lines d.startLine) d.startLine := by
  obtain ⟨hblock, hending⟩ := h.ranged d.bare (mem_recorded_iff.2 ⟨d, hd, rfl⟩) hkind
  change d.block = .brace at hblock
  change d.endLine = none at hending
  rw [endLine, hending, hblock, hnoise, hsound.ofLines, Option.getD_none]
  rfl

/-- A member begins on a line that its type owns. -/
theorem exists_owned (h : Gathered done found w) (hsound : w.scan.Sound file []) {m t : Declaration} (hm : m ∈ w.scan.decls)
    (ht : t ∈ w.scan.decls) (hmember : IsMemberOf w m t) :
    ∃ i j o, t.startLine = i + 1 ∧ m.startLine = j + 1 ∧ (after (done.take j)).owner = some o ∧ EntersAt (done.take j) i o ∧
      (after (done.take j)).depth = (after (done.take i)).depth + 1 := by
  obtain ⟨hmethod, htype, e, he, hlink⟩ := hmember
  obtain ⟨hfrom, hto, hkind⟩ : e.fromId = m.id ∧ e.toId = t.id ∧ e.kind = .memberOf := by simpa [Edge.link] using hlink
  obtain ⟨o, -, hid, howned⟩ := h.members e he hkind
  obtain ⟨j, hj, hline, howner⟩ := howned m.bare (mem_recorded_iff.2 ⟨m, hm, rfl⟩) hmethod hfrom.symm
  obtain ⟨i, hi, hdepth⟩ := exists_entersAt_of_owner howner
  have hij : i < j := Nat.lt_of_lt_of_le hi.lt_length (List.length_take_le j done)
  have hi' : EntersAt done i o := by
    have happend := hi.append (done.drop j)
    rwa [List.take_append_drop] at happend
  obtain ⟨ho, hstart⟩ := h.entered i o hi'
  have hsame : t.bare = o.bare := by
    have hdistinct : (w.scan.recorded.map (·.id)).Nodup := (map_id_recorded w.scan).symm ▸ hsound.distinct
    exact List.inj_on_of_nodup_map hdistinct (mem_recorded_iff.2 ⟨t, ht, rfl⟩) ho (hto.symm.trans hid)
  have hkinds : t.kind = o.kind := show t.bare.kind = o.bare.kind by rw [hsame]
  have hstarts : t.startLine = o.startLine := show t.bare.startLine = o.bare.startLine by rw [hsame]
  rw [List.take_take, Nat.min_eq_left (Nat.le_of_lt hij)] at hdepth
  exact ⟨i, j, o, hstarts.trans (hstart (hkinds ▸ htype)), hline, howner, hi, hdepth⟩

end Gathered

/-! ## What reading a file gives -/

/-- What is known before the lines of a file are walked. -/
def namesOf (file : SourceFile) : Names :=
  { imported := importedSymbolFiles (imports file), exported := exportedNames file.content.text }

/-- The lines of a file as the stack of scopes sees them. -/
def steps (file : SourceFile) : List (Step Declaration) :=
  Walk.stepsFrom false (visit (namesOf file)) 1 file.lines { scan := FileScan.start file .cLike, notes := () }

/-- The members that are found in a file, each with the type that owns its line. -/
def members (file : SourceFile) : List (Declaration × Declaration) :=
  Walk.gatherFrom false (visit (namesOf file)) noteMember 1 file.lines { scan := FileScan.start file .cLike, notes := () }

/-- The state after all lines of a file. -/
def walked (file : SourceFile) : Walk Unit := Walk.run false (visit (namesOf file)) (FileScan.start file .cLike) ()

theorem read_eq (file : SourceFile) : read file = (walked file).scan.finish decision .cLike (imports file) := rfl

/-- What a walk has recorded is sound. -/
theorem sound_walked (file : SourceFile) : (walked file).scan.Sound file [] := Walk.sound_run fun _ _ _ hline h => sound_visit h hline

/-- A visit changes nothing about noise. -/
theorem noise_visit (names : Names) (header : Text) (line : Nat) (w : Walk Unit) :
    (visit names header line w).scan.noise = w.scan.noise := by
  unfold visit
  split
  · rw [member_eq]
    split
    · rfl
    · exact noise_link.trans (noise_declare _ _)
  · rcases topLevel_cases names header line w with heq | ⟨d, -, heq⟩ | ⟨d, w', -, -, hlinks, -, heq⟩
    · rw [heq]
    · rw [heq]
      exact noise_declare _ _
    · rw [heq]
      exact hlinks.noise.trans (noise_declare _ _)

/-- Neither does a walk. -/
theorem noise_walked (file : SourceFile) : (walked file).scan.noise = .cLike :=
  Walk.run_induction (I := fun w => w.scan.noise = .cLike) rfl (fun header line w _ _ h => (noise_visit _ header line w).trans h)
    fun _ _ h => h

/-- The code of the steps is that of the lines without noise. -/
theorem map_code_steps (file : SourceFile) : (steps file).map (·.code) = file.lines.map Noise.cLike.strip :=
  Walk.map_code_stepsFrom (noise_visit _) 1 file.lines _

/-- Before the first line nothing has been gathered. -/
theorem gathered_start (file : SourceFile) : Gathered [] [] { scan := FileScan.start file .cLike, notes := () } where
  scopes := rfl
  entered := fun _ _ h => nomatch h.lt_length
  types := fun _ h => nomatch h
  ranged := fun _ h => nomatch h
  methods := fun _ h => nomatch h
  owners := fun _ h => nomatch h
  members := fun _ h => nomatch h

/-- No two types are declared under one name. -/
def DeclaresTypesOnce (file : SourceFile) : Prop := (enteredNames (steps file)).Nodup

/-- Whether a file declares its types once is decided by their names. -/
instance (file : SourceFile) : Decidable (DeclaresTypesOnce file) := inferInstanceAs (Decidable (List.Nodup _))

/-- Members of types with different names have different ids. -/
def TellsMembersApart (file : SourceFile) : Prop := (members file).Pairwise IdTellsType

/-- Whether it tells its members apart is decided pair by pair. -/
instance (file : SourceFile) : Decidable (TellsMembersApart file) := inferInstanceAs (Decidable (List.Pairwise _ _))

/-- A walk through a file that tells its types and members apart gathers them. -/
theorem gathered_walked {file : SourceFile} (hnames : DeclaresTypesOnce file) (hids : TellsMembersApart file) :
    Gathered (steps file) (members file) (walked file) :=
  (gathered_start file).walk (sound_start file .cLike) (Nat.zero_add _) hnames hids

/-- The entities of a file are what its walk has recorded. -/
theorem mem_entities_read {file : SourceFile} {e : Entity} :
    e ∈ (read file).entities ↔ ∃ d ∈ (walked file).scan.decls, (walked file).scan.toEntity decision .cLike d = e :=
  mem_entities_iff

/-- The links of membership of a file are those that its walk has recorded. -/
theorem exists_memberOf_iff {file : SourceFile} {fromId toId : String} :
    (∃ e ∈ (read file).edges, e.link = (fromId, toId, .memberOf)) ↔
      ∃ e ∈ (walked file).scan.edges, e.link = (fromId, toId, .memberOf) := by
  rw [read_eq]
  exact exists_link_finish_iff (fun e he => (isImport_of_mem_importEdges he).kind) (by decide)

/-- No brace is closed that has not been opened before. -/
def ClosesOpened (code : Text) : Prop := ∀ n, (code.take n).count '}' ≤ (code.take n).count '{'

/-- The ranges of a member and its type, as far as they depend on each other. -/
theorem Gathered.ranges {file : SourceFile} {found : List (Declaration × Declaration)} (h : Gathered (steps file) found (walked file))
    (hnames : DeclaresTypesOnce file) {m t : Declaration} (hm : m ∈ (walked file).scan.decls)
    (ht : t ∈ (walked file).scan.decls) (hmember : IsMemberOf (walked file) m t) :
    t.startLine < m.startLine ∧
      (ClosesOpened (Noise.cLike.code file.lines) → Nesting.PlainFrom {} (steps file) → m.startLine ≤ (walked file).scan.endLine t) ∧
      (m.startLine ≤ (walked file).scan.endLine t →
        (Block.EndsBeforeClose .cLike file.lines m.startLine → (walked file).scan.endLine m ≤ (walked file).scan.endLine t) ∧
          (Block.RunsPastClose .cLike file.lines m.startLine → (walked file).scan.endLine t < (walked file).scan.endLine m)) := by
  have hsound := sound_walked file
  have hcode := map_code_steps file
  obtain ⟨i, j, o, htstart, hmstart, howner, hi, hdepth⟩ := h.exists_owned hsound hm ht hmember
  have hij : i < j := Nat.lt_of_lt_of_le hi.lt_length (List.length_take_le j _)
  have hj : j < file.lines.length := by
    have hlast := (hsound.fits m hm).start.2
    rwa [hmstart] at hlast
  rw [h.endLine_eq (noise_walked file) hsound ht (List.mem_cons_of_mem _ hmember.2.1),
    h.endLine_eq (noise_walked file) hsound hm (hmember.1 ▸ List.mem_cons_self), htstart, hmstart]
  refine ⟨by omega, fun hbraces hplain => ?_, fun hle => ⟨fun hends => ?_, fun hruns => ?_⟩⟩
  · have hdip : dip (codeOf (steps file)) = 0 := by
      refine Nat.le_zero.1 (dip_le_iff.2 ?_)
      rw [codeOf, List.flatMap_def, hcode, ← List.flatMap_def]
      exact hbraces
    exact Nat.le_trans (le_braceEnd_of_owner hcode hj hi hdepth howner hdip hplain (List.Nodup.of_map _ hnames)) (Nat.le_max_left _ _)
  · have hwithin : j + 1 ≤ Block.braceEnd .cLike file.lines (i + 1) := by omega
    have hend := braceEnd_le_of_ends hcode (Nat.le_of_lt hij) hj hdepth hwithin hends
    omega
  · have hwithin : j + 1 ≤ Block.braceEnd .cLike file.lines (i + 1) := by omega
    have hend := braceEnd_lt_of_runs hcode (Nat.le_of_lt hij) hj hdepth hwithin hruns
    omega

/-- A method begins below the first line of its type, and within its type if all lines of the file are plain ones. There, it ends within
its type if a brace of its own or a semicolon comes before a brace is closed; and it ends below its type if the closing brace comes first
and the next brace or semicolon on a later line. -/
theorem members_within {file : SourceFile} (hnames : DeclaresTypesOnce file) (hids : TellsMembersApart file) {m t : Entity}
    (hm : m ∈ (read file).entities) (ht : t ∈ (read file).entities) (hmethod : m.kind = .method) (htype : t.kind ∈ typeKinds)
    (hmember : ∃ e ∈ (read file).edges, e.link = (m.id, t.id, .memberOf)) :
    t.startLine < m.startLine ∧
      (ClosesOpened (Noise.cLike.code file.lines) → Nesting.PlainFrom {} (steps file) → m.startLine ≤ t.endLine) ∧
      (m.startLine ≤ t.endLine →
        (Block.EndsBeforeClose .cLike file.lines m.startLine.toNat → m.endLine ≤ t.endLine) ∧
          (Block.RunsPastClose .cLike file.lines m.startLine.toNat → t.endLine < m.endLine)) := by
  rw [exists_memberOf_iff] at hmember
  obtain ⟨md, hmd, rfl⟩ := mem_entities_read.1 hm
  obtain ⟨td, htd, rfl⟩ := mem_entities_read.1 ht
  obtain ⟨hbefore, hstarts, hends⟩ := (gathered_walked hnames hids).ranges hnames hmd htd ⟨hmethod, htype, hmember⟩
  refine ⟨Int.ofNat_lt.2 hbefore, fun hbraces hplain => Int.ofNat_le.2 (hstarts hbraces hplain), fun hle => ?_⟩
  have hend := hends (Int.ofNat_le.1 hle)
  exact ⟨fun h => Int.ofNat_le.2 (hend.1 h), fun h => Int.ofNat_lt.2 (hend.2 h)⟩

/-- A file without anything around it. -/
def typeScriptFile (content : String) : SourceFile where
  repoId := "r"
  path := "a.ts"
  content := content
  language := "typescript"
  known := .ofFiles ["a.ts"]

/-- A class with a method. -/
def methodWithBody : SourceFile := typeScriptFile "class A \x7b\n  f() \x7b\n  \x7d\n\x7d\n"

/-- An interface with a method that has neither a body nor a semicolon, and a function below it. -/
def methodWithoutEnd : SourceFile :=
  typeScriptFile "interface A \x7b\n  f(): void\n\x7d\nfunction g() \x7b\n  return 1;\n\x7d\n"

/-- A method with a body is a member within its class. -/
theorem members_within_methodWithBody :
    ∃ m ∈ (read methodWithBody).entities, ∃ t ∈ (read methodWithBody).entities,
      (∃ e ∈ (read methodWithBody).edges, e.link = (m.id, t.id, .memberOf)) ∧ m.kind = .method ∧ t.kind ∈ typeKinds ∧
        t.startLine < m.startLine ∧ m.endLine ≤ t.endLine := by
  have hfound : ∃ m ∈ (walked methodWithBody).scan.decls, ∃ t ∈ (walked methodWithBody).scan.decls,
      IsMemberOf (walked methodWithBody) m t ∧ Block.EndsBeforeClose .cLike methodWithBody.lines m.startLine := by decide +kernel
  have hnames : DeclaresTypesOnce methodWithBody := by decide +kernel
  have hids : TellsMembersApart methodWithBody := by decide +kernel
  have hdip : dip (Noise.cLike.code methodWithBody.lines) ≤ 0 := by decide
  have hplain : Nesting.PlainFrom {} (steps methodWithBody) := by decide +kernel
  obtain ⟨m, hm, t, ht, hmember, hends⟩ := hfound
  have hedge := exists_memberOf_iff.2 hmember.2.2
  have hm' := mem_entities_read.2 ⟨m, hm, rfl⟩
  have ht' := mem_entities_read.2 ⟨t, ht, rfl⟩
  obtain ⟨hbefore, hstarts, hwithin⟩ := members_within hnames hids hm' ht' hmember.1 hmember.2.1 hedge
  have hstart := hstarts (dip_le_iff.1 hdip) hplain
  exact ⟨_, hm', _, ht', hedge, hmember.1, hmember.2.1, hbefore, (hwithin hstart).1 hends⟩

/-- The method without an end gets the range of the function below its interface in addition. -/
theorem methodWithoutEnd_not_within :
    ClosesOpened (Noise.cLike.code methodWithoutEnd.lines) ∧
      (Noise.cLike.code methodWithoutEnd.lines).count '{' = (Noise.cLike.code methodWithoutEnd.lines).count '}' ∧
      DeclaresTypesOnce methodWithoutEnd ∧
      ∃ m ∈ (read methodWithoutEnd).entities, ∃ t ∈ (read methodWithoutEnd).entities,
        (∃ e ∈ (read methodWithoutEnd).edges, e.link = (m.id, t.id, .memberOf)) ∧ m.kind = .method ∧ t.kind = .interface ∧
          ¬ m.endLine ≤ t.endLine := by
  have hfound : ∃ m ∈ (walked methodWithoutEnd).scan.decls, ∃ t ∈ (walked methodWithoutEnd).scan.decls,
      IsMemberOf (walked methodWithoutEnd) m t ∧ t.kind = .interface ∧
        (walked methodWithoutEnd).scan.endLine t < (walked methodWithoutEnd).scan.endLine m := by decide +kernel
  have hdip : dip (Noise.cLike.code methodWithoutEnd.lines) ≤ 0 := by decide
  obtain ⟨m, hm, t, ht, hmember, hkind, hlt⟩ := hfound
  refine ⟨dip_le_iff.1 hdip, by decide +kernel, by decide +kernel, _, mem_entities_read.2 ⟨m, hm, rfl⟩, _,
    mem_entities_read.2 ⟨t, ht, rfl⟩, exists_memberOf_iff.2 hmember.2.2, hmember.1, hkind, ?_⟩
  exact Int.not_le.2 (Int.ofNat_lt.2 hlt)

end CodeAtlas.TypeScript
