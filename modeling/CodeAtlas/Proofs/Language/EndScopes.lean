import CodeAtlas.Proofs.Language.Lines
import CodeAtlas.Proofs.Source.EndKeyword
import CodeAtlas.Proofs.Source.Indentation
import CodeAtlas.Proofs.Source.Recording
import Mathlib.Data.List.Nodup

/-!
# Scopes by end keywords

Blocks are counted twice in a Ruby file. The walk counts those that are open so far, and leaves a scope when the count falls back to
what it was before the header. The search for the last line of a class or module counts anew from its header on. Both close it on the
same line, in whatever text, so what is recorded while its scope is the innermost lies within its range.
-/

namespace CodeAtlas.Ruby

open Text FileScan

/-- The kinds of the declarations that are entered. -/
def scopeKinds : List EntityKind := [.class_, .module_]

/-- Shows a line to the visitor, unless there is no code on it. -/
def look (l : Text) (line : Nat) (s : State) : State :=
  if (strip l).isEmpty || startsWith (strip l) "#" then s else visit l line s

/-- The state after so many lines of a file. -/
def stateAfter (file : SourceFile) (n : Nat) : State := walk 1 (file.lines.take n) { scan := FileScan.start file .hash }

/-- The state after a line has been visited and before its blocks are counted. -/
def stateOn (file : SourceFile) (line : Nat) : State := look (lineAt file.lines line) line (stateAfter file (line - 1))

/-- The lines on which the scopes were entered that are open after so many lines, the innermost first. A line is added when a scope is,
and as many are taken away as scopes are left. -/
def scopeLines (file : SourceFile) : Nat → List Nat
  | 0 => []
  | n + 1 =>
    let seen := (stateOn file (n + 1)).scopes
    let entered := if (stateAfter file n).scopes.length < seen.length then (n + 1) :: scopeLines file n else scopeLines file n
    entered.drop (seen.length - (stateAfter file (n + 1)).scopes.length)

/-- What tells the scopes apart: their declarations and how many blocks are open around them. -/
def State.marks (s : State) : List (Option Declaration × Int) := s.scopes.map fun c => (c.decl, c.depth)

section Walk

variable {file : SourceFile} {line n : Nat} {s : State}

/-- A walk over lines and then over others is one walk. -/
theorem walk_append (line : Nat) (ls ls' : List Text) (s : State) :
    walk line (ls ++ ls') s = walk (line + ls.length) ls' (walk line ls s) := by
  induction ls generalizing line s with
  | nil => rfl
  | cons l ls ih =>
    rw [List.cons_append, List.length_cons, Nat.add_comm ls.length, ← Nat.add_assoc]
    exact ih (line + 1) _

/-- The state after a line is the state on it, taken on to the next. -/
theorem stateAfter_succ (hn : n < file.lines.length) :
    stateAfter file (n + 1) = (stateOn file (n + 1)).advance (lineAt file.lines (n + 1)) := by
  have hline : lineAt file.lines (n + 1) = file.lines[n] := lineAt_of_drop (List.drop_eq_getElem_cons hn)
  have hlength : (file.lines.take n).length = n := List.length_take_of_le (Nat.le_of_lt hn)
  rw [stateAfter, List.take_succ_eq_append_getElem hn, walk_append, hlength, stateOn, hline, Nat.add_comm 1 n]
  rfl

/-- After the last line the walk has come to its end. -/
theorem stateAfter_length (file : SourceFile) :
    stateAfter file file.lines.length = walk 1 file.lines { scan := FileScan.start file .hash } := by
  rw [stateAfter, List.take_length]

end Walk

/-- What seeing a line does: at most one scope is entered, a class or module is recorded exactly with its scope, and what is recorded
stays. -/
structure IsStep (line : Nat) (s s' : State) : Prop where
  depth : s'.depth = s.depth
  marks : s'.marks = s.marks ∨ ∃ decl, s'.marks = (decl, s.depth) :: s.marks
  old : ∀ d ∈ s.scan.recorded, d ∈ s'.scan.recorded
  new : ∀ d ∈ s'.scan.recorded, d ∈ s.scan.recorded ∨ d.IsDraft .endKeyword line ∧
    (d.kind ∈ scopeKinds → ∃ o : Declaration, o.id = d.id ∧ s'.marks = (some o, s.depth) :: s.marks)

section Step

variable {line : Nat} {l : Text} {m : Match} {s s' : State} {d : Declaration}

/-- A line on which nothing is done is a step. -/
theorem IsStep.refl (line : Nat) (s : State) : IsStep line s s := ⟨rfl, Or.inl rfl, fun _ h => h, fun _ h => Or.inl h⟩

/-- A word that sets the visibility records and enters nothing. -/
theorem isStep_setVisibility (line : Nat) (s : State) (visibility : Text) : IsStep line s (s.setVisibility visibility) := by
  unfold State.setVisibility
  split
  · exact .refl line s
  · rename_i top below hscopes
    refine ⟨rfl, Or.inl ?_, fun _ h => h, fun _ h => Or.inl h⟩
    rw [State.marks, State.marks, hscopes]
    rfl

/-- Entering a scope is a step. -/
theorem isStep_push (line : Nat) (s : State) (decl : Option Declaration) : IsStep line s (s.push decl) :=
  ⟨rfl, Or.inr ⟨decl, rfl⟩, fun _ h => h, fun _ h => Or.inl h⟩

/-- A class or module is recorded and entered. -/
theorem isStep_declareScope (hd : d.IsDraft .endKeyword line) (hrecorded : s'.scan.recorded = (s.scan.declare d).1.recorded)
    (hdepth : s'.depth = s.depth) (hmarks : s'.marks = (some (s.scan.declare d).2, s.depth) :: s.marks) : IsStep line s s' := by
  refine ⟨hdepth, Or.inr ⟨_, hmarks⟩, fun b hb => hrecorded ▸ recorded_declare_of_mem hb, fun b hb => ?_⟩
  refine (mem_recorded_declare (hrecorded ▸ hb)).imp_right ?_
  rintro rfl
  exact ⟨hd.bare_eq.symm ▸ hd, fun _ => ⟨(s.scan.declare d).2, id_declare s.scan d, hmarks⟩⟩

/-- A method or function is recorded and not entered. -/
theorem isStep_declare (hd : d.IsDraft .endKeyword line) (hkind : d.kind ∉ scopeKinds)
    (hrecorded : s'.scan.recorded = (s.scan.declare d).1.recorded) (hdepth : s'.depth = s.depth) (hmarks : s'.marks = s.marks) :
    IsStep line s s' := by
  refine ⟨hdepth, Or.inl hmarks, fun b hb => hrecorded ▸ recorded_declare_of_mem hb, fun b hb => ?_⟩
  refine (mem_recorded_declare (hrecorded ▸ hb)).imp_right ?_
  rintro rfl
  exact ⟨hd.bare_eq.symm ▸ hd, fun h => absurd h hkind⟩

/-- What is recorded of a type's header begins on its line and ends by keyword. -/
theorem isDraft_typeDraft (kind : EntityKind) (m : Match) (line : Nat) (s : State) :
    (typeDraft s kind m line).IsDraft .endKeyword line := ⟨rfl, rfl, rfl, rfl⟩

/-- A header of a class is a step: it records one declaration at most, and enters it. -/
theorem isStep_declareClass (m : Match) (line : Nat) (s : State) : IsStep line s (declareClass m line s) := by
  refine isStep_declareScope (isDraft_typeDraft .class_ m line s) ?_ rfl rfl
  have hbase : ∀ (scan : FileScan) (id base : String),
      (if m.has .bases then scan.link id base .extending else scan).recorded = scan.recorded := by
    intro scan id base
    split
    · exact ((AddsLinks.refl scan).link (by decide)).recorded
    · rfl
  unfold declareClass
  dsimp only
  cases s.owner with
  | none => exact hbase _ _ _
  | some o => exact (hbase _ _ _).trans (recorded_memberOf _ o)

/-- A header of a method is a step: it records one declaration at most, and enters it. -/
theorem isStep_declareMethod (m : Match) (line : Nat) (s : State) : IsStep line s (declareMethod m line s) := by
  unfold declareMethod
  extract_lets name params visibility shown fill
  split
  · have hkind : EntityKind.method ∉ scopeKinds := by decide
    exact isStep_declare (d := fill _) ⟨rfl, rfl, rfl, rfl⟩ hkind (recorded_memberOf _ _) rfl rfl
  · have hkind : EntityKind.function ∉ scopeKinds := by decide
    exact isStep_declare (d := fill _) ⟨rfl, rfl, rfl, rfl⟩ hkind rfl rfl rfl

/-- A visit is a step. -/
theorem isStep_visit (l : Text) (line : Nat) (s : State) : IsStep line s (visit l line s) := by
  unfold visit
  split
  · exact isStep_setVisibility line s _
  split
  · exact isStep_declareClass _ line s
  split
  · exact isStep_declareScope (isDraft_typeDraft .module_ _ line s) rfl rfl rfl
  split
  · exact isStep_push line s _
  split
  · exact isStep_declareMethod _ line s
  · exact .refl line s

/-- A line is a step also where it is passed over. -/
theorem isStep_look (l : Text) (line : Nat) (s : State) : IsStep line s (look l line s) := by
  unfold look
  split
  · exact .refl line s
  · exact isStep_visit l line s

/-- Behind a line, the scopes are left whose keyword has been reached. -/
theorem marks_advance (s : State) (l : Text) :
    (s.advance l).marks = s.marks.dropWhile fun c => decide ((s.advance l).depth ≤ c.2) := by
  rw [State.marks, State.marks, List.dropWhile_map]
  rfl

end Step

/-- On a line the scope of a declaration is entered. -/
def EntersOn (file : SourceFile) (line : Nat) (decl : Option Declaration) : Prop :=
  (stateOn file line).marks = (decl, (stateAfter file (line - 1)).depth) :: (stateAfter file (line - 1)).marks

/-- A scope is the one that was entered on a line. -/
structure IsEntered (file : SourceFile) (n : Nat) (c : Option Declaration × Int) (line : Nat) : Prop where
  first : 1 ≤ line
  last : line ≤ n
  depth : c.2 = Block.openBlocks file.lines (line - 1)
  enters : EntersOn file line c.1

/-- After so many lines, the lines of the open scopes stand beside the scopes, and more blocks are open than around any of them. -/
structure Tracked (file : SourceFile) (n : Nat) : Prop where
  depth : (stateAfter file n).depth = Block.openBlocks file.lines n
  scopes : List.Forall₂ (IsEntered file n) (stateAfter file n).marks (scopeLines file n)
  nested : (scopeLines file n).Pairwise fun a b => Block.openBlocks file.lines (b - 1) < Block.openBlocks file.lines (a - 1)
  inside : ∀ line ∈ scopeLines file n, Block.openBlocks file.lines (line - 1) < Block.openBlocks file.lines n

section Forall₂

variable {α β : Type} {R : α → β → Prop} {p : α → Bool} {q : β → Bool} {as : List α} {bs : List β}

/-- Of two stacks of which one tells what the other one drops, the same number is dropped. -/
theorem forall₂_dropWhile (h : List.Forall₂ R as bs) (hpq : ∀ a b, R a b → p a = q b) :
    List.Forall₂ R (as.dropWhile p) (bs.dropWhile q) := by
  induction h with
  | nil => exact .nil
  | @cons a b as bs hab hrest ih =>
    rw [List.dropWhile_cons, List.dropWhile_cons, hpq a b hab]
    split
    · exact ih
    · exact .cons hab hrest

/-- Lists that correspond to each other are cut at the same place. -/
theorem drop_eq_dropWhile (h : List.Forall₂ R as bs) (hpq : ∀ a b, R a b → p a = q b) :
    bs.drop (as.length - (as.dropWhile p).length) = bs.dropWhile q := by
  induction h with
  | nil => rfl
  | @cons a b as bs hab hrest ih =>
    have hle : (as.dropWhile p).length ≤ as.length := (List.dropWhile_sublist p).length_le
    rw [List.dropWhile_cons, List.dropWhile_cons, hpq a b hab]
    split
    · rw [List.length_cons, Nat.succ_sub hle, List.drop_succ_cons, ih]
    · rw [Nat.sub_self, List.drop_zero]

end Forall₂

section Tracked

variable {file : SourceFile} {n k : Nat}

/-- A state has a mark for every scope. -/
theorem length_marks (s : State) : s.marks.length = s.scopes.length := List.length_map _

/-- What is done on a line of the file is a step. -/
theorem isStep_stateOn (file : SourceFile) (n : Nat) : IsStep (n + 1) (stateAfter file n) (stateOn file (n + 1)) :=
  isStep_look _ _ _

/-- A scope is entered where the stack grows. -/
theorem exists_entersOn_iff : (∃ decl, EntersOn file (n + 1) decl) ↔
    (stateAfter file n).scopes.length < (stateOn file (n + 1)).scopes.length := by
  rw [← length_marks, ← length_marks]
  constructor
  · rintro ⟨decl, h⟩
    have h : (stateOn file (n + 1)).marks = (decl, (stateAfter file n).depth) :: (stateAfter file n).marks := h
    rw [h, List.length_cons]
    exact Nat.lt_succ_self _
  · intro hlt
    rcases (isStep_stateOn file n).marks with hmarks | ⟨decl, hmarks⟩
    · rw [hmarks] at hlt
      exact absurd hlt (Nat.lt_irrefl _)
    · exact ⟨decl, hmarks⟩

/-- What has been entered by a line has been entered by the next. -/
theorem IsEntered.mono {c : Option Declaration × Int} (h : IsEntered file n c k) : IsEntered file (n + 1) c k :=
  { h with last := Nat.le_succ_of_le h.last }

/-- The lines of the scopes that are open while a line is seen. -/
def enteredLines (file : SourceFile) (n : Nat) : List Nat :=
  if (stateAfter file n).scopes.length < (stateOn file (n + 1)).scopes.length then (n + 1) :: scopeLines file n else scopeLines file n

/-- Entered are the lines of the scopes that are open, and the line itself if it enters something. -/
theorem mem_enteredLines : k ∈ enteredLines file n ↔ k ∈ scopeLines file n ∨ k = n + 1 ∧ ∃ decl, EntersOn file (n + 1) decl := by
  rw [exists_entersOn_iff, enteredLines]
  split
  · rename_i hgrows
    rw [List.mem_cons, or_comm]
    exact or_congr_right (and_iff_left hgrows).symm
  · rename_i hgrows
    exact (or_iff_left fun h => hgrows h.2).symm

/-- On a line, the marks of the open scopes correspond to the lines where these were entered. -/
theorem Tracked.entered (h : Tracked file n) : List.Forall₂ (IsEntered file (n + 1)) (stateOn file (n + 1)).marks (enteredLines file n) := by
  have hscopes : List.Forall₂ (IsEntered file (n + 1)) (stateAfter file n).marks (scopeLines file n) := h.scopes.imp fun _ _ => IsEntered.mono
  rw [enteredLines, ← length_marks, ← length_marks]
  rcases (isStep_stateOn file n).marks with hmarks | ⟨decl, hmarks⟩
  · rw [hmarks, if_neg (Nat.lt_irrefl _)]
    exact hscopes
  · rw [hmarks, List.length_cons, if_pos (Nat.lt_succ_self _)]
    exact .cons ⟨Nat.succ_pos n, Nat.le_refl _, h.depth, hmarks⟩ hscopes

/-- An outer scope was entered with fewer blocks open. -/
theorem Tracked.nested_entered (h : Tracked file n) :
    (enteredLines file n).Pairwise fun a b => Block.openBlocks file.lines (b - 1) < Block.openBlocks file.lines (a - 1) := by
  rw [enteredLines]
  split
  · exact .cons h.inside h.nested
  · exact h.nested

variable (hn : n < file.lines.length)

include hn

/-- The depth behind a line is the number of blocks that are open there. -/
theorem depth_stateAfter_succ (h : Tracked file n) : (stateAfter file (n + 1)).depth = Block.openBlocks file.lines (n + 1) := by
  have hline : lineAt file.lines (n + 1) = file.lines[n] := lineAt_of_drop (List.drop_eq_getElem_cons hn)
  rw [Block.openBlocks_succ hn, ← h.depth, ← (isStep_stateOn file n).depth, stateAfter_succ hn, hline]
  rfl

/-- Behind a line, the marks are left that are deeper than the blocks that are open there, in terms of the lines alone. -/
theorem marks_stateAfter_succ (h : Tracked file n) : (stateAfter file (n + 1)).marks =
    (stateOn file (n + 1)).marks.dropWhile fun c => decide (Block.openBlocks file.lines (n + 1) ≤ c.2) := by
  rw [← depth_stateAfter_succ hn h, stateAfter_succ hn, marks_advance]

/-- The lines of open scopes are found from those of the line before, in terms of the lines alone. -/
theorem scopeLines_succ (h : Tracked file n) : scopeLines file (n + 1) = (enteredLines file n).dropWhile
    fun line => decide (Block.openBlocks file.lines (n + 1) ≤ Block.openBlocks file.lines (line - 1)) := by
  have hdrop : scopeLines file (n + 1) =
      (enteredLines file n).drop ((stateOn file (n + 1)).scopes.length - (stateAfter file (n + 1)).scopes.length) := rfl
  rw [hdrop, ← length_marks, ← length_marks, marks_stateAfter_succ hn h]
  exact drop_eq_dropWhile h.entered fun c line hc => by rw [hc.depth]

/-- A line leaves those scopes open around which fewer blocks are open than after it. -/
theorem mem_scopeLines_succ (h : Tracked file n) : k ∈ scopeLines file (n + 1) ↔
    (k ∈ scopeLines file n ∨ k = n + 1 ∧ ∃ decl, EntersOn file (n + 1) decl) ∧
      Block.openBlocks file.lines (k - 1) < Block.openBlocks file.lines (n + 1) := by
  rw [scopeLines_succ hn h, mem_dropWhile_iff, mem_enteredLines, decide_eq_false_iff_not, Int.not_le]
  refine h.nested_entered.imp fun {a b} hab hb => ?_
  exact decide_eq_true ((of_decide_eq_true hb).trans (Int.le_of_lt hab))

/-- A line keeps what is known of a walk. -/
theorem Tracked.succ (h : Tracked file n) : Tracked file (n + 1) where
  depth := depth_stateAfter_succ hn h
  scopes := by
    rw [marks_stateAfter_succ hn h, scopeLines_succ hn h]
    exact forall₂_dropWhile h.entered fun c line hc => by rw [hc.depth]
  nested := by
    rw [scopeLines_succ hn h]
    exact h.nested_entered.sublist (List.dropWhile_sublist _)
  inside := fun line hline => ((mem_scopeLines_succ hn h).1 hline).2

end Tracked

/-- A walk is tracked on all its lines. -/
theorem tracked {file : SourceFile} {n : Nat} (hn : n ≤ file.lines.length) : Tracked file n := by
  induction n with
  | zero => exact ⟨rfl, .nil, .nil, fun _ h => nomatch h⟩
  | succ n ih => exact (ih (Nat.le_of_succ_le hn)).succ hn

section Open

variable {file : SourceFile} {n k : Nat} {d : Declaration}

/-- A scope is open from the line on which it is entered as long as more blocks are open than before this line. -/
theorem mem_scopeLines_iff (hn : n ≤ file.lines.length) : k ∈ scopeLines file n ↔
    1 ≤ k ∧ k ≤ n ∧ (∃ decl, EntersOn file k decl) ∧
      ∀ j, k ≤ j → j ≤ n → Block.openBlocks file.lines (k - 1) < Block.openBlocks file.lines j := by
  induction n with
  | zero => exact ⟨(nomatch ·), fun h => absurd (h.1.trans h.2.1) (Nat.not_succ_le_zero 0)⟩
  | succ n ih =>
    have hn' := Nat.le_of_succ_le hn
    rw [mem_scopeLines_succ hn (tracked hn'), ih hn']
    constructor
    · rintro ⟨⟨hfirst, hlast, henters, hopen⟩ | ⟨rfl, henters⟩, hlt⟩
      · refine ⟨hfirst, Nat.le_succ_of_le hlast, henters, fun j hj hjn => ?_⟩
        rcases Nat.le_or_eq_of_le_succ hjn with hjn | rfl
        · exact hopen j hj hjn
        · exact hlt
      · refine ⟨Nat.succ_pos n, Nat.le_refl _, henters, fun j hj hjn => ?_⟩
        obtain rfl := Nat.le_antisymm hj hjn
        exact hlt
    · rintro ⟨hfirst, hlast, henters, hopen⟩
      refine ⟨?_, hopen _ hlast (Nat.le_refl _)⟩
      rcases Nat.le_or_eq_of_le_succ hlast with hlast | rfl
      · exact Or.inl ⟨hfirst, hlast, henters, fun j hj hjn => hopen j hj (Nat.le_succ_of_le hjn)⟩
      · exact Or.inr ⟨rfl, henters⟩

/-- Beside the line of an open scope stands the scope itself. -/
theorem exists_scope_of_getElem? (hn : n ≤ file.lines.length) {i : Nat} (h : (scopeLines file n)[i]? = some k)
    {decl : Option Declaration} (henters : EntersOn file k decl) :
    ∃ c, (stateAfter file n).scopes[i]? = some c ∧ c.decl = decl ∧ c.depth = Block.openBlocks file.lines (k - 1) := by
  have hscopes := (tracked hn).scopes
  obtain ⟨hi, rfl⟩ := List.getElem?_eq_some_iff.1 h
  have hi' : i < (stateAfter file n).marks.length := hscopes.length_eq.symm ▸ hi
  have hentered := hscopes.get hi' hi
  rw [length_marks] at hi'
  have hmark : (stateAfter file n).marks[i] = ((stateAfter file n).scopes[i].decl, (stateAfter file n).scopes[i].depth) :=
    List.getElem_map _
  rw [List.get_eq_getElem, List.get_eq_getElem, hmark] at hentered
  have hsame := hentered.enters
  rw [EntersOn, henters] at hsame
  exact ⟨_, List.getElem?_eq_getElem hi', (Prod.mk.inj (List.cons.inj hsame).1).1.symm, hentered.depth⟩

/-- Going on to the next line records nothing. -/
theorem recorded_succ (hn : n < file.lines.length) :
    (stateAfter file (n + 1)).scan.recorded = (stateOn file (n + 1)).scan.recorded := by
  rw [stateAfter_succ hn]
  rfl

/-- What has been recorded stays. -/
theorem mem_recorded_mono {m : Nat} (hnm : n ≤ m) (hm : m ≤ file.lines.length) (h : d ∈ (stateAfter file n).scan.recorded) :
    d ∈ (stateAfter file m).scan.recorded := by
  induction hnm with
  | refl => exact h
  | @step m _ ih =>
    rw [recorded_succ hm]
    exact (isStep_stateOn file m).old d (ih (Nat.le_of_succ_le hm))

/-- What is recorded begins on a line that has been read, and a class or module is entered there. -/
theorem placed_of_mem_recorded (hn : n ≤ file.lines.length) (h : d ∈ (stateAfter file n).scan.recorded) :
    1 ≤ d.startLine ∧ d.startLine ≤ n ∧ d.IsDraft .endKeyword d.startLine ∧
      (d.kind ∈ scopeKinds → ∃ o : Declaration, o.id = d.id ∧ EntersOn file d.startLine (some o)) := by
  induction n with
  | zero => nomatch h
  | succ n ih =>
    rw [recorded_succ hn] at h
    rcases (isStep_stateOn file n).new d h with hold | ⟨hdraft, henters⟩
    · obtain ⟨hfirst, hlast, hrest⟩ := ih (Nat.le_of_succ_le hn) hold
      exact ⟨hfirst, Nat.le_succ_of_le hlast, hrest⟩
    · have hstart := hdraft.start
      rw [hstart]
      exact ⟨Nat.succ_pos n, Nat.le_refl _, hdraft, henters⟩

/-- What is new behind a line begins on it. -/
theorem startLine_of_new (hn : n < file.lines.length) (h : d ∈ (stateAfter file (n + 1)).scan.recorded)
    (hnew : d ∉ (stateAfter file n).scan.recorded) : d.startLine = n + 1 := by
  rw [recorded_succ hn] at h
  rcases (isStep_stateOn file n).new d h with hold | ⟨hdraft, -⟩
  · exact absurd hold hnew
  · exact hdraft.start

end Open

/-- The scope of a class or module is open from its first line up to the line before its last, and what is recorded in it lies within its
range. -/
structure FollowsRange (file : SourceFile) (e : Entity) (first last : Nat) : Prop where
  start : e.startLine = first
  ending : e.endLine = last
  found : last = Block.endKeywordEnd file.lines first
  open_iff : ∀ n ≤ file.lines.length, first ∈ scopeLines file n ↔ first ≤ n ∧ (Block.IsClosed file.lines first → n < last)
  unclosed : ¬ Block.IsClosed file.lines first → last = file.lines.length
  /-- What is open is the scope of the entity. -/
  scope : ∀ n ≤ file.lines.length, ∀ i : Nat, (scopeLines file n)[i]? = some first →
    ∃ c, (stateAfter file n).scopes[i]? = some c ∧ c.decl.map (·.id) = some e.id
  /-- What the next line records while the scope is the innermost. -/
  recorded : ∀ n < file.lines.length, (scopeLines file n).head? = some first → ∀ m ∈ (read file).entities,
    m.id ∈ (stateAfter file (n + 1)).scan.ids → m.id ∉ (stateAfter file n).scan.ids → (first : Int) ≤ m.startLine ∧ m.startLine ≤ last

section Read

variable {file : SourceFile} {n : Nat} {m : Entity}

/-- The entities of a file are what its walk has recorded in the end. -/
theorem mem_entities_read {e : Entity} : e ∈ (read file).entities ↔
    ∃ d ∈ (stateAfter file file.lines.length).scan.decls,
      (stateAfter file file.lines.length).scan.toEntity decision (.above ["#"] false) d = e := by
  rw [stateAfter_length]
  exact mem_entities_iff

/-- What the walk has recorded in the end is sound. -/
theorem sound_stateAfter_length (file : SourceFile) : (stateAfter file file.lines.length).scan.Sound file [] := by
  rw [stateAfter_length]
  exact sound_walk (sound_start file .hash) (Nat.le_refl 1) (Nat.le_of_eq (Nat.add_comm _ _))

/-- What has an id that a line brings begins on this line. -/
theorem startLine_of_new_id (hn : n < file.lines.length) (hm : m ∈ (read file).entities)
    (hid : m.id ∈ (stateAfter file (n + 1)).scan.ids) (hnew : m.id ∉ (stateAfter file n).scan.ids) : m.startLine = (n + 1 : Nat) := by
  obtain ⟨d, hd, rfl⟩ := mem_entities_read.1 hm
  rw [← map_id_recorded] at hid hnew
  obtain ⟨b, hb, hbid⟩ := List.mem_map.1 hid
  have hdistinct := (sound_stateAfter_length file).distinct
  rw [← map_id_recorded] at hdistinct
  have hlast := mem_recorded_mono hn (Nat.le_refl _) hb
  obtain rfl : b = d.bare := List.inj_on_of_nodup_map hdistinct hlast (mem_recorded_iff.2 ⟨d, hd, rfl⟩) hbid
  have hstart : d.bare.startLine = n + 1 := startLine_of_new hn hb fun hold => hnew (List.mem_map.2 ⟨d.bare, hold, rfl⟩)
  exact congrArg Nat.cast hstart

end Read

/-- In every Ruby file, the scope of a class or module is open exactly over the range that the search for its end gives it, and what is
recorded while it is the innermost begins within this range. -/
theorem exists_followsRange {file : SourceFile} {e : Entity} (he : e ∈ (read file).entities) (hkind : e.kind ∈ scopeKinds) :
    ∃ first last, FollowsRange file e first last := by
  obtain ⟨d, hd, rfl⟩ := mem_entities_read.1 he
  have hsound := sound_stateAfter_length file
  obtain ⟨hfirst, hlast, hdraft, henters⟩ := placed_of_mem_recorded (Nat.le_refl _) (mem_recorded_iff.2 ⟨d, hd, rfl⟩)
  have hfirst : 1 ≤ d.startLine := hfirst
  have hlast : d.startLine ≤ file.lines.length := hlast
  obtain ⟨o, hid, henters⟩ : ∃ o : Declaration, o.id = d.id ∧ EntersOn file d.startLine (some o) := henters hkind
  have hblock : d.block = .endKeyword := hdraft.block
  have hending : d.endLine = none := hdraft.ending
  have hend : (stateAfter file file.lines.length).scan.endLine d = Block.endKeywordEnd file.lines d.startLine := by
    rw [FileScan.endLine, hending, hblock, hsound.ofLines]
    exact Nat.max_eq_left (Block.le_endKeywordEnd hfirst hlast)
  have hopen : ∀ n ≤ file.lines.length, d.startLine ∈ scopeLines file n ↔
      d.startLine ≤ n ∧ (Block.IsClosed file.lines d.startLine → n < Block.endKeywordEnd file.lines d.startLine) := by
    intro n hn
    rw [mem_scopeLines_iff hn, and_iff_right hfirst]
    refine and_congr_right fun hle => ?_
    rw [Block.forall_lt_openBlocks_iff hfirst hle hn, and_iff_right ⟨_, henters⟩]
  have hunclosed := Block.endKeywordEnd_of_not_closed hfirst hlast
  refine ⟨d.startLine, _, rfl, congrArg Nat.cast hend, rfl, hopen, hunclosed, fun n hn i hi => ?_, fun n hn hhead m hm hnew hold => ?_⟩
  · obtain ⟨c, hc, hdecl, -⟩ := exists_scope_of_getElem? hn hi henters
    exact ⟨c, hc, hdecl ▸ congrArg some hid⟩
  · rw [startLine_of_new_id hn hm hnew hold]
    obtain ⟨hle, hclosed⟩ := (hopen n (Nat.le_of_lt hn)).1 (List.mem_of_mem_head? hhead)
    by_cases h : Block.IsClosed file.lines d.startLine
    · have hlt := hclosed h
      omega
    · rw [hunclosed h]
      omega

/-- A class with a singleton class and an endless method in it, which is opened again and not closed. -/
def reopenedClass : SourceFile where
  repoId := "r"
  path := "a.rb"
  content := "class A\n  class << self\n    def f = 1\n  end\nend\nclass A\n"
  language := "ruby"
  known := .ofFiles ["a.rb"]

/-- A class that is opened twice is recorded once, with the range of its first block. -/
theorem reopenedClass_followsRange :
    ∃ e ∈ (read reopenedClass).entities, e.kind ∈ scopeKinds ∧ FollowsRange reopenedClass e 1 5 := by
  let scan := (stateAfter reopenedClass reopenedClass.lines.length).scan
  have hclass : (scan.decls.any fun d => decide (d.kind ∈ scopeKinds) && decide (d.startLine = 1) && decide (scan.endLine d = 5)) = true := by
    decide +kernel
  obtain ⟨d, hd, hholds⟩ := List.any_eq_true.1 hclass
  simp only [Bool.and_eq_true, decide_eq_true_eq] at hholds
  obtain ⟨⟨hkind, hstart⟩, hend⟩ := hholds
  have he : scan.toEntity decision (.above ["#"] false) d ∈ (read reopenedClass).entities := mem_entities_read.2 ⟨d, hd, rfl⟩
  obtain ⟨first, last, h⟩ := exists_followsRange he hkind
  obtain rfl : first = 1 := (Int.ofNat.inj h.start).symm.trans hstart
  obtain rfl : last = 5 := (Int.ofNat.inj h.ending).symm.trans hend
  exact ⟨_, he, hkind, h⟩

end CodeAtlas.Ruby
