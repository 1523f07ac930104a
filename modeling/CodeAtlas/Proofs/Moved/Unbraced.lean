import CodeAtlas.Language.Go.Declarations
import CodeAtlas.Language.Ruby.Declarations
import CodeAtlas.Proofs.Language.Lines
import CodeAtlas.Proofs.Moved.Scan
import CodeAtlas.Proofs.Moved.Statements

/-!
# The languages without braces, further down

Go, Python and Ruby are walked line by line, each with scopes of its own. Blank lines at the top leave no trace in any of them, and
what is recorded on a line does not depend on its number, but for the number itself.
-/

namespace CodeAtlas

open FileScan

variable {k : Nat} {m : Match} {line : Nat}

/-! ## Go -/

namespace Go

variable {lines : List Text} {scan : FileScan}

/-- A function is recorded alike further down. -/
theorem declareFunction_movedDown :
    declareFunction lines (line + k) m (scan.movedDown k) = (declareFunction lines line m scan).movedDown k := by
  have hmember : ∀ {d d' : Declaration} {s s' : FileScan} {owner : String}, s' = s.movedDown k → d' = d.movedDown k →
      (s'.modify d'.id fun d => { d with parent := some owner }).link d'.id (s'.localId .struct owner) .memberOf =
        ((s.modify d.id fun d => { d with parent := some owner }).link d.id (s.localId .struct owner) .memberOf).movedDown k := by
    intro d d' s s' owner hs hd
    subst hs hd
    rw [modify_movedDown (f := fun d => { d with parent := some owner }) fun _ => rfl]
    exact link_movedDown _ _ _
  unfold declareFunction
  dsimp only
  split
  · exact hmember (fst_declare_movedDown rfl) (snd_declare_movedDown rfl)
  · exact fst_declare_movedDown rfl

/-- A visit further down does what it does above. -/
theorem visit_movedDown : visit lines (line + k) (scan.movedDown k) = (visit lines line scan).movedDown k := by
  unfold visit
  dsimp only
  split
  · exact declareFunction_movedDown
  split
  · exact fst_declare_movedDown rfl
  · rfl

/-- A walk further down does what it does above. -/
theorem walk_movedDown (line : Nat) (lines : List Text) (scan : FileScan) :
    walk (line + k) lines (scan.movedDown k) = (walk line lines scan).movedDown k := by
  induction lines generalizing line scan with
  | nil => rfl
  | cons l ls ih => rw [walk, visit_movedDown, Nat.add_right_comm, ih, walk]

/-- Empty lines are walked over without effect. -/
theorem walk_blank (line : Nat) (lines : List Text) (scan : FileScan) :
    walk line (List.replicate k [] ++ lines) scan = walk (line + k) lines scan := by
  induction k generalizing line with
  | zero => rfl
  | succ n ih =>
    rw [← Nat.add_assoc, Nat.add_right_comm]
    exact ih (line + 1)

/-- A file that is moved down is read as before, further down. -/
theorem read_movedDown (file : SourceFile) : read (file.movedDown k) = (read file).movedDown k := by
  unfold read
  dsimp only
  rw [importEdges_start_movedDown importStatements_blank, start_movedDown]
  show (walk 1 (List.replicate k [] ++ (start file .cLike).lines) ((start file .cLike).movedDown k)).finish _ _ _ = _
  rw [walk_blank, walk_movedDown]
  exact finish_movedDown (sound_walk (sound_start file .cLike) (Nat.le_refl 1) (Nat.le_of_eq (Nat.add_comm _ _))) _ (by decide) _ _

end Go

/-! ## Python -/

namespace Python

variable {names : Names} {lines : List Text} {indent : Nat}

/-- The state in a file with `k` line feeds in front. -/
def State.movedDown (k : Nat) (s : State) : State where
  scan := s.scan.movedDown k
  scopes := s.scopes.map fun scope => (scope.1, scope.2.movedDown k)

/-- A function is recorded alike further down. -/
theorem declareFunction_movedDown (s : State) :
    declareFunction names lines (line + k) indent m (s.movedDown k) = (declareFunction names lines line indent m s).movedDown k := by
  have henter : ∀ (scopes : List (Nat × Declaration)) {d d' : Declaration} {scan scan' : FileScan}, scan' = scan.movedDown k →
      d' = d.movedDown k → State.mk scan' ((indent, d') :: scopes.map fun scope => (scope.1, scope.2.movedDown k)) =
        State.movedDown k { scan, scopes := (indent, d) :: scopes } := by
    intro scopes d d' scan scan' hscan hd
    rw [hscan, hd]
    rfl
  obtain ⟨scan, scopes⟩ := s
  unfold declareFunction
  dsimp only [State.movedDown]
  cases scopes with
  | nil => exact henter [] (fst_declare_movedDown rfl) (snd_declare_movedDown rfl)
  | cons top below =>
    obtain ⟨outer, owner⟩ := top
    rw [List.map_cons]
    dsimp only
    rw [Declaration.kind_movedDown]
    split
    · refine henter ((outer, owner) :: below) (declareMember_movedDown ?_ owner) (snd_declare_movedDown ?_) <;> rfl
    · exact henter ((outer, owner) :: below) (fst_declare_movedDown rfl) (snd_declare_movedDown rfl)

/-- The id of a base class: that of the class imported by its name, or of one in the file itself. -/
def baseId (names : Names) (scan : FileScan) (base : String) : String :=
  match fileOfSymbol? names.imported base with
  | some path => scan.idIn path .class_ base
  | none => scan.localId .class_ base

/-- A class is recorded alike further down. -/
theorem declareClass_movedDown (s : State) :
    declareClass names (line + k) indent m (s.movedDown k) = (declareClass names line indent m s).movedDown k := by
  have henter : ∀ {d d' : Declaration} {scan scan' : FileScan}, scan' = scan.movedDown k → d' = d.movedDown k →
      State.mk ((baseClassNames (m.get .bases)).foldl (fun out base => out.link d'.id (baseId names scan' base) .extending) scan')
          ((indent, d') :: (s.movedDown k).scopes) =
        State.movedDown k
          { scan := (baseClassNames (m.get .bases)).foldl (fun out base => out.link d.id (baseId names scan base) .extending) scan
            scopes := (indent, d) :: s.scopes } := by
    intro d d' scan scan' hscan hd
    subst hscan hd
    exact congrArg (State.mk · _) (foldl_movedDown (fun _ _ => link_movedDown _ _ _) rfl _)
  have hempty : (s.movedDown k).scopes.isEmpty = s.scopes.isEmpty := List.isEmpty_map
  unfold declareClass
  dsimp only
  rw [hempty]
  exact henter (fst_declare_movedDown rfl) (snd_declare_movedDown rfl)

/-- A visit further down does what it does above. -/
theorem visit_movedDown (s : State) : visit names lines (line + k) (s.movedDown k) = (visit names lines line s).movedDown k := by
  have hleave : ∀ indent, (s.movedDown k).scopes.dropWhile (fun scope => decide (indent ≤ scope.1)) =
      (s.scopes.dropWhile fun scope => decide (indent ≤ scope.1)).map fun scope => (scope.1, scope.2.movedDown k) :=
    fun _ => List.dropWhile_map
  unfold visit
  dsimp only
  rw [hleave]
  split
  · rfl
  split
  · exact congrArg (State.mk · _) (fst_declare_movedDown rfl)
  split
  · exact declareFunction_movedDown { s with scopes := s.scopes.dropWhile _ }
  split
  · exact declareClass_movedDown { s with scopes := s.scopes.dropWhile _ }
  · rfl

/-- A walk further down does what it does above. -/
theorem walk_movedDown (line : Nat) (lines : List Text) (s : State) :
    walk names (line + k) lines (s.movedDown k) = (walk names line lines s).movedDown k := by
  induction lines generalizing line s with
  | nil => rfl
  | cons l ls ih => rw [walk, visit_movedDown, Nat.add_right_comm, ih, walk]

/-- Empty lines are walked over without effect. -/
theorem walk_blank (line : Nat) (lines : List Text) (s : State) :
    walk names line (List.replicate k [] ++ lines) s = walk names (line + k) lines s := by
  induction k generalizing line with
  | zero => rfl
  | succ n ih =>
    rw [← Nat.add_assoc, Nat.add_right_comm]
    exact ih (line + 1)

/-- A file that is moved down is read as before, further down. -/
theorem read_movedDown (file : SourceFile) : read (file.movedDown k) = (read file).movedDown k := by
  unfold read
  dsimp only
  rw [importEdges_start_movedDown importStatements_blank, importedSymbolFiles_movedDown, SourceFile.text_movedDown,
    publicNames?_replicate_append, start_movedDown]
  show (walk _ 1 (List.replicate k [] ++ (start file .hash).lines) (State.movedDown k { scan := start file .hash })).scan.finish _ _ _ = _
  rw [walk_blank, walk_movedDown]
  exact finish_movedDown (sound_walk (sound_start file .hash) (Nat.le_refl 1) (Nat.le_of_eq (Nat.add_comm _ _))) _ (by decide) _ _

end Python

/-! ## Ruby -/

namespace Ruby

/-- The scope in a file with `k` line feeds in front. -/
def BlockScope.movedDown (k : Nat) (c : BlockScope) : BlockScope := { c with decl := c.decl.map (Declaration.movedDown k) }

/-- The state in a file with `k` line feeds in front. -/
def State.movedDown (k : Nat) (s : State) : State where
  scan := s.scan.movedDown k
  scopes := s.scopes.map (BlockScope.movedDown k)
  depth := s.depth

variable {l : Text}

/-- The owner of a line is moved down with it. -/
theorem owner_movedDown (s : State) : (s.movedDown k).owner = s.owner.map (Declaration.movedDown k) := by
  obtain ⟨scan, scopes, depth⟩ := s
  cases scopes <;> rfl

/-- A class is recorded alike further down. -/
theorem declareClass_movedDown (s : State) : declareClass m (line + k) (s.movedDown k) = (declareClass m line s).movedDown k := by
  have henter : ∀ {d d' : Declaration} {scan scan' : FileScan} {bases : Bool} {base : String}, scan' = scan.movedDown k →
      d' = d.movedDown k →
      State.push { s.movedDown k with scan := if bases then scan'.link d'.id (scan'.localId .class_ base) .extending else scan' }
          (some d') =
        (State.push { s with scan := if bases then scan.link d.id (scan.localId .class_ base) .extending else scan }
          (some d)).movedDown k := by
    intro d d' scan scan' bases base hscan hd
    subst hscan hd
    refine congrArg (fun scan => State.push { s.movedDown k with scan } (some (d.movedDown k))) ?_
    cases bases with
    | true => exact link_movedDown _ _ _
    | false => rfl
  unfold declareClass
  dsimp only
  rw [owner_movedDown]
  cases s.owner with
  | some o => refine henter (declareMember_movedDown ?_ o) (snd_declare_movedDown ?_) <;> rfl
  | none => exact henter (fst_declare_movedDown rfl) (snd_declare_movedDown rfl)

/-- A method is recorded alike further down. -/
theorem declareMethod_movedDown (s : State) : declareMethod m (line + k) (s.movedDown k) = (declareMethod m line s).movedDown k := by
  have hvisibility : (s.movedDown k).scopes.head?.map BlockScope.visibility = s.scopes.head?.map BlockScope.visibility := by
    unfold State.movedDown
    cases s.scopes <;> rfl
  have hscan : ∀ {scan scan' : FileScan}, scan' = scan.movedDown k →
      { s.movedDown k with scan := scan' } = State.movedDown k { s with scan } := by
    intro scan scan' hscan
    rw [hscan]
    rfl
  unfold declareMethod
  dsimp only
  rw [owner_movedDown, hvisibility]
  cases s.owner with
  | some o => exact hscan (declareMember_movedDown (by rfl) o)
  | none => exact hscan (fst_declare_movedDown rfl)

/-- A visit further down does what it does above, whichever kind of line it is. -/
theorem visit_movedDown (s : State) : visit l (line + k) (s.movedDown k) = (visit l line s).movedDown k := by
  have hpush : ∀ {d d' : Declaration} {scan scan' : FileScan}, scan' = scan.movedDown k → d' = d.movedDown k →
      State.push { s.movedDown k with scan := scan' } (some d') = (State.push { s with scan } (some d)).movedDown k := by
    intro d d' scan scan' hscan hd
    subst hscan hd
    rfl
  unfold visit
  dsimp only
  split
  · obtain ⟨scan, scopes, depth⟩ := s
    cases scopes <;> rfl
  split
  · exact declareClass_movedDown s
  split
  · exact hpush (fst_declare_movedDown rfl) (snd_declare_movedDown rfl)
  split
  · rw [owner_movedDown]
    rfl
  split
  · exact declareMethod_movedDown s
  · rfl

/-- A walk further down does what it does above. -/
theorem walk_movedDown (line : Nat) (lines : List Text) (s : State) :
    walk (line + k) lines (s.movedDown k) = (walk line lines s).movedDown k := by
  have hadvance : ∀ (s : State) l, (s.movedDown k).advance l = (s.advance l).movedDown k := by
    intro s l
    exact congrArg (fun scopes => { s.advance l with scan := s.scan.movedDown k, scopes }) List.dropWhile_map
  induction lines generalizing line s with
  | nil => rfl
  | cons l ls ih =>
    unfold walk
    dsimp only
    rw [visit_movedDown, ← apply_ite (State.movedDown k), hadvance, Nat.add_right_comm, ih]

/-- Empty lines are walked over without effect. -/
theorem walk_blank (line : Nat) (lines : List Text) (scan : FileScan) :
    walk line (List.replicate k [] ++ lines) { scan } = walk (line + k) lines { scan } := by
  induction k generalizing line with
  | zero => rfl
  | succ n ih =>
    rw [← Nat.add_assoc, Nat.add_right_comm]
    exact ih (line + 1)

/-- A file that is moved down is read as before, further down. -/
theorem read_movedDown (file : SourceFile) : read (file.movedDown k) = (read file).movedDown k := by
  have hwalk : ∀ (lines : List Text) (scan : FileScan),
      walk 1 (List.replicate k [] ++ lines) { scan := scan.movedDown k } = (walk 1 lines { scan }).movedDown k := by
    intro lines scan
    rw [walk_blank]
    exact walk_movedDown 1 lines { scan }
  unfold read
  dsimp only
  rw [importEdges_start_movedDown importStatements_blank, start_movedDown]
  show (walk 1 (List.replicate k [] ++ (start file .hash).lines) { scan := (start file .hash).movedDown k }).scan.finish _ _ _ = _
  rw [hwalk]
  exact finish_movedDown (sound_walk (sound_start file .hash) (Nat.le_refl 1) (Nat.le_of_eq (Nat.add_comm _ _))) _ (by decide) _ _

end Ruby

end CodeAtlas
