import CodeAtlas.Proofs.Language.Braces
import CodeAtlas.Proofs.Moved.Statements
import CodeAtlas.Proofs.Moved.Walk

/-!
# The languages with braces, further down

For each of the languages that are walked by their braces: what is recorded at a header does not depend on the line it stands on, but
for the line itself. So reading a file with line feeds in front gives what reading the file gives, moved down.
-/

namespace CodeAtlas

open Walk

variable {k : Nat} {header : Text} {line : Nat}

/-! ## TypeScript and JavaScript -/

namespace TypeScript

variable {names : Names}

/-- A header outside all types is read alike further down, whichever kind of declaration it begins. -/
theorem topLevel_movedDown (w : Walk Unit) :
    topLevel names header (line + k) (w.movedDown k) = (topLevel names header line w).movedDown k := by
  have hbases : ∀ {bases : Bool} {w w' : Walk Unit} {id id' : String} {ids : List String}, w' = w.movedDown k → id' = id →
      (if bases then w'.linkAll id' ids .extending else w') = (if bases then w.linkAll id ids .extending else w).movedDown k := by
    intro bases w w' id id' ids hw hid
    cases bases with
    | true => exact linkAll_movedDown hw hid rfl
    | false => exact hw
  have hlevel : ∀ p : Pattern, (if (w.movedDown k).scopes.depth = 0 then p.matchStart? header else none) =
      if w.scopes.depth = 0 then p.matchStart? header else none := fun _ => rfl
  unfold topLevel
  dsimp only
  rw [hlevel, hlevel]
  split
  · exact fst_declare_movedDown rfl
  split
  · refine push_movedDown (linkAll_movedDown (hbases (fst_declare_movedDown ?_) (id_declare_movedDown ?_)) (id_declare_movedDown ?_) ?_)
      (snd_declare_movedDown ?_) <;> rfl
  split
  · refine push_movedDown (linkAll_movedDown (fst_declare_movedDown ?_) (id_declare_movedDown ?_) ?_) (snd_declare_movedDown ?_) <;> rfl
  cases if w.scopes.depth = 0 then typeHeader.matchStart? header else none with
  | some m =>
    exact fst_declare_movedDown rfl
  | none =>
  dsimp only
  split
  · exact fst_declare_movedDown rfl
  cases if w.scopes.depth = 0 then arrowHeader.matchStart? header else none with
  | some m =>
    exact fst_declare_movedDown rfl
  | none => rfl

/-- A header in the body of a type is read alike further down. -/
theorem member_movedDown (owner : Declaration) (w : Walk Unit) :
    member (owner.movedDown k) header (line + k) (w.movedDown k) = (member owner header line w).movedDown k := by
  unfold member
  dsimp only
  split
  · rfl
  · split
    · rfl
    · exact declareMember_movedDown rfl

/-- A visit further down does what it does above. -/
theorem visit_movedDown (w : Walk Unit) : visit names header (line + k) (w.movedDown k) = (visit names header line w).movedDown k := by
  unfold visit
  rw [owner_movedDown]
  cases w.owner with
  | some owner => exact member_movedDown owner w
  | none => exact topLevel_movedDown w

/-- A file that is moved down is read as before, further down. -/
theorem read_movedDown (file : SourceFile) : read (file.movedDown k) = (read file).movedDown k := by
  have himports : imports (file.movedDown k) = (imports file).map (Edge.movedDown k) :=
    FileScan.importEdges_text_movedDown importStatements_replicate_append file _
  unfold read
  dsimp only
  rw [himports, importedSymbolFiles_movedDown, SourceFile.text_movedDown, exportedNames_replicate_append,
    run_movedDown fun _ _ w _ => visit_movedDown w]
  exact FileScan.finish_movedDown (sound_run fun _ _ _ hline h => sound_visit h hline) _ (by decide) _ _

end TypeScript

/-! ## Java -/

namespace Java

variable {imported : List (String × String)} {m : Match}

/-- A type is recorded alike further down. -/
theorem declareType_movedDown (w : Walk Unit) :
    declareType imported m (line + k) (w.movedDown k) = (declareType imported m line w).movedDown k := by
  unfold declareType
  dsimp only
  rw [owner_movedDown]
  cases w.owner with
  | none =>
    refine enterType_movedDown (fst_declare_movedDown ?_) (snd_declare_movedDown ?_) ?_ ?_ <;> rfl
  | some o =>
    refine enterType_movedDown (declareMember_movedDown ?_) (snd_declare_movedDown ?_) ?_ ?_ <;> rfl

/-- A header in the body of a type is read alike further down. -/
theorem member_movedDown (owner : Declaration) (w : Walk Unit) :
    member (owner.movedDown k) header (line + k) (w.movedDown k) = (member owner header line w).movedDown k := by
  have hmatch : memberMatch? (owner.movedDown k) header = memberMatch? owner header := rfl
  unfold member
  rw [hmatch]
  split
  · rfl
  · exact declareMember_movedDown rfl

/-- A visit further down does what it does above. -/
theorem visit_movedDown (w : Walk Unit) :
    visit imported header (line + k) (w.movedDown k) = (visit imported header line w).movedDown k := by
  unfold visit
  dsimp only
  rw [owner_movedDown]
  cases typeHeader.matchStart? (annotations.replaceAll "" header) with
  | some m => exact declareType_movedDown w
  | none =>
    cases w.owner with
    | some owner => exact member_movedDown owner w
    | none => rfl

/-- A file that is moved down is read as before, further down. -/
theorem read_movedDown (file : SourceFile) : read (file.movedDown k) = (read file).movedDown k := by
  unfold read
  dsimp only
  rw [FileScan.importEdges_start_movedDown importStatements_blank, importedSymbolFiles_movedDown,
    run_movedDown fun _ _ w _ => visit_movedDown w]
  exact FileScan.finish_movedDown (sound_run fun _ _ _ hline h => sound_visit h hline) _ (by decide) _ _

end Java

/-! ## C# -/

namespace CSharp

variable {m : Match}

/-- The type around a line is moved down with it. -/
theorem ownerType?_movedDown (w : Walk Unit) : ownerType? (w.movedDown k) = (ownerType? w).map (Declaration.movedDown k) := by
  rw [ownerType?, owner_movedDown, Option.filter_map]
  rfl

/-- Links to bases are made by ids, which do not move. -/
theorem linkBases_movedDown {d d' : Declaration} {w w' : Walk Unit} (hw : w' = w.movedDown k) (hd : d'.id = d.id) (kind : EntityKind)
    (names : List String) : linkBases d' kind names w' = (linkBases d kind names w).movedDown k := by
  subst hw
  refine List.foldl_hom (Walk.movedDown k) fun w p => ?_
  rw [hd, apply_ite (Walk.movedDown k), apply_ite (Walk.movedDown k), apply_ite (Walk.movedDown k)]
  rw [link_movedDown, link_movedDown, link_movedDown]
  rfl

/-- A type is recorded alike further down. -/
theorem declareType_movedDown (w : Walk Unit) : declareType m (line + k) (w.movedDown k) = (declareType m line w).movedDown k := by
  have hbases : ∀ {d d' : Declaration} {w w' : Walk Unit} {kind : EntityKind} {names : List String}, w' = w.movedDown k →
      d' = d.movedDown k → (if kind = .enum then linkBases d' kind names w' else (linkBases d' kind names w').push d') =
        (if kind = .enum then linkBases d kind names w else (linkBases d kind names w).push d).movedDown k := by
    intro d d' w w' kind names hw hd
    have hlinked := linkBases_movedDown hw (congrArg Declaration.id hd) kind names
    split
    · exact hlinked
    · exact push_movedDown hlinked hd
  unfold declareType
  dsimp only
  rw [ownerType?_movedDown]
  cases ownerType? w with
  | none => exact hbases (fst_declare_movedDown rfl) (snd_declare_movedDown rfl)
  | some o => exact hbases (declareMember_movedDown rfl) (snd_declare_movedDown rfl)

/-- The last line of the file is as many lines further down. -/
theorem declareNamespace_movedDown (w : Walk Unit) :
    declareNamespace m (line + k) (w.movedDown k) = (declareNamespace m line w).movedDown k := by
  have hclose : ∀ {d d' : Declaration} {w w' : Walk Unit}, w' = w.movedDown k → d'.id = d.id →
      { w' with scan := w'.scan.modify d'.id fun d => { d with endLine := some w'.scan.lines.length } } =
        Walk.movedDown k { w with scan := w.scan.modify d.id fun d => { d with endLine := some w.scan.lines.length } } := by
    intro d d' w w' hw hid
    have hlast : w'.scan.lines.length = w.scan.lines.length + k := hw ▸ Text.length_blank_append k w.scan.lines
    rw [hlast]
    refine modify_movedDown hw hid (fun _ => ?_) ?_ <;> rfl
  unfold declareNamespace
  dsimp only
  split
  · exact hclose (fst_declare_movedDown rfl) (id_declare_movedDown rfl)
  · exact push_movedDown (fst_declare_movedDown rfl) (snd_declare_movedDown rfl)

/-- A header in the body of a type is read alike further down. -/
theorem member_movedDown (owner : Declaration) (w : Walk Unit) :
    member (owner.movedDown k) header (line + k) (w.movedDown k) = (member owner header line w).movedDown k := by
  have hmatch : memberMatch? (owner.movedDown k) header = memberMatch? owner header := rfl
  unfold member
  rw [hmatch]
  split
  · rfl
  · exact declareMember_movedDown rfl

/-- A visit further down does what it does above. -/
theorem visit_movedDown (w : Walk Unit) : visit header (line + k) (w.movedDown k) = (visit header line w).movedDown k := by
  unfold visit
  dsimp only
  rw [ownerType?_movedDown, Option.isNone_map]
  split
  · rfl
  cases if (ownerType? w).isNone then namespaceHeader.matchStart? (attributes.replaceAll "" header) else none with
  | some m => exact declareNamespace_movedDown w
  | none =>
  cases typeHeader.matchStart? (attributes.replaceAll "" header) with
  | some m => exact declareType_movedDown w
  | none =>
  cases ownerType? w with
  | some owner => exact member_movedDown owner w
  | none => rfl

/-- A file that is moved down is read as before, further down. -/
theorem read_movedDown (file : SourceFile) : read (file.movedDown k) = (read file).movedDown k := by
  have hown : ownNamespace? (FileScan.start (file.movedDown k) .cLike).lines = ownNamespace? (FileScan.start file .cLike).lines := by
    rw [FileScan.start_movedDown]
    exact ownNamespace?_blank _
  unfold read
  dsimp only
  rw [FileScan.importEdges_start_movedDown importStatements_blank, hown, run_movedDown fun _ _ w _ => visit_movedDown w]
  exact FileScan.finish_movedDown (sound_run fun _ _ _ hline h => sound_visit h hline) _ (by decide) _ _

end CSharp

/-! ## PHP -/

namespace Php

variable {imported : List (String × String)}

/-- A header outside all types is read alike further down. -/
theorem topLevel_movedDown (w : Walk Unit) :
    topLevel imported header (line + k) (w.movedDown k) = (topLevel imported header line w).movedDown k := by
  have hlevel : (if (w.movedDown k).scopes.depth = 0 then functionHeader.matchStart? header else none) =
      if w.scopes.depth = 0 then functionHeader.matchStart? header else none := rfl
  unfold topLevel
  rw [hlevel]
  split
  · refine enterType_movedDown (fst_declare_movedDown ?_) (snd_declare_movedDown ?_) ?_ ?_ <;> rfl
  cases if w.scopes.depth = 0 then functionHeader.matchStart? header else none with
  | some m => exact fst_declare_movedDown rfl
  | none => rfl

/-- A header in the body of a type is read alike further down. -/
theorem member_movedDown (owner : Declaration) (w : Walk Unit) :
    member imported (owner.movedDown k) header (line + k) (w.movedDown k) = (member imported owner header line w).movedDown k := by
  unfold member
  split
  · rw [Declaration.kind_movedDown]
    split
    · exact linkAll_movedDown rfl rfl rfl
    · rfl
  · exact declareMember_movedDown rfl

/-- A visit further down does what it does above. -/
theorem visit_movedDown (w : Walk Unit) :
    visit imported header (line + k) (w.movedDown k) = (visit imported header line w).movedDown k := by
  unfold visit
  dsimp only
  rw [owner_movedDown]
  split
  · rfl
  cases w.owner with
  | some owner => exact member_movedDown owner w
  | none => exact topLevel_movedDown w

/-- A file that is moved down is read as before, further down. -/
theorem read_movedDown (file : SourceFile) : read (file.movedDown k) = (read file).movedDown k := by
  unfold read
  dsimp only
  rw [FileScan.importEdges_start_movedDown importStatements_blank, SourceFile.text_movedDown, ownNamespace?_replicate_append,
    importedSymbolFiles_movedDown, run_movedDown fun _ _ w _ => visit_movedDown w]
  exact FileScan.finish_movedDown (grounded_run _) _ (by decide) _ _

end Php

/-! ## The C family -/

namespace CFamily

variable {cpp : Bool} {m : Match}

/-- The place in a file with `k` line feeds in front. -/
def Position.movedDown (k : Nat) (at_ : Position) : Position := { at_ with owner := at_.owner.map (Declaration.movedDown k) }

/-- The class around a position is moved down with it. -/
theorem inClass?_movedDown (at_ : Position) : (at_.movedDown k).inClass? = at_.inClass?.map (Declaration.movedDown k) := by
  rw [Position.inClass?, Position.movedDown, Option.filter_map]
  rfl

/-- Whether a position is outside of all bodies does not depend on the line. -/
theorem atFileScope_movedDown (at_ : Position) : (at_.movedDown k).atFileScope = at_.atFileScope := by
  unfold Position.atFileScope Position.movedDown
  cases at_.owner <;> rfl

/-- A type is recorded alike further down. -/
theorem declareType_movedDown (at_ : Position) (w : Walk Notes) :
    declareType (at_.movedDown k) m (line + k) (w.movedDown k) = (declareType at_ m line w).movedDown k := by
  have henter : ∀ {kind : EntityKind} {access : Text} {names : List String} {d d' : Declaration} {w w' : Walk Notes},
      w' = w.movedDown k → d' = d.movedDown k →
      (if kind = .enum then w'.linkAll d'.id (names.map (w'.scan.localId .class_)) .extending
        else (setAccess d'.id access (w'.linkAll d'.id (names.map (w'.scan.localId .class_)) .extending)).push d') =
        (if kind = .enum then w.linkAll d.id (names.map (w.scan.localId .class_)) .extending
          else (setAccess d.id access (w.linkAll d.id (names.map (w.scan.localId .class_)) .extending)).push d).movedDown k := by
    intro kind access names d d' w w' hw hd
    have hlinked : w'.linkAll d'.id (names.map (w'.scan.localId .class_)) .extending =
        (w.linkAll d.id (names.map (w.scan.localId .class_)) .extending).movedDown k := by
      subst hw hd
      exact linkAll_movedDown rfl rfl rfl
    rw [hlinked, hd]
    split <;> rfl
  unfold declareType
  dsimp only
  rw [inClass?_movedDown]
  cases at_.inClass? with
  | none => exact henter (fst_declare_movedDown rfl) (snd_declare_movedDown rfl)
  | some o => exact henter (declareMember_movedDown rfl) (snd_declare_movedDown rfl)

/-- Empty lines above do not change whether a brace follows a line. -/
theorem braceFollows_blank (lines : List Text) (line : Nat) :
    braceFollows (List.replicate k [] ++ lines) (line + k) = braceFollows lines line := by
  rw [braceFollows, Text.drop_blank_append, braceFollows]

/-- The walk after a method has been found outside its class. A definition takes the place of a declaration on another line. -/
def qualify (isDefinition : Bool) (owner : String) (line : Nat) (d : Declaration) (w : Walk Notes) : Walk Notes :=
  let takeOver := isDefinition && d.block == .line && d.startLine != line
  { w with
    scan := w.scan.modify d.id fun d =>
      { d with
        startLine := if takeOver then line else d.startLine
        block := if takeOver then .brace else d.block
        parent := some owner }
    notes := { w.notes with qualified := w.notes.qualified ++ [(d.id, owner)] } }

/-- A definition takes the place of its declaration alike further down. -/
theorem qualify_movedDown {isDefinition : Bool} {owner : String} {d d' : Declaration} {w w' : Walk Notes} (hw : w' = w.movedDown k)
    (hd : d' = d.movedDown k) : qualify isDefinition owner (line + k) d' w' = (qualify isDefinition owner line d w).movedDown k := by
  have hstart : (d.startLine + k == line + k) = (d.startLine == line) := by
    rw [Bool.eq_iff_iff, beq_iff_eq, beq_iff_eq, Nat.add_right_cancel_iff]
  have hother : (isDefinition && (d.movedDown k).block == .line && (d.movedDown k).startLine != line + k) =
      (isDefinition && d.block == .line && d.startLine != line) := by
    show (isDefinition && d.block == .line && !(d.startLine + k == line + k)) = _
    rw [hstart]
    rfl
  subst hw hd
  unfold qualify
  rw [hother]
  refine modify_movedDown rfl rfl (fun e => ?_) rfl
  cases isDefinition && d.block == .line && d.startLine != line <;> rfl

/-- A function is recorded alike further down. -/
theorem declareFunction_movedDown (at_ : Position) (first : 1 ≤ line) (w : Walk Notes) :
    declareFunction cpp (at_.movedDown k) m (line + k) (w.movedDown k) = (declareFunction cpp at_ m line w).movedDown k := by
  have hbrace : braceFollows (w.movedDown k).scan.lines
      (Header.lastLine (w.movedDown k).scan.noise (w.movedDown k).scan.lines (line + k)) =
        braceFollows w.scan.lines (Header.lastLine w.scan.noise w.scan.lines line) := by
    show braceFollows (List.replicate k [] ++ w.scan.lines)
      (Header.lastLine w.scan.noise (List.replicate k [] ++ w.scan.lines) (line + k)) = _
    rw [Header.lastLine_blank _ _ _ first, braceFollows_blank]
  unfold declareFunction
  dsimp only
  rw [hbrace, inClass?_movedDown, Option.isNone_map, apply_ite (Walk.movedDown k), apply_ite (Walk.movedDown k)]
  refine if_congr Iff.rfl rfl (if_congr Iff.rfl rfl ?_)
  cases at_.inClass? with
  | some o => exact declareMember_movedDown rfl
  | none =>
    dsimp only [Option.map_none]
    split
    · exact qualify_movedDown (fst_declare_movedDown rfl) (snd_declare_movedDown rfl)
    · exact fst_declare_movedDown rfl

/-- A header of a type or function is read alike further down. -/
theorem declaration_movedDown (at_ : Position) (first : 1 ≤ line) (w : Walk Notes) :
    declaration cpp (at_.movedDown k) header (line + k) (w.movedDown k) = (declaration cpp at_ header line w).movedDown k := by
  unfold declaration
  dsimp only
  rw [atFileScope_movedDown, inClass?_movedDown, Option.isSome_map]
  split
  · rfl
  cases if cpp && at_.atFileScope then namespaceHeader.matchStart? header else none with
  | some m => exact push_movedDown (fst_declare_movedDown rfl) (snd_declare_movedDown rfl)
  | none =>
  cases if at_.atFileScope || at_.inClass?.isSome then typeHeader.matchStart? header else none with
  | some m => exact declareType_movedDown at_ w
  | none =>
  cases if at_.atFileScope then typedefLine.matchStart? header else none with
  | some m => exact fst_declare_movedDown rfl
  | none =>
  cases if (at_.atFileScope || at_.inClass?.isSome) && header.contains '(' then functionHeader.matchStart? header else none with
  | some m => exact declareFunction_movedDown at_ first w
  | none => rfl

/-- A visit further down does what it does above. -/
theorem visit_movedDown (first : 1 ≤ line) (w : Walk Notes) :
    visit cpp header (line + k) (w.movedDown k) = (visit cpp header line w).movedDown k := by
  have hat : ({ owner := (w.movedDown k).owner, depth := (w.movedDown k).scopes.depth } : Position) =
      Position.movedDown k { owner := w.owner, depth := w.scopes.depth } := by
    rw [owner_movedDown]
    rfl
  unfold visit
  dsimp only
  rw [hat, inClass?_movedDown]
  cases ({ owner := w.owner, depth := w.scopes.depth } : Position).inClass? with
  | none => exact declaration_movedDown _ first w
  | some o =>
    cases accessLabel.matchStart? header with
    | none => exact declaration_movedDown _ first w
    | some m =>
      dsimp only [Option.map_some, Option.bind_some]
      split
      · rfl
      · exact declaration_movedDown _ first (setAccess o.id (m.get .visibility) w)

/-- Classes are found by their names. -/
theorem attach_movedDown (w : Walk Notes) : attach (w.movedDown k) = (attach w).movedDown k := by
  have hid : ∀ name, (((w.movedDown k).scan.decls.reverse.find? fun d => (d.kind == .class_ || d.kind == .struct) && d.name == name).map
      (·.id)) = (w.scan.decls.reverse.find? fun d => (d.kind == .class_ || d.kind == .struct) && d.name == name).map (·.id) := by
    intro name
    show (((w.scan.decls.map (Declaration.movedDown k)).reverse.find? _).map _) = _
    rw [← List.map_reverse, List.find?_map, Option.map_map]
    rfl
  unfold attach
  dsimp only
  simp only [hid]
  refine FileScan.foldl_movedDown (fun scan p => ?_) rfl _
  split
  · exact FileScan.link_movedDown _ _ _
  · rfl

/-- A file that is moved down is read as before, further down. -/
theorem read_movedDown (file : SourceFile) : read (file.movedDown k) = (read file).movedDown k := by
  unfold read
  dsimp only
  rw [FileScan.importEdges_start_movedDown importStatements_blank, isCpp_movedDown,
    run_movedDown fun _ _ w first => visit_movedDown first w, attach_movedDown]
  exact FileScan.finish_movedDown (sound_attach (grounded_run _)) _ (by decide) _ _

end CFamily

/-! ## Rust -/

namespace Rust

variable {m : Match}

/-- A function is recorded alike further down. -/
theorem declareFunction_movedDown (w : Walk Notes) :
    declareFunction header (line + k) m (w.movedDown k) = (declareFunction header line m w).movedDown k := by
  have howner : (w.movedDown k).owner.filter (fun o => o.kind == implKind || o.kind == .interface) =
      (w.owner.filter fun o => o.kind == implKind || o.kind == .interface).map (Declaration.movedDown k) := by
    rw [owner_movedDown, Option.filter_map]
    rfl
  have hattach : ∀ {owner : Declaration} {d d' : Declaration} {w w' : Walk Notes}, w' = w.movedDown k → d' = d.movedDown k →
      { w' with
        scan := w'.scan.modify d'.id fun d => { d with parent := some owner.name, exported := d.exported || owner.exported }
        notes := { w'.notes with members := w'.notes.members ++ [(d'.id, owner.name)] } } =
        Walk.movedDown k
          { w with
            scan := w.scan.modify d.id fun d => { d with parent := some owner.name, exported := d.exported || owner.exported }
            notes := { w.notes with members := w.notes.members ++ [(d.id, owner.name)] } } := by
    intro owner d d' w w' hw hd
    subst hw hd
    refine modify_movedDown rfl rfl (fun _ => ?_) ?_ <;> rfl
  unfold declareFunction
  dsimp only
  rw [howner]
  cases w.owner.filter fun o => o.kind == implKind || o.kind == .interface with
  | none => exact fst_declare_movedDown rfl
  | some owner =>
    dsimp only [Option.map_some]
    rw [Declaration.kind_movedDown]
    split
    · exact hattach (fst_declare_movedDown rfl) (snd_declare_movedDown rfl)
    · refine memberOf_movedDown (modify_movedDown (fst_declare_movedDown ?_) (id_declare_movedDown ?_) (fun _ => ?_) ?_)
        (snd_declare_movedDown ?_) <;> rfl

/-- An implementation is entered alike further down. -/
theorem enterImpl_movedDown (w : Walk Notes) : enterImpl (line + k) m (w.movedDown k) = (enterImpl line m w).movedDown k := by
  unfold enterImpl
  dsimp only
  split <;> rfl

/-- A visit further down does what it does above. -/
theorem visit_movedDown (w : Walk Notes) : visit header (line + k) (w.movedDown k) = (visit header line w).movedDown k := by
  unfold visit
  dsimp only
  rw [owner_movedDown, Option.isNone_map]
  split
  · exact declareFunction_movedDown w
  split
  · exact fst_declare_movedDown rfl
  split
  · exact push_movedDown (fst_declare_movedDown rfl) (snd_declare_movedDown rfl)
  split
  · exact enterImpl_movedDown w
  split
  · exact push_movedDown (fst_declare_movedDown rfl) (snd_declare_movedDown rfl)
  cases if w.owner.isNone then typeHeader.matchStart? header else none with
  | some m =>
    exact fst_declare_movedDown rfl
  | none => rfl

/-- Types and traits are found by their names. -/
theorem attach_movedDown (w : Walk Notes) : attach (w.movedDown k) = (attach w).movedDown k := by
  have hid : ∀ name, (((w.movedDown k).scan.decls.find? fun d => typeKinds.contains d.kind && d.name == name).map (·.id)) =
      (w.scan.decls.find? fun d => typeKinds.contains d.kind && d.name == name).map (·.id) := by
    intro name
    show (((w.scan.decls.map (Declaration.movedDown k)).find? _).map _) = _
    rw [List.find?_map, Option.map_map]
    rfl
  unfold attach
  dsimp only
  simp only [hid]
  refine FileScan.foldl_movedDown (fun scan p => ?_) (FileScan.foldl_movedDown (fun scan p => ?_) rfl _) _
  · split
    · exact FileScan.link_movedDown _ _ _
    · rfl
  · split
    · exact FileScan.link_movedDown _ _ _
    · rfl

/-- A file that is moved down is read as before, further down. -/
theorem read_movedDown (file : SourceFile) : read (file.movedDown k) = (read file).movedDown k := by
  unfold read
  dsimp only
  rw [FileScan.importEdges_text_movedDown importStatements_replicate_append, run_movedDown fun _ _ w _ => visit_movedDown w,
    attach_movedDown]
  exact FileScan.finish_movedDown (sound_attach grounded_run) _ (by decide) _ _

end Rust

end CodeAtlas
