import CodeAtlas.Language.CFamily.Declarations
import CodeAtlas.Language.CSharp.Imports
import CodeAtlas.Language.Go.Imports
import CodeAtlas.Language.Java.Imports
import CodeAtlas.Language.Php.Imports
import CodeAtlas.Language.Python.Declarations
import CodeAtlas.Language.Ruby.Imports
import CodeAtlas.Language.Rust.Imports
import CodeAtlas.Language.TypeScript.Declarations
import CodeAtlas.Proofs.Moved.Import
import CodeAtlas.Proofs.Moved.Lines
import CodeAtlas.Proofs.Moved.Pattern
import Mathlib.Data.List.Basic

/-!
# What a file says of its surroundings, further down

Import statements are found line by line, or in the text as a whole. Either way line feeds in front of the file move them down and
change nothing else of them. What a file says once for all of it, such as its namespace or its list of public names, stays.
-/

namespace CodeAtlas

open Text

variable {k : Nat}

/-! ## Line by line -/

/-- Statements that are found line by line are found alike below empty lines. -/
theorem flatMap_zipIdx_blank {f : Text × Nat → List ImportStatement} (hblank : ∀ line, f ([], line) = [])
    (hf : ∀ l line, f (l, line + k) = (f (l, line)).map (ImportStatement.movedDown k)) (lines : List Text) :
    ((List.replicate k [] ++ lines).zipIdx 1).flatMap f = ((lines.zipIdx 1).flatMap f).map (ImportStatement.movedDown k) := by
  have hprefix : ((List.replicate k ([] : Text)).zipIdx 1).flatMap f = [] := by
    refine List.flatMap_eq_nil_iff.2 fun (l, line) hl => ?_
    obtain rfl : l = [] := List.eq_of_mem_replicate (List.fst_mem_of_mem_zipIdx hl)
    exact hblank line
  have hrest : ∀ line, (lines.zipIdx (line + k)).flatMap f = ((lines.zipIdx line).flatMap f).map (ImportStatement.movedDown k) := by
    induction lines with
    | nil => exact fun _ => rfl
    | cons l ls ih =>
      intro line
      rw [List.zipIdx_cons, List.zipIdx_cons, List.flatMap_cons, List.flatMap_cons, List.map_append, hf, Nat.add_right_comm, ih]
  rw [List.zipIdx_append, List.flatMap_append, hprefix, List.length_replicate, List.nil_append, hrest]

/-- Imports that stand on lines of their own. -/
theorem filterMap_zipIdx_blank {p : Pattern} (ofMatch : Nat → Match → ImportStatement) (hblank : p.matchStart? [] = none)
    (hof : ∀ line m, ofMatch (line + k) m = (ofMatch line m).movedDown k) (lines : List Text) :
    (((List.replicate k [] ++ lines).zipIdx 1).filterMap fun (l, line) => (p.matchStart? l).map (ofMatch line)) =
      ((lines.zipIdx 1).filterMap fun (l, line) => (p.matchStart? l).map (ofMatch line)).map (ImportStatement.movedDown k) := by
  rw [List.filterMap_eq_flatMap_toList, List.filterMap_eq_flatMap_toList]
  refine flatMap_zipIdx_blank (fun line => ?_) (fun l line => ?_) lines
  · dsimp only
    rw [hblank]
    rfl
  · dsimp only
    cases p.matchStart? l with
    | none => rfl
    | some m => exact congrArg (fun s => [s]) (hof line m)

/-- Below empty lines, the statements of a Java file are found further down. -/
theorem Java.importStatements_blank (lines : List Text) :
    importStatements (List.replicate k [] ++ lines) = (importStatements lines).map (ImportStatement.movedDown k) := by
  refine filterMap_zipIdx_blank ofMatch rfl (fun line m => ?_) lines
  unfold ofMatch
  dsimp only
  split
  · rfl
  · split <;> rfl

/-- Below empty lines, the statements of a C or C++ file are found further down. -/
theorem CFamily.importStatements_blank (lines : List Text) :
    importStatements (List.replicate k [] ++ lines) = (importStatements lines).map (ImportStatement.movedDown k) :=
  filterMap_zipIdx_blank (fun line m => { specifier := String.ofList (m.get .specifier), line, importAll := true }) rfl
    (fun _ _ => rfl) lines

/-- Below empty lines, the statements of a C# file are found further down. -/
theorem CSharp.importStatements_blank (lines : List Text) :
    importStatements (List.replicate k [] ++ lines) = (importStatements lines).map (ImportStatement.movedDown k) := by
  refine filterMap_zipIdx_blank ofMatch rfl (fun line m => ?_) lines
  unfold ofMatch
  dsimp only
  split <;> rfl

/-- Empty lines do not change the namespace of a file. -/
theorem CSharp.ownNamespace?_blank (lines : List Text) : ownNamespace? (List.replicate k [] ++ lines) = ownNamespace? lines := by
  unfold ownNamespace?
  induction k with
  | zero => rfl
  | succ k ih => exact ih

/-- Below empty lines, the statements of a Ruby file are found further down. -/
theorem Ruby.importStatements_blank (lines : List Text) :
    importStatements (List.replicate k [] ++ lines) = (importStatements lines).map (ImportStatement.movedDown k) :=
  filterMap_zipIdx_blank ofMatch rfl (fun _ _ => rfl) lines

namespace Php

/-- The statements of a line have its number. -/
theorem ofLine_add (line : Nat) (l : Text) : ofLine (line + k) l = (ofLine line l).map (ImportStatement.movedDown k) := by
  unfold ofLine
  cases groupUse.matchStart? l with
  | some m =>
    dsimp only
    rw [ofGroup, ofGroup, List.map_map]
    rfl
  | none =>
    dsimp only
    cases if startsWithAny l [" ", "\t"] then none else useLine.matchStart? l with
    | some m =>
      dsimp only
      unfold ofUse
      dsimp only
      split <;> rfl
    | none =>
      dsimp only
      rw [List.map_filterMap]
      refine congrArg (List.filterMap · _) (funext fun m => ?_)
      unfold ofInclude
      dsimp only
      split <;> rfl

/-- Below empty lines, the statements of a file are found further down. -/
theorem importStatements_blank (lines : List Text) :
    importStatements (List.replicate k [] ++ lines) = (importStatements lines).map (ImportStatement.movedDown k) :=
  flatMap_zipIdx_blank (f := fun (l, line) => ofLine line l) (fun _ => rfl) (fun l line => ofLine_add line l) lines

end Php

namespace Go

/-- A block of imports is read alike further down. -/
theorem importsFrom_add (inBlock : Bool) (line : Nat) (lines : List Text) :
    importsFrom inBlock (line + k) lines = (importsFrom inBlock line lines).map (ImportStatement.movedDown k) := by
  have hof : ∀ (line : Nat) (found : Option Match), found.toList.flatMap (ofMatch (line + k)) =
      (found.toList.flatMap (ofMatch line)).map (ImportStatement.movedDown k) := by
    intro line found
    cases found with
    | none => rfl
    | some m =>
      unfold ofMatch
      simp only [Option.toList_some, List.flatMap_singleton]
      split <;> rfl
  induction lines generalizing inBlock line with
  | nil => cases inBlock <;> rfl
  | cons l ls ih =>
    cases inBlock <;>
    · unfold importsFrom
      dsimp only
      rw [Nat.add_right_comm, ih, ih, hof, ← List.map_append]
      split <;> rfl

/-- Below empty lines, the statements of a file are found further down. -/
theorem importStatements_blank (lines : List Text) :
    importStatements (List.replicate k [] ++ lines) = (importStatements lines).map (ImportStatement.movedDown k) := by
  have hskip : ∀ n line, importsFrom false line (List.replicate n [] ++ lines) = importsFrom false (line + n) lines := by
    intro n
    induction n with
    | zero => exact fun _ => rfl
    | succ n ih =>
      intro line
      rw [← Nat.add_assoc, Nat.add_right_comm]
      exact ih (line + 1)
  rw [importStatements, hskip, importsFrom_add, importStatements]

end Go

namespace Python

/-- Lines are read alike further down, those that are skipped included. -/
theorem importsFrom_add (skip line : Nat) (lines : List Text) :
    importsFrom skip (line + k) lines = (importsFrom skip line lines).map (ImportStatement.movedDown k) := by
  have hof : ∀ line text, ofLogicalLine (line + k) text = (ofLogicalLine line text).map (ImportStatement.movedDown k) := by
    intro line text
    unfold ofLogicalLine
    dsimp only
    cases fromImport.matchStart? text with
    | some m =>
      dsimp only
      generalize ImportStatement.symbolList _ = symbols
      split <;> rfl
    | none =>
      cases plainImport.matchStart? text with
      | some m =>
        dsimp only
        rw [List.map_map]
        rfl
      | none => rfl
  induction lines generalizing skip line with
  | nil => cases skip <;> rfl
  | cons l ls ih =>
    cases skip with
    | succ n =>
      rw [importsFrom, Nat.add_right_comm, ih, importsFrom]
    | zero =>
      unfold importsFrom
      dsimp only
      rw [Nat.add_right_comm, ih, ih, hof, ← List.map_append]
      split <;> rfl

/-- Below empty lines, the statements of a file are found further down. -/
theorem importStatements_blank (lines : List Text) :
    importStatements (List.replicate k [] ++ lines) = (importStatements lines).map (ImportStatement.movedDown k) := by
  have hskip : ∀ n line, importsFrom 0 line (List.replicate n [] ++ lines) = importsFrom 0 (line + n) lines := by
    intro n
    induction n with
    | zero => exact fun _ => rfl
    | succ n ih =>
      intro line
      rw [← Nat.add_assoc, Nat.add_right_comm]
      exact ih (line + 1)
  rw [importStatements, hskip, importsFrom_add, importStatements]

end Python

/-! ## In the text as a whole -/

theorem Match.get_movedDown (m : Match) (p : Part) : (m.movedDown k).get p = m.get p := rfl

namespace TypeScript

/-- A statement stands where its match begins. -/
theorem statement_movedDown (content : Text) (m : Match) (symbols : List String) (typeOnly importAll : Bool) :
    statement (List.replicate k '\n' ++ content) (m.movedDown k) symbols typeOnly importAll =
      (statement content m symbols typeOnly importAll).map (· + k) (ImportStatement.movedDown k) := by
  have hline : lineAfter ((List.replicate k '\n' ++ content).take (m.movedDown k).offset) = lineAfter (content.take m.offset) + k :=
    lineAfter_replicate_append k m.offset content
  rw [statement, hline]
  rfl

/-- What a match requires is required further down. -/
theorem ofRequire_movedDown (content : Text) (m : Match) :
    ofRequire (List.replicate k '\n' ++ content) (m.movedDown k) =
      (ofRequire content m).map (· + k) (ImportStatement.movedDown k) := by
  unfold ofRequire
  dsimp only
  rw [Match.get_movedDown, statement_movedDown, statement_movedDown]
  split <;> rfl

/-- The statements of the occurrences of a pattern, each with the place where it begins. -/
theorem map_findAll_replicate_append {p : Pattern} (hp : p.LineBlind) (hrefuses : p.RefusesLineFeed)
    (of : Text → Match → Nat × ImportStatement) (hof : ∀ content m, of (List.replicate k '\n' ++ content) (m.movedDown k) =
      (of content m).map (· + k) (ImportStatement.movedDown k)) (content : Text) :
    (p.findAll (List.replicate k '\n' ++ content)).map (of (List.replicate k '\n' ++ content)) =
      ((p.findAll content).map (of content)).map (Prod.map (· + k) (ImportStatement.movedDown k)) := by
  rw [p.findAll_replicate_append hp hrefuses, List.map_map, List.map_map]
  exact List.map_congr_left fun m _ => hof content m

/-- Below line feeds, the statements of a file are found further down. -/
theorem importStatements_replicate_append (content : Text) :
    importStatements (List.replicate k '\n' ++ content) = (importStatements content).map (ImportStatement.movedDown k) := by
  have hfrom : importFrom.LineBlind := by simp [importFrom, indentation, quotedSpecifier]
  have hside : sideEffectImport.LineBlind := by simp [sideEffectImport, indentation, quotedSpecifier]
  have hrequire : requireCall.LineBlind := by simp [requireCall, quotedSpecifier]
  have hdynamic : dynamicImport.LineBlind := by simp [dynamicImport, quotedSpecifier]
  have hstart : ∀ found : Nat × ImportStatement, (found.map (· + k) (ImportStatement.movedDown k)).1 = found.1 + k := fun _ => rfl
  unfold importStatements
  dsimp only
  rw [map_findAll_replicate_append hfrom (fun _ => rfl) ofImportFrom fun content m => statement_movedDown content m _ _ _,
    map_findAll_replicate_append hside (fun _ => rfl) (statement · · [] false false) fun content m =>
      statement_movedDown content m _ _ _,
    map_findAll_replicate_append hrequire (fun _ => rfl) ofRequire ofRequire_movedDown,
    map_findAll_replicate_append hdynamic (fun _ => rfl) (statement · · [] false true) fun content m =>
      statement_movedDown content m _ _ _,
    ← List.map_append, ← List.map_append, ← List.map_append, mergeSort_map_of_add hstart, List.map_map, List.map_map]
  exact List.map_congr_left fun _ _ => rfl

/-- Names are exported wherever in the file they stand. -/
theorem exportedNames_replicate_append (content : Text) :
    exportedNames (List.replicate k '\n' ++ content) = exportedNames content := by
  have hlist : exportList.LineBlind := by simp [exportList, indentation]
  have hobject : moduleObject.LineBlind := by simp [moduleObject]
  have hdefault : exportDefault.LineBlind := by simp [exportDefault, indentation, name]
  have hname : moduleName.LineBlind := by simp [moduleName, name]
  have hmember : exportsMember.LineBlind := by simp [exportsMember, name]
  unfold exportedNames
  simp only [List.flatMap_cons, List.flatMap_nil, exportList.findAll_replicate_append hlist fun _ => rfl,
    moduleObject.findAll_replicate_append hobject fun _ => rfl, exportDefault.findAll_replicate_append hdefault fun _ => rfl,
    moduleName.findAll_replicate_append hname fun _ => rfl, exportsMember.findAll_replicate_append hmember fun _ => rfl,
    List.flatMap_map, List.map_map, Function.comp_def, Match.get_movedDown]

end TypeScript

namespace Rust

/-- Below line feeds, the statements of a file are found further down. -/
theorem importStatements_replicate_append (content : Text) :
    importStatements (List.replicate k '\n' ++ content) = (importStatements content).map (ImportStatement.movedDown k) := by
  have huse : useItem.LineBlind := by simp [useItem, indentation, visibility]
  have hmod : modItem.LineBlind := by simp [modItem, indentation, visibility]
  have hline : ∀ m : Match, lineAfter ((List.replicate k '\n' ++ content).take (m.movedDown k).offset) =
      lineAfter (content.take m.offset) + k := fun m => lineAfter_replicate_append k m.offset content
  have hofUse : ∀ m : Match, ofUse (List.replicate k '\n' ++ content) (m.movedDown k) =
      (ofUse content m).map (ImportStatement.movedDown k) := by
    intro m
    unfold ofUse
    rw [hline, Match.get_movedDown]
    dsimp only
    split <;> rfl
  have hofMod : ∀ m : Match, ofMod (List.replicate k '\n' ++ content) (m.movedDown k) = (ofMod content m).movedDown k := by
    intro m
    unfold ofMod
    rw [hline]
    rfl
  have hmoved : ∀ s : ImportStatement, (s.movedDown k).line = s.line + k := fun _ => rfl
  unfold importStatements
  rw [useItem.findAll_replicate_append huse fun _ => rfl, modItem.findAll_replicate_append hmod fun _ => rfl,
    List.filterMap_map, List.map_map, ← mergeSort_map_of_add hmoved, List.map_append, List.map_filterMap, List.map_map]
  simp only [Function.comp_def, hofUse, hofMod]

end Rust

/-- Line feeds in front do not change the names that a module makes public. -/
theorem Python.publicNames?_replicate_append (content : Text) :
    publicNames? (List.replicate k '\n' ++ content) = publicNames? content := by
  have hblind : publicList.LineBlind := by simp [publicList]
  refine publicList.map_search?_replicate_append hblind (Or.inl fun _ => rfl) (fun m m' h => ?_) k content
  simp only [Match.get, Match.get?, h]

/-- The blanks in front of a namespace may be line feeds. -/
theorem Php.ownNamespace?_replicate_append (content : Text) :
    ownNamespace? (List.replicate k '\n' ++ content) = ownNamespace? content := by
  have hblind : namespaceLine.LineBlind := by simp [namespaceLine, qualified]
  refine namespaceLine.map_search?_replicate_append hblind (Or.inr (.of_run fun _ _ => rfl)) (fun m m' h => ?_) k content
  simp only [Match.get, Match.get?, h]

/-- Whether a file is C++ does not depend on its lines. -/
theorem CFamily.isCpp_movedDown (file : SourceFile) : isCpp (file.movedDown k) = isCpp file := by
  have hblind : cppHint.LineBlind := by simp [cppHint]
  have hhint := cppHint.occursIn_replicate_append hblind (Or.inr (.of_run fun _ _ => rfl)) k file.content.text
  rw [isCpp, SourceFile.text_movedDown, hhint]
  rfl

end CodeAtlas
