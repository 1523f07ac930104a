import CodeAtlas.Import.Edges
import CodeAtlas.Pattern.Match
import CodeAtlas.Text.Lines

/-!
# Imports of Rust

A `use` path is resolved through the module tree: `crate` starts at the directory with the crate's root file, `self` and `super` at
the directory of the current module. Trailing segments usually name items inside a file, so the longest beginning that names a file
wins. A `mod` declaration imports the module's file.
-/

namespace CodeAtlas.Rust

open Text Pattern

/-- `pub`, also with a restriction. -/
def visibility : Pattern := opt (.part .visibility ("pub" ++ opt (blanks ++ "(" ++ any0 (except ")") ++ ")") ++ gap))

/-- Blanks at the start of a line. -/
def indentation : Pattern := lineStart ++ any0 (among " \t")

/-- `use …;`. -/
def useItem : Pattern := indentation ++ visibility ++ "use" ++ gap ++ .part .specifier (some1 (except ";")) ++ ";"

/-- `mod …;`. -/
def modItem : Pattern := indentation ++ visibility ++ "mod" ++ gap ++ .part .name identifier ++ blanks ++ ";"

/-- The part of an item before its local name. -/
def withoutAlias (item : Text) : Text := strip (before item " as ")

/-- The names of the items in a list, nested lists included, and whether a star is among them. -/
def listItems (inner : Text) : List String × Bool :=
  let flat := replace '\x7d' "," (replace '\x7b' "," inner)
  let names := (splitOn ',' flat).map fun i => strip (afterLast (withoutAlias i) "::")
  (((names.filter fun n => !n.isEmpty && n != ['*'] && n != "self".toList).map String.ofList).eraseDups, names.contains ['*'])

/-- The module path of a use declaration, the names it brings into scope, and whether it brings all of them. -/
def useParts (path : Text) : Text × List String × Bool :=
  let path := squeeze path
  match ImportStatement.braced? path with
  | some (head, inner) => (strip (trimRight (· == ':') head), listItems inner)
  | none =>
    let modulePath := beforeLast path "::"
    let last := withoutAlias (afterLast path "::")
    if last = ['*'] then (modulePath, [], true)
    else if last = "self".toList then (modulePath, [], false)
    else (modulePath, [String.ofList last], false)

/-- The import of a use declaration, if it names a module. -/
def ofUse (content : Text) (m : Match) : Option ImportStatement :=
  let (modulePath, symbols, all) := useParts (m.get .specifier)
  if modulePath.isEmpty then none
  else some { specifier := String.ofList modulePath, line := lineAfter (content.take m.offset), symbols, importAll := all }

/-- The import of a module declaration. -/
def ofMod (content : Text) (m : Match) : ImportStatement :=
  { specifier := "self::" ++ String.ofList (m.get .name), line := lineAfter (content.take m.offset), importAll := true }

/-- The imports of a file, in the order of their lines. -/
def importStatements (content : Text) : List ImportStatement :=
  ((useItem.findAll content).filterMap (ofUse content) ++ (modItem.findAll content).map (ofMod content)).mergeSort
    fun a b => decide (a.line ≤ b.line)

/-- The files that a crate begins with. -/
def crateRootFiles : List String := ["lib.rs", "main.rs"]

/-- The files whose child modules lie in their own directory. -/
def moduleFiles : List String := ["mod.rs", "lib.rs", "main.rs"]

/-- The directory of the child modules of the module that a file defines. -/
def moduleDir (path : String) : String :=
  let base := Path.basename path
  let parent := Path.dirname path
  if moduleFiles.contains base then parent
  else
    let stem := if base.text.endsWith ".rs" then String.ofList (base.text.take (base.length - 3)) else base
    if parent.isEmpty then stem else Path.join parent stem

/-- The nearest directory above a file that holds the root file of a crate. -/
def crateRoot? (known : KnownPaths) (path : String) : Option String :=
  (Path.ancestry path).find? fun d => crateRootFiles.any fun f => known.hasFile (Path.join d f)

/-- The file of the longest beginning of `segments` below a directory that names one. -/
def moduleFile? (known : KnownPaths) (dir : String) (segments : List String) : Option String :=
  let beginnings := (List.range segments.length).reverse.map fun n => Path.joinAll dir (segments.take (n + 1))
  beginnings.findSome? fun p => known.firstFile? [p ++ ".rs", p ++ "/mod.rs"]

/-- Passes over leading `self` and `super`, climbing a directory for each `super`. -/
def climb (dir : String) : List String → String × List String
  | [] => (dir, [])
  | s :: ss =>
    if s = "super" then climb (Path.dirname dir) ss
    else if s = "self" then climb dir ss
    else (dir, s :: ss)

/-- The target of the segments below a directory; none when there are no segments. -/
def below? (known : KnownPaths) (dir : String) (segments : List String) : Option ImportTarget :=
  if segments.isEmpty then none
  else match moduleFile? known dir segments with
    | some p => some (.file p)
    | none => some (.guess (Path.joinAll dir segments ++ ".rs"))

/-- The target of a path; none for one of another crate. -/
def resolve (known : KnownPaths) (path : String) : Resolver := fun specifier =>
  match (splitOnText "::" specifier.text).map String.ofList with
  | [] => none
  | head :: rest =>
    if head = "crate" then
      match crateRoot? known path with
      | some dir => below? known dir rest
      | none => some (.guess (Path.joinAll "src" rest ++ ".rs"))
    else if head = "self" ∨ head = "super" then
      let (dir, rest) := climb (moduleDir path) (head :: rest)
      below? known dir rest
    else none

end CodeAtlas.Rust
