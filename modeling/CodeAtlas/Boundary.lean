import CodeAtlas.Boundary.Tables
import CodeAtlas.Text.Basic

/-!
# System boundaries

A third-party import is reduced to the name of its package and given a category: payment, database, cache and so on. The longest
known beginning of the specifier decides, so that a specific entry beats a general one.
-/

namespace CodeAtlas.Boundary

open Text

/-- The category of a package that no table knows. -/
def defaultCategory : String := "third-party"

/-- The table of a language, empty for a language without one. -/
def categories (language : String) : List (String × String) :=
  if language = "typescript" ∨ language = "javascript" then npmCategories
  else if language = "python" then pythonCategories
  else if language = "go" then goCategories
  else if language = "java" then javaCategories
  else if language = "rust" then rustCategories
  else if language = "ruby" then rubyCategories
  else if language = "php" then phpCategories
  else if language = "csharp" then csharpCategories
  else []

/-- What separates the parts of a specifier. -/
def separator (language : String) : String :=
  if language = "python" ∨ language = "java" ∨ language = "csharp" then "."
  else if language = "php" then "\\"
  else if language = "rust" then "::"
  else "/"

/-- Whether `known` is the specifier or a beginning of it that ends at a separator. -/
def covers (separator known specifier : String) : Bool :=
  specifier == known || specifier.text.startsWith (known ++ separator) || specifier.text.startsWith (known ++ "/")

/-- The longer of two table rows, the first of them when they are equally long. -/
def longer (best : Option (String × String)) (row : String × String) : Option (String × String) :=
  match best with
  | some b => if b.1.length < row.1.length then some row else best
  | none => some row

/-- The category of an external import: that of the longest known beginning. -/
def classify (specifier language : String) : String :=
  let rows := (categories language).filter fun row => covers (separator language) row.1 specifier
  match rows.foldl longer none with
  | some row => if specifier.isEmpty then defaultCategory else row.2
  | none => defaultCategory

/-- The first piece of a specifier. -/
def firstPiece (separator specifier : String) : String := String.ofList (specifier.text.before separator)

/-- The first `n` pieces of a specifier, joined again. -/
def firstPieces (n : Nat) (separator : Char) (specifier : Text) : String :=
  (String.ofList [separator]).intercalate (((splitOn separator specifier).take n).map String.ofList)

/-- Whether an import names the language's own library. -/
def isStandardLibrary (specifier language : String) : Bool :=
  if language = "typescript" ∨ language = "javascript" then
    specifier.text.startsWith "node:" || nodeBuiltins.contains (firstPiece "/" specifier)
  else if language = "python" then pythonModules.contains (firstPiece "." specifier)
  else if language = "go" then !(firstPiece "/" specifier).text.has "."
  else if language = "java" then specifier.text.startsWithAny ["java.", "javax.", "sun.", "jdk."]
  else if language = "rust" then rustBuiltins.contains (firstPiece "::" specifier)
  else if language = "ruby" then rubyLibrary.contains (firstPiece "/" specifier)
  else if language = "csharp" then csharpRoots.any fun r => specifier == r || specifier.text.startsWith (r ++ ".")
  else if language = "c" ∨ language = "cpp" then
    cHeaders.contains specifier || (!specifier.text.has "." && !specifier.text.has "/")
  else false

/-- The hosts whose modules are named by host, owner and repository. -/
def codeHosts : List String := ["github.com", "gitlab.com", "bitbucket.org"]

/-- The package that an external specifier belongs to. -/
def packageName (specifier language : String) : String :=
  let t := specifier.text
  if language = "typescript" ∨ language = "javascript" then
    let spec := t.dropStart "node:"
    firstPieces (if spec.startsWith "@" then 2 else 1) '/' spec
  else if language = "python" then firstPiece "." specifier
  else if language = "go" then
    if codeHosts.contains (firstPiece "/" specifier) && decide (3 ≤ (splitOn '/' t).length) then firstPieces 3 '/' t
    else specifier
  else if language = "java" then firstPieces 3 '.' t
  else if language = "rust" then firstPiece "::" specifier
  else if language = "ruby" then firstPiece "/" specifier
  else if language = "php" then firstPieces 2 '\\' (trimLeft (· == '\\') t)
  else if language = "csharp" then firstPieces 2 '.' t
  else if language = "c" ∨ language = "cpp" then firstPiece "/" specifier
  else specifier

end CodeAtlas.Boundary
