import CodeAtlas.Language.CFamily.Declarations
import CodeAtlas.Language.CSharp.Declarations
import CodeAtlas.Language.Extension
import CodeAtlas.Language.Go.Declarations
import CodeAtlas.Language.Java.Declarations
import CodeAtlas.Language.Php.Declarations
import CodeAtlas.Language.Python.Declarations
import CodeAtlas.Language.Ruby.Declarations
import CodeAtlas.Language.Rust.Declarations
import CodeAtlas.Language.TypeScript.Declarations
import CodeAtlas.SymbolIndex.Indexer
import CodeAtlas.Text.Quoted

/-!
# Language readers

A reader knows the files of some extensions. The registry finds the reader of a file; files that no reader claims are recorded without
declarations.
-/

namespace CodeAtlas

/-- What becomes of reading a file. -/
inductive Reading where
  | done (found : Fragment)
  | failed
  /-- Reading never ends. -/
  | endless

/-- How the files of some extensions are read, and which tool indexes their packages. -/
structure LanguageReader where
  name : String
  extensions : List String
  read : SourceFile → Reading
  indexer : Option Indexer := none

/-- Readers in order, and the one for files that none of them claims. -/
structure Registry where
  readers : List LanguageReader
  fallback : LanguageReader

namespace Registry

/-- Why a registry cannot be made, or a reader not found. -/
inductive Problem where
  | extensionClaimedTwice (extension first second : String)
  | unknownReader (name : String) (supported : List String)
  deriving DecidableEq, Repr

/-- The wording of a problem. -/
def Problem.message : Problem → String
  | .extensionClaimedTwice e a b => "Extension " ++ Text.quote e ++ " claimed by both " ++ Text.quote a ++ " and " ++ Text.quote b
  | .unknownReader n supported =>
    "Unsupported language plugin " ++ Text.quote n ++ ". Supported=" ++
      Text.quoteList (supported.mergeSort fun a b => decide (a ≤ b))

/-- The reader of files that no other claims: they have no declarations. -/
def generic : LanguageReader := { name := "generic", extensions := [], read := fun _ => .done {} }

/-- The extensions of some readers, each with the name of the reader. -/
def claims (readers : List LanguageReader) : List (String × String) :=
  readers.flatMap fun r => r.extensions.map fun e => (e, r.name)

/-- The first claim of an extension that an earlier one already made. -/
def firstClash? : (earlier later : List (String × String)) → Option Problem
  | _, [] => none
  | earlier, c :: cs =>
    match earlier.find? fun e => e.1 == c.1 with
    | some e => some (.extensionClaimedTwice c.1 e.2 c.2)
    | none => firstClash? (earlier ++ [c]) cs

/-- The registry of some readers. No extension may be claimed twice. -/
def ofReaders (readers : List LanguageReader) : Except Problem Registry :=
  match firstClash? [] (claims readers) with
  | some p => .error p
  | none => .ok { readers, fallback := generic }

/-- The reader of an extension, in whatever case. -/
def forExtension (r : Registry) (extension : String) : LanguageReader :=
  (r.readers.find? fun x => x.extensions.contains (lowerCase extension)).getD r.fallback

/-- The reader with a name. -/
def byName (r : Registry) (name : String) : Except Problem LanguageReader :=
  match r.readers.find? fun x => x.name == name with
  | some x => .ok x
  | none => .error (.unknownReader name (r.readers.map LanguageReader.name))

/-- The readers of the languages that the indexer knows. -/
def standardReaders : List LanguageReader :=
  [{ name := "typescript", extensions := [".ts", ".tsx", ".mts", ".cts", ".js", ".jsx", ".mjs", ".cjs"],
     read := fun f => .done (TypeScript.read f), indexer := some .typescript },
   { name := "python", extensions := [".py", ".pyi"], read := fun f => .done (Python.read f), indexer := some .python },
   { name := "go", extensions := [".go"], read := fun f => .done (Go.read f), indexer := some .go },
   { name := "java", extensions := [".java"], read := fun f => .done (Java.read f), indexer := some .java },
   { name := "rust", extensions := [".rs"], read := fun f => .done (Rust.read f), indexer := some .rust },
   { name := "ruby", extensions := [".rb", ".rake"], read := fun f => .done (Ruby.read f) },
   { name := "c_family", extensions := [".c", ".h", ".cc", ".cpp", ".cxx", ".hpp", ".hh"],
     read := fun f => .done (CFamily.read f) },
   { name := "csharp", extensions := [".cs"], read := fun f => .done (CSharp.read f) },
   { name := "php", extensions := [".php"], read := fun f => .done (Php.read f) }]

/-- The registry of the known languages. Their extensions differ. -/
def standard : Registry := { readers := standardReaders, fallback := generic }

end Registry

end CodeAtlas
