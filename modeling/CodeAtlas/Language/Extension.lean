import CodeAtlas.Path
import CodeAtlas.Text.Letter

/-!
# Languages by extension

The language of a file is known by the extension of its path, in lower case. The languages of a workspace are ranked by how many
files they have.
-/

namespace CodeAtlas

/-- The language of each known extension. -/
def extensionLanguages : List (String × String) :=
  [(".ts", "typescript"), (".tsx", "typescript"), (".mts", "typescript"), (".cts", "typescript"), (".js", "javascript"),
    (".jsx", "javascript"), (".mjs", "javascript"), (".cjs", "javascript"), (".py", "python"), (".pyi", "python"),
    (".go", "go"), (".rs", "rust"), (".java", "java"), (".kt", "kotlin"), (".rb", "ruby"), (".rake", "ruby"),
    (".php", "php"), (".c", "c"), (".h", "c"), (".cc", "cpp"), (".cpp", "cpp"), (".cxx", "cpp"), (".hpp", "cpp"),
    (".hh", "cpp"), (".cs", "csharp"), (".swift", "swift"), (".scala", "scala"), (".json", "json"), (".yaml", "yaml"),
    (".yml", "yaml"), (".toml", "toml"), (".md", "markdown"), (".css", "css"), (".scss", "scss"), (".html", "html"),
    (".sql", "sql"), (".sh", "shell"), (".bash", "shell"), (".zsh", "shell")]

/-- A string in lower case. -/
def lowerCase (s : String) : String := String.ofList (Text.lower s.text)

/-- The language of an extension with its dot. -/
def languageOfExtension? (extension : String) : Option String :=
  (extensionLanguages.find? fun p => p.1 == lowerCase extension).map (·.2)

/-- The extension of a path in lower case. -/
def fileExtension (path : String) : String := lowerCase (Path.extension path)

/-- How much of a workspace is in one language. -/
structure LanguageShare where
  language : String
  extensions : List String
  fileCount : Nat
  deriving DecidableEq, Repr

namespace LanguageShare

/-- Adds a file with the given extension to the share of a language. -/
def count (language extension : String) : List LanguageShare → List LanguageShare
  | [] => [{ language, extensions := [extension], fileCount := 1 }]
  | s :: ss =>
    if s.language = language then
      { s with
        extensions := if s.extensions.contains extension then s.extensions else s.extensions ++ [extension]
        fileCount := s.fileCount + 1 } :: ss
    else s :: count language extension ss

/-- More files come first, equally many in the order of the names. -/
def ranksBefore (a b : LanguageShare) : Bool :=
  decide (b.fileCount < a.fileCount) || (a.fileCount == b.fileCount && decide (a.language ≤ b.language))

/-- The shares of the languages among files with the given extensions. Extensions without a language do not count. -/
def ofExtensions (extensions : List String) : List LanguageShare :=
  let shares := extensions.foldl (fun ss e =>
    match languageOfExtension? e with
    | some language => count language e ss
    | none => ss) []
  (shares.map fun s => { s with extensions := s.extensions.mergeSort fun a b => decide (a ≤ b) }).mergeSort ranksBefore

end LanguageShare

end CodeAtlas
