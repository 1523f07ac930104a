/-!
# Compiler-grade indexers

For some languages a tool writes a symbol index of a package. It is run only where the package has one of the files that such a
package is known by.
-/

namespace CodeAtlas

/-- One argument of a command: a word, or the place of the output path. -/
inductive Argument where
  | word (w : String)
  | output
  deriving DecidableEq, Repr

/-- A tool that indexes packages of one language. -/
structure Indexer where
  language : String
  tool : String
  arguments : List Argument
  /-- At least one of these has to exist in the package. -/
  markers : List String
  deriving Repr

namespace Indexer

/-- The command that writes the index to a path. -/
def command (i : Indexer) (output : String) : List String :=
  i.tool :: i.arguments.map fun a => match a with
    | .word w => w
    | .output => output

/-- The indexer of TypeScript and JavaScript. -/
def typescript : Indexer :=
  ⟨"typescript", "scip-typescript", [.word "index", .word "--output", .output], ["tsconfig.json", "jsconfig.json"]⟩

/-- The indexer of Python. -/
def python : Indexer :=
  ⟨"python", "scip-python", [.word "index", .word ".", .word "--output", .output],
    ["pyproject.toml", "setup.py", "setup.cfg", "requirements.txt"]⟩

/-- The indexer of Go. -/
def go : Indexer := ⟨"go", "scip-go", [.word "--output", .output], ["go.mod"]⟩

/-- The indexer of Java. -/
def java : Indexer :=
  ⟨"java", "scip-java", [.word "index", .word "--output", .output], ["pom.xml", "build.gradle", "build.gradle.kts"]⟩

/-- The indexer of Rust. -/
def rust : Indexer :=
  ⟨"rust", "rust-analyzer", [.word "scip", .word ".", .word "--output", .output], ["Cargo.toml"]⟩

/-- All indexers. -/
def all : List Indexer := [typescript, python, go, java, rust]

end Indexer

end CodeAtlas
