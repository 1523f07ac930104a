import CodeAtlas.Identity
import CodeAtlas.Json.Basic

/-!
# Entities and edges

What the indexer knows about a repository is a graph. Its entities are files, directories, declarations and third-party modules; its
edges say what contains, calls, imports, extends, implements, references or belongs to what.
-/

namespace CodeAtlas

/-- The kind of an entity. Kinds are open: a batch from elsewhere may name one that the graph does not know. -/
structure EntityKind where
  name : String
  deriving DecidableEq, Repr

namespace EntityKind

/-- A source file. -/
def file : EntityKind := ⟨"file"⟩
/-- A directory of the repository. -/
def directory : EntityKind := ⟨"directory"⟩
/-- A function outside all types. -/
def function : EntityKind := ⟨"function"⟩
/-- A class, or what comes closest to one in a language. -/
def class_ : EntityKind := ⟨"class"⟩
/-- An interface or trait. -/
def interface : EntityKind := ⟨"interface"⟩
/-- A function that belongs to a type. -/
def method : EntityKind := ⟨"method"⟩
/-- A variable or constant. -/
def variable_ : EntityKind := ⟨"variable"⟩
/-- A named type that is none of the other kinds. -/
def type : EntityKind := ⟨"type"⟩
/-- An enumeration. -/
def enum : EntityKind := ⟨"enum"⟩
/-- A module of a language, or a third-party package. -/
def module_ : EntityKind := ⟨"module"⟩
/-- A namespace. -/
def namespace_ : EntityKind := ⟨"namespace"⟩
/-- A struct. -/
def struct : EntityKind := ⟨"struct"⟩
/-- A decorator that is applied to a declaration. -/
def decorator : EntityKind := ⟨"decorator"⟩

/-- The kinds that the graph knows. -/
def known : List EntityKind :=
  [file, directory, function, class_, interface, method, variable_, type, enum, module_, namespace_, struct, decorator]

/-- The kinds that can be called and that calls are made from. -/
def callable : List EntityKind := [function, method]

/-- Whether calls are made from entities of this kind. -/
def isCallable (k : EntityKind) : Bool := callable.contains k

/-- The kinds of the containment structure of a repository. -/
def isStructural (k : EntityKind) : Bool := k == file || k == directory

end EntityKind

/-- The kind of an edge, open like the kinds of entities. -/
structure EdgeKind where
  name : String
  deriving DecidableEq, Repr

namespace EdgeKind

/-- A directory contains files and directories, a file its declarations. -/
def contains : EdgeKind := ⟨"contains"⟩
/-- A body calls a declaration. -/
def calls : EdgeKind := ⟨"calls"⟩
/-- A file imports another file, a directory or a package. -/
def imports : EdgeKind := ⟨"imports"⟩
/-- A type implements an interface. -/
def implementing : EdgeKind := ⟨"implements"⟩
/-- A type extends another type. -/
def extending : EdgeKind := ⟨"extends"⟩
/-- A body mentions a declaration that is not called. -/
def references : EdgeKind := ⟨"references"⟩
/-- A declaration belongs to a type. -/
def memberOf : EdgeKind := ⟨"member_of"⟩

/-- The kinds that the graph knows. -/
def known : List EdgeKind := [contains, calls, imports, implementing, extending, references, memberOf]

end EdgeKind

/-- A node of the graph. Lines count from one; a file path has slashes and starts at the root of the workspace. -/
structure Entity where
  id : String
  repoId : String
  kind : EntityKind
  name : String
  filePath : String
  startLine : Int
  endLine : Int
  language : String
  signature : Option String := none
  exported : Bool := false
  doc : Option String := none
  parent : Option String := none
  body : Option String := none
  complexity : Option Nat := none
  isAsync : Bool := false
  parameterCount : Option Nat := none
  returnType : Option String := none
  indexVersion : Option String := none

/-- A directed edge between two entities. Its id depends on its ends and its kind alone. -/
structure Edge where
  fromId : String
  toId : String
  kind : EdgeKind
  repoId : String := ""
  importedSymbols : List String := []
  isExternal : Bool := false
  packageName : Option String := none
  boundaryCategory : Option String := none
  confidence : Binary64 := Binary64.one
  metadata : List (String × Json) := []
  indexVersion : Option String := none

namespace Edge

/-- The id of an edge. -/
def id (e : Edge) : String := Identity.edge e.fromId e.toId e.kind.name

/-- What makes two edges the same link. -/
def link (e : Edge) : String × String × EdgeKind := (e.fromId, e.toId, e.kind)

end Edge

/-- The entity with the tag of an indexing run. -/
def Entity.stamp (version : String) (e : Entity) : Entity := { e with indexVersion := some version }

/-- The edge with the tag of an indexing run. -/
def Edge.stamp (version : String) (e : Edge) : Edge := { e with indexVersion := some version }

/-- Entities and edges found together. -/
structure Fragment where
  entities : List Entity := []
  edges : List Edge := []

/-- A file that an indexing run has read. -/
structure IndexedFile where
  path : String
  language : String
  lineCount : Nat

end CodeAtlas
