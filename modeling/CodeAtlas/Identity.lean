import CodeAtlas.Digest.Sha256
import CodeAtlas.Text.Utf8

/-!
# Identity

Entities and edges are known by ids that depend on their coordinates alone: whoever derives them again, from whatever source and in
whatever order, finds the same id. The coordinates are joined by a character that occurs in none of them, and the id is the
beginning of the digest of the bytes.
-/

namespace CodeAtlas.Identity

/-- The character between the parts of an identity. -/
def separator : Char := '\x00'

/-- The text that stands for a list of parts. -/
def joined (parts : List String) : Text := [separator].intercalate (parts.map String.text)

/-- The bytes whose digest identifies a list of parts. -/
def bytes (parts : List String) : List UInt8 := Utf8.encode (joined parts)

/-- The first `size` digits of a digest; a negative size counts from the end. -/
def cut (size : Int) (digits : List Char) : List Char :=
  digits.take (if size < 0 then (digits.length + size).toNat else size.toNat)

/-- The id of a list of parts, `size` digits long. -/
def ofParts (parts : List String) (size : Int := 16) : String := String.ofList (cut size (Sha256.hexDigest (bytes parts)))

/-- The coordinates of an entity; a missing signature counts as an empty one. -/
def entityParts (repoId filePath kind name : String) (signature : Option String) : List String :=
  [repoId, filePath, kind, name, signature.getD ""]

/-- The id of an entity. -/
def entity (repoId filePath kind name : String) (signature : Option String := none) : String :=
  ofParts (entityParts repoId filePath kind name signature)

/-- The coordinates of an edge. -/
def edgeParts (fromId toId kind : String) : List String := [fromId, toId, kind]

/-- The id of an edge. -/
def edge (fromId toId kind : String) : String := ofParts (edgeParts fromId toId kind)

/-- The id of a file. -/
def file (repoId path : String) : String := entity repoId path "file" path

/-- The id of a directory. -/
def directory (repoId path : String) : String := entity repoId path "directory" path

/-- What the paths of third-party packages begin with. -/
def externalMark : String := "external:"

/-- The path that stands for a third-party package. -/
def externalPath (package : String) : String := externalMark ++ package

/-- The id of the module of a third-party package. -/
def externalModule (repoId package : String) : String := entity repoId (externalPath package) "module" package

/-- Whether a path stands for a third-party package. -/
def isExternalPath (path : String) : Bool := path.text.startsWith externalMark

end CodeAtlas.Identity
