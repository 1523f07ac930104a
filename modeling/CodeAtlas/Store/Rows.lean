import CodeAtlas.Json.Writer
import CodeAtlas.Record

/-!
# Rows

A store elsewhere takes entities and edges as rows: what identifies a record stands on its own, the rest are properties. The metadata of
an edge is one property, the text of a JSON object.
-/

namespace CodeAtlas

/-- The row of an entity. -/
def Entity.row (e : Entity) : Json := .object
  [("id", .str e.id), ("repo_id", .str e.repoId), ("index_version", .ofString? e.indexVersion),
   ("props", .object
    [("kind", .str e.kind.name), ("name", .str e.name), ("file_path", .str e.filePath), ("start_line", .int e.startLine),
     ("end_line", .int e.endLine), ("language", .str e.language), ("signature", .ofString? e.signature),
     ("exported", .bool e.exported), ("doc", .ofString? e.doc), ("parent", .ofString? e.parent), ("body", .ofString? e.body),
     ("complexity", .ofNat? e.complexity), ("is_async", .bool e.isAsync), ("parameter_count", .ofNat? e.parameterCount),
     ("return_type", .ofString? e.returnType)])]

/-- The row of an edge. -/
def Edge.row (e : Edge) : Json := .object
  [("id", .str e.id), ("repo_id", .str e.repoId), ("index_version", .ofString? e.indexVersion), ("from_id", .str e.fromId),
   ("to_id", .str e.toId),
   ("props", .object
    [("imported_symbols", .ofStrings e.importedSymbols), ("is_external", .bool e.isExternal),
     ("package_name", .ofString? e.packageName), ("boundary_category", .ofString? e.boundaryCategory),
     ("confidence", .float e.confidence), ("metadata", .str (Json.object e.metadata).writeSorted)])]

namespace Edge

/-- Edges by their kinds, the kinds in the order in which they first occur and the edges of a kind in their order. -/
def byKind (edges : List Edge) : List (EdgeKind × List Edge) :=
  ((edges.map (·.kind)).eraseDups).map fun k => (k, edges.filter fun e => e.kind == k)

/-- Edges by their kinds, the kinds in the order of their names. -/
def bySortedKind (edges : List Edge) : List (EdgeKind × List Edge) :=
  (byKind edges).mergeSort fun a b => decide (a.1.name ≤ b.1.name)

end Edge

end CodeAtlas
