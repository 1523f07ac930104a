import CodeAtlas.Proofs.Import.Edges
import CodeAtlas.Proofs.Source.Calls

/-!
# Imports further down

When the import statements of a file stand further down, they lead where they led, and are gathered into the same groups. Of their
edges only the recorded line is another one.
-/

namespace CodeAtlas

/-- A whole number `k` larger; other values as they are. -/
def Json.plus (k : Nat) : Json → Json
  | .int n => .int (n + k)
  | v => v

/-- A field of an edge's metadata, with `k` added to the number of a line. -/
def Edge.moveLine (k : Nat) (field : String × Json) : String × Json :=
  if field.1 = "line" then (field.1, field.2.plus k) else field

/-- The edge of a file whose text stands `k` lines further down: that of an import tells its line. -/
def Edge.movedDown (k : Nat) (e : Edge) : Edge :=
  if e.kind = .imports then { e with metadata := e.metadata.map (moveLine k) } else e

/-- The statement `k` lines further down. -/
def ImportStatement.movedDown (k : Nat) (s : ImportStatement) : ImportStatement := { s with line := s.line + k }

/-- The group whose first statement is `k` lines further down. -/
def ImportGroup.movedDown (k : Nat) (g : ImportGroup) : ImportGroup := { g with line := g.line + k }

variable {k : Nat}

namespace ImportEnd

theorem ofStatement_movedDown (repoId filePath language : String) (resolve : Resolver) (s : ImportStatement) :
    ofStatement repoId filePath language resolve (s.movedDown k) = ofStatement repoId filePath language resolve s := rfl

/-- The end of an import knows nothing of lines. -/
theorem ne_line_of_ofStatement {repoId filePath language : String} {resolve : Resolver} {s : ImportStatement} {t : ImportEnd}
    (h : ofStatement repoId filePath language resolve s = some t) : ∀ f ∈ t.metadata, f.1 ≠ "line" := by
  obtain ⟨-, ⟨target, -, -, rfl⟩ | ⟨-, rfl⟩⟩ := ofStatement_eq_some_iff.1 h
  · simp [internal]
  · simp [external]

end ImportEnd

namespace ImportGroup

/-- A statement is grouped alike further down. -/
theorem insert_movedDown (target : ImportEnd) (s : ImportStatement) (gs : List ImportGroup) :
    insert target (s.movedDown k) (gs.map (movedDown k)) = (insert target s gs).map (movedDown k) := by
  induction gs with
  | nil => rfl
  | cons g gs ih =>
    rw [List.map_cons, insert, ih, insert]
    show (if g.target.toId = target.toId then _ else _) = _
    split <;> rfl

/-- The edge of a group is moved down with it. -/
theorem toEdge_movedDown {g : ImportGroup} (h : ∀ f ∈ g.target.metadata, f.1 ≠ "line") (repoId fromId : String) :
    (g.movedDown k).toEdge repoId fromId = (g.toEdge repoId fromId).movedDown k := by
  have hkept : ∀ fields : List (String × Json), (∀ f ∈ fields, f.1 ≠ "line") → fields.map (Edge.moveLine k) = fields := by
    intro fields hfields
    have hid : ∀ f ∈ fields, Edge.moveLine k f = f := fun f hf => if_neg (hfields f hf)
    rw [List.map_congr_left hid, List.map_id']
  have hmark : ∀ (marked : Bool) (name : String), name ≠ "line" →
      ∀ f ∈ if marked then [(name, Json.bool true)] else [], f.1 ≠ "line" := by
    intro marked name hname f hf
    cases marked with
    | false => nomatch hf
    | true => exact List.mem_singleton.1 hf ▸ hname
  have hkind : (g.toEdge repoId fromId).kind = .imports := rfl
  rw [Edge.movedDown, if_pos hkind, toEdge, toEdge, List.map_append, List.map_append, List.map_append, hkept _ h,
    hkept _ (hmark g.typeOnly "type_only" (by decide)), hkept _ (hmark g.importAll "import_all" (by decide))]
  rfl

end ImportGroup

variable (repoId filePath language : String) (resolve : Resolver) (statements : List ImportStatement)

/-- So are the groups of all statements. -/
theorem importGroups_movedDown :
    importGroups repoId filePath language resolve (statements.map (ImportStatement.movedDown k)) =
      (importGroups repoId filePath language resolve statements).map (ImportGroup.movedDown k) := by
  refine foldl_nil_map (fun gs s => ?_) statements
  rw [ImportEnd.ofStatement_movedDown]
  cases ImportEnd.ofStatement repoId filePath language resolve s with
  | none => rfl
  | some target => exact ImportGroup.insert_movedDown target s gs

/-- So are their edges. -/
theorem importEdges_movedDown :
    importEdges repoId filePath language resolve (statements.map (ImportStatement.movedDown k)) =
      (importEdges repoId filePath language resolve statements).map (Edge.movedDown k) := by
  rw [importEdges_eq, importEdges_eq, importGroups_movedDown, List.map_map, List.map_map]
  refine List.map_congr_left fun g hg => ?_
  obtain ⟨s, -, htarget⟩ := exists_statement_of_mem_importGroups hg
  exact ImportGroup.toEdge_movedDown (ImportEnd.ne_line_of_ofStatement htarget) _ _

/-! ## What is imported from where -/

namespace Edge

variable (e : Edge)

/-- A link does not depend on the line. -/
@[simp]
theorem link_movedDown : (e.movedDown k).link = e.link := by
  unfold movedDown
  split <;> rfl

/-- Neither do the symbols that are imported. -/
@[simp]
theorem importedSymbols_movedDown : (e.movedDown k).importedSymbols = e.importedSymbols := by
  unfold movedDown
  split <;> rfl

/-- Neither does the file that they are imported from. -/
theorem importedFile?_movedDown : (e.movedDown k).importedFile? = e.importedFile? := by
  have hfield : ∀ name ≠ "line", Json.field? name (e.metadata.map (moveLine k)) = Json.field? name e.metadata := by
    intro name hname
    unfold Json.field?
    induction e.metadata with
    | nil => rfl
    | cons f fs ih =>
      rw [List.map_cons, List.find?_cons, List.find?_cons, moveLine]
      by_cases hf : f.1 = "line"
      · rw [if_pos hf, hf, beq_false_of_ne hname.symm]
        exact ih
      · rw [if_neg hf]
        split
        · rfl
        · exact ih
  unfold movedDown
  split
  · rw [importedFile?, hfield _ (by decide), hfield _ (by decide), importedFile?]
  · rfl

end Edge

/-- Neither does the table of both. -/
theorem importedSymbolFiles_movedDown (edges : List Edge) :
    importedSymbolFiles (edges.map (Edge.movedDown k)) = importedSymbolFiles edges := by
  unfold importedSymbolFiles
  rw [List.foldl_map]
  simp only [Edge.importedFile?_movedDown, Edge.importedSymbols_movedDown]

end CodeAtlas
