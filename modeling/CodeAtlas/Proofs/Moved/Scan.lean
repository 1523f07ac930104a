import CodeAtlas.Proofs.Moved.Import
import CodeAtlas.Proofs.Moved.Lines
import CodeAtlas.Proofs.Source.Scan

/-!
# Scans further down

A scan of a file with line feeds in front records the same declarations, each so many lines further down. Every operation on a scan
keeps step with the same operation on the scan of the file without them, and what becomes of the two differs in line numbers alone:
ids, bodies, documentation and calls do not depend on where a declaration stands.
-/

namespace CodeAtlas

/-- The entity `k` lines further down. -/
def Entity.movedDown (k : Nat) (e : Entity) : Entity := { e with startLine := e.startLine + k, endLine := e.endLine + k }

/-- What is found in a file whose text stands `k` lines further down. -/
def Fragment.movedDown (k : Nat) (f : Fragment) : Fragment :=
  { entities := f.entities.map (Entity.movedDown k), edges := f.edges.map (Edge.movedDown k) }

/-- The declaration `k` lines further down. -/
def Declaration.movedDown (k : Nat) (d : Declaration) : Declaration :=
  { d with startLine := d.startLine + k, endLine := d.endLine.map (· + k) }

theorem Declaration.kind_movedDown (k : Nat) (d : Declaration) : (d.movedDown k).kind = d.kind := rfl

/-- The scan of a file with `k` line feeds in front. -/
def FileScan.movedDown (k : Nat) (s : FileScan) : FileScan where
  file := s.file.movedDown k
  noise := s.noise
  lines := List.replicate k [] ++ s.lines
  decls := s.decls.map (Declaration.movedDown k)
  edges := s.edges.map (Edge.movedDown k)

variable {k : Nat}

/-! ## Calls -/

namespace Calls

/-- Entities are called by their names. -/
theorem firstByName_movedDown (entities : List Entity) :
    firstByName (entities.map (Entity.movedDown k)) = (firstByName entities).map fun p => (p.1, p.2.movedDown k) := by
  refine foldl_nil_map (fun table e => ?_) entities
  rw [List.any_map, apply_ite (List.map _), List.map_append]
  rfl

/-- Calls are found alike further down. -/
theorem callsOf_movedDown (pattern : Pattern) (table : List (String × Entity)) (caller : Entity) :
    callsOf pattern (table.map fun p => (p.1, p.2.movedDown k)) (caller.movedDown k) = callsOf pattern table caller := by
  have htarget : ∀ name, target? (table.map fun p => (p.1, p.2.movedDown k)) name = (target? table name).map (Entity.movedDown k) := by
    intro name
    rw [target?, List.find?_map, Option.map_map, target?, Option.map_map]
    rfl
  have hbody : callerBody? (caller.movedDown k) = callerBody? caller := rfl
  unfold callsOf
  rw [hbody]
  split
  · rfl
  · refine congrArg (List.filterMap · _) (funext fun name => ?_)
    rw [htarget]
    cases target? table name <;> rfl

/-- Calls are found in the bodies, wherever these stand. -/
theorem withinFile_movedDown (kinds : List EntityKind) (entities : List Entity) :
    withinFile kinds (entities.map (Entity.movedDown k)) = withinFile kinds entities := by
  have hfilter : ((entities.map (Entity.movedDown k)).filter fun e => kinds.contains e.kind && decide (1 < e.name.length)) =
      (entities.filter fun e => kinds.contains e.kind && decide (1 < e.name.length)).map (Entity.movedDown k) := List.filter_map
  unfold withinFile
  rw [hfilter, firstByName_movedDown]
  dsimp only
  rw [List.isEmpty_map, List.map_map, List.flatMap_map]
  simp only [callsOf_movedDown, Function.comp_def]

end Calls

/-! ## Operations

What is recorded is stated for any declaration that comes out as the moved one, in whatever form it stands. -/

namespace FileScan

/-- A scan begins alike for a file that is moved down. -/
theorem start_movedDown (file : SourceFile) (noise : Noise) : start (file.movedDown k) noise = (start file noise).movedDown k := by
  have hlines : Text.lines (file.movedDown k).content.text = List.replicate k [] ++ Text.lines file.content.text := by
    rw [SourceFile.text_movedDown, Text.lines_replicate_append]
  rw [start, hlines]
  rfl

/-- Import statements that are found in the text of a file have moved edges. -/
theorem importEdges_text_movedDown {statements : Text → List ImportStatement}
    (hstatements : ∀ content, statements (List.replicate k '\n' ++ content) = (statements content).map (ImportStatement.movedDown k))
    (file : SourceFile) (resolve : Resolver) :
    importEdges (file.movedDown k).repoId (file.movedDown k).path (file.movedDown k).language resolve
        (statements (file.movedDown k).content.text) =
      (importEdges file.repoId file.path file.language resolve (statements file.content.text)).map (Edge.movedDown k) := by
  rw [SourceFile.text_movedDown, hstatements, importEdges_movedDown]
  rfl

/-- So have those that are found on its lines. -/
theorem importEdges_start_movedDown {statements : List Text → List ImportStatement}
    (hblank : ∀ lines, statements (List.replicate k [] ++ lines) = (statements lines).map (ImportStatement.movedDown k))
    (file : SourceFile) (noise : Noise) (resolve : Resolver) :
    importEdges (file.movedDown k).repoId (file.movedDown k).path (file.movedDown k).language resolve
        (statements (start (file.movedDown k) noise).lines) =
      (importEdges file.repoId file.path file.language resolve (statements (start file noise).lines)).map (Edge.movedDown k) := by
  have htext : ∀ content, (statements ∘ Text.lines) (List.replicate k '\n' ++ content) =
      ((statements ∘ Text.lines) content).map (ImportStatement.movedDown k) := by
    intro content
    rw [Function.comp_apply, Text.lines_replicate_append, hblank, Function.comp_apply]
  exact importEdges_text_movedDown htext file resolve

variable {s : FileScan} {d d' : Declaration}

/-- A declaration is found by its id, and moved down. -/
theorem find?_movedDown (id : String) : (s.movedDown k).find? id = (s.find? id).map (Declaration.movedDown k) := by
  rw [find?, find?, movedDown, List.find?_map]
  rfl

/-- A declaration is recorded alike further down. -/
theorem fst_declare_movedDown (hd : d' = d.movedDown k) : ((s.movedDown k).declare d').1 = (s.declare d).1.movedDown k := by
  have hid : d'.id = d.id := hd ▸ rfl
  unfold declare
  rw [find?_movedDown, hid]
  cases s.find? d.id with
  | some e => rfl
  | none =>
    dsimp only [Option.map_none]
    rw [hd, movedDown, movedDown, List.map_append, List.map_singleton]

/-- What is recorded of it is moved down with it. -/
theorem snd_declare_movedDown (hd : d' = d.movedDown k) : ((s.movedDown k).declare d').2 = (s.declare d).2.movedDown k := by
  have hid : d'.id = d.id := hd ▸ rfl
  unfold declare
  rw [find?_movedDown, hid]
  cases s.find? d.id with
  | some e => rfl
  | none => exact hd

/-- What has been recorded is changed alike further down. -/
theorem modify_movedDown {f f' : Declaration → Declaration} (hf : ∀ d, f' (d.movedDown k) = (f d).movedDown k) (id : String) :
    (s.movedDown k).modify id f' = (s.modify id f).movedDown k := by
  have hdecls : ((s.decls.map (Declaration.movedDown k)).map fun d => if d.id = id then f' d else d) =
      (s.decls.map fun d => if d.id = id then f d else d).map (Declaration.movedDown k) := by
    rw [List.map_map, List.map_map]
    refine List.map_congr_left fun d _ => ?_
    show (if d.id = id then f' (d.movedDown k) else d.movedDown k) = _
    rw [hf, Function.comp_apply, apply_ite (Declaration.movedDown k)]
  exact congrArg (fun decls => { s.movedDown k with decls }) hdecls

/-- A link is made alike further down. -/
theorem link_movedDown (fromId toId : String) (kind : EdgeKind) :
    (s.movedDown k).link fromId toId kind = (s.link fromId toId kind).movedDown k := by
  unfold link
  split
  · rfl
  · have hedge : Edge.movedDown k { fromId, toId, kind, repoId := s.file.repoId } = { fromId, toId, kind, repoId := s.file.repoId } := by
      unfold Edge.movedDown
      split <;> rfl
    rw [movedDown, movedDown, List.map_append, List.map_singleton, hedge]
    rfl

/-- A member is linked to its owner alike further down. -/
theorem memberOf_movedDown {s' : FileScan} (hs : s' = s.movedDown k) (hd : d' = d.movedDown k) (owner : Declaration) :
    s'.memberOf d' (owner.movedDown k) = (s.memberOf d owner).movedDown k := by
  subst hs hd
  rw [memberOf, modify_movedDown (f := fun d => { d with parent := some owner.name }) fun _ => rfl, link_movedDown]
  rfl

/-- A member is recorded and linked from its type at once. -/
theorem declareMember_movedDown (hd : d' = d.movedDown k) (owner : Declaration) :
    ((s.movedDown k).declare d').1.memberOf ((s.movedDown k).declare d').2 (owner.movedDown k) =
      ((s.declare d).1.memberOf (s.declare d).2 owner).movedDown k :=
  memberOf_movedDown (fst_declare_movedDown hd) (snd_declare_movedDown hd) owner

/-- Where one step keeps pace, so do many. -/
theorem foldl_movedDown {α : Type} {step : FileScan → α → FileScan}
    (hstep : ∀ s x, step (s.movedDown k) x = (step s x).movedDown k) {s' : FileScan} (hs : s' = s.movedDown k) (xs : List α) :
    xs.foldl step s' = (xs.foldl step s).movedDown k := by
  rw [hs, List.foldl_hom (movedDown k) hstep]

/-! ## What becomes of a scan -/

variable {file : SourceFile} {held : List String}

/-- The end of a declaration is further down by the empty lines. -/
theorem endLine_movedDown (first : 1 ≤ d.startLine) : (s.movedDown k).endLine (d.movedDown k) = s.endLine d + k := by
  have hblock := d.block.endLine_blank s.noise s.lines k first
  unfold endLine
  show max ((d.endLine.map (· + k)).getD (d.block.endLine s.noise (List.replicate k [] ++ s.lines) (d.startLine + k)))
    (d.startLine + k) = _
  rw [hblock]
  cases d.endLine <;> exact Nat.add_max_add_right _ _ _

/-- The entity of a declaration is moved down with it. -/
theorem toEntity_movedDown (decision : Pattern) {doc : DocStyle} (hdoc : doc.Marked) (first : 1 ≤ d.startLine) :
    (s.movedDown k).toEntity decision doc (d.movedDown k) = (s.toEntity decision doc d).movedDown k := by
  have hend := endLine_movedDown (s := s) (k := k) first
  have hbody : (s.movedDown k).bodyLines (d.movedDown k) = s.bodyLines d := by
    have hcount : s.endLine d + k + 1 - (d.startLine + k) = s.endLine d + 1 - d.startLine := by omega
    rw [bodyLines, hend]
    show ((List.replicate k [] ++ s.lines).drop (d.startLine + k - 1)).take
      (min (s.endLine d + k + 1 - (d.startLine + k)) s.file.maxBodyLines) = _
    rw [Text.drop_blank_append_of_le first, hcount, bodyLines]
  have hfind : doc.find (s.movedDown k).lines (d.movedDown k).startLine = doc.find s.lines d.startLine :=
    doc.find_blank hdoc k s.lines first
  unfold toEntity
  rw [hbody, hend, hfind]
  unfold Entity.movedDown
  congr 1

/-- So are all entities. -/
theorem entities_movedDown (h : s.Sound file held) (decision : Pattern) {doc : DocStyle} (hdoc : doc.Marked) :
    (s.movedDown k).entities decision doc = (s.entities decision doc).map (Entity.movedDown k) := by
  have hstart : ∀ d : Declaration, (d.movedDown k).startLine = d.startLine + k := fun _ => rfl
  rw [entities, movedDown, Text.mergeSort_map_of_add hstart, List.map_map, entities, List.map_map]
  refine List.map_congr_left fun d hd => ?_
  exact toEntity_movedDown decision hdoc (h.fits d (List.mem_mergeSort.1 hd)).start.1

/-- What becomes of the two scans differs in line numbers alone. -/
theorem finish_movedDown (h : s.Sound file held) (decision : Pattern) {doc : DocStyle} (hdoc : doc.Marked) (imports : List Edge)
    (callTargets : List EntityKind) :
    (s.movedDown k).finish decision doc (imports.map (Edge.movedDown k)) callTargets =
      (s.finish decision doc imports callTargets).movedDown k := by
  have hcalls : ∀ e ∈ Calls.withinFile callTargets (s.entities decision doc), Edge.movedDown k e = e := by
    intro e he
    refine if_neg ?_
    rw [(Calls.isCall_of_mem_withinFile he).kind]
    decide
  have hedges : imports.map (Edge.movedDown k) ++ (s.movedDown k).edges ++ Calls.withinFile callTargets (s.entities decision doc) =
      (imports ++ s.edges ++ Calls.withinFile callTargets (s.entities decision doc)).map (Edge.movedDown k) := by
    rw [List.map_append, List.map_append, List.map_congr_left hcalls, List.map_id']
    rfl
  unfold finish
  dsimp only
  rw [entities_movedDown h decision hdoc, Calls.withinFile_movedDown, hedges, Calls.distinctLinks,
    Calls.firstByKey_map Edge.link_movedDown]
  rfl

end FileScan

end CodeAtlas
