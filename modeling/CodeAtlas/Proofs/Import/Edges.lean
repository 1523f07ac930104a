import CodeAtlas.Import.Edges
import CodeAtlas.Proofs.Graph.Contract
import CodeAtlas.Proofs.Identity

/-!
# The edges of imports

Every import edge of a file starts at the file and leads to something with other coordinates: another path, a directory or a package. So
the bytes that its two ends are the digests of are different; that the digests are different too is up to the digest.
-/

namespace CodeAtlas

/-- The coordinates of what an import edge leads to, as the edge itself tells it: a file or a directory of the workspace, or the module of
a package. -/
inductive Edge.TargetParts (repoId : String) (e : Edge) : List String → Prop where
  | file {path : String} : e.isExternal = false → Json.field? "target_path" e.metadata = some (.str path) →
    Json.field? "target_is_directory" e.metadata = some (.bool false) → TargetParts repoId e (Identity.fileParts repoId path)
  | directory {path : String} : e.isExternal = false → Json.field? "target_path" e.metadata = some (.str path) →
    Json.field? "target_is_directory" e.metadata = some (.bool true) → TargetParts repoId e (Identity.directoryParts repoId path)
  | package {name : String} : e.isExternal = true → e.packageName = some name →
    TargetParts repoId e (Identity.externalModuleParts repoId name)

/-- An edge leads to other coordinates than those of a file: the id that it leads to is the digest of other bytes. -/
def Edge.LeadsAway (repoId filePath : String) (e : Edge) : Prop :=
  ∃ parts, e.TargetParts repoId parts ∧ e.toId = Identity.ofParts parts ∧
    Identity.bytes parts ≠ Identity.bytes (Identity.fileParts repoId filePath)

/-- An edge of an import in a file. -/
structure Edge.IsImport (repoId filePath : String) (e : Edge) : Prop where
  source : e.fromId = Identity.file repoId filePath
  repo : e.repoId = repoId
  kind : e.kind = .imports
  confidence : e.confidence.inUnitInterval = true
  target : e.LeadsAway repoId filePath

/-- What an import statement names, without blanks around it. -/
def ImportStatement.target (s : ImportStatement) : String := String.ofList (Text.strip s.specifier.text)

namespace ImportEnd

section Statement

variable {repoId filePath language : String} {resolve : Resolver} {s : ImportStatement} {e : ImportEnd}

/-- A statement with a specifier leads to the path that the specifier is resolved to, if that is not the importing file, or to a package
when it is not resolved. -/
theorem ofStatement_eq_some_iff : ofStatement repoId filePath language resolve s = some e ↔
    s.target ≠ "" ∧ ((∃ t, resolve s.target = some t ∧ t.path ≠ filePath ∧ e = internal repoId s.target t) ∨
      resolve s.target = none ∧ e = external repoId language s.target) := by
  unfold ofStatement
  rw [← ImportStatement.target]
  dsimp only
  by_cases hs : s.target = ""
  · simp [hs]
  · rw [if_neg (by rwa [String.isEmpty_iff])]
    cases hresolve : resolve s.target with
    | none => simpa [hs] using eq_comm
    | some t =>
      by_cases hpath : t.path = filePath
      · simp [hpath]
      · simpa [hs, hpath] using eq_comm

/-- A statement leads nowhere if its specifier is blank or names the importing file. -/
theorem ofStatement_eq_none_iff : ofStatement repoId filePath language resolve s = none ↔
    s.target = "" ∨ ∃ t, resolve s.target = some t ∧ t.path = filePath := by
  rw [Option.eq_none_iff_forall_ne_some]
  simp only [ne_eq, ofStatement_eq_some_iff]
  by_cases hs : s.target = ""
  · simp [hs]
  · cases hresolve : resolve s.target with
    | none => simp [hs]
    | some t => simp [hs]

/-- A statement of a specifier that no file is found for leads to the module of its package. -/
theorem ofStatement_of_external (hspecifier : s.target ≠ "") (hexternal : resolve s.target = none) :
    ofStatement repoId filePath language resolve s = some (external repoId language s.target) :=
  ofStatement_eq_some_iff.2 ⟨hspecifier, Or.inr ⟨hexternal, rfl⟩⟩

/-- An end with a package is outside the workspace. -/
theorem eq_external_of_packageName (h : ofStatement repoId filePath language resolve s = some e) {package : String}
    (hpackage : e.packageName = some package) : e = external repoId language s.target := by
  obtain ⟨-, ⟨t, -, -, rfl⟩ | ⟨-, rfl⟩⟩ := ofStatement_eq_some_iff.1 h
  · nomatch hpackage
  · rfl

end Statement

/-- The confidence in an import is one or one half. -/
theorem confidence_ofStatement {repoId filePath language : String} {resolve : Resolver} {s : ImportStatement} {t : ImportEnd}
    (h : ofStatement repoId filePath language resolve s = some t) : t.confidence.inUnitInterval = true := by
  obtain ⟨-, ⟨target, -, -, rfl⟩ | ⟨-, rfl⟩⟩ := ofStatement_eq_some_iff.1 h
  · unfold internal
    dsimp only
    split <;> decide
  · exact Binary64.inUnitInterval_one

end ImportEnd

namespace ImportGroup

/-- A group after an insertion has the target that was inserted, or that of a group from before. -/
theorem target_of_mem_insert {target : ImportEnd} {s : ImportStatement} {gs : List ImportGroup} {g : ImportGroup}
    (h : g ∈ insert target s gs) : g.target = target ∨ ∃ g' ∈ gs, g'.target = g.target := by
  induction gs with
  | nil =>
    rw [insert, List.mem_singleton] at h
    subst h
    exact Or.inl rfl
  | cons x xs ih =>
    unfold insert at h
    split at h
    · rcases List.mem_cons.1 h with rfl | h
      · exact Or.inr ⟨x, List.mem_cons_self, rfl⟩
      · exact Or.inr ⟨g, List.mem_cons_of_mem x h, rfl⟩
    · rcases List.mem_cons.1 h with rfl | h
      · exact Or.inr ⟨g, List.mem_cons_self, rfl⟩
      · exact (ih h).imp_right fun ⟨g', hg', e⟩ => ⟨g', List.mem_cons_of_mem x hg', e⟩

/-- After an insertion there is a group for the target. -/
theorem toId_mem_insert (target : ImportEnd) (s : ImportStatement) (gs : List ImportGroup) :
    ∃ g ∈ insert target s gs, g.target.toId = target.toId := by
  induction gs with
  | nil => exact ⟨_, List.mem_singleton_self _, rfl⟩
  | cons x xs ih =>
    unfold insert
    split
    · rename_i hid
      exact ⟨x.add s, List.mem_cons_self, hid⟩
    · obtain ⟨g, hg, hid⟩ := ih
      exact ⟨g, List.mem_cons_of_mem x hg, hid⟩

/-- The targets from before stay. -/
theorem exists_mem_insert {target : ImportEnd} {s : ImportStatement} {gs : List ImportGroup} {g : ImportGroup} (h : g ∈ gs) :
    ∃ g' ∈ insert target s gs, g'.target = g.target := by
  induction gs with
  | nil => nomatch h
  | cons x xs ih =>
    unfold insert
    split
    · rcases List.mem_cons.1 h with rfl | h
      · exact ⟨g.add s, List.mem_cons_self, rfl⟩
      · exact ⟨g, List.mem_cons_of_mem _ h, rfl⟩
    · rcases List.mem_cons.1 h with rfl | h
      · exact ⟨g, List.mem_cons_self, rfl⟩
      · obtain ⟨g', hg', e⟩ := ih h
        exact ⟨g', List.mem_cons_of_mem x hg', e⟩

end ImportGroup

variable {repoId filePath language : String} {resolve : Resolver} {statements : List ImportStatement} {e : Edge}

/-- The imports of each target, when all statements have been seen. -/
def importGroups (repoId filePath language : String) (resolve : Resolver) (statements : List ImportStatement) : List ImportGroup :=
  statements.foldl (fun gs s =>
    match ImportEnd.ofStatement repoId filePath language resolve s with
    | some target => ImportGroup.insert target s gs
    | none => gs) []

theorem importEdges_eq : importEdges repoId filePath language resolve statements =
    (importGroups repoId filePath language resolve statements).map (ImportGroup.toEdge repoId (Identity.file repoId filePath)) := rfl

/-- The first statement of a group says where it leads. -/
theorem exists_statement_of_mem_importGroups {g : ImportGroup}
    (h : g ∈ importGroups repoId filePath language resolve statements) :
    ∃ s ∈ statements, ImportEnd.ofStatement repoId filePath language resolve s = some g.target := by
  unfold importGroups at h
  refine List.foldlRecOn (motive := fun gs : List ImportGroup =>
    ∀ g ∈ gs, ∃ s ∈ statements, ImportEnd.ofStatement repoId filePath language resolve s = some g.target) _ _ ?_ ?_ g h
  · exact fun g hg => nomatch hg
  · intro gs hgs s hs
    split
    · rename_i target htarget
      intro g hg
      rcases ImportGroup.target_of_mem_insert hg with e | ⟨g', hg', e⟩
      · exact ⟨s, hs, e ▸ htarget⟩
      · exact e ▸ hgs g' hg'
    · exact hgs

/-- Every statement that leads somewhere has a group for where it leads. -/
theorem exists_mem_importGroups_of_statement {s : ImportStatement} (hs : s ∈ statements) {t : ImportEnd}
    (ht : ImportEnd.ofStatement repoId filePath language resolve s = some t) :
    ∃ g ∈ importGroups repoId filePath language resolve statements, g.target.toId = t.toId := by
  obtain ⟨before, after, rfl⟩ := List.append_of_mem hs
  unfold importGroups
  rw [List.foldl_append, List.foldl_cons, ht]
  refine List.foldlRecOn (motive := fun gs : List ImportGroup => ∃ g ∈ gs, g.target.toId = t.toId) after _
    (ImportGroup.toId_mem_insert t s _) ?_
  intro gs hgs s' _
  split
  · obtain ⟨g, hg, hid⟩ := hgs
    obtain ⟨g', hg', e⟩ := ImportGroup.exists_mem_insert hg
    exact ⟨g', hg', e ▸ hid⟩
  · exact hgs

/-- Every import edge is that of a group of statements. -/
theorem exists_group_of_mem_importEdges (h : e ∈ importEdges repoId filePath language resolve statements) :
    ∃ g : ImportGroup, e = g.toEdge repoId (Identity.file repoId filePath) ∧
      ∃ s ∈ statements, ImportEnd.ofStatement repoId filePath language resolve s = some g.target := by
  rw [importEdges_eq] at h
  obtain ⟨g, hg, rfl⟩ := List.mem_map.1 h
  exact ⟨g, rfl, exists_statement_of_mem_importGroups hg⟩

/-- The edge of a group leads away from the file, to where its statements are resolved: a path that is not the file's, or a package. -/
theorem ImportGroup.leadsAway_toEdge {g : ImportGroup} {s : ImportStatement} {fromId : String}
    (h : ImportEnd.ofStatement repoId filePath language resolve s = some g.target) :
    (g.toEdge repoId fromId).LeadsAway repoId filePath := by
  obtain ⟨target, line, symbols, typeOnly, importAll⟩ := g
  obtain ⟨-, ⟨t, -, hpath, rfl⟩ | ⟨-, rfl⟩⟩ := ImportEnd.ofStatement_eq_some_iff.1 h
  · obtain ⟨path, resolved, isDirectory⟩ := t
    cases isDirectory with
    | true => exact ⟨_, .directory rfl rfl rfl, rfl, Identity.bytes_directoryParts_ne repoId path filePath⟩
    | false => exact ⟨_, .file rfl rfl rfl, rfl, mt Identity.bytes_fileParts_eq_iff.1 hpath⟩
  · exact ⟨_, .package rfl rfl, rfl, Identity.bytes_externalModuleParts_ne repoId _ filePath⟩

/-- Every edge of the imports of a file is one, whatever the statements and their resolution. -/
theorem isImport_of_mem_importEdges (h : e ∈ importEdges repoId filePath language resolve statements) : e.IsImport repoId filePath := by
  obtain ⟨g, rfl, s, -, htarget⟩ := exists_group_of_mem_importEdges h
  exact ⟨rfl, rfl, rfl, ImportEnd.confidence_ofStatement htarget, ImportGroup.leadsAway_toEdge htarget⟩

/-- An import that leaves the workspace is one whose specifier is not resolved. -/
theorem exists_unresolved_of_mem_importEdges (h : e ∈ importEdges repoId filePath language resolve statements)
    (hexternal : e.isExternal = true) :
    ∃ s ∈ statements, resolve s.target = none ∧ Json.field? "specifier" e.metadata = some (.str s.target) ∧
      e.packageName = some (Boundary.packageName s.target language) := by
  obtain ⟨⟨target, line, symbols, typeOnly, importAll⟩, rfl, s, hs, htarget⟩ := exists_group_of_mem_importEdges h
  obtain ⟨-, ⟨t, -, -, rfl⟩ | ⟨hnone, rfl⟩⟩ := ImportEnd.ofStatement_eq_some_iff.1 htarget
  · nomatch hexternal
  · exact ⟨s, hs, hnone, rfl, rfl⟩

/-- An import that does not leave the workspace leads to what its specifier is resolved to. -/
theorem exists_target_of_mem_importEdges (h : e ∈ importEdges repoId filePath language resolve statements)
    (hinternal : e.isExternal = false) :
    ∃ specifier t, resolve specifier = some t ∧ e.toId = (ImportEnd.internal repoId specifier t).toId ∧
      e.confidence = (ImportEnd.internal repoId specifier t).confidence := by
  obtain ⟨⟨target, line, symbols, typeOnly, importAll⟩, rfl, s, -, htarget⟩ := exists_group_of_mem_importEdges h
  obtain ⟨-, ⟨t, ht, -, rfl⟩ | ⟨-, rfl⟩⟩ := ImportEnd.ofStatement_eq_some_iff.1 htarget
  · exact ⟨_, t, ht, rfl, rfl⟩
  · nomatch hinternal

end CodeAtlas
