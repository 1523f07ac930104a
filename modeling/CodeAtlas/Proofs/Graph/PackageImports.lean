import CodeAtlas.Proofs.Boundary
import CodeAtlas.Proofs.Graph.ResolvedImports

/-!
# Imports of packages

An import that leaves the workspace leads to the module of a package. The structure of a run has a module for every package that an edge
names, so such an import is written. The exception are specifiers from which no name of a package is left: they make edges too, and
nothing stands where these lead.
-/

namespace CodeAtlas

namespace Structure

variable {repoId : String} {files : List IndexedFile} {entities : List Entity} {edges : List Edge}

/-- Adds the package of an edge, unless it is there. -/
def addPackage (out : List (String × Edge)) (e : Edge) : List (String × Edge) :=
  match e.packageName with
  | some p => if e.isExternal && !p.isEmpty && !out.any (·.1 == p) then out ++ [(p, e)] else out
  | none => out

theorem packages_eq : packages edges = edges.foldl addPackage [] := rfl

/-- An edge adds its package where it leads out of the repository and names one. -/
theorem mem_map_addPackage {out : List (String × Edge)} {e : Edge} {p : String} :
    p ∈ (addPackage out e).map (·.1) ↔ p ∈ out.map (·.1) ∨ (p ≠ "" ∧ e.isExternal = true ∧ e.packageName = some p) := by
  unfold addPackage
  split
  · rename_i q hq
    split
    · rename_i hnew
      simp only [Bool.and_eq_true, Bool.not_eq_true', String.isEmpty_eq_false_iff] at hnew
      simp only [List.map_append, List.mem_append, List.map_singleton, List.mem_singleton]
      refine or_congr_right ⟨?_, ?_⟩
      · rintro rfl
        exact ⟨hnew.1.2, hnew.1.1, hq⟩
      · rintro ⟨-, -, hp⟩
        exact Option.some.inj (hp.symm.trans hq)
    · rename_i hold
      refine ⟨Or.inl, Or.rec id ?_⟩
      rintro ⟨hne, hexternal, hp⟩
      obtain rfl : p = q := Option.some.inj (hp.symm.trans hq)
      have hthere : (out.any fun x => x.1 == p) = true := by
        refine Decidable.byContradiction fun hnot => hold ?_
        simp only [Bool.and_eq_true, Bool.not_eq_true', String.isEmpty_eq_false_iff]
        exact ⟨⟨hexternal, hne⟩, eq_false_of_ne_true hnot⟩
      obtain ⟨x, hx, hxp⟩ := List.any_eq_true.1 hthere
      exact List.mem_map.2 ⟨x, hx, beq_iff_eq.1 hxp⟩
  · rename_i hnone
    simp [hnone]

/-- The packages of a run are those that its external edges name. -/
theorem mem_map_packages {p : String} :
    p ∈ (packages edges).map (·.1) ↔ p ≠ "" ∧ ∃ e ∈ edges, e.isExternal = true ∧ e.packageName = some p := by
  have hfold : ∀ (es : List Edge) (out : List (String × Edge)), p ∈ (es.foldl addPackage out).map (·.1) ↔
      p ∈ out.map (·.1) ∨ (p ≠ "" ∧ ∃ e ∈ es, e.isExternal = true ∧ e.packageName = some p) := by
    intro es
    induction es with
    | nil => simp
    | cons e es ih =>
      intro out
      rw [List.foldl_cons, ih, mem_map_addPackage, or_assoc]
      simp only [List.mem_cons, exists_eq_or_imp, and_or_left]
  rw [packages_eq, hfold]
  simp

/-- The package of an external edge is an entity of the structure when it has a name. -/
theorem exists_package (repoId : String) (files : List IndexedFile) (entities : List Entity) {e : Edge} (he : e ∈ edges)
    (hexternal : e.isExternal = true) {p : String} (hpackage : e.packageName = some p) (hp : p ≠ "") :
    ∃ x ∈ (ofRun repoId files entities edges).entities,
      x.kind = .module_ ∧ x.name = p ∧ x.id = Identity.externalModule repoId p := by
  obtain ⟨q, hq, rfl⟩ := List.mem_map.1 (mem_map_packages.2 ⟨hp, e, he, hexternal, hpackage⟩)
  exact ⟨packageEntity repoId _ q.1, List.mem_append_right _ (List.mem_map_of_mem hq), rfl, rfl, rfl⟩

/-- No package is without a name. -/
theorem name_ne_empty_of_package {x : Entity} (hx : x ∈ (ofRun repoId files entities edges).entities) (hkind : x.kind = .module_) :
    x.name ≠ "" := by
  rcases List.mem_append.1 hx with hx | hx
  · rcases List.mem_append.1 hx with hx | hx
    · obtain ⟨f, -, rfl⟩ := List.mem_map.1 hx
      exact absurd hkind (show EntityKind.file ≠ EntityKind.module_ by decide)
    · obtain ⟨d, -, rfl⟩ := List.mem_map.1 hx
      exact absurd hkind (show EntityKind.directory ≠ EntityKind.module_ by decide)
  · obtain ⟨q, hq, rfl⟩ := List.mem_map.1 hx
    exact (mem_map_packages.1 (List.mem_map_of_mem hq)).1

end Structure

/-- An edge of a batch leads to an entity of its run. -/
theorem WriteBatch.exists_target {repoId : String} {version : Option String} {files : List IndexedFile} {entities : List Entity}
    {edges : List Edge} {b : WriteBatch} (hb : ofRun repoId version files entities edges = .ok b) {e : Edge} (he : e ∈ b.edges) :
    ∃ x ∈ (Structure.ofRun repoId files entities edges).entities ++ entities, x.id = e.toId := by
  obtain ⟨rfl, hholds⟩ := ofRun_eq_ok_iff.1 hb
  obtain ⟨x, hx, hid⟩ := List.mem_map.1 (hholds.ends e he).2
  cases version with
  | none => exact ⟨x, mem_of_mem_firstById hx, hid⟩
  | some v =>
    obtain ⟨y, hy, rfl⟩ := List.mem_map.1 hx
    exact ⟨y, mem_of_mem_firstById hy, hid⟩

section External

variable {repoId filePath language : String} {resolve : Resolver} {statements : List ImportStatement} {s : ImportStatement}

/-- No other target of a file has the id of a package. -/
def ImportEnd.PackageApart (repoId filePath language : String) (resolve : Resolver) (statements : List ImportStatement)
    (package : String) : Prop :=
  ∀ s ∈ statements, ∀ t, ofStatement repoId filePath language resolve s = some t →
    t.toId = Identity.externalModule repoId package → t.packageName = some package

/-- A statement that leaves the workspace has an edge to the module of its package. -/
theorem exists_external_mem_importEdges (hs : s ∈ statements) (hspecifier : s.target ≠ "") (hexternal : resolve s.target = none)
    (apart : ImportEnd.PackageApart repoId filePath language resolve statements (Boundary.packageName s.target language)) :
    ∃ e ∈ importEdges repoId filePath language resolve statements,
      e.fromId = Identity.file repoId filePath ∧ e.toId = Identity.externalModule repoId (Boundary.packageName s.target language) ∧
        e.isExternal = true ∧ e.packageName = some (Boundary.packageName s.target language) := by
  have houtside : ImportEnd.ofStatement repoId filePath language resolve s = some (.external repoId language s.target) :=
    ImportEnd.ofStatement_of_external hspecifier hexternal
  obtain ⟨g, hg, hid⟩ := exists_mem_importGroups_of_statement hs houtside
  obtain ⟨s', hs', htarget⟩ := exists_statement_of_mem_importGroups hg
  have hpackage := apart s' hs' g.target htarget hid
  have hend := ImportEnd.eq_external_of_packageName htarget hpackage
  refine ⟨g.toEdge repoId (Identity.file repoId filePath), ?_, rfl, hid, ?_, hpackage⟩
  · rw [importEdges_eq]
    exact List.mem_map_of_mem hg
  · exact (congrArg ImportEnd.isExternal hend).trans rfl

/-- An import that leaves the workspace from a file of a run is written with the module that it leads to, when its specifier names a
package. When none is left of the specifier, the structure has no module for it, and the import is written only if its end has the id of
something else. -/
theorem external_import_written {files : List IndexedFile} {entities : List Entity} {edges : List Edge}
    (hfile : ∃ f ∈ files, f.path = filePath) (hedges : importEdges repoId filePath language resolve statements ⊆ edges)
    (hs : s ∈ statements) (hspecifier : s.target ≠ "") (hexternal : resolve s.target = none)
    (apart : ImportEnd.PackageApart repoId filePath language resolve statements (Boundary.packageName s.target language)) :
    ∃ e ∈ importEdges repoId filePath language resolve statements,
      let structural := Structure.ofRun repoId files entities edges
      e.isExternal = true ∧ e.toId = Identity.externalModule repoId (Boundary.packageName s.target language) ∧
      (Boundary.lacksPackage s.target language = false →
        (∃ x ∈ structural.entities, x.kind = .module_ ∧ x.name = Boundary.packageName s.target language ∧ x.id = e.toId) ∧
        e ∉ WriteBatch.leftOut repoId files entities edges ∧
        ((∀ e' ∈ structural.edges ++ edges, e'.id = e.id → e'.link = e.link) →
          ∀ version b, WriteBatch.ofRun repoId version files entities edges = .ok b → ∃ e' ∈ b.edges, e'.link = e.link)) ∧
      (Boundary.lacksPackage s.target language = true →
        (∀ x ∈ structural.entities, x.kind = .module_ → x.name ≠ Boundary.packageName s.target language) ∧
        ((∀ x ∈ structural.entities ++ entities, x.id ≠ e.toId) →
          ∀ version b, WriteBatch.ofRun repoId version files entities edges = .ok b → ∀ e' ∈ b.edges, e'.toId ≠ e.toId)) := by
  obtain ⟨e, he, hfrom, hto, hexternalEdge, hpackage⟩ := exists_external_mem_importEdges hs hspecifier hexternal apart
  refine ⟨e, he, hexternalEdge, hto, fun hnamed => ?_, fun hlacks => ?_⟩
  · have hname : Boundary.packageName s.target language ≠ "" := fun h => by
      rw [(Boundary.packageName_eq_empty_iff hspecifier language).1 h] at hnamed
      nomatch hnamed
    obtain ⟨x, hx, hkind, hxname, hxid⟩ :=
      Structure.exists_package repoId files entities (hedges he) hexternalEdge hpackage hname
    obtain ⟨f, hf, hpath⟩ := hfile
    have hcover : ∀ p ∈ [filePath], ∃ f ∈ files, f.path = p := by simpa using ⟨f, hf, hpath⟩
    have hsource : ∃ y ∈ (Structure.ofRun repoId files entities edges).entities, y.id = e.fromId := by
      obtain ⟨y, hy, -, hyid⟩ := Structure.exists_file_of_mem_paths hcover (List.mem_singleton_self filePath)
      exact ⟨y, hy, hyid.trans hfrom.symm⟩
    have hends : WriteBatch.hasEnds (WriteBatch.entityIds repoId files entities edges) e = true :=
      WriteBatch.hasEnds_of_structure hsource ⟨x, hx, hxid.trans hto.symm⟩
    refine ⟨⟨x, hx, hkind, hxname, hxid.trans hto.symm⟩, fun hleft => ?_, fun hlinks version b hb => ?_⟩
    · have hnot := (List.mem_filter.1 hleft).2
      rw [hends] at hnot
      nomatch hnot
    · rw [← (WriteBatch.ofRun_eq_ok_iff.1 hb).1]
      exact WriteBatch.exists_link_mem_assemble version (hedges he) hends hlinks
  · rw [(Boundary.packageName_eq_empty_iff hspecifier language).2 hlacks]
    refine ⟨fun x hx hkind => Structure.name_ne_empty_of_package hx hkind, fun hnone version b hb e' he' hsame => ?_⟩
    obtain ⟨x, hx, hid⟩ := WriteBatch.exists_target hb he'
    exact hnone x hx (hid.trans hsame)

end External

/-- The import of a database driver is written with the module of its package. -/
theorem driver_import_written :
    ∃ e ∈ importEdges "r" "app.py" "python" (fun _ => none) [{ specifier := " psycopg2.extras ", line := 1 }],
      (∃ x ∈ (Structure.ofRun "r" [⟨"app.py", "python", 1⟩] []
          (importEdges "r" "app.py" "python" (fun _ => none) [{ specifier := " psycopg2.extras ", line := 1 }])).entities,
        x.kind = .module_ ∧ x.name = "psycopg2" ∧ x.id = e.toId) ∧
      e ∉ WriteBatch.leftOut "r" [⟨"app.py", "python", 1⟩] []
        (importEdges "r" "app.py" "python" (fun _ => none) [{ specifier := " psycopg2.extras ", line := 1 }]) := by
  have htarget : ImportStatement.target { specifier := " psycopg2.extras ", line := 1 } = "psycopg2.extras" := by decide
  have hpackage : Boundary.packageName "psycopg2.extras" "python" = "psycopg2" := by decide
  have apart : ImportEnd.PackageApart "r" "app.py" "python" (fun _ => none) [{ specifier := " psycopg2.extras ", line := 1 }]
      (Boundary.packageName (ImportStatement.target { specifier := " psycopg2.extras ", line := 1 }) "python") := by
    intro s hs t ht _
    rw [List.mem_singleton.1 hs, ImportEnd.ofStatement_of_external (by rw [htarget]; decide) rfl] at ht
    exact Option.some.inj ht ▸ rfl
  obtain ⟨e, he, -, -, hwritten, -⟩ := @external_import_written "r" "app.py" "python" (fun _ => none) _ _ [⟨"app.py", "python", 1⟩] [] _
    ⟨_, List.mem_singleton_self _, rfl⟩ (List.Subset.refl _) (List.mem_singleton_self _) (by rw [htarget]; decide) rfl apart
  rw [htarget, hpackage] at hwritten
  obtain ⟨hmodule, hleft, -⟩ := hwritten (by decide)
  exact ⟨e, he, hmodule, hleft⟩

/-- The imports of a crate root that names a crate from the root of all names. -/
def rootedUse : List Edge :=
  importEdges "r" "src/lib.rs" "rust" (Rust.resolve (.ofFiles ["src/lib.rs"]) "src/lib.rs")
    (Rust.importStatements "use ::serde::Serialize;\n".text)

/-- The package of a path that begins with `::` is empty. -/
theorem importStatements_rootedUse :
    Rust.importStatements "use ::serde::Serialize;\n".text = [{ specifier := "::serde", line := 1, symbols := ["Serialize"] }] := by
  rw [Rust.importStatements, List.mergeSort_of_pairwise (by decide)]
  decide

/-- A path that begins with `::` gives no module and no import edge. -/
theorem ofRun_rootedUse : (Structure.ofRun "r" [⟨"src/lib.rs", "rust", 1⟩] [] rootedUse).edges =
      [Structure.containment "r" (Identity.directory "r" "src") (Identity.file "r" "src/lib.rs")] ∧
    (Structure.ofRun "r" [⟨"src/lib.rs", "rust", 1⟩] [] rootedUse).entities =
      [Structure.fileEntity "r" ⟨"src/lib.rs", "rust", 1⟩, Structure.directoryEntity "r" "src"] := by
  have hfiles : Structure.allFiles [⟨"src/lib.rs", "rust", 1⟩] [] = [⟨"src/lib.rs", "rust", 1⟩] := by
    rw [Structure.allFiles, List.mergeSort_of_pairwise (by decide)]
    rfl
  have hdirs : Structure.allDirectories [⟨"src/lib.rs", "rust", 1⟩] = ["src"] := by
    rw [Structure.allDirectories, List.mergeSort_of_pairwise (by decide)]
    decide
  have hpackages : Structure.packages rootedUse = [] := by
    rw [rootedUse, importStatements_rootedUse]
    exact List.isEmpty_iff.1 (by decide)
  simp only [Structure.ofRun, hfiles, hdirs, hpackages]
  exact ⟨rfl, rfl⟩

/-- No name of a package is left of the crate, and its edge is left out of a run over the file. -/
theorem rooted_use_left_out :
    Rust.importStatements "use ::serde::Serialize;\n".text = [{ specifier := "::serde", line := 1, symbols := ["Serialize"] }] ∧
      Rust.resolve (.ofFiles ["src/lib.rs"]) "src/lib.rs" "::serde" = none ∧
      ∃ e ∈ rootedUse, e.kind = .imports ∧ e.isExternal = true ∧ e.packageName = some "" ∧
        e ∈ WriteBatch.leftOut "r" [⟨"src/lib.rs", "rust", 1⟩] [] rootedUse := by
  have hleft : (WriteBatch.leftOut "r" [⟨"src/lib.rs", "rust", 1⟩] [] rootedUse).any
      (fun e => decide (e.kind = .imports) && e.isExternal && e.packageName == some "") = true := by
    rw [WriteBatch.leftOut, WriteBatch.entityIds, ofRun_rootedUse.1, ofRun_rootedUse.2, rootedUse, importStatements_rootedUse]
    decide +kernel
  obtain ⟨e, he, hends⟩ := List.any_eq_true.1 hleft
  simp only [Bool.and_eq_true, decide_eq_true_eq, beq_iff_eq] at hends
  obtain ⟨⟨hkind, hexternal⟩, hpackage⟩ := hends
  have hmem := WriteBatch.mem_of_mem_firstById (List.mem_filter.1 he).1
  rw [ofRun_rootedUse.1, List.mem_append, List.mem_singleton] at hmem
  refine ⟨importStatements_rootedUse, by decide, e, hmem.resolve_left ?_, hkind, hexternal, hpackage, he⟩
  rintro rfl
  exact absurd hkind (by decide)

end CodeAtlas
