import CodeAtlas.Proofs.Graph.Structure
import Mathlib.Data.List.Nodup

/-!
# Containment is a forest

A run's structure has one file for every path that occurs, one directory for every directory above such a path, and no others. Every one
of them below the top level is contained in its parent directory, and every declaration in its file. Containment goes by ids: that
nothing has a second container holds as far as ids are told apart, and two files whose ids collide have both their directories for
containers (`two_containers_of_collision`).
-/

namespace CodeAtlas

namespace Structure

variable {repoId : String} {files : List IndexedFile} {entities : List Entity} {edges : List Edge}

/-- A path that a file of a run has, or that an entity lies in. -/
def Occurs (files : List IndexedFile) (entities : List Entity) (p : String) : Prop :=
  (∃ f ∈ files, f.path = p) ∨ ∃ e ∈ entities, e.filePath = p

/-- No other file or directory has the id of this one, and no declaration has it. -/
def IsAlone (s : Fragment) (entities : List Entity) (x : Entity) : Prop :=
  (∀ y ∈ s.entities, y.kind.isStructural = true → y.id = x.id → y.kind = x.kind ∧ y.filePath = x.filePath) ∧
    ∀ e ∈ entities, e.id ≠ x.id

/-- A top-level file or directory is reached in finitely many steps, however containment is followed back from an id. -/
inductive ReachesTop (s : Fragment) : String → Prop where
  | top {x : Entity} : x ∈ s.entities → x.kind.isStructural = true → Path.dirname x.filePath = "" → ReachesTop s x.id
  | up {id : String} : (∃ e ∈ s.edges, e.toId = id) → (∀ e ∈ s.edges, e.toId = id → ReachesTop s e.fromId) → ReachesTop s id

/-- The files, directories and edges of containment of a run over some files and declarations. -/
structure IsForest (repoId : String) (files : List IndexedFile) (entities : List Entity) (s : Fragment) : Prop where
  /-- Every path that occurs has one file. -/
  file : ∀ p, Occurs files entities p → s.entities.countP (fun x => x.kind == .file && x.filePath == p) = 1
  /-- Every directory above such a path is there once. -/
  directory : ∀ p d, Occurs files entities p → Path.IsAbove p d → d ≠ "" →
    s.entities.countP (fun x => x.kind == .directory && x.filePath == d) = 1
  /-- There are no other files. -/
  occurs_of_file : ∀ x ∈ s.entities, x.kind = .file → x.id = Identity.file repoId x.filePath ∧ Occurs files entities x.filePath
  /-- There are no other directories. -/
  above_of_directory : ∀ x ∈ s.entities, x.kind = .directory → x.id = Identity.directory repoId x.filePath ∧ x.filePath ≠ "" ∧
    ∃ p, Occurs files entities p ∧ Path.IsAbove p x.filePath
  /-- What lies below the top level is contained in its parent directory, and in nothing else when its id is its own. -/
  parent : ∀ x ∈ s.entities, x.kind.isStructural = true → Path.dirname x.filePath ≠ "" →
    (∃ y ∈ s.entities, y.kind = .directory ∧ y.filePath = Path.dirname x.filePath ∧ containment repoId y.id x.id ∈ s.edges) ∧
      (IsAlone s entities x → s.edges.countP (fun e => e.toId == x.id) = 1)
  /-- A declaration is contained in its file. -/
  declared : ∀ e ∈ entities, ∃ y ∈ s.entities, y.kind = .file ∧ y.filePath = e.filePath ∧ containment repoId y.id e.id ∈ s.edges
  /-- All edges are edges of containment in a file or directory. -/
  container : ∀ e ∈ s.edges, e.kind = .contains ∧ ∃ x ∈ s.entities, x.kind.isStructural = true ∧ x.id = e.fromId
  /-- What is contained is a file, a directory or a declaration. -/
  contained : ∀ e ∈ s.edges, (∃ x ∈ s.entities, x.kind.isStructural = true ∧ x.id = e.toId) ∨ ∃ x ∈ entities, x.id = e.toId
  /-- When ids are told apart, containment leads from everything up to the top level. -/
  reachesTop : (∀ x ∈ s.entities, x.kind.isStructural = true → IsAlone s entities x) →
    (∀ x ∈ s.entities, x.kind.isStructural = true → ReachesTop s x.id) ∧ ∀ x ∈ entities, ReachesTop s x.id

/-- The edges from the parent directories of some paths to what has these paths. -/
def fromParents (repoId : String) (ident : String → String) (paths : List String) : List Edge :=
  paths.flatMap fun p => fromParent repoId p (ident p)

/-- The paths of all files of a run. -/
def allPaths (files : List IndexedFile) (entities : List Entity) : List String := (allFiles files entities).map (·.path)

/-- No path occurs twice. -/
theorem nodup_allPaths : (allPaths files entities).Nodup := nodup_allFiles files entities

/-- The edges of a run lead from directories to files, from directories to directories, and from files to declarations. -/
theorem edges_ofRun : (ofRun repoId files entities edges).edges =
    fromParents repoId (Identity.file repoId) (allPaths files entities) ++
      fromParents repoId (Identity.directory repoId) (allDirectories (allFiles files entities)) ++
      (entities.filter isDeclaration).map fun e => containment repoId (Identity.file repoId e.filePath) e.id := by
  rw [fromParents, allPaths, List.flatMap_map]
  rfl

/-- The edge to a path begins at its directory, unless that is the root. -/
theorem mem_fromParent {path member : String} {e : Edge} :
    e ∈ fromParent repoId path member ↔
      Path.dirname path ≠ "" ∧ e = containment repoId (Identity.directory repoId (Path.dirname path)) member := by
  unfold fromParent
  dsimp only
  by_cases hd : Path.dirname path = ""
  · simp [hd]
  · simp [hd]

section FromParents

variable {ident : String → String} {paths : List String}

theorem mem_fromParents {e : Edge} : e ∈ fromParents repoId ident paths ↔
    ∃ p ∈ paths, Path.dirname p ≠ "" ∧ e = containment repoId (Identity.directory repoId (Path.dirname p)) (ident p) := by
  simp only [fromParents, List.mem_flatMap, mem_fromParent]

/-- No edge leads to an id that no path has. -/
theorem countP_fromParents_eq_zero {id : String} (h : ∀ p ∈ paths, ident p ≠ id) :
    (fromParents repoId ident paths).countP (fun e => e.toId == id) = 0 := by
  refine List.countP_eq_zero.2 fun e he hid => ?_
  obtain ⟨p, hp, -, rfl⟩ := mem_fromParents.1 he
  exact h p hp (beq_iff_eq.1 hid)

/-- Where no other path has its id, one edge leads to what lies below the top level. -/
theorem countP_fromParents_eq_one (hnodup : paths.Nodup) {p : String} (hp : p ∈ paths) (hd : Path.dirname p ≠ "")
    (halone : ∀ q ∈ paths, ident q = ident p → q = p) :
    (fromParents repoId ident paths).countP (fun e => e.toId == ident p) = 1 := by
  obtain ⟨before, after, rfl⟩ := List.append_of_mem hp
  obtain ⟨-, hcons, hdisjoint⟩ := List.nodup_append.1 hnodup
  have hbefore : ∀ q ∈ before, ident q ≠ ident p := fun q hq e =>
    hdisjoint q hq p List.mem_cons_self (halone q (List.mem_append_left _ hq) e)
  have hafter : ∀ q ∈ after, ident q ≠ ident p := fun q hq e =>
    (List.nodup_cons.1 hcons).1 (halone q (List.mem_append_right _ (List.mem_cons_of_mem p hq)) e ▸ hq)
  have hsplit : fromParents repoId ident (before ++ p :: after) =
      fromParents repoId ident before ++
        (containment repoId (Identity.directory repoId (Path.dirname p)) (ident p) :: fromParents repoId ident after) := by
    simp [fromParents, fromParent, hd]
  rw [hsplit, List.countP_append, countP_fromParents_eq_zero hbefore, List.countP_cons, countP_fromParents_eq_zero hafter]
  simp [containment]

end FromParents

/-- An edge leads from a parent directory to a file or to a directory, or from a file to a declaration. -/
theorem mem_edges_ofRun {e : Edge} : e ∈ (ofRun repoId files entities edges).edges ↔
    (∃ p ∈ allPaths files entities, Path.dirname p ≠ "" ∧
        e = containment repoId (Identity.directory repoId (Path.dirname p)) (Identity.file repoId p)) ∨
      (∃ d ∈ allDirectories (allFiles files entities), Path.dirname d ≠ "" ∧
        e = containment repoId (Identity.directory repoId (Path.dirname d)) (Identity.directory repoId d)) ∨
      ∃ x ∈ entities, isDeclaration x = true ∧ e = containment repoId (Identity.file repoId x.filePath) x.id := by
  simp only [edges_ofRun, List.mem_append, mem_fromParents, List.mem_map, List.mem_filter, or_assoc, and_assoc, eq_comm (a := e)]

/-- A run over relative paths, whose entities are declarations. -/
structure FromRelative (files : List IndexedFile) (entities : List Entity) : Prop where
  file : ∀ f ∈ files, Path.IsRelative f.path
  entity : ∀ e ∈ entities, Path.IsRelative e.filePath
  declaration : ∀ e ∈ entities, isDeclaration e = true

/-- The files of the structure are those that occur. -/
theorem mem_allPaths_iff (h : FromRelative files entities) {p : String} : p ∈ allPaths files entities ↔ Occurs files entities p := by
  constructor
  · intro hp
    obtain ⟨f, hf, rfl⟩ := List.mem_map.1 hp
    exact path_of_mem_allFiles hf
  · rintro (⟨f, hf, rfl⟩ | ⟨e, he, rfl⟩)
    · obtain ⟨f', hf', hpath⟩ := exists_mem_allFiles hf entities
      exact List.mem_map.2 ⟨f', hf', hpath⟩
    · obtain ⟨f, hf, hpath⟩ := exists_mem_allFiles_of_declaration he (h.declaration e he) files
      exact List.mem_map.2 ⟨f, hf, hpath⟩

/-- Every path that occurs is relative. -/
theorem FromRelative.isRelative (h : FromRelative files entities) {p : String} (hp : Occurs files entities p) : Path.IsRelative p := by
  rcases hp with ⟨f, hf, rfl⟩ | ⟨e, he, rfl⟩
  · exact h.file f hf
  · exact h.entity e he

/-- The directories of the structure are those above the paths that occur. -/
theorem mem_directories_iff (h : FromRelative files entities) {d : String} :
    d ∈ allDirectories (allFiles files entities) ↔ d ≠ "" ∧ ∃ p, Occurs files entities p ∧ Path.IsAbove p d := by
  have hrelative : ∀ f ∈ allFiles files entities, Path.IsRelative f.path := fun f hf => h.isRelative (path_of_mem_allFiles hf)
  rw [mem_allDirectories_iff hrelative]
  refine and_congr_right fun _ => ⟨?_, ?_⟩
  · rintro ⟨f, hf, habove⟩
    exact ⟨f.path, path_of_mem_allFiles hf, habove⟩
  · rintro ⟨p, hp, habove⟩
    obtain ⟨f, hf, rfl⟩ := List.mem_map.1 ((mem_allPaths_iff h).2 hp)
    exact ⟨f, hf, habove⟩

/-- A file or directory of a run: its kind, its id, and where its path comes from. -/
theorem cases_of_structural {x : Entity} (hx : x ∈ (ofRun repoId files entities edges).entities) (hkind : x.kind.isStructural = true) :
    (x.kind = .file ∧ x.id = Identity.file repoId x.filePath ∧ x.filePath ∈ allPaths files entities) ∨
      (x.kind = .directory ∧ x.id = Identity.directory repoId x.filePath ∧ x.filePath ∈ allDirectories (allFiles files entities)) := by
  rcases List.mem_append.1 hx with hx | hx
  · rcases List.mem_append.1 hx with hx | hx
    · obtain ⟨f, hf, rfl⟩ := List.mem_map.1 hx
      exact Or.inl ⟨rfl, rfl, List.mem_map_of_mem hf⟩
    · obtain ⟨d, hd, rfl⟩ := List.mem_map.1 hx
      exact Or.inr ⟨rfl, rfl, hd⟩
  · obtain ⟨p, -, rfl⟩ := List.mem_map.1 hx
    nomatch hkind

/-- Every path that occurs has a file of the structure. -/
theorem exists_file (repoId : String) (edges : List Edge) {p : String} (hp : p ∈ allPaths files entities) :
    ∃ x ∈ (ofRun repoId files entities edges).entities, x.kind = .file ∧ x.filePath = p ∧ x.id = Identity.file repoId p := by
  obtain ⟨f, hf, rfl⟩ := List.mem_map.1 hp
  exact ⟨fileEntity repoId f, List.mem_append_left _ (List.mem_append_left _ (List.mem_map_of_mem hf)), rfl, rfl, rfl⟩

/-- Every directory above a path that occurs has an entity of the structure. -/
theorem exists_directory (repoId : String) (edges : List Edge) {d : String} (hd : d ∈ allDirectories (allFiles files entities)) :
    ∃ x ∈ (ofRun repoId files entities edges).entities,
      x.kind = .directory ∧ x.filePath = d ∧ x.id = Identity.directory repoId d :=
  ⟨directoryEntity repoId d, List.mem_append_left _ (List.mem_append_right _ (List.mem_map_of_mem hd)), rfl, rfl, rfl⟩

/-- The paths of the entities of a kind, in their order. -/
def pathsOf (kind : EntityKind) (xs : List Entity) : List String := (xs.filter (·.kind == kind)).map (·.filePath)

/-- The entities with a kind and path are as many as the path occurs among the paths of the kind. -/
theorem countP_eq_count_pathsOf (kind : EntityKind) (xs : List Entity) (p : String) :
    xs.countP (fun x => x.kind == kind && x.filePath == p) = (pathsOf kind xs).count p := by
  rw [pathsOf, List.count, List.countP_map, List.countP_filter]
  exact List.countP_congr fun x _ => by rw [Bool.and_comm]; rfl

/-- The paths of the files are those that occur. -/
theorem pathsOf_file : pathsOf .file (ofRun repoId files entities edges).entities = allPaths files entities := by
  have hdirs : ((allDirectories (allFiles files entities)).map (directoryEntity repoId)).filter (·.kind == .file) = [] :=
    List.filter_eq_nil_iff.2 fun x hx h => by obtain ⟨d, -, rfl⟩ := List.mem_map.1 hx; nomatch h
  have hfiles : ((allFiles files entities).map (fileEntity repoId)).filter (·.kind == .file) =
      (allFiles files entities).map (fileEntity repoId) :=
    List.filter_eq_self.2 fun x hx => by obtain ⟨f, -, rfl⟩ := List.mem_map.1 hx; rfl
  rw [pathsOf, ofRun, List.filter_append, List.filter_append, hfiles, hdirs, List.append_nil, List.map_append, List.map_map,
    List.filter_eq_nil_iff.2 fun x hx h => by obtain ⟨q, -, rfl⟩ := List.mem_map.1 hx; nomatch h]
  exact List.append_nil _

/-- The paths of the directories are those above them. -/
theorem pathsOf_directory :
    pathsOf .directory (ofRun repoId files entities edges).entities = allDirectories (allFiles files entities) := by
  have hfiles : ((allFiles files entities).map (fileEntity repoId)).filter (·.kind == .directory) = [] :=
    List.filter_eq_nil_iff.2 fun x hx h => by obtain ⟨f, -, rfl⟩ := List.mem_map.1 hx; nomatch h
  have hdirs : ((allDirectories (allFiles files entities)).map (directoryEntity repoId)).filter (·.kind == .directory) =
      (allDirectories (allFiles files entities)).map (directoryEntity repoId) :=
    List.filter_eq_self.2 fun x hx => by obtain ⟨d, -, rfl⟩ := List.mem_map.1 hx; rfl
  rw [pathsOf, ofRun, List.filter_append, List.filter_append, hfiles, hdirs, List.nil_append, List.map_append, List.map_map,
    List.filter_eq_nil_iff.2 fun x hx h => by obtain ⟨q, -, rfl⟩ := List.mem_map.1 hx; nomatch h]
  exact (List.append_nil _).trans (List.map_id _)

/-- The parent directory of what lies below the top level is a directory of the run. -/
theorem dirname_mem_directories (h : FromRelative files entities) {p : String}
    (hp : p ∈ allPaths files entities ∨ p ∈ allDirectories (allFiles files entities)) (hd : Path.dirname p ≠ "") :
    Path.dirname p ∈ allDirectories (allFiles files entities) := by
  rw [mem_directories_iff h]
  rcases hp with hp | hp
  · exact ⟨hd, p, (mem_allPaths_iff h).1 hp, Path.IsAbove.dir⟩
  · obtain ⟨-, q, hoccurs, habove⟩ := (mem_directories_iff h).1 hp
    exact ⟨hd, q, hoccurs, habove.up⟩

/-- A file or directory of the structure lies at a path that occurs, or above one. -/
theorem path_mem_of_structural {x : Entity} (hx : x ∈ (ofRun repoId files entities edges).entities)
    (hkind : x.kind.isStructural = true) :
    x.filePath ∈ allPaths files entities ∨ x.filePath ∈ allDirectories (allFiles files entities) := by
  rcases cases_of_structural hx hkind with ⟨-, -, hp⟩ | ⟨-, -, hp⟩
  · exact Or.inl hp
  · exact Or.inr hp

/-- The parent directory of a file or directory below the top level. -/
theorem exists_parent (h : FromRelative files entities) {x : Entity} (hx : x ∈ (ofRun repoId files entities edges).entities)
    (hkind : x.kind.isStructural = true) (hd : Path.dirname x.filePath ≠ "") :
    ∃ y ∈ (ofRun repoId files entities edges).entities,
      y.kind = .directory ∧ y.filePath = Path.dirname x.filePath ∧ y.id = Identity.directory repoId (Path.dirname x.filePath) :=
  exists_directory repoId edges (dirname_mem_directories h (path_mem_of_structural hx hkind) hd)

/-- Every edge leads from a file or directory. -/
theorem container_of_mem_edges (h : FromRelative files entities) {e : Edge} (he : e ∈ (ofRun repoId files entities edges).edges) :
    e.kind = .contains ∧
      ∃ x ∈ (ofRun repoId files entities edges).entities, x.kind.isStructural = true ∧ x.id = e.fromId := by
  have hdirectory : ∀ {p : String}, p ∈ allPaths files entities ∨ p ∈ allDirectories (allFiles files entities) →
      Path.dirname p ≠ "" → ∃ x ∈ (ofRun repoId files entities edges).entities,
        x.kind.isStructural = true ∧ x.id = Identity.directory repoId (Path.dirname p) := by
    intro p hp hd
    obtain ⟨x, hx, hkind, -, hid⟩ := exists_directory repoId edges (dirname_mem_directories h hp hd)
    exact ⟨x, hx, by rw [hkind]; rfl, hid⟩
  rcases mem_edges_ofRun.1 he with ⟨p, hp, hd, rfl⟩ | ⟨d, hmem, hd, rfl⟩ | ⟨y, hy, -, rfl⟩
  · exact ⟨rfl, hdirectory (Or.inl hp) hd⟩
  · exact ⟨rfl, hdirectory (Or.inr hmem) hd⟩
  · obtain ⟨x, hx, hkind, -, hid⟩ := exists_file repoId edges ((mem_allPaths_iff h).2 (Or.inr ⟨y, hy, rfl⟩))
    exact ⟨rfl, x, hx, by rw [hkind]; rfl, hid⟩

/-- Every edge leads to a file, a directory or a declaration. -/
theorem contained_of_mem_edges {e : Edge} (he : e ∈ (ofRun repoId files entities edges).edges) :
    (∃ x ∈ (ofRun repoId files entities edges).entities, x.kind.isStructural = true ∧ x.id = e.toId) ∨
      ∃ x ∈ entities, x.id = e.toId := by
  rcases mem_edges_ofRun.1 he with ⟨p, hp, -, rfl⟩ | ⟨d, hd, -, rfl⟩ | ⟨y, hy, -, rfl⟩
  · obtain ⟨x, hx, hkind, -, hid⟩ := exists_file repoId edges hp
    exact Or.inl ⟨x, hx, by rw [hkind]; rfl, hid⟩
  · obtain ⟨x, hx, hkind, -, hid⟩ := exists_directory repoId edges hd
    exact Or.inl ⟨x, hx, by rw [hkind]; rfl, hid⟩
  · exact Or.inr ⟨y, hy, rfl⟩

/-- A file or directory below another directory has an edge that leads to it. -/
theorem containment_mem_edges {x : Entity} (hx : x ∈ (ofRun repoId files entities edges).entities)
    (hkind : x.kind.isStructural = true) (hd : Path.dirname x.filePath ≠ "") :
    containment repoId (Identity.directory repoId (Path.dirname x.filePath)) x.id ∈ (ofRun repoId files entities edges).edges := by
  rw [mem_edges_ofRun]
  rcases cases_of_structural hx hkind with ⟨-, hid, hp⟩ | ⟨-, hid, hp⟩
  · exact Or.inl ⟨x.filePath, hp, hd, by rw [hid]⟩
  · exact Or.inr (Or.inl ⟨x.filePath, hp, hd, by rw [hid]⟩)

/-- So has a declaration, from its file. -/
theorem declared_mem_edges (h : FromRelative files entities) {x : Entity} (hx : x ∈ entities) :
    containment repoId (Identity.file repoId x.filePath) x.id ∈ (ofRun repoId files entities edges).edges :=
  mem_edges_ofRun.2 (Or.inr (Or.inr ⟨x, hx, h.declaration x hx, rfl⟩))

section IsAlone

variable {x : Entity}

/-- The id of a lone file is that of no other path, and that of a lone directory neither. -/
theorem IsAlone.file_ne (h : IsAlone (ofRun repoId files entities edges) entities x) {p : String}
    (hp : p ∈ allPaths files entities) (hid : Identity.file repoId p = x.id) : x.kind = .file ∧ p = x.filePath := by
  obtain ⟨y, hy, hkind, hpath, hyid⟩ := exists_file repoId edges hp
  obtain ⟨hsame, hsamePath⟩ := h.1 y hy (by rw [hkind]; rfl) (hyid.trans hid)
  exact ⟨hsame ▸ hkind, hpath ▸ hsamePath⟩

/-- Nothing but a directory has the id of one, where an id stands alone. -/
theorem IsAlone.directory_ne (h : IsAlone (ofRun repoId files entities edges) entities x) {d : String}
    (hd : d ∈ allDirectories (allFiles files entities)) (hid : Identity.directory repoId d = x.id) :
    x.kind = .directory ∧ d = x.filePath := by
  obtain ⟨y, hy, hkind, hpath, hyid⟩ := exists_directory repoId edges hd
  obtain ⟨hsame, hsamePath⟩ := h.1 y hy (by rw [hkind]; rfl) (hyid.trans hid)
  exact ⟨hsame ▸ hkind, hpath ▸ hsamePath⟩

/-- What leads to a lone file or directory is its parent directory. -/
theorem IsAlone.fromId_eq (h : IsAlone (ofRun repoId files entities edges) entities x) {e : Edge}
    (he : e ∈ (ofRun repoId files entities edges).edges) (hto : e.toId = x.id) :
    Path.dirname x.filePath ≠ "" ∧ e.fromId = Identity.directory repoId (Path.dirname x.filePath) := by
  rcases mem_edges_ofRun.1 he with ⟨p, hp, hd, rfl⟩ | ⟨d, hmem, hd, rfl⟩ | ⟨e', he', -, rfl⟩
  · obtain ⟨-, rfl⟩ := h.file_ne hp hto
    exact ⟨hd, rfl⟩
  · obtain ⟨-, rfl⟩ := h.directory_ne hmem hto
    exact ⟨hd, rfl⟩
  · exact absurd hto (h.2 e' he')

/-- One edge leads to a lone file or directory below the top level. -/
theorem IsAlone.countP_eq_one (h : IsAlone (ofRun repoId files entities edges) entities x)
    (hx : x ∈ (ofRun repoId files entities edges).entities) (hkind : x.kind.isStructural = true)
    (hd : Path.dirname x.filePath ≠ "") : (ofRun repoId files entities edges).edges.countP (fun e => e.toId == x.id) = 1 := by
  have hdeclared : ((entities.filter isDeclaration).map fun e => containment repoId (Identity.file repoId e.filePath) e.id).countP
      (fun e => e.toId == x.id) = 0 := by
    rw [List.countP_map]
    exact List.countP_eq_zero.2 fun e he hid => h.2 e (List.mem_filter.1 he).1 (beq_iff_eq.1 hid)
  rw [edges_ofRun, List.countP_append, List.countP_append, hdeclared]
  rcases cases_of_structural hx hkind with ⟨hfile, hid, hp⟩ | ⟨hdir, hid, hp⟩
  · have hdirs : ∀ d ∈ allDirectories (allFiles files entities), Identity.directory repoId d ≠ x.id := fun d hmem e =>
      nomatch hfile.symm.trans (h.directory_ne hmem e).1
    rw [countP_fromParents_eq_zero hdirs, hid,
      countP_fromParents_eq_one nodup_allPaths hp hd fun q hq e => (h.file_ne hq (e.trans hid.symm)).2]
  · have hfiles : ∀ p ∈ allPaths files entities, Identity.file repoId p ≠ x.id := fun p hmem e =>
      nomatch hdir.symm.trans (h.file_ne hmem e).1
    rw [countP_fromParents_eq_zero hfiles, hid,
      countP_fromParents_eq_one (nodup_allDirectories _) hp hd fun q hq e => (h.directory_ne hq (e.trans hid.symm)).2]

end IsAlone

/-- The climb from a file or directory to the top level, by the length of its path. -/
theorem reachesTop_of_structural (h : FromRelative files entities)
    (halone : ∀ x ∈ (ofRun repoId files entities edges).entities, x.kind.isStructural = true →
      IsAlone (ofRun repoId files entities edges) entities x) {n : Nat} {x : Entity}
    (hx : x ∈ (ofRun repoId files entities edges).entities) (hkind : x.kind.isStructural = true) (hn : x.filePath.length < n) :
    ReachesTop (ofRun repoId files entities edges) x.id := by
  induction n generalizing x with
  | zero => nomatch hn
  | succ n ih =>
    by_cases hd : Path.dirname x.filePath = ""
    · exact ReachesTop.top hx hkind hd
    · refine ReachesTop.up ⟨_, containment_mem_edges hx hkind hd, rfl⟩ fun e he hto => ?_
      obtain ⟨y, hy, hydir, hypath, hyid⟩ := exists_parent h hx hkind hd
      have hrelative : Path.IsRelative x.filePath := by
        rcases cases_of_structural hx hkind with ⟨-, -, hp⟩ | ⟨-, -, hp⟩
        · exact h.isRelative ((mem_allPaths_iff h).1 hp)
        · obtain ⟨-, p, hp, habove⟩ := (mem_directories_iff h).1 hp
          exact habove.isRelative (h.isRelative hp)
      have hne : x.filePath ≠ "" := fun e => hd (by rw [e]; rfl)
      have hshorter := Path.length_dirname_lt hrelative hne
      rw [((halone x hx hkind).fromId_eq he hto).2, ← hyid]
      exact ih hy (by rw [hydir]; rfl) (by rw [hypath]; omega)

/-- Files, directories and declarations form a forest: the climb from every path that occurs ends at the root of the workspace, and
containment leads from everything up to the top level. -/
theorem isForest_ofRun (repoId : String) (edges : List Edge) (h : FromRelative files entities) :
    (∀ p, Occurs files entities p → (Path.ancestry p).getLast? = some "") ∧
      IsForest repoId files entities (ofRun repoId files entities edges) := by
  refine ⟨fun p hp => Path.getLast?_ancestry (h.isRelative hp), ?_⟩
  constructor
  case file =>
    intro p hp
    rw [countP_eq_count_pathsOf, pathsOf_file]
    exact List.count_eq_one_of_mem nodup_allPaths ((mem_allPaths_iff h).2 hp)
  case directory =>
    intro p d hp habove hne
    rw [countP_eq_count_pathsOf, pathsOf_directory]
    exact List.count_eq_one_of_mem (nodup_allDirectories _) ((mem_directories_iff h).2 ⟨hne, p, hp, habove⟩)
  case occurs_of_file =>
    intro x hx hkind
    rcases cases_of_structural hx (by rw [hkind]; rfl) with ⟨-, hid, hp⟩ | ⟨hdir, -, -⟩
    · exact ⟨hid, (mem_allPaths_iff h).1 hp⟩
    · nomatch hkind.symm.trans hdir
  case above_of_directory =>
    intro x hx hkind
    rcases cases_of_structural hx (by rw [hkind]; rfl) with ⟨hfile, -, -⟩ | ⟨-, hid, hp⟩
    · nomatch hkind.symm.trans hfile
    · exact ⟨hid, (mem_directories_iff h).1 hp⟩
  case parent =>
    intro x hx hkind hd
    refine ⟨?_, fun halone => halone.countP_eq_one hx hkind hd⟩
    obtain ⟨y, hy, hydir, hypath, hyid⟩ := exists_parent h hx hkind hd
    exact ⟨y, hy, hydir, hypath, hyid ▸ containment_mem_edges hx hkind hd⟩
  case declared =>
    intro e he
    obtain ⟨y, hy, hyfile, hypath, hyid⟩ :=
      exists_file repoId edges ((mem_allPaths_iff h).2 (Or.inr ⟨e, he, rfl⟩))
    exact ⟨y, hy, hyfile, hypath, hyid ▸ declared_mem_edges h he⟩
  case container => exact fun e he => container_of_mem_edges h he
  case contained => exact fun e he => contained_of_mem_edges he
  case reachesTop =>
    intro halone
    have hstructural : ∀ x ∈ (ofRun repoId files entities edges).entities, x.kind.isStructural = true →
        ReachesTop (ofRun repoId files entities edges) x.id := fun x hx hkind =>
      reachesTop_of_structural h halone hx hkind (Nat.lt_succ_self _)
    refine ⟨hstructural, fun x hx => ReachesTop.up ⟨_, declared_mem_edges h hx, rfl⟩ fun e he _ => ?_⟩
    obtain ⟨-, y, hy, hkind, hid⟩ := container_of_mem_edges h he
    exact hid ▸ hstructural y hy hkind

/-- The module of a package. -/
def packageFile : IndexedFile := { path := "lib/a.py", language := "python", lineCount := 2 }

/-- A function of a module that no run was given. -/
def mentionedFunction : Entity where
  id := Identity.entity "r" "lib/core/b.py" "function" "f"
  repoId := "r"
  kind := .function
  name := "f"
  filePath := "lib/core/b.py"
  startLine := 1
  endLine := 1
  language := "python"

/-- A function in a file that only its declarations mention is reached from the top. -/
theorem reachesTop_mentionedFunction : FromRelative [packageFile] [mentionedFunction] ∧
    ReachesTop (ofRun "r" [packageFile] [mentionedFunction] []) mentionedFunction.id := by
  have h : FromRelative [packageFile] [mentionedFunction] := by
    constructor <;> simp only [List.forall_mem_singleton] <;> decide
  have hentities : (ofRun "r" [packageFile] [mentionedFunction] []).entities =
      [fileEntity "r" packageFile, fileEntity "r" { path := "lib/core/b.py", language := "python", lineCount := 1 },
        directoryEntity "r" "lib", directoryEntity "r" "lib/core"] := by
    have hfiles : allFiles [packageFile] [mentionedFunction] =
        [packageFile, { path := "lib/core/b.py", language := "python", lineCount := 1 }] := by
      rw [allFiles, List.mergeSort_of_pairwise (by decide)]
      rfl
    have hdirs : allDirectories [packageFile, { path := "lib/core/b.py", language := "python", lineCount := 1 }] = ["lib", "lib/core"] := by
      rw [allDirectories, List.mergeSort_of_pairwise (by decide)]
      decide
    simp only [ofRun, hfiles, hdirs]
    rfl
  have halone : ∀ x ∈ (ofRun "r" [packageFile] [mentionedFunction] []).entities, x.kind.isStructural = true →
      IsAlone (ofRun "r" [packageFile] [mentionedFunction] []) [mentionedFunction] x := by
    unfold IsAlone
    rw [hentities]
    decide +kernel
  exact ⟨h, ((isForest_ofRun "r" [] h).2.reachesTop halone).2 _ (List.mem_singleton_self _)⟩

/-- Two files in different directories whose ids are the same digits of their digests. -/
def collidingFiles : List IndexedFile :=
  [{ path := "a/khaabmfabibfifce.py", language := "python", lineCount := 1 },
    { path := "b/aejnafiepeeddijd.py", language := "python", lineCount := 1 }]

/-- A function with the id of the directory that its file lies in. -/
def enclosingFunction : Entity where
  id := Identity.directory "r" "c/d"
  repoId := "r"
  kind := .function
  name := "f"
  filePath := "c/d/m.py"
  startLine := 1
  endLine := 1
  language := "python"

/-- Two files with one id have an edge each, from two directories. -/
theorem edges_collidingFiles : (ofRun "r" collidingFiles [] []).edges =
    [containment "r" (Identity.directory "r" "a") (Identity.file "r" "a/khaabmfabibfifce.py"),
      containment "r" (Identity.directory "r" "b") (Identity.file "r" "b/aejnafiepeeddijd.py")] := by
  have hfiles : allFiles collidingFiles [] = collidingFiles := by
    rw [allFiles, List.mergeSort_of_pairwise (by decide)]
    rfl
  have hdirs : allDirectories collidingFiles = ["a", "b"] := by
    rw [allDirectories, List.mergeSort_of_pairwise (by decide)]
    decide
  rw [edges_ofRun, allPaths, hfiles, hdirs]
  rfl

/-- A file beside the directory of `enclosingFunction`. -/
def besideEnclosing : IndexedFile := { path := "c/a.py", language := "python", lineCount := 1 }

/-- The function brings a file of its own into the structure. -/
theorem ofRun_enclosingFunction :
    (ofRun "r" [besideEnclosing] [enclosingFunction] []).entities =
        [fileEntity "r" besideEnclosing, fileEntity "r" { path := "c/d/m.py", language := "python", lineCount := 1 },
          directoryEntity "r" "c", directoryEntity "r" "c/d"] ∧
      (ofRun "r" [besideEnclosing] [enclosingFunction] []).edges =
        [containment "r" (Identity.directory "r" "c") (Identity.file "r" "c/a.py"),
          containment "r" (Identity.directory "r" "c/d") (Identity.file "r" "c/d/m.py"),
          containment "r" (Identity.directory "r" "c") (Identity.directory "r" "c/d"),
          containment "r" (Identity.file "r" "c/d/m.py") (Identity.directory "r" "c/d")] := by
  have hfiles : allFiles [besideEnclosing] [enclosingFunction] =
      [besideEnclosing, { path := "c/d/m.py", language := "python", lineCount := 1 }] := by
    rw [allFiles, List.mergeSort_of_pairwise (by decide)]
    rfl
  have hdirs : allDirectories [besideEnclosing, { path := "c/d/m.py", language := "python", lineCount := 1 }] = ["c", "c/d"] := by
    rw [allDirectories, List.mergeSort_of_pairwise (by decide)]
    decide
  constructor
  · simp only [ofRun, hfiles, hdirs]
    rfl
  · rw [edges_ofRun, allPaths, hfiles, hdirs]
    rfl

/-- Following containment back from the function one comes to its file, and from there to its directory, which is the function. -/
theorem not_reachesTop_enclosingFunction {id : String}
    (h : ReachesTop (ofRun "r" [besideEnclosing] [enclosingFunction] []) id) :
    id ≠ Identity.directory "r" "c/d" ∧ id ≠ Identity.file "r" "c/d/m.py" := by
  have hedges := ofRun_enclosingFunction.2
  induction h with
  | @top x hx hkind hd =>
    have htop : ∀ y ∈ (ofRun "r" [besideEnclosing] [enclosingFunction] []).entities, Path.dirname y.filePath = "" →
        y.id ≠ Identity.directory "r" "c/d" ∧ y.id ≠ Identity.file "r" "c/d/m.py" := by
      rw [ofRun_enclosingFunction.1]
      decide +kernel
    exact htop x hx hd
  | up _ _ ih =>
    constructor
    · intro hid
      exact (ih (containment "r" (Identity.file "r" "c/d/m.py") (Identity.directory "r" "c/d")) (by simp [hedges]) hid.symm).2 rfl
    · intro hid
      exact (ih (containment "r" (Identity.directory "r" "c/d") (Identity.file "r" "c/d/m.py")) (by simp [hedges]) hid.symm).1 rfl

/-- Containment goes by ids. A file has two containers when its id is that of a file elsewhere, and a declaration with the id of the
directory that it lies in closes a circle. -/
theorem two_containers_of_collision :
    (FromRelative collidingFiles [] ∧ ∃ x ∈ (ofRun "r" collidingFiles [] []).entities, x.kind = .file ∧
      Path.dirname x.filePath ≠ "" ∧ (ofRun "r" collidingFiles [] []).edges.countP (fun e => e.toId == x.id) = 2) ∧
    FromRelative [besideEnclosing] [enclosingFunction] ∧
      ((ofRun "r" [besideEnclosing] [enclosingFunction] []).entities.map (·.id)).Nodup ∧
      ∃ x ∈ (ofRun "r" [besideEnclosing] [enclosingFunction] []).entities, x.kind = .directory ∧ Path.dirname x.filePath ≠ "" ∧
        (ofRun "r" [besideEnclosing] [enclosingFunction] []).edges.countP (fun e => e.toId == x.id) = 2 ∧
        ¬ ReachesTop (ofRun "r" [besideEnclosing] [enclosingFunction] []) x.id := by
  have hcolliding : FromRelative collidingFiles [] := by constructor <;> decide
  have henclosing : FromRelative [besideEnclosing] [enclosingFunction] := by
    constructor <;> simp only [List.forall_mem_singleton] <;> decide
  obtain ⟨x, hx, hkind, hpath, hid⟩ :=
    exists_file "r" [] ((mem_allPaths_iff hcolliding).2 (Or.inl ⟨collidingFiles[0], by simp [collidingFiles], rfl⟩))
  refine ⟨⟨hcolliding, x, hx, hkind, ?_, ?_⟩, henclosing, ?_, directoryEntity "r" "c/d", ?_, rfl, by decide, ?_, fun h => ?_⟩
  · rw [hpath]
    decide
  · rw [edges_collidingFiles, hid]
    decide +kernel
  · rw [ofRun_enclosingFunction.1]
    decide +kernel
  · simp [ofRun_enclosingFunction.1]
  · rw [ofRun_enclosingFunction.2]
    decide +kernel
  · exact (not_reachesTop_enclosingFunction h).1 rfl

end Structure

end CodeAtlas
