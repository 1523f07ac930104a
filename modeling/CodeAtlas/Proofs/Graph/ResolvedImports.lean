import CodeAtlas.Proofs.Graph.Batch
import CodeAtlas.Proofs.Language.Reading

/-!
# Imports that are certain are written

An import edge with full confidence leads to a file or a directory of the workspace. The resolvers look for it among the known paths,
and the structure of a run is made from the run's files; both find the same files and directories, so the edge has both its ends in every
batch that covers the workspace, and no batch leaves it out for want of an end.
-/

namespace CodeAtlas

namespace Structure

variable {files : List IndexedFile} {paths : List String} {repoId : String} {entities : List Entity} {edges : List Edge}

/-- A known file is an entity of the structure of a run that covers the workspace. -/
theorem exists_file_of_mem_paths (cover : ∀ p ∈ paths, ∃ f ∈ files, f.path = p) {p : String} (hp : p ∈ paths) :
    ∃ x ∈ (ofRun repoId files entities edges).entities, x.kind = .file ∧ x.id = Identity.file repoId p := by
  obtain ⟨f, hf, rfl⟩ := cover p hp
  obtain ⟨f', hf', hpath⟩ := exists_mem_allFiles hf entities
  exact ⟨fileEntity repoId f', List.mem_append_left _ (List.mem_append_left _ (List.mem_map_of_mem hf')), rfl,
    congrArg (Identity.file repoId) hpath⟩

/-- So is a known directory, when no path has an empty segment. -/
theorem exists_directory_of_mem_dirs (plain : ∀ p ∈ paths, "" ∉ Path.segments p) (cover : ∀ p ∈ paths, ∃ f ∈ files, f.path = p)
    {d : String} (hd : d ∈ (KnownPaths.ofFiles paths).dirs) :
    ∃ x ∈ (ofRun repoId files entities edges).entities, x.kind = .directory ∧ x.id = Identity.directory repoId d := by
  obtain ⟨p, hp, hancestor⟩ := KnownPaths.exists_of_mem_dirs_ofFiles hd
  obtain ⟨hclimb, hne⟩ := Path.mem_ancestry_of_mem_ancestors (plain p hp) hancestor
  obtain ⟨f, hf, rfl⟩ := cover p hp
  obtain ⟨f', hf', hpath⟩ := exists_mem_allFiles hf entities
  have hmem := mem_allDirectories hf' (hpath ▸ hclimb) hne
  exact ⟨directoryEntity repoId d, List.mem_append_left _ (List.mem_append_right _ (List.mem_map_of_mem hmem)), rfl, rfl⟩

end Structure

namespace WriteBatch

/-- The ids of the entities of a run, those of its structure included. -/
def entityIds (repoId : String) (files : List IndexedFile) (entities : List Entity) (edges : List Edge) : List String :=
  (firstById (·.id) ((Structure.ofRun repoId files entities edges).entities ++ entities)).map (·.id)

/-- The edges of a run that a batch leaves out for want of an end. -/
def leftOut (repoId : String) (files : List IndexedFile) (entities : List Entity) (edges : List Edge) : List Edge :=
  (firstById Edge.id ((Structure.ofRun repoId files entities edges).edges ++ edges)).filter fun e =>
    !hasEnds (entityIds repoId files entities edges) e

variable {repoId : String} {files : List IndexedFile} {entities : List Entity} {edges : List Edge}

/-- The edges that are counted as dangling are those without both ends. -/
theorem dangling_assemble (version : Option String) :
    (assemble repoId version files entities edges).dangling = (leftOut repoId files entities edges).length := by
  have hsplit : ∀ (l : List Edge) (p : Edge → Bool), l.length - (l.filter p).length = (l.filter fun e => !p e).length := by
    intro l p
    have h := List.length_eq_countP_add_countP (l := l) p
    rw [List.countP_eq_length_filter, List.countP_eq_length_filter] at h
    simp only [decide_not, Bool.decide_eq_true] at h
    omega
  cases version with
  | none => exact hsplit _ _
  | some v => exact hsplit _ _

/-- An edge with both ends among the structure of a run has them in the batch. -/
theorem hasEnds_of_structure {e : Edge} (hfrom : ∃ x ∈ (Structure.ofRun repoId files entities edges).entities, x.id = e.fromId)
    (hto : ∃ x ∈ (Structure.ofRun repoId files entities edges).entities, x.id = e.toId) :
    hasEnds (entityIds repoId files entities edges) e = true := by
  have hids : ∀ x ∈ (Structure.ofRun repoId files entities edges).entities, x.id ∈ entityIds repoId files entities edges := by
    exact fun x hx => mem_map_firstById.2 (List.mem_map_of_mem (List.mem_append_left entities hx))
  obtain ⟨x, hx, hxid⟩ := hfrom
  obtain ⟨y, hy, hyid⟩ := hto
  rw [hasEnds, Bool.and_eq_true, List.contains_iff_mem, List.contains_iff_mem]
  exact ⟨hxid ▸ hids x hx, hyid ▸ hids y hy⟩

/-- An edge with both ends in the batch is written, when all edges with its id are the same link. -/
theorem exists_link_mem_assemble (version : Option String) {e : Edge} (he : e ∈ edges)
    (hends : hasEnds (entityIds repoId files entities edges) e = true)
    (apart : ∀ e' ∈ (Structure.ofRun repoId files entities edges).edges ++ edges, e'.id = e.id → e'.link = e.link) :
    ∃ e' ∈ (assemble repoId version files entities edges).edges, e'.link = e.link := by
  obtain ⟨first, hfirst, hid⟩ := List.mem_map.1 (mem_map_firstById.2 (List.mem_map_of_mem
    (List.mem_append_right (Structure.ofRun repoId files entities edges).edges he)))
  have hlink := apart first (mem_of_mem_firstById hfirst) hid
  obtain ⟨hfrom, hto, -⟩ : first.fromId = e.fromId ∧ first.toId = e.toId ∧ first.kind = e.kind := by
    simpa only [Edge.link, Prod.mk.injEq] using hlink
  have hkept : first ∈ (firstById Edge.id ((Structure.ofRun repoId files entities edges).edges ++ edges)).filter
      (hasEnds (entityIds repoId files entities edges)) := by
    refine List.mem_filter.2 ⟨hfirst, ?_⟩
    rw [hasEnds, hfrom, hto]
    exact hends
  cases version with
  | none => exact ⟨first, hkept, hlink⟩
  | some v => exact ⟨first.stamp v, List.mem_map_of_mem hkept, hlink⟩

end WriteBatch

theorem Binary64.half_ne_one : half ≠ one := by decide

namespace Registry

/-- Where an import edge with full confidence leads, when it does not leave the workspace. -/
theorem exists_path_of_certain {reader : LanguageReader} (hreader : reader ∈ standardReaders) {file : SourceFile}
    (hknown : file.known.Sound) {found : Fragment} (hdone : reader.read file = .done found) {e : Edge} (he : e ∈ found.edges)
    (hkind : e.kind = .imports) (hinternal : e.isExternal = false) (hcertain : e.confidence = Binary64.one) :
    e.fromId = Identity.file file.repoId file.path ∧
      ((∃ p ∈ file.known.files, e.toId = Identity.file file.repoId p) ∨
        ∃ d ∈ file.known.dirs, e.toId = Identity.directory file.repoId d) := by
  obtain ⟨found', resolve, hdone', hfinishes, hresolve⟩ := exists_finishes hreader file
  obtain rfl : found' = found := Reading.done.inj (hdone'.symm.trans hdone)
  obtain ⟨statements, hmem⟩ := hfinishes.mem_importEdges he hkind
  refine ⟨(isImport_of_mem_importEdges hmem).source, ?_⟩
  obtain ⟨specifier, t, ht, hto, hconfidence⟩ := exists_target_of_mem_importEdges hmem hinternal
  have hresolved : t.resolved = true := by
    refine Decidable.byContradiction fun hguess => ?_
    have hhalf : e.confidence = Binary64.half := hconfidence.trans (if_neg hguess)
    exact Binary64.half_ne_one (hhalf.symm.trans hcertain)
  obtain ⟨hdir, hfile⟩ := hresolve hknown specifier t ht hresolved
  cases hd : t.isDirectory with
  | true => exact Or.inr ⟨t.path, hdir hd, hto.trans (if_pos hd)⟩
  | false => exact Or.inl ⟨t.path, hfile hd, hto.trans (if_neg (ne_true_of_eq_false hd))⟩

/-- An import edge with full confidence that does not leave the workspace has both ends among the files and directories of the structure
of every run that covers the workspace. No such run counts it as dangling; it is written, unless another link has the same id. -/
theorem certain_import_written {reader : LanguageReader} (hreader : reader ∈ standardReaders) {paths : List String}
    (plain : ∀ p ∈ paths, "" ∉ Path.segments p) {file : SourceFile} (hfile : file.path ∈ paths)
    (hknown : file.known = .ofFiles paths) :
    ∃ found, reader.read file = .done found ∧
      ∀ e ∈ found.edges, e.kind = .imports → e.isExternal = false → e.confidence = Binary64.one →
        ∀ (files : List IndexedFile) (entities : List Entity) (edges : List Edge) (version : Option String),
          (∀ p ∈ paths, ∃ f ∈ files, f.path = p) →
          let structural := Structure.ofRun file.repoId files entities edges
          let batch := WriteBatch.assemble file.repoId version files entities edges
          let leftOut := WriteBatch.leftOut file.repoId files entities edges
          (∃ x ∈ structural.entities, x.kind = .file ∧ x.id = e.fromId) ∧
            (∃ x ∈ structural.entities, (x.kind = .file ∨ x.kind = .directory) ∧ x.id = e.toId) ∧
            batch.dangling = leftOut.length ∧ e ∉ leftOut ∧
            (e ∈ edges → (∀ e' ∈ structural.edges ++ edges, e'.id = e.id → e'.link = e.link) →
              ∃ e' ∈ batch.edges, e'.link = e.link) := by
  obtain ⟨found, -, hdone, -⟩ := exists_finishes hreader file
  refine ⟨found, hdone, ?_⟩
  intro e he hkind hinternal hcertain files entities edges version cover structural batch leftOut
  have hsound : file.known.Sound := hknown ▸ KnownPaths.sound_ofFiles paths
  obtain ⟨hfromId, htoId⟩ := exists_path_of_certain hreader hsound hdone he hkind hinternal hcertain
  have hfrom : ∃ x ∈ structural.entities, x.kind = .file ∧ x.id = e.fromId := by
    rw [hfromId]
    exact Structure.exists_file_of_mem_paths cover hfile
  have hto : ∃ x ∈ structural.entities, (x.kind = .file ∨ x.kind = .directory) ∧ x.id = e.toId := by
    rw [hknown] at htoId
    rcases htoId with ⟨p, hp, e⟩ | ⟨d, hd, e⟩
    · rw [e]
      obtain ⟨x, hx, hxkind, hid⟩ := Structure.exists_file_of_mem_paths cover (KnownPaths.mem_files_ofFiles.1 hp)
      exact ⟨x, hx, Or.inl hxkind, hid⟩
    · rw [e]
      obtain ⟨x, hx, hxkind, hid⟩ := Structure.exists_directory_of_mem_dirs plain cover hd
      exact ⟨x, hx, Or.inr hxkind, hid⟩
  have hends : WriteBatch.hasEnds (WriteBatch.entityIds file.repoId files entities edges) e = true :=
    WriteBatch.hasEnds_of_structure (hfrom.imp fun x hx => ⟨hx.1, hx.2.2⟩) (hto.imp fun x hx => ⟨hx.1, hx.2.2⟩)
  refine ⟨hfrom, hto, WriteBatch.dangling_assemble version, ?_, ?_⟩
  · intro hleft
    have hnot := (List.mem_filter.1 hleft).2
    rw [hends] at hnot
    nomatch hnot
  · exact fun hmem apart => WriteBatch.exists_link_mem_assemble version hmem hends apart

/-- A module that imports another module and the directory of its package. -/
def packageImport : SourceFile where
  repoId := "r"
  path := "src/app/main.py"
  content := "import app.util\nimport app\n"
  language := "python"
  known := .ofFiles ["src/app/main.py", "src/app/util.py"]

/-- Both imports are certain, and neither is left out of a run over the two files. -/
theorem package_import_written :
    let files : List IndexedFile := [⟨"src/app/main.py", "python", 2⟩, ⟨"src/app/util.py", "python", 9⟩]
    ∃ found, standardReaders[1].read packageImport = .done found ∧ found.edges.length = 2 ∧
      ∀ e ∈ found.edges, (∃ x ∈ (Structure.ofRun "r" files [] found.edges).entities, (x.kind = .file ∨ x.kind = .directory) ∧ x.id = e.toId) ∧
        e ∉ WriteBatch.leftOut "r" files [] found.edges := by
  intro files
  have hreader : standardReaders[1] ∈ standardReaders := List.getElem_mem _
  have hplain : ∀ p ∈ ["src/app/main.py", "src/app/util.py"], "" ∉ Path.segments p := by decide
  have hfile : packageImport.path ∈ ["src/app/main.py", "src/app/util.py"] := by decide
  obtain ⟨found, hdone, hwritten⟩ := certain_import_written hreader hplain hfile rfl
  obtain rfl : Python.read packageImport = found := Reading.done.inj hdone
  have hcertain : (Python.read packageImport).edges.length = 2 ∧ ∀ e ∈ (Python.read packageImport).edges,
      e.kind = .imports ∧ e.isExternal = false ∧ e.confidence = Binary64.one := by
    decide +kernel
  have hcover : ∀ p ∈ ["src/app/main.py", "src/app/util.py"], ∃ f ∈ files, f.path = p := by decide
  refine ⟨_, hdone, hcertain.1, fun e he => ?_⟩
  obtain ⟨hkind, hinternal, hconfidence⟩ := hcertain.2 e he
  obtain ⟨-, hto, -, hleft, -⟩ := hwritten e he hkind hinternal hconfidence files [] (Python.read packageImport).edges none hcover
  exact ⟨hto, hleft⟩

end Registry

end CodeAtlas
