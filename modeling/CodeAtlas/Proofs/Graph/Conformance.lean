import CodeAtlas.Graph.CrossFile
import CodeAtlas.Proofs.Graph.Batch
import CodeAtlas.Proofs.Language.Reading
import CodeAtlas.Proofs.SymbolIndex.Resolve
import CodeAtlas.Store.Generation

/-!
# Conformance: no run breaks the contract by what it finds

Readers, decoded indexes and the calls between files give conforming records only. So whatever the files of a repository and its indexes
hold, what is found in them is written, and the write is never refused.
-/

namespace CodeAtlas

namespace CrossFile

/-- A call between files is as certain as the import that makes it possible. -/
theorem conforms_of_mem_callsThrough {repoId : String} {x : Index} {via e : Edge} (hvia : via.confidence.inUnitInterval = true)
    (h : e ∈ callsThrough repoId x via) : e.Conforms repoId := by
  unfold callsThrough at h
  split at h
  · nomatch h
  split at h
  · nomatch h
  dsimp only at h
  split at h
  · nomatch h
  split at h
  · nomatch h
  · obtain ⟨caller, -, hcall⟩ := List.mem_flatMap.1 h
    unfold callsOf at hcall
    split at hcall
    · nomatch hcall
    · obtain ⟨name, -, hname⟩ := List.mem_filterMap.1 hcall
      split at hname
      · split at hname
        · nomatch hname
        · cases hname
          exact ⟨rfl, List.contains_iff_mem.1 rfl, hvia⟩
      · nomatch hname

end CrossFile

/-- A call across files conforms where the edges of the files do. -/
theorem conforms_of_mem_crossFileCalls {repoId : String} {known : KnownPaths} {entities : List Entity} {edges : List Edge}
    (hedges : ∀ e ∈ edges, e.Conforms repoId) {e : Edge} (h : e ∈ crossFileCalls repoId known entities edges) :
    e.Conforms repoId := by
  obtain ⟨via, hvia, he⟩ := List.mem_flatMap.1 (Calls.mem_of_mem_firstByKey h)
  exact CrossFile.conforms_of_mem_callsThrough (hedges via hvia).confidence he

/-- What reading a file of a repository has found conforms. -/
theorem Fragment.WellFormed.conforms_entity {file : SourceFile} {found : Fragment} (h : found.WellFormed file) (hpath : file.path ≠ "")
    {e : Entity} (he : e ∈ found.entities) : e.Conforms file.repoId := by
  have hread := h.entity e he
  refine ⟨?_, hread.repo, hread.kind, hread.path ▸ hpath, ?_, hread.range⟩
  · rw [hread.id]
    exact Identity.ofParts_ne_empty _
  · exact Int.le_trans Int.one_nonneg hread.first

/-- What reading has found: nothing, unless it came to an end. -/
def Reading.found : Reading → Fragment
  | done found => found
  | _ => {}

/-- What a run draws on: files with their readers, and the bytes of indexes with their places. -/
structure RunSources where
  readings : List (LanguageReader × SourceFile)
  indexes : List (IndexedSymbols.Place × List UInt8)

namespace RunSources

/-- What is read in the files. -/
def fragments (s : RunSources) : List Fragment := s.readings.map fun r => (r.1.read r.2).found

/-- What the indexes say. -/
def symbols (s : RunSources) : List IndexedSymbols := s.indexes.map fun x => .ofIndex x.1 x.2

/-- All entities that are found. -/
def entities (s : RunSources) : List Entity := s.symbols.flatMap (·.entities) ++ s.fragments.flatMap (·.entities)

/-- All edges that are found, apart from the calls between files. -/
def edges (s : RunSources) : List Edge := s.symbols.flatMap (·.edges) ++ s.fragments.flatMap (·.edges)

/-- The sources belong to one repository, the readers are the standard ones, and the paths are relative. -/
structure Belong (repoId : String) (s : RunSources) : Prop where
  reader : ∀ r ∈ s.readings, r.1 ∈ Registry.standardReaders
  readingRepo : ∀ r ∈ s.readings, r.2.repoId = repoId
  readingPath : ∀ r ∈ s.readings, r.2.path ≠ "" ∧ Path.IsRelative r.2.path
  indexRepo : ∀ x ∈ s.indexes, x.1.repoId = repoId
  indexPath : ∀ x ∈ s.symbols, ∀ p ∈ x.coveredFiles, Path.IsRelative p

variable {repoId : String} {s : RunSources}

/-- Every file of the sources is read, and what is found in it is well formed. -/
theorem Belong.wellFormed (h : s.Belong repoId) {r : LanguageReader × SourceFile} (hr : r ∈ s.readings) :
    ∃ found, r.1.read r.2 = .done found ∧ found.WellFormed r.2 :=
  Registry.exists_read_eq_done (h.reader r hr) r.2

/-- An entity of a structure that belongs to a repository conforms to it. -/
theorem Belong.conforms_entity (h : s.Belong repoId) {e : Entity} (he : e ∈ s.entities) : e.Conforms repoId := by
  rcases List.mem_append.1 he with he | he
  · obtain ⟨x, hx, hmem⟩ := List.mem_flatMap.1 he
    obtain ⟨source, hsource, rfl⟩ := List.mem_map.1 hx
    exact h.indexRepo source hsource ▸ IndexedSymbols.conforms_entity hmem
  · obtain ⟨x, hx, hmem⟩ := List.mem_flatMap.1 he
    obtain ⟨r, hr, rfl⟩ := List.mem_map.1 hx
    obtain ⟨found, hdone, hfound⟩ := h.wellFormed hr
    rw [hdone] at hmem
    exact h.readingRepo r hr ▸ hfound.conforms_entity (h.readingPath r hr).1 hmem

/-- An edge of a structure that belongs to a repository conforms to it. -/
theorem Belong.conforms_edge (h : s.Belong repoId) {e : Edge} (he : e ∈ s.edges) : e.Conforms repoId := by
  rcases List.mem_append.1 he with he | he
  · obtain ⟨x, hx, hmem⟩ := List.mem_flatMap.1 he
    obtain ⟨source, hsource, rfl⟩ := List.mem_map.1 hx
    exact h.indexRepo source hsource ▸ IndexedSymbols.conforms_edge hmem
  · obtain ⟨x, hx, hmem⟩ := List.mem_flatMap.1 he
    obtain ⟨r, hr, rfl⟩ := List.mem_map.1 hx
    obtain ⟨found, hdone, hfound⟩ := h.wellFormed hr
    rw [hdone] at hmem
    exact h.readingRepo r hr ▸ hfound.edge e hmem

/-- An entity lies in a file that was read, or in one that an index covers. -/
theorem Belong.isRelative_filePath (h : s.Belong repoId) {e : Entity} (he : e ∈ s.entities) : Path.IsRelative e.filePath := by
  rcases List.mem_append.1 he with he | he
  · obtain ⟨x, hx, hmem⟩ := List.mem_flatMap.1 he
    have hcovered : e.filePath ∈ x.coveredFiles := by
      obtain ⟨source, -, rfl⟩ := List.mem_map.1 hx
      exact IndexedSymbols.filePath_mem_coveredFiles hmem
    exact h.indexPath x hx e.filePath hcovered
  · obtain ⟨x, hx, hmem⟩ := List.mem_flatMap.1 he
    obtain ⟨r, hr, rfl⟩ := List.mem_map.1 hx
    obtain ⟨found, hdone, hfound⟩ := h.wellFormed hr
    rw [hdone] at hmem
    exact (hfound.entity e hmem).path ▸ (h.readingPath r hr).2

/-- Whatever its files and its indexes hold, what a run finds is written: every file is read, the climbs through the directories end at
the root of the workspace, the contract is not broken, and the batch goes to the store. -/
theorem write_never_refused (version : Option String) (known : KnownPaths) {files : List IndexedFile}
    (hfiles : ∀ f ∈ files, f.path ≠ "" ∧ Path.IsRelative f.path) (h : s.Belong repoId) :
    (∀ r ∈ s.readings, (∃ found, r.1.read r.2 = .done found) ∧ (Path.ancestry r.2.path).getLast? = some "") ∧
      (∀ f ∈ Structure.allFiles files s.entities, (Path.ancestry f.path).getLast? = some "") ∧
      ∃ b, WriteBatch.ofRun repoId version files s.entities (s.edges ++ crossFileCalls repoId known s.entities s.edges) = .ok b ∧
        StoreSession.write repoId version files s.entities (s.edges ++ crossFileCalls repoId known s.entities s.edges) =
          .upsertEntities b.entities fun n => .upsertEdges b.edges fun k =>
            .done (.ok { entitiesWritten := n, edgesWritten := k, danglingDropped := b.dangling }) := by
  have hedges : ∀ e ∈ s.edges ++ crossFileCalls repoId known s.entities s.edges, e.Conforms repoId := by
    intro e he
    rcases List.mem_append.1 he with he | he
    · exact h.conforms_edge he
    · exact conforms_of_mem_crossFileCalls (fun _ => h.conforms_edge) he
  obtain ⟨b, hb⟩ := WriteBatch.exists_ofRun_eq_ok version (fun f hf => (hfiles f hf).1) (fun _ => h.conforms_entity) hedges
  refine ⟨?_, ?_, b, hb, ?_⟩
  · intro r hr
    obtain ⟨found, hdone, -⟩ := h.wellFormed hr
    exact ⟨⟨found, hdone⟩, Path.getLast?_ancestry (h.readingPath r hr).2⟩
  · intro f hf
    exact Structure.getLast?_ancestry_of_mem_allFiles (fun f hf => (hfiles f hf).2) (fun _ => h.isRelative_filePath) hf
  · unfold StoreSession.write
    rw [hb]
    rfl

/-- A file with a function, and an index with the definition of a function in another file. -/
def fileAndIndex : RunSources where
  readings := [(Registry.standardReaders[1],
    { repoId := "r", path := "src/a.py", content := "def f():\n    return g()\n", language := "python", known := .ofFiles [] })]
  indexes := [({ repoId := "r", language := "python", root := "src" },
    [0x12, 23, 0x12, 15, 0x0A, 3, 0, 0, 1, 0x12, 6, 0x73, 0x20, 0x66, 0x28, 0x29, 0x2E, 0x20, 1, 0x22, 4, 0x6D, 0x2E, 0x70, 0x79])]

/-- What is found in `fileAndIndex` belongs to its repository. -/
theorem belong_fileAndIndex : fileAndIndex.Belong "r" where
  reader r hr := by
    rw [List.mem_singleton.1 hr]
    exact List.getElem_mem _
  readingRepo r hr := by rw [List.mem_singleton.1 hr]
  readingPath r hr := by
    rw [List.mem_singleton.1 hr]
    decide
  indexRepo x hx := by rw [List.mem_singleton.1 hx]
  indexPath := by decide

/-- The write of `fileAndIndex` with its calls across files is accepted. -/
theorem write_fileAndIndex :
    fileAndIndex.Belong "r" ∧
      ∃ b, WriteBatch.ofRun "r" (some "v1") [⟨"src/a.py", "python", 2⟩] fileAndIndex.entities
        (fileAndIndex.edges ++ crossFileCalls "r" (.ofFiles ["src/a.py", "src/m.py"]) fileAndIndex.entities fileAndIndex.edges) =
          .ok b := by
  have hfiles : ∀ f ∈ [(⟨"src/a.py", "python", 2⟩ : IndexedFile)], f.path ≠ "" ∧ Path.IsRelative f.path := by
    decide
  obtain ⟨-, -, b, hb, -⟩ :=
    write_never_refused (some "v1") (.ofFiles ["src/a.py", "src/m.py"]) hfiles belong_fileAndIndex
  exact ⟨belong_fileAndIndex, b, hb⟩

end RunSources

end CodeAtlas
