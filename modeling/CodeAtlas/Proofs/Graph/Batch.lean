import CodeAtlas.Proofs.Graph.Contract
import CodeAtlas.Proofs.Graph.Structure
import CodeAtlas.Proofs.Identity
import CodeAtlas.Proofs.Path
import CodeAtlas.Proofs.Source.Calls

/-!
# Batches of conforming records

When every record that was found conforms to the contract, so does the batch that is made of them: the records of the structure conform
by themselves, ids are made distinct, edges without both ends are left out, and the tag of the run is put on everything.
-/

namespace CodeAtlas

namespace Structure

variable {repoId : String} {files : List IndexedFile} {entities : List Entity}

/-- The structural entities of a run conform, when its files and the files of its entities have paths. -/
theorem conforms_entity {edges : List Edge} (hfiles : ∀ f ∈ files, f.path ≠ "") (hentities : ∀ e ∈ entities, e.filePath ≠ "")
    {e : Entity} (h : e ∈ (ofRun repoId files entities edges).entities) : e.Conforms repoId := by
  rcases List.mem_append.1 h with h | h
  · rcases List.mem_append.1 h with h | h
    · obtain ⟨f, hf, rfl⟩ := List.mem_map.1 h
      have hpath : f.path ≠ "" := by
        rcases path_of_mem_allFiles hf with ⟨f', hf', e⟩ | ⟨e', he', e⟩
        · exact e ▸ hfiles f' hf'
        · exact e ▸ hentities e' he'
      exact ⟨Identity.ofParts_ne_empty _, rfl, List.contains_iff_mem.1 rfl, hpath, Int.one_nonneg, Int.le_max_left 1 _⟩
    · obtain ⟨d, hd, rfl⟩ := List.mem_map.1 h
      exact ⟨Identity.ofParts_ne_empty _, rfl, List.contains_iff_mem.1 rfl, ne_empty_of_mem_allDirectories hd, Int.le_refl 0,
        Int.le_refl 0⟩
  · obtain ⟨p, -, rfl⟩ := List.mem_map.1 h
    exact ⟨Identity.ofParts_ne_empty _, rfl, List.contains_iff_mem.1 rfl, Identity.externalPath_ne_empty p.1, Int.le_refl 0,
      Int.le_refl 0⟩

/-- A containment between two places conforms to its repository. -/
theorem conforms_containment (repoId container member : String) : (containment repoId container member).Conforms repoId :=
  ⟨rfl, List.contains_iff_mem.1 rfl, Binary64.inUnitInterval_one⟩

/-- The edges that lead from a directory to what is in it conform to their repository. -/
theorem conforms_of_mem_fromParent {path member : String} {e : Edge} (h : e ∈ fromParent repoId path member) :
    e.Conforms repoId := by
  unfold fromParent at h
  dsimp only at h
  split at h
  · nomatch h
  · rw [List.mem_singleton] at h
    exact h ▸ conforms_containment _ _ _

/-- The structural edges of a run are edges of containment. -/
theorem conforms_edge {edges : List Edge} {e : Edge} (h : e ∈ (ofRun repoId files entities edges).edges) : e.Conforms repoId := by
  rcases List.mem_append.1 h with h | h
  · rcases List.mem_append.1 h with h | h
    · obtain ⟨f, -, he⟩ := List.mem_flatMap.1 h
      exact conforms_of_mem_fromParent he
    · obtain ⟨d, -, he⟩ := List.mem_flatMap.1 h
      exact conforms_of_mem_fromParent he
  · obtain ⟨e', -, rfl⟩ := List.mem_map.1 h
    exact conforms_containment _ _ _

/-- The climb through the directories of every file of the structure ends at the root of the workspace. -/
theorem getLast?_ancestry_of_mem_allFiles (hfiles : ∀ f ∈ files, Path.IsRelative f.path)
    (hentities : ∀ e ∈ entities, Path.IsRelative e.filePath) {f : IndexedFile} (h : f ∈ allFiles files entities) :
    (Path.ancestry f.path).getLast? = some "" := by
  refine Path.getLast?_ancestry ?_
  rcases path_of_mem_allFiles h with ⟨f', hf', e⟩ | ⟨e', he', e⟩
  · exact e ▸ hfiles f' hf'
  · exact e ▸ hentities e' he'

end Structure

namespace WriteBatch

section FirstById

variable {α : Type} {id : α → String} {items : List α}

/-- The first item of every id is kept as the first item of every key is. -/
theorem firstById_eq : firstById id items = Calls.firstByKey id items := by
  have hpairs : Calls.firstByKey (·.1) (items.map fun x => (id x, x)) = (Calls.firstByKey id items).map fun x => (id x, x) :=
    Calls.firstByKey_map (fun _ => rfl) items
  rw [firstById, hpairs, List.map_map]
  exact List.map_id _

/-- What is kept is an item. -/
theorem mem_of_mem_firstById {x : α} (h : x ∈ firstById id items) : x ∈ items :=
  Calls.mem_of_mem_firstByKey (firstById_eq ▸ h)

/-- No id is kept twice. -/
theorem nodup_firstById : ((firstById id items).map id).Nodup := by
  rw [firstById_eq]
  exact Calls.nodup_firstByKey items

/-- Looking for an id finds the first item with it. -/
theorem find?_firstById (k : String) : ((firstById id items).find? fun x => id x == k) = items.find? fun x => id x == k := by
  rw [firstById_eq]
  exact Calls.find?_firstByKey items k

/-- Every id that an item has is kept. -/
theorem mem_map_firstById {k : String} : k ∈ (firstById id items).map id ↔ k ∈ items.map id := by
  have hfound : ∀ xs : List α, k ∈ xs.map id ↔ (xs.find? fun x => id x == k).isSome = true := by
    intro xs
    simp only [List.mem_map, List.find?_isSome, beq_iff_eq]
  rw [hfound, hfound, find?_firstById]

end FirstById

variable {repoId : String} {files : List IndexedFile} {entities : List Entity} {edges : List Edge}

/-- The contract holds of the batch of a run whose files have paths and whose records conform. -/
theorem holds_assemble (version : Option String) (hfiles : ∀ f ∈ files, f.path ≠ "")
    (hentities : ∀ e ∈ entities, e.Conforms repoId) (hedges : ∀ e ∈ edges, e.Conforms repoId) :
    Contract.Holds repoId version (assemble repoId version files entities edges).entities
      (assemble repoId version files entities edges).edges := by
  let structural := Structure.ofRun repoId files entities edges
  let allEntities := firstById (·.id) (structural.entities ++ entities)
  let kept := (firstById Edge.id (structural.edges ++ edges)).filter (hasEnds (allEntities.map (·.id)))
  have hentity : ∀ e ∈ allEntities, e.Conforms repoId := by
    intro e he
    rcases List.mem_append.1 (mem_of_mem_firstById he) with he | he
    · exact Structure.conforms_entity hfiles (fun e he => (hentities e he).path) he
    · exact hentities e he
  have hedge : ∀ e ∈ kept, e.Conforms repoId := by
    intro e he
    rcases List.mem_append.1 (mem_of_mem_firstById (List.mem_filter.1 he).1) with he | he
    · exact Structure.conforms_edge he
    · exact hedges e he
  have hends : ∀ e ∈ kept, e.fromId ∈ allEntities.map (·.id) ∧ e.toId ∈ allEntities.map (·.id) := by
    intro e he
    have h := (List.mem_filter.1 he).2
    rwa [hasEnds, Bool.and_eq_true, List.contains_iff_mem, List.contains_iff_mem] at h
  have hedgeIds : (kept.map Edge.id).Nodup := nodup_firstById.sublist (List.filter_sublist.map _)
  have hunstamped : Contract.Holds repoId none allEntities kept :=
    ⟨nodup_firstById, hentity, fun _ _ => rfl, hedgeIds, hedge, hends, fun _ _ => rfl⟩
  cases version with
  | none => exact hunstamped
  | some v => exact hunstamped.stamp v

/-- A run whose files have paths and whose records conform has a batch. -/
theorem exists_ofRun_eq_ok (version : Option String) (hfiles : ∀ f ∈ files, f.path ≠ "")
    (hentities : ∀ e ∈ entities, e.Conforms repoId) (hedges : ∀ e ∈ edges, e.Conforms repoId) :
    ∃ b, ofRun repoId version files entities edges = .ok b :=
  ⟨_, ofRun_eq_ok_iff.2 ⟨rfl, holds_assemble version hfiles hentities hedges⟩⟩

end WriteBatch

end CodeAtlas
