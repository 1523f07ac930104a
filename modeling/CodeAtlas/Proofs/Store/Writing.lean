import CodeAtlas.Proofs.Graph.Batch
import CodeAtlas.Proofs.Store.Runs
import Mathlib.Data.Finset.Card

/-!
# What a write stores and reports

What is found may name an entity or an edge more than once, also one that the structure has, and edges may lead nowhere. Of the records
with one id the first is stored, the structure coming before what was found; an edge without both ends is not; everything else in the
store stays. The numbers that a write reports count ids, so none is lost or counted twice.
-/

namespace CodeAtlas

/-- The entity with the tag of the run that writes it, or as it is when no run does. -/
def Entity.tagged : Option String → Entity → Entity
  | some version, e => e.stamp version
  | none, e => e

/-- The edge with the tag of the run that writes it, or as it is when no run does. -/
def Edge.tagged : Option String → Edge → Edge
  | some version, e => e.stamp version
  | none, e => e

@[simp]
theorem Entity.id_tagged (version : Option String) (e : Entity) : (e.tagged version).id = e.id := by
  cases version <;> rfl

@[simp]
theorem Edge.id_tagged (version : Option String) (e : Edge) : (e.tagged version).id = e.id := by
  cases version <;> rfl

namespace Fragment

/-- What was found in some files, with the structure of the repository in front. -/
def structured (repoId : String) (files : List IndexedFile) (f : Fragment) : Fragment where
  entities := (Structure.ofRun repoId files f.entities f.edges).entities ++ f.entities
  edges := (Structure.ofRun repoId files f.entities f.edges).edges ++ f.edges

/-- The ids of the entities. -/
def entityIds (f : Fragment) : List String := f.entities.map (·.id)

/-- The ids of the edges. -/
def edgeIds (f : Fragment) : List String := f.edges.map Edge.id

/-- The first entity with an id. -/
def entity? (f : Fragment) (id : String) : Option Entity := f.entities.find? fun e => e.id == id

/-- The first edge with an id. -/
def edge? (f : Fragment) (id : String) : Option Edge := f.edges.find? fun e => e.id == id

/-- The first edge with an id, if the entities have both its ends. -/
def wholeEdge? (f : Fragment) (id : String) : Option Edge := (f.edge? id).filter (WriteBatch.hasEnds f.entityIds)

end Fragment

/-- What a write of some records leaves of a store, and what it reports. -/
structure IsWritten (version : Option String) (f : Fragment) (s s' : GraphStore) (summary : WriteSummary) : Prop where
  /-- Under the id of an entity stands the first entity with it, and under any other key what stood there. -/
  entity : ∀ id, Keyed.find id s'.entities = ((f.entity? id).map (Entity.tagged version)).or (Keyed.find id s.entities)
  /-- Under the id of an edge stands the first edge with it if it has both ends, and under any other key what stood there. -/
  edge : ∀ id, Keyed.find id s'.edges = ((f.wholeEdge? id).map (Edge.tagged version)).or (Keyed.find id s.edges)
  active : s'.active = s.active
  entitiesWritten : summary.entitiesWritten = f.entityIds.toFinset.card
  edgesWritten : summary.edgesWritten = (f.edgeIds.toFinset.filter fun id => (f.wholeEdge? id).isSome = true).card
  edgesCounted : summary.edgesWritten + summary.danglingDropped = f.edgeIds.toFinset.card

namespace WriteBatch

section FirstById

variable {α : Type} {id : α → String} {items : List α}

/-- Of items by id there are as many as ids. -/
theorem length_firstById : (firstById id items).length = (items.map id).toFinset.card := by
  have hids : ((firstById id items).map id).toFinset = (items.map id).toFinset := by
    ext k
    rw [List.mem_toFinset, List.mem_toFinset, mem_map_firstById]
  rw [← hids, List.toFinset_card_of_nodup nodup_firstById, List.length_map]

/-- Where ids differ, looking for an id among the items with a property finds what it finds among all, if it has the property. -/
theorem find?_filter_of_nodup (h : (items.map id).Nodup) (p : α → Bool) (k : String) :
    (items.filter p).find? (fun x => id x == k) = (items.find? fun x => id x == k).filter p := by
  induction items with
  | nil => rfl
  | cons x xs ih =>
    rw [List.map_cons, List.nodup_cons] at h
    by_cases hk : id x = k
    · have hother : ∀ y ∈ xs.filter p, ¬ (id y == k) = true := by
        intro y hy heq
        refine h.1 ?_
        rw [hk, ← beq_iff_eq.1 heq]
        exact List.mem_map_of_mem (List.mem_filter.1 hy).1
      have hnone : (xs.filter p).find? (fun y => id y == k) = none := List.find?_eq_none.2 hother
      cases hp : p x <;> simp [hk, hp, hnone, Option.filter_some]
    · cases hp : p x <;> simp [hk, hp, ih h.2]

end FirstById

variable {repoId : String} {version : Option String} {files : List IndexedFile} {f : Fragment} {s : GraphStore}

/-- The edges of a batch before they are tagged. -/
def keptEdges (f : Fragment) : List Edge := (firstById Edge.id f.edges).filter (hasEnds f.entityIds)

/-- An edge has its ends among the first entities by id exactly if it has them among all. -/
theorem hasEnds_firstById : hasEnds ((firstById (·.id) f.entities).map (·.id)) = hasEnds f.entityIds := by
  have hcontains : ∀ k, ((firstById (·.id) f.entities).map (·.id)).contains k = f.entityIds.contains k := by
    intro k
    rw [Bool.eq_iff_iff, List.contains_iff_mem, List.contains_iff_mem, mem_map_firstById]
    exact Iff.rfl
  funext e
  rw [hasEnds, hasEnds, hcontains, hcontains]

/-- The entities of a batch are the first ones by id, with the tag. -/
theorem entities_assemble : (assemble repoId version files f.entities f.edges).entities =
    (firstById (·.id) (f.structured repoId files).entities).map (Entity.tagged version) := by
  cases version with
  | none => exact (List.map_id'' (fun _ => rfl) _).symm
  | some v => rfl

/-- The edges of a batch are the kept ones, with the tag. -/
theorem edges_assemble : (assemble repoId version files f.entities f.edges).edges =
    (keptEdges (f.structured repoId files)).map (Edge.tagged version) := by
  rw [keptEdges, ← hasEnds_firstById]
  cases version with
  | none => exact (List.map_id'' (fun _ => rfl) _).symm
  | some v => rfl

/-- Kept and dangling edges are as many as all of them by id. -/
theorem dangling_assemble_add (version : Option String) : (keptEdges (f.structured repoId files)).length +
    (assemble repoId version files f.entities f.edges).dangling = (firstById Edge.id (f.structured repoId files).edges).length := by
  have hle : (keptEdges (f.structured repoId files)).length ≤ (firstById Edge.id (f.structured repoId files).edges).length :=
    List.length_filter_le _ _
  have hdangling : (assemble repoId version files f.entities f.edges).dangling =
      (firstById Edge.id (f.structured repoId files).edges).length - (keptEdges (f.structured repoId files)).length := by
    rw [keptEdges, ← hasEnds_firstById]
    cases version <;> rfl
  omega

/-- What is kept under an id is the first edge with it, if it has both ends. -/
theorem find?_keptEdges (k : String) : (keptEdges f).find? (fun e => e.id == k) = f.wholeEdge? k := by
  rw [keptEdges, find?_filter_of_nodup nodup_firstById, find?_firstById]
  rfl

/-- No edge is kept twice. -/
theorem nodup_keptEdges : ((keptEdges f).map Edge.id).Nodup := nodup_firstById.sublist (List.filter_sublist.map _)

/-- Kept edges are as many as ids with a whole edge. -/
theorem length_keptEdges : (keptEdges f).length = (f.edgeIds.toFinset.filter fun k => (f.wholeEdge? k).isSome = true).card := by
  have hids : ((keptEdges f).map Edge.id).toFinset = f.edgeIds.toFinset.filter fun k => (f.wholeEdge? k).isSome = true := by
    ext k
    rw [List.mem_toFinset, Finset.mem_filter, List.mem_toFinset, ← find?_keptEdges, List.find?_isSome, List.mem_map]
    simp only [beq_iff_eq]
    refine ⟨fun h => ⟨?_, h⟩, And.right⟩
    obtain ⟨e, he, rfl⟩ := h
    exact List.mem_map_of_mem (mem_of_mem_firstById (List.mem_filter.1 he).1)
  rw [← hids, List.toFinset_card_of_nodup nodup_keptEdges, List.length_map]

end WriteBatch

namespace Keyed

/-- Putting items that are made of others, under the ids of these, puts the first one with an id. -/
theorem find_putAll_map {α : Type} {id : α → String} {g : α → α} (hid : ∀ x, id (g x) = id x) {xs : List α}
    (hx : (xs.map id).Nodup) (k : String) (t : Keyed α) :
    find k (putAll id (xs.map g) t) = ((xs.find? fun x => id x == k).map g).or (find k t) := by
  have hkeys : (xs.map g).map id = xs.map id := by
    rw [List.map_map]
    exact List.map_congr_left fun x _ => hid x
  rw [find_putAll (hkeys ▸ hx), List.find?_map]
  simp only [Function.comp_def, hid]

end Keyed

open WriteBatch

/-- A write that is not refused puts its batch, and reports how much of it there is. -/
theorem run_write_eq_ok {repoId : String} {version : Option String} {files : List IndexedFile} {entities : List Entity}
    {edges : List Edge} {s s' : GraphStore} {summary : WriteSummary}
    (h : (StoreSession.write repoId version files entities edges).run s = (.ok summary, s')) :
    let b := assemble repoId version files entities edges
    s' = (s.upsertEntities b.entities).upsertEdges b.edges ∧ summary = ⟨b.entities.length, b.edges.length, b.dangling⟩ := by
  cases hbatch : WriteBatch.ofRun repoId version files entities edges with
  | error v =>
    rw [StoreSession.write, hbatch] at h
    cases h
  | ok b =>
    rw [StoreSession.write, hbatch] at h
    obtain ⟨hsummary, rfl⟩ := Prod.mk.inj h
    obtain rfl := Except.ok.inj hsummary
    obtain ⟨rfl, -⟩ := ofRun_eq_ok_iff.1 hbatch
    exact ⟨rfl, rfl⟩

/-- A write that is not refused stores of every id the first record, in front the structure, and of the edges those that have both ends;
it leaves the rest of the store as it was, and reports how many ids it has stored and how many edges it has left out. -/
theorem write_isWritten {repoId : String} {version : Option String} {files : List IndexedFile} {entities : List Entity}
    {edges : List Edge} {s s' : GraphStore} {summary : WriteSummary}
    (h : (StoreSession.write repoId version files entities edges).run s = (.ok summary, s')) :
    IsWritten version (Fragment.structured repoId files { entities, edges }) s s' summary := by
  let f : Fragment := { entities, edges }
  obtain ⟨rfl, rfl⟩ := run_write_eq_ok h
  have hentities : (assemble repoId version files entities edges).entities = _ := entities_assemble (f := f)
  have hedges : (assemble repoId version files entities edges).edges = _ := edges_assemble (f := f)
  have hdangling : (keptEdges (f.structured repoId files)).length + (assemble repoId version files entities edges).dangling = _ :=
    dangling_assemble_add version
  refine ⟨fun k => ?entity, fun k => ?edge, rfl, ?entitiesWritten, ?edgesWritten, ?edgesCounted⟩
  case entity =>
    show Keyed.find k (Keyed.putAll Entity.id _ s.entities) = _
    rw [hentities, Keyed.find_putAll_map (Entity.id_tagged version) nodup_firstById, find?_firstById]
    rfl
  case edge =>
    show Keyed.find k (Keyed.putAll Edge.id _ s.edges) = _
    rw [hedges, Keyed.find_putAll_map (Edge.id_tagged version) nodup_keptEdges, find?_keptEdges]
  case entitiesWritten =>
    rw [hentities, List.length_map, length_firstById]
    rfl
  case edgesWritten =>
    rw [hedges, List.length_map, length_keptEdges]
  case edgesCounted =>
    rw [length_firstById] at hdangling
    rw [hedges, List.length_map]
    exact congrArg (fun n : Nat => (n : Int)) hdangling

namespace SampleRuns

/-- Two functions with one id, in a file that nothing else mentions. -/
def foundTwice : List Entity :=
  ["once", "again"].map fun name =>
    { file "r" "f" with kind := .function, name, filePath := "src/a.py" }

/-- An edge that leads nowhere, and one that the structure has as well. -/
def danglingAndContained : List Edge :=
  [imports "r" "f" "nowhere", Structure.containment "r" (Identity.file "r" "src/a.py") "f"]

end SampleRuns

/-- The first of two functions with one id is stored, with the file and the directory that it lies in; an edge that leads nowhere is
not, and one that the structure has counts once. -/
theorem foundTwice_isWritten : ∃ summary s',
    (StoreSession.write "r" (some "1") [] SampleRuns.foundTwice SampleRuns.danglingAndContained).run .empty = (.ok summary, s') ∧
      IsWritten (some "1") (Fragment.structured "r" [] { entities := SampleRuns.foundTwice, edges := SampleRuns.danglingAndContained })
        .empty s' summary ∧
      summary.entitiesWritten = 3 ∧ summary.edgesWritten = 2 ∧ summary.danglingDropped = 1 ∧
        (Keyed.find "f" s'.entities).map (·.name) = some "once" := by
  let b := assemble "r" (some "1") [] SampleRuns.foundTwice SampleRuns.danglingAndContained
  have hsample : Contract.violation? "r" (some "1") b.entities b.edges = none ∧ b.entities.length = 3 ∧ b.edges.length = 2 ∧
      b.dangling = 1 ∧ (Keyed.find "f" (Keyed.putAll Entity.id b.entities [])).map (·.name) = some "once" := by
    decide +kernel
  obtain ⟨hholds, hentities, hedges, hdangling, hfirst⟩ := hsample
  have hbatch : WriteBatch.ofRun "r" (some "1") [] SampleRuns.foundTwice SampleRuns.danglingAndContained = .ok b :=
    ofRun_eq_ok_iff.2 ⟨rfl, Contract.violation?_eq_none_iff.1 hholds⟩
  have hrun : ∃ summary s', (StoreSession.write "r" (some "1") [] SampleRuns.foundTwice SampleRuns.danglingAndContained).run .empty =
      (.ok summary, s') := by
    rw [StoreSession.write, hbatch]
    exact ⟨_, _, rfl⟩
  obtain ⟨summary, s', hrun⟩ := hrun
  obtain ⟨rfl, rfl⟩ := run_write_eq_ok hrun
  exact ⟨_, _, hrun, write_isWritten hrun, congrArg Nat.cast hentities, congrArg Nat.cast hedges, hdangling, hfirst⟩

end CodeAtlas
