import CodeAtlas.Proofs.Decimal
import CodeAtlas.Proofs.Graph.Structure
import CodeAtlas.Proofs.Store.Delivery
import CodeAtlas.Store.Bolt
import CodeAtlas.Store.Service

/-!
# The batches of a store elsewhere

Entities go out in the order in which they are given. Edges go out kind by kind, the kinds in the order of their names and the edges of a
kind in the order in which they are given. Both stores elsewhere send the same batches; what differs is the request that carries a batch,
and what its outcomes report. The graph database reports a number in each row that comes back; the repository service reports one number
for the batch, or none.
-/

namespace CodeAtlas

/-- Items by their keys are the items again, in another order. -/
theorem perm_flatMap_filter {α κ : Type} [DecidableEq κ] (key : α → κ) {keys : List κ} (hkeys : keys.Nodup) {items : List α}
    (h : ∀ a ∈ items, key a ∈ keys) : (keys.flatMap fun k => items.filter fun a => key a == k).Perm items := by
  induction keys generalizing items with
  | nil =>
    rw [List.eq_nil_iff_forall_not_mem.2 fun a ha => List.not_mem_nil (h a ha)]
    exact List.Perm.refl []
  | cons k ks ih =>
    obtain ⟨hk, hks⟩ := List.nodup_cons.1 hkeys
    let others := items.filter fun a => !(key a == k)
    have hothers : ∀ a ∈ others, key a ∈ ks := by
      intro a ha
      obtain ⟨ha, hne⟩ := List.mem_filter.1 ha
      rcases List.mem_cons.1 (h a ha) with heq | hmem
      · simp [heq] at hne
      · exact hmem
    have hrest : (ks.flatMap fun k' => items.filter fun a => key a == k') = ks.flatMap fun k' => others.filter fun a => key a == k' := by
      refine List.flatMap_congr fun k' hk' => ?_
      rw [List.filter_filter]
      refine List.filter_congr fun a _ => ?_
      by_cases heq : key a = k'
      · have hne : key a ≠ k := fun e => hk (e ▸ heq ▸ hk')
        simp [heq, heq ▸ hne]
      · simp [heq]
    rw [List.flatMap_cons, hrest]
    exact ((ih hks hothers).append_left _).trans (List.filter_append_perm _ items)

namespace Edge

/-- Edges by their kinds are the edges again, in another order. -/
theorem perm_byKind (edges : List Edge) : ((byKind edges).flatMap (·.2)).Perm edges := by
  rw [byKind, List.flatMap_map]
  refine perm_flatMap_filter Edge.kind (nodup_eraseDups _) ?_
  intro e he
  exact List.mem_eraseDups.2 (List.mem_map_of_mem he)

/-- There is one group for every kind that occurs. -/
theorem filter_bySortedKind (edges : List Edge) (k : EdgeKind) :
    (bySortedKind edges).filter (fun g => g.1 == k) =
      if k ∈ edges.map (·.kind) then [(k, edges.filter fun e => e.kind == k)] else [] := by
  have hperm : ((bySortedKind edges).filter fun g => g.1 == k).Perm ((byKind edges).filter fun g => g.1 == k) :=
    (List.mergeSort_perm _ _).filter _
  have hkind : ((byKind edges).filter fun g => g.1 == k) =
      List.replicate (if k ∈ edges.map (·.kind) then 1 else 0) (k, edges.filter fun e => e.kind == k) := by
    rw [byKind, List.filter_map]
    show List.map _ (List.filter (fun k' => k' == k) _) = _
    rw [List.filter_beq, List.map_replicate, (nodup_eraseDups _).count]
    simp only [List.mem_eraseDups]
  rw [hkind, List.perm_replicate] at hperm
  rw [hperm]
  split <;> rfl

/-- The groups are in the order of the names of their kinds. -/
theorem pairwise_bySortedKind (edges : List Edge) : (bySortedKind edges).Pairwise fun g g' => g.1.name ≤ g'.1.name :=
  pairwise_mergeSort_key (fun g : EdgeKind × List Edge => g.1.name) _

/-- Every group has the kind of an edge. -/
theorem kind_of_mem_bySortedKind {edges : List Edge} {g : EdgeKind × List Edge} (h : g ∈ bySortedKind edges) :
    ∃ e ∈ edges, e.kind = g.1 := by
  obtain ⟨k, hk, rfl⟩ := List.mem_map.1 (List.mem_mergeSort.1 h)
  obtain ⟨e, he, hkind⟩ := List.mem_map.1 (List.mem_eraseDups.1 hk)
  exact ⟨e, he, hkind⟩

end Edge

namespace Delivery

/-- Edges in batches, each with the kind of its edges. -/
structure IsBatchedByKind (size : Nat) (edges : List Edge) (plan : List (EdgeKind × List Json)) : Prop where
  sorted : plan.Pairwise fun p q => p.1.name ≤ q.1.name
  batched : ∀ k, IsBatched size ((edges.filter fun e => e.kind == k).map Edge.row) ((plan.filter fun p => p.1 == k).map (·.2))
  perm : (plan.flatMap (·.2)).Perm (edges.map Edge.row)

/-- The batches of some groups of edges. -/
def kindBatches (size : Nat) (groups : List (EdgeKind × List Edge)) : List (EdgeKind × List Json) :=
  groups.flatMap fun g => (batches size (g.2.map Edge.row)).map (g.1, ·)

/-- The batches of a kind are those of its group. -/
theorem filter_kindBatches (size : Nat) (groups : List (EdgeKind × List Edge)) (k : EdgeKind) :
    (kindBatches size groups).filter (fun p => p.1 == k) = kindBatches size (groups.filter fun g => g.1 == k) := by
  induction groups with
  | nil => rfl
  | cons g gs ih =>
    have hgroup : ((batches size (g.2.map Edge.row)).map (g.1, ·)).filter (fun p => p.1 == k) =
        if g.1 == k then (batches size (g.2.map Edge.row)).map (g.1, ·) else [] := by
      rw [List.filter_map]
      cases h : g.1 == k <;> simp [Function.comp_def, h]
    have hcons : ∀ gs, kindBatches size (g :: gs) = (batches size (g.2.map Edge.row)).map (g.1, ·) ++ kindBatches size gs :=
      fun gs => List.flatMap_cons
    rw [hcons, List.filter_append, hgroup, ih, List.filter_cons]
    split
    · rw [hcons]
    · rfl

/-- The batches of all groups hold the rows of all edges. -/
theorem flatMap_kindBatches {size : Nat} (hsize : 1 ≤ size) (groups : List (EdgeKind × List Edge)) :
    (kindBatches size groups).flatMap (·.2) = (groups.flatMap (·.2)).map Edge.row := by
  have hflatten : ∀ rows : List Json, (batches size rows).flatten = rows := fun rows => (isBatched_batches hsize rows).flatten
  simp only [kindBatches, List.flatMap_assoc, List.flatMap_map, List.map_flatMap, List.flatMap_id', hflatten]

/-- Edges go out in batches, the kinds in order and each batch of one kind. -/
theorem isBatchedByKind {size : Nat} (hsize : 1 ≤ size) (edges : List Edge) :
    IsBatchedByKind size edges (kindBatches size (Edge.bySortedKind edges)) where
  sorted := by
    refine List.pairwise_flatMap.2 ⟨fun g _ => List.pairwise_map.2 ?_, (Edge.pairwise_bySortedKind edges).imp ?_⟩
    · exact List.pairwise_of_forall fun _ _ => String.le_refl _
    · intro g g' hle p hp q hq
      obtain ⟨_, _, rfl⟩ := List.mem_map.1 hp
      obtain ⟨_, _, rfl⟩ := List.mem_map.1 hq
      exact hle
  batched := by
    intro k
    rw [filter_kindBatches, Edge.filter_bySortedKind]
    split
    · rw [kindBatches, List.flatMap_singleton, List.map_map]
      show IsBatched size _ (List.map (fun b => b) _)
      rw [List.map_id']
      exact isBatched_batches hsize _
    · rename_i hk
      have hnone : (edges.filter fun e => e.kind == k) = [] := by
        refine List.filter_eq_nil_iff.2 fun e he heq => hk ?_
        exact List.mem_map.2 ⟨e, he, beq_iff_eq.1 heq⟩
      rw [hnone]
      exact IsBatched.nil size
  perm := by
    rw [flatMap_kindBatches hsize]
    exact (((List.mergeSort_perm _ _).flatMap_right _).trans (Edge.perm_byKind edges)).map _

variable {request outcome : Type} {limit : Nat} {idle : outcome}

/-- Sending groups of edges one after the other delivers the batches of them all. -/
theorem Delivers.kinds {size : Nat} {batchOf : EdgeKind → List Json → Batch request outcome}
    {send : EdgeKind → List Json → Delivery request outcome Int} {call : List (EdgeKind × List Edge) → Delivery request outcome Int}
    (hsend : ∀ k rows, Delivers limit idle [batchOf k rows] (send k rows)) (hnil : call [] = pure 0)
    {groups : List (EdgeKind × List Edge)}
    (hcons : ∀ g ∈ groups, ∀ rest,
      call (g :: rest) = (do let n ← Delivery.sendAll (send g.1) (batches size (g.2.map Edge.row)); return n + (← call rest))) :
    Delivers limit idle ((kindBatches size groups).map fun p => batchOf p.1 p.2) (call groups) := by
  induction groups with
  | nil =>
    rw [hnil]
    exact Delivers.nil limit idle
  | cons g gs ih =>
    have hgroup := Delivers.sendAll (hsend g.1) (batches size (g.2.map Edge.row))
    have hrest := ih fun g' hg' => hcons g' (List.mem_cons_of_mem g hg')
    have hplan : (kindBatches size (g :: gs)).map (fun p => batchOf p.1 p.2) =
        (batches size (g.2.map Edge.row)).map (batchOf g.1) ++ (kindBatches size gs).map fun p => batchOf p.1 p.2 := by
      rw [kindBatches, List.flatMap_cons, List.map_append, List.map_map]
      rfl
    rw [hcons g List.mem_cons_self gs, hplan]
    exact hgroup.append hrest

/-- A store takes entities and edges in batches of a size. Each batch is one that carries entities, or edges of its kind, as the store
expects. -/
structure UpsertsInBatches (size limit : Nat) (idle : outcome) (carriesEntities : Batch request outcome → Prop)
    (carriesEdges : EdgeKind → Batch request outcome → Prop) (store : StoreBackend (Delivery request outcome)) (entities : List Entity)
    (edges : List Edge) : Prop where
  entityBatches : ∃ plan : List (Batch request outcome), IsBatched size (entities.map Entity.row) (plan.map (·.rows)) ∧
    (∀ b ∈ plan, carriesEntities b) ∧ Delivers limit idle plan (store.upsertEntities entities)
  edgeBatches : ∃ plan : List (EdgeKind × Batch request outcome),
    IsBatchedByKind size edges (plan.map fun p => (p.1, p.2.rows)) ∧ (∀ p ∈ plan, carriesEdges p.1 p.2) ∧
    Delivers limit idle (plan.map (·.2)) (store.upsertEdges edges)

/-- Rows in batches, each made a batch of its store, are what the store takes. -/
theorem UpsertsInBatches.of_batchOf {size limit : Nat} {idle : outcome} {carriesEntities : Batch request outcome → Prop}
    {carriesEdges : EdgeKind → Batch request outcome → Prop} {store : StoreBackend (Delivery request outcome)} {entities : List Entity}
    {edges : List Edge} (hsize : 1 ≤ size) {entityBatch : List Json → Batch request outcome}
    {edgeBatch : EdgeKind → List Json → Batch request outcome} (hentity : ∀ rows, carriesEntities (entityBatch rows))
    (hedge : ∀ k rows, carriesEdges k (edgeBatch k rows)) (hentityRows : ∀ rows, (entityBatch rows).rows = rows)
    (hedgeRows : ∀ k rows, (edgeBatch k rows).rows = rows)
    (hentities : Delivers limit idle ((batches size (entities.map Entity.row)).map entityBatch) (store.upsertEntities entities))
    (hedges : Delivers limit idle ((kindBatches size (Edge.bySortedKind edges)).map fun p => edgeBatch p.1 p.2)
      (store.upsertEdges edges)) :
    UpsertsInBatches size limit idle carriesEntities carriesEdges store entities edges where
  entityBatches := by
    refine ⟨_, ?_, ?_, hentities⟩
    · simp only [List.map_map, Function.comp_def, hentityRows, List.map_id']
      exact isBatched_batches hsize _
    · intro b hb
      obtain ⟨rows, -, rfl⟩ := List.mem_map.1 hb
      exact hentity rows
  edgeBatches := by
    refine ⟨(kindBatches size (Edge.bySortedKind edges)).map fun p => (p.1, edgeBatch p.1 p.2), ?_, ?_, ?_⟩
    · simp only [List.map_map, Function.comp_def, hedgeRows, Prod.mk.eta, List.map_id']
      exact isBatchedByKind hsize edges
    · intro p hp
      obtain ⟨p, -, rfl⟩ := List.mem_map.1 hp
      exact hedge p.1 p.2
    · rw [List.map_map]
      exact hedges

end Delivery

namespace Bolt

/-! ## The graph database -/

/-- A row that comes back reports a number: the one in its field `written`, where a truth value counts as nought or one. -/
inductive Reports (row : Json) : Int → Prop where
  | number {n : Int} (h : row.get? "written" = some (.int n)) : Reports row n
  | truth {b : Bool} (h : row.get? "written" = some (.bool b)) : Reports row (if b then 1 else 0)

/-- What the outcome of a query that writes rows means. A transaction that comes to its end reports the sum of the numbers in its rows,
and fails for good where a row reports none. -/
inductive Means : Outcome → Attempt Int → Prop where
  | reported {rows : List Json} {counts : List Int} (h : List.Forall₂ Reports rows counts) : Means (.rows rows) (.success counts.sum)
  | unreported {rows : List Json} (h : ∃ row ∈ rows, ∀ n, ¬ Reports row n) (f : StoreFailure) : Means (.rows rows) (.lasting f)
  | passing (message : String) : Means (.passing message) (.passing (.unavailable message))
  | refused (kind : String) : Means (.refused kind) (.lasting (.refused kind))

/-- A batch goes to the database as the parameter of a query that writes. -/
structure Carries (s : Settings) (query : String) (b : Delivery.Batch Request Outcome) : Prop where
  request : b.request = ⟨true, s.database, query, [("rows", .list b.rows)]⟩
  means : ∀ o, Means o (b.verdict o)
  sendable : b.unsendable = none

/-- The number of a row is read where the row reports one. -/
theorem wholeColumn_eq_ok_iff {row : Json} {n : Int} : wholeColumn "written" row = .ok n ↔ Reports row n := by
  constructor
  · intro h
    unfold wholeColumn column at h
    split at h <;> rename_i v hv
    · cases v with
      | int m =>
        cases h
        exact Reports.number hv
      | bool b =>
        cases h
        exact Reports.truth hv
      | _ => cases h
    · nomatch h
  · rintro (h | h) <;> simp only [wholeColumn, column, h] <;> rfl

/-- The sum over the rows that come back is the sum of the numbers they report. -/
theorem sumOf_spec (rows : List Json) :
    (∃ counts, List.Forall₂ Reports rows counts ∧ sumOf "written" rows = .ok counts.sum) ∨
      ∃ f, sumOf "written" rows = .error f ∧ ∃ row ∈ rows, ∀ n, ¬ Reports row n := by
  induction rows with
  | nil => exact Or.inl ⟨[], List.Forall₂.nil, rfl⟩
  | cons row rows ih =>
    rw [sumOf]
    cases hrow : wholeColumn "written" row with
    | error f =>
      refine Or.inr ⟨f, rfl, row, List.mem_cons_self, fun n hn => ?_⟩
      rw [wholeColumn_eq_ok_iff.2 hn] at hrow
      nomatch hrow
    | ok n =>
      rcases ih with ⟨counts, hcounts, hsum⟩ | ⟨f, hsum, r, hr, hnone⟩
      · refine Or.inl ⟨n :: counts, List.Forall₂.cons (wholeColumn_eq_ok_iff.1 hrow) hcounts, ?_⟩
        rw [hsum, List.sum_cons]
        rfl
      · refine Or.inr ⟨f, ?_, r, List.mem_cons_of_mem row hr, hnone⟩
        rw [hsum]
        rfl

/-- The batch of some rows, with its outcomes read as the store reads them. -/
def batch (s : Settings) (query : String) (rows : List Json) : Delivery.Batch Request Outcome where
  rows := rows
  request := ⟨true, s.database, query, [("rows", .list rows)]⟩
  verdict o := o.judge.read (sumOf "written")

/-- The outcomes of a batch are read as they are meant. -/
theorem means_verdict (s : Settings) (query : String) (rows : List Json) (o : Outcome) : Means o ((batch s query rows).verdict o) := by
  cases o with
  | passing m => exact Means.passing m
  | refused k => exact Means.refused k
  | rows rs =>
    show Means (.rows rs) ((Attempt.success rs).read (sumOf "written"))
    rcases sumOf_spec rs with ⟨counts, hcounts, hsum⟩ | ⟨f, hsum, hnone⟩ <;> rw [Attempt.read, hsum]
    · exact Means.reported hcounts
    · exact Means.unreported hnone f

/-- What the database is sent for some rows is a batch that carries them. -/
theorem carries_batch (s : Settings) (query : String) (rows : List Json) : Carries s query (batch s query rows) where
  request := rfl
  means := means_verdict s query rows
  sendable := rfl

/-- Merging a batch delivers it. -/
theorem delivers_mergeBatch {s : Settings} (h : 1 ≤ s.retries.attempts) (query : String) (rows : List Json) :
    Delivery.Delivers s.retries.attempts (.rows []) [batch s query rows] (mergeBatch s query rows) := by
  rw [mergeBatch, runQuery, Delivery.ask_settled]
  exact Delivery.Delivers.single h (batch s query rows)

/-- The query that writes edges of a kind, empty for an unknown kind. -/
def mergeEdges (k : EdgeKind) : String := (Query.mergeEdges? k).getD ""

theorem mergeEdges?_of_known {k : EdgeKind} (h : k ∈ EdgeKind.known) : Query.mergeEdges? k = some (mergeEdges k) := by
  simp [mergeEdges, Query.mergeEdges?, Query.relationshipType?, h]

/-- Merging groups of edges delivers the batches of them all, one after the other. -/
theorem delivers_mergeKinds {s : Settings} (h : 1 ≤ s.retries.attempts) {groups : List (EdgeKind × List Edge)}
    (hknown : ∀ g ∈ groups, g.1 ∈ EdgeKind.known) :
    Delivery.Delivers s.retries.attempts (.rows [])
      ((Delivery.kindBatches s.batchSize groups).map fun p => batch s (mergeEdges p.1) p.2) (mergeKinds s groups) := by
  have hsend : ∀ k rows, Delivery.Delivers s.retries.attempts (.rows []) [batch s (mergeEdges k) rows]
      (mergeBatch s (mergeEdges k) rows) := fun k rows => delivers_mergeBatch h (mergeEdges k) rows
  refine Delivery.Delivers.kinds hsend rfl ?_
  rintro ⟨k, es⟩ hg rest
  rw [mergeKinds, mergeEdges?_of_known (hknown _ hg)]
  rfl

/-- The graph database takes entities, and edges of known kinds, in batches. -/
theorem upsertsInBatches {s : Settings} (hsize : 1 ≤ s.batchSize) (hattempts : 1 ≤ s.retries.attempts) (entities : List Entity)
    {edges : List Edge} (hknown : ∀ e ∈ edges, e.kind ∈ EdgeKind.known) :
    Delivery.UpsertsInBatches s.batchSize s.retries.attempts (.rows []) (Carries s Query.mergeEntities)
      (fun k => Carries s (mergeEdges k)) (backend s) entities edges := by
  refine .of_batchOf hsize (carries_batch s _) (fun k => carries_batch s (mergeEdges k)) (fun _ => rfl) (fun _ _ => rfl)
    (Delivery.Delivers.sendAll (delivers_mergeBatch hattempts Query.mergeEntities) _) (delivers_mergeKinds hattempts fun g hg => ?_)
  obtain ⟨e, he, hkind⟩ := Edge.kind_of_mem_bySortedKind hg
  exact hkind ▸ hknown e he

end Bolt

namespace Json

/-- A value stands somewhere in another one. -/
inductive IsWithin (v : Json) : Json → Prop where
  | self : IsWithin v v
  | item {items : List Json} {w : Json} (hw : w ∈ items) (h : IsWithin v w) : IsWithin v (.list items)
  | field {fields : List (String × Json)} {f : String × Json} (hf : f ∈ fields) (h : IsWithin v f.2) : IsWithin v (.object fields)

end Json

namespace Service

/-! ## The repository service -/

/-- A value stands for a whole number: a number for itself or its whole part, a truth value for nought or one, and a text for the number
that it writes. -/
inductive StandsFor : Json → Int → Prop where
  | number (n : Int) : StandsFor (.int n) n
  | truth (b : Bool) : StandsFor (.bool b) (if b then 1 else 0)
  | double {x : Binary64} {v : Dyadic} {n : Int} (hv : x.toDyadic? = some v) (h : v.HasWholePart n) : StandsFor (.float x) n
  | text {t : String} {n : Int} (h : Decimal.Writes t.text n) : StandsFor (.str t) n

/-- The value that a body holds. A byte order mark may stand before it. -/
def held (body : String) : Except Json.Malformed Json := Json.parse (Text.dropStart body.text "\uFEFF")

/-- What the body of an answer that tells of success means for a request with `size` rows: it is an object, and reports the number in its
field `written`, or all rows where it has no such field. -/
inductive BodyMeans (size : Nat) (body : String) : Attempt Int → Prop where
  | reported {fields : List (String × Json)} {v : Json} {n : Int} (hbody : held body = .ok (.object fields))
      (hfield : Json.field? "written" fields = some v) (hv : StandsFor v n) : BodyMeans size body (.success n)
  | unreported {fields : List (String × Json)} (hbody : held body = .ok (.object fields))
      (hfield : Json.field? "written" fields = none) : BodyMeans size body (.success size)
  | noNumber {fields : List (String × Json)} {v : Json} (hbody : held body = .ok (.object fields))
      (hfield : Json.field? "written" fields = some v) (hv : ∀ n, ¬ StandsFor v n) (f : StoreFailure) : BodyMeans size body (.lasting f)
  | noObject {v : Json} (hbody : held body = .ok v) (hv : ∀ fields, v ≠ .object fields) (f : StoreFailure) :
      BodyMeans size body (.lasting f)
  | noJson {e : Json.Malformed} (hbody : held body = .error e) : BodyMeans size body (.lasting .unreadable)

/-- What the outcome of a request with `size` rows means. The server may recover from a failure of its own; any other status that is not
one of success stays. -/
inductive Means (path : String) (size : Nat) : Outcome → Attempt Int → Prop where
  | passing (message : String) : Means path size (.passing message) (.passing (.unavailable (path ++ ": " ++ message)))
  | broken (message : String) : Means path size (.broken message) (.lasting (.unavailable (path ++ ": " ++ message)))
  | server {status : Nat} (h : 500 ≤ status) (body : String) : Means path size (.reply status body) (.passing (.status status))
  | refused {status : Nat} (h : status < 200 ∨ 300 ≤ status ∧ status < 500) (body : String) :
      Means path size (.reply status body) (.lasting (.status status))
  | answered {status : Nat} {body : String} {a : Attempt Int} (h : 200 ≤ status ∧ status < 300) (hbody : BodyMeans size body a) :
      Means path size (.reply status body) a

/-- A batch is posted to a path of the service. It cannot be sent if a double without an exact value stands in it. -/
structure Carries (name : String) (b : Delivery.Batch Request Outcome) : Prop where
  request : b.request = ⟨root ++ name, .object [("rows", .list b.rows)]⟩
  means : ∀ o, Means (root ++ name) b.rows.length o (b.verdict o)
  sendable : b.unsendable = none ↔ ∀ x : Binary64, Json.IsWithin (.float x) (.list b.rows) → x.toDyadic?.isSome
  unsendable : ∀ f ∈ b.unsendable, f = .unsendable

/-- A value is read as the whole number it stands for. -/
theorem wholeOf_eq_ok_iff {v : Json} {n : Int} : wholeOf v = .ok n ↔ StandsFor v n := by
  constructor
  · intro h
    cases v with
    | int m =>
      cases h
      exact StandsFor.number n
    | bool b =>
      cases h
      exact StandsFor.truth b
    | float x =>
      cases hx : x.truncate? with
      | none => simp [wholeOf, hx] at h
      | some m =>
        obtain rfl : m = n := by simpa [wholeOf, hx] using h
        obtain ⟨v, hv, hwhole⟩ := Binary64.truncate?_eq_some_iff.1 hx
        exact StandsFor.double hv hwhole
    | str t =>
      cases ht : Decimal.whole? t.text with
      | none => simp [wholeOf, ht] at h
      | some m =>
        obtain rfl : m = n := by simpa [wholeOf, ht] using h
        exact StandsFor.text (Decimal.whole?_eq_some_iff.1 ht)
    | _ => cases h
  · intro h
    cases h with
    | number n => rfl
    | truth b => rfl
    | double hv hwhole => simp [wholeOf, Binary64.truncate?_eq_some_iff.2 ⟨_, hv, hwhole⟩]
    | text ht => simp [wholeOf, Decimal.whole?_eq_some_iff.2 ht]

/-- The fields of an answer are read as its body is meant. -/
theorem bodyMeans_fieldsOfBody (path body : String) (size : Nat) :
    BodyMeans size body (match fieldsOfBody path body with
      | .ok fields => (Attempt.success fields).read (wholeField "written" size)
      | .error f => .lasting f) := by
  have hheld : Json.parse (Text.dropStart body.text "\uFEFF") = held body := rfl
  rw [fieldsOfBody, hheld]
  cases hbody : held body with
  | error e => exact BodyMeans.noJson hbody
  | ok v =>
    cases v with
    | object fields =>
      cases hfield : Json.field? "written" fields with
      | none =>
        simp only [Attempt.read, wholeField, hfield]
        exact BodyMeans.unreported hbody hfield
      | some v =>
        cases hv : wholeOf v with
        | ok n =>
          simp only [Attempt.read, wholeField, hfield, hv]
          exact BodyMeans.reported hbody hfield (wholeOf_eq_ok_iff.1 hv)
        | error f =>
          simp only [Attempt.read, wholeField, hfield, hv]
          refine BodyMeans.noNumber hbody hfield (fun n hn => ?_) f
          rw [wholeOf_eq_ok_iff.2 hn] at hv
          cases hv
    | _ => exact BodyMeans.noObject hbody (by simp) _

mutual

/-- A value can be sent if every double in it has an exact value. -/
theorem isFinite_iff : ∀ v : Json, isFinite v = true ↔ ∀ x : Binary64, Json.IsWithin (.float x) v → x.toDyadic?.isSome
  | .float x => by
    rw [isFinite, Bool.and_eq_true, Bool.not_eq_true', Bool.not_eq_true', ← Binary64.toDyadic?_isSome_iff]
    refine ⟨fun h y hy => ?_, fun h => h x .self⟩
    cases hy
    exact h
  | .list vs => by
    rw [isFinite, areFinite_iff vs]
    refine ⟨fun h x hx => ?_, fun h v hv x hx => h x (.item hv hx)⟩
    cases hx with
    | item hw hx => exact h _ hw x hx
  | .object fs => by
    rw [isFinite, fieldsFinite_iff fs]
    refine ⟨fun h x hx => ?_, fun h f hf x hx => h x (.field hf hx)⟩
    cases hx with
    | field hf hx => exact h _ hf x hx
  | .null => ⟨fun _ _ => nofun, fun _ => rfl⟩
  | .bool _ => ⟨fun _ _ => nofun, fun _ => rfl⟩
  | .int _ => ⟨fun _ _ => nofun, fun _ => rfl⟩
  | .str _ => ⟨fun _ _ => nofun, fun _ => rfl⟩

/-- Some values can be sent if each of them can be. -/
theorem areFinite_iff : ∀ vs : List Json,
    areFinite vs = true ↔ ∀ v ∈ vs, ∀ x : Binary64, Json.IsWithin (.float x) v → x.toDyadic?.isSome
  | [] => by simp [areFinite]
  | v :: vs => by rw [areFinite, Bool.and_eq_true, isFinite_iff v, areFinite_iff vs, List.forall_mem_cons]

/-- Fields can be sent if the value of each can be. -/
theorem fieldsFinite_iff : ∀ fs : List (String × Json),
    fieldsFinite fs = true ↔ ∀ f ∈ fs, ∀ x : Binary64, Json.IsWithin (.float x) f.2 → x.toDyadic?.isSome
  | [] => by simp [fieldsFinite]
  | f :: fs => by rw [fieldsFinite, Bool.and_eq_true, isFinite_iff f.2, fieldsFinite_iff fs, List.forall_mem_cons]

end

/-- The batch of some rows, with its outcomes read as the store reads them. -/
def batch (name : String) (rows : List Json) : Delivery.Batch Request Outcome where
  rows := rows
  request := ⟨root ++ name, .object [("rows", .list rows)]⟩
  verdict o := (Outcome.judge (root ++ name) o).read (wholeField "written" rows.length)
  unsendable := if isFinite (.object [("rows", .list rows)]) then none else some .unsendable

/-- The outcomes of a batch are read as they are meant. -/
theorem means_verdict (name : String) (rows : List Json) (o : Outcome) :
    Means (root ++ name) rows.length o ((batch name rows).verdict o) := by
  cases o with
  | passing m => exact Means.passing m
  | broken m => exact Means.broken m
  | reply status body =>
    show Means _ _ _ ((Outcome.judge (root ++ name) (.reply status body)).read (wholeField "written" rows.length))
    unfold Outcome.judge
    dsimp only
    by_cases hserver : 500 ≤ status
    · rw [if_pos hserver]
      exact Means.server hserver body
    · rw [if_neg hserver]
      by_cases hrefused : status < 200 ∨ 300 ≤ status
      · rw [if_pos hrefused]
        exact Means.refused (by omega) body
      · rw [if_neg hrefused]
        have hbody := bodyMeans_fieldsOfBody (root ++ name) body rows.length
        refine Means.answered (by omega) ?_
        cases hfields : fieldsOfBody (root ++ name) body <;> rw [hfields] at hbody <;> exact hbody

/-- What the service is sent for some rows is a batch that carries them. -/
theorem carries_batch (name : String) (rows : List Json) : Carries name (batch name rows) where
  request := rfl
  means := means_verdict name rows
  sendable := by
    rw [← isFinite_iff]
    simp [batch, isFinite, fieldsFinite]
  unsendable := by
    intro f hf
    simp only [batch, Option.mem_def, Option.ite_none_left_eq_some, Option.some.injEq] at hf
    exact hf.2.symm

/-- Merging a batch delivers it, or fails without a request where it cannot be sent. -/
theorem delivers_mergeBatch {s : Settings} (h : 1 ≤ s.retries.attempts) (name : String) (rows : List Json) :
    Delivery.Delivers s.retries.attempts (.reply 200 "\x7b\x7d") [batch name rows] (mergeBatch s name rows) := by
  unfold mergeBatch post
  dsimp only
  split
  · rw [Delivery.ask_settled]
    exact Delivery.Delivers.single h (batch name rows)
  · rename_i hfinite
    exact Delivery.Delivers.unsendable (if_neg hfinite) _ _

/-- Merging groups of edges delivers the batches of them all, one after the other. -/
theorem delivers_mergeKinds {s : Settings} (h : 1 ≤ s.retries.attempts) (groups : List (EdgeKind × List Edge)) :
    Delivery.Delivers s.retries.attempts (.reply 200 "\x7b\x7d")
      ((Delivery.kindBatches s.batchSize groups).map fun p => batch ("merge-edges/" ++ Query.upperKind p.1) p.2)
      (mergeKinds s groups) := by
  have hsend : ∀ k rows, Delivery.Delivers s.retries.attempts (.reply 200 "\x7b\x7d")
      [batch ("merge-edges/" ++ Query.upperKind k) rows] (mergeBatch s ("merge-edges/" ++ Query.upperKind k) rows) :=
    fun k rows => delivers_mergeBatch h ("merge-edges/" ++ Query.upperKind k) rows
  exact Delivery.Delivers.kinds hsend rfl fun _ _ _ => rfl

/-- The repository service takes entities and edges in batches. -/
theorem upsertsInBatches {s : Settings} (hsize : 1 ≤ s.batchSize) (hattempts : 1 ≤ s.retries.attempts) (entities : List Entity)
    (edges : List Edge) :
    Delivery.UpsertsInBatches s.batchSize s.retries.attempts (.reply 200 "\x7b\x7d") (Carries "merge-entities")
      (fun k => Carries ("merge-edges/" ++ Query.upperKind k)) (backend s) entities edges :=
  .of_batchOf hsize (carries_batch _) (fun k => carries_batch ("merge-edges/" ++ Query.upperKind k)) (fun _ => rfl) (fun _ _ => rfl)
    (Delivery.Delivers.sendAll (delivers_mergeBatch hattempts "merge-entities") _) (delivers_mergeKinds hattempts _)

end Service

/-- Both stores elsewhere take entities and edges in batches, in an order that does not depend on how the requests end. Each batch is
attempted until an attempt is successful, its failure stays, or the limit is reached. The first batch that fails ends the call, and no
later one is sent; a call that does not fail has delivered every row in one successful request, and returns the sum of the numbers that
were reported. -/
theorem batches_delivered (entities : List Entity) {edges : List Edge} (hknown : ∀ e ∈ edges, e.kind ∈ EdgeKind.known)
    {bolt : Bolt.Settings} (hbolt : 1 ≤ bolt.batchSize ∧ 1 ≤ bolt.retries.attempts)
    {service : Service.Settings} (hservice : 1 ≤ service.batchSize ∧ 1 ≤ service.retries.attempts) :
    (∃ query : EdgeKind → String, (∀ k ∈ EdgeKind.known, Query.mergeEdges? k = some (query k)) ∧
      Delivery.UpsertsInBatches bolt.batchSize bolt.retries.attempts (.rows []) (Bolt.Carries bolt Query.mergeEntities)
        (fun k => Bolt.Carries bolt (query k)) (Bolt.backend bolt) entities edges) ∧
    Delivery.UpsertsInBatches service.batchSize service.retries.attempts (.reply 200 "\x7b\x7d") (Service.Carries "merge-entities")
      (fun k => Service.Carries ("merge-edges/" ++ Query.upperKind k)) (Service.backend service) entities edges := by
  refine ⟨⟨Bolt.mergeEdges, fun k => Bolt.mergeEdges?_of_known, ?_⟩, ?_⟩
  · exact Bolt.upsertsInBatches hbolt.1 hbolt.2 entities hknown
  · exact Service.upsertsInBatches hservice.1 hservice.2 entities edges

namespace SampleBatches

/-- A call, and what contains the functions, found after it. -/
def callBeforeContained : List Edge :=
  [{ fromId := "caller", toId := "callee", kind := .calls }, { fromId := "file", toId := "caller", kind := .contains },
   { fromId := "file", toId := "callee", kind := .contains }, { fromId := "directory", toId := "file", kind := .contains }]

/-- The database is used with batches of two and two attempts. -/
def bolt : Bolt.Settings := { batchSize := 2, retries := { attempts := 2 } }

/-- So is the service. -/
def service : Service.Settings := { batchSize := 2, retries := { attempts := 2 } }

end SampleBatches

open SampleBatches in
/-- Edges of two kinds in batches of two, each attempted twice at most. -/
theorem callBeforeContained_delivered :
    (∀ e ∈ callBeforeContained, e.kind ∈ EdgeKind.known) ∧
    (∃ query : EdgeKind → String, Query.mergeEdges? .calls = some (query .calls) ∧
      Query.mergeEdges? .contains = some (query .contains) ∧
      Delivery.UpsertsInBatches 2 2 (.rows []) (Bolt.Carries bolt Query.mergeEntities) (fun k => Bolt.Carries bolt (query k))
        (Bolt.backend bolt) [] callBeforeContained) ∧
    Delivery.UpsertsInBatches 2 2 (.reply 200 "\x7b\x7d") (Service.Carries "merge-entities")
      (fun k => Service.Carries ("merge-edges/" ++ Query.upperKind k)) (Service.backend service) [] callBeforeContained := by
  have hknown : ∀ e ∈ callBeforeContained, e.kind ∈ EdgeKind.known := by decide
  have hbolt : 1 ≤ bolt.batchSize ∧ 1 ≤ bolt.retries.attempts := by decide
  have hservice : 1 ≤ service.batchSize ∧ 1 ≤ service.retries.attempts := by decide
  obtain ⟨⟨query, hquery, hupserts⟩, hposts⟩ := batches_delivered [] hknown hbolt hservice
  exact ⟨hknown, ⟨query, hquery _ (by decide), hquery _ (by decide), hupserts⟩, hposts⟩

end CodeAtlas
