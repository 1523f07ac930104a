import CodeAtlas.Proofs.Graph.Contract
import CodeAtlas.Source.Calls
import Mathlib.Data.List.Induction

/-!
# Items by key, and calls within a file

Of several items with one key the first is kept: the result is a sublist of the items, and its keys differ. A call within a file starts
at a declaration of the file and leads to another one.
-/

namespace CodeAtlas

/-- An edge of a call from one of the given entities. -/
structure Edge.IsCall (callers : List Entity) (e : Edge) : Prop where
  source : ∃ caller ∈ callers, e.fromId = caller.id ∧ e.repoId = caller.repoId
  target : e.fromId ≠ e.toId
  kind : e.kind = .calls
  confidence : e.confidence.inUnitInterval = true

/-- Where one step of gathering keeps to a change of the items and of the list, so does the whole. -/
theorem foldl_nil_map {α α' β β' : Type} {f : α → α'} {g : β → β'} {step : List β → α → List β}
    {step' : List β' → α' → List β'} (hstep : ∀ out x, step' (out.map g) (f x) = (step out x).map g) (xs : List α) :
    (xs.map f).foldl step' [] = (xs.foldl step []).map g := by
  have hhom : xs.foldl (fun out x => step' out (f x)) ([].map g) = (xs.foldl step []).map g := List.foldl_hom (List.map g) hstep
  rw [List.foldl_map, ← hhom, List.map_nil]

namespace Calls

section FirstByKey

variable {α β : Type} [BEq β] {key : α → β}

/-- The fold keeps what is there already, and adds items in their order. -/
theorem foldl_firstByKey_sublist (xs out : List α) :
    (xs.foldl (fun out x => if out.any fun y => key y == key x then out else out ++ [x]) out).Sublist (out ++ xs) := by
  induction xs generalizing out with
  | nil =>
    rw [List.append_nil]
    exact List.Sublist.refl out
  | cons x xs ih =>
    rw [List.foldl_cons]
    split
    · exact (ih out).trans (List.Sublist.append_left (List.sublist_cons_self x xs) out)
    · have h := ih (out ++ [x])
      rwa [List.append_assoc, List.singleton_append] at h

/-- What is kept is in the order of the items. -/
theorem firstByKey_sublist (xs : List α) : (firstByKey key xs).Sublist xs := foldl_firstByKey_sublist xs []

/-- What is kept is one of the items. -/
theorem mem_of_mem_firstByKey {xs : List α} {x : α} (h : x ∈ firstByKey key xs) : x ∈ xs := (firstByKey_sublist xs).mem h

/-- More items add to what is found, and take nothing of it away. -/
theorem firstByKey_append (xs ys : List α) : ∃ zs, firstByKey key (xs ++ ys) = firstByKey key xs ++ zs ∧ zs.Sublist ys := by
  suffices ∀ out : List α, ∃ zs,
      ys.foldl (fun out x => if out.any fun y => key y == key x then out else out ++ [x]) out = out ++ zs ∧ zs.Sublist ys by
    rw [firstByKey, List.foldl_append]
    exact this _
  intro out
  induction ys generalizing out with
  | nil => exact ⟨[], (List.append_nil out).symm, List.Sublist.refl []⟩
  | cons y ys ih =>
    rw [List.foldl_cons]
    split
    · obtain ⟨zs, h, hsub⟩ := ih out
      exact ⟨zs, h, hsub.cons y⟩
    · obtain ⟨zs, h, hsub⟩ := ih (out ++ [y])
      refine ⟨y :: zs, ?_, hsub.cons_cons y⟩
      rw [h, List.append_assoc, List.singleton_append]

/-- Items that are made of others are told apart by what these are. -/
theorem firstByKey_map {γ : Type} {key' : γ → β} {f : α → γ} (hkey : ∀ x, key' (f x) = key x) (xs : List α) :
    firstByKey key' (xs.map f) = (firstByKey key xs).map f := by
  refine foldl_nil_map (fun out x => ?_) xs
  have hany : ((out.map f).any fun y => key' y == key' (f x)) = out.any fun y => key y == key x := by
    rw [List.any_map]
    simp only [Function.comp_def, hkey]
  rw [hany, apply_ite (List.map f), List.map_append, List.map_singleton]

/-- A last item is kept if its key has not occurred before. -/
theorem firstByKey_concat (xs : List α) (x : α) : firstByKey key (xs ++ [x]) =
    if (firstByKey key xs).any fun y => key y == key x then firstByKey key xs else firstByKey key xs ++ [x] := by
  rw [firstByKey, List.foldl_append]
  rfl

variable [LawfulBEq β]

/-- The keys found so far differ, and an item is added only when its key is not among them. -/
theorem nodup_foldl_firstByKey (xs out : List α) (h : (out.map key).Nodup) :
    ((xs.foldl (fun out x => if out.any fun y => key y == key x then out else out ++ [x]) out).map key).Nodup := by
  induction xs generalizing out with
  | nil => exact h
  | cons x xs ih =>
    rw [List.foldl_cons]
    split
    · exact ih out h
    · rename_i hnew
      have hx : key x ∉ out.map key := by
        intro hmem
        obtain ⟨y, hy, e⟩ := List.mem_map.1 hmem
        exact hnew (List.any_eq_true.2 ⟨y, hy, beq_iff_eq.2 e⟩)
      refine ih _ ?_
      rw [List.map_append, List.map_singleton, List.nodup_append]
      refine ⟨h, List.nodup_cons.2 ⟨List.not_mem_nil, List.nodup_nil⟩, ?_⟩
      intro k hk k' hk' e
      rw [List.mem_singleton] at hk'
      exact hx (hk' ▸ e ▸ hk)

/-- No key is kept twice. -/
theorem nodup_firstByKey (xs : List α) : ((firstByKey key xs).map key).Nodup := nodup_foldl_firstByKey xs [] List.nodup_nil

/-- Looking for a key finds in the result what it finds in the items. -/
theorem find?_firstByKey (xs : List α) (k : β) : (firstByKey key xs).find? (fun y => key y == k) = xs.find? (fun y => key y == k) := by
  suffices ∀ out : List α,
      (xs.foldl (fun out x => if out.any fun y => key y == key x then out else out ++ [x]) out).find? (fun y => key y == k) =
        (out ++ xs).find? (fun y => key y == k) from this []
  intro out
  induction xs generalizing out with
  | nil => rw [List.append_nil, List.foldl_nil]
  | cons x xs ih =>
    rw [List.foldl_cons]
    split
    · rename_i hknown
      rw [ih, List.find?_append, List.find?_append, List.find?_cons]
      split
      · rename_i hx
        obtain ⟨y, hy, hkey⟩ := List.any_eq_true.1 hknown
        have hsome : (out.find? fun y => key y == k).isSome := by
          rw [List.find?_isSome]
          exact ⟨y, hy, beq_iff_eq.2 ((beq_iff_eq.1 hkey).trans (beq_iff_eq.1 hx))⟩
        obtain ⟨z, hz⟩ := Option.isSome_iff_exists.1 hsome
        rw [hz]
        rfl
      · rfl
    · rw [ih, List.append_assoc, List.singleton_append]

/-- Where no key occurs twice, an item is found by its key. -/
theorem find?_eq_some_of_mem {xs : List α} (h : (xs.map key).Nodup) {x : α} (hx : x ∈ xs) :
    xs.find? (fun y => key y == key x) = some x := by
  induction xs with
  | nil => nomatch hx
  | cons y ys ih =>
    rw [List.map_cons, List.nodup_cons] at h
    rcases List.mem_cons.1 hx with rfl | hx
    · rw [List.find?_cons, beq_self_eq_true]
    · have hne : (key y == key x) = false := beq_eq_false_iff_ne.2 fun e => h.1 (e ▸ List.mem_map_of_mem hx)
      rw [List.find?_cons, hne]
      exact ih h.2 hx

/-- What is kept is the first item of its key. -/
theorem mem_firstByKey_iff {xs : List α} {x : α} : x ∈ firstByKey key xs ↔ xs.find? (fun y => key y == key x) = some x := by
  rw [← find?_firstByKey]
  exact ⟨find?_eq_some_of_mem (nodup_firstByKey xs), List.mem_of_find?_eq_some⟩

/-- No key gets lost. -/
theorem key_mem_firstByKey {xs : List α} {x : α} (h : x ∈ xs) : ∃ y ∈ firstByKey key xs, key y = key x := by
  have hsome : ((firstByKey key xs).find? fun y => key y == key x).isSome := by
    rw [find?_firstByKey, List.find?_isSome]
    exact ⟨x, h, beq_self_eq_true _⟩
  obtain ⟨y, hy, hkey⟩ := List.find?_isSome.1 hsome
  exact ⟨y, hy, beq_iff_eq.1 hkey⟩

/-- Items are kept in the order in which their keys occur first: some item with the key of one that is kept stands before all items with
the key of a later one. -/
theorem pairwise_firstByKey (xs : List α) : (firstByKey key xs).Pairwise fun x y =>
    ∀ {before after : List α} {y' : α}, xs = before ++ y' :: after → key y' = key y → ∃ x' ∈ before, key x' = key x := by
  induction xs using List.reverseRecOn with
  | nil => exact .nil
  | append_singleton xs z ih =>
    have hknown : (firstByKey key xs).Pairwise fun x y =>
        ∀ {before after : List α} {y' : α}, xs ++ [z] = before ++ y' :: after → key y' = key y → ∃ x' ∈ before, key x' = key x := by
      refine ih.imp_of_mem fun {x y} hx _ hxy before after y' hsplit hkey => ?_
      rcases List.eq_nil_or_concat after with rfl | ⟨after, z', rfl⟩
      · obtain ⟨rfl, -⟩ := List.append_inj' hsplit rfl
        exact ⟨x, mem_of_mem_firstByKey hx, rfl⟩
      · have hsplit : xs ++ [z] = (before ++ y' :: after) ++ [z'] := by simpa using hsplit
        exact hxy (List.append_inj' hsplit rfl).1 hkey
    rw [firstByKey_concat]
    split
    · exact hknown
    · rename_i hnew
      refine List.pairwise_append.2 ⟨hknown, List.pairwise_singleton _ z, fun x hx y hy before after y' hsplit hkey => ?_⟩
      obtain rfl := List.mem_singleton.1 hy
      rcases List.eq_nil_or_concat after with rfl | ⟨after, z', rfl⟩
      · obtain ⟨rfl, -⟩ := List.append_inj' hsplit rfl
        exact ⟨x, mem_of_mem_firstByKey hx, rfl⟩
      · have hsplit : xs ++ [y] = (before ++ y' :: after) ++ [z'] := by simpa using hsplit
        have hxs : xs = before ++ y' :: after := (List.append_inj' hsplit rfl).1
        have hmem : y' ∈ xs := hxs ▸ List.mem_append_right before List.mem_cons_self
        obtain ⟨y₁, hy₁, hkey₁⟩ : ∃ y₁ ∈ firstByKey key xs, key y₁ = key y' := key_mem_firstByKey hmem
        exact (hnew (List.any_eq_true.2 ⟨y₁, hy₁, beq_iff_eq.2 (hkey₁.trans hkey)⟩)).elim

end FirstByKey

section FirstByName

variable {entities : List Entity}

/-- A table of names is made of the first entities by name. -/
theorem firstByName_eq : firstByName entities = (firstByKey (·.name) entities).map fun e => (e.name, e) := by
  refine Eq.trans (congrArg firstByName (List.map_id entities).symm) (foldl_nil_map (fun out e => ?_) entities)
  rw [List.any_map, apply_ite (List.map _), List.map_append, List.map_singleton]
  rfl

/-- A name stands for the first entity that bears it. -/
theorem target?_firstByName (name : String) : target? (firstByName entities) name = entities.find? fun e => e.name == name := by
  rw [← find?_firstByKey, target?, firstByName_eq, List.find?_map, Option.map_map]
  exact congrFun Option.map_id _

/-- The names of a table are those of its entities. -/
theorem mem_map_firstByName {name : String} : name ∈ (firstByName entities).map (·.1) ↔ ∃ e ∈ entities, e.name = name := by
  have hnames : (firstByName entities).map (·.1) = (firstByKey (·.name) entities).map (·.name) := by
    rw [firstByName_eq, List.map_map]
    rfl
  rw [hnames, List.mem_map]
  constructor
  · rintro ⟨e, he, hname⟩
    exact ⟨e, mem_of_mem_firstByKey he, hname⟩
  · rintro ⟨e, he, rfl⟩
    exact key_mem_firstByKey he

end FirstByName

/-- A caller has a body to look through if it is callable and that is not empty. -/
theorem callerBody?_eq_some_iff {c : Entity} {body : Text} : callerBody? c = some body ↔
    c.kind.isCallable = true ∧ ∃ b, c.body = some b ∧ b ≠ "" ∧ b.text = body := by
  unfold callerBody?
  cases c.body with
  | none => simp
  | some b => simp [and_assoc]

/-- What is found in the body of a caller is a call. -/
theorem isCall_of_mem_callsOf {pattern : Pattern} {table : List (String × Entity)} {caller : Entity} {callers : List Entity}
    {e : Edge} (hcaller : caller ∈ callers) (h : e ∈ callsOf pattern table caller) : e.IsCall callers := by
  unfold callsOf at h
  split at h
  · nomatch h
  · obtain ⟨name, -, hname⟩ := List.mem_filterMap.1 h
    split at hname
    · rename_i callee _
      split at hname
      · nomatch hname
      · rename_i hother
        cases hname
        exact ⟨⟨caller, hcaller, rfl, rfl⟩, fun e => hother (Or.inl e.symm), rfl, Binary64.inUnitInterval_one⟩
    · nomatch hname

/-- Every edge that is found within a file is a call between two of its entities. -/
theorem isCall_of_mem_withinFile {kinds : List EntityKind} {entities : List Entity} {e : Edge}
    (h : e ∈ withinFile kinds entities) : e.IsCall entities := by
  unfold withinFile at h
  dsimp only at h
  split at h
  · nomatch h
  · obtain ⟨caller, hcaller, hcall⟩ := List.mem_flatMap.1 (mem_of_mem_firstByKey h)
    exact isCall_of_mem_callsOf hcaller hcall

end Calls

end CodeAtlas
