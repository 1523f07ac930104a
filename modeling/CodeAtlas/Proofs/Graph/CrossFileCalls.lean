import CodeAtlas.Proofs.Graph.Structure
import CodeAtlas.Proofs.Import.KnownPaths
import CodeAtlas.Proofs.Source.CallSites
import CodeAtlas.Proofs.Source.Calls

/-!
# Calls that imports justify

A call between files is there exactly when an import justifies it: the import brings a name into scope, the first declaration of that
name is what the call leads to, and the name is called in the body of a function of the importing file. What is first does not depend on
the way in which declarations are gathered: it is first by file, then by line, then in the order of the entities.
-/

namespace CodeAtlas

section IsFirst

variable {α : Type}

/-- The first of the items with some property, by an order and then by their order in the list. -/
def IsFirst (lt : α → α → Prop) (P : α → Prop) (items : List α) (x : α) : Prop :=
  ∃ before after, items = before ++ x :: after ∧ P x ∧ (∀ y ∈ before, P y → lt x y) ∧ ∀ y ∈ after, P y → ¬lt y x

variable {lt lt' : α → α → Prop} {P P' : α → Prop} {items : List α} {x y : α}

/-- The first item is an item. -/
theorem IsFirst.mem (h : IsFirst lt P items x) : x ∈ items := by
  obtain ⟨before, after, rfl, -⟩ := h
  exact List.mem_append_right _ List.mem_cons_self

/-- The first item has the property. -/
theorem IsFirst.holds (h : IsFirst lt P items x) : P x := by
  obtain ⟨-, -, -, hx, -⟩ := h
  exact hx

/-- Only one item is first: another one would come after it in the order, and before it. -/
theorem IsFirst.unique (hx : IsFirst lt P items x) (hy : IsFirst lt P items y) : x = y := by
  obtain ⟨before, after, rfl, hPx, hbefore, hafter⟩ := hx
  obtain ⟨before', after', hsplit, hPy, hbefore', hafter'⟩ := hy
  rcases List.append_eq_append_iff.1 hsplit with ⟨between, rfl, hrest⟩ | ⟨between, rfl, hrest⟩
  · cases between with
    | nil => exact (List.cons.inj hrest).1
    | cons z between =>
      obtain ⟨rfl, hlater⟩ := List.cons.inj hrest
      exact absurd (hbefore' x (by simp) hPx) (hafter y (by simp [hlater]) hPy)
  · cases between with
    | nil => exact (List.cons.inj hrest).1.symm
    | cons z between =>
      obtain ⟨rfl, hlater⟩ := List.cons.inj hrest
      exact absurd (hbefore y (by simp) hPy) (hafter' x (by simp [hlater]) hPx)

/-- Items that come later anyway make no difference. -/
theorem IsFirst.of_filter {p : α → Bool} (h : IsFirst lt P (items.filter p) x)
    (hsame : ∀ y ∈ items, p y = true → (P' y → P y) ∧ (lt x y → lt' x y) ∧ (lt' y x → lt y x))
    (hlater : ∀ y ∈ items, p y = false → P' y → lt' x y ∧ ¬lt' y x) (hx : P' x) : IsFirst lt' P' items x := by
  obtain ⟨before, after, hsplit, -, hbefore, hafter⟩ := h
  obtain ⟨before', rest, rfl, rfl, hrest⟩ := List.filter_eq_append_iff.1 hsplit
  obtain ⟨skipped, after', rfl, hskipped, -, rfl⟩ := List.filter_eq_cons_iff.1 hrest
  refine ⟨before' ++ skipped, after', (List.append_assoc _ _ _).symm, hx, fun y hy hPy => ?_, fun y hy hPy => ?_⟩
  · have hitem : y ∈ before' ++ (skipped ++ x :: after') := by
      rw [← List.append_assoc]
      exact List.mem_append_left _ hy
    cases hpy : p y with
    | false => exact (hlater y hitem hpy hPy).1
    | true =>
      rcases List.mem_append.1 hy with hy | hy
      · exact (hsame y hitem hpy).2.1 (hbefore y (List.mem_filter.2 ⟨hy, hpy⟩) ((hsame y hitem hpy).1 hPy))
      · exact absurd hpy (hskipped y hy)
  · have hitem : y ∈ before' ++ (skipped ++ x :: after') :=
      List.mem_append_right _ (List.mem_append_right _ (List.mem_cons_of_mem x hy))
    cases hpy : p y with
    | false => exact (hlater y hitem hpy hPy).2
    | true =>
      exact fun hlt => hafter y (List.mem_filter.2 ⟨hy, hpy⟩) ((hsame y hitem hpy).1 hPy) ((hsame y hitem hpy).2.2 hlt)

/-- Sorting keeps the order of items with one key, so the first of the sorted items is the first by key and then in the list. -/
theorem isFirst_of_find?_mergeSort {key : α → Int} {p : α → Bool}
    (h : (items.mergeSort fun a b => decide (key a ≤ key b)).find? p = some x) :
    IsFirst (fun a b => key a < key b) (fun y => p y = true) items x := by
  have htrans : ∀ a b c : α, decide (key a ≤ key b) = true → decide (key b ≤ key c) = true → decide (key a ≤ key c) = true := by
    intro a b c hab hbc
    rw [decide_eq_true_eq] at hab hbc ⊢
    exact Int.le_trans hab hbc
  have htotal : ∀ a b : α, (decide (key a ≤ key b) || decide (key b ≤ key a)) = true := by
    intro a b
    simpa using Int.le_total (key a) (key b)
  induction items with
  | nil =>
    rw [List.mergeSort_nil] at h
    nomatch h
  | cons a items ih =>
    have hsorted := List.pairwise_mergeSort htrans htotal (a :: items)
    obtain ⟨l₁, l₂, hcons, hitems, hless⟩ := List.mergeSort_cons htrans htotal a items
    rw [hcons] at h hsorted
    rw [List.find?_append] at h
    cases hfirst : l₁.find? p with
    | some y =>
      rw [hfirst, Option.some_or] at h
      obtain rfl := Option.some.inj h
      have hrest : (items.mergeSort fun a b => decide (key a ≤ key b)).find? p = some y := by
        rw [hitems, List.find?_append, hfirst, Option.some_or]
      obtain ⟨before, after, rfl, hpy, hbefore, hafter⟩ := ih hrest
      have hlt : key y < key a := by simpa using hless y (List.mem_of_find?_eq_some hfirst)
      exact ⟨a :: before, after, rfl, hpy, List.forall_mem_cons.2 ⟨fun _ => hlt, hbefore⟩, hafter⟩
    | none =>
      rw [hfirst, Option.none_or, List.find?_cons] at h
      cases hpa : p a with
      | false =>
        rw [hpa] at h
        have hrest : (items.mergeSort fun a b => decide (key a ≤ key b)).find? p = some x := by
          rw [hitems, List.find?_append, hfirst, Option.none_or]
          exact h
        obtain ⟨before, after, rfl, hpx, hbefore, hafter⟩ := ih hrest
        have ha : p a = true → key x < key a := fun hp => absurd (hpa.symm.trans hp) Bool.false_ne_true
        exact ⟨a :: before, after, rfl, hpx, List.forall_mem_cons.2 ⟨ha, hbefore⟩, hafter⟩
      | true =>
        rw [hpa] at h
        obtain rfl := Option.some.inj h
        refine ⟨[], items, rfl, hpa, nofun, fun y hy hpy => Int.not_lt.2 ?_⟩
        have hy : y ∈ l₁ ++ l₂ := hitems ▸ List.mem_mergeSort.2 hy
        rcases List.mem_append.1 hy with hy | hy
        · exact absurd hpy (List.find?_eq_none.1 hfirst y hy)
        · exact of_decide_eq_true ((List.pairwise_cons.1 (List.pairwise_append.1 hsorted).2.1).1 y hy)

end IsFirst

namespace CrossFile

/-- A file that an id can stand for: one that an entity lies in or that the workspace has. -/
def HasPath (known : KnownPaths) (entities : List Entity) (p : String) : Prop :=
  (∃ e ∈ entities, e.filePath = p) ∨ p ∈ known.files

/-- The ids of these files are told apart. -/
def FilesApart (repoId : String) (known : KnownPaths) (entities : List Entity) : Prop :=
  ∀ p q, HasPath known entities p → HasPath known entities q → Identity.file repoId p = Identity.file repoId q → p = q

/-- A file directly in a directory. -/
def LiesIn (known : KnownPaths) (dir p : String) : Prop :=
  Path.dirname p = dir ∨ (p ∈ known.files ∧ ∃ name : String, '/' ∉ name.text ∧ p = dir ++ "/" ++ name)

/-- A file that an import leads to: the one that the id of its end stands for, or else the path that it records or, when this is a
directory, a file directly in it. -/
def LeadsTo (repoId : String) (known : KnownPaths) (entities : List Entity) (via : Edge) (p : String) : Prop :=
  (HasPath known entities p ∧ Identity.file repoId p = via.toId) ∨
    (∀ q, HasPath known entities q → Identity.file repoId q ≠ via.toId) ∧
      ∃ recorded, Json.field? "target_path" via.metadata = some (.str recorded) ∧
        if (Json.field? "target_is_directory" via.metadata).any Json.isTruthy then LiesIn known recorded p else p = recorded

/-- An import whose target is known by its id, or that records no empty path for it. -/
def HasTarget (repoId : String) (known : KnownPaths) (entities : List Entity) (via : Edge) : Prop :=
  (∃ q, HasPath known entities q ∧ Identity.file repoId q = via.toId) ∨ Json.field? "target_path" via.metadata ≠ some (.str "")

variable {repoId : String} {known : KnownPaths} {entities : List Entity} {via : Edge}

namespace Index

/-- The paths of an index are those of its entities. -/
theorem mem_paths {p : String} : p ∈ (ofEntities repoId known entities).paths ↔ ∃ e ∈ entities, e.filePath = p := by
  rw [ofEntities, List.mem_mergeSort, List.mem_eraseDups, List.mem_map]

theorem mem_fileOfId {x : String × String} :
    x ∈ (ofEntities repoId known entities).fileOfId ↔ ∃ p, HasPath known entities p ∧ (Identity.file repoId p, p) = x := by
  simp only [ofEntities, List.mem_map, List.mem_eraseDups, List.mem_append, List.mem_mergeSort, HasPath]

/-- A path that an id leads to occurs, and has that id. -/
theorem exists_of_file? {id p : String} (h : (ofEntities repoId known entities).file? id = some p) :
    HasPath known entities p ∧ Identity.file repoId p = id := by
  obtain ⟨⟨id', p'⟩, hfind, rfl⟩ := Option.map_eq_some_iff.1 h
  obtain ⟨q, hq, hpair⟩ := mem_fileOfId.1 (List.mem_of_find?_eq_some hfind)
  obtain ⟨rfl, rfl⟩ := Prod.mk.inj hpair
  exact ⟨hq, beq_iff_eq.1 (List.find?_some (p := fun x : String × String => x.1 == id) hfind)⟩

/-- Every file of the index has an id that stands for a file. -/
theorem isSome_file? (repoId : String) {p : String} (h : HasPath known entities p) :
    ((ofEntities repoId known entities).file? (Identity.file repoId p)).isSome = true := by
  rw [file?, Option.isSome_map, List.find?_isSome]
  exact ⟨(Identity.file repoId p, p), mem_fileOfId.2 ⟨p, h, rfl⟩, beq_self_eq_true _⟩

/-- When ids are told apart, an id stands for the file that has it. -/
theorem file?_eq_some_iff (apart : FilesApart repoId known entities) {id p : String} :
    (ofEntities repoId known entities).file? id = some p ↔ HasPath known entities p ∧ Identity.file repoId p = id := by
  refine ⟨exists_of_file?, ?_⟩
  rintro ⟨hp, rfl⟩
  obtain ⟨q, hq⟩ := Option.isSome_iff_exists.1 (isSome_file? repoId hp)
  obtain ⟨hpath, hid⟩ := exists_of_file? hq
  rw [hq, apart q p hpath hp hid]

/-- An id leads nowhere exactly if no path that occurs has it. -/
theorem file?_eq_none_iff {id : String} : (ofEntities repoId known entities).file? id = none ↔
    ∀ q, HasPath known entities q → Identity.file repoId q ≠ id := by
  constructor
  · rintro h q hq rfl
    have hsome := isSome_file? repoId hq
    rw [h] at hsome
    nomatch hsome
  · intro h
    refine Option.eq_none_iff_forall_ne_some.2 fun p hp => ?_
    exact h p (exists_of_file? hp).1 (exists_of_file? hp).2

/-- The index has the entities of a file under its path. -/
theorem mem_inFile {p : String} {e : Entity} : e ∈ (ofEntities repoId known entities).inFile p ↔ e ∈ entities ∧ e.filePath = p := by
  rw [inFile, List.mem_filter, beq_iff_eq]
  rfl

/-- The index has the files of a directory under its path, as far as they have entities. -/
theorem mem_filesIn {dir p : String} (hdir : dir ≠ "") (hp : ∃ e ∈ entities, e.filePath = p) :
    p ∈ (ofEntities repoId known entities).filesIn dir ↔ LiesIn known dir p := by
  have hknown : (ofEntities repoId known entities).known = known := rfl
  rw [filesIn, List.mem_mergeSort, List.mem_eraseDups, List.mem_append, List.mem_filter, mem_paths, beq_iff_eq, hknown,
    KnownPaths.mem_filesIn hdir, or_comm, and_iff_right hp]
  rfl

/-- The files of a directory are in the order of their paths. -/
theorem pairwise_filesIn (x : Index) (dir : String) : (x.filesIn dir).Pairwise (· < ·) := by
  have hsorted : (x.filesIn dir).Pairwise fun a b => a ≤ b := pairwise_mergeSort_key (fun p => p) _
  have hnodup : (x.filesIn dir).Nodup := (List.mergeSort_perm _ _).nodup_iff.2 (nodup_eraseDups _)
  refine (hsorted.and hnodup).imp fun {a b} h => ?_
  exact String.not_le.1 fun hba => h.2 (String.le_antisymm h.1 hba)

/-- The files that an import leads to are those whose declarations are looked through. -/
theorem mem_targetFiles (apart : FilesApart repoId known entities) {p : String} (hp : ∃ e ∈ entities, e.filePath = p) :
    p ∈ (ofEntities repoId known entities).targetFiles via ↔
      HasTarget repoId known entities via ∧ LeadsTo repoId known entities via p := by
  unfold targetFiles
  cases hfile : (ofEntities repoId known entities).file? via.toId with
  | some q =>
    obtain ⟨hq, hid⟩ := exists_of_file? hfile
    dsimp only
    rw [List.mem_singleton]
    constructor
    · rintro rfl
      exact ⟨Or.inl ⟨p, hq, hid⟩, Or.inl ⟨hq, hid⟩⟩
    · rintro ⟨-, ⟨hpath, hpid⟩ | ⟨hnone, -⟩⟩
      · exact apart p q hpath hq (hpid.trans hid.symm)
      · exact absurd hid (hnone q hq)
  | none =>
    have hnone := file?_eq_none_iff.1 hfile
    have htarget : HasTarget repoId known entities via ↔ Json.field? "target_path" via.metadata ≠ some (.str "") :=
      or_iff_right fun ⟨q, hq, hid⟩ => hnone q hq hid
    have hleads : LeadsTo repoId known entities via p ↔ ∃ recorded, Json.field? "target_path" via.metadata = some (.str recorded) ∧
        if (Json.field? "target_is_directory" via.metadata).any Json.isTruthy then LiesIn known recorded p else p = recorded := by
      unfold LeadsTo
      rw [or_iff_right fun ⟨hq, hid⟩ => hnone p hq hid, and_iff_right hnone]
    rw [htarget, hleads]
    dsimp only
    split
    · rename_i recorded hrecorded
      have hinj : ∀ {r}, Json.field? "target_path" via.metadata = some (.str r) ↔ r = recorded := by
        intro r
        rw [hrecorded, Option.some.injEq, Json.str.injEq, eq_comm]
      simp only [Ne, hinj, exists_eq_left]
      by_cases hempty : recorded = ""
      · simp [hempty]
      · rw [if_neg (by rwa [String.isEmpty_iff]), and_iff_right (Ne.symm hempty)]
        split
        · exact mem_filesIn hempty hp
        · exact List.mem_singleton
    · rename_i hother
      refine ⟨fun h => absurd h List.not_mem_nil, ?_⟩
      rintro ⟨-, recorded, hrecorded, -⟩
      exact absurd hrecorded (hother recorded)

/-- They are looked through in the order of their paths. -/
theorem pairwise_targetFiles (x : Index) (via : Edge) : (x.targetFiles via).Pairwise (· < ·) := by
  unfold targetFiles
  split
  · exact List.pairwise_singleton _ _
  · split
    · split
      · exact List.Pairwise.nil
      · split
        · exact pairwise_filesIn x _
        · exact List.pairwise_singleton _ _
    · exact List.Pairwise.nil

end Index

/-- A declaration that an import can name, and does. -/
structure Names (repoId : String) (known : KnownPaths) (entities : List Entity) (via : Edge) (t : Entity) : Prop where
  kind : t.kind ∈ targetKinds
  long : 2 ≤ t.name.length
  wanted : importsAll via = true ∨ t.name ∈ via.importedSymbols
  file : LeadsTo repoId known entities via t.filePath

/-- The order of declarations: by file, then by line. -/
def Precedes (t u : Entity) : Prop := t.filePath < u.filePath ∨ (t.filePath = u.filePath ∧ t.startLine < u.startLine)

/-- A call that an import justifies: from a function of the importing file, in whose body a name is called that the import brings into
scope, to the first declaration of that name. -/
structure Justified (repoId : String) (known : KnownPaths) (entities : List Entity) (via : Edge) (c t : Entity) : Prop where
  imports : via.kind = .imports
  internal : via.isExternal = false
  brings : via.importedSymbols ≠ [] ∨ importsAll via = true
  caller : c ∈ entities
  importer : Identity.file repoId c.filePath = via.fromId
  callable : c.kind.isCallable = true
  called : ∃ body, c.body = some body ∧ body ≠ "" ∧ Calls.CalledIn t.name body.text
  target : IsFirst Precedes (fun u => Names repoId known entities via u ∧ u.name = t.name) entities t
  other : t.id ≠ c.id

/-- Whether an import names a declaration, apart from the file that it is in. -/
def namesIt (via : Edge) (t : Entity) : Bool :=
  targetKinds.contains t.kind && decide (1 < t.name.length) && (importsAll via || via.importedSymbols.contains t.name)

/-- An import names a declaration if it brings its name and leads to its file. -/
theorem names_iff {t : Entity} :
    Names repoId known entities via t ↔ namesIt via t = true ∧ LeadsTo repoId known entities via t.filePath := by
  simp only [namesIt, Bool.and_eq_true, Bool.or_eq_true, List.contains_iff_mem, decide_eq_true_eq]
  exact ⟨fun h => ⟨⟨⟨h.kind, h.long⟩, h.wanted⟩, h.file⟩, fun h => ⟨h.1.1.1, h.1.1.2, h.1.2, h.2⟩⟩

/-- The declarations of the files that an import leads to, in the order in which they are looked through. -/
def declarations (repoId : String) (known : KnownPaths) (entities : List Entity) (via : Edge) : List Entity :=
  ((Index.ofEntities repoId known entities).targetFiles via).flatMap fun p =>
    ((Index.ofEntities repoId known entities).inFile p).mergeSort fun a b => decide (a.startLine ≤ b.startLine)

theorem scope_eq : scope (Index.ofEntities repoId known entities) via =
    Calls.firstByName ((declarations repoId known entities via).filter (namesIt via)) := rfl

/-- The declarations of an import are those of the files that it leads to. -/
theorem mem_declarations (apart : FilesApart repoId known entities) {t : Entity} : t ∈ declarations repoId known entities via ↔
    t ∈ entities ∧ HasTarget repoId known entities via ∧ LeadsTo repoId known entities via t.filePath := by
  simp only [declarations, List.mem_flatMap, List.mem_mergeSort, Index.mem_inFile]
  constructor
  · rintro ⟨p, hp, ht, rfl⟩
    exact ⟨ht, (Index.mem_targetFiles apart ⟨t, ht, rfl⟩).1 hp⟩
  · rintro ⟨ht, htarget⟩
    exact ⟨t.filePath, (Index.mem_targetFiles apart ⟨t, ht, rfl⟩).2 htarget, ht, rfl⟩

/-- The first declaration that is found is the first of the entities, by file, by line and then in their order. -/
theorem isFirst_of_find?_declarations (apart : FilesApart repoId known entities) {p : Entity → Bool} {t : Entity}
    (h : (declarations repoId known entities via).find? p = some t) :
    IsFirst Precedes (fun u => p u = true ∧ LeadsTo repoId known entities via u.filePath) entities t := by
  have hp : p t = true := List.find?_some h
  obtain ⟨ht, htarget, hleads⟩ := (mem_declarations apart).1 (List.mem_of_find?_eq_some h)
  rw [declarations, List.find?_flatMap, List.findSome?_eq_some_iff] at h
  obtain ⟨earlier, file, later, hfiles, hfind, hnone⟩ := h
  have hfirst := isFirst_of_find?_mergeSort hfind
  obtain ⟨-, rfl⟩ := Index.mem_inFile.1 hfirst.mem
  refine hfirst.of_filter (fun u _ hu => ⟨And.left, fun hlt => Or.inr ⟨(beq_iff_eq.1 hu).symm, hlt⟩, ?_⟩) (fun u hu hne hPu => ?_)
    ⟨hp, hleads⟩
  · rintro (hlt | ⟨-, hlt⟩)
    · rw [beq_iff_eq.1 hu] at hlt
      exact absurd hlt (String.lt_irrefl _)
    · exact hlt
  · have hne : u.filePath ≠ t.filePath := beq_eq_false_iff_ne.1 hne
    have hmem := (Index.mem_targetFiles apart ⟨u, hu, rfl⟩).2 ⟨htarget, hPu.2⟩
    have hsorted := (Index.ofEntities repoId known entities).pairwise_targetFiles via
    rw [hfiles] at hmem hsorted
    have hlt : t.filePath < u.filePath := by
      rcases List.mem_append.1 hmem with hmem | hmem
      · exact absurd hPu.1 (List.find?_eq_none.1 (hnone _ hmem) u (List.mem_mergeSort.2 (Index.mem_inFile.2 ⟨hu, rfl⟩)))
      · rcases List.mem_cons.1 hmem with hmem | hmem
        · exact absurd hmem hne
        · exact (List.pairwise_cons.1 (List.pairwise_append.1 hsorted).2.1).1 _ hmem
    refine ⟨Or.inl hlt, ?_⟩
    rintro (hgt | ⟨heq, -⟩)
    · exact String.lt_irrefl _ (String.lt_trans hlt hgt)
    · exact hne heq

/-- A name in the scope of an import leads to the first declaration with that name that is found. -/
theorem target?_scope (name : String) : Calls.target? (scope (Index.ofEntities repoId known entities) via) name =
    (declarations repoId known entities via).find? fun u => namesIt via u && u.name == name := by
  rw [scope_eq, Calls.target?_firstByName, List.find?_filter]
  simp only [Bool.decide_and, Bool.decide_eq_true]

/-- A name in scope stands for the first declaration of that name. -/
theorem target?_scope_eq_some_iff (apart : FilesApart repoId known entities) {name : String} {t : Entity} :
    Calls.target? (scope (Index.ofEntities repoId known entities) via) name = some t ↔
      HasTarget repoId known entities via ∧
        IsFirst Precedes (fun u => Names repoId known entities via u ∧ u.name = name) entities t := by
  have hpred : (fun u : Entity => (namesIt via u && u.name == name) = true ∧ LeadsTo repoId known entities via u.filePath) =
      fun u => Names repoId known entities via u ∧ u.name = name := by
    funext u
    rw [Bool.and_eq_true, beq_iff_eq, names_iff, and_right_comm]
  rw [target?_scope, ← hpred]
  constructor
  · intro h
    exact ⟨((mem_declarations apart).1 (List.mem_of_find?_eq_some h)).2.1, isFirst_of_find?_declarations apart h⟩
  · rintro ⟨htarget, hfirst⟩
    have hmem : t ∈ declarations repoId known entities via := (mem_declarations apart).2 ⟨hfirst.mem, htarget, hfirst.holds.2⟩
    have hsome := (List.find?_isSome (p := fun u : Entity => namesIt via u && u.name == name)).2 ⟨t, hmem, hfirst.holds.1⟩
    obtain ⟨t', ht'⟩ := Option.isSome_iff_exists.1 hsome
    rw [ht', (isFirst_of_find?_declarations apart ht').unique hfirst]

/-- A name is in the scope exactly if it leads to a declaration. -/
theorem mem_scope {name : String} : name ∈ (scope (Index.ofEntities repoId known entities) via).map (·.1) ↔
    ∃ t, Calls.target? (scope (Index.ofEntities repoId known entities) via) name = some t := by
  rw [scope_eq, Calls.mem_map_firstByName, Calls.target?_firstByName, ← Option.isSome_iff_exists, List.find?_isSome]
  simp only [beq_iff_eq]

/-- The calls of a function are those of the names in scope that it calls and that do not lead back to it. -/
theorem mem_callsOf {pattern : Pattern} {names : List (String × Entity)} {c : Entity} {a b : String} :
    (∃ call ∈ callsOf repoId via pattern names c, call.fromId = a ∧ call.toId = b) ↔ ∃ body t name,
      Calls.callerBody? c = some body ∧ name ∈ Calls.called pattern body ∧ Calls.target? names name = some t ∧ t.id ≠ c.id ∧
        c.id = a ∧ t.id = b := by
  unfold callsOf
  cases hbody : Calls.callerBody? c with
  | none => simp
  | some body =>
    constructor
    · rintro ⟨call, hcall, rfl, rfl⟩
      obtain ⟨name, hname, hedge⟩ := List.mem_filterMap.1 hcall
      cases htarget : Calls.target? names name with
      | none =>
        rw [htarget] at hedge
        nomatch hedge
      | some t =>
        rw [htarget] at hedge
        obtain ⟨hother, rfl⟩ := by simpa only [Option.ite_none_left_eq_some, Option.some.injEq] using hedge
        exact ⟨body, t, name, rfl, hname, htarget, hother, rfl, rfl⟩
    · rintro ⟨_, t, name, ⟨⟩, hname, htarget, hother, rfl, rfl⟩
      refine ⟨{ fromId := c.id, toId := t.id, kind := .calls, repoId, confidence := via.confidence,
                metadata := [("via_import", (Json.field? "specifier" via.metadata).getD (.str ""))] }, ?_, rfl, rfl⟩
      refine List.mem_filterMap.2 ⟨name, hname, ?_⟩
      rw [htarget]
      exact if_neg hother

/-- Without a body, or without names, no calls are found. -/
theorem callsOf_eq_nil {pattern : Pattern} {names : List (String × Entity)} {c : Entity}
    (h : Calls.callerBody? c = none ∨ names = []) : callsOf repoId via pattern names c = [] := by
  unfold callsOf
  rcases h with h | rfl
  · rw [h]
  · cases Calls.callerBody? c with
    | none => rfl
    | some body => exact List.filterMap_eq_nil_iff.2 fun _ _ => rfl

/-- What an import makes possible are the calls of the functions of the importing file. -/
theorem mem_callsThrough_iff {x : Index} {call : Edge} : call ∈ callsThrough repoId x via ↔
    bringsNames via = true ∧ ∃ importer, x.file? via.fromId = some importer ∧ importer ≠ "" ∧
      ∃ c ∈ x.inFile importer, call ∈ callsOf repoId via (site ((scope x via).map (·.1))) (scope x via) c := by
  unfold callsThrough
  cases bringsNames via with
  | false => simp
  | true =>
    cases x.file? via.fromId with
    | none => simp
    | some importer =>
      simp only [Bool.not_true, Bool.false_eq_true, if_false, true_and, Option.some.injEq, exists_eq_left']
      constructor
      · intro h
        split at h
        · nomatch h
        · rename_i hsome
          split at h
          · nomatch h
          · obtain ⟨c, hc, hcall⟩ := List.mem_flatMap.1 h
            rw [Bool.or_eq_true, not_or, String.isEmpty_iff] at hsome
            exact ⟨hsome.1, c, (List.mem_filter.1 hc).1, hcall⟩
      · rintro ⟨hne, c, hc, hcall⟩
        have hbody : (Calls.callerBody? c).isSome = true := by
          refine Option.isSome_iff_ne_none.2 fun hnone => ?_
          rw [callsOf_eq_nil (Or.inl hnone)] at hcall
          nomatch hcall
        have hnames : (scope x via).isEmpty = false := by
          refine eq_false_of_ne_true fun hempty => ?_
          rw [callsOf_eq_nil (Or.inr (List.isEmpty_iff.1 hempty))] at hcall
          nomatch hcall
        have hcaller : c ∈ (x.inFile importer).filter fun c => (Calls.callerBody? c).isSome := List.mem_filter.2 ⟨hc, hbody⟩
        rw [String.isEmpty_eq_false_iff.2 hne, List.isEmpty_eq_false_iff.2 (List.ne_nil_of_mem hcaller), hnames]
        exact List.mem_flatMap.2 ⟨c, hcaller, hcall⟩

theorem bringsNames_iff : bringsNames via = true ↔
    via.kind = .imports ∧ via.isExternal = false ∧ (via.importedSymbols ≠ [] ∨ importsAll via = true) := by
  simp [bringsNames, and_assoc]

/-- A name that an import brings is a word. -/
theorem isWord_of_names (words : ∀ e ∈ entities, ∀ c ∈ e.name.text, Text.isWordChar c = true) {t : Entity} (ht : t ∈ entities)
    (h : Names repoId known entities via t) : Calls.IsWord t.name := by
  refine ⟨?_, words t ht⟩
  intro hempty
  have hlong := h.long
  rw [hempty] at hlong
  exact absurd hlong (by decide)

/-- What an import makes possible is what it justifies, from a file with a path and to a target that is recorded. -/
theorem mem_callsThrough (words : ∀ e ∈ entities, ∀ c ∈ e.name.text, Text.isWordChar c = true)
    (apart : FilesApart repoId known entities) {a b : String} :
    (∃ call ∈ callsThrough repoId (Index.ofEntities repoId known entities) via, call.fromId = a ∧ call.toId = b) ↔
      HasTarget repoId known entities via ∧
        ∃ c t, Justified repoId known entities via c t ∧ c.filePath ≠ "" ∧ c.id = a ∧ t.id = b := by
  have hscope : ∀ name ∈ (scope (Index.ofEntities repoId known entities) via).map (·.1), Calls.IsWord name := by
    intro name hname
    obtain ⟨t, ht⟩ := mem_scope.1 hname
    obtain ⟨-, hfirst⟩ := (target?_scope_eq_some_iff apart).1 ht
    obtain ⟨hnames, rfl⟩ := hfirst.holds
    exact isWord_of_names words hfirst.mem hnames
  constructor
  · rintro ⟨call, hcall, rfl, rfl⟩
    obtain ⟨hbrings, importer, hfile, hpath, c, hc, hcall⟩ := mem_callsThrough_iff.1 hcall
    obtain ⟨himports, hinternal, hsymbols⟩ := bringsNames_iff.1 hbrings
    obtain ⟨hcaller, rfl⟩ := Index.mem_inFile.1 hc
    obtain ⟨body, t, name, hbody, hname, htarget, hother, hfrom, hto⟩ := mem_callsOf.1 ⟨call, hcall, rfl, rfl⟩
    obtain ⟨hhas, hfirst⟩ := (target?_scope_eq_some_iff apart).1 htarget
    obtain ⟨-, rfl⟩ := hfirst.holds
    obtain ⟨hcallable, b, hb, hne, rfl⟩ := Calls.callerBody?_eq_some_iff.1 hbody
    obtain ⟨-, hcalled⟩ := (Calls.mem_called_crossFileSite_iff hscope).1 hname
    exact ⟨hhas, c, t, ⟨himports, hinternal, hsymbols, hcaller, (Index.exists_of_file? hfile).2, hcallable, ⟨b, hb, hne, hcalled⟩,
      hfirst, hother⟩, hpath, hfrom, hto⟩
  · rintro ⟨hhas, c, t, h, hpath, hfrom, hto⟩
    obtain ⟨body, hbody, hne, hcalled⟩ := h.called
    have htarget := (target?_scope_eq_some_iff apart).2 ⟨hhas, h.target⟩
    have hname := (Calls.mem_called_crossFileSite_iff hscope).2 ⟨mem_scope.2 ⟨t, htarget⟩, hcalled⟩
    have hcaller := Calls.callerBody?_eq_some_iff.2 ⟨h.callable, body, hbody, hne, rfl⟩
    obtain ⟨call, hcall, hends⟩ := mem_callsOf.2 ⟨_, t, _, hcaller, hname, htarget, h.other, hfrom, hto⟩
    have hbrings := bringsNames_iff.2 ⟨h.imports, h.internal, h.brings⟩
    have himporter := (Index.file?_eq_some_iff apart).2 ⟨Or.inl ⟨c, h.caller, rfl⟩, h.importer⟩
    exact ⟨call, mem_callsThrough_iff.2 ⟨hbrings, c.filePath, himporter, hpath, c, Index.mem_inFile.2 ⟨h.caller, rfl⟩, hcall⟩, hends⟩

/-- The calls between files are those that some import justifies, where an empty path counts as none, and no pair of entities occurs
twice. -/
theorem crossFileCalls_justified (words : ∀ e ∈ entities, ∀ c ∈ e.name.text, Text.isWordChar c = true)
    (apart : FilesApart repoId known entities) (edges : List Edge) :
    ((crossFileCalls repoId known entities edges).map fun e => (e.fromId, e.toId)).Nodup ∧
      ∀ a b, (a, b) ∈ (crossFileCalls repoId known entities edges).map (fun e => (e.fromId, e.toId)) ↔
        ∃ via ∈ edges, HasTarget repoId known entities via ∧
          ∃ c t, Justified repoId known entities via c t ∧ c.filePath ≠ "" ∧ c.id = a ∧ t.id = b := by
  refine ⟨Calls.nodup_firstByKey _, fun a b => ?_⟩
  simp only [← mem_callsThrough words apart, crossFileCalls, List.mem_map, Prod.mk.injEq]
  constructor
  · rintro ⟨call, hcall, hends⟩
    obtain ⟨via, hvia, hcall⟩ := List.mem_flatMap.1 (Calls.mem_of_mem_firstByKey hcall)
    exact ⟨via, hvia, call, hcall, hends⟩
  · rintro ⟨via, hvia, call, hcall, rfl, rfl⟩
    have hkept : ∃ call' ∈ crossFileCalls repoId known entities edges, (call'.fromId, call'.toId) = (call.fromId, call.toId) :=
      Calls.key_mem_firstByKey (List.mem_flatMap.2 ⟨via, hvia, hcall⟩)
    obtain ⟨call', hcall', hkey⟩ := hkept
    exact ⟨call', hcall', Prod.mk.inj hkey⟩

/-- Whether files are told apart by their ids is decided by the paths that occur. -/
theorem filesApart_iff : FilesApart repoId known entities ↔
    ∀ p ∈ entities.map (·.filePath) ++ known.files, ∀ q ∈ entities.map (·.filePath) ++ known.files,
      Identity.file repoId p = Identity.file repoId q → p = q := by
  simp only [FilesApart, HasPath, List.mem_append, List.mem_map]
  exact ⟨fun h p hp q hq => h p q hp hq, fun h p q hp hq => h p hp q hq⟩

/-- A declaration whose name no other declaration bears is the first of its name. -/
theorem isFirst_of_name (before after : List Entity) {t : Entity} (ht : Names repoId known (before ++ t :: after) via t)
    (hnames : ∀ u ∈ before ++ after, u.name ≠ t.name) :
    IsFirst Precedes (fun u => Names repoId known (before ++ t :: after) via u ∧ u.name = t.name) (before ++ t :: after) t :=
  ⟨before, after, rfl, ⟨ht, rfl⟩, fun u hu h => absurd h.2 (hnames u (List.mem_append_left _ hu)),
    fun u hu h => absurd h.2 (hnames u (List.mem_append_right _ hu))⟩

/-- A declaration of the repository `r`. -/
def declaration (path : String) (kind : EntityKind) (name : String) (body : Option String := none) : Entity where
  id := Identity.entity "r" path kind.name name
  repoId := "r"
  kind := kind
  name := name
  filePath := path
  startLine := 1
  endLine := 1
  language := "python"
  body := body

/-- A function that makes an instance of a class, and the class. -/
def page : List Entity :=
  [declaration "src/app.ts" .function "main" (some "return new Widget (1);"), declaration "src/util.ts" .class_ "Widget"]

/-- The import of the class. -/
def widgetImport : Edge where
  fromId := Identity.file "r" "src/app.ts"
  toId := Identity.file "r" "src/util.ts"
  kind := .imports
  importedSymbols := ["Widget"]

/-- A function calls a class that its file imports. -/
theorem widget_called : (∀ e ∈ page, ∀ c ∈ e.name.text, Text.isWordChar c = true) ∧ FilesApart "r" .empty page ∧
    (Identity.entity "r" "src/app.ts" "function" "main", Identity.entity "r" "src/util.ts" "class" "Widget") ∈
      (crossFileCalls "r" .empty page [widgetImport]).map fun e => (e.fromId, e.toId) := by
  have hall : ∀ e ∈ page, e.name.text.all Text.isWordChar = true := by decide
  have words : ∀ e ∈ page, ∀ c ∈ e.name.text, Text.isWordChar c = true := fun e he => List.all_eq_true.1 (hall e he)
  have apart : FilesApart "r" .empty page := filesApart_iff.2 (by decide +kernel)
  have hutil : HasPath .empty page "src/util.ts" := Or.inl ⟨page[1], List.getElem_mem _, rfl⟩
  have hnames : Names "r" .empty page widgetImport page[1] :=
    ⟨by decide, by decide, Or.inr (by decide), Or.inl ⟨hutil, rfl⟩⟩
  have hcalled : Calls.CalledIn "Widget" "return new Widget (1);".text :=
    ⟨"return new ".text, "Widget (1);".text, rfl, rfl, " ".text, "1);".text, rfl, List.all_eq_true.1 rfl⟩
  have hjustified : Justified "r" .empty page widgetImport page[0] page[1] :=
    { imports := rfl
      internal := rfl
      brings := Or.inl (by decide)
      caller := List.getElem_mem _
      importer := rfl
      callable := rfl
      called := ⟨_, rfl, by decide, hcalled⟩
      target := isFirst_of_name [page[0]] [] hnames (by decide)
      other := by decide +kernel }
  exact ⟨words, apart, ((crossFileCalls_justified words apart [widgetImport]).2 _ _).2
    ⟨widgetImport, List.mem_singleton_self _, Or.inl ⟨_, hutil, rfl⟩, page[0], page[1], hjustified, by decide, rfl, rfl⟩⟩

/-- A call from a file without a path, and one of a function at the top of the workspace. -/
def pathless : List Entity :=
  [declaration "" .function "main" (some "helper()"), declaration "lib/util.py" .function "helper",
    declaration "app.py" .function "run" (some "parse()"), declaration "tool.py" .function "parse"]

/-- An import by the file without a path. -/
def helperImport : Edge where
  fromId := Identity.file "r" ""
  toId := Identity.file "r" "lib/util.py"
  kind := .imports
  importedSymbols := ["helper"]

/-- An import of everything at the top of the workspace. -/
def topImport : Edge where
  fromId := Identity.file "r" "app.py"
  toId := Identity.directory "r" ""
  kind := .imports
  metadata := [("target_path", .str ""), ("target_is_directory", .bool true), ("import_all", .bool true)]

/-- An empty path counts as none, as that of the importing file and as that of the directory that is imported. -/
theorem empty_paths_left_out : (∀ e ∈ pathless, ∀ c ∈ e.name.text, Text.isWordChar c = true) ∧ (pathless.map (·.id)).Nodup ∧
    FilesApart "r" .empty pathless ∧ Justified "r" .empty pathless helperImport pathless[0] pathless[1] ∧
      Justified "r" .empty pathless topImport pathless[2] pathless[3] ∧
        crossFileCalls "r" .empty pathless [helperImport, topImport] = [] := by
  have hall : ∀ e ∈ pathless, e.name.text.all Text.isWordChar = true := by decide
  have words : ∀ e ∈ pathless, ∀ c ∈ e.name.text, Text.isWordChar c = true := fun e he => List.all_eq_true.1 (hall e he)
  have apart : FilesApart "r" .empty pathless := filesApart_iff.2 (by decide +kernel)
  have hutil : HasPath .empty pathless "lib/util.py" := Or.inl ⟨pathless[1], List.getElem_mem _, rfl⟩
  have hhelper : Names "r" .empty pathless helperImport pathless[1] :=
    ⟨by decide, by decide, Or.inr (by decide), Or.inl ⟨hutil, rfl⟩⟩
  have htop : ∀ q, HasPath .empty pathless q → Identity.file "r" q ≠ topImport.toId := by
    rintro q (⟨e, he, rfl⟩ | hq)
    · exact (by decide +kernel : ∀ e ∈ pathless, Identity.file "r" e.filePath ≠ topImport.toId) e he
    · nomatch hq
  have hparse : Names "r" .empty pathless topImport pathless[3] :=
    ⟨by decide, by decide, Or.inl rfl, Or.inr ⟨htop, "", rfl, Or.inl rfl⟩⟩
  have hcalled : ∀ name : String, Calls.CalledIn name (name.text ++ "()".text) :=
    fun name => ⟨[], _, rfl, rfl, [], ")".text, rfl, nofun⟩
  have hmain : Justified "r" .empty pathless helperImport pathless[0] pathless[1] :=
    { imports := rfl
      internal := rfl
      brings := Or.inl (by decide)
      caller := List.getElem_mem _
      importer := rfl
      callable := rfl
      called := ⟨_, rfl, by decide, hcalled "helper"⟩
      target := isFirst_of_name [pathless[0]] [pathless[2], pathless[3]] hhelper (by decide)
      other := by decide +kernel }
  have hrun : Justified "r" .empty pathless topImport pathless[2] pathless[3] :=
    { imports := rfl
      internal := rfl
      brings := Or.inr rfl
      caller := List.getElem_mem _
      importer := rfl
      callable := rfl
      called := ⟨_, rfl, by decide, hcalled "parse"⟩
      target := isFirst_of_name [pathless[0], pathless[1], pathless[2]] [] hparse (by decide)
      other := by decide +kernel }
  refine ⟨words, by decide +kernel, apart, hmain, hrun, ?_⟩
  refine List.eq_nil_iff_forall_not_mem.2 fun call hcall => ?_
  obtain ⟨via, hvia, hcall⟩ := List.mem_flatMap.1 (Calls.mem_of_mem_firstByKey hcall)
  obtain ⟨htarget, c, t, h, hpath, -⟩ := (mem_callsThrough words apart).1 ⟨call, hcall, rfl, rfl⟩
  rcases List.mem_cons.1 hvia with rfl | hvia
  · exact hpath (apart c.filePath "" (Or.inl ⟨c, h.caller, rfl⟩) (Or.inl ⟨pathless[0], List.getElem_mem _, rfl⟩) h.importer)
  · obtain rfl := List.mem_singleton.1 hvia
    rcases htarget with ⟨q, hq, hid⟩ | hrecorded
    · exact htop q hq hid
    · exact hrecorded rfl

end CrossFile

end CodeAtlas
