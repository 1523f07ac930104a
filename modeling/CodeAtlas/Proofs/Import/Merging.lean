import CodeAtlas.Proofs.Graph.Structure
import CodeAtlas.Proofs.Import.Edges
import Mathlib.Data.List.Induction

/-!
# Imports of one target make one edge

The statements of a file are gathered into groups, one for each id that some of them lead to, in the order in which the ids first occur.
A group holds what the statements seen so far amount to: its target and line are those of the first of them, its symbols those of all
of them, each once, and its marks are one conjunction and one disjunction over them.
-/

namespace CodeAtlas

/-- The first occurrences of a list and one more element. -/
theorem eraseDups_concat {α : Type} [BEq α] [LawfulBEq α] (xs : List α) (x : α) :
    (xs ++ [x]).eraseDups = if x ∈ xs then xs.eraseDups else xs.eraseDups ++ [x] := by
  rw [List.eraseDups_append]
  split
  · rename_i h
    simp [List.removeAll, h]
  · rename_i h
    simp [List.removeAll, h, List.eraseDups_cons]

theorem Json.field?_append (name : String) (fields more : List (String × Json)) :
    field? name (fields ++ more) = (field? name fields).or (field? name more) := by
  simp only [field?, List.find?_append, Option.map_or]

namespace ImportStatement

variable (repoId filePath language : String) (resolve : Resolver)

/-- The id of what a statement leads to: a file or directory of the workspace, or the module of a package. A blank specifier leads nowhere,
nor does one that names the importing file. -/
def targetId? (s : ImportStatement) : Option String :=
  if s.target = "" then none
  else match resolve s.target with
    | some t =>
      if t.path = filePath then none
      else some (if t.isDirectory then Identity.directory repoId t.path else Identity.file repoId t.path)
    | none => some (Identity.externalModule repoId (Boundary.packageName s.target language))

/-- The id that a statement leads to is that of its end. -/
theorem targetId?_eq (s : ImportStatement) :
    s.targetId? repoId filePath language resolve = (ImportEnd.ofStatement repoId filePath language resolve s).map (·.toId) := by
  cases h : ImportEnd.ofStatement repoId filePath language resolve s with
  | none =>
    rw [ImportEnd.ofStatement_eq_none_iff] at h
    rcases h with h | ⟨t, ht, hpath⟩
    · simp [targetId?, h]
    · simp [targetId?, ht, hpath]
  | some e =>
    obtain ⟨hne, ⟨t, ht, hpath, rfl⟩ | ⟨hnone, rfl⟩⟩ := ImportEnd.ofStatement_eq_some_iff.1 h
    · simp [targetId?, hne, ht, hpath, ImportEnd.internal]
    · simp [targetId?, hne, hnone, ImportEnd.external]

end ImportStatement

/-- The edge of the imports of one target. The first of them decides where it leads and how it is classified. -/
structure Edge.Merges (repoId filePath language : String) (resolve : Resolver) (first : ImportStatement) (rest : List ImportStatement)
    (e : Edge) : Prop where
  source : e.fromId = Identity.file repoId filePath
  kind : e.kind = .imports
  repo : e.repoId = repoId
  /-- The symbols of all imports in the order in which they first occur. -/
  importedSymbols : e.importedSymbols = (((first :: rest).flatMap (·.symbols)).filter (· ≠ "")).eraseDups
  typeOnly : Json.field? "type_only" e.metadata = if ∀ s ∈ first :: rest, s.typeOnly = true then some (.bool true) else none
  importAll : Json.field? "import_all" e.metadata = if ∃ s ∈ first :: rest, s.importAll = true then some (.bool true) else none
  specifier : Json.field? "specifier" e.metadata = some (.str first.target)
  line : Json.field? "line" e.metadata = some (.int first.line)
  inside : ∀ t, resolve first.target = some t →
    e.isExternal = false ∧ e.packageName = none ∧ e.boundaryCategory = none ∧
      e.confidence = (if t.resolved then Binary64.one else Binary64.half) ∧
      Json.field? "target_path" e.metadata = some (.str t.path) ∧
      Json.field? "target_is_directory" e.metadata = some (.bool t.isDirectory)
  outside : resolve first.target = none →
    e.isExternal = true ∧ e.packageName = some (Boundary.packageName first.target language) ∧
      e.boundaryCategory = some (Boundary.classify first.target language) ∧ e.confidence = Binary64.one ∧
      Json.field? "stdlib" e.metadata = some (.bool (Boundary.isStandardLibrary first.target language))

namespace ImportGroup

/-! ## What a group holds -/

variable {g : ImportGroup} {target : ImportEnd} {s : ImportStatement} {gs : List ImportGroup}

/-- A further statement leaves the end of a group as it is. -/
theorem target_add (g : ImportGroup) (s : ImportStatement) : (g.add s).target = g.target := rfl

/-- So do many. -/
theorem target_foldl_add (ss : List ImportStatement) (g : ImportGroup) : (ss.foldl add g).target = g.target := by
  induction ss generalizing g with
  | nil => rfl
  | cons s ss ih => exact ih _

/-- Further statements leave the line of a group as it is. -/
theorem line_foldl_add (ss : List ImportStatement) (g : ImportGroup) : (ss.foldl add g).line = g.line := by
  induction ss generalizing g with
  | nil => rfl
  | cons s ss ih => exact ih _

/-- A group is for types only if all of its statements are. -/
theorem typeOnly_foldl_add (ss : List ImportStatement) (g : ImportGroup) :
    (ss.foldl add g).typeOnly = (g.typeOnly && ss.all (·.typeOnly)) := by
  induction ss generalizing g with
  | nil => simp
  | cons s ss ih => simp [ih, add, Bool.and_assoc]

/-- A group imports all if one of its statements does. -/
theorem importAll_foldl_add (ss : List ImportStatement) (g : ImportGroup) :
    (ss.foldl add g).importAll = (g.importAll || ss.any (·.importAll)) := by
  induction ss generalizing g with
  | nil => simp
  | cons s ss ih => simp [ih, add, Bool.or_assoc]

/-- Symbols are gathered one by one: an empty one or one that is there already changes nothing. -/
theorem gather_symbols (xs seen : List String) :
    xs.foldl (fun out x => if x.isEmpty || out.contains x then out else out ++ [x]) seen.eraseDups =
      (seen ++ xs.filter (· ≠ "")).eraseDups := by
  induction xs generalizing seen with
  | nil => simp
  | cons x xs ih =>
    by_cases hx : x = ""
    · simpa [hx] using ih seen
    · have hstep : (if x.isEmpty || seen.eraseDups.contains x then seen.eraseDups else seen.eraseDups ++ [x]) =
          (seen ++ [x]).eraseDups := by
        rw [eraseDups_concat]
        simp [hx]
      rw [List.foldl_cons, hstep, ih, List.filter_cons_of_pos (by simpa using hx), List.append_assoc, List.singleton_append]

/-- The symbols of a group are those of its statements, each once. -/
theorem symbols_foldl_add (ss : List ImportStatement) (seen : List String) (h : g.symbols = seen.eraseDups) :
    (ss.foldl add g).symbols = (seen ++ (ss.flatMap (·.symbols)).filter (· ≠ "")).eraseDups := by
  induction ss generalizing g seen with
  | nil => simpa using h
  | cons s ss ih =>
    have hadd : (g.add s).symbols = (seen ++ s.symbols.filter (· ≠ "")).eraseDups := by
      rw [← gather_symbols, ← h]
      rfl
    rw [List.foldl_cons, ih _ hadd, List.flatMap_cons, List.filter_append, List.append_assoc]

/-- The group of some statements, the first of them apart. -/
def ofStatements (target : ImportEnd) (first : ImportStatement) (rest : List ImportStatement) : ImportGroup :=
  (first :: rest).foldl add (start target first.line)

/-- A group has the end that it was made for. -/
theorem target_ofStatements (target : ImportEnd) (first : ImportStatement) (rest : List ImportStatement) :
    (ofStatements target first rest).target = target := target_foldl_add _ _

/-- A group with a last statement is the group without it and that statement added. -/
theorem ofStatements_concat (target : ImportEnd) (first : ImportStatement) (rest : List ImportStatement) (s : ImportStatement) :
    ofStatements target first (rest ++ [s]) = (ofStatements target first rest).add s := by
  rw [ofStatements, ← List.cons_append, List.foldl_append, ofStatements, List.foldl_cons, List.foldl_nil]

/-! ## The groups of the statements seen so far -/

/-- A statement that is inserted adds its end, unless there is a group for it. -/
theorem ids_insert (target : ImportEnd) (s : ImportStatement) (gs : List ImportGroup) :
    (insert target s gs).map (·.target.toId) =
      if target.toId ∈ gs.map (·.target.toId) then gs.map (·.target.toId) else gs.map (·.target.toId) ++ [target.toId] := by
  induction gs with
  | nil => rfl
  | cons x xs ih =>
    unfold insert
    by_cases h : x.target.toId = target.toId
    · simp [h, add]
    · have h' : ¬target.toId = x.target.toId := fun e => h e.symm
      simp only [h, if_false, List.map_cons, ih, List.mem_cons, h', false_or]
      split <;> rfl

/-- A group after an insertion leads elsewhere, or is the group of the target with the statement added, or a new one. -/
theorem mem_insert_cases (hids : (gs.map (·.target.toId)).Nodup) (h : g ∈ insert target s gs) :
    g ∈ gs ∧ g.target.toId ≠ target.toId ∨ (∃ g' ∈ gs, g'.target.toId = target.toId ∧ g = g'.add s) ∨
      target.toId ∉ gs.map (·.target.toId) ∧ g = ofStatements target s [] := by
  induction gs with
  | nil => exact Or.inr (Or.inr ⟨List.not_mem_nil, List.mem_singleton.1 h⟩)
  | cons x xs ih =>
    rw [List.map_cons, List.nodup_cons] at hids
    unfold insert at h
    split at h
    · rename_i hx
      rcases List.mem_cons.1 h with rfl | h
      · exact Or.inr (Or.inl ⟨x, List.mem_cons_self, hx, rfl⟩)
      · refine Or.inl ⟨List.mem_cons_of_mem x h, fun e => hids.1 ?_⟩
        rw [hx, ← e]
        exact List.mem_map_of_mem h
    · rename_i hx
      rcases List.mem_cons.1 h with rfl | h
      · exact Or.inl ⟨List.mem_cons_self, hx⟩
      · rcases ih hids.2 h with ⟨hg, hne⟩ | ⟨g', hg', he⟩ | ⟨hnew, he⟩
        · exact Or.inl ⟨List.mem_cons_of_mem x hg, hne⟩
        · exact Or.inr (Or.inl ⟨g', List.mem_cons_of_mem x hg', he⟩)
        · refine Or.inr (Or.inr ⟨?_, he⟩)
          rw [List.map_cons, List.mem_cons, not_or]
          exact ⟨fun e => hx e.symm, hnew⟩

end ImportGroup

section Grouping

variable {repoId filePath language : String} {resolve : Resolver}

/-- The groups of some statements: one for each id they lead to, in the order of first occurrence, and in each of them the statements that
lead to its id. -/
structure Grouped (repoId filePath language : String) (resolve : Resolver) (seen : List ImportStatement) (gs : List ImportGroup) :
    Prop where
  ids : gs.map (·.target.toId) = (seen.filterMap (ImportStatement.targetId? repoId filePath language resolve)).eraseDups
  groups : ∀ g ∈ gs, ∃ first rest,
    seen.filter (fun s => s.targetId? repoId filePath language resolve = some g.target.toId) = first :: rest ∧
      ImportEnd.ofStatement repoId filePath language resolve first = some g.target ∧ g = .ofStatements g.target first rest

variable {seen : List ImportStatement} {gs : List ImportGroup} {s : ImportStatement}

/-- A statement that leads nowhere changes no group. -/
theorem Grouped.skip (h : Grouped repoId filePath language resolve seen gs)
    (hs : ImportEnd.ofStatement repoId filePath language resolve s = none) :
    Grouped repoId filePath language resolve (seen ++ [s]) gs := by
  have hnone : s.targetId? repoId filePath language resolve = none := by
    rw [ImportStatement.targetId?_eq, hs]
    rfl
  refine ⟨?_, ?_⟩
  · simpa [hnone] using h.ids
  · intro g hg
    simpa [hnone] using h.groups g hg

/-- A statement is grouped by its end. -/
theorem Grouped.insert (h : Grouped repoId filePath language resolve seen gs) {t : ImportEnd}
    (ht : ImportEnd.ofStatement repoId filePath language resolve s = some t) :
    Grouped repoId filePath language resolve (seen ++ [s]) (ImportGroup.insert t s gs) := by
  have hsome : s.targetId? repoId filePath language resolve = some t.toId := by
    rw [ImportStatement.targetId?_eq, ht]
    rfl
  have hids : (gs.map (·.target.toId)).Nodup := by
    rw [h.ids]
    exact nodup_eraseDups _
  refine ⟨?_, ?_⟩
  · rw [ImportGroup.ids_insert, h.ids, List.filterMap_append, List.filterMap_cons_some hsome, List.filterMap_nil, eraseDups_concat]
    simp only [List.mem_eraseDups]
  · intro g hg
    rcases ImportGroup.mem_insert_cases hids hg with ⟨hg, hne⟩ | ⟨g, hg', he, rfl⟩ | ⟨hnew, rfl⟩
    · obtain ⟨first, rest, hfilter, hfirst, hgroup⟩ := h.groups g hg
      refine ⟨first, rest, ?_, hfirst, hgroup⟩
      simp [List.filter_append, hfilter, hsome, hne.symm]
    · obtain ⟨first, rest, hfilter, hfirst, hgroup⟩ := h.groups g hg'
      rw [ImportGroup.target_add]
      refine ⟨first, rest ++ [s], ?_, hfirst, ?_⟩
      · rw [he] at hfilter ⊢
        simp [List.filter_append, hfilter, hsome]
      · rw [ImportGroup.ofStatements_concat, ← hgroup]
    · rw [ImportGroup.target_ofStatements]
      refine ⟨s, [], ?_, ht, rfl⟩
      have hunseen : ∀ x ∈ seen, x.targetId? repoId filePath language resolve ≠ some t.toId := by
        intro x hx e
        refine hnew ?_
        rw [h.ids, List.mem_eraseDups]
        exact List.mem_filterMap.2 ⟨x, hx, e⟩
      rw [List.filter_append, List.filter_eq_nil_iff.2 fun x hx => by simpa using hunseen x hx]
      simp [hsome]

/-- The groups of a list are those without its last statement, and that one inserted. -/
theorem importGroups_concat_of_some (seen : List ImportStatement) {t : ImportEnd}
    (h : ImportEnd.ofStatement repoId filePath language resolve s = some t) :
    importGroups repoId filePath language resolve (seen ++ [s]) =
      ImportGroup.insert t s (importGroups repoId filePath language resolve seen) := by
  unfold importGroups
  rw [List.foldl_append, List.foldl_cons, List.foldl_nil, h]

/-- A last statement that leads nowhere adds nothing. -/
theorem importGroups_concat_of_none (seen : List ImportStatement)
    (h : ImportEnd.ofStatement repoId filePath language resolve s = none) :
    importGroups repoId filePath language resolve (seen ++ [s]) = importGroups repoId filePath language resolve seen := by
  unfold importGroups
  rw [List.foldl_append, List.foldl_cons, List.foldl_nil, h]

/-- Statement by statement the groups stay those of the statements seen so far. -/
theorem grouped_importGroups (statements : List ImportStatement) :
    Grouped repoId filePath language resolve statements (importGroups repoId filePath language resolve statements) := by
  induction statements using List.reverseRecOn with
  | nil => exact ⟨rfl, fun g hg => absurd hg List.not_mem_nil⟩
  | append_singleton seen s ih =>
    cases h : ImportEnd.ofStatement repoId filePath language resolve s with
    | some t =>
      rw [importGroups_concat_of_some seen h]
      exact ih.insert h
    | none =>
      rw [importGroups_concat_of_none seen h]
      exact ih.skip h

/-- The fields of an edge's metadata are those of its end, the line, and the marks that are set. -/
theorem ImportGroup.field?_toEdge (g : ImportGroup) (repoId fromId name : String) :
    Json.field? name (g.toEdge repoId fromId).metadata =
      (Json.field? name g.target.metadata).or ((if name = "line" then some (.int g.line) else none).or
        ((if name = "type_only" ∧ g.typeOnly = true then some (.bool true) else none).or
          (if name = "import_all" ∧ g.importAll = true then some (.bool true) else none))) := by
  have hsingle : ∀ (key : String) (value : Json), Json.field? name [(key, value)] = if name = key then some value else none := by
    intro key value
    by_cases h : name = key
    · simp [Json.field?, h]
    · have h' : (key == name) = false := beq_false_of_ne fun e => h e.symm
      simp [Json.field?, h, h']
  have hmark : ∀ (mark : Bool) (key : String), Json.field? name (if mark then [(key, .bool true)] else []) =
      if name = key ∧ mark = true then some (.bool true) else none := by
    intro mark key
    cases mark with
    | false => simp [Json.field?]
    | true => simp [hsingle]
  rw [toEdge, Json.field?_append, Json.field?_append, Json.field?_append, hsingle, hmark, hmark, Option.or_assoc, Option.or_assoc]

/-- The edge of a group says what its statements amount to. No end has a field with the name of the line or of a mark. -/
theorem merges_toEdge {first : ImportStatement} (rest : List ImportStatement) {t : ImportEnd}
    (h : ImportEnd.ofStatement repoId filePath language resolve first = some t) :
    ((ImportGroup.ofStatements t first rest).toEdge repoId (Identity.file repoId filePath)).Merges repoId filePath language resolve first
      rest := by
  have htarget : (ImportGroup.ofStatements t first rest).target = t := ImportGroup.target_ofStatements t first rest
  have hline : (ImportGroup.ofStatements t first rest).line = first.line := ImportGroup.line_foldl_add _ _
  have hsymbols : (ImportGroup.ofStatements t first rest).symbols =
      (((first :: rest).flatMap (·.symbols)).filter (· ≠ "")).eraseDups := ImportGroup.symbols_foldl_add _ [] rfl
  have htypes : (ImportGroup.ofStatements t first rest).typeOnly = true ↔ ∀ s ∈ first :: rest, s.typeOnly = true := by
    rw [ImportGroup.ofStatements, ImportGroup.typeOnly_foldl_add]
    simp [ImportGroup.start]
  have hall : (ImportGroup.ofStatements t first rest).importAll = true ↔ ∃ s ∈ first :: rest, s.importAll = true := by
    rw [ImportGroup.ofStatements, ImportGroup.importAll_foldl_add]
    simp [ImportGroup.start]
  generalize ImportGroup.ofStatements t first rest = g at *
  have hfields : Json.field? "line" t.metadata = none ∧ Json.field? "type_only" t.metadata = none ∧
      Json.field? "import_all" t.metadata = none ∧ Json.field? "specifier" t.metadata = some (.str first.target) := by
    obtain ⟨-, ⟨target, -, -, rfl⟩ | ⟨-, rfl⟩⟩ := ImportEnd.ofStatement_eq_some_iff.1 h
    · simp [ImportEnd.internal, Json.field?]
    · simp [ImportEnd.external, Json.field?]
  obtain ⟨hnoLine, hnoTypes, hnoAll, hspecifier⟩ := hfields
  refine ⟨rfl, rfl, rfl, hsymbols, ?_, ?_, ?_, ?_, ?_, ?_⟩
  · rw [ImportGroup.field?_toEdge, htarget, hnoTypes]
    simp [htypes]
  · rw [ImportGroup.field?_toEdge, htarget, hnoAll]
    simp [hall]
  · rw [ImportGroup.field?_toEdge, htarget, hspecifier]
    rfl
  · rw [ImportGroup.field?_toEdge, htarget, hnoLine, hline]
    rfl
  · intro p hp
    obtain ⟨-, ⟨p', hp', -, rfl⟩ | ⟨hnone, -⟩⟩ := ImportEnd.ofStatement_eq_some_iff.1 h
    · obtain rfl := Option.some.inj (hp.symm.trans hp')
      simp only [ImportGroup.field?_toEdge, htarget]
      simp [ImportGroup.toEdge, htarget, ImportEnd.internal, Json.field?]
    · rw [hnone] at hp
      nomatch hp
  · intro hnone
    obtain ⟨-, ⟨p, hp, -⟩ | ⟨-, rfl⟩⟩ := ImportEnd.ofStatement_eq_some_iff.1 h
    · rw [hnone] at hp
      nomatch hp
    · simp only [ImportGroup.field?_toEdge, htarget]
      simp [ImportGroup.toEdge, htarget, ImportEnd.external, Json.field?]

/-- The import edges of a file are one for each id that its statements lead to, in the order in which the ids first occur, and each of them
merges the statements that lead to its id. -/
theorem importEdges_merge (repoId filePath language : String) (resolve : Resolver) (statements : List ImportStatement) :
    let targetId? := ImportStatement.targetId? repoId filePath language resolve
    let edges := importEdges repoId filePath language resolve statements
    edges.map (·.toId) = (statements.filterMap targetId?).eraseDups ∧
      ∀ e ∈ edges, ∃ first rest, statements.filter (fun s => targetId? s = some e.toId) = first :: rest ∧
        e.Merges repoId filePath language resolve first rest := by
  intro targetId? edges
  have h : Grouped repoId filePath language resolve statements _ := grouped_importGroups statements
  have hedges : edges = (importGroups repoId filePath language resolve statements).map
      (ImportGroup.toEdge repoId (Identity.file repoId filePath)) := importEdges_eq
  refine ⟨?_, ?_⟩
  · rw [← h.ids, hedges, List.map_map]
    rfl
  · intro e he
    rw [hedges] at he
    obtain ⟨g, hg, rfl⟩ := List.mem_map.1 he
    obtain ⟨first, rest, hfilter, hfirst, hgroup⟩ := h.groups g hg
    refine ⟨first, rest, hfilter, ?_⟩
    rw [hgroup]
    exact merges_toEdge rest hfirst

end Grouping

end CodeAtlas
