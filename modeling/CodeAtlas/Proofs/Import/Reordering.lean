import CodeAtlas.Proofs.Import.Merging
import Mathlib.Data.Set.Defs

/-!
# Imports in another order

The imports of a package make one edge. Its symbols and marks are gathered from all of them and stay the same in any order. The name and the
category of the package are read off the first import alone, so they stay the same in every order exactly if all imports of the package
agree on them. Categories are given to specifiers and not to packages, and imports of one package need not agree.
-/

namespace CodeAtlas

/-- What an import edge tells of all imports of its target together. -/
structure ImportFacts where
  toId : String
  symbols : Set String
  typeOnly : Option Json
  importAll : Option Json

/-- The facts that an edge of the graph states about an import. -/
def Edge.importFacts (e : Edge) : ImportFacts where
  toId := e.toId
  symbols := {x | x ∈ e.importedSymbols}
  typeOnly := Json.field? "type_only" e.metadata
  importAll := Json.field? "import_all" e.metadata

/-- What is read off some edges, in whatever order they stand. -/
def Edge.told {γ : Type} (read : Edge → γ) (edges : List Edge) : Set γ := {x | ∃ e ∈ edges, read e = x}

/-- Two imports of one module. -/
def ImportStatement.SameModule (repoId language : String) (s t : ImportStatement) : Prop :=
  s.target ≠ "" ∧ t.target ≠ "" ∧ Identity.externalModule repoId (Boundary.packageName s.target language) =
    Identity.externalModule repoId (Boundary.packageName t.target language)

section Order

variable (repoId filePath language : String) (resolve : Resolver)

/-- The statements that lead to an id. -/
def ImportStatement.leadingTo (id : String) (statements : List ImportStatement) : List ImportStatement :=
  statements.filter fun s => s.targetId? repoId filePath language resolve = some id

/-- What the statements that lead to an id amount to. -/
def ImportFacts.ofStatements (statements : List ImportStatement) (id : String) : ImportFacts where
  toId := id
  symbols := {x | x ≠ "" ∧ ∃ s ∈ statements, s.targetId? repoId filePath language resolve = some id ∧ x ∈ s.symbols}
  typeOnly :=
    if ∀ s ∈ statements, s.targetId? repoId filePath language resolve = some id → s.typeOnly = true then some (.bool true) else none
  importAll :=
    if ∃ s ∈ statements, s.targetId? repoId filePath language resolve = some id ∧ s.importAll = true then some (.bool true) else none

variable {repoId filePath language resolve} {statements reordered : List ImportStatement} {s : ImportStatement} {id : String} {e : Edge}

open ImportStatement (leadingTo)

/-- The statements that lead to a target are those whose target it is. -/
theorem ImportStatement.mem_leadingTo :
    s ∈ leadingTo repoId filePath language resolve id statements ↔
      s ∈ statements ∧ s.targetId? repoId filePath language resolve = some id := by
  rw [leadingTo, List.mem_filter, decide_eq_true_iff]

/-- A statement that leads to the target comes before the others that do. -/
theorem ImportStatement.leadingTo_cons (h : s.targetId? repoId filePath language resolve = some id) (ss : List ImportStatement) :
    leadingTo repoId filePath language resolve id (s :: ss) = s :: leadingTo repoId filePath language resolve id ss :=
  List.filter_cons_of_pos (decide_eq_true h)

theorem ImportFacts.ofStatements_congr (h : ∀ s, s ∈ reordered ↔ s ∈ statements) (id : String) :
    ofStatements repoId filePath language resolve reordered id = ofStatements repoId filePath language resolve statements id := by
  simp only [ofStatements, h]

/-- Every import edge merges the statements that lead to its id. -/
theorem exists_merges_of_mem_importEdges (h : e ∈ importEdges repoId filePath language resolve statements) :
    ∃ first rest, leadingTo repoId filePath language resolve e.toId statements = first :: rest ∧
      e.Merges repoId filePath language resolve first rest := by
  rw [importEdges_eq] at h
  obtain ⟨g, hg, rfl⟩ := List.mem_map.1 h
  obtain ⟨first, rest, hfilter, hfirst, hgroup⟩ := (grouped_importGroups statements).groups g hg
  refine ⟨first, rest, hfilter, ?_⟩
  rw [hgroup]
  exact merges_toEdge rest hfirst

/-- Every statement that leads somewhere has an edge. -/
theorem exists_mem_importEdges_of_targetId? (hs : s ∈ statements) (hid : s.targetId? repoId filePath language resolve = some id) :
    ∃ e ∈ importEdges repoId filePath language resolve statements, e.toId = id := by
  rw [ImportStatement.targetId?_eq] at hid
  obtain ⟨target, htarget, rfl⟩ := Option.map_eq_some_iff.1 hid
  obtain ⟨g, hg, htoId⟩ := exists_mem_importGroups_of_statement hs htarget
  exact ⟨_, importEdges_eq ▸ List.mem_map_of_mem hg, htoId⟩

/-- An edge of a file states the facts of the statements that lead to its target. -/
theorem importFacts_of_mem_importEdges (h : e ∈ importEdges repoId filePath language resolve statements) :
    e.importFacts = .ofStatements repoId filePath language resolve statements e.toId := by
  obtain ⟨first, rest, hfilter, hmerges⟩ := exists_merges_of_mem_importEdges h
  have hmem : ∀ s, s ∈ first :: rest ↔ s ∈ statements ∧ s.targetId? repoId filePath language resolve = some e.toId := by
    intro s
    rw [← hfilter, ImportStatement.mem_leadingTo]
  have hsymbols : ∀ x, x ∈ e.importedSymbols ↔
      x ≠ "" ∧ ∃ s ∈ statements, s.targetId? repoId filePath language resolve = some e.toId ∧ x ∈ s.symbols := by
    intro x
    rw [hmerges.importedSymbols, List.mem_eraseDups, List.mem_filter, List.mem_flatMap, decide_eq_true_iff, and_comm]
    simp only [hmem, and_assoc]
  unfold Edge.importFacts ImportFacts.ofStatements
  rw [hmerges.typeOnly, hmerges.importAll]
  simp only [hsymbols, hmem, and_imp, and_assoc]

/-- The first statement of an edge, and whatever is read off it. -/
theorem exists_first_of_mem_importEdges {γ : Type} (ofEdge : Edge → γ) (ofStatement : ImportStatement → γ)
    (hread : ∀ first ∈ statements, ∀ rest e, Edge.Merges repoId filePath language resolve first rest e → ofEdge e = ofStatement first)
    (hperm : reordered.Perm statements) (he : e ∈ importEdges repoId filePath language resolve reordered) :
    ∃ first rest, leadingTo repoId filePath language resolve e.toId reordered = first :: rest ∧
      first ∈ statements ∧ first.targetId? repoId filePath language resolve = some e.toId ∧ ofEdge e = ofStatement first := by
  obtain ⟨first, rest, hleading, hmerges⟩ := exists_merges_of_mem_importEdges he
  have hmem : first ∈ first :: rest := List.mem_cons_self
  rw [← hleading, ImportStatement.mem_leadingTo] at hmem
  have hstatement := hperm.mem_iff.1 hmem.1
  exact ⟨first, rest, hleading, hstatement, hmem.2, hread first hstatement rest e hmerges⟩

/-- Of what edges merge the order tells nothing. -/
theorem exists_importFacts_of_perm (h : reordered.Perm statements) (he : e ∈ importEdges repoId filePath language resolve reordered) :
    ∃ e' ∈ importEdges repoId filePath language resolve statements, e'.importFacts = e.importFacts := by
  obtain ⟨first, -, -, hfirst, hid, -⟩ := exists_first_of_mem_importEdges (fun _ => ()) (fun _ => ()) (fun _ _ _ _ _ => rfl) h he
  obtain ⟨e', he', htoId⟩ := exists_mem_importEdges_of_targetId? hfirst hid
  refine ⟨e', he', ?_⟩
  rw [importFacts_of_mem_importEdges he', importFacts_of_mem_importEdges he, htoId, ImportFacts.ofStatements_congr fun s => h.mem_iff]

/-- Two orders tell the same if edges that merge the same do. -/
theorem told_eq_of_perm {γ : Type} {read : Edge → γ} (hperm : reordered.Perm statements)
    (hread : ∀ e ∈ importEdges repoId filePath language resolve reordered, ∀ e' ∈ importEdges repoId filePath language resolve statements,
      e.importFacts = e'.importFacts → read e = read e') :
    Edge.told read (importEdges repoId filePath language resolve reordered) =
      Edge.told read (importEdges repoId filePath language resolve statements) := by
  ext x
  constructor
  · rintro ⟨e, he, rfl⟩
    obtain ⟨e', he', hfacts⟩ := exists_importFacts_of_perm hperm he
    exact ⟨e', he', (hread e he e' he' hfacts.symm).symm⟩
  · rintro ⟨e', he', rfl⟩
    obtain ⟨e, he, hfacts⟩ := exists_importFacts_of_perm hperm.symm he'
    exact ⟨e, he, hread e he e' he' hfacts⟩

section FirstStatement

variable {γ : Type} (ofEdge : Edge → γ) (ofStatement : ImportStatement → γ)

/-- If every order tells the same, a statement agrees with the first one of its target: an order that begins with the statement reads its
edge off it. -/
theorem ofStatement_eq_first
    (hread : ∀ first ∈ statements, ∀ rest e, Edge.Merges repoId filePath language resolve first rest e → ofEdge e = ofStatement first)
    (hsame : ∀ reordered : List ImportStatement, reordered.Perm statements →
      Edge.told (fun e => (e.importFacts, ofEdge e)) (importEdges repoId filePath language resolve reordered) =
        Edge.told (fun e => (e.importFacts, ofEdge e)) (importEdges repoId filePath language resolve statements))
    (hs : s ∈ statements) (hid : s.targetId? repoId filePath language resolve = some id) :
    ∃ first rest, leadingTo repoId filePath language resolve id statements = first :: rest ∧ ofStatement s = ofStatement first := by
  have hperm : (s :: statements.erase s).Perm statements := (List.perm_cons_erase hs).symm
  have hhead : s ∈ s :: statements.erase s := List.mem_cons_self
  obtain ⟨e, he, rfl⟩ := exists_mem_importEdges_of_targetId? hhead hid
  obtain ⟨first, rest, hleading, -, -, hlabel⟩ := exists_first_of_mem_importEdges ofEdge ofStatement hread hperm he
  rw [ImportStatement.leadingTo_cons hid] at hleading
  obtain ⟨rfl, -⟩ := List.cons.inj hleading
  have htold : (e.importFacts, ofEdge e) ∈
      Edge.told (fun e => (e.importFacts, ofEdge e)) (importEdges repoId filePath language resolve statements) := by
    rw [← hsame _ hperm]
    exact ⟨e, he, rfl⟩
  obtain ⟨e', he', heq⟩ := htold
  obtain ⟨hfacts, hlabels⟩ := Prod.mk.inj heq
  have htoId : e'.toId = e.toId := congrArg ImportFacts.toId hfacts
  obtain ⟨first, rest, hleading, -, -, hlabel'⟩ := exists_first_of_mem_importEdges ofEdge ofStatement hread (.refl _) he'
  rw [htoId] at hleading
  exact ⟨first, rest, hleading, by rw [← hlabel, ← hlabels, hlabel']⟩

/-- What is read off the first import of a target is the same in every order of the imports exactly if all imports of the target agree
on it. -/
theorem told_of_perm_iff
    (hread : ∀ first ∈ statements, ∀ rest e, Edge.Merges repoId filePath language resolve first rest e → ofEdge e = ofStatement first) :
    (∀ reordered : List ImportStatement, reordered.Perm statements →
      Edge.told (fun e => (e.importFacts, ofEdge e)) (importEdges repoId filePath language resolve reordered) =
        Edge.told (fun e => (e.importFacts, ofEdge e)) (importEdges repoId filePath language resolve statements)) ↔
      ∀ s ∈ statements, ∀ t ∈ statements, ∀ id, s.targetId? repoId filePath language resolve = some id →
        t.targetId? repoId filePath language resolve = some id → ofStatement s = ofStatement t := by
  constructor
  · intro hsame s hs t ht id hsid htid
    obtain ⟨first, rest, hleading, hfirst⟩ := ofStatement_eq_first ofEdge ofStatement hread hsame hs hsid
    obtain ⟨first', rest', hleading', hfirst'⟩ := ofStatement_eq_first ofEdge ofStatement hread hsame ht htid
    rw [hleading] at hleading'
    obtain ⟨rfl, -⟩ := List.cons.inj hleading'
    exact hfirst.trans hfirst'.symm
  · intro hagree reordered hperm
    refine told_eq_of_perm hperm fun e he e' he' hfacts => Prod.ext hfacts ?_
    obtain ⟨first, -, -, hfirst, hid, hlabel⟩ := exists_first_of_mem_importEdges ofEdge ofStatement hread hperm he
    obtain ⟨first', -, -, hfirst', hid', hlabel'⟩ := exists_first_of_mem_importEdges ofEdge ofStatement hread (.refl _) he'
    have htoId : e.toId = e'.toId := congrArg ImportFacts.toId hfacts
    rw [← htoId] at hid'
    exact hlabel.trans ((hagree first hfirst first' hfirst' _ hid hid').trans hlabel'.symm)

end FirstStatement

/-! ## Imports of packages -/

/-- An import of no file leads to the module of its package, unless it is empty. -/
theorem targetId?_of_external (h : resolve s.target = none) :
    s.targetId? repoId filePath language resolve = some id ↔
      s.target ≠ "" ∧ Identity.externalModule repoId (Boundary.packageName s.target language) = id := by
  unfold ImportStatement.targetId?
  rw [h]
  by_cases hs : s.target = ""
  · simp [hs]
  · simp [hs]

/-- The symbols and marks of the edges to packages are the same in every order of the imports. So are the names of the packages exactly if
imports of one module name one package, and so are names and categories exactly if the imports also have one category. -/
theorem reordered_imports_iff (repoId filePath language : String) (hexternal : ∀ s ∈ statements, resolve s.target = none) :
    let edges := importEdges repoId filePath language resolve
    (∀ reordered : List ImportStatement, reordered.Perm statements →
      Edge.told Edge.importFacts (edges reordered) = Edge.told Edge.importFacts (edges statements)) ∧
    ((∀ reordered : List ImportStatement, reordered.Perm statements →
      Edge.told (fun e => (e.importFacts, e.packageName)) (edges reordered) =
        Edge.told (fun e => (e.importFacts, e.packageName)) (edges statements)) ↔
      ∀ s ∈ statements, ∀ t ∈ statements, s.SameModule repoId language t →
        Boundary.packageName s.target language = Boundary.packageName t.target language) ∧
    ((∀ reordered : List ImportStatement, reordered.Perm statements →
      Edge.told (fun e => (e.importFacts, e.packageName, e.boundaryCategory)) (edges reordered) =
        Edge.told (fun e => (e.importFacts, e.packageName, e.boundaryCategory)) (edges statements)) ↔
      ∀ s ∈ statements, ∀ t ∈ statements, s.SameModule repoId language t →
        Boundary.packageName s.target language = Boundary.packageName t.target language ∧
          Boundary.classify s.target language = Boundary.classify t.target language) := by
  have hids : ∀ {γ : Type} {label : ImportStatement → γ},
      (∀ s ∈ statements, ∀ t ∈ statements, ∀ id, s.targetId? repoId filePath language resolve = some id →
        t.targetId? repoId filePath language resolve = some id → label s = label t) ↔
      ∀ s ∈ statements, ∀ t ∈ statements, s.SameModule repoId language t → label s = label t := by
    intro γ label
    refine forall₂_congr fun s hs => forall₂_congr fun t ht => ?_
    simp only [targetId?_of_external (hexternal s hs), targetId?_of_external (hexternal t ht)]
    constructor
    · exact fun h hsame => h _ ⟨hsame.1, hsame.2.2⟩ ⟨hsame.2.1, rfl⟩
    · rintro h id ⟨hs, hsid⟩ ⟨ht, htid⟩
      exact h ⟨hs, ht, hsid.trans htid.symm⟩
  have houtside := fun first (hfirst : first ∈ statements) rest e
    (hmerges : Edge.Merges repoId filePath language resolve first rest e) => hmerges.outside (hexternal first hfirst)
  refine ⟨fun reordered hperm => told_eq_of_perm hperm fun _ _ _ _ hfacts => hfacts, ?_, ?_⟩
  · rw [told_of_perm_iff (·.packageName) (fun s => some (Boundary.packageName s.target language)), hids]
    · simp only [Option.some_inj]
    · exact fun first hfirst rest e hmerges => (houtside first hfirst rest e hmerges).2.1
  · rw [told_of_perm_iff (fun e => (e.packageName, e.boundaryCategory))
      (fun s => (some (Boundary.packageName s.target language), some (Boundary.classify s.target language))), hids]
    · simp only [Prod.mk.injEq, Option.some_inj]
    · intro first hfirst rest e hmerges
      obtain ⟨-, hpackage, hcategory, -⟩ := houtside first hfirst rest e hmerges
      exact Prod.ext hpackage hcategory

end Order

/-- Two imports of a package that have one category. -/
def poolImports : List ImportStatement :=
  [{ specifier := "sqlx", line := 1, importAll := true }, { specifier := "sqlx::postgres", line := 2, symbols := ["PgPool"] }]

/-- They are told alike in either order. -/
theorem reordered_imports_poolImports : (∀ s ∈ poolImports, (fun _ => none : Resolver) s.target = none) ∧
    poolImports.reverse.Perm poolImports ∧
    Edge.told (fun e => (e.importFacts, e.packageName, e.boundaryCategory))
        (importEdges "r" "src/main.rs" "rust" (fun _ => none) poolImports.reverse) =
      Edge.told (fun e => (e.importFacts, e.packageName, e.boundaryCategory))
        (importEdges "r" "src/main.rs" "rust" (fun _ => none) poolImports) := by
  have hexternal : ∀ s ∈ poolImports, (fun _ => none : Resolver) s.target = none := fun _ _ => rfl
  have hperm : poolImports.reverse.Perm poolImports := List.reverse_perm _
  have hall : ∀ s ∈ poolImports, Boundary.packageName s.target "rust" = "sqlx" ∧ Boundary.classify s.target "rust" = "database" := by
    decide
  have hagree : ∀ s ∈ poolImports, ∀ t ∈ poolImports, s.SameModule "r" "rust" t →
      Boundary.packageName s.target "rust" = Boundary.packageName t.target "rust" ∧
        Boundary.classify s.target "rust" = Boundary.classify t.target "rust" := fun s hs t ht _ =>
    ⟨(hall s hs).1.trans (hall t ht).1.symm, (hall s hs).2.trans (hall t ht).2.symm⟩
  exact ⟨hexternal, hperm, (reordered_imports_iff "r" "src/main.rs" "rust" hexternal).2.2.2 hagree _ hperm⟩

/-- Two imports of a package that have different categories. -/
def modelImports : List ImportStatement :=
  [{ specifier := "django", line := 1, importAll := true }, { specifier := "django.db", line := 2, symbols := ["models"] }]

/-- The order of the two decides whether the package is a user interface or a database. -/
theorem reordered_imports_reclassified : (∀ s ∈ modelImports, (fun _ => none : Resolver) s.target = none) ∧
    modelImports.reverse.Perm modelImports ∧
    Edge.told (fun e => (e.importFacts, e.packageName, e.boundaryCategory))
        (importEdges "r" "app.py" "python" (fun _ => none) modelImports.reverse) ≠
      Edge.told (fun e => (e.importFacts, e.packageName, e.boundaryCategory))
        (importEdges "r" "app.py" "python" (fun _ => none) modelImports) := by
  have hinterface : ∀ e ∈ importEdges "r" "app.py" "python" (fun _ => none) modelImports,
      e.boundaryCategory = some "ui-framework" := by decide +kernel
  have hdatabase : (importEdges "r" "app.py" "python" (fun _ => none) modelImports.reverse).any
      (fun e => e.boundaryCategory == some "database") = true := by decide +kernel
  obtain ⟨e, he, hcategory⟩ := List.any_eq_true.1 hdatabase
  refine ⟨fun _ _ => rfl, List.reverse_perm _, fun hsame => ?_⟩
  have htold : (e.importFacts, e.packageName, e.boundaryCategory) ∈ Edge.told
      (fun e => (e.importFacts, e.packageName, e.boundaryCategory)) (importEdges "r" "app.py" "python" (fun _ => none) modelImports) := by
    rw [← hsame]
    exact ⟨e, he, rfl⟩
  obtain ⟨e', he', heq⟩ := htold
  have hcategories : e'.boundaryCategory = e.boundaryCategory := congrArg (·.2.2) heq
  rw [hinterface e' he', beq_iff_eq.1 hcategory] at hcategories
  exact absurd hcategories (by decide)

end CodeAtlas
