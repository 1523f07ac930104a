import CodeAtlas.Proofs.Import.Edges
import CodeAtlas.Proofs.Import.Resolved
import CodeAtlas.Proofs.Path

/-!
# Specifiers that stay in the workspace

A specifier that begins with a dot is resolved to a target in the workspace, be it a guess, and so is a path through the modules of the
file's own crate. The exception are paths that end where the climb through the modules does (`use super::Thing`): no segment is left to
name a file by, and they are taken for paths of another crate.
-/

namespace CodeAtlas

variable {known : KnownPaths} {path specifier : String}

/-- A resolver that finds a target for every specifier of some kind. -/
def Resolver.Covers (resolve : Resolver) (kind : String → Prop) : Prop := ∀ specifier, kind specifier → ∃ t, resolve specifier = some t

/-- An import that leaves the workspace has no specifier of a kind that its resolver covers. -/
theorem Resolver.Covers.not_external {resolve : Resolver} {kind : String → Prop} (h : resolve.Covers kind)
    {repoId filePath language : String} {statements : List ImportStatement} {e : Edge}
    (he : e ∈ importEdges repoId filePath language resolve statements) (hexternal : e.isExternal = true) :
    ∃ s ∈ statements, Json.field? "specifier" e.metadata = some (.str s.target) ∧ ¬kind s.target := by
  obtain ⟨s, hs, hnone, hspecifier, -⟩ := exists_unresolved_of_mem_importEdges he hexternal
  refine ⟨s, hs, hspecifier, fun hkind => ?_⟩
  obtain ⟨t, ht⟩ := h s.target hkind
  nomatch hnone.symm.trans ht

/-- A specifier that begins with a dot. -/
def IsDotted (specifier : String) : Prop := specifier.text.startsWith "." = true

/-- Every dotted specifier of TypeScript is taken for one of the workspace. -/
theorem TypeScript.covers_dotted : (TypeScript.resolve known path).Covers IsDotted := by
  intro specifier h
  simp only [TypeScript.resolve, if_pos (show specifier.text.startsWith "." = true from h)]
  cases ImportTarget.relative? path specifier <;> exact ⟨_, rfl⟩

/-- Every dotted module of Python is taken for one of the workspace. -/
theorem Python.covers_dotted : (Python.resolve known path).Covers IsDotted := fun _ h => ⟨_, if_pos h⟩

/-- Every dotted path of Ruby is taken for one of the workspace. -/
theorem Ruby.covers_dotted : (Ruby.resolve known path).Covers IsDotted := by
  intro specifier h
  simp only [Ruby.resolve, if_pos (show specifier.text.startsWith "." = true from h)]
  cases ImportTarget.relative? path specifier <;> exact ⟨_, rfl⟩

/-- Every dotted path of PHP is taken for one of the workspace, whatever package the file is of. -/
theorem Php.covers_dotted (own : Option String) : (Php.resolve known path own).Covers IsDotted := by
  intro specifier h
  simp only [Php.resolve, if_pos (show specifier.text.startsWith "." = true from h)]
  cases ImportTarget.relative? path specifier <;> exact ⟨_, rfl⟩

namespace Rust

/-- The segments of a path. -/
def segments (specifier : String) : List String := (Text.splitOnText "::" specifier.text).map String.ofList

/-- A path that begins in the crate or the module of its file. -/
def BeginsInCrate (specifier : String) : Prop :=
  ∃ head rest, segments specifier = head :: rest ∧ (head = "crate" ∨ head = "self" ∨ head = "super")

/-- A path to a module above the file that goes no further down: to the root of a crate that the workspace has, or to where `self` and
`super` lead. -/
def StopsAtModule (known : KnownPaths) (path specifier : String) : Prop :=
  (segments specifier = ["crate"] ∧ ∃ dir, crateRoot? known path = some dir) ∨ ∀ s ∈ segments specifier, s = "self" ∨ s = "super"

/-- A path below a directory has a target wherever a segment is left. -/
theorem below?_eq_none_iff {dir : String} {ss : List String} : below? known dir ss = none ↔ ss = [] := by
  unfold below?
  cases ss with
  | nil => simp
  | cons s ss => cases moduleFile? known dir (s :: ss) <;> simp

/-- The climb passes over all segments when they are all `self` or `super`. -/
theorem climb_eq_nil_iff {dir : String} {ss : List String} : (climb dir ss).2 = [] ↔ ∀ s ∈ ss, s = "self" ∨ s = "super" := by
  induction ss generalizing dir with
  | nil => simp [climb]
  | cons s ss ih =>
    unfold climb
    by_cases hsuper : s = "super"
    · simp [hsuper, ih]
    · by_cases hself : s = "self"
      · simp [hself, ih]
      · simp [hsuper, hself]

/-- A path within the crate is taken for one of another crate exactly when it stops at a module. -/
theorem resolve_eq_none_iff (h : BeginsInCrate specifier) :
    resolve known path specifier = none ↔ StopsAtModule known path specifier := by
  obtain ⟨head, rest, hsegments, hhead⟩ := h
  have hsplit : (Text.splitOnText "::" specifier.text).map String.ofList = head :: rest := hsegments
  unfold resolve StopsAtModule
  rw [hsplit, hsegments]
  dsimp only
  rcases hhead with rfl | hmodule
  · have hnot : ¬∀ s ∈ "crate" :: rest, s = "self" ∨ s = "super" := fun hall => absurd (hall _ List.mem_cons_self) (by decide)
    rw [if_pos rfl, or_iff_left hnot]
    cases crateRoot? known path with
    | some dir => simp [below?_eq_none_iff]
    | none => simp
  · have hcrate : head ≠ "crate" := by
      rintro rfl
      exact absurd hmodule (by decide)
    rw [if_neg hcrate, if_pos hmodule, below?_eq_none_iff, climb_eq_nil_iff]
    simp [hcrate]

end Rust

/-- Dotted specifiers never leave the workspace, and paths of Rust within the crate leave it exactly when they stop at a module. So no
edge to a package comes from another specifier of these kinds. The search for the root of the crate climbs from a relative path up to
the root of the workspace, and ends there. -/
theorem relative_import_internal (known : KnownPaths) (own : Option String) (hpath : Path.IsRelative path) :
    ((TypeScript.resolve known path).Covers IsDotted ∧ (Python.resolve known path).Covers IsDotted ∧
        (Ruby.resolve known path).Covers IsDotted ∧ (Php.resolve known path own).Covers IsDotted) ∧
      ((Path.ancestry path).getLast? = some "" ∧ ∀ specifier, Rust.BeginsInCrate specifier →
        (Rust.resolve known path specifier = none ↔ Rust.StopsAtModule known path specifier)) ∧
      ∀ (repoId language : String) (statements : List ImportStatement),
        (∀ resolve ∈ [TypeScript.resolve known path, Python.resolve known path, Ruby.resolve known path, Php.resolve known path own],
          ∀ e ∈ importEdges repoId path language resolve statements, e.isExternal = true →
            ∃ s ∈ statements, Json.field? "specifier" e.metadata = some (.str s.target) ∧ ¬IsDotted s.target) ∧
        ∀ e ∈ importEdges repoId path language (Rust.resolve known path) statements, e.isExternal = true →
          ∃ s ∈ statements, Json.field? "specifier" e.metadata = some (.str s.target) ∧
            (Rust.BeginsInCrate s.target → Rust.StopsAtModule known path s.target) := by
  refine ⟨⟨TypeScript.covers_dotted, Python.covers_dotted, Ruby.covers_dotted, Php.covers_dotted own⟩,
    ⟨Path.getLast?_ancestry hpath, fun specifier => Rust.resolve_eq_none_iff⟩, fun repoId language statements => ⟨?_, ?_⟩⟩
  · intro resolve hresolve e he hexternal
    have hcovers : resolve.Covers IsDotted := by
      simp only [List.mem_cons, List.not_mem_nil, or_false] at hresolve
      rcases hresolve with rfl | rfl | rfl | rfl
      · exact TypeScript.covers_dotted
      · exact Python.covers_dotted
      · exact Ruby.covers_dotted
      · exact Php.covers_dotted own
    exact hcovers.not_external he hexternal
  · intro e he hexternal
    obtain ⟨s, hs, hnone, hspecifier, -⟩ := exists_unresolved_of_mem_importEdges he hexternal
    exact ⟨s, hs, hspecifier, fun hbegins => (Rust.resolve_eq_none_iff hbegins).1 hnone⟩

/-- A file in a directory of the workspace imports from above it. -/
theorem parent_import_internal : Path.IsRelative "web/app.ts" ∧ IsDotted "../shared/dates" ∧
    ∃ t, TypeScript.resolve (.ofFiles ["web/app.ts", "shared/dates.ts"]) "web/app.ts" "../shared/dates" = some t := by
  have hpath : Path.IsRelative "web/app.ts" := by decide
  have hdotted : IsDotted "../shared/dates" := by
    unfold IsDotted
    decide
  exact ⟨hpath, hdotted, (relative_import_internal (.ofFiles ["web/app.ts", "shared/dates.ts"]) none hpath).1.1 _ hdotted⟩

/-- The modules of a crate, one of which has a module below it. -/
def nestedModules : KnownPaths := .ofFiles ["src/lib.rs", "src/net.rs", "src/net/codec.rs"]

/-- A module imports from the module above it, and the edge leads to a package that is called `super`. -/
theorem super_import_external :
    Rust.importStatements "use super::Frame;\n".text = [{ specifier := "super", line := 1, symbols := ["Frame"] }] ∧
      Rust.BeginsInCrate "super" ∧ Rust.resolve nestedModules "src/net/codec.rs" "super" = none ∧
      ∃ e ∈ importEdges "r" "src/net/codec.rs" "rust" (Rust.resolve nestedModules "src/net/codec.rs")
          (Rust.importStatements "use super::Frame;\n".text), e.isExternal = true ∧ e.packageName = some "super" := by
  have hstatements :
      Rust.importStatements "use super::Frame;\n".text = [{ specifier := "super", line := 1, symbols := ["Frame"] }] := by
    rw [Rust.importStatements, List.mergeSort_of_pairwise (by decide)]
    decide
  have hedge : (importEdges "r" "src/net/codec.rs" "rust" (Rust.resolve nestedModules "src/net/codec.rs")
      [{ specifier := "super", line := 1, symbols := ["Frame"] }]).any
      (fun e => e.isExternal && e.packageName == some "super") = true := by decide
  obtain ⟨e, he, hends⟩ := List.any_eq_true.1 hedge
  rw [Bool.and_eq_true, beq_iff_eq] at hends
  refine ⟨hstatements, ⟨"super", [], by decide, Or.inr (Or.inr rfl)⟩, by decide, e, ?_, hends⟩
  rw [hstatements]
  exact he

end CodeAtlas
