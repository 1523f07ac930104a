import CodeAtlas.Proofs.Import.Relative
import CodeAtlas.Proofs.Path.Stack

/-!
# Modules that dotted specifiers name

A dotted specifier of TypeScript leads to a location of the workspace. A module there is a file of that path, with or without an
extension, or an index file in the directory of that path. The first of these that the workspace has is found, except at the root of the
workspace: a specifier that leads there is taken for one that leaves the workspace, and its index file is never found.
-/

namespace CodeAtlas

open CodeAtlas.Path ImportTarget

/-- A specifier that begins with a dot is relative. -/
theorem IsDotted.isRelative {specifier : String} (h : IsDotted specifier) : IsRelative specifier := by
  obtain ⟨r, hr⟩ := List.isPrefixOf_iff_prefix.1 h
  rw [isRelative_iff, ← hr]
  nofun

namespace TypeScript

variable {known : KnownPaths} {path specifier : String}

/-- The files that may hold the module at a location, in the order of preference. -/
def moduleFilesAt (location : List String) : List String :=
  ofSegments location :: extensions.map (ofSegments location ++ ·) ++ extensions.map fun e => ofSegments (location ++ ["index" ++ e])

/-- Below the root the files of a location are the candidates for its path. -/
theorem candidates_ofSegments {location : List String} (h : location ≠ []) :
    candidates (ofSegments location) extensions indexNames = moduleFilesAt location := by
  have hindex : ∀ e, ofSegments location ++ "/" ++ "index" ++ e = ofSegments (location ++ ["index" ++ e]) := by
    intro e
    have hlast : ofSegments ["index" ++ e] = "index" ++ e := String.intercalate_singleton
    rw [ofSegments_append h (List.cons_ne_nil _ _), hlast, String.append_assoc]
  rw [candidates, moduleFilesAt, indexNames, List.flatMap_singleton]
  simp only [hindex]

/-- A path that has a candidate in the workspace names the first of them. -/
theorem ofRelative_of_first {base file : String} {before after : List String}
    (hcandidates : candidates base extensions indexNames = before ++ file :: after) (hfile : file ∈ known.files)
    (hbefore : ∀ c ∈ before, c ∉ known.files) : ofRelative known base = .file file := by
  have hfirst : known.firstFile? (candidates base extensions indexNames) = some file := by
    rw [KnownPaths.firstFile?, hcandidates, List.find?_eq_some_iff_append]
    refine ⟨List.contains_iff_mem.2 hfile, before, after, rfl, fun c hc => ?_⟩
    rw [Bool.not_eq_true', ← Bool.not_eq_true, KnownPaths.hasFile, List.contains_iff_mem]
    exact hbefore c hc
  have htarget : ofPath known base = .file file := by
    rw [ofPath, ofCandidates, hfirst]
  rw [ofRelative, htarget]
  rfl

/-- A specifier that begins with a dot is resolved from the directory of its file. -/
theorem resolve_of_isDotted (h : IsDotted specifier) : resolve known path specifier =
    match relative? path specifier with
    | some base => some (ofRelative known base)
    | none => some (.guess specifier) := by
  refine (if_pos (show specifier.text.startsWith "." = true from h)).trans ?_
  cases relative? path specifier <;> rfl

/-- Where a dotted specifier leads to a location of the workspace that has a module, it is resolved to the first file that may hold the
module, exactly if the location is not the root of the workspace. What leads to the root is left a guess. -/
theorem relative_module_found_iff (hpath : IsRelative path) (hdotted : IsDotted specifier) {location : List String}
    (hlocation : follow? (segmentsFrom path specifier) = some location) {file : String} {before after : List String}
    (hfiles : moduleFilesAt location = before ++ file :: after) (hfile : file ∈ known.files) (hbefore : ∀ c ∈ before, c ∉ known.files) :
    (resolve known path specifier = some (.file file) ↔ location ≠ []) ∧
      (location = [] → resolve known path specifier = some (.guess specifier)) := by
  have hrelative : relative? path specifier = if location = [] then none else some (ofSegments location) := by
    rw [relative?_eq hpath hdotted.isRelative, hlocation]
    rfl
  rw [resolve_of_isDotted hdotted, hrelative]
  by_cases hroot : location = []
  · rw [if_pos hroot]
    exact ⟨iff_of_false nofun (not_not_intro hroot), fun _ => rfl⟩
  · rw [if_neg hroot]
    refine ⟨iff_of_true ?_ hroot, fun e => absurd e hroot⟩
    rw [← candidates_ofSegments hroot] at hfiles
    exact congrArg some (ofRelative_of_first hfiles hfile hbefore)

/-- A page two directories below the root, and a module of several files that its index file stands for. -/
def sharedModule : KnownPaths := .ofFiles ["web/ui/page.ts", "shared/index.tsx"]

/-- An index file is found from two directories below the root. -/
theorem relative_module_found_sharedModule : IsRelative "web/ui/page.ts" ∧ IsDotted "../../shared" ∧
    follow? (segmentsFrom "web/ui/page.ts" "../../shared") = some ["shared"] ∧
      resolve sharedModule "web/ui/page.ts" "../../shared" = some (.file "shared/index.tsx") := by
  have hpath : IsRelative "web/ui/page.ts" := by decide
  have hdotted : IsDotted "../../shared" := by
    unfold IsDotted
    decide
  have hlocation : follow? (segmentsFrom "web/ui/page.ts" "../../shared") = some ["shared"] := by decide
  have hfiles : moduleFilesAt ["shared"] =
      (moduleFilesAt ["shared"]).take 9 ++ "shared/index.tsx" :: (moduleFilesAt ["shared"]).drop 10 := by decide
  have hfile : "shared/index.tsx" ∈ sharedModule.files := by decide
  have hbefore : ∀ c ∈ (moduleFilesAt ["shared"]).take 9, c ∉ sharedModule.files := by decide
  have hfound := relative_module_found_iff hpath hdotted hlocation hfiles hfile hbefore
  exact ⟨hpath, hdotted, hlocation, hfound.1.2 (List.cons_ne_nil _ _)⟩

/-- A workspace with an index file at its root. -/
def rootModule : KnownPaths := .ofFiles ["index.ts", "src/app.ts"]

/-- The module of the workspace itself is not found from a directory of it. -/
theorem root_module_not_found : IsRelative "src/app.ts" ∧ IsDotted ".." ∧ follow? (segmentsFrom "src/app.ts" "..") = some [] ∧
    (∃ before after, moduleFilesAt [] = before ++ "index.ts" :: after ∧ ∀ c ∈ before, c ∉ rootModule.files) ∧
      "index.ts" ∈ rootModule.files ∧ resolve rootModule "src/app.ts" ".." ≠ some (.file "index.ts") := by
  have hdotted : IsDotted ".." := by
    unfold IsDotted
    decide
  have hfiles : moduleFilesAt [] = (moduleFilesAt []).take 8 ++ "index.ts" :: (moduleFilesAt []).drop 9 := by decide
  have hbefore : ∀ c ∈ (moduleFilesAt []).take 8, c ∉ rootModule.files := by decide
  exact ⟨by decide, hdotted, by decide, ⟨_, _, hfiles, hbefore⟩, by decide, by decide⟩

end TypeScript

end CodeAtlas
