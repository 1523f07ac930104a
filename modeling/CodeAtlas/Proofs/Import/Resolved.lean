import CodeAtlas.Language.CFamily.Imports
import CodeAtlas.Language.CSharp.Imports
import CodeAtlas.Language.Go.Imports
import CodeAtlas.Language.Java.Imports
import CodeAtlas.Language.Php.Imports
import CodeAtlas.Language.Python.Imports
import CodeAtlas.Language.Ruby.Imports
import CodeAtlas.Language.Rust.Imports
import CodeAtlas.Language.TypeScript.Imports
import CodeAtlas.Proofs.Import.KnownPaths

/-!
# What resolvers are certain of

Each language resolves its specifiers in its own way: by candidates beside the file, by module trees, by the tails of paths. Whatever
the way, a target that is called certain is a file of the workspace, or a directory when it is marked as one.
-/

namespace CodeAtlas

/-- A target that is certain is in the workspace, as a directory when it is marked as one and as a file otherwise. -/
def ImportTarget.Exists (known : KnownPaths) (t : ImportTarget) : Prop :=
  t.resolved = true → (t.isDirectory = true → t.path ∈ known.dirs) ∧ (t.isDirectory = false → t.path ∈ known.files)

/-- A resolver that is certain only of what the workspace has. -/
def Resolver.Sound (known : KnownPaths) (resolve : Resolver) : Prop :=
  ∀ specifier t, resolve specifier = some t → t.Exists known

variable {known : KnownPaths} {path : String}

namespace ImportTarget

/-- A file that is known exists. -/
theorem exists_file {p : String} (h : p ∈ known.files) : (file p).Exists known := fun _ => ⟨nofun, fun _ => h⟩

/-- So does a directory that is known. -/
theorem exists_directory {p : String} (h : p ∈ known.dirs) : (directory p).Exists known := fun _ => ⟨fun _ => h, nofun⟩

/-- Nothing is claimed of a guess. -/
theorem exists_of_unresolved {t : ImportTarget} (h : t.resolved = false) : t.Exists known := fun e => nomatch h.symm.trans e

/-- A guess need not exist. -/
theorem exists_guess (p : String) : (guess p).Exists known := exists_of_unresolved rfl

/-- A directory that has been looked up exists. -/
theorem exists_of_hasDir {p : String} (h : known.hasDir p = true) : (directory p).Exists known :=
  exists_directory (List.contains_iff_mem.1 h)

/-- Of the files and directories that a path may stand for, one that exists is taken, or else a guess. -/
theorem exists_ofCandidates (base : String) (extensions indexNames : List String) :
    (ofCandidates known base extensions indexNames).Exists known := by
  unfold ofCandidates
  split
  · rename_i p hp
    exact exists_file (KnownPaths.mem_of_firstFile? hp)
  · split
    · rename_i hdir
      exact exists_of_hasDir hdir
    · exact exists_guess base

end ImportTarget

open ImportTarget

namespace KnownPaths.Sound

/-- A file that a lookup gives exists. -/
theorem exists_of_map_lookup (h : known.Sound) {modulePath : String} {extensions : List String} {t : ImportTarget}
    (ht : (known.lookup modulePath extensions).map file = some t) : t.Exists known := by
  obtain ⟨p, hp, rfl⟩ := Option.map_eq_some_iff.1 ht
  exact exists_file (h.mem_of_lookup hp)

/-- A directory that a lookup gives exists. -/
theorem exists_of_map_lookupDir (h : known.Sound) {tail : String} {t : ImportTarget}
    (ht : (known.lookupDir tail).map directory = some t) : t.Exists known := by
  obtain ⟨d, hd, rfl⟩ := Option.map_eq_some_iff.1 ht
  exact exists_directory (h.mem_of_lookupDir hd)

end KnownPaths.Sound

namespace TypeScript

/-- A relative specifier leads to something that exists, or to a guess. -/
theorem exists_ofRelative (base : String) : (ofRelative known base).Exists known := by
  unfold ofRelative
  dsimp only
  split
  · split
    · exact exists_ofCandidates _ _ _
    · exact exists_ofCandidates _ _ _
  · exact exists_ofCandidates _ _ _

/-- So does a specifier that begins with an alias. -/
theorem exists_ofAlias (rest : String) : (ofAlias known rest).Exists known := by
  unfold ofAlias
  dsimp only
  split
  · exact exists_ofCandidates _ _ _
  · split
    · exact exists_ofCandidates _ _ _
    · exact exists_ofCandidates _ _ _

/-- What this reader resolves exists or is a guess. -/
theorem sound_resolve : (resolve known path).Sound known := by
  intro specifier t h
  unfold resolve at h
  split at h
  · split at h
    · cases h
      exact exists_ofRelative _
    · cases h
      exact exists_guess _
  · obtain ⟨a, -, rfl⟩ := Option.map_eq_some_iff.1 h
    exact exists_ofAlias _

end TypeScript

namespace Python

/-- What is found at a path exists. -/
theorem exists_of_atPath? {base : String} {t : ImportTarget} (h : atPath? known base = some t) : t.Exists known := by
  unfold atPath? at h
  split at h
  · nomatch h
  · split at h
    · rename_i p hp
      cases h
      exact exists_file (KnownPaths.mem_of_firstFile? hp)
    · split at h
      · rename_i hdir
        cases h
        exact exists_of_hasDir hdir
      · nomatch h

/-- A relative specifier leads to something that exists, or to a guess. -/
theorem exists_ofRelative (specifier : Text) : (ofRelative known path specifier).Exists known := by
  unfold ofRelative
  dsimp only
  split
  · rename_i t ht
    exact exists_of_atPath? ht
  · exact exists_guess _

/-- A dotted specifier leads to something that exists, if it leads anywhere. -/
theorem exists_of_ofDotted? (h : known.Sound) {specifier : Text} {t : ImportTarget} (ht : ofDotted? known specifier = some t) :
    t.Exists known := by
  unfold ofDotted? at ht
  dsimp only at ht
  split at ht
  · rename_i t' hroots
    cases ht
    obtain ⟨root, -, hroot⟩ := List.exists_of_findSome?_eq_some hroots
    exact exists_of_atPath? hroot
  · split at ht
    · exact h.exists_of_map_lookup ht
    · nomatch ht

/-- What this reader resolves exists or is a guess. -/
theorem sound_resolve (h : known.Sound) : (resolve known path).Sound known := by
  intro specifier t ht
  unfold resolve at ht
  by_cases hdots : specifier.text.startsWith "." = true
  · rw [if_pos hdots] at ht
    exact Option.some.inj ht ▸ exists_ofRelative _
  · rw [if_neg hdots] at ht
    split at ht
    · nomatch ht
    · exact exists_of_ofDotted? h ht

end Python

/-- What the reader of Go resolves exists or is a guess. -/
theorem Go.sound_resolve (h : known.Sound) : (Go.resolve known).Sound known := by
  intro specifier t ht
  unfold Go.resolve at ht
  dsimp only at ht
  split at ht
  · nomatch ht
  · obtain ⟨d, hd, rfl⟩ := Option.map_eq_some_iff.1 ht
    obtain ⟨ss, -, hss⟩ := List.exists_of_findSome?_eq_some hd
    exact exists_directory (h.mem_of_lookupDir hss)

/-- What the reader of Java resolves exists or is a guess. -/
theorem Java.sound_resolve (h : known.Sound) : (Java.resolve known).Sound known := by
  intro specifier t ht
  unfold Java.resolve at ht
  dsimp only at ht
  split at ht
  · rename_i p hp
    cases ht
    exact exists_file (h.mem_of_lookup hp)
  · split at ht
    · exact h.exists_of_map_lookupDir ht
    · nomatch ht

namespace Rust

/-- What is found below a directory exists. -/
theorem exists_of_below? {dir : String} {segments : List String} {t : ImportTarget} (h : below? known dir segments = some t) :
    t.Exists known := by
  unfold below? at h
  split at h
  · nomatch h
  · split at h
    · rename_i p hp
      cases h
      obtain ⟨beginning, -, hfile⟩ := List.exists_of_findSome?_eq_some hp
      exact exists_file (KnownPaths.mem_of_firstFile? hfile)
    · cases h
      exact exists_guess _

/-- What this reader resolves exists or is a guess. -/
theorem sound_resolve : (resolve known path).Sound known := by
  intro specifier t h
  unfold resolve at h
  split at h
  · nomatch h
  · split at h
    · split at h
      · exact exists_of_below? h
      · cases h
        exact exists_guess _
    · split at h
      · exact exists_of_below? h
      · nomatch h

end Rust

/-- What the reader of Ruby resolves exists or is a guess. -/
theorem Ruby.sound_resolve (hknown : known.Sound) : (Ruby.resolve known path).Sound known := by
  intro specifier t h
  unfold Ruby.resolve at h
  dsimp only at h
  split at h
  · split at h
    · cases h
      exact exists_ofCandidates _ _ _
    · cases h
      exact exists_guess _
  · split at h
    · nomatch h
    · generalize (if specifier.text.endsWith ".rb" then _ else specifier : String) = stem at h
      split at h
      · rename_i p hp
        cases h
        exact exists_file (KnownPaths.mem_of_firstFile? hp)
      · split at h
        · exact hknown.exists_of_map_lookup h
        · nomatch h

/-- What the reader of C and C++ resolves exists or is a guess. -/
theorem CFamily.sound_resolve (hknown : known.Sound) : (CFamily.resolve known path).Sound known := by
  intro specifier t h
  unfold CFamily.resolve at h
  dsimp only at h
  split at h
  · rename_i p hp
    cases h
    exact exists_file (KnownPaths.mem_of_firstFile? hp)
  · split at h
    · exact hknown.exists_of_map_lookup h
    · nomatch h

/-- What the reader of C# resolves exists or is a guess. -/
theorem CSharp.sound_resolve (hknown : known.Sound) (own : Option String) : (CSharp.resolve known own).Sound known := by
  intro specifier t h
  unfold CSharp.resolve at h
  dsimp only at h
  split at h
  · nomatch h
  · split at h
    · rename_i d hd
      cases h
      obtain ⟨tail, -, htail⟩ := List.exists_of_findSome?_eq_some hd
      exact exists_directory (hknown.mem_of_lookupDir htail)
    · split at h
      · cases h
        exact exists_of_unresolved rfl
      · nomatch h

namespace Php

/-- A qualified name leads to something that exists, if it leads anywhere. -/
theorem exists_of_ofQualified (hknown : known.Sound) {own : Option String} {segments : List String} {t : ImportTarget}
    (h : ofQualified known own segments = some t) : t.Exists known := by
  unfold ofQualified at h
  dsimp only at h
  split at h
  · rename_i p hp
    cases h
    obtain ⟨ss, -, hss⟩ := List.exists_of_findSome?_eq_some hp
    exact exists_file (hknown.mem_of_lookup hss)
  · split at h
    · exact hknown.exists_of_map_lookupDir h
    · nomatch h

/-- What this reader resolves exists or is a guess. -/
theorem sound_resolve (hknown : known.Sound) (own : Option String) : (resolve known path own).Sound known := by
  intro specifier t h
  unfold resolve at h
  split at h
  · split at h
    · cases h
      exact exists_ofCandidates _ _ _
    · cases h
      exact exists_guess _
  · split at h
    · nomatch h
    · exact exists_of_ofQualified hknown h

end Php

end CodeAtlas
