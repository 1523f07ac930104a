import CodeAtlas.Proofs.Import.Relative
import CodeAtlas.Proofs.Path.Stack
import CodeAtlas.Proofs.Source.CallSites
import Mathlib.Logic.Function.Iterate

/-!
# Paths through the module tree

A path of Rust begins at the directory of its crate, at the module of the file it stands in, or at a module above that. The directory of
the crate is the nearest one above the file that holds a root file, and the climb that looks for it ends at the root of the workspace.
From there the longest beginning of the path that names a file decides: what follows names an item inside that file.
-/

namespace CodeAtlas

/-! ## Cutting a path of modules -/

namespace Text

variable {w : Text}

end Text

/-! ## Directories above a path -/

namespace Path

/-- The path of some segments in a directory. The root of the workspace and a directory with a slash at its end need no slash before the
segments. -/
def inside (dir : String) (ss : List String) : String :=
  (if dir = "" ∨ dir.text.getLast? = some '/' then dir else dir ++ "/") ++ ofSegments ss

end Path

namespace Rust

open CodeAtlas.Path ImportTarget

variable {known : KnownPaths} {path : String}

/-! ## The directory of the crate -/

/-- Where the modules below the module of a file lie: in its own directory if it is named for that, and else in the directory that is
called like the file, short of its extension. -/
inductive HoldsModules : List String → List String → Prop where
  | own {dirs : List String} {file : String} : file ∈ moduleFiles → HoldsModules (dirs ++ [file]) dirs
  | leaf {dirs : List String} {stem : String} : stem ++ ".rs" ∉ moduleFiles → HoldsModules (dirs ++ [stem ++ ".rs"]) (dirs ++ [stem])

/-- The directory of a file's modules has names for segments, if the file has. -/
theorem HoldsModules.plain {ss location : List String} (h : HoldsModules ss location) (hss : Plain ss) (hlocation : "" ∉ location) :
    Plain location := by
  intro s hs
  refine ⟨fun e => hlocation (e ▸ hs), ?_⟩
  cases h with
  | own => exact (hss s (List.mem_append_left _ hs)).2
  | @leaf dirs stem =>
    rcases List.mem_append.1 hs with hs | hs
    · exact (hss s (List.mem_append_left _ hs)).2
    · obtain rfl := List.mem_singleton.1 hs
      intro hslash
      refine (hss _ (List.mem_append_right _ (List.mem_singleton_self (s ++ ".rs")))).2 ?_
      rw [String.text, String.toList_append]
      exact List.mem_append_left _ hslash

end Rust

end CodeAtlas
