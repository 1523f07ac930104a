import CodeAtlas.Boundary
import CodeAtlas.Proofs.Text.Split
import Mathlib.Data.List.TakeWhile
import Mathlib.Tactic.SplitIfs

/-!
# Specifiers without a package

The name of a package is cut from the beginning of a specifier. In some languages nothing is left when the specifier begins with what
separates its parts.
-/

namespace CodeAtlas

namespace Text

variable {t : Text}

/-- Nothing stands before the first separator of a text that begins with one. -/
theorem before_eq_nil_iff {sep : String} (hsep : sep.toList ≠ []) : t.before sep = [] ↔ t = [] ∨ t.startsWith sep = true := by
  cases t with
  | nil => simp [before, cut?, hsep]
  | cons c r =>
    unfold before cut? startsWith
    cases hprefix : sep.toList.isPrefixOf (c :: r) with
    | true => simp
    | false => cases cut? sep.toList r <;> simp

end Text

namespace Boundary

open Text

/-- The first piece is empty where the specifier begins with the separator, and nowhere else. -/
theorem firstPiece_eq_empty_iff {sep specifier : String} (hsep : sep.toList ≠ []) (h : specifier ≠ "") :
    firstPiece sep specifier = "" ↔ specifier.text.startsWith sep = true := by
  rw [firstPiece, String.ofList_eq_empty_iff, before_eq_nil_iff hsep, or_iff_right]
  exact fun e => h (String.toList_eq_nil_iff.1 e)

/-- The pieces are joined again by what separated them. -/
theorem firstPieces_eq_empty_iff {n : Nat} {sep : Char} {t : Text} :
    firstPieces n sep t = "" ↔ [sep].intercalate ((splitOn sep t).take n) = [] := by
  rw [firstPieces, ← String.toList_eq_nil_iff, String.toList_intercalate, String.toList_ofList, List.map_map]
  have hid : String.toList ∘ String.ofList = id := funext fun _ => String.toList_ofList
  rw [hid, List.map_id]

/-- The first piece at a character is empty where the text is, or where it begins with that character. -/
theorem firstPieces_one_eq_empty_iff {sep : Char} {t : Text} :
    firstPieces 1 sep t = "" ↔ t = [] ∨ t.startsWith (String.ofList [sep]) = true := by
  rw [firstPieces_eq_empty_iff]
  unfold startsWith
  cases t with
  | nil => simp [splitOn]
  | cons c r =>
    unfold splitOn
    by_cases hc : c = sep
    · subst hc
      simp
    · have hne : sep ≠ c := fun e => hc e.symm
      cases splitOn sep r <;> simp [consHead, hc, hne]

/-- Of the first two or more pieces of a text something is left: the separator, or the first piece. -/
theorem firstPieces_add_two_eq_empty_iff {n : Nat} {sep : Char} {t : Text} : firstPieces (n + 2) sep t = "" ↔ t = [] := by
  rw [firstPieces_eq_empty_iff]
  cases t with
  | nil => simp [splitOn]
  | cons c r =>
    unfold splitOn
    split
    · cases hpieces : splitOn sep r with
      | nil => exact absurd hpieces (splitOn_ne_nil sep r)
      | cons p ps => simp
    · rename_i hc
      cases hpieces : splitOn sep r with
      | nil => exact absurd hpieces (splitOn_ne_nil sep r)
      | cons p ps => cases ps <;> simp [consHead]

/-- Whether a specifier begins where the name of its package should stand. -/
def lacksPackage (specifier language : String) : Bool :=
  let t := specifier.text
  if language = "typescript" ∨ language = "javascript" then
    (t.dropStart "node:").isEmpty || (t.dropStart "node:").startsWith "/"
  else if language = "python" then t.startsWith "."
  else if language = "go" then false
  else if language = "java" then false
  else if language = "rust" then t.startsWith "::"
  else if language = "ruby" then t.startsWith "/"
  else if language = "php" then t.all (· == '\\')
  else if language = "csharp" then false
  else if language = "c" ∨ language = "cpp" then t.startsWith "/"
  else false

/-- A text that begins with one of two different characters does not begin with the other. -/
theorem not_startsWith_of_startsWith {t : Text} {c d : Char} (hne : d ≠ c) (h : t.startsWith (String.ofList [c]) = true) :
    t ≠ [] ∧ t.startsWith (String.ofList [d]) = false := by
  cases t with
  | nil => simp [startsWith] at h
  | cons x r =>
    have hx : c = x := by simpa [startsWith] using h
    subst hx
    simp [startsWith, List.isPrefixOf, hne]

/-- No package is left of exactly those specifiers. -/
theorem packageName_eq_empty_iff {specifier : String} (h : specifier ≠ "") (language : String) :
    packageName specifier language = "" ↔ lacksPackage specifier language = true := by
  have hnil : specifier.text ≠ [] := fun e => h (String.toList_eq_nil_iff.1 e)
  unfold packageName lacksPackage
  dsimp only
  split_ifs with _ hscope
  · obtain ⟨hne, hslash⟩ := not_startsWith_of_startsWith (c := '@') (d := '/') (by decide) hscope
    rw [firstPieces_add_two_eq_empty_iff (n := 0)]
    simp [hne, hslash]
  · rw [firstPieces_one_eq_empty_iff, Bool.or_eq_true, List.isEmpty_iff]
  · exact firstPiece_eq_empty_iff (by decide) h
  · simp [firstPieces_add_two_eq_empty_iff (n := 1), hnil]
  · simp [h]
  · simp [firstPieces_add_two_eq_empty_iff (n := 1), hnil]
  · exact firstPiece_eq_empty_iff (by decide) h
  · exact firstPiece_eq_empty_iff (by decide) h
  · rw [firstPieces_add_two_eq_empty_iff (n := 0), trimLeft, List.dropWhile_eq_nil_iff, List.all_eq_true]
  · simp [firstPieces_add_two_eq_empty_iff (n := 0), hnil]
  · exact firstPiece_eq_empty_iff (by decide) h
  · simp [h]

end Boundary

end CodeAtlas
