import CodeAtlas.Source.Block

/-!
# Declarations end within the file

Each of the searches for the end of a declaration counts the lines that it passes, or falls back on the last line of the file. So
whatever the text, the end it finds is a line of the file, provided that the declaration begins on one.
-/

namespace CodeAtlas

namespace Header

/-- The search for the end of a declaration stays within the file. -/
theorem lastLine_go_le (noise : Noise) (lines : List Text) (depth : Int) (line : Nat) (rest : List Text)
    (h : line + rest.length ≤ lines.length + 1) : lastLine.go noise lines depth line rest ≤ lines.length := by
  induction rest generalizing depth line with
  | nil => exact Nat.le_refl _
  | cons l ls ih =>
    rw [List.length_cons] at h
    unfold lastLine.go
    dsimp only
    split
    · omega
    · exact ih _ _ (by omega)

end Header

namespace Block

variable {noise : Noise} {lines : List Text} {line : Nat}

/-- The rest of a file from one of its lines on has as many lines as there are left. -/
theorem add_length_drop (first : 1 ≤ line) (last : line ≤ lines.length) :
    line + (lines.drop (line - 1)).length = lines.length + 1 := by
  rw [List.length_drop]
  omega

/-- The search for a closing brace stays within the file. -/
theorem braceEndBy_go_le {code : Text → Text} (last : line ≤ lines.length) (s : BraceScan) (at_ : Nat) (rest : List Text)
    (h : at_ + rest.length ≤ lines.length + 1) : braceEndBy.go code lines line s at_ rest ≤ lines.length := by
  induction rest generalizing s at_ with
  | nil =>
    unfold braceEndBy.go
    split <;> omega
  | cons l ls ih =>
    rw [List.length_cons] at h
    unfold braceEndBy.go
    split
    · omega
    · exact ih _ _ (by omega)

/-- The search for the end of a statement stays within the file. -/
theorem statementEnd_go_le (depth : Int) (at_ : Nat) (rest : List Text) (h : at_ + rest.length ≤ lines.length + 1) :
    statementEnd.go noise lines depth at_ rest ≤ lines.length := by
  induction rest generalizing depth at_ with
  | nil => exact Nat.le_refl _
  | cons l ls ih =>
    rw [List.length_cons] at h
    unfold statementEnd.go
    dsimp only
    split
    · omega
    · exact ih _ _ (by omega)

/-- The last line found so far and the lines still to come are lines of the file. -/
theorem indentEnd_go_le (base last at_ : Nat) (rest : List Text) (hlast : last ≤ lines.length)
    (h : at_ + rest.length ≤ lines.length + 1) : indentEnd.go base last at_ rest ≤ lines.length := by
  induction rest generalizing last at_ with
  | nil => exact hlast
  | cons l ls ih =>
    rw [List.length_cons] at h
    unfold indentEnd.go
    dsimp only
    split
    · exact ih last (at_ + 1) hlast (by omega)
    · split
      · exact hlast
      · exact ih at_ (at_ + 1) (by omega) (by omega)

/-- The search for a closing `end` stays within the file. -/
theorem endKeywordEnd_go_le (depth : Int) (at_ : Nat) (rest : List Text) (h : at_ + rest.length ≤ lines.length + 1) :
    endKeywordEnd.go lines depth at_ rest ≤ lines.length := by
  induction rest generalizing depth at_ with
  | nil => exact Nat.le_refl _
  | cons l ls ih =>
    rw [List.length_cons] at h
    unfold endKeywordEnd.go
    dsimp only
    split
    · omega
    · exact ih _ _ (by omega)

/-- However its end is found, a declaration that begins within the file ends within it. -/
theorem endLine_le (b : Block) (noise : Noise) (first : 1 ≤ line) (last : line ≤ lines.length) :
    b.endLine noise lines line ≤ lines.length := by
  have hrest := add_length_drop first last
  cases b with
  | brace => exact braceEndBy_go_le last _ _ _ (by omega)
  | statement => exact statementEnd_go_le _ _ _ (by omega)
  | indent =>
    have hheader : Header.lastLine noise lines line ≤ lines.length := Header.lastLine_go_le _ _ _ _ _ (by omega)
    refine indentEnd_go_le _ _ _ _ hheader ?_
    rw [List.length_drop]
    omega
  | endKeyword =>
    rw [endLine, endKeywordEnd]
    split
    · exact last
    · exact endKeywordEnd_go_le _ _ _ (by omega)
  | line => exact last

end Block

end CodeAtlas
