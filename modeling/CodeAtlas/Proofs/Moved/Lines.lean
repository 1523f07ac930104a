import CodeAtlas.Proofs.Text.Split
import CodeAtlas.Source.Scan

/-!
# Line feeds in front of a file

Line feeds in front of a text become blank lines in front of its lines. The searches that start at a line, for the end of a header, the
end of a declaration or its documentation, then find what they found before: none of them looks at the blank lines, and those that
give up at the end of the file give up on the same line.
-/

namespace CodeAtlas

/-- A file with `k` more line feeds in front. -/
def SourceFile.movedDown (k : Nat) (file : SourceFile) : SourceFile :=
  { file with content := String.ofList (List.replicate k '\n' ++ file.content.text) }

/-- The text of a file that is moved down has line feeds in front. -/
theorem SourceFile.text_movedDown (k : Nat) (file : SourceFile) :
    (file.movedDown k).content.text = List.replicate k '\n' ++ file.content.text := String.toList_ofList

namespace Text

/-- A line feed in front is an empty line. -/
theorem lines_cons_lineFeed (t : Text) : lines ('\n' :: t) = [] :: lines t := by
  have hcons : ∀ ps : List Text, ps ≠ [] → dropEmptyLast ([] :: ps) = [] :: dropEmptyLast ps := by
    intro ps hps
    obtain ⟨p, ps, rfl⟩ := List.exists_cons_of_ne_nil hps
    unfold dropEmptyLast
    rw [List.getLast?_cons_cons]
    split <;> rfl
  have hunify : unifyLineEnds ('\n' :: t) = '\n' :: unifyLineEnds t := by
    cases t <;> rfl
  rw [lines, hunify, splitOn, if_pos rfl, splitOn_eq, hcons _ (List.splitOn_ne_nil _ _), lines, splitOn_eq]

/-- So are many. -/
theorem lines_replicate_append (k : Nat) (t : Text) : lines (List.replicate k '\n' ++ t) = List.replicate k [] ++ lines t := by
  induction k with
  | zero => rfl
  | succ k ih => rw [List.replicate_succ, List.cons_append, lines_cons_lineFeed, ih, List.replicate_succ, List.cons_append]

/-- The line at a place is further down by the line feeds in front. -/
theorem lineAfter_replicate_append (k n : Nat) (t : Text) :
    lineAfter ((List.replicate k '\n' ++ t).take (n + k)) = lineAfter (t.take n) + k := by
  rw [lineAfter, List.take_append, List.count_append, List.length_replicate, Nat.add_sub_cancel,
    List.take_of_length_le (by rw [List.length_replicate]; omega), List.count_replicate_self, lineAfter]
  omega

/-- Empty lines are dropped with those that follow them. -/
theorem drop_blank_append (k n : Nat) (lines : List Text) : (List.replicate k [] ++ lines).drop (n + k) = lines.drop n := by
  rw [List.drop_append, List.length_replicate, Nat.add_sub_cancel,
    List.drop_of_length_le (by rw [List.length_replicate]; omega), List.nil_append]

/-- There are as many more lines as empty ones. -/
theorem length_blank_append (k : Nat) (lines : List Text) : (List.replicate k [] ++ lines).length = lines.length + k := by
  rw [List.length_append, List.length_replicate, Nat.add_comm]

variable {line : Nat}

/-- Moving all lines down keeps the order of what stands on them. -/
theorem mergeSort_map_of_add {α : Type} {lineOf : α → Nat} {f : α → α} {k : Nat} (hf : ∀ x, lineOf (f x) = lineOf x + k)
    (xs : List α) : ((xs.map f).mergeSort fun a b => decide (lineOf a ≤ lineOf b)) =
      (xs.mergeSort fun a b => decide (lineOf a ≤ lineOf b)).map f := by
  refine (List.map_mergeSort fun a _ b _ => ?_).symm
  rw [hf, hf]
  exact decide_eq_decide.2 Nat.add_le_add_iff_right.symm

/-- The rest of the file from a line on is the same. -/
theorem drop_blank_append_of_le (first : 1 ≤ line) (k : Nat) (lines : List Text) :
    (List.replicate k [] ++ lines).drop (line + k - 1) = lines.drop (line - 1) := by
  rw [Nat.sub_add_comm first, drop_blank_append]

end Text

open Text

namespace Header

/-- The search for the last line of a header goes on alike below empty lines. -/
theorem lastLine_go_blank (noise : Noise) (lines : List Text) (k : Nat) (depth : Int) (line : Nat) (rest : List Text) :
    lastLine.go noise (List.replicate k [] ++ lines) depth (line + k) rest = lastLine.go noise lines depth line rest + k := by
  induction rest generalizing depth line with
  | nil => exact length_blank_append k lines
  | cons l ls ih =>
    unfold lastLine.go
    dsimp only
    split
    · rfl
    · rw [Nat.add_right_comm]
      exact ih _ _

/-- The last line of a header is further down by the empty lines. -/
theorem lastLine_blank (noise : Noise) (lines : List Text) (k : Nat) {line : Nat} (first : 1 ≤ line) :
    lastLine noise (List.replicate k [] ++ lines) (line + k) = lastLine noise lines line + k := by
  rw [lastLine, drop_blank_append_of_le first, lastLine_go_blank, lastLine]

end Header

namespace Block

variable (noise : Noise) (lines : List Text) (k : Nat)

/-- The search for the end of a block in braces goes on alike below empty lines. -/
theorem braceEndBy_go_blank (code : Text → Text) (line : Nat) (s : BraceScan) (at_ : Nat) (rest : List Text) :
    braceEndBy.go code (List.replicate k [] ++ lines) (line + k) s (at_ + k) rest = braceEndBy.go code lines line s at_ rest + k := by
  induction rest generalizing s at_ with
  | nil =>
    unfold braceEndBy.go
    split
    · exact length_blank_append k lines
    · rfl
  | cons l ls ih =>
    unfold braceEndBy.go
    split
    · rfl
    · rw [Nat.add_right_comm]
      exact ih _ _

/-- So does the search for the end of a statement. -/
theorem statementEnd_go_blank (depth : Int) (at_ : Nat) (rest : List Text) :
    statementEnd.go noise (List.replicate k [] ++ lines) depth (at_ + k) rest = statementEnd.go noise lines depth at_ rest + k := by
  induction rest generalizing depth at_ with
  | nil => exact length_blank_append k lines
  | cons l ls ih =>
    unfold statementEnd.go
    dsimp only
    split
    · rfl
    · rw [Nat.add_right_comm]
      exact ih _ _

/-- So does the search for the end of an indented block. -/
theorem indentEnd_go_add (base last at_ : Nat) (rest : List Text) :
    indentEnd.go base (last + k) (at_ + k) rest = indentEnd.go base last at_ rest + k := by
  induction rest generalizing last at_ with
  | nil => rfl
  | cons l ls ih =>
    unfold indentEnd.go
    dsimp only
    rw [Nat.add_right_comm]
    split
    · exact ih _ _
    · split
      · rfl
      · exact ih _ _

/-- So does the search for the keyword that ends a block. -/
theorem endKeywordEnd_go_blank (depth : Int) (at_ : Nat) (rest : List Text) :
    endKeywordEnd.go (List.replicate k [] ++ lines) depth (at_ + k) rest = endKeywordEnd.go lines depth at_ rest + k := by
  induction rest generalizing depth at_ with
  | nil => exact length_blank_append k lines
  | cons l ls ih =>
    unfold endKeywordEnd.go
    dsimp only
    split
    · rfl
    · rw [Nat.add_right_comm]
      exact ih _ _

/-- However its end is found, a declaration ends as many lines further down as it begins. -/
theorem endLine_blank (b : Block) {line : Nat} (first : 1 ≤ line) :
    b.endLine noise (List.replicate k [] ++ lines) (line + k) = b.endLine noise lines line + k := by
  have hdrop := drop_blank_append_of_le first k lines
  cases b with
  | brace => rw [endLine, braceEnd, braceEndBy, hdrop, braceEndBy_go_blank, endLine, braceEnd, braceEndBy]
  | statement => rw [endLine, statementEnd, hdrop, statementEnd_go_blank, endLine, statementEnd]
  | indent =>
    rw [endLine, indentEnd, hdrop, Header.lastLine_blank noise lines k first, drop_blank_append, Nat.add_right_comm, indentEnd_go_add,
      endLine, indentEnd]
  | endKeyword =>
    rw [endLine, endKeywordEnd, hdrop, endKeywordEnd_go_blank, endLine, endKeywordEnd]
    split <;> rfl
  | line => rfl

end Block

/-! ## Documentation -/

namespace Doc

/-- Empty lines above a text are not taken, if the last line has to be filled. -/
theorem upTo_append_blank {p : Text → Bool} (hp : p [] = false) (k : Nat) (above : List Text) :
    upTo p (above ++ List.replicate k []) = upTo p above := by
  have hblank : upTo p (List.replicate k []) = none := by
    induction k with
    | zero => rfl
    | succ k ih =>
      rw [List.replicate_succ, upTo, if_neg (Bool.eq_false_iff.1 hp), ih]
      rfl
  induction above with
  | nil => exact hblank
  | cons l ls ih => rw [List.cons_append, upTo, ih, upTo]

/-- Empty lines above a text end what is taken of it. -/
theorem takeWhile_append_blank {p : Text → Bool} (hp : p [] = false) (k : Nat) (above : List Text) :
    (above ++ List.replicate k []).takeWhile p = above.takeWhile p := by
  induction above with
  | nil => cases k <;> simp [List.replicate_succ, hp]
  | cons l ls ih => rw [List.cons_append, List.takeWhile_cons, ih, List.takeWhile_cons]

/-- Blank lines are passed over, and no comment goes on across one. -/
theorem preceding_append_blank {marks : List String} (hmarks : "" ∉ marks) (allowBlock : Bool) (k : Nat) (above : List Text) :
    preceding marks allowBlock (above ++ List.replicate k []) = preceding marks allowBlock above := by
  have hmark : ∀ mark ∈ marks, startsWith (strip []) mark = false := by
    intro mark hmem
    have hne : mark.toList ≠ [] := fun h => hmarks (String.toList_eq_nil_iff.1 h ▸ hmem)
    obtain ⟨c, r, hcons⟩ := List.exists_cons_of_ne_nil hne
    rw [startsWith, hcons]
    rfl
  have hskipped : (List.replicate k []).dropWhile (isSkipped marks) = [] := by
    induction k with
    | zero => rfl
    | succ k ih => exact ih
  rw [preceding, List.dropWhile_append, hskipped, preceding]
  cases above.dropWhile (isSkipped marks) with
  | nil => rfl
  | cons l ls =>
    simp only [List.isEmpty_cons, Bool.false_eq_true, if_false, List.cons_append]
    split
    · rw [← List.cons_append, upTo_append_blank rfl]
    · cases hfind : marks.find? (strip l).startsWith with
      | none => rfl
      | some mark =>
        have hblank := hmark mark (List.mem_of_find?_eq_some hfind)
        rw [Option.bind_some, takeWhile_append_blank (p := fun x => (strip x).startsWith mark) hblank, Option.bind_some]

end Doc

/-- Whether every mark of a comment has text. -/
def DocStyle.Marked : DocStyle → Prop
  | absent => True
  | above marks _ => "" ∉ marks
  | below => True

/-- Whether a style of comments is one with marks is decided by its cases. -/
instance : DecidablePred DocStyle.Marked
  | .absent => inferInstanceAs (Decidable True)
  | .above marks _ => inferInstanceAs (Decidable ("" ∉ marks))
  | .below => inferInstanceAs (Decidable True)

/-- Where a declaration is documented, the documentation moves with it. -/
theorem DocStyle.find_blank {style : DocStyle} (hstyle : style.Marked) (k : Nat) (lines : List Text) {line : Nat} (first : 1 ≤ line) :
    style.find (List.replicate k [] ++ lines) (line + k) = style.find lines line := by
  cases style with
  | absent => rfl
  | above marks allowBlock =>
    have htake : (List.replicate k [] ++ lines).take (line + k - 1) = List.replicate k [] ++ lines.take (line - 1) := by
      rw [Nat.sub_add_comm first, List.take_append, List.length_replicate, Nat.add_sub_cancel, List.take_of_length_le]
      rw [List.length_replicate]
      omega
    rw [find, htake, List.reverse_append, List.reverse_replicate, Doc.preceding_append_blank hstyle, find]
  | below => rw [find, drop_blank_append_of_le first, find]

end CodeAtlas
