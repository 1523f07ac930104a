import CodeAtlas.Source.Block
import Mathlib.Order.Bounds.Basic

/-!
# Where a block is closed

A block is closed on the first line on which as many blocks have been closed as opened, counted from its header on. The search for this
line starts to count at the header; a count from the start of the file tells the same, as the number of blocks open after the line and
before the header.
-/

namespace CodeAtlas.Block

/-- How many blocks some lines open, less those they close. -/
def balance : List Text → Int
  | [] => 0
  | l :: ls => EndKeyword.delta l + balance ls

/-- How many blocks are open after a line. -/
def openBlocks (lines : List Text) (n : Nat) : Int := balance (lines.take n)

/-- From one line to another as many blocks are closed as opened. -/
def ClosesOn (lines : List Text) (first last : Nat) : Prop :=
  first ≤ last ∧ last ≤ lines.length ∧ balance ((lines.drop (first - 1)).take (last + 1 - first)) ≤ 0

/-- The block that is opened on a line is closed somewhere. -/
def IsClosed (lines : List Text) (first : Nat) : Prop := ∃ last, ClosesOn lines first last

section Balance

variable {lines : List Text} {first last n : Nat}

/-- The balance of a text is the sum of the balances of its parts. -/
theorem balance_append (as bs : List Text) : balance (as ++ bs) = balance as + balance bs := by
  induction as with
  | nil => exact (Int.zero_add _).symm
  | cons a as ih => rw [List.cons_append, balance, balance, ih, Int.add_assoc]

/-- A line changes the number of open blocks by its openers and `end`s. -/
theorem openBlocks_succ (h : n < lines.length) : openBlocks lines (n + 1) = openBlocks lines n + EndKeyword.delta lines[n] := by
  rw [openBlocks, List.take_succ_eq_append_getElem h, balance_append, balance, balance, Int.add_zero, openBlocks]

/-- Counting from a header on is counting from the start of the file, less what is open before the header. -/
theorem balance_between (hfirst : 1 ≤ first) (hlast : first ≤ last) :
    balance ((lines.drop (first - 1)).take (last + 1 - first)) = openBlocks lines last - openBlocks lines (first - 1) := by
  have hcount : last + 1 - first = last - (first - 1) := by omega
  have hmin : min (first - 1) last = first - 1 := by omega
  have hsplit := congrArg balance (List.take_append_drop (first - 1) (lines.take last))
  rw [balance_append, List.take_take, hmin, List.drop_take, ← hcount] at hsplit
  rw [openBlocks, openBlocks, ← hsplit]
  omega

/-- A block that begins on a line ends where no more blocks are open than before that line. -/
theorem closesOn_iff (hfirst : 1 ≤ first) : ClosesOn lines first last ↔
    first ≤ last ∧ last ≤ lines.length ∧ openBlocks lines last ≤ openBlocks lines (first - 1) := by
  refine and_congr_right fun hlast => and_congr_right fun _ => ?_
  rw [balance_between hfirst hlast]
  omega

end Balance

section EndKeywordEnd

variable {lines : List Text} {first last n : Nat}

/-- The search from a line on finds the first line after which no more blocks are open than before the header, if there is one. -/
theorem endKeywordEnd_go {before : Int} {at_ : Nat} {rest : List Text} (hfirst : 1 ≤ at_) (hrest : lines.drop (at_ - 1) = rest)
    {depth : Int} (hdepth : depth = openBlocks lines (at_ - 1) - before) :
    IsLeast {n | at_ ≤ n ∧ n ≤ lines.length ∧ openBlocks lines n ≤ before} (endKeywordEnd.go lines depth at_ rest) ∨
      (∀ n, at_ ≤ n → n ≤ lines.length → before < openBlocks lines n) ∧ endKeywordEnd.go lines depth at_ rest = lines.length := by
  induction rest generalizing at_ depth with
  | nil =>
    refine Or.inr ⟨fun n hn hlast => ?_, rfl⟩
    have hend := List.drop_eq_nil_iff.1 hrest
    omega
  | cons l ls ih =>
    have hlt : at_ - 1 < lines.length := by
      refine Nat.lt_of_not_le fun hle => ?_
      rw [List.drop_eq_nil_of_le hle] at hrest
      nomatch hrest
    obtain ⟨rfl, hls⟩ := List.cons.inj ((List.drop_eq_getElem_cons hlt).symm.trans hrest)
    have hopen := openBlocks_succ hlt
    rw [Nat.sub_add_cancel hfirst] at hls hopen
    unfold endKeywordEnd.go
    dsimp only
    split
    · exact Or.inl ⟨⟨Nat.le_refl _, by omega, by omega⟩, fun n hn => hn.1⟩
    · have hstill : before < openBlocks lines at_ := by omega
      have hdepth' : depth + EndKeyword.delta lines[at_ - 1] = openBlocks lines (at_ + 1 - 1) - before := by
        rw [Nat.add_sub_cancel]
        omega
      rcases ih (Nat.succ_pos at_) hls hdepth' with ⟨hmem, hleast⟩ | ⟨hnone, hend⟩
      · refine Or.inl ⟨⟨Nat.le_of_succ_le hmem.1, hmem.2⟩, fun n hn => hleast ⟨?_, hn.2⟩⟩
        rcases Nat.eq_or_lt_of_le hn.1 with rfl | hlt
        · exact absurd hn.2.2 (Int.not_le.2 hstill)
        · exact hlt
      · refine Or.inr ⟨fun n hn hlast => ?_, hend⟩
        rcases Nat.eq_or_lt_of_le hn with rfl | hlt
        · exact hstill
        · exact hnone n hlt hlast

/-- The end of a block is the first line that closes it, or the last line of the file. -/
theorem endKeywordEnd_spec (hfirst : 1 ≤ first) (hlast : first ≤ lines.length) :
    IsLeast {n | ClosesOn lines first n} (endKeywordEnd lines first) ∨
      ¬ IsClosed lines first ∧ endKeywordEnd lines first = lines.length := by
  have hclosing : {n | ClosesOn lines first n} =
      {n | first ≤ n ∧ n ≤ lines.length ∧ openBlocks lines n ≤ openBlocks lines (first - 1)} := Set.ext fun n => closesOn_iff hfirst
  unfold endKeywordEnd
  dsimp only
  split
  · rename_i hendless
    have hlt : first - 1 < lines.length := by omega
    have hopen := openBlocks_succ hlt
    have hdelta : EndKeyword.delta lines[first - 1] = 0 := by
      rw [List.drop_eq_getElem_cons hlt, List.headD_cons] at hendless
      exact if_pos hendless
    rw [Nat.sub_add_cancel hfirst, hdelta] at hopen
    exact Or.inl ⟨(closesOn_iff hfirst).2 ⟨Nat.le_refl _, hlast, by omega⟩, fun n hn => hn.1⟩
  · rcases endKeywordEnd_go hfirst rfl (Int.sub_self (openBlocks lines (first - 1))).symm with hleast | ⟨hnone, hend⟩
    · exact Or.inl (hclosing ▸ hleast)
    · refine Or.inr ⟨?_, hend⟩
      rintro ⟨n, hn⟩
      obtain ⟨hn, hlast, hle⟩ := (closesOn_iff hfirst).1 hn
      exact absurd hle (Int.not_le.2 (hnone n hn hlast))

/-- A block that no line closes is cut at the last line. -/
theorem endKeywordEnd_of_not_closed (hfirst : 1 ≤ first) (hlast : first ≤ lines.length) (h : ¬ IsClosed lines first) :
    endKeywordEnd lines first = lines.length := by
  rcases endKeywordEnd_spec hfirst hlast with hleast | ⟨-, hend⟩
  · exact absurd ⟨_, hleast.1⟩ h
  · exact hend

/-- No block ends before it begins. -/
theorem le_endKeywordEnd (hfirst : 1 ≤ first) (hlast : first ≤ lines.length) : first ≤ endKeywordEnd lines first := by
  rcases endKeywordEnd_spec hfirst hlast with hleast | ⟨-, hend⟩
  · exact hleast.1.1
  · rwa [hend]

/-- More blocks are open than before the header up to the line before the end, or all along if the block is never closed. -/
theorem forall_lt_openBlocks_iff (hfirst : 1 ≤ first) (hn : first ≤ n) (hlast : n ≤ lines.length) :
    (∀ k, first ≤ k → k ≤ n → openBlocks lines (first - 1) < openBlocks lines k) ↔
      (IsClosed lines first → n < endKeywordEnd lines first) := by
  constructor
  · intro h hclosed
    rcases endKeywordEnd_spec hfirst (hn.trans hlast) with hleast | ⟨hnot, -⟩
    · refine Nat.lt_of_not_le fun hle => ?_
      obtain ⟨hfrom, -, hclose⟩ := (closesOn_iff hfirst).1 hleast.1
      exact absurd hclose (Int.not_le.2 (h _ hfrom hle))
    · exact absurd hclosed hnot
  · intro h k hk hkn
    refine Int.not_le.1 fun hle => ?_
    have hcloses : ClosesOn lines first k := (closesOn_iff hfirst).2 ⟨hk, hkn.trans hlast, hle⟩
    have hlt := h ⟨k, hcloses⟩
    rcases endKeywordEnd_spec hfirst (hn.trans hlast) with hleast | ⟨hnot, -⟩
    · have hend := hleast.2 hcloses
      omega
    · exact hnot ⟨k, hcloses⟩

end EndKeywordEnd

end CodeAtlas.Block
