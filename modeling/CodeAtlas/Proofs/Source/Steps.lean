import CodeAtlas.Proofs.Source.BraceSearch
import CodeAtlas.Proofs.Source.Scope
import CodeAtlas.Proofs.Source.Walk
import Mathlib.Data.List.Induction

/-!
# The owners of lines

The declaration that owns a line, as the stack of scopes has it, has been entered at an earlier line, and one brace more is open than
before that line. Over plain lines, the search for its closing brace that begins at its header has not ended before the owned line.
-/

namespace CodeAtlas

open Text ScopeStack
open Block (BraceScan)

variable {α : Type}

namespace ScopeStack

variable {steps : List (Step α)} {d : α}

/-- A further line is one more step. -/
theorem after_append (steps : List (Step α)) (st : Step α) : after (steps ++ [st]) = (after steps).step st := by
  rw [after, List.foldl_append, after]
  rfl

/-- Entering a declaration changes no depth. -/
theorem depth_enter (s : ScopeStack α) (entered : Option α) : (s.enter entered).depth = s.depth := by cases entered <;> rfl

/-- The depth is the number of braces that are open. -/
theorem depth_after (steps : List (Step α)) :
    (after steps).depth = ((codeOf steps).count '{' : Int) - (codeOf steps).count '}' := by
  suffices ∀ s : ScopeStack α, (steps.foldl step s).depth = s.depth + (((codeOf steps).count '{' : Int) - (codeOf steps).count '}') by
    have h := this {}
    rwa [Int.zero_add] at h
  induction steps with
  | nil => exact fun s => (Int.add_zero _).symm
  | cons st steps ih =>
    intro s
    have hstep : (s.step st).depth = s.depth + ((st.code.count '{' : Int) - st.code.count '}') := by
      show (s.enter st.entered).depth + _ = _
      rw [depth_enter]
    have hcode : codeOf (st :: steps) = st.code ++ codeOf steps := List.flatMap_cons
    rw [List.foldl_cons, ih, hstep, hcode, List.count_append, List.count_append]
    omega

/-- Scopes keep what they were entered with. -/
theorem of_mem_settle {depth : Int} {semicolon : Bool} {scopes : List (Scope α)} {c : Scope α} (h : c ∈ settle depth semicolon scopes) :
    ∃ c' ∈ scopes, c'.decl = c.decl ∧ c'.outer = c.outer := by
  induction scopes with
  | nil => nomatch h
  | cons top below ih =>
    unfold settle at h
    split at h
    · rcases List.mem_cons.1 h with rfl | h
      · exact ⟨top, List.mem_cons_self, rfl, rfl⟩
      · exact ⟨c, List.mem_cons_of_mem top h, rfl, rfl⟩
    · split at h
      · obtain ⟨c', hc', hsame⟩ := ih h
        exact ⟨c', List.mem_cons_of_mem top hc', hsame⟩
      · exact ⟨c, h, rfl, rfl⟩

/-- At the line with an index a declaration is entered. -/
def EntersAt (steps : List (Step α)) (i : Nat) (d : α) : Prop := ∃ st, steps[i]? = some st ∧ st.entered = some d

/-- A declaration is entered on one of the lines. -/
theorem EntersAt.lt_length {i : Nat} (h : EntersAt steps i d) : i < steps.length := by
  obtain ⟨st, hst, -⟩ := h
  exact (List.getElem?_eq_some_iff.1 hst).1

/-- A declaration that is entered is among those that are. -/
theorem EntersAt.mem {i : Nat} (h : EntersAt steps i d) : d ∈ steps.filterMap (·.entered) := by
  obtain ⟨st, hst, hentered⟩ := h
  exact List.mem_filterMap.2 ⟨st, List.mem_of_getElem? hst, hentered⟩

/-- It is entered on the same line when more lines follow. -/
theorem EntersAt.append {i : Nat} (h : EntersAt steps i d) (steps' : List (Step α)) : EntersAt (steps ++ steps') i d := by
  have hi := h.lt_length
  obtain ⟨st, hst, hentered⟩ := h
  exact ⟨st, by rwa [List.getElem?_append_left hi], hentered⟩

/-- With a further line, a declaration is entered as before or on that line. -/
theorem entersAt_append_singleton_iff {st : Step α} {i : Nat} :
    EntersAt (steps ++ [st]) i d ↔ EntersAt steps i d ∨ i = steps.length ∧ st.entered = some d := by
  constructor
  · intro h
    rcases Nat.lt_or_eq_of_le (Nat.le_of_lt_succ (by simpa using h.lt_length)) with hi | rfl
    · obtain ⟨st', hst', hentered⟩ := h
      rw [List.getElem?_append_left hi] at hst'
      exact Or.inl ⟨st', hst', hentered⟩
    · obtain ⟨st', hst', hentered⟩ := h
      rw [List.getElem?_concat_length, Option.some.injEq] at hst'
      exact Or.inr ⟨rfl, hst' ▸ hentered⟩
  · rintro (h | ⟨rfl, hentered⟩)
    · exact h.append [st]
    · exact ⟨st, List.getElem?_concat_length, hentered⟩

/-- Every scope has been entered at a line, at the depth before the line. -/
theorem exists_entersAt_of_mem_scopes {c : Scope α} (h : c ∈ (after steps).scopes) :
    ∃ i, EntersAt steps i c.decl ∧ c.outer = (after (steps.take i)).depth := by
  induction steps using List.reverseRecOn generalizing c with
  | nil => nomatch h
  | append_singleton steps st ih =>
    rw [after_append] at h
    obtain ⟨c', hc', hdecl, houter⟩ := of_mem_settle h
    have hold : c' ∈ (after steps).scopes → ∃ i, EntersAt (steps ++ [st]) i c.decl ∧ c.outer = (after ((steps ++ [st]).take i)).depth := by
      intro hc'
      obtain ⟨i, hi, hdepth⟩ := ih hc'
      rw [hdecl] at hi
      rw [houter] at hdepth
      refine ⟨i, hi.append [st], ?_⟩
      rwa [List.take_append_of_le_length (Nat.le_of_lt hi.lt_length)]
    cases hentered : st.entered with
    | none =>
      rw [hentered] at hc'
      exact hold hc'
    | some d =>
      rw [hentered] at hc'
      rcases List.mem_cons.1 hc' with rfl | hc'
      · refine ⟨steps.length, ⟨st, by simp, hentered.trans (congrArg some hdecl)⟩, ?_⟩
        rw [List.take_left, ← houter]
      · exact hold hc'

/-- The owner of a line has been entered at a line before, and one brace more is open than there. -/
theorem exists_entersAt_of_owner (h : (after steps).owner = some d) :
    ∃ i, EntersAt steps i d ∧ (after steps).depth = (after (steps.take i)).depth + 1 := by
  unfold owner at h
  split at h
  · rename_i top below hscopes
    split at h
    · rename_i hdepth
      cases h
      obtain ⟨i, hi, houter⟩ := exists_entersAt_of_mem_scopes (c := top) (by rw [hscopes]; exact List.mem_cons_self)
      exact ⟨i, hi, by rw [hdepth, houter]⟩
    · nomatch h
  · nomatch h

/-- Of a declaration that has been entered on a line, the search for its end stands one brace deep at the lines that it owns. -/
theorem eq_of_line_of_depth {i j : Nat} (hij : i ≤ j) (hdepth : (after (steps.take j)).depth = (after (steps.take i)).depth + 1)
    {s : BraceScan} (h : BraceScan.line {} (codeOf ((steps.take j).drop i)) = some s) : s = { depth := 1, opened := true } := by
  have hcode : codeOf (steps.take j) = codeOf (steps.take i) ++ codeOf ((steps.take j).drop i) := by
    rw [codeOf, codeOf, codeOf, ← List.flatMap_append]
    congr 1
    have htake : steps.take i = (steps.take j).take i := by rw [List.take_take, Nat.min_eq_left hij]
    rw [htake, List.take_append_drop]
  rw [depth_after, depth_after, hcode, List.count_append, List.count_append] at hdepth
  obtain ⟨hcounts, hopened⟩ := BraceScan.of_line_eq_some h
  obtain ⟨depth, opened⟩ := s
  dsimp only at hcounts hopened
  have hone : depth = 1 := by omega
  cases opened with
  | true => rw [hone]
  | false =>
    have hnone : (codeOf ((steps.take j).drop i)).count '{' = 0 := by
      refine List.count_eq_zero.2 fun hopen => ?_
      exact absurd ((hopened rfl).2 '{' hopen) (by decide)
    omega

end ScopeStack

namespace Nesting

variable {n : Nesting α} {code : Text} {d : α} {s : BraceScan} {steps : List (Step α)}

/-- The owner is a declaration that is around. -/
theorem mem_around_of_owner (h : n.owner = some d) : d ∈ n.around := by
  unfold owner at h
  split at h
  · obtain ⟨ds, hds, hd⟩ := Option.bind_eq_some_iff.1 h
    exact List.mem_append_right _ (List.mem_flatten.2 ⟨ds, List.mem_of_mem_head? hds, List.mem_of_mem_head? hd⟩)
  · nomatch h

/-- As long as a declaration whose body is open is around, the search for its end goes on. -/
theorem line_of_body {inner outer : List (List α)} {ds : List α} (hbraces : n.braces = inner ++ ds :: outer) (hd : d ∈ ds)
    (hnodup : n.around.Nodup) (haround : d ∈ (n.read code).around) :
    ∃ inner', (n.read code).braces = inner' ++ ds :: outer ∧
      BraceScan.line { depth := inner.length + 1, opened := true } code = some { depth := inner'.length + 1, opened := true } := by
  induction code generalizing n inner with
  | nil => exact ⟨inner, hbraces, rfl⟩
  | cons c r ih =>
    have hnodup' : (n.next c).around.Nodup := hnodup.sublist (around_read_sublist n [c])
    by_cases hopen : c = '{'
    · subst hopen
      exact ih (show n.waiting :: n.braces = (n.waiting :: inner) ++ ds :: outer by rw [hbraces]; rfl) hnodup' haround
    · by_cases hclose : c = '}'
      · subst hclose
        cases inner with
        | nil =>
          have hleft : d ∈ n.waiting ++ n.braces.tail.flatten := (around_read_sublist (n.next '}') r).mem haround
          rw [around, hbraces, List.nil_append, List.flatten_cons] at hnodup
          rw [hbraces, List.nil_append, List.tail_cons] at hleft
          have hapart := (List.nodup_append.1 ((List.perm_append_comm_assoc _ _ _).nodup_iff.1 hnodup)).2.2
          exact absurd rfl (hapart d hd d hleft)
        | cons ds' inner =>
          have hgoes : ¬ (true = true ∧ ((ds' :: inner).length : Int) + 1 - 1 ≤ 0) := by
            simp
          have hdepth : ((ds' :: inner).length : Int) + 1 - 1 = inner.length + 1 := by simp
          rw [BraceScan.line_close hgoes]
          dsimp only
          rw [hdepth]
          exact ih (show n.braces.tail = inner ++ ds :: outer by rw [hbraces]; rfl) hnodup' haround
      · have hbraces' : (n.next c).braces = inner ++ ds :: outer := by
          rw [← hbraces]
          simp only [next, if_neg hopen, if_neg hclose]
          split <;> rfl
        rw [BraceScan.line_other hopen hclose (by simp)]
        exact ih hbraces' hnodup' haround

/-- What a search for the end of a declaration has seen when the declaration is around: nothing while its header waits, and then the
braces from its own on. -/
def Tracks (n : Nesting α) (d : α) (s : BraceScan) : Prop :=
  (d ∈ n.waiting ∧ s = {}) ∨
    ∃ inner ds outer, n.braces = inner ++ ds :: outer ∧ d ∈ ds ∧ s = { depth := inner.length + 1, opened := true }

/-- Entering a declaration does not change how the search for the end of another one goes on. -/
theorem Tracks.enter (h : n.Tracks d s) (entered : Option α) : (n.enter entered).Tracks d s := by
  rcases h with ⟨hd, hs⟩ | ⟨inner, ds, outer, hbraces, hd, hs⟩
  · refine Or.inl ⟨?_, hs⟩
    cases entered with
    | none => exact hd
    | some d' => exact List.mem_cons_of_mem d' hd
  · exact Or.inr ⟨inner, ds, outer, by rwa [braces_enter], hd, hs⟩

/-- Over a plain line, the search goes on as long as the declaration is around. -/
theorem Tracks.read (h : n.Tracks d s) (hplain : n.Plain code) (hdip : dip code ≤ n.braces.length) (hnodup : n.around.Nodup)
    (haround : d ∈ (n.read code).around) : ∃ s', s.line code = some s' ∧ (n.read code).Tracks d s' := by
  rcases h with ⟨hd, rfl⟩ | ⟨inner, ds, outer, hbraces, hd, rfl⟩
  · have hwaiting : n.waiting ≠ [] := List.ne_nil_of_mem hd
    obtain ⟨braces, waiting⟩ := n
    cases hfate : fate code with
    | waits =>
      have hcode := before_of_waits hfate
      have hzero := hplain.waits hwaiting hfate
      rw [read_before hcode, hzero]
      exact ⟨{}, BraceScan.line_of_before hcode ((dip_before_eq_zero_iff hcode).1 hzero), Or.inl ⟨hd, rfl⟩⟩
    | opens =>
      obtain ⟨pre, r, rfl, hpre, hr, -, hsame, -⟩ := exists_of_opens hfate
      obtain ⟨hone, hzero⟩ := (plain_iff_of_opens hwaiting hfate).1 hplain
      obtain ⟨d', rfl⟩ := List.length_eq_one_iff.1 hone
      obtain rfl := List.mem_singleton.1 hd
      rw [hsame] at hzero
      rw [read_append, read_before hpre, hzero] at haround ⊢
      rw [BraceScan.line_append, BraceScan.line_of_before hpre ((dip_before_eq_zero_iff hpre).1 hzero)]
      have hbody : ({ braces := [d] :: braces } : Nesting α).braces = [] ++ [d] :: braces := rfl
      obtain ⟨inner', hread, hline⟩ := line_of_body hbody hd hnodup haround
      exact ⟨_, hline, Or.inr ⟨inner', [d], braces, hread, hd, rfl⟩⟩
    | ends =>
      rw [read_of_ends hfate hdip] at haround
      have hbody : d ∈ braces.flatten := (around_read_sublist { braces } code).mem haround
      exact absurd rfl ((List.nodup_append.1 hnodup).2.2 d hd d hbody)
  · obtain ⟨inner', hread, hline⟩ := line_of_body hbraces hd hnodup haround
    exact ⟨_, hline, Or.inr ⟨inner', ds, outer, hread, hd, rfl⟩⟩

/-- What is around after some lines has been around before them or has been entered on them. -/
theorem mem_around_foldl (h : d ∈ (steps.foldl step n).around) : d ∈ steps.filterMap (·.entered) ∨ d ∈ n.around := by
  induction steps generalizing n with
  | nil => exact Or.inr h
  | cons st steps ih =>
    rcases ih h with hd | hd
    · exact Or.inl ((List.sublist_cons_self st steps).filterMap _ |>.mem hd)
    · have henter := (around_read_sublist (n.enter st.entered) st.code).mem hd
      rw [around_enter] at henter
      rcases List.mem_append.1 henter with hd | hd
      · exact Or.inl (List.mem_filterMap.2 ⟨st, List.mem_cons_self, Option.mem_toList.1 hd⟩)
      · exact Or.inr hd

/-- Over plain lines on which declarations are entered once, the search goes on as long as the declaration is around. -/
theorem Tracks.foldl (h : n.Tracks d s) (hdip : dip (codeOf steps) ≤ n.braces.length) (hplain : PlainFrom n steps)
    (hnodup : (steps.filterMap (·.entered) ++ n.around).Nodup) (hbefore : d ∈ n.around) (haround : d ∈ (steps.foldl step n).around) :
    ∃ s', s.line (codeOf steps) = some s' ∧ (steps.foldl step n).Tracks d s' := by
  induction steps generalizing n s with
  | nil => exact ⟨s, rfl, h⟩
  | cons st steps ih =>
    obtain ⟨hline, hrest⟩ := dip_le_of_codeOf hdip
    obtain ⟨henter, hstep⟩ := nodup_step hnodup
    have hhere : d ∈ (n.step st).around := by
      refine (mem_around_foldl (n := n.step st) haround).resolve_left fun hlater => ?_
      have hd : d ∈ (n.enter st.entered).around := by
        rw [around_enter]
        exact List.mem_append_right _ hbefore
      exact (List.nodup_append.1 henter).2.2 d hlater d hd rfl
    obtain ⟨next, hnext, htracks⟩ := (h.enter st.entered).read hplain.1 hline (List.nodup_append.1 henter).2.1 hhere
    obtain ⟨s', hs', htracks'⟩ := ih htracks hrest hplain.2 hstep hhere haround
    have hcode : codeOf (st :: steps) = st.code ++ codeOf steps := List.flatMap_cons
    refine ⟨s', ?_, htracks'⟩
    rw [hcode, BraceScan.line_append, hnext]
    exact hs'

/-- The last of some plain lines are plain, from where the first ones lead. -/
theorem PlainFrom.append {before after : List (Step α)} (h : PlainFrom n (before ++ after)) : PlainFrom (before.foldl step n) after := by
  induction before generalizing n with
  | nil => exact h
  | cons st before ih => exact ih h.2

/-- They close no more braces than are open there. -/
theorem dip_codeOf_append_le {before after : List (Step α)} (h : dip (codeOf (before ++ after)) ≤ n.braces.length) :
    dip (codeOf after) ≤ (before.foldl step n).braces.length := by
  induction before generalizing n with
  | nil => exact h
  | cons st before ih => exact ih (dip_le_of_codeOf h).2

/-- No declaration around is entered again on them. -/
theorem nodup_foldl {before after : List (Step α)} (h : ((before ++ after).filterMap (·.entered) ++ n.around).Nodup) :
    (after.filterMap (·.entered) ++ (before.foldl step n).around).Nodup := by
  induction before generalizing n with
  | nil => exact h
  | cons st before ih => exact ih (nodup_step h).2

/-- Where declarations are entered once, and lines are plain ones that do not close more braces than have been opened, the search for the
end of a declaration that is around has not ended. -/
theorem exists_line_of_entersAt {i : Nat} (hdip : dip (codeOf steps) = 0) (hplain : PlainFrom {} steps)
    (hnodup : (steps.filterMap (·.entered)).Nodup) (hi : EntersAt steps i d) (haround : d ∈ (after steps).around) :
    ∃ s', BraceScan.line {} (codeOf (steps.drop i)) = some s' := by
  have hlength := hi.lt_length
  obtain ⟨⟨entered, code⟩, hst, hentered⟩ := hi
  cases hentered
  have hdrop : steps.drop i = ⟨some d, code⟩ :: steps.drop (i + 1) := by
    rw [List.drop_eq_getElem_cons hlength, (List.getElem?_eq_some_iff.1 hst).2]
  have hsteps : steps.take i ++ ⟨some d, code⟩ :: steps.drop (i + 1) = steps := by rw [← hdrop, List.take_append_drop]
  rw [← hsteps] at hdip hplain hnodup haround
  rw [after, List.foldl_append] at haround
  have hnil : ({} : Nesting α).around = [] := rfl
  rw [← List.append_nil (List.filterMap _ _), ← hnil] at hnodup
  have hnodup' := nodup_foldl hnodup
  rw [filterMap_entered_cons, List.append_assoc] at hnodup'
  have hplain' := hplain.append
  have hdip' := dip_codeOf_append_le (n := {}) (Nat.le_of_eq hdip)
  generalize (steps.take i).foldl step {} = n at haround hnodup' hplain' hdip'
  have htracks : (n.enter (some d)).Tracks d {} := Or.inl ⟨List.mem_cons_self, rfl⟩
  have hdip'' : dip (codeOf (⟨none, code⟩ :: steps.drop (i + 1))) ≤ (n.enter (some d)).braces.length := hdip'
  have hplain'' : PlainFrom (n.enter (some d)) (⟨none, code⟩ :: steps.drop (i + 1)) := hplain'
  have hfresh : ((⟨none, code⟩ :: steps.drop (i + 1)).filterMap (·.entered) ++ (n.enter (some d)).around).Nodup := by
    rw [filterMap_entered_cons, around_enter]
    exact (List.perm_append_comm_assoc _ _ _).nodup_iff.1 hnodup'
  obtain ⟨s', hs', -⟩ := htracks.foldl hdip'' hplain'' hfresh List.mem_cons_self haround
  rw [hdrop]
  exact ⟨s', hs'⟩

end Nesting

/-! ## The range around an owned line -/

section Range

variable {noise : Noise} {lines : List Text} {steps : List (Step α)} {d : α} {i j : Nat}

/-- The code of some steps is that of their lines. -/
theorem codeOf_drop_take (hcode : steps.map (·.code) = lines.map noise.strip) (i j : Nat) :
    codeOf ((steps.take j).drop i) = noise.code ((lines.drop i).take (j - i)) := by
  rw [codeOf, Noise.code, List.flatMap_def, List.flatMap_def, List.map_drop, List.map_take, hcode, List.map_take, List.map_drop,
    List.drop_take]

/-- As long as the search for the end of a declaration is not over at a line that the declaration owns, it stands one brace deep there. -/
theorem braceEnd_eq_of_le (hcode : steps.map (·.code) = lines.map noise.strip) (hij : i ≤ j) (hj : j ≤ lines.length)
    (hdepth : (after (steps.take j)).depth = (after (steps.take i)).depth + 1) (hle : j + 1 ≤ Block.braceEnd noise lines (i + 1)) :
    Block.braceEnd noise lines (i + 1) =
      Block.braceEndBy.go noise.strip lines (i + 1) { depth := 1, opened := true } (j + 1) (lines.drop j) := by
  have hcount : i + 1 + (j - i) = j + 1 := by omega
  rw [Block.braceEnd, Block.braceEndBy, Nat.add_sub_cancel] at hle ⊢
  cases hline : BraceScan.line {} (noise.code ((lines.drop i).take (j - i))) with
  | none =>
    have hlt : Block.braceEndBy.go noise.strip lines (i + 1) {} (i + 1) (lines.drop i) < i + 1 + (j - i) := Block.braceEndBy_go_of_none hline
    omega
  | some s =>
    rw [← codeOf_drop_take hcode] at hline
    obtain rfl := eq_of_line_of_depth hij hdepth hline
    rw [codeOf_drop_take hcode] at hline
    rw [Block.braceEndBy_go_of_some (by rw [List.length_drop]; omega) hline, hcount, List.drop_drop, Nat.add_sub_cancel' hij]

/-- Where declarations are entered once, and lines are plain ones that do not close more braces than have been opened, the search is
not over at a line that the declaration owns. -/
theorem le_braceEnd_of_owner (hcode : steps.map (·.code) = lines.map noise.strip) (hj : j < lines.length) (hi : EntersAt (steps.take j) i d)
    (hdepth : (after (steps.take j)).depth = (after (steps.take i)).depth + 1) (howner : (after (steps.take j)).owner = some d)
    (hdip : dip (codeOf steps) = 0) (hplain : Nesting.PlainFrom {} steps) (hnodup : (steps.filterMap (·.entered)).Nodup) :
    j + 1 ≤ Block.braceEnd noise lines (i + 1) := by
  have hij : i < j := Nat.lt_of_lt_of_le hi.lt_length (List.length_take_le j steps)
  have hcount : i + 1 + (j - i) = j + 1 := by omega
  have hdip' : dip (codeOf (steps.take j)) = 0 := Nat.le_zero.1 (hdip ▸ Nesting.dip_codeOf_take_le steps j)
  have hstack : after (steps.take j) = (Nesting.after (steps.take j)).toStack :=
    Nesting.foldl_toStack (Nat.le_of_eq hdip') (hplain.take j)
  have haround : d ∈ (Nesting.after (steps.take j)).around := by
    rw [hstack, Nesting.owner_toStack] at howner
    exact Nesting.mem_around_of_owner howner
  have honce : ((steps.take j).filterMap (·.entered)).Nodup := hnodup.sublist ((List.take_sublist j steps).filterMap _)
  obtain ⟨s, hline⟩ := Nesting.exists_line_of_entersAt hdip' (hplain.take j) honce hi haround
  obtain rfl := eq_of_line_of_depth (Nat.le_of_lt hij) hdepth hline
  rw [codeOf_drop_take hcode] at hline
  rw [Block.braceEnd, Block.braceEndBy, Nat.add_sub_cancel, Block.braceEndBy_go_of_some (by rw [List.length_drop]; omega) hline, hcount]
  refine Block.le_braceEndBy_go rfl ?_ ?_
  · exact List.ne_nil_of_length_pos (by rw [List.length_drop, List.length_drop]; omega)
  · rw [List.length_drop, List.length_drop]
    omega

/-- A declaration that begins on an owned line ends within its owner if it ends before a brace is closed. -/
theorem braceEnd_le_of_ends (hcode : steps.map (·.code) = lines.map noise.strip) (hij : i ≤ j) (hj : j < lines.length)
    (hdepth : (after (steps.take j)).depth = (after (steps.take i)).depth + 1) (hle : j + 1 ≤ Block.braceEnd noise lines (i + 1))
    (h : Block.EndsBeforeClose noise lines (j + 1)) : Block.braceEnd noise lines (j + 1) ≤ Block.braceEnd noise lines (i + 1) := by
  rw [braceEnd_eq_of_le hcode hij (Nat.le_of_lt hj) hdepth hle]
  exact Block.braceEndBy_go_le_of_mark hj (by rw [List.length_drop]; omega) h

/-- And it ends below its owner if a brace is closed first, and what ends it follows on a later line. -/
theorem braceEnd_lt_of_runs (hcode : steps.map (·.code) = lines.map noise.strip) (hij : i ≤ j) (hj : j < lines.length)
    (hdepth : (after (steps.take j)).depth = (after (steps.take i)).depth + 1) (hle : j + 1 ≤ Block.braceEnd noise lines (i + 1))
    (h : Block.RunsPastClose noise lines (j + 1)) : Block.braceEnd noise lines (i + 1) < Block.braceEnd noise lines (j + 1) := by
  obtain ⟨k, hbefore, hclose, hmark⟩ := h
  rw [braceEnd_eq_of_le hcode hij (Nat.le_of_lt hj) hdepth hle]
  refine Block.braceEndBy_go_lt_of_close (k := k) ?_ (by rw [List.length_drop]; omega) hbefore hclose hmark
  refine Nat.le_of_lt (Nat.lt_of_not_le fun hk => ?_)
  obtain ⟨c, hc, -⟩ := hmark
  rw [Nat.add_sub_cancel, List.drop_eq_nil_of_le hk] at hc
  nomatch hc

end Range

/-! ## The lines of a walk -/

namespace Walk

variable {ν β : Type} {skipHash : Bool} {visit : Text → Nat → Walk ν → Walk ν} {w : Walk ν}

/-- The header that a visitor is shown at the first of the lines, if there is code on it. -/
def header? (skipHash : Bool) (noise : Noise) (lines : List Text) : Option Text :=
  let trimmed := strip (lines.headD [])
  if trimmed.isEmpty || Header.isComment trimmed || (skipHash && trimmed.startsWith "#") then none
  else some (if (noise.strip (lines.headD [])).contains '(' then Header.joined noise lines else trimmed)

/-- A line is visited by its header, if it has one, and read on. -/
theorem visitLine_eq (skipHash : Bool) (visit : Text → Nat → Walk ν → Walk ν) (lines : List Text) (line : Nat) (w : Walk ν) :
    visitLine skipHash visit lines line w =
      match header? skipHash w.scan.noise lines with
      | none => w
      | some header => visit header line w := by
  unfold visitLine header?
  dsimp only
  split <;> rfl

/-- The declaration that is entered from one stack to another. -/
def entered? (before after : ScopeStack Declaration) : Option Declaration :=
  if before.scopes.length < after.scopes.length then after.scopes.head?.map Scope.decl else none

/-- What has been entered is seen from the scopes. -/
theorem entered?_enter (s : ScopeStack Declaration) (entered : Option Declaration) : entered? s (s.enter entered) = entered := by
  cases entered <;> simp [entered?, enter, ScopeStack.push]

/-- The lines from number `line` on as the stack of scopes sees them. -/
def stepsFrom (skipHash : Bool) (visit : Text → Nat → Walk ν → Walk ν) : (line : Nat) → List Text → Walk ν → List (Step Declaration)
  | _, [], _ => []
  | line, l :: ls, w =>
    let visited := visitLine skipHash visit (l :: ls) line w
    { entered := entered? w.scopes visited.scopes, code := w.scan.noise.strip l } ::
      stepsFrom skipHash visit (line + 1) ls (visited.advance (w.scan.noise.strip l))

/-- Where visits keep the rules for comments and strings, the code of the lines is that of the file. -/
theorem map_code_stepsFrom (hnoise : ∀ header line (w : Walk ν), (visit header line w).scan.noise = w.scan.noise) (line : Nat)
    (lines : List Text) (w : Walk ν) : (stepsFrom skipHash visit line lines w).map (·.code) = lines.map w.scan.noise.strip := by
  induction lines generalizing line w with
  | nil => rfl
  | cons l ls ih =>
    have hvisited : (visitLine skipHash visit (l :: ls) line w).scan.noise = w.scan.noise :=
      visitLine_induction (I := fun w' => w'.scan.noise = w.scan.noise) rfl fun header => hnoise header line w
    rw [stepsFrom, List.map_cons, ih, List.map_cons]
    dsimp only [advance]
    rw [hvisited]

/-- What is noted of the headers on the lines from number `line` on. -/
def gatherFrom (skipHash : Bool) (visit : Text → Nat → Walk ν → Walk ν) (note : Text → Nat → Walk ν → Option β) :
    (line : Nat) → List Text → Walk ν → List β
  | _, [], _ => []
  | line, l :: ls, w =>
    ((header? skipHash w.scan.noise (l :: ls)).bind fun header => note header line w).toList ++
      gatherFrom skipHash visit note (line + 1) ls ((visitLine skipHash visit (l :: ls) line w).advance (w.scan.noise.strip l))

end Walk

end CodeAtlas
