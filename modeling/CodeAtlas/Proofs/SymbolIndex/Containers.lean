import CodeAtlas.SymbolIndex.Resolve
import Mathlib.Data.List.GetD

/-!
# The entity that a line belongs to

The entities of a file stand in rows, ordered by line and id. Halving finds how many rows begin at or before a line. So a line belongs
to the entity that comes last, in the order of lines and ids, among those that begin at or before it; where an entity ends does not
count.
-/

namespace CodeAtlas

namespace IndexedSymbols

/-! ## The search -/

/-- What is known of the number of start lines at or before a line: it is at least `low` and at most `high`. -/
structure Between (starts : List Int) (line : Int) (low high : Nat) : Prop where
  order : low ≤ high
  bound : high ≤ starts.length
  before : ∀ i (h : i < starts.length), i < low → starts[i] ≤ line
  after : ∀ i (h : i < starts.length), high ≤ i → line < starts[i]

/-- In the beginning the search is between all starts. -/
theorem between_start (starts : List Int) (line : Int) : Between starts line 0 starts.length where
  order := Nat.zero_le _
  bound := Nat.le_refl _
  before := fun _ _ h => absurd h (Nat.not_lt_zero _)
  after := fun _ hi h => absurd hi (Nat.not_lt.2 h)

/-- In an ordered list, what comes later is not smaller. -/
theorem getElem_le_of_le {starts : List Int} (hs : starts.Pairwise (· ≤ ·)) {i j : Nat} (hij : i ≤ j) (hj : j < starts.length) :
    starts[i] ≤ starts[j] := by
  rcases Nat.lt_or_eq_of_le hij with hlt | rfl
  · exact List.pairwise_iff_getElem.1 hs i j (by omega) hj hlt
  · exact Int.le_refl _

/-- A line before the middle leaves the first half. -/
theorem Between.lower {starts : List Int} {line : Int} {low middle high : Nat} (hs : starts.Pairwise (· ≤ ·))
    (h : Between starts line low high) (hlow : low ≤ middle) (hbound : middle < starts.length) (hmiddle : line < starts[middle]) :
    Between starts line low middle where
  order := hlow
  bound := Nat.le_of_lt hbound
  before := h.before
  after := fun _ hi hle => Int.lt_of_lt_of_le hmiddle (getElem_le_of_le hs hle hi)

/-- Any other line leaves the second half. -/
theorem Between.upper {starts : List Int} {line : Int} {low middle high : Nat} (hs : starts.Pairwise (· ≤ ·))
    (h : Between starts line low high) (hhigh : middle < high) (hbound : middle < starts.length) (hmiddle : starts[middle] ≤ line) :
    Between starts line (middle + 1) high where
  order := hhigh
  bound := h.bound
  before := fun _ _ hlt => Int.le_trans (getElem_le_of_le hs (Nat.le_of_lt_succ hlt) hbound) hmiddle
  after := h.after

/-- Halving ends with the number itself. -/
theorem between_begunBy {starts : List Int} {line : Int} (hs : starts.Pairwise (· ≤ ·)) {low high : Nat}
    (h : Between starts line low high) : Between starts line (begunBy starts line low high) (begunBy starts line low high) := by
  fun_induction begunBy starts line low high with
  | case1 low high hlt middle hline ih =>
    have hbound : middle < starts.length := Nat.lt_of_lt_of_le (by omega) h.bound
    rw [List.getD_eq_getElem starts 0 hbound] at hline
    exact ih (h.lower hs (by omega) hbound hline)
  | case2 low high hlt middle hline ih =>
    have hbound : middle < starts.length := Nat.lt_of_lt_of_le (by omega) h.bound
    rw [List.getD_eq_getElem starts 0 hbound] at hline
    exact ih (h.upper hs (by omega) hbound (Int.not_lt.1 hline))
  | case3 low high hlt =>
    obtain rfl : low = high := Nat.le_antisymm h.order (Nat.not_lt.1 hlt)
    exact h

/-! ## The rows of a file -/

/-- An entity comes before another one by its line, and on one line by its id. -/
theorem startsBefore_iff {a b : Entity} :
    startsBefore a b = true ↔ a.startLine < b.startLine ∨ a.startLine = b.startLine ∧ a.id ≤ b.id := by
  rw [startsBefore, Bool.or_eq_true, decide_eq_true_iff, Bool.and_eq_true, beq_iff_eq, decide_eq_true_iff]

/-- The order of entities is reflexive. -/
theorem startsBefore_refl (a : Entity) : startsBefore a a = true := startsBefore_iff.2 (Or.inr ⟨rfl, String.le_refl _⟩)

/-- It is transitive. -/
theorem startsBefore_trans (a b c : Entity) (hab : startsBefore a b = true) (hbc : startsBefore b c = true) :
    startsBefore a c = true := by
  rw [startsBefore_iff] at hab hbc ⊢
  rcases hab with hab | ⟨hab, hid⟩ <;> rcases hbc with hbc | ⟨hbc, hid'⟩
  · exact Or.inl (by omega)
  · exact Or.inl (by omega)
  · exact Or.inl (by omega)
  · exact Or.inr ⟨hab.trans hbc, String.le_trans hid hid'⟩

/-- It is total. -/
theorem startsBefore_total (a b : Entity) : (startsBefore a b || startsBefore b a) = true := by
  rw [Bool.or_eq_true, startsBefore_iff, startsBefore_iff]
  rcases Int.lt_trichotomy a.startLine b.startLine with h | h | h
  · exact Or.inl (Or.inl h)
  · rcases String.le_total a.id b.id with hid | hid
    · exact Or.inl (Or.inr ⟨h, hid⟩)
    · exact Or.inr (Or.inr ⟨h.symm, hid⟩)
  · exact Or.inr (Or.inl h)

/-- Two entities that come before each other have one id. -/
theorem id_eq_of_startsBefore {a b : Entity} (hab : startsBefore a b = true) (hba : startsBefore b a = true) : a.id = b.id := by
  rw [startsBefore_iff] at hab hba
  rcases hab with hab | ⟨hab, hid⟩ <;> rcases hba with hba | ⟨hba, hid'⟩
  · omega
  · omega
  · omega
  · exact String.le_antisymm hid hid'

/-- The entities of a file in the order of their rows. -/
def inOrder (entities : List Entity) (path : String) : List Entity :=
  (entities.filter fun e => e.filePath == path).mergeSort startsBefore

/-- The rows of a file are its entities. -/
theorem mem_inOrder {entities : List Entity} {path : String} {e : Entity} :
    e ∈ inOrder entities path ↔ e ∈ entities ∧ e.filePath = path := by
  rw [inOrder, List.mem_mergeSort, List.mem_filter, beq_iff_eq]

/-- They are in order. -/
theorem pairwise_inOrder (entities : List Entity) (path : String) :
    (inOrder entities path).Pairwise fun a b => startsBefore a b = true :=
  List.pairwise_mergeSort startsBefore_trans startsBefore_total _

/-- A row comes before those behind it. -/
theorem startsBefore_getElem_inOrder {entities : List Entity} {path : String} {i j : Nat} (hij : i ≤ j)
    (hj : j < (inOrder entities path).length) :
    startsBefore (inOrder entities path)[i] (inOrder entities path)[j] = true := by
  rcases Nat.lt_or_eq_of_le hij with hlt | rfl
  · exact List.pairwise_iff_getElem.1 (pairwise_inOrder entities path) i j (by omega) hj hlt
  · exact startsBefore_refl _

/-- A number of entities of a file, in their order, begin at or before a line: all before it, and none from it on. -/
theorem exists_begun (entities : List Entity) (path : String) (line : Int) :
    ∃ n ≤ (inOrder entities path).length,
      container? (rowsOf entities path) line = (if n = 0 then none else (inOrder entities path)[n - 1]?.map (·.id)) ∧
        ∀ i (h : i < (inOrder entities path).length), (inOrder entities path)[i].startLine ≤ line ↔ i < n := by
  obtain ⟨starts, hstarts⟩ : ∃ starts, starts = (inOrder entities path).map Entity.startLine := ⟨_, rfl⟩
  have hlength : starts.length = (inOrder entities path).length := hstarts ▸ List.length_map Entity.startLine
  have hget : ∀ i (h : i < (inOrder entities path).length) (hstart : i < starts.length),
      starts[i] = (inOrder entities path)[i].startLine := by
    subst hstarts
    exact fun i h _ => List.getElem_map Entity.startLine
  have hsorted : starts.Pairwise (· ≤ ·) := by
    refine hstarts ▸ List.pairwise_map.2 ((pairwise_inOrder entities path).imp fun {a b} hab => ?_)
    rcases startsBefore_iff.1 hab with h | ⟨h, -⟩ <;> omega
  obtain ⟨n, hn⟩ : ∃ n, n = begunBy starts line 0 starts.length := ⟨_, rfl⟩
  have h : Between starts line n n := hn ▸ between_begunBy hsorted (between_start starts line)
  refine ⟨n, hlength ▸ h.bound, ?_, fun i hi => ⟨fun hle => ?_, fun hlt => ?_⟩⟩
  · have hrows : begunBy ((rowsOf entities path).map (·.1)) line 0 (rowsOf entities path).length = n := by
      rw [hn, hstarts, List.length_map, rowsOf, List.map_map, List.length_map]
      rfl
    rw [container?, hrows]
    cases n with
    | zero => rfl
    | succ before =>
      rw [if_neg (Nat.succ_ne_zero before), Nat.add_sub_cancel]
      show ((rowsOf entities path)[before]?).map (·.2) = _
      rw [rowsOf, List.getElem?_map, Option.map_map]
      rfl
  · refine Nat.lt_of_not_le fun hge => ?_
    have hafter := h.after i (hlength ▸ hi) hge
    rw [hget i hi] at hafter
    omega
  · have hbefore := h.before i (hlength ▸ hi) hlt
    rwa [hget i hi] at hbefore

/-! ## The entity itself -/

/-- An entity of a file begins at or before a line, and among the entities of the file that do so it comes last in the order of lines and
ids. -/
structure IsLatest (entities : List Entity) (path : String) (line : Int) (e : Entity) : Prop where
  mem : e ∈ entities
  filePath : e.filePath = path
  begun : e.startLine ≤ line
  last : ∀ e' ∈ entities, e'.filePath = path → e'.startLine ≤ line → startsBefore e' e = true

/-- A line belongs to the latest entity. -/
theorem container?_rowsOf_eq_some_iff {entities : List Entity} {path id : String} {line : Int} :
    container? (rowsOf entities path) line = some id ↔ ∃ e, IsLatest entities path line e ∧ e.id = id := by
  obtain ⟨n, hn, hcontainer, hbegun⟩ := exists_begun entities path line
  rw [hcontainer]
  constructor
  · intro h
    split at h
    · nomatch h
    obtain ⟨e, he, rfl⟩ := Option.map_eq_some_iff.1 h
    obtain ⟨hlt, rfl⟩ := List.getElem?_eq_some_iff.1 he
    obtain ⟨hmem, hpath⟩ := mem_inOrder.1 (List.getElem_mem hlt)
    refine ⟨_, ⟨hmem, hpath, (hbegun _ hlt).2 (by omega), fun e' he' hpath' hline => ?_⟩, rfl⟩
    obtain ⟨i, hi, rfl⟩ := List.getElem_of_mem (mem_inOrder.2 ⟨he', hpath'⟩)
    have hlast := (hbegun i hi).1 hline
    exact startsBefore_getElem_inOrder (by omega) hlt
  · rintro ⟨e, he, rfl⟩
    obtain ⟨i, hi, rfl⟩ := List.getElem_of_mem (mem_inOrder.2 ⟨he.mem, he.filePath⟩)
    have hpos := (hbegun i hi).1 he.begun
    have hlt : n - 1 < (inOrder entities path).length := by omega
    obtain ⟨hmem, hpath⟩ := mem_inOrder.1 (List.getElem_mem hlt)
    have hle := he.last _ hmem hpath ((hbegun _ hlt).2 (by omega))
    have hge := startsBefore_getElem_inOrder (Nat.le_sub_one_of_lt hpos) hlt
    rw [if_neg (by omega), List.getElem?_eq_getElem hlt, Option.map_some, id_eq_of_startsBefore hle hge]

end IndexedSymbols

end CodeAtlas
