import CodeAtlas.Proofs.SymbolIndex.Framing

/-!
# Reading a buffer by offsets

Windows are parts of one buffer, and a reader that is given the buffer and two offsets asks for its bytes one by one. Here the reader
is written that way, with a record of the offsets it asks for. It comes to the same results as reading the windows, it asks only for
bytes between its offsets, from front to back and for none of them twice, and its loops end: each of their turns takes a byte at least.
-/

namespace CodeAtlas.Wire

variable {α β : Type}

/-! ## Records of a reading -/

/-- How a reading ends: with a result, with bytes that are no well-formed message, at an offset where the buffer has no byte, or with a
loop that has not come to its end. -/
inductive Ending (α : Type) where
  | done (a : α)
  | malformed (e : Malformed)
  | outside (offset : Nat)
  | unfinished

/-- A reading of a buffer: the offsets asked for, in order, and how it ends. -/
structure Trace (α : Type) where
  asked : List Nat
  ending : Ending α

/-- The ending that a result stands for. -/
def Ending.ofExcept : Except Malformed α → Ending α
  | .ok a => .done a
  | .error e => .malformed e

namespace Trace

/-- What follows a reading that has come to a result. -/
def andThen (t : Trace α) (f : α → Trace β) : Trace β :=
  match t.ending with
  | .done a => ⟨t.asked ++ (f a).asked, (f a).ending⟩
  | .malformed e => ⟨t.asked, .malformed e⟩
  | .outside offset => ⟨t.asked, .outside offset⟩
  | .unfinished => ⟨t.asked, .unfinished⟩

/-- Questions that are asked one after the other. -/
instance : Monad Trace where
  pure a := ⟨[], .done a⟩
  bind := andThen

/-- Gives up on malformed bytes. -/
def refuse (e : Malformed) : Trace α := ⟨[], .malformed e⟩

/-- A loop that is allowed no more turns. -/
def exhausted : Trace α := ⟨[], .unfinished⟩

/-- Goes on after malformed bytes, with the problem as the result. -/
def attempt (t : Trace α) : Trace (Except Malformed α) :=
  match t.ending with
  | .done a => ⟨t.asked, .done (.ok a)⟩
  | .malformed e => ⟨t.asked, .done (.error e)⟩
  | .outside offset => ⟨t.asked, .outside offset⟩
  | .unfinished => ⟨t.asked, .unfinished⟩

/-- Asks for the byte at an offset. -/
def byteAt (buffer : List UInt8) (offset : Nat) : Trace UInt8 :=
  ⟨[offset], match buffer[offset]? with
    | some b => .done b
    | none => .outside offset⟩

/-- A reading that comes to the result `r`, and on the way asks only for the bytes from `start` up to `stop`, from front to back and for
none of them twice. -/
structure Gives (t : Trace α) (start stop : Nat) (r : Except Malformed α) : Prop where
  ending : t.ending = .ofExcept r
  ordered : t.asked.Pairwise (· < ·)
  within : ∀ p ∈ t.asked, start ≤ p ∧ p < stop

namespace Gives

variable {t : Trace α} {r : Except Malformed α} {start mid stop : Nat}

/-- A result that needs no question stays at its place. -/
theorem pure (a : α) (start stop : Nat) : (Pure.pure a : Trace α).Gives start stop (.ok a) :=
  ⟨rfl, List.Pairwise.nil, fun _ h => nomatch h⟩

/-- A refusal needs no question. -/
theorem refuse (e : Malformed) (start stop : Nat) : (Trace.refuse e : Trace α).Gives start stop (.error e) :=
  ⟨rfl, List.Pairwise.nil, fun _ h => nomatch h⟩

/-- The bounds may be wider. -/
theorem mono {start' stop' : Nat} (h : t.Gives start stop r) (hstart : start' ≤ start) (hstop : stop ≤ stop') :
    t.Gives start' stop' r := by
  refine ⟨h.ending, h.ordered, fun p hp => ?_⟩
  have hwithin := h.within p hp
  omega

/-- What follows may ask for the bytes that come after. -/
theorem bind {a : α} {f : α → Trace β} {r : Except Malformed β} (ht : t.Gives start mid (.ok a)) (hf : (f a).Gives mid stop r)
    (hstart : start ≤ mid) (hstop : mid ≤ stop) : (t >>= f).Gives start stop r := by
  have hbind : t >>= f = ⟨t.asked ++ (f a).asked, (f a).ending⟩ := by
    show t.andThen f = _
    rw [andThen, ht.ending]
    rfl
  rw [hbind]
  refine ⟨hf.ending, ?_, ?_⟩
  · refine List.pairwise_append.2 ⟨ht.ordered, hf.ordered, fun p hp q hq => ?_⟩
    have hbefore := ht.within p hp
    have hafter := hf.within q hq
    omega
  · intro p hp
    rcases List.mem_append.1 hp with hp | hp
    · have hbefore := ht.within p hp
      omega
    · have hafter := hf.within p hp
      omega

/-- After a problem no more questions are asked. -/
theorem bind_error {e : Malformed} (ht : t.Gives start stop (.error e)) (f : α → Trace β) : (t >>= f).Gives start stop (.error e) := by
  have hbind : t >>= f = ⟨t.asked, .malformed e⟩ := by
    show t.andThen f = _
    rw [andThen, ht.ending]
    rfl
  rw [hbind]
  exact ⟨rfl, ht.ordered, ht.within⟩

/-- A result that is only made into another asks for nothing more. -/
theorem map {f : α → Trace β} {g : α → β} (ht : t.Gives start stop r) (hle : start ≤ stop) (hf : ∀ a, f a = Pure.pure (g a)) :
    (t >>= f).Gives start stop (r.map g) := by
  cases r with
  | error e => exact ht.bind_error f
  | ok a => exact ht.bind (hf a ▸ pure (g a) stop stop) hle (Nat.le_refl stop)

/-- An attempt gives the problem as its result. -/
theorem attempt (ht : t.Gives start stop r) : t.attempt.Gives start stop (.ok r) := by
  have hattempt : t.attempt = ⟨t.asked, .done r⟩ := by
    unfold Trace.attempt
    rw [ht.ending]
    cases r <;> rfl
  rw [hattempt]
  exact ⟨rfl, ht.ordered, ht.within⟩

/-- As no byte is asked for twice, there are no more questions than bytes. -/
theorem length_asked_le (h : t.Gives start stop r) : t.asked.length ≤ stop - start := by
  suffices ∀ (asked : List Nat) (start : Nat), asked.Pairwise (· < ·) → (∀ p ∈ asked, start ≤ p ∧ p < stop) →
      asked.length ≤ stop - start from this t.asked start h.ordered h.within
  intro asked
  induction asked with
  | nil => simp
  | cons p ps ih =>
    intro start hordered hwithin
    obtain ⟨hfirst, hrest⟩ := List.pairwise_cons.1 hordered
    have hp := hwithin p List.mem_cons_self
    have hlength := ih (p + 1) hrest fun q hq => ⟨hfirst q hq, (hwithin q (List.mem_cons_of_mem p hq)).2⟩
    rw [List.length_cons]
    omega

end Gives

end Trace

open Trace

/-! ## Numbers -/

/-- Reads groups of seven bits from the byte at `offset` on. `left` more bytes are allowed, and the number began at `first`. The offset
after the number is given with it. -/
def numberAt (buffer : List UInt8) (stop first : Nat) : (left offset : Nat) → Trace (Nat × Nat)
  | 0, _ => refuse (.longNumber first)
  | left + 1, offset =>
    if stop ≤ offset then refuse (.truncatedNumber first)
    else do
      let b ← byteAt buffer offset
      if b.toNat < 128 then pure (b.toNat, offset + 1)
      else do
        let (high, next) ← numberAt buffer stop first left (offset + 1)
        pure (b.toNat % 128 + 128 * high, next)

/-- Reads at most `turns` numbers up to `stop`. -/
def numbersFrom (buffer : List UInt8) (stop : Nat) : (turns offset : Nat) → Trace (List Nat)
  | 0, offset => if stop ≤ offset then pure [] else exhausted
  | turns + 1, offset =>
    if stop ≤ offset then pure []
    else do
      let (n, next) ← numberAt buffer stop offset maxNumberBytes offset
      let ns ← numbersFrom buffer stop turns next
      pure (n :: ns)

/-- The numbers between two offsets. -/
def numbersAt (buffer : List UInt8) (start stop : Nat) : Trace (List Nat) := numbersFrom buffer stop (stop - start) start

/-- The next `count` bytes. -/
def bytesFrom (buffer : List UInt8) : (count offset : Nat) → Trace (List UInt8)
  | 0, _ => pure []
  | count + 1, offset => do
    let b ← byteAt buffer offset
    let bs ← bytesFrom buffer count (offset + 1)
    pure (b :: bs)

/-- The bytes between two offsets. -/
def bytesAt (buffer : List UInt8) (start stop : Nat) : Trace (List UInt8) := bytesFrom buffer (stop - start) start

/-! ## Fields -/

/-- What a field holds, as a reader by offsets gives it: a number, or the offsets of the first byte and of the end of a window. -/
inductive Located where
  | number (n : Nat)
  | span (start stop : Nat)
  deriving DecidableEq, Repr

/-- A field of a message in a buffer. -/
structure LocatedField where
  number : Nat
  value : Located
  deriving DecidableEq, Repr

/-- Where a value is in its buffer. -/
def Value.located : Value → Located
  | .number n => .number n
  | .window w => .span w.start w.stop

/-- Where a field is in its buffer. -/
def Field.located (f : Field) : LocatedField := ⟨f.number, f.value.located⟩

/-- The value at an offset, of a field with a given tag, and the offset after it. -/
def valueAt (buffer : List UInt8) (stop field storage offset : Nat) : Trace (Option Located × Nat) :=
  if storage = 0 then do
    let (n, next) ← numberAt buffer stop offset maxNumberBytes offset
    pure (some (.number n), next)
  else if storage = 2 then do
    let (n, next) ← numberAt buffer stop offset maxNumberBytes offset
    if stop < next + n then refuse (.overrun field n stop next) else pure (some (.span next (next + n)), next + n)
  else match fixedWidth? storage with
    | some n => if stop < offset + n then refuse (.truncatedFixed field offset) else pure (none, offset + n)
    | none => refuse (.unsupported storage field)

/-- The field at an offset, if its value is not passed over, and the offset after it. -/
def fieldAt (buffer : List UInt8) (stop offset : Nat) : Trace (Option LocatedField × Nat) := do
  let (tag, next) ← numberAt buffer stop offset maxNumberBytes offset
  if tag / 8 = 0 then refuse (.fieldZero next)
  else do
    let (v, next) ← valueAt buffer stop (tag / 8) (tag % 8) next
    pure (v.map fun v => ⟨tag / 8, v⟩, next)

/-- Hands at most `turns` fields up to `stop` to `take`, each as soon as it is read. The problem that ends the reading before `stop` is
given with the result. -/
def fieldsFrom (buffer : List UInt8) (stop : Nat) (take : β → LocatedField → Trace β) :
    (turns offset : Nat) → β → Trace (β × Option Malformed)
  | 0, offset, b => if stop ≤ offset then pure (b, none) else exhausted
  | turns + 1, offset, b =>
    if stop ≤ offset then pure (b, none)
    else do
      match ← (fieldAt buffer stop offset).attempt with
      | .error e => pure (b, some e)
      | .ok (none, next) => fieldsFrom buffer stop take turns next b
      | .ok (some f, next) =>
        let b ← take b f
        fieldsFrom buffer stop take turns next b

/-- Hands the fields between two offsets, which have to be offsets in the buffer, to `take`. -/
def foldFieldsAt (buffer : List UInt8) (start stop : Nat) (take : β → LocatedField → Trace β) (b : β) :
    Trace (β × Option Malformed) :=
  if start ≤ stop ∧ stop ≤ buffer.length then fieldsFrom buffer stop take (stop - start) start b
  else pure (b, some (.outsideBuffer start stop buffer.length))

/-- The fields between two offsets, and the problem that ended reading before the end. -/
def fieldsAt (buffer : List UInt8) (start stop : Nat) : Trace (List LocatedField × Option Malformed) :=
  foldFieldsAt buffer start stop (fun fs f => pure (fs ++ [f])) []

/-- The fields between two offsets handed to `take`; a message that breaks off is malformed. -/
def messageAt (buffer : List UInt8) (start stop : Nat) (take : β → LocatedField → Trace β) (b : β) : Trace β := do
  match ← foldFieldsAt buffer start stop take b with
  | (b, none) => pure b
  | (_, some e) => refuse e

/-! ## What the readers give -/

section Parts

variable {buffer : List UInt8} {w w' : Window}

/-- Dropping bytes from a part of a buffer leaves a part of it. -/
theorem Window.IsPart.drop (h : w.IsPart ⟨0, buffer⟩) {n : Nat} (hn : n ≤ w.bytes.length) : (w.drop n).IsPart ⟨0, buffer⟩ :=
  (Window.isPart_drop hn).trans h

/-- A part of a buffer ends in it. -/
theorem Window.IsPart.stop_le (h : w.IsPart ⟨0, buffer⟩) : w.stop ≤ buffer.length := by
  obtain ⟨before, after, hbytes, hstart⟩ := h
  dsimp only at hbytes hstart
  rw [Window.stop, hstart, hbytes]
  simp only [List.length_append]
  omega

/-- A window begins before its end. -/
theorem Window.start_le_stop (w : Window) : w.start ≤ w.stop := Nat.le_add_right _ _

/-- A window after its first byte. -/
theorem Window.drop_one {b : UInt8} {bs : List UInt8} (hbytes : w.bytes = b :: bs) : w.drop 1 = ⟨w.start + 1, bs⟩ := by
  simp [Window.drop, hbytes]

/-- The bytes behind the first one of a part are a part. -/
theorem Window.IsPart.tail (h : w.IsPart ⟨0, buffer⟩) {b : UInt8} {bs : List UInt8} (hbytes : w.bytes = b :: bs) :
    (⟨w.start + 1, bs⟩ : Window).IsPart ⟨0, buffer⟩ ∧ (⟨w.start + 1, bs⟩ : Window).stop = w.stop := by
  have hone : 1 ≤ w.bytes.length := by simp [hbytes]
  rw [← Window.drop_one hbytes]
  exact ⟨h.drop hone, Window.stop_drop hone⟩

/-- The first byte of a part of the buffer. -/
theorem gives_byteAt (h : w.IsPart ⟨0, buffer⟩) {b : UInt8} {bs : List UInt8} (hbytes : w.bytes = b :: bs) :
    (byteAt buffer w.start).Gives w.start (w.start + 1) (.ok b) := by
  obtain ⟨before, after, hbuffer, hstart⟩ := h
  have hbyte : buffer[w.start]? = some b := by
    dsimp only at hbuffer hstart
    rw [hbuffer, hstart, hbytes, Nat.zero_add]
    simp
  refine ⟨?_, List.pairwise_singleton _ _, ?_⟩
  · rw [byteAt, hbyte]
    rfl
  · intro p hp
    rw [byteAt, List.mem_singleton] at hp
    omega

/-- A window ends where it begins exactly if it is empty. -/
theorem stop_le_start_iff (w : Window) : w.stop ≤ w.start ↔ w.bytes = [] := by
  rw [Window.stop, ← List.length_eq_zero_iff]
  omega

/-- A number begins with a byte of the window, or the window is over. -/
theorem numberAt_cons {b : UInt8} {bs : List UInt8} (hbytes : w.bytes = b :: bs) (first left : Nat) :
    numberAt buffer w.stop first (left + 1) w.start = byteAt buffer w.start >>= fun b =>
      if b.toNat < 128 then pure (b.toNat, w.start + 1)
      else numberAt buffer w.stop first left (w.start + 1) >>= fun p => pure (b.toNat % 128 + 128 * p.1, p.2) := by
  have hopen : ¬ w.stop ≤ w.start := by simp [stop_le_start_iff, hbytes]
  rw [numberAt, if_neg hopen]

/-- A number is read byte by byte from its place. -/
theorem gives_number (h : w.IsPart ⟨0, buffer⟩) {first left n used : Nat} (hn : number first left w.bytes = .ok (n, used)) :
    (numberAt buffer w.stop first left w.start).Gives w.start (w.start + used) (.ok (n, w.start + used)) := by
  induction left generalizing w n used with
  | zero => nomatch hn
  | succ left ih =>
    cases hbytes : w.bytes with
    | nil =>
      rw [hbytes] at hn
      cases hn
    | cons b bs =>
      rw [numberAt_cons hbytes]
      rw [hbytes, number] at hn
      obtain ⟨hpart, hstop⟩ := h.tail hbytes
      split at hn
      · rename_i hlast
        cases hn
        refine (gives_byteAt h hbytes).bind ?_ (Nat.le_succ _) (Nat.le_refl _)
        rw [if_pos hlast]
        exact Gives.pure _ _ _
      · rename_i hmore
        split at hn
        · rename_i high used hrest
          cases hn
          have hnext : w.start + (used + 1) = w.start + 1 + used := by omega
          have hgives := ih hpart hrest
          rw [hstop] at hgives
          refine (gives_byteAt h hbytes).bind ?_ (Nat.le_succ _) (by omega)
          rw [if_neg hmore, hnext]
          exact hgives.map (Nat.le_add_right _ _) fun _ => rfl
        · cases hn

/-- A number that is malformed is refused, within its window. -/
theorem gives_number_error (h : w.IsPart ⟨0, buffer⟩) {first left : Nat} {e : Malformed}
    (hn : number first left w.bytes = .error e) : (numberAt buffer w.stop first left w.start).Gives w.start w.stop (.error e) := by
  induction left generalizing w with
  | zero =>
    cases hn
    exact Gives.refuse _ _ _
  | succ left ih =>
    cases hbytes : w.bytes with
    | nil =>
      rw [hbytes] at hn
      cases hn
      rw [numberAt, if_pos ((stop_le_start_iff w).2 hbytes)]
      exact Gives.refuse _ _ _
    | cons b bs =>
      rw [numberAt_cons hbytes]
      rw [hbytes, number] at hn
      obtain ⟨hpart, hstop⟩ := h.tail hbytes
      split at hn
      · cases hn
      · rename_i hmore
        split at hn
        · cases hn
        · rename_i hrest
          cases hn
          have hgives := ih hpart hrest
          rw [hstop] at hgives
          have hle : w.start + 1 ≤ w.stop := by simp [Window.stop, hbytes]
          refine (gives_byteAt h hbytes).bind ?_ (Nat.le_succ _) hle
          rw [if_neg hmore]
          exact hgives.bind_error _

/-- A number at the front of a window is read from there. -/
theorem gives_windowNumber (h : w.IsPart ⟨0, buffer⟩) {n : Nat} (hn : w.number = .ok (n, w')) :
    (numberAt buffer w.stop w.start maxNumberBytes w.start).Gives w.start w'.start (.ok (n, w'.start)) := by
  unfold Window.number at hn
  split at hn
  · rename_i hnumber
    cases hn
    exact gives_number h hnumber
  · cases hn

/-- One that is malformed is refused. -/
theorem gives_windowNumber_error (h : w.IsPart ⟨0, buffer⟩) {e : Malformed} (hn : w.number = .error e) :
    (numberAt buffer w.stop w.start maxNumberBytes w.start).Gives w.start w.stop (.error e) := by
  unfold Window.number at hn
  split at hn
  · cases hn
  · rename_i hnumber
    cases hn
    exact gives_number_error h hnumber

/-- What a number takes of a part of the buffer is before the end of the part, and the rest is a part again. -/
theorem Window.IsPart.of_number (h : w.IsPart ⟨0, buffer⟩) {n : Nat} (hn : w.number = .ok (n, w')) :
    w'.IsPart ⟨0, buffer⟩ ∧ w.start < w'.start ∧ w'.start ≤ w'.stop ∧ w'.stop = w.stop := by
  obtain ⟨used, hpos, hle, rfl⟩ := Window.eq_drop_of_number hn
  exact ⟨h.drop hle, Nat.lt_add_of_pos_right hpos, Window.start_le_stop _, Window.stop_drop hle⟩

/-- In an empty window there are no numbers. -/
theorem numbersFrom_of_empty (hbytes : w.bytes = []) (turns : Nat) : numbersFrom buffer w.stop turns w.start = pure [] := by
  cases turns <;> rw [numbersFrom, if_pos ((stop_le_start_iff w).2 hbytes)]

/-- The numbers of a window are read one after the other up to its end. -/
theorem gives_numbersFrom (h : w.IsPart ⟨0, buffer⟩) {left turns : Nat} (hleft : w.bytes.length ≤ left)
    (hturns : w.bytes.length ≤ turns) :
    (numbersFrom buffer w.stop turns w.start).Gives w.start w.stop (numbersWithin left w) := by
  induction left generalizing w turns with
  | zero =>
    rw [numbersFrom_of_empty (List.length_eq_zero_iff.1 (Nat.le_zero.1 hleft))]
    exact Gives.pure _ _ _
  | succ left ih =>
    rw [numbersWithin]
    by_cases hbytes : w.bytes = []
    · rw [numbersFrom_of_empty hbytes, if_pos (List.isEmpty_iff.2 hbytes)]
      exact Gives.pure _ _ _
    · rw [if_neg (mt List.isEmpty_iff.1 hbytes)]
      cases turns with
      | zero => exact absurd (List.length_eq_zero_iff.1 (Nat.le_zero.1 hturns)) hbytes
      | succ turns =>
        rw [numbersFrom, if_neg (mt (stop_le_start_iff w).1 hbytes)]
        cases hnumber : w.number with
        | error e => exact (gives_windowNumber_error h hnumber).bind_error _
        | ok p =>
          obtain ⟨n, w'⟩ := p
          obtain ⟨hpart, hlt, hle, hstop⟩ := h.of_number hnumber
          have hlength : w'.bytes.length < w.bytes.length := by
            rw [Window.stop, Window.stop] at hstop
            omega
          have hturns' : w'.bytes.length ≤ turns := by omega
          have hrest := ih hpart (by omega) hturns'
          rw [hstop] at hrest
          refine (gives_windowNumber h hnumber).bind ?_ (Nat.le_of_lt hlt) (hstop ▸ hle)
          have hmap := hrest.map (f := fun ns => pure (n :: ns)) (hstop ▸ hle) fun _ => rfl
          dsimp only
          cases hnumbers : numbersWithin left w' with
          | error e =>
            rw [hnumbers] at hmap
            exact hmap
          | ok ns =>
            rw [hnumbers] at hmap
            exact hmap

/-- A window has as many bytes as there are places from its beginning to its end. -/
theorem Window.stop_sub_start (w : Window) : w.stop - w.start = w.bytes.length := Nat.add_sub_cancel_left _ _

/-- Reading the numbers between two offsets. -/
theorem gives_numbersAt (h : w.IsPart ⟨0, buffer⟩) : (numbersAt buffer w.start w.stop).Gives w.start w.stop (numbers w) := by
  rw [numbersAt, Window.stop_sub_start]
  exact gives_numbersFrom h (Nat.le_refl _) (Nat.le_refl _)

/-- The bytes of a window are read at their places. -/
theorem gives_bytesAt (h : w.IsPart ⟨0, buffer⟩) : (bytesAt buffer w.start w.stop).Gives w.start w.stop (.ok w.bytes) := by
  rw [bytesAt, Window.stop_sub_start]
  generalize hbytes : w.bytes = bytes
  induction bytes generalizing w with
  | nil => exact Gives.pure _ _ _
  | cons b bs ih =>
    obtain ⟨hpart, hstop⟩ := h.tail hbytes
    have hle : w.start + 1 ≤ w.stop := by simp [Window.stop, hbytes]
    have hrest := ih hpart rfl
    rw [hstop] at hrest
    refine (gives_byteAt h hbytes).bind ?_ (Nat.le_succ _) hle
    exact hrest.map hle fun _ => rfl

/-- Where the bytes that a field takes besides those of a window in it end. -/
def Value.head (next : Nat) : Option Value → Nat
  | some (.window v) => v.start
  | _ => next

/-- A value is read at its place. -/
theorem gives_valueAt (h : w.IsPart ⟨0, buffer⟩) {k storage : Nat} {v : Option Value} (hv : value k storage w = .ok (v, w')) :
    (valueAt buffer w.stop k storage w.start).Gives w.start (Value.head w'.start v) (.ok (v.map Value.located, w'.start)) := by
  obtain ⟨rfl, n, hnumber, rfl⟩ | ⟨rfl, n, u, hnumber, hfits, rfl, rfl⟩ | ⟨n, hwidth, hfits, rfl, rfl⟩ := value_cases hv
  · exact (gives_windowNumber h hnumber).map (Nat.le_of_lt (h.of_number hnumber).2.1) fun _ => rfl
  · obtain ⟨-, hlt, -, hstop⟩ := h.of_number hnumber
    have hinside : ¬ w.stop < u.start + n := by
      rw [← hstop, Window.stop]
      omega
    have hend : (u.take n).stop = u.start + n := by simp [Window.stop, Window.take, hfits]
    refine (gives_windowNumber h hnumber).bind ?_ (Nat.le_of_lt hlt) (Nat.le_refl _)
    dsimp only
    rw [if_neg hinside, Option.map_some, Value.located, hend]
    exact Gives.pure _ _ _
  · have hnumber : storage ≠ 0 := by
      rintro rfl
      cases hwidth
    have hwindow : storage ≠ 2 := by
      rintro rfl
      cases hwidth
    have hinside : ¬ w.stop < w.start + n := by
      rw [Window.stop]
      omega
    rw [valueAt, if_neg hnumber, if_neg hwindow, hwidth]
    dsimp only
    rw [if_neg hinside]
    exact Gives.pure _ _ _

/-- One that is malformed is refused. -/
theorem gives_valueAt_error (h : w.IsPart ⟨0, buffer⟩) {k storage : Nat} {e : Malformed} (hv : value k storage w = .error e) :
    (valueAt buffer w.stop k storage w.start).Gives w.start w.stop (.error e) := by
  unfold value at hv
  unfold valueAt
  split at hv
  · rename_i hstorage
    rw [if_pos hstorage]
    split at hv
    · cases hv
    · rename_i hnumber
      cases hv
      exact (gives_windowNumber_error h hnumber).bind_error _
  rename_i hstorage
  rw [if_neg hstorage]
  split at hv
  · rename_i hstorage
    rw [if_pos hstorage]
    split at hv
    · rename_i n u hnumber
      obtain ⟨-, hlt, hle, hstop⟩ := h.of_number hnumber
      split at hv
      · rename_i hover
        cases hv
        have houtside : w.stop < u.start + n := by
          rw [← hstop, Window.stop]
          omega
        refine (gives_windowNumber h hnumber).bind ?_ (Nat.le_of_lt hlt) (hstop ▸ hle)
        dsimp only
        rw [if_pos houtside]
        exact Gives.refuse _ _ _
      · cases hv
    · rename_i hnumber
      cases hv
      exact (gives_windowNumber_error h hnumber).bind_error _
  rename_i hstorage
  rw [if_neg hstorage]
  cases hwidth : fixedWidth? storage with
  | some n =>
    rw [hwidth] at hv
    dsimp only at hv ⊢
    split at hv
    · rename_i hover
      cases hv
      have houtside : w.stop < w.start + n := by
        rw [Window.stop]
        omega
      rw [if_pos houtside]
      exact Gives.refuse _ _ _
    · cases hv
  | none =>
    rw [hwidth] at hv
    cases hv
    exact Gives.refuse _ _ _

/-- A field is read at its place. -/
theorem gives_fieldAt (h : w.IsPart ⟨0, buffer⟩) {f : Option Field} (hf : field w = .ok (f, w')) :
    (fieldAt buffer w.stop w.start).Gives w.start (Value.head w'.start (f.map Field.value)) (.ok (f.map Field.located, w'.start)) := by
  obtain ⟨tag, u, v, hnumber, htag, hvalue, rfl⟩ := field_cases hf
  obtain ⟨hpart, hlt, -, hstop⟩ := h.of_number hnumber
  have hhead : u.start ≤ Value.head w'.start v := by
    obtain ⟨-, n, hn, rfl⟩ | ⟨-, n, x, hn, -, rfl, -⟩ | ⟨n, -, -, rfl, rfl⟩ := value_cases hvalue
    · exact Nat.le_of_lt (hpart.of_number hn).2.1
    · exact Nat.le_of_lt (hpart.of_number hn).2.1
    · exact Nat.le_add_right _ _
  have hgives := gives_valueAt hpart hvalue
  rw [hstop] at hgives
  have hvalues : (v.map fun v => (⟨tag / 8, v⟩ : Field)).map Field.value = v := by cases v <;> rfl
  rw [fieldAt, hvalues]
  refine (gives_windowNumber h hnumber).bind ?_ (Nat.le_of_lt hlt) hhead
  dsimp only
  rw [if_neg htag]
  refine hgives.bind ?_ hhead (Nat.le_refl _)
  cases v <;> exact Gives.pure _ _ _

/-- One that is malformed is refused. -/
theorem gives_fieldAt_error (h : w.IsPart ⟨0, buffer⟩) {e : Malformed} (hf : field w = .error e) :
    (fieldAt buffer w.stop w.start).Gives w.start w.stop (.error e) := by
  unfold field at hf
  unfold fieldAt
  split at hf
  · rename_i hnumber
    cases hf
    exact (gives_windowNumber_error h hnumber).bind_error _
  · rename_i tag u hnumber
    obtain ⟨hpart, hlt, hle, hstop⟩ := h.of_number hnumber
    refine (gives_windowNumber h hnumber).bind ?_ (Nat.le_of_lt hlt) (hstop ▸ hle)
    dsimp only
    split at hf
    · rename_i htag
      cases hf
      rw [if_pos htag]
      exact Gives.refuse _ _ _
    · rename_i htag
      rw [if_neg htag]
      split at hf
      · cases hf
      · rename_i hvalue
        cases hf
        have hgives := gives_valueAt_error hpart hvalue
        rw [hstop] at hgives
        exact hgives.bind_error _

end Parts

end CodeAtlas.Wire
