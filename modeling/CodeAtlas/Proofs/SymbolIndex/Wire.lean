import CodeAtlas.SymbolIndex.Wire

/-!
# Reading a message field by field

Every field takes at least one byte, so the bound on the number of fields never ends the reading of a message. A field is read from its
own bytes alone: bytes after it change nothing, so that what is read of a message is also read of every longer one, and the same bytes
elsewhere in the buffer give the same field, at another offset.
-/

namespace CodeAtlas.Wire

variable {w w' : Window} {c : List UInt8}

/-! ## What is left after reading -/

/-- A number that is read takes at least one byte, and no more than there are. -/
theorem used_of_number {offset left n used : Nat} {bs : List UInt8} (h : number offset left bs = .ok (n, used)) :
    0 < used ∧ used ≤ bs.length := by
  induction left generalizing bs n used with
  | zero => nomatch h
  | succ left ih =>
    cases bs with
    | nil => nomatch h
    | cons b bs =>
      rw [number] at h
      split at h
      · cases h
        exact ⟨Nat.one_pos, Nat.le_add_left 1 _⟩
      · split at h
        · rename_i hrest
          cases h
          exact ⟨Nat.succ_pos _, Nat.succ_le_succ (ih hrest).2⟩
        · nomatch h

namespace Window

theorem drop_drop (w : Window) (a b : Nat) : (w.drop a).drop b = w.drop (a + b) := by
  simp only [drop, List.drop_drop, Nat.add_assoc]

theorem stop_drop {n : Nat} (h : n ≤ w.bytes.length) : (w.drop n).stop = w.stop := by
  simp only [stop, drop, List.length_drop]
  omega

/-- A window is shorter by what is dropped. -/
theorem length_drop (w : Window) (n : Nat) : (w.drop n).bytes.length = w.bytes.length - n := List.length_drop

/-- What is left behind a number is the window without some bytes at its front, at least one. -/
theorem eq_drop_of_number {n : Nat} (h : w.number = .ok (n, w')) :
    ∃ used, 0 < used ∧ used ≤ w.bytes.length ∧ w' = w.drop used := by
  unfold Window.number at h
  split at h
  · rename_i hnumber
    cases h
    have hused := used_of_number hnumber
    exact ⟨_, hused.1, hused.2, rfl⟩
  · nomatch h

end Window

/-- A value of the first storage kind is a number. -/
theorem value_number {n : Nat} (h : w.number = .ok (n, w')) (k : Nat) : value k 0 w = .ok (some (.number n), w') := by
  rw [value, if_pos rfl, h]

/-- A value of the third storage kind is a window, as long as the number in front of it says, if there are so many bytes. -/
theorem value_window {n : Nat} (h : w.number = .ok (n, w')) (hfits : n ≤ w'.bytes.length) (k : Nat) :
    value k 2 w = .ok (some (.window (w'.take n)), w'.drop n) := by
  rw [value, if_neg (by decide), if_pos rfl, h]
  dsimp only
  rw [if_neg (Nat.not_lt.2 hfits)]

/-- A value of fixed width is passed over. -/
theorem value_fixed {n storage : Nat} (hwidth : fixedWidth? storage = some n) (hfits : n ≤ w.bytes.length) (k : Nat) :
    value k storage w = .ok (none, w.drop n) := by
  have hnumber : storage ≠ 0 := by
    rintro rfl
    nomatch hwidth
  have hwindow : storage ≠ 2 := by
    rintro rfl
    nomatch hwidth
  rw [value, if_neg hnumber, if_neg hwindow, hwidth]
  dsimp only
  rw [if_neg (Nat.not_lt.2 hfits)]

/-- What a value can be: a number, a window of bytes with its length in front, or bytes that are passed over. -/
theorem value_cases {k storage : Nat} {v : Option Value} (h : value k storage w = .ok (v, w')) :
    (storage = 0 ∧ ∃ n, w.number = .ok (n, w') ∧ v = some (.number n)) ∨
      (storage = 2 ∧ ∃ n u, w.number = .ok (n, u) ∧ n ≤ u.bytes.length ∧ v = some (.window (u.take n)) ∧ w' = u.drop n) ∨
      (∃ n, fixedWidth? storage = some n ∧ n ≤ w.bytes.length ∧ v = none ∧ w' = w.drop n) := by
  unfold value at h
  split at h
  · rename_i hstorage
    split at h
    · rename_i hnumber
      cases h
      exact Or.inl ⟨hstorage, _, hnumber, rfl⟩
    · nomatch h
  split at h
  · rename_i hstorage
    split at h
    · rename_i hnumber
      split at h
      · nomatch h
      · rename_i hfits
        cases h
        exact Or.inr (Or.inl ⟨hstorage, _, _, hnumber, Nat.not_lt.1 hfits, rfl, rfl⟩)
    · nomatch h
  split at h
  · rename_i hwidth
    split at h
    · nomatch h
    · rename_i hfits
      cases h
      exact Or.inr (Or.inr ⟨_, hwidth, Nat.not_lt.1 hfits, rfl, rfl⟩)
  · nomatch h

/-- A field is a number for its tag, and the value that the tag announces. -/
theorem field_of_value {tag : Nat} {u : Window} {v : Option Value} (hnumber : w.number = .ok (tag, u)) (htag : tag / 8 ≠ 0)
    (hvalue : value (tag / 8) (tag % 8) u = .ok (v, w')) : field w = .ok (v.map fun v => ⟨tag / 8, v⟩, w') := by
  rw [field, hnumber]
  dsimp only
  rw [if_neg htag, hvalue]

/-- A field is a tag whose number is not zero, and a value that is stored as the tag says. -/
theorem field_cases {f : Option Field} (h : field w = .ok (f, w')) :
    ∃ tag u v, w.number = .ok (tag, u) ∧ tag / 8 ≠ 0 ∧ value (tag / 8) (tag % 8) u = .ok (v, w') ∧
      f = v.map fun v => ⟨tag / 8, v⟩ := by
  unfold field at h
  split at h
  · nomatch h
  · rename_i hnumber
    split at h
    · nomatch h
    · rename_i htag
      split at h
      · rename_i hvalue
        cases h
        exact ⟨_, _, _, hnumber, htag, hvalue, rfl⟩
      · nomatch h

/-- What is left behind a value is the window without some bytes at its front. -/
theorem eq_drop_of_value {k storage : Nat} {v : Option Value} (h : value k storage w = .ok (v, w')) :
    ∃ used, used ≤ w.bytes.length ∧ w' = w.drop used := by
  obtain ⟨-, n, hnumber, -⟩ | ⟨-, n, u, hnumber, hfits, -, rfl⟩ | ⟨n, -, hfits, -, rfl⟩ := value_cases h
  · obtain ⟨used, -, hle, rfl⟩ := Window.eq_drop_of_number hnumber
    exact ⟨used, hle, rfl⟩
  · obtain ⟨used, -, hle, rfl⟩ := Window.eq_drop_of_number hnumber
    rw [Window.length_drop] at hfits
    exact ⟨used + n, by omega, Window.drop_drop w used n⟩
  · exact ⟨n, hfits, rfl⟩

/-- What is left behind a field is the window without some bytes at its front, at least one. -/
theorem eq_drop_of_field {f : Option Field} (h : field w = .ok (f, w')) :
    ∃ used, 0 < used ∧ used ≤ w.bytes.length ∧ w' = w.drop used := by
  obtain ⟨tag, u, v, hnumber, -, hvalue, -⟩ := field_cases h
  obtain ⟨a, hpos, ha, rfl⟩ := Window.eq_drop_of_number hnumber
  obtain ⟨b, hb, rfl⟩ := eq_drop_of_value hvalue
  rw [Window.length_drop] at hb
  exact ⟨a + b, by omega, by omega, Window.drop_drop w a b⟩

/-- What is left behind a field is shorter. -/
theorem length_of_field {f : Option Field} (h : field w = .ok (f, w')) : w'.bytes.length < w.bytes.length := by
  obtain ⟨used, hpos, hle, rfl⟩ := eq_drop_of_field h
  rw [Window.length_drop]
  omega

/-- What is left behind a field ends where the window does. -/
theorem stop_of_field {f : Option Field} (h : field w = .ok (f, w')) : w'.stop = w.stop := by
  obtain ⟨used, -, hle, rfl⟩ := eq_drop_of_field h
  exact Window.stop_drop hle

/-! ## The fields of a window -/

/-- No field is read from no bytes. -/
theorem isEmpty_of_field {f : Option Field} (h : field w = .ok (f, w')) : w.bytes.isEmpty = false := by
  have hlen := length_of_field h
  rw [List.isEmpty_eq_false_iff, ← List.length_pos_iff]
  omega

/-- A bound that the bytes of the window do not exceed is no bound. -/
theorem fieldsWithin_eq_fields {left : Nat} (h : w.bytes.length ≤ left) : fieldsWithin left w = fields w := by
  suffices ∀ a b (w : Window), w.bytes.length ≤ a → w.bytes.length ≤ b → fieldsWithin a w = fieldsWithin b w from
    this left w.bytes.length w h (Nat.le_refl _)
  intro a
  induction a with
  | zero =>
    intro b w ha _
    have hempty : w.bytes.isEmpty = true := List.isEmpty_iff.2 (List.length_eq_zero_iff.1 (Nat.le_zero.1 ha))
    cases b with
    | zero => rfl
    | succ b => rw [fieldsWithin, fieldsWithin, if_pos hempty]
  | succ a ih =>
    intro b w ha hb
    cases b with
    | zero =>
      have hempty : w.bytes.isEmpty = true := List.isEmpty_iff.2 (List.length_eq_zero_iff.1 (Nat.le_zero.1 hb))
      rw [fieldsWithin, fieldsWithin, if_pos hempty]
    | succ b =>
      rw [fieldsWithin, fieldsWithin]
      split
      · rfl
      · split
        · rfl
        · rename_i hfield
          have hlen := length_of_field hfield
          rw [ih b _ (by omega) (by omega)]

/-- Of no bytes there are no fields, and there is no problem with them. -/
theorem fields_of_empty (h : w.bytes = []) : fields w = ⟨[], none⟩ := by
  rw [fields, h]
  rfl

/-- The fields end with a problem at a first field that is malformed. -/
theorem fields_of_error {e : Malformed} (hbytes : w.bytes ≠ []) (h : field w = .error e) : fields w = ⟨[], some e⟩ := by
  rw [← fieldsWithin_eq_fields (Nat.le_succ _), fieldsWithin, if_neg (fun hempty => hbytes (List.isEmpty_iff.1 hempty)), h]

/-- The fields begin with the first one that is read and go on with those of what is left. -/
theorem fields_of_ok {f : Option Field} (h : field w = .ok (f, w')) :
    fields w = ⟨f.toList ++ (fields w').read, (fields w').problem⟩ := by
  have hlen := length_of_field h
  rw [← fieldsWithin_eq_fields (Nat.le_succ _), fieldsWithin, if_neg (by rw [isEmpty_of_field h]; exact Bool.false_ne_true), h]
  dsimp only
  rw [fieldsWithin_eq_fields (by omega)]

/-- Reading a window ends at its end, at a field that is malformed, or goes on after a field. -/
theorem fields_induction {motive : Window → Prop} (empty : ∀ w : Window, w.bytes = [] → motive w)
    (malformed : ∀ w e, w.bytes ≠ [] → field w = .error e → motive w)
    (step : ∀ w f w', field w = .ok (f, w') → motive w' → motive w) (w : Window) : motive w := by
  generalize hlen : w.bytes.length = n
  induction n using Nat.strongRecOn generalizing w with
  | ind n ih =>
    by_cases hbytes : w.bytes = []
    · exact empty w hbytes
    · cases hfield : field w with
      | error e => exact malformed w e hbytes hfield
      | ok p =>
        have hless := length_of_field hfield
        exact step w p.1 p.2 hfield (ih _ (hlen ▸ hless) p.2 rfl)

/-! ## Windows in windows -/

/-- The bytes of a window, at their place, are among those of another. -/
def Window.IsPart (v w : Window) : Prop :=
  ∃ before after, w.bytes = before ++ (v.bytes ++ after) ∧ v.start = w.start + before.length

namespace Window

/-- A window is part of itself. -/
theorem IsPart.refl (w : Window) : w.IsPart w := ⟨[], [], by rw [List.append_nil, List.nil_append], rfl⟩

/-- A part of a part is a part. -/
theorem IsPart.trans {u v w : Window} (huv : u.IsPart v) (hvw : v.IsPart w) : u.IsPart w := by
  obtain ⟨before, after, hbytes, hstart⟩ := huv
  obtain ⟨before', after', hbytes', hstart'⟩ := hvw
  refine ⟨before' ++ before, after ++ after', ?_, ?_⟩
  · rw [hbytes', hbytes]
    simp only [List.append_assoc]
  · rw [hstart, hstart', List.length_append, Nat.add_assoc]

/-- What is left when bytes are dropped is part of the window. -/
theorem isPart_drop {n : Nat} (h : n ≤ w.bytes.length) : (w.drop n).IsPart w := by
  refine ⟨w.bytes.take n, [], ?_, ?_⟩
  · rw [List.append_nil]
    exact (List.take_append_drop n w.bytes).symm
  · rw [List.length_take_of_le h]
    rfl

/-- The first bytes are part of the window. -/
theorem isPart_take (w : Window) (n : Nat) : (w.take n).IsPart w :=
  ⟨[], w.bytes.drop n, (List.take_append_drop n w.bytes).symm, rfl⟩

/-- A part of a buffer is what the buffer holds between its offsets. -/
theorem ofBuffer?_of_isPart {v : Window} {buffer : List UInt8} (h : v.IsPart ⟨0, buffer⟩) :
    ofBuffer? buffer v.start v.stop = .ok v := by
  obtain ⟨before, after, hbytes, hstart⟩ := h
  obtain ⟨start, bytes⟩ := v
  dsimp only at hbytes hstart
  rw [Nat.zero_add] at hstart
  subst hbytes hstart
  have hinside : before.length + bytes.length ≤ (before ++ (bytes ++ after)).length := by
    simp only [List.length_append]
    omega
  have hslice : ((before ++ (bytes ++ after)).take (before.length + bytes.length)).drop before.length = bytes := by
    rw [List.take_length_add_append, List.drop_left, List.take_left]
  unfold ofBuffer? stop ofBuffer
  dsimp only
  rw [if_pos (by omega), Int.toNat_natCast, Int.toNat_natCast, hslice]

end Window

/-- A window that is read as a value is part of the window that it is read from. -/
theorem isPart_of_value {k storage : Nat} {v : Window} (h : value k storage w = .ok (some (.window v), w')) : v.IsPart w := by
  obtain ⟨-, n, -, hv⟩ | ⟨-, n, u, hnumber, -, hv, -⟩ | ⟨n, -, -, hv, -⟩ := value_cases h
  · nomatch hv
  · cases hv
    obtain ⟨used, -, hle, rfl⟩ := Window.eq_drop_of_number hnumber
    exact (Window.isPart_take _ n).trans (Window.isPart_drop hle)
  · nomatch hv

/-- A window that a field holds is part of the window from which the field is read. -/
theorem isPart_of_mem_read {v : Window} {f : Field} (h : f ∈ (fields w).read) (hv : f.value = .window v) : v.IsPart w := by
  induction w using fields_induction with
  | empty w hbytes =>
    rw [fields_of_empty hbytes] at h
    nomatch h
  | malformed w e hbytes hfield =>
    rw [fields_of_error hbytes hfield] at h
    nomatch h
  | step w g w' hfield ih =>
    rw [fields_of_ok hfield] at h
    rcases List.mem_append.1 h with h | h
    · obtain ⟨tag, u, x, hnumber, -, hvalue, rfl⟩ := field_cases hfield
      obtain ⟨x, rfl, rfl⟩ := Option.map_eq_some_iff.1 (Option.mem_toList.1 h)
      cases hv
      obtain ⟨used, -, hle, rfl⟩ := Window.eq_drop_of_number hnumber
      exact (isPart_of_value hvalue).trans (Window.isPart_drop hle)
    · obtain ⟨used, -, hle, rfl⟩ := eq_drop_of_field hfield
      exact (ih h).trans (Window.isPart_drop hle)

/-! ## Bytes that follow -/

/-- A window with more bytes after it. -/
def Window.append (w : Window) (c : List UInt8) : Window := ⟨w.start, w.bytes ++ c⟩

/-- A number that has been read is the same with more bytes behind it. -/
theorem number_append {offset left n used : Nat} {bs : List UInt8} (h : number offset left bs = .ok (n, used)) (c : List UInt8) :
    number offset left (bs ++ c) = .ok (n, used) := by
  induction left generalizing bs n used with
  | zero => nomatch h
  | succ left ih =>
    cases bs with
    | nil => nomatch h
    | cons b bs =>
      rw [number] at h
      rw [List.cons_append, number]
      split at h
      · rename_i hlast
        rw [if_pos hlast, h]
      · rename_i hmore
        split at h
        · rename_i hrest
          rw [if_neg hmore, ih hrest]
          exact h
        · nomatch h

namespace Window

theorem append_drop {n : Nat} (h : n ≤ w.bytes.length) (c : List UInt8) : (w.append c).drop n = (w.drop n).append c := by
  simp only [append, drop, List.drop_append_of_le_length h]

theorem append_take {n : Nat} (h : n ≤ w.bytes.length) (c : List UInt8) : (w.append c).take n = w.take n := by
  simp only [append, take, List.take_append_of_le_length h]

/-- A window is longer by what is put behind it. -/
theorem length_append (w : Window) (c : List UInt8) : (w.append c).bytes.length = w.bytes.length + c.length := List.length_append

/-- A number is read alike with more bytes behind its window. -/
theorem number_append {n : Nat} (h : w.number = .ok (n, w')) (c : List UInt8) : (w.append c).number = .ok (n, w'.append c) := by
  unfold Window.number at h
  split at h
  · rename_i hnumber
    cases h
    rw [Window.number, append, Wire.number_append hnumber c]
    dsimp only
    rw [← append, append_drop (used_of_number hnumber).2]
  · nomatch h

end Window

/-- So is a value. -/
theorem value_append {k storage : Nat} {v : Option Value} (h : value k storage w = .ok (v, w')) (c : List UInt8) :
    value k storage (w.append c) = .ok (v, w'.append c) := by
  obtain ⟨rfl, n, hnumber, rfl⟩ | ⟨rfl, n, u, hnumber, hfits, rfl, rfl⟩ | ⟨n, hwidth, hfits, rfl, rfl⟩ := value_cases h
  · exact value_number (Window.number_append hnumber c) k
  · have hlonger : n ≤ (u.append c).bytes.length := by
      rw [Window.length_append]
      omega
    rw [value_window (Window.number_append hnumber c) hlonger, Window.append_take hfits, Window.append_drop hfits]
  · have hlonger : n ≤ (w.append c).bytes.length := by
      rw [Window.length_append]
      omega
    rw [value_fixed hwidth hlonger, Window.append_drop hfits]

/-- So is a field. -/
theorem field_append {f : Option Field} (h : field w = .ok (f, w')) (c : List UInt8) :
    field (w.append c) = .ok (f, w'.append c) := by
  obtain ⟨tag, u, v, hnumber, htag, hvalue, rfl⟩ := field_cases h
  exact field_of_value (Window.number_append hnumber c) htag (value_append hvalue c)

/-- The fields of a message are the first fields of every longer one. -/
theorem read_prefix_append (w : Window) (c : List UInt8) : (fields w).read <+: (fields (w.append c)).read := by
  induction w using fields_induction with
  | empty w hbytes =>
    rw [fields_of_empty hbytes]
    exact List.nil_prefix
  | malformed w e hbytes hfield =>
    rw [fields_of_error hbytes hfield]
    exact List.nil_prefix
  | step w f w' hfield ih =>
    rw [fields_of_ok hfield, fields_of_ok (field_append hfield c)]
    exact (List.prefix_append_right_inj _).2 ih

/-- After a message that is read to its end, reading goes on with what follows it. -/
theorem fields_append {w : Window} (h : (fields w).problem = none) (c : List UInt8) :
    fields (w.append c) = ⟨(fields w).read ++ (fields ⟨w.stop, c⟩).read, (fields ⟨w.stop, c⟩).problem⟩ := by
  induction w using fields_induction with
  | empty w hbytes =>
    have hrest : w.append c = ⟨w.stop, c⟩ := by
      rw [Window.append, Window.stop, hbytes]
      rfl
    rw [fields_of_empty hbytes, hrest, List.nil_append]
  | malformed w e hbytes hfield =>
    rw [fields_of_error hbytes hfield] at h
    nomatch h
  | step w f w' hfield ih =>
    rw [fields_of_ok hfield] at h
    rw [fields_of_ok (field_append hfield c), fields_of_ok hfield, ih h, stop_of_field hfield, List.append_assoc]

/-! ## Another place in the buffer -/

/-- The same bytes `k` bytes further into the buffer. -/
def Window.shift (k : Nat) (w : Window) : Window := ⟨w.start + k, w.bytes⟩

/-- The same problem `k` bytes further into the buffer. -/
def Malformed.shift (k : Nat) : Malformed → Malformed
  | .truncatedNumber o => .truncatedNumber (o + k)
  | .longNumber o => .longNumber (o + k)
  | .fieldZero o => .fieldZero (o + k)
  | .overrun f n stop o => .overrun f n (stop + k) (o + k)
  | .truncatedFixed f o => .truncatedFixed f (o + k)
  | .unsupported s f => .unsupported s f
  | .outsideBuffer a b n => .outsideBuffer a b n

/-- The same value `k` bytes further into the buffer. -/
def Value.shift (k : Nat) : Value → Value
  | .number n => .number n
  | .window w => .window (w.shift k)

/-- The same field `k` bytes further into the buffer. -/
def Field.shift (k : Nat) (f : Field) : Field := ⟨f.number, f.value.shift k⟩

/-- The same fields `k` bytes further into the buffer. -/
def Fields.shift (k : Nat) (fs : Fields) : Fields := ⟨fs.read.map (·.shift k), fs.problem.map (·.shift k)⟩

/-- What reading gives `k` bytes further into the buffer: a result, which `move` moves, and what is left of the window, or a problem. -/
def shiftResult {α : Type} (k : Nat) (move : α → α) : Except Malformed (α × Window) → Except Malformed (α × Window)
  | .ok (a, w) => .ok (move a, w.shift k)
  | .error e => .error (e.shift k)

/-- Numbers do not depend on the offset; only the problems with them are found elsewhere. -/
theorem number_shift (k offset left : Nat) (bs : List UInt8) :
    number (offset + k) left bs = (number offset left bs).mapError (·.shift k) := by
  induction left generalizing bs with
  | zero => rfl
  | succ left ih =>
    cases bs with
    | nil => rfl
    | cons b bs =>
      rw [number, number, ih]
      split
      · rfl
      · cases number offset left bs with
        | error e => rfl
        | ok p => rfl

namespace Window

theorem start_shift (k : Nat) (w : Window) : (w.shift k).start = w.start + k := rfl

theorem bytes_shift (k : Nat) (w : Window) : (w.shift k).bytes = w.bytes := rfl

theorem drop_shift (k n : Nat) (w : Window) : (w.shift k).drop n = (w.drop n).shift k := by
  simp only [shift, drop, Nat.add_right_comm]

theorem stop_shift (k : Nat) (w : Window) : (w.shift k).stop = w.stop + k := by
  simp only [stop, shift, Nat.add_right_comm]

/-- A number is read alike from a shifted window. -/
theorem number_shift (k : Nat) (w : Window) : (w.shift k).number = shiftResult k id w.number := by
  unfold Window.number
  rw [start_shift, bytes_shift, Wire.number_shift]
  cases Wire.number w.start maxNumberBytes w.bytes with
  | error e => rfl
  | ok p => exact congrArg (fun v => Except.ok (p.1, v)) (drop_shift k p.2 w)

end Window

/-- So is a value, and a window that is read is shifted too. -/
theorem value_shift (k field storage : Nat) (w : Window) :
    value field storage (w.shift k) = shiftResult k (Option.map (Value.shift k)) (value field storage w) := by
  unfold value
  rw [Window.number_shift]
  split
  · cases w.number with
    | error e => rfl
    | ok p => rfl
  split
  · cases w.number with
    | error e => rfl
    | ok p =>
      dsimp only [shiftResult, id]
      rw [Window.bytes_shift, Window.start_shift, Window.stop_shift, Window.drop_shift]
      split <;> rfl
  split
  · rw [Window.bytes_shift, Window.start_shift, Window.drop_shift]
    split <;> rfl
  · rfl

/-- So is a field. -/
theorem field_shift (k : Nat) (w : Window) :
    field (w.shift k) = shiftResult k (Option.map (Field.shift k)) (field w) := by
  unfold field
  rw [Window.number_shift]
  cases w.number with
  | error e => rfl
  | ok p =>
    dsimp only [shiftResult, id]
    rw [Window.start_shift, value_shift]
    split
    · rfl
    · cases value (p.1 / 8) (p.1 % 8) p.2 with
      | error e => rfl
      | ok q =>
        obtain ⟨v, rest⟩ := q
        cases v with
        | none => rfl
        | some v => rfl

/-- So are all fields. -/
theorem fields_shift (k : Nat) (w : Window) : fields (w.shift k) = (fields w).shift k := by
  induction w using fields_induction with
  | empty w hbytes =>
    rw [fields_of_empty hbytes]
    exact fields_of_empty hbytes
  | malformed w e hbytes hfield =>
    rw [fields_of_error hbytes hfield]
    exact fields_of_error hbytes (by rw [field_shift, hfield]; rfl)
  | step w f w' hfield ih =>
    have hshifted : field (w.shift k) = .ok (f.map (Field.shift k), w'.shift k) := by
      rw [field_shift, hfield]
      rfl
    rw [fields_of_ok hfield, fields_of_ok hshifted, ih]
    cases f with
    | none => rfl
    | some f => rfl

/-- So are the numbers that are packed in a window. -/
theorem numbersWithin_shift (k left : Nat) (w : Window) :
    numbersWithin left (w.shift k) = (numbersWithin left w).mapError (·.shift k) := by
  induction left generalizing w with
  | zero => rfl
  | succ left ih =>
    rw [numbersWithin, numbersWithin, Window.bytes_shift, Window.number_shift]
    split
    · rfl
    · cases w.number with
      | error e => rfl
      | ok p =>
        dsimp only [shiftResult, id]
        rw [ih]
        cases numbersWithin left p.2 with
        | error e => rfl
        | ok ns => rfl

/-- Packed numbers do not depend on the offset; only the problems with them are found elsewhere. -/
theorem numbers_shift (k : Nat) (w : Window) : numbers (w.shift k) = (numbers w).mapError (·.shift k) :=
  numbersWithin_shift k w.bytes.length w

end CodeAtlas.Wire
