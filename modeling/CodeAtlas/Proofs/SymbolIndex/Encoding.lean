import CodeAtlas.Proofs.SymbolIndex.Wire

/-!
# Messages as they are written

The other direction of reading: a message is a list of entries, each with its number and its content, and here are its bytes. Reading
the bytes gives the entries back in order, those of fixed width passed over, wherever in a buffer the message stands.
-/

namespace CodeAtlas.Wire

/-! ## Numbers -/

/-- How many numbers a number of groups of seven bits can tell apart. -/
def capacity : (groups : Nat) → Nat
  | 0 => 1
  | groups + 1 => 128 * capacity groups

/-- A number that is not too long to be read. -/
def IsReadable (n : Nat) : Prop := n < capacity maxNumberBytes

/-- Whether a number can be read is decided by its size. -/
instance (n : Nat) : Decidable (IsReadable n) := inferInstanceAs (Decidable (n < _))

/-- Every number of sixty-four bits can be read. -/
example : 18446744073709551615 < capacity maxNumberBytes := by decide

/-- The bytes of a number: groups of seven bits, the lowest first, each byte but the last with its high bit set, no more than needed. -/
def numberBytes (n : Nat) : List UInt8 :=
  if n < 128 then [UInt8.ofNat n] else UInt8.ofNat (n % 128 + 128) :: numberBytes (n / 128)
termination_by n
decreasing_by omega

/-- A number is written in at least one byte. -/
theorem numberBytes_ne_nil (n : Nat) : numberBytes n ≠ [] := by
  rw [numberBytes]
  split <;> exact List.cons_ne_nil _ _

/-- A number that fits is read back, whatever follows it. -/
theorem number_numberBytes {left n : Nat} (h : n < capacity (left + 1)) (offset : Nat) (r : List UInt8) :
    number offset (left + 1) (numberBytes n ++ r) = .ok (n, (numberBytes n).length) := by
  induction left generalizing n with
  | zero =>
    have hsmall : n < 128 := h
    have hbyte : (UInt8.ofNat n).toNat = n := by
      rw [UInt8.toNat_ofNat']
      omega
    rw [numberBytes, if_pos hsmall, List.singleton_append, number, hbyte, if_pos hsmall]
    rfl
  | succ left ih =>
    rw [numberBytes]
    split
    · rename_i hsmall
      have hbyte : (UInt8.ofNat n).toNat = n := by
        rw [UInt8.toNat_ofNat']
        omega
      rw [List.singleton_append, number, hbyte, if_pos hsmall]
      rfl
    · have hbyte : (UInt8.ofNat (n % 128 + 128)).toNat = n % 128 + 128 := by
        rw [UInt8.toNat_ofNat']
        omega
      have hhigh : n / 128 < capacity (left + 1) := Nat.div_lt_of_lt_mul h
      have hvalue : (n % 128 + 128) % 128 + 128 * (n / 128) = n := by omega
      rw [List.cons_append, number, hbyte, if_neg (by omega), ih hhigh]
      dsimp only
      rw [hvalue, List.length_cons]

/-- So it is from a window. -/
theorem Window.number_numberBytes {n : Nat} (h : IsReadable n) (start : Nat) (r : List UInt8) :
    Window.number ⟨start, numberBytes n ++ r⟩ = .ok (n, ⟨start + (numberBytes n).length, r⟩) := by
  have hnumber : Wire.number start maxNumberBytes (numberBytes n ++ r) = .ok (n, (numberBytes n).length) :=
    Wire.number_numberBytes h start r
  simp only [Window.number, hnumber, Window.drop, List.drop_left]

/-- The bytes of several numbers, one after the other. -/
def packed (ns : List Nat) : List UInt8 := ns.flatMap numberBytes

/-- Packed numbers are read back. -/
theorem numbers_packed {ns : List Nat} (h : ∀ n ∈ ns, IsReadable n) (start : Nat) : numbers ⟨start, packed ns⟩ = .ok ns := by
  suffices ∀ left start, (packed ns).length ≤ left → numbersWithin left ⟨start, packed ns⟩ = .ok ns from
    this _ start (Nat.le_refl _)
  induction ns with
  | nil =>
    intro left start _
    cases left <;> rfl
  | cons n ns ih =>
    intro left start hleft
    have hpos : 0 < (numberBytes n).length := List.length_pos_iff.2 (numberBytes_ne_nil n)
    rw [packed, List.flatMap_cons, ← packed] at hleft ⊢
    rw [List.length_append] at hleft
    obtain ⟨left, rfl⟩ : ∃ l, left = l + 1 := ⟨left - 1, by omega⟩
    have hbytes : (numberBytes n ++ packed ns).isEmpty = false := by
      rw [List.isEmpty_eq_false_iff]
      exact List.append_ne_nil_of_left_ne_nil (numberBytes_ne_nil n) _
    rw [numbersWithin, hbytes, if_neg Bool.false_ne_true, Window.number_numberBytes (h n List.mem_cons_self)]
    dsimp only
    rw [ih (fun k hk => h k (List.mem_cons_of_mem n hk)) left _ (by omega)]

/-! ## Entries -/

/-- What is written under a number: a number, a window of bytes, or eight or four bytes that a reader passes over. -/
inductive Content where
  | number (n : Nat)
  | eight (bytes : Vector UInt8 8)
  | window (bytes : List UInt8)
  | four (bytes : Vector UInt8 4)
  deriving DecidableEq

namespace Content

/-- How a content is stored, as its tag says. -/
def storage : Content → Nat
  | number _ => 0
  | eight _ => 1
  | window _ => 2
  | four _ => 5

/-- The bytes of a content. -/
def bytes : Content → List UInt8
  | number n => numberBytes n
  | eight bs => bs.toList
  | window bs => numberBytes bs.length ++ bs
  | four bs => bs.toList

/-- The number that a content begins with, if any: itself, or the length of its bytes. -/
def size : Content → Nat
  | number n => n
  | window bs => bs.length
  | _ => 0

/-- What a reader makes of a content whose bytes begin at an offset. -/
def value? (start : Nat) : Content → Option Value
  | number n => some (.number n)
  | window bs => some (.window ⟨start + (numberBytes bs.length).length, bs⟩)
  | _ => none

end Content

/-- A field as it is written. -/
structure Entry where
  number : Nat
  content : Content
  deriving DecidableEq

namespace Entry

/-- The tag of an entry: its number, and how its content is stored. -/
def tag (e : Entry) : Nat := 8 * e.number + e.content.storage

/-- The bytes of an entry. -/
def bytes (e : Entry) : List UInt8 := numberBytes e.tag ++ e.content.bytes

/-- An entry that can be read: its number is not zero, and no number in it is too long. -/
def IsReadable (e : Entry) : Prop := 0 < e.number ∧ Wire.IsReadable e.tag ∧ Wire.IsReadable e.content.size

/-- Whether an entry can be read is decided by its parts. -/
instance (e : Entry) : Decidable e.IsReadable := inferInstanceAs (Decidable (_ ∧ _))

/-- The field that a reader makes of an entry whose bytes begin at an offset. -/
def field? (start : Nat) (e : Entry) : Option Field :=
  (e.content.value? (start + (numberBytes e.tag).length)).map fun v => ⟨e.number, v⟩

end Entry

/-- The field of an entry has its number. -/
theorem Entry.number_of_field? {start : Nat} {e : Entry} {f : Field} (h : e.field? start = some f) : f.number = e.number := by
  obtain ⟨v, -, rfl⟩ := Option.map_eq_some_iff.1 h
  rfl

/-- An entry that holds a window has a field that holds it. -/
theorem Entry.exists_field?_window (start n : Nat) (bs : List UInt8) :
    ∃ offset, field? start ⟨n, .window bs⟩ = some ⟨n, .window ⟨offset, bs⟩⟩ := ⟨_, rfl⟩

/-- A content is read back as its value. -/
theorem value_bytes {c : Content} (h : IsReadable c.size) (k start : Nat) (r : List UInt8) :
    value k c.storage ⟨start, c.bytes ++ r⟩ = .ok (c.value? start, ⟨start + c.bytes.length, r⟩) := by
  have hfixed : ∀ {storage : Nat} {bs : List UInt8}, fixedWidth? storage = some bs.length →
      value k storage ⟨start, bs ++ r⟩ = .ok (none, ⟨start + bs.length, r⟩) := by
    intro storage bs hwidth
    rw [value_fixed hwidth (by rw [List.length_append]; omega), Window.drop, List.drop_left]
  cases c with
  | number n => exact value_number (Window.number_numberBytes h start r) k
  | eight bs =>
    have hlen : bs.toList.length = 8 := bs.length_toList
    exact hfixed (congrArg some hlen.symm)
  | four bs =>
    have hlen : bs.toList.length = 4 := bs.length_toList
    exact hfixed (congrArg some hlen.symm)
  | window bs =>
    have hlen : IsReadable bs.length := h
    have hfits : bs.length ≤ (bs ++ r).length := by
      rw [List.length_append]
      omega
    rw [Content.bytes, List.append_assoc, Content.storage,
      value_window (Window.number_numberBytes hlen start (bs ++ r)) hfits, Window.take, Window.drop, List.take_left, List.drop_left,
      List.length_append, Nat.add_assoc]
    rfl

/-- An entry is read back as its field. -/
theorem field_bytes {e : Entry} (h : e.IsReadable) (start : Nat) (r : List UInt8) :
    field ⟨start, e.bytes ++ r⟩ = .ok (e.field? start, ⟨start + e.bytes.length, r⟩) := by
  obtain ⟨hnumber, htag, hsize⟩ := h
  have hstorage : e.content.storage < 8 := by
    cases e.content <;> exact Nat.lt_of_sub_eq_succ rfl
  have hdiv : e.tag / 8 = e.number := by
    rw [Entry.tag]
    omega
  have hmod : e.tag % 8 = e.content.storage := by
    rw [Entry.tag]
    omega
  have hvalue := value_bytes hsize e.number (start + (numberBytes e.tag).length) r
  rw [← hdiv, ← hmod] at hvalue
  rw [Entry.bytes, List.append_assoc,
    field_of_value (Window.number_numberBytes htag start _) (by omega) hvalue, hdiv, List.length_append, Nat.add_assoc]
  rfl

/-! ## Messages -/

/-- A message as it is written. -/
abbrev Message := List Entry

namespace Message

/-- The bytes of a message. -/
def bytes (m : Message) : List UInt8 := m.flatMap Entry.bytes

/-- What a message holds under a number, in order. -/
def held (n : Nat) (m : Message) : List Content := (m.filter (·.number == n)).map (·.content)

/-- The fields that a reader makes of a message whose bytes begin at an offset. -/
def fields : (start : Nat) → Message → List Field
  | _, [] => []
  | start, e :: m => (e.field? start).toList ++ fields (start + e.bytes.length) m

end Message

/-- A message that can be read is read to its end, and gives the fields that were written. -/
theorem fields_bytes {m : Message} (h : ∀ e ∈ m, e.IsReadable) (start : Nat) : fields ⟨start, m.bytes⟩ = ⟨m.fields start, none⟩ := by
  induction m generalizing start with
  | nil => exact fields_of_empty rfl
  | cons e m ih =>
    rw [Message.bytes, List.flatMap_cons, ← Message.bytes, fields_of_ok (field_bytes (h e List.mem_cons_self) start _),
      ih fun e' he' => h e' (List.mem_cons_of_mem e he')]
    rfl

/-! ## Folding over the fields of a message -/

section FoldFields

variable {α : Type} {read : α → Field → Except Malformed α} {a a' : α} {w : Window}

/-- What a fold over the fields of a message gives, if the message is read to its end. -/
def foldFields (read : α → Field → Except Malformed α) (a : α) (w : Window) : Except Malformed α :=
  match (fields w).read.foldlM read a, (fields w).problem with
  | .error e, _ => .error e
  | .ok _, some e => .error e
  | .ok a, none => .ok a

/-- Fields are folded if all of them can be read and there is no problem. -/
theorem foldFields_eq_ok_iff :
    foldFields read a w = .ok a' ↔ (fields w).read.foldlM read a = .ok a' ∧ (fields w).problem = none := by
  unfold foldFields
  cases (fields w).read.foldlM read a with
  | error e => exact ⟨fun h => (nomatch h), fun h => nomatch h.1⟩
  | ok b =>
    cases (fields w).problem with
    | none => exact ⟨fun h => ⟨h, rfl⟩, And.left⟩
    | some e => exact ⟨fun h => (nomatch h), fun h => nomatch h.2⟩

/-- What reading a field preserves, reading a message preserves. -/
theorem invariant_of_foldFields {P : α → Prop} (h : ∀ a f a', P a → read a f = .ok a' → P a') (ha : P a)
    (hfold : foldFields read a w = .ok a') : P a' := by
  suffices ∀ (fs : List Field) (a : α), P a → fs.foldlM read a = .ok a' → P a' from
    this _ a ha (foldFields_eq_ok_iff.1 hfold).1
  intro fs
  induction fs with
  | nil =>
    intro a ha hread
    cases hread
    exact ha
  | cons f fs ih =>
    intro a ha hread
    rw [List.foldlM_cons] at hread
    cases hf : read a f with
    | error e =>
      rw [hf] at hread
      nomatch hread
    | ok b =>
      rw [hf] at hread
      exact ih b (h a f b ha hf) hread

/-- A fold that does not depend on the place of the fields gives the same result `k` bytes further into the buffer, or the same problem
there. -/
theorem foldFields_shift {k : Nat} (h : ∀ a f, read a (f.shift k) = (read a f).mapError (·.shift k)) (a : α) (w : Window) :
    foldFields read a (w.shift k) = (foldFields read a w).mapError (·.shift k) := by
  have hfold : ∀ (fs : List Field) (a : α), (fs.map (·.shift k)).foldlM read a = (fs.foldlM read a).mapError (·.shift k) := by
    intro fs
    induction fs with
    | nil => exact fun _ => rfl
    | cons f fs ih =>
      intro a
      rw [List.map_cons, List.foldlM_cons, List.foldlM_cons, h]
      cases read a f with
      | error e => rfl
      | ok b => exact ih b
  unfold foldFields
  rw [fields_shift, Fields.shift, hfold]
  cases (fields w).read.foldlM read a with
  | error e => rfl
  | ok b => cases (fields w).problem <;> rfl

/-- The fields of a message that can be read are folded. -/
theorem foldFields_bytes {m : Message} (hm : ∀ e ∈ m, e.IsReadable) {start : Nat} (h : (m.fields start).foldlM read a = .ok a') :
    foldFields read a ⟨start, m.bytes⟩ = .ok a' := by
  rw [foldFields_eq_ok_iff, fields_bytes hm]
  exact ⟨h, rfl⟩

end FoldFields

end CodeAtlas.Wire
