import CodeAtlas.Proofs.SymbolIndex.Framing
import CodeAtlas.Proofs.Text.Utf8
import Mathlib.Data.List.Forall2

/-!
# Written indexes are read back

What it means that a message says an occurrence, a document or an index: it holds the entries of that record in whatever order its
writer chose, and besides them any entries under numbers that the record does not use. Every such message is read back as the record.
-/

namespace CodeAtlas

open Wire

namespace Wire.Message

/-- An entry is held under its number. -/
theorem held_cons_self (e : Entry) (m : Message) : held e.number (e :: m) = e.content :: m.held e.number := by
  rw [held, List.filter_cons, if_pos (beq_self_eq_true _), List.map_cons, held]

/-- Under other numbers it is not. -/
theorem held_cons_of_ne {n : Nat} {e : Entry} (h : e.number ≠ n) (m : Message) : held n (e :: m) = m.held n := by
  rw [held, List.filter_cons, if_neg (fun hbeq => h (beq_iff_eq.1 hbeq)), held]

/-- What an entry holds is held in its message. -/
theorem mem_held {e : Entry} {m : Message} (h : e ∈ m) : e.content ∈ m.held e.number :=
  List.mem_map_of_mem (List.mem_filter.2 ⟨h, beq_self_eq_true _⟩)

/-- The numbers of a message are those under which it holds something. -/
theorem mem_map_number_iff {n : Nat} {m : Message} : n ∈ m.map (·.number) ↔ m.held n ≠ [] := by
  rw [held, Ne, List.map_eq_nil_iff, List.filter_eq_nil_iff]
  simp

/-- What a message says once is said, and what it leaves out is what a reader starts with. -/
theorem ite_mem_map_number {α : Type} {n : Nat} {m : Message} {c : Content} {x y : α} (h : m.held n = [c] ∨ m.held n = [] ∧ x = y) :
    (if n ∈ m.map (·.number) then x else y) = x := by
  rcases h with h | ⟨-, rfl⟩
  · exact if_pos (mem_map_number_iff.2 (h ▸ List.cons_ne_nil _ _))
  · exact ite_self x

/-- A fold over the fields of a message is a fold over its entries when every entry is read the same way wherever it stands. -/
theorem foldlM_fields {α : Type} {read : α → Field → Except Malformed α} {put : α → Entry → α} {m : Message}
    (h : ∀ e ∈ m, ∀ start a, (e.field? start).toList.foldlM read a = .ok (put a e)) (start : Nat) (a : α) :
    (m.fields start).foldlM read a = .ok (m.foldl put a) := by
  induction m generalizing start a with
  | nil => rfl
  | cons e m ih =>
    rw [fields, List.foldlM_append, h e List.mem_cons_self, List.foldl_cons]
    exact ih (fun e' he' => h e' (List.mem_cons_of_mem e he')) _ _

end Wire.Message

/-- Reading the field of an entry that is passed over changes nothing, and otherwise it is one step. -/
theorem Wire.foldlM_toList {α : Type} (read : α → Field → Except Malformed α) (f : Option Field) (a : α) :
    f.toList.foldlM read a = match f with
      | some f => read a f
      | none => .ok a := by
  cases f with
  | none => rfl
  | some f => rw [Option.toList_some, List.foldlM_cons]; exact bind_pure (read a f)

namespace Occurrence

/-- An occurrence that an index can hold: it has a symbol and a range, and its lines and columns are not too large to be read. -/
structure IsEncodable (o : Occurrence) : Prop where
  symbol : o.symbol ≠ ""
  range : 3 ≤ o.range.length
  ofRange : ∀ n ∈ o.range, IsReadable n
  ofEnclosing : ∀ n ∈ o.enclosing, IsReadable n

/-- Whether an occurrence can be held is decided by its parts. -/
instance (o : Occurrence) : Decidable o.IsEncodable :=
  decidable_of_iff (o.symbol ≠ "" ∧ 3 ≤ o.range.length ∧ (∀ n ∈ o.range, IsReadable n) ∧ ∀ n ∈ o.enclosing, IsReadable n)
    ⟨fun ⟨h1, h2, h3, h4⟩ => ⟨h1, h2, h3, h4⟩, fun ⟨h1, h2, h3, h4⟩ => ⟨h1, h2, h3, h4⟩⟩

/-- The message says the occurrence. Roles and the range of the whole declaration may be left out where there are none. -/
structure IsWrittenAs (o : Occurrence) (m : Message) : Prop where
  readable : ∀ e ∈ m, e.IsReadable
  range : m.held 1 = [.window (packed o.range)]
  symbol : m.held 2 = [.window (Utf8.encode o.symbol.text)]
  roles : m.held 4 = [.number o.roles] ∨ m.held 4 = [] ∧ o.roles = 0
  enclosing : m.held 7 = [.window (packed o.enclosing)] ∨ m.held 7 = [] ∧ o.enclosing = []

/-- `a` with what `o` has under a number. -/
def put (o a : Occurrence) (n : Nat) : Occurrence where
  range := if n = 1 then o.range else a.range
  symbol := if n = 2 then o.symbol else a.symbol
  roles := if n = 4 then o.roles else a.roles
  enclosing := if n = 7 then o.enclosing else a.enclosing

/-- An occurrence gets from the other one what that has under the numbers. -/
theorem foldl_put (o : Occurrence) (ns : List Nat) (a : Occurrence) :
    ns.foldl o.put a =
      { range := if 1 ∈ ns then o.range else a.range
        symbol := if 2 ∈ ns then o.symbol else a.symbol
        roles := if 4 ∈ ns then o.roles else a.roles
        enclosing := if 7 ∈ ns then o.enclosing else a.enclosing } := by
  induction ns generalizing a with
  | nil => rfl
  | cons n ns ih =>
    have hcons : ∀ {α : Type} (k : Nat) (x y : α),
        (if k ∈ ns then x else if n = k then x else y) = if k ∈ n :: ns then x else y := by
      intro α k x y
      by_cases hk : k ∈ ns <;> by_cases hn : n = k <;> simp [hk, hn, eq_comm]
    rw [List.foldl_cons, ih]
    simp only [put, hcons]

/-- The field of a range sets the range. -/
theorem readField_range {w : Window} {ns : List Nat} (h : numbers w = .ok ns) (o : Occurrence) :
    readField o ⟨1, .window w⟩ = .ok { o with range := ns } := by
  show (numbers w).map _ = _
  rw [h]
  rfl

/-- The field of the range of a whole declaration sets that. -/
theorem readField_enclosing {w : Window} {ns : List Nat} (h : numbers w = .ok ns) (o : Occurrence) :
    readField o ⟨7, .window w⟩ = .ok { o with enclosing := ns } := by
  show (numbers w).map _ = _
  rw [h]
  rfl

variable {o : Occurrence} {m : Message}

/-- Under another number an occurrence has nothing. -/
theorem put_of_unused {n : Nat} (h : n ≠ 1 ∧ n ≠ 2 ∧ n ≠ 4 ∧ n ≠ 7) (o a : Occurrence) : o.put a n = a := by
  rw [put, if_neg h.1, if_neg h.2.1, if_neg h.2.2.1, if_neg h.2.2.2]

/-- Every entry of a message that says an occurrence brings what the occurrence has under its number. -/
theorem foldlM_readField_field? (ho : o.IsEncodable) (hm : o.IsWrittenAs m) {e : Entry} (he : e ∈ m) (start : Nat) (a : Occurrence) :
    (e.field? start).toList.foldlM readField a = .ok (o.put a e.number) := by
  have hheld := Message.mem_held he
  rw [foldlM_toList]
  by_cases hunused : e.number ≠ 1 ∧ e.number ≠ 2 ∧ e.number ≠ 4 ∧ e.number ≠ 7
  · rw [put_of_unused hunused]
    split
    · rename_i f hf
      exact readField_of_unused (Entry.number_of_field? hf ▸ hunused) a
    · rfl
  obtain ⟨n, c⟩ := e
  dsimp only at hheld hunused ⊢
  have hused : n = 1 ∨ n = 2 ∨ n = 4 ∨ n = 7 := by omega
  obtain rfl | rfl | rfl | rfl := hused
  · rw [hm.range, List.mem_singleton] at hheld
    subst hheld
    exact readField_range (numbers_packed ho.ofRange _) a
  · rw [hm.symbol, List.mem_singleton] at hheld
    subst hheld
    have hsymbol : String.ofList (Utf8.decodeLossy (Utf8.encode o.symbol.text)) = o.symbol := by
      rw [Utf8.decodeLossy_encode, String.ofList_toList]
    exact congrArg (fun s => Except.ok { a with symbol := s }) hsymbol
  · have hroles : c = .number o.roles := by
      rcases hm.roles with h | ⟨h, -⟩
      · rwa [h, List.mem_singleton] at hheld
      · rw [h] at hheld
        nomatch hheld
    subst hroles
    rfl
  · have henclosing : c = .window (packed o.enclosing) := by
      rcases hm.enclosing with h | ⟨h, -⟩
      · rwa [h, List.mem_singleton] at hheld
      · rw [h] at hheld
        nomatch hheld
    subst henclosing
    exact readField_enclosing (numbers_packed ho.ofEnclosing _) a

/-- A message that says an occurrence is read back as the occurrence. -/
theorem decode_bytes (ho : o.IsEncodable) (hm : o.IsWrittenAs m) (start : Nat) : decode ⟨start, m.bytes⟩ = .ok (some o) := by
  have hfold := Message.foldlM_fields (fun e he start a => foldlM_readField_field? ho hm he start a) start
    { range := [], symbol := "" }
  have hput : m.foldl (fun a e => o.put a e.number) { range := [], symbol := "" } = o := by
    have hfoldl := foldl_put o (m.map (·.number)) { range := [], symbol := "" }
    rw [List.foldl_map] at hfoldl
    rw [hfoldl, Message.ite_mem_map_number (Or.inl hm.range), Message.ite_mem_map_number (Or.inl hm.symbol),
      Message.ite_mem_map_number hm.roles, Message.ite_mem_map_number hm.enclosing]
  have hsymbol : o.symbol.isEmpty = false := by
    rw [← Bool.not_eq_true, String.isEmpty_iff]
    exact ho.symbol
  have hrange : decide (o.range.length < 3) = false := decide_eq_false (Nat.not_lt.2 ho.range)
  rw [hput] at hfold
  rw [decode_eq, foldFields_bytes hm.readable hfold]
  show Except.ok (if o.symbol.isEmpty || decide (o.range.length < 3) then none else some o) = _
  rw [hsymbol, hrange]
  rfl

end Occurrence

namespace Document

/-- A content of a document's message that says an occurrence. -/
def SaysOccurrence (o : Occurrence) (c : Content) : Prop := ∃ m : Message, c = .window m.bytes ∧ o.IsWrittenAs m

/-- A document that an index can hold: it has a path, and its occurrences can be held. -/
structure IsEncodable (d : Document) : Prop where
  path : d.path ≠ ""
  occurrences : ∀ o ∈ d.occurrences, o.IsEncodable

/-- Whether a document can be held is decided by its parts. -/
instance (d : Document) : Decidable d.IsEncodable :=
  decidable_of_iff (d.path ≠ "" ∧ ∀ o ∈ d.occurrences, o.IsEncodable) ⟨fun ⟨h1, h2⟩ => ⟨h1, h2⟩, fun ⟨h1, h2⟩ => ⟨h1, h2⟩⟩

/-- The message says the document: its path, and its occurrences in order. -/
structure IsWrittenAs (d : Document) (m : Message) : Prop where
  readable : ∀ e ∈ m, e.IsReadable
  path : m.held 4 = [.window (Utf8.encode d.path.text)]
  occurrences : List.Forall₂ SaysOccurrence d.occurrences (m.held 2)

/-- A content of an index that says a document. -/
def SaysDocument (d : Document) (c : Content) : Prop := ∃ m : Message, c = .window m.bytes ∧ d.IsWrittenAs m

/-- The message says an index: its documents in order. -/
structure AreWrittenAs (ds : List Document) (m : Message) : Prop where
  readable : ∀ e ∈ m, e.IsReadable
  documents : List.Forall₂ SaysDocument ds (m.held 2)

/-- The field of an occurrence adds it. -/
theorem readField_occurrence {w : Window} {o : Occurrence} (h : Occurrence.decode w = .ok (some o)) (d : Document) :
    readField d ⟨2, .window w⟩ = .ok { d with occurrences := d.occurrences ++ [o] } := by
  show (Occurrence.decode w).map _ = _
  rw [h]
  rfl

/-- The field of the path sets it. -/
theorem readField_path (start : Nat) (s : String) (d : Document) :
    readField d ⟨4, .window ⟨start, Utf8.encode s.text⟩⟩ = .ok { d with path := s } := by
  have hpath : String.ofList (Utf8.decodeLossy (Utf8.encode s.text)) = s := by
    rw [Utf8.decodeLossy_encode, String.ofList_toList]
  exact congrArg (fun p => Except.ok { d with path := p }) hpath

/-- Occurrences are gathered in order, and the path is set where the message says it. -/
theorem foldlM_readField {os : List Occurrence} {path : String} {m : Message} (hos : ∀ o ∈ os, o.IsEncodable)
    (hpath : ∀ c ∈ m.held 4, c = .window (Utf8.encode path.text)) (hheld : List.Forall₂ SaysOccurrence os (m.held 2))
    (start : Nat) (d : Document) :
    (m.fields start).foldlM readField d =
      .ok { path := if 4 ∈ m.map (·.number) then path else d.path, occurrences := d.occurrences ++ os } := by
  induction m generalizing os start d with
  | nil =>
    cases hheld
    rw [List.append_nil]
    rfl
  | cons e m ih =>
    obtain ⟨n, c⟩ := e
    have hstep : ∀ {d'}, (match Entry.field? start ⟨n, c⟩ with
        | some f => readField d f
        | none => .ok d) = .ok d' →
        (Message.fields start (⟨n, c⟩ :: m)).foldlM readField d =
          (Message.fields (start + (Entry.bytes ⟨n, c⟩).length) m).foldlM readField d' := by
      intro d' h
      rw [Message.fields, List.foldlM_append, foldlM_toList, h]
      rfl
    by_cases h2 : n = 2
    · subst h2
      rw [Message.held_cons_self ⟨2, c⟩ m] at hheld
      rw [Message.held_cons_of_ne (show 2 ≠ 4 by decide)] at hpath
      cases hheld with
      | cons hfirst hrest =>
        rename_i o os
        obtain ⟨mo, rfl, hmo⟩ := hfirst
        have ho := hos o List.mem_cons_self
        have hos' : ∀ o' ∈ os, o'.IsEncodable := fun o' ho' => hos o' (List.mem_cons_of_mem o ho')
        rw [hstep (readField_occurrence (Occurrence.decode_bytes ho hmo _) d), ih hos' hpath hrest]
        simp
    by_cases h4 : n = 4
    · subst h4
      rw [Message.held_cons_of_ne (show 4 ≠ 2 by decide)] at hheld
      rw [Message.held_cons_self ⟨4, c⟩ m] at hpath
      obtain rfl := hpath c List.mem_cons_self
      rw [hstep (readField_path _ path d), ih hos (fun c' hc' => hpath c' (List.mem_cons_of_mem _ hc')) hheld]
      simp
    · rw [Message.held_cons_of_ne h2] at hheld
      rw [Message.held_cons_of_ne h4] at hpath
      have hskip : (match Entry.field? start ⟨n, c⟩ with
          | some f => readField d f
          | none => .ok d) = .ok d := by
        split
        · rename_i f hf
          exact readField_of_unused (Entry.number_of_field? hf ▸ ⟨h2, h4⟩) d
        · rfl
      rw [hstep hskip, ih hos hpath hheld]
      simp [Ne.symm h4]

variable {d : Document} {ds : List Document} {m : Message}

/-- A message that says a document is read back as the document. -/
theorem decode_bytes (hd : d.IsEncodable) (hm : d.IsWrittenAs m) (start : Nat) : decode ⟨start, m.bytes⟩ = .ok d := by
  have hpath : ∀ c ∈ m.held 4, c = .window (Utf8.encode d.path.text) := by
    intro c hc
    rwa [hm.path, List.mem_singleton] at hc
  have hfold := foldlM_readField hd.occurrences hpath hm.occurrences start { path := "", occurrences := [] }
  rw [Message.ite_mem_map_number (Or.inl hm.path), List.nil_append] at hfold
  rw [decode_eq]
  exact foldFields_bytes hm.readable hfold

/-- A field that holds a document with a path gives it. -/
theorem ofField_of_ok {w : Window} (h : decode w = .ok d) (hpath : d.path ≠ "") : ofField ⟨2, .window w⟩ = some d := by
  rw [ofField_window, h]
  exact if_neg fun hempty => hpath (String.isEmpty_iff.1 hempty)

/-- The documents that a message says are found in its fields, in order. -/
theorem filterMap_fields (hds : ∀ d ∈ ds, d.IsEncodable) (hheld : List.Forall₂ SaysDocument ds (m.held 2)) (start : Nat) :
    (m.fields start).filterMap ofField = ds := by
  induction m generalizing ds start with
  | nil =>
    cases hheld
    rfl
  | cons e m ih =>
    obtain ⟨n, c⟩ := e
    rw [Message.fields, List.filterMap_append]
    by_cases h2 : n = 2
    · subst h2
      rw [Message.held_cons_self ⟨2, c⟩ m] at hheld
      cases hheld with
      | cons hfirst hrest =>
        rename_i d ds
        obtain ⟨md, rfl, hmd⟩ := hfirst
        have hd := hds d List.mem_cons_self
        obtain ⟨offset, hfield⟩ := Entry.exists_field?_window start 2 md.bytes
        rw [hfield, Option.toList_some, List.filterMap_cons, ofField_of_ok (decode_bytes hd hmd offset) hd.path,
          ih (fun d' hd' => hds d' (List.mem_cons_of_mem d hd')) hrest]
        rfl
    · rw [Message.held_cons_of_ne h2] at hheld
      rw [ih hds hheld]
      cases hf : Entry.field? start ⟨n, c⟩ with
      | none => rfl
      | some f =>
        have hnone : ofField f = none := ofField_of_unused (Entry.number_of_field? hf ▸ h2)
        rw [Option.toList_some, List.filterMap_cons, hnone]
        rfl

/-- Whatever message says an index, reading its bytes gives the documents of the index. -/
theorem decodeAll_bytes (hds : ∀ d ∈ ds, d.IsEncodable) (hm : AreWrittenAs ds m) : decodeAll m.bytes = ds := by
  rw [decodeAll, fields_bytes hm.readable]
  exact filterMap_fields hds hm.documents 0

/-! ## Messages of a writer -/

/-- The plain message of an occurrence: everything is said, in the order of the numbers. -/
def plainOccurrence (o : Occurrence) : Message :=
  [⟨1, .window (packed o.range)⟩, ⟨2, .window (Utf8.encode o.symbol.text)⟩, ⟨4, .number o.roles⟩, ⟨7, .window (packed o.enclosing)⟩]

/-- The plain message of a document: the path, then the occurrences. -/
def plain (d : Document) : Message :=
  ⟨4, .window (Utf8.encode d.path.text)⟩ :: d.occurrences.map fun o => ⟨2, .window (plainOccurrence o).bytes⟩

/-- The plain message of an index. -/
def plainIndex (ds : List Document) : Message := ds.map fun d => ⟨2, .window d.plain.bytes⟩

/-- A message of a definition with its fields in no particular order and fields of every kind between them, which no reader of
occurrences knows. -/
def scatteredOccurrence : Message :=
  [⟨3, .number 18446744073709551615⟩, ⟨7, .window (packed [0, 0, 128, 1])⟩, ⟨16, .eight #v[255, 254, 253, 252, 251, 250, 249, 248]⟩,
    ⟨4, .number 3⟩, ⟨2, .window (Utf8.encode "s p Größe𝄞#".text)⟩, ⟨5, .four #v[8, 16, 24, 32]⟩,
    ⟨1, .window (packed [300, 18446744073709551615, 2])⟩, ⟨6, .window [2, 200]⟩]

/-- A message of a document with the path between two occurrences, of which the second is no definition. -/
def scatteredDocument : Message :=
  [⟨2, .window scatteredOccurrence.bytes⟩, ⟨1, .window [255]⟩, ⟨4, .window (Utf8.encode "src/ä.go".text)⟩, ⟨3, .number 7⟩,
    ⟨2, .window (Message.bytes [⟨2, .window (Utf8.encode "local 1".text)⟩, ⟨1, .window (packed [1, 2, 3])⟩])⟩]

/-- A document whose fields are in no particular order, with others between them, is read back. -/
theorem decodeAll_scattered :
    decodeAll (Message.bytes [⟨1, .window [1, 2, 3]⟩, ⟨2, .window scatteredDocument.bytes⟩, ⟨536870911, .four #v[0, 0, 0, 0]⟩]) =
      [⟨"src/ä.go",
        [⟨[300, 18446744073709551615, 2], "s p Größe𝄞#", 3, [0, 0, 128, 1]⟩, ⟨[1, 2, 3], "local 1", 0, []⟩]⟩] := by
  refine decodeAll_bytes (by decide +kernel) ⟨by decide +kernel, .cons ⟨scatteredDocument, rfl, ?_⟩ .nil⟩
  · refine ⟨by decide +kernel, rfl, .cons ⟨scatteredOccurrence, rfl, ?_⟩ (.cons ⟨_, rfl, ?_⟩ .nil)⟩
    · exact ⟨by decide +kernel, rfl, rfl, Or.inl rfl, Or.inl rfl⟩
    · exact ⟨by decide +kernel, rfl, rfl, Or.inr ⟨rfl, rfl⟩, Or.inr ⟨rfl, rfl⟩⟩

end Document

end CodeAtlas
