import CodeAtlas.Proofs.SymbolIndex.Encoding
import CodeAtlas.SymbolIndex.Document

/-!
# Documents one after another

What a document holds depends on its own bytes and not on where in the index they stand. An index that is read to its end can therefore
be followed by another: together they hold the documents of the first and then those of the second. Documents that are framed one after
another do not affect each other, whatever their bytes.
-/

namespace CodeAtlas

open Wire

namespace Occurrence

/-- A field that an occurrence does not use changes nothing. -/
theorem readField_of_unused {f : Field} (h : f.number ≠ 1 ∧ f.number ≠ 2 ∧ f.number ≠ 4 ∧ f.number ≠ 7) (o : Occurrence) :
    readField o f = .ok o := by
  obtain ⟨h1, h2, h4, h7⟩ := h
  unfold readField
  split
  · exact absurd ‹f.number = 1› h1
  · exact absurd ‹f.number = 2› h2
  · exact absurd ‹f.number = 4› h4
  · exact absurd ‹f.number = 7› h7
  · rfl

/-- The fields of an occurrence are read alike from elsewhere. -/
theorem readField_shift (k : Nat) (o : Occurrence) (f : Field) :
    readField o (f.shift k) = (readField o f).mapError (·.shift k) := by
  obtain ⟨n, v⟩ := f
  by_cases hunused : n ≠ 1 ∧ n ≠ 2 ∧ n ≠ 4 ∧ n ≠ 7
  · rw [readField_of_unused hunused, readField_of_unused hunused]
    rfl
  have hnumbers : ∀ (w : Window) (put : List Nat → Occurrence),
      (numbers (w.shift k)).map put = ((numbers w).map put).mapError (·.shift k) := by
    intro w put
    rw [numbers_shift]
    cases numbers w <;> rfl
  have hused : n = 1 ∨ n = 2 ∨ n = 4 ∨ n = 7 := by omega
  obtain rfl | rfl | rfl | rfl := hused
  · cases v with
    | number x => rfl
    | window w => exact hnumbers w _
  · cases v <;> rfl
  · cases v <;> rfl
  · cases v with
    | number x => rfl
    | window w => exact hnumbers w _

/-- An occurrence is read from its fields, and is none without a symbol or a range. -/
theorem decode_eq (w : Window) :
    decode w = (foldFields readField { range := [], symbol := "" } w).map fun o =>
      if o.symbol.isEmpty || decide (o.range.length < 3) then none else some o := by
  unfold decode foldFields
  dsimp only
  cases (fields w).read.foldlM readField { range := [], symbol := "" } with
  | error e => rfl
  | ok o => cases (fields w).problem <;> rfl

/-- An occurrence is read alike from elsewhere. -/
theorem decode_shift (k : Nat) (w : Window) : decode (w.shift k) = (decode w).mapError (·.shift k) := by
  rw [decode_eq, decode_eq, foldFields_shift (readField_shift k)]
  cases foldFields readField { range := [], symbol := "" } w <;> rfl

end Occurrence

namespace Document

/-- A field that a document does not use changes nothing. -/
theorem readField_of_unused {f : Field} (h : f.number ≠ 2 ∧ f.number ≠ 4) (d : Document) : readField d f = .ok d := by
  obtain ⟨h2, h4⟩ := h
  unfold readField
  split
  · exact absurd ‹f.number = 2› h2
  · exact absurd ‹f.number = 4› h4
  · rfl

/-- The fields of a document are read alike from elsewhere. -/
theorem readField_shift (k : Nat) (d : Document) (f : Field) :
    readField d (f.shift k) = (readField d f).mapError (·.shift k) := by
  obtain ⟨n, v⟩ := f
  by_cases hunused : n ≠ 2 ∧ n ≠ 4
  · rw [readField_of_unused hunused, readField_of_unused hunused]
    rfl
  have hused : n = 2 ∨ n = 4 := by omega
  obtain rfl | rfl := hused
  · cases v with
    | number x => rfl
    | window w =>
      show (Occurrence.decode (w.shift k)).map _ = ((Occurrence.decode w).map _).mapError _
      rw [Occurrence.decode_shift]
      cases Occurrence.decode w <;> rfl
  · cases v <;> rfl

/-- A document is read from its fields. -/
theorem decode_eq (w : Window) : decode w = foldFields readField { path := "", occurrences := [] } w := by
  unfold decode foldFields
  dsimp only
  cases (fields w).read.foldlM readField { path := "", occurrences := [] } with
  | error e => rfl
  | ok d => cases (fields w).problem <;> rfl

/-- A document is read alike from elsewhere. -/
theorem decode_shift (k : Nat) (w : Window) : decode (w.shift k) = (decode w).mapError (·.shift k) := by
  rw [decode_eq, decode_eq, foldFields_shift (readField_shift k)]

/-- A field that an index does not use holds no document. -/
theorem ofField_of_unused {f : Field} (h : f.number ≠ 2) : ofField f = none := by
  unfold ofField
  split
  · exact absurd ‹f.number = 2› h
  · rfl

/-- A field of an index holds a document if that can be read and has a path. -/
theorem ofField_window (w : Window) :
    ofField ⟨2, .window w⟩ = match decode w with
      | .ok d => if d.path.isEmpty then none else some d
      | .error _ => none := rfl

/-- It holds the same document elsewhere. -/
theorem ofField_shift (k : Nat) (f : Field) : ofField (f.shift k) = ofField f := by
  obtain ⟨n, v⟩ := f
  by_cases hunused : n ≠ 2
  · rw [ofField_of_unused hunused, ofField_of_unused hunused]
  obtain rfl : n = 2 := by omega
  cases v with
  | number x => rfl
  | window w =>
    show ofField ⟨2, .window (w.shift k)⟩ = _
    rw [ofField_window, ofField_window, decode_shift]
    cases decode w <;> rfl

/-- The same bytes elsewhere in a buffer hold the same documents. -/
theorem filterMap_ofField_fields (start : Nat) (index : List UInt8) :
    (fields ⟨start, index⟩).read.filterMap ofField = decodeAll index := by
  have hshift : (⟨start, index⟩ : Window) = (⟨0, index⟩ : Window).shift start := by
    rw [Window.shift, Nat.zero_add]
  rw [hshift, fields_shift, Fields.shift, List.filterMap_map, decodeAll]
  exact congrArg (fun f => List.filterMap f _) (funext fun f => ofField_shift start f)

/-- An index that is read to its end may be followed by another. -/
theorem decodeAll_append {a : List UInt8} (h : (fields ⟨0, a⟩).problem = none) (b : List UInt8) :
    decodeAll (a ++ b) = decodeAll a ++ decodeAll b := by
  have hread : (fields ⟨0, a ++ b⟩).read = (fields ⟨0, a⟩).read ++ (fields ⟨Window.stop ⟨0, a⟩, b⟩).read :=
    congrArg Fields.read (fields_append h b)
  rw [decodeAll, hread, List.filterMap_append]
  exact congrArg (_ ++ ·) (filterMap_ofField_fields _ b)

/-! ## Frames -/

/-- The bytes that frame a payload as a document of an index. -/
def framed (payload : List UInt8) : List UInt8 := Entry.bytes ⟨2, .window payload⟩

/-- The document that a payload holds by itself: none if it is malformed or has no path. -/
def ofPayload (payload : List UInt8) : Option Document :=
  match decode ⟨0, payload⟩ with
  | .ok d => if d.path.isEmpty then none else some d
  | .error _ => none

/-- A framed payload is one field. -/
theorem fields_framed {p : List UInt8} (h : IsReadable p.length) (start : Nat) :
    ∃ offset, fields ⟨start, framed p⟩ = ⟨[⟨2, .window ⟨offset, p⟩⟩], none⟩ := by
  have hentry : ∀ e ∈ ([⟨2, .window p⟩] : Message), e.IsReadable := by
    intro e he
    rw [List.mem_singleton] at he
    subst he
    exact ⟨Nat.two_pos, (by decide : IsReadable 18), h⟩
  have hfields := fields_bytes hentry start
  rw [Message.bytes, List.flatMap_singleton] at hfields
  exact ⟨_, hfields⟩

/-- A framed payload is read to its end, whatever it holds. -/
theorem problem_framed {p : List UInt8} (h : IsReadable p.length) : (fields ⟨0, framed p⟩).problem = none := by
  obtain ⟨offset, hfields⟩ := fields_framed h 0
  rw [hfields]

/-- A framed payload is an index of its document, if it holds one. -/
theorem decodeAll_framed {p : List UInt8} (h : IsReadable p.length) : decodeAll (framed p) = (ofPayload p).toList := by
  obtain ⟨offset, hfields⟩ := fields_framed h 0
  have hshift : (⟨2, .window ⟨offset, p⟩⟩ : Field) = Field.shift offset ⟨2, .window ⟨0, p⟩⟩ := by
    rw [Field.shift, Value.shift, Window.shift, Nat.zero_add]
  have hfield : ofField ⟨2, .window ⟨offset, p⟩⟩ = ofPayload p := by
    rw [hshift, ofField_shift]
    rfl
  rw [decodeAll, hfields, List.filterMap_cons, hfield]
  cases ofPayload p <;> rfl

/-- Framed payloads give the documents that each of them holds by itself, in order. -/
theorem decodeAll_flatMap_framed {ps : List (List UInt8)} (h : ∀ p ∈ ps, IsReadable p.length) :
    decodeAll (ps.flatMap framed) = ps.filterMap ofPayload := by
  induction ps with
  | nil => rfl
  | cons p ps ih =>
    have hp := h p List.mem_cons_self
    rw [List.flatMap_cons, decodeAll_append (problem_framed hp), decodeAll_framed hp, ih fun q hq => h q (List.mem_cons_of_mem p hq),
      List.filterMap_cons]
    cases ofPayload p <;> rfl

/-- A malformed payload holds no document. -/
theorem ofPayload_of_error {p : List UInt8} {e : Malformed} (h : decode ⟨0, p⟩ = .error e) : ofPayload p = none := by
  rw [ofPayload, h]

/-- Framing composes: an index that is read to its end may be followed by any bytes, and framed payloads give, in order, what each of
them holds by itself. A malformed payload holds nothing, and without it the others give the same. Only a payload whose length takes more
than ten groups of seven bits could not be framed, which no memory holds. -/
theorem decodeAll_composes :
    (∀ a b : List UInt8, (fields ⟨0, a⟩).problem = none → decodeAll (a ++ b) = decodeAll a ++ decodeAll b) ∧
      ∀ ps : List (List UInt8), (∀ p ∈ ps, IsReadable p.length) →
        decodeAll (ps.flatMap framed) = ps.filterMap ofPayload ∧
          (∀ p ∈ ps, decodeAll (framed p) = (ofPayload p).toList) ∧
            ∀ before p after e, ps = before ++ p :: after → decode ⟨0, p⟩ = .error e →
              ofPayload p = none ∧ decodeAll (ps.flatMap framed) = decodeAll ((before ++ after).flatMap framed) := by
  refine ⟨fun a b h => decodeAll_append h b, fun ps h => ⟨decodeAll_flatMap_framed h, fun p hp => decodeAll_framed (h p hp), ?_⟩⟩
  rintro before p after e rfl herror
  have hnone := ofPayload_of_error herror
  have hothers : ∀ q ∈ before ++ after, IsReadable q.length := by
    intro q hq
    rcases List.mem_append.1 hq with hq | hq
    · exact h q (List.mem_append_left _ hq)
    · exact h q (List.mem_append_right _ (List.mem_cons_of_mem p hq))
  refine ⟨hnone, ?_⟩
  rw [decodeAll_flatMap_framed h, decodeAll_flatMap_framed hothers, List.filterMap_append, List.filterMap_append, List.filterMap_cons,
    hnone]

/-- Three payloads, of which the second breaks off within the path. -/
def payloads : List (List UInt8) := [[34, 1, 97], [34, 9], [34, 1, 98]]

/-- What breaks off between two documents that are whole is left out, and what follows it is found. -/
theorem decodeAll_around_malformed :
    (fields ⟨0, framed [34, 1, 97]⟩).problem = none ∧ (∀ p ∈ payloads, IsReadable p.length) ∧
      decode ⟨0, [34, 9]⟩ = .error (.overrun 4 9 2 2) ∧
        decodeAll (framed [34, 1, 97] ++ framed [34, 1, 98]) = [⟨"a", []⟩, ⟨"b", []⟩] ∧
          decodeAll (payloads.flatMap framed) = [⟨"a", []⟩, ⟨"b", []⟩] := by
  have hwhole : (fields ⟨0, framed [34, 1, 97]⟩).problem = none := by decide +kernel
  have hreadable : ∀ p ∈ payloads, IsReadable p.length := by decide
  have herror : decode ⟨0, [34, 9]⟩ = .error (.overrun 4 9 2 2) := rfl
  refine ⟨hwhole, hreadable, herror, ?_, ?_⟩
  · rw [decodeAll_composes.1 _ (framed [34, 1, 98]) hwhole]
    decide +kernel
  · rw [((decodeAll_composes.2 payloads hreadable).2.2 [[34, 1, 97]] [34, 9] [[34, 1, 98]] _ rfl herror).2]
    decide +kernel

end Document

end CodeAtlas
