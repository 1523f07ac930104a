import CodeAtlas.Proofs.SymbolIndex.Offsets

/-!
# Reading stays within bounds

A message that is read by offsets asks for no byte outside them, and neither do the documents of an index, which are messages within
messages within one buffer. The main statement, `Document.reading_staysWithin`, is about every buffer and every index: questions are for
bytes of the window only, at most one for each, the windows found lie one after another within it, and every reading comes to an end.
-/

namespace CodeAtlas.Wire

open Trace

variable {β : Type}

section Parts

variable {buffer : List UInt8} {w w' : Window} {take : β → LocatedField → Trace β} {read : β → Field → Except Malformed β}

/-! ## Messages -/

/-- Taking a located field as `read` takes the field itself: a number without a look at the buffer, a window with a look at the window
only. -/
structure Follows (buffer : List UInt8) (take : β → LocatedField → Trace β) (read : β → Field → Except Malformed β) :
    Prop where
  number : ∀ b k n p, (take b ⟨k, .number n⟩).Gives p p (read b ⟨k, .number n⟩)
  window : ∀ b k (v : Window), v.IsPart ⟨0, buffer⟩ →
    (take b ⟨k, .span v.start v.stop⟩).Gives v.start v.stop (read b ⟨k, .window v⟩)

/-- Taking a field asks for bytes between those that were asked for to find it and the next field. -/
theorem Follows.of_field (htake : Follows buffer take read) (h : w.IsPart ⟨0, buffer⟩) {f : Field} (hf : field w = .ok (some f, w'))
    (b : β) :
    w.start ≤ Value.head w'.start (some f.value) ∧ Value.head w'.start (some f.value) ≤ w'.start ∧
      (take b f.located).Gives (Value.head w'.start (some f.value)) w'.start (read b f) := by
  obtain ⟨tag, u, v, hnumber, -, hvalue, hv⟩ := field_cases hf
  obtain ⟨x, rfl, rfl⟩ := Option.map_eq_some_iff.1 hv.symm
  obtain ⟨hpart, hlt, -, -⟩ := h.of_number hnumber
  obtain ⟨-, n, hn, hx⟩ | ⟨-, n, y, hn, hfits, hx, rfl⟩ | ⟨n, -, -, hx, -⟩ := value_cases hvalue
  · cases hx
    have hnext := (hpart.of_number hn).2.1
    exact ⟨by simp only [Value.head]; omega, Nat.le_refl _, htake.number b _ n _⟩
  · cases hx
    obtain ⟨hinner, hnext, -, -⟩ := hpart.of_number hn
    have hend : (y.take n).stop = (y.drop n).start := by simp [Window.stop, Window.take, Window.drop, hfits]
    have hwindow := htake.window b (tag / 8) (y.take n) ((Window.isPart_take y n).trans hinner)
    rw [hend] at hwindow
    refine ⟨?_, Nat.le_add_right _ _, ?_⟩
    · show w.start ≤ y.start
      omega
    · rw [Field.located, Value.located, hend]
      exact hwindow
  · cases hx

/-- In an empty window there are no fields to ask for. -/
theorem fieldsFrom_of_empty (hbytes : w.bytes = []) (turns : Nat) (b : β) :
    fieldsFrom buffer w.stop take turns w.start b = pure (b, none) := by
  cases turns <;> rw [fieldsFrom, if_pos ((stop_le_start_iff w).2 hbytes)]

/-- The fields of a window are read one after the other up to its end. -/
theorem gives_fieldsFrom (htake : Follows buffer take read) (h : w.IsPart ⟨0, buffer⟩) {turns : Nat} (hturns : w.bytes.length ≤ turns)
    (b : β) :
    (fieldsFrom buffer w.stop take turns w.start b).Gives w.start w.stop
      (((fields w).read.foldlM read b).map fun b => (b, (fields w).problem)) := by
  induction w using fields_induction generalizing turns b with
  | empty w hbytes =>
    rw [fieldsFrom_of_empty hbytes, fields_of_empty hbytes]
    exact Gives.pure _ _ _
  | malformed w e hbytes hfield =>
    cases turns with
    | zero => exact absurd (List.length_eq_zero_iff.1 (Nat.le_zero.1 hturns)) hbytes
    | succ turns =>
      rw [fieldsFrom, if_neg (mt (stop_le_start_iff w).1 hbytes), fields_of_error hbytes hfield]
      exact (gives_fieldAt_error h hfield).attempt.bind (Gives.pure _ _ _) (Window.start_le_stop w) (Nat.le_refl _)
  | step w f w' hfield ih =>
    have hlength := length_of_field hfield
    have hstop := stop_of_field hfield
    have hbytes : w.bytes ≠ [] := by
      intro hbytes
      simp [hbytes] at hlength
    obtain ⟨used, -, hused, hw'⟩ := eq_drop_of_field hfield
    have hpart : w'.IsPart ⟨0, buffer⟩ := hw' ▸ h.drop hused
    have hbefore : w.start ≤ w'.start := by
      rw [hw']
      exact Nat.le_add_right _ _
    have hbehind : w'.start ≤ w.stop := hstop ▸ Window.start_le_stop w'
    cases turns with
    | zero => exact absurd (List.length_eq_zero_iff.1 (Nat.le_zero.1 hturns)) hbytes
    | succ turns =>
      have hrest : ∀ b, (fieldsFrom buffer w.stop take turns w'.start b).Gives w'.start w.stop
          (((fields w').read.foldlM read b).map fun b => (b, (fields w').problem)) := by
        intro b
        have hturns' : w'.bytes.length ≤ turns := by omega
        have hgives := ih hpart hturns' b
        rw [hstop] at hgives
        exact hgives
      rw [fieldsFrom, if_neg (mt (stop_le_start_iff w).1 hbytes), fields_of_ok hfield]
      cases f with
      | none => exact (gives_fieldAt h hfield).attempt.bind (hrest b) hbefore hbehind
      | some f =>
        obtain ⟨hlow, hhigh, hgives⟩ := htake.of_field h hfield b
        refine (gives_fieldAt h hfield).attempt.bind ?_ hlow (Nat.le_trans hhigh hbehind)
        show (take b f.located >>= fun b => fieldsFrom buffer w.stop take turns w'.start b).Gives _ _ _
        rw [Option.toList_some, List.singleton_append, List.foldlM_cons]
        cases hread : read b f with
        | error e =>
          rw [hread] at hgives
          exact (hgives.mono (Nat.le_refl _) hbehind).bind_error _
        | ok b' =>
          rw [hread] at hgives
          exact hgives.bind (hrest b') hhigh hbehind

/-- Handing the fields of a part of the buffer to `take` comes to what handing them to `read` does. -/
theorem gives_foldFieldsAt (htake : Follows buffer take read) (h : w.IsPart ⟨0, buffer⟩) (b : β) :
    (foldFieldsAt buffer w.start w.stop take b).Gives w.start w.stop
      (((fields w).read.foldlM read b).map fun b => (b, (fields w).problem)) := by
  rw [foldFieldsAt, if_pos ⟨Window.start_le_stop w, h.stop_le⟩, Window.stop_sub_start]
  exact gives_fieldsFrom htake h (Nat.le_refl _) b

/-- A message is read within its window. -/
theorem gives_messageAt (htake : Follows buffer take read) (h : w.IsPart ⟨0, buffer⟩) (b : β) :
    (messageAt buffer w.start w.stop take b).Gives w.start w.stop (foldFields read b w) := by
  have hgives := gives_foldFieldsAt htake h b
  unfold messageAt foldFields
  cases hfold : (fields w).read.foldlM read b with
  | error e =>
    rw [hfold] at hgives
    exact hgives.bind_error _
  | ok b' =>
    rw [hfold] at hgives
    refine hgives.bind ?_ (Window.start_le_stop w) (Nat.le_refl _)
    cases (fields w).problem with
    | none => exact Gives.pure _ _ _
    | some e => exact Gives.refuse _ _ _

/-- Gathering the fields does not look into their windows. -/
theorem follows_gather (buffer : List UInt8) :
    Follows buffer (fun fs f => pure (fs ++ [f])) fun (fs : List LocatedField) f => .ok (fs ++ [f.located]) where
  number _ _ _ _ := Gives.pure _ _ _
  window _ _ _ _ := Gives.pure _ _ _

/-- Fields are gathered in their order. -/
theorem foldlM_gather (fs : List Field) (before : List LocatedField) :
    fs.foldlM (m := Except Malformed) (fun fs f => .ok (fs ++ [f.located])) before = .ok (before ++ fs.map Field.located) := by
  induction fs generalizing before with
  | nil => simp [pure, Except.pure]
  | cons f fs ih =>
    rw [List.foldlM_cons]
    show fs.foldlM _ (before ++ [f.located]) = _
    rw [ih, List.map_cons, List.append_assoc, List.singleton_append]

/-- The fields of a window are found at their places. -/
theorem gives_fieldsAt (h : w.IsPart ⟨0, buffer⟩) :
    (fieldsAt buffer w.start w.stop).Gives w.start w.stop (.ok ((fields w).read.map Field.located, (fields w).problem)) := by
  have hgives := gives_foldFieldsAt (follows_gather buffer) h []
  rw [foldlM_gather, List.nil_append] at hgives
  exact hgives

end Parts

/-! ## The windows in a message -/

/-- The window that a field holds. -/
def Field.window? (f : Field) : Option Window :=
  match f.value with
  | .window w => some w
  | .number _ => none

/-- The windows that the fields of a message hold. -/
def windows (w : Window) : List Window := (fields w).read.filterMap Field.window?

/-- A field holds a window if that is its value. -/
theorem Field.window?_eq_some_iff {f : Field} {v : Window} : f.window? = some v ↔ f.value = .window v := by
  unfold window?
  cases f.value <;> simp

/-- The windows in a window are part of it. -/
theorem isPart_of_mem_windows {v w : Window} (h : v ∈ windows w) : v.IsPart w := by
  obtain ⟨f, hf, hv⟩ := List.mem_filterMap.1 h
  exact isPart_of_mem_read hf (Field.window?_eq_some_iff.1 hv)

/-- A part of a window lies between its ends. -/
theorem Window.IsPart.bounds {v w : Window} (h : v.IsPart w) : w.start ≤ v.start ∧ v.stop ≤ w.stop := by
  obtain ⟨before, after, hbytes, hstart⟩ := h
  rw [stop, stop, hstart, hbytes]
  simp only [List.length_append]
  omega

/-- The windows that a message holds lie one after another. -/
theorem pairwise_windows (w : Window) : (windows w).Pairwise fun u v => u.stop ≤ v.start := by
  induction w using fields_induction with
  | empty w hbytes => simp [windows, fields_of_empty hbytes]
  | malformed w e hbytes hfield => simp [windows, fields_of_error hbytes hfield]
  | step w f w' hfield ih =>
    have hwindows : windows w = f.toList.filterMap Field.window? ++ windows w' := by
      rw [windows, fields_of_ok hfield, List.filterMap_append]
      rfl
    rw [hwindows]
    refine List.pairwise_append.2 ⟨?_, ih, ?_⟩
    · cases f with
      | none => exact List.Pairwise.nil
      | some f =>
        rw [Option.toList_some, List.filterMap_cons]
        cases f.window? <;> simp
    · intro u hu v hv
      obtain ⟨g, hg, hwindow⟩ := List.mem_filterMap.1 hu
      obtain rfl := Option.mem_toList.1 hg
      have hstop : u.stop ≤ w'.start := by
        obtain ⟨tag, x, y, -, -, hvalue, hy⟩ := field_cases hfield
        obtain ⟨y, rfl, rfl⟩ := Option.map_eq_some_iff.1 hy.symm
        obtain ⟨-, n, -, hx⟩ | ⟨-, n, z, -, hfits, hx, rfl⟩ | ⟨n, -, -, hx, -⟩ := value_cases hvalue
        · cases hx
          cases hwindow
        · cases hx
          cases hwindow
          simp only [Window.stop, Window.take, Window.drop, List.length_take]
          omega
        · cases hx
      exact Nat.le_trans hstop (isPart_of_mem_windows hv).bounds.1

/-- The part of a buffer between two of its offsets. -/
theorem Window.isPart_ofBuffer {buffer : List UInt8} {start stop : Nat} (hstart : start ≤ stop) (hstop : stop ≤ buffer.length) :
    (ofBuffer buffer start stop).IsPart ⟨0, buffer⟩ ∧ (ofBuffer buffer start stop).stop = stop := by
  have hlength : (buffer.take start).length = start := List.length_take_of_le (Nat.le_trans hstart hstop)
  refine ⟨⟨buffer.take start, buffer.drop stop, ?_, ?_⟩, ?_⟩
  · have hfront : buffer.take start ++ (buffer.take stop).drop start = buffer.take stop := by
      have htake : buffer.take start = (buffer.take stop).take start := by rw [List.take_take, Nat.min_eq_left hstart]
      rw [htake, List.take_append_drop]
    show buffer = buffer.take start ++ ((buffer.take stop).drop start ++ buffer.drop stop)
    rw [← List.append_assoc, hfront, List.take_append_drop]
  · rw [hlength, Nat.zero_add]
    rfl
  · simp only [ofBuffer, Window.stop, List.length_drop, List.length_take]
    omega

/-- Reading a part of a buffer by its offsets, as a message or as numbers, asks for bytes of the part only and comes to what the part
holds, and the windows that it holds are parts of it, one after another. -/
structure StaysWithin (buffer : List UInt8) (w : Window) : Prop where
  fields : (fieldsAt buffer w.start w.stop).Gives w.start w.stop (.ok ((fields w).read.map Field.located, (fields w).problem))
  numbers : (numbersAt buffer w.start w.stop).Gives w.start w.stop (numbers w)
  inside : ∀ v ∈ windows w, w.start ≤ v.start ∧ v.start ≤ v.stop ∧ v.stop ≤ w.stop
  apart : (windows w).Pairwise fun u v => u.stop ≤ v.start

/-- A part of a buffer is read within its bounds. -/
theorem staysWithin_of_isPart {buffer : List UInt8} {w : Window} (h : w.IsPart ⟨0, buffer⟩) : StaysWithin buffer w where
  fields := gives_fieldsAt h
  numbers := gives_numbersAt h
  inside v hv := ⟨(isPart_of_mem_windows hv).bounds.1, Window.start_le_stop v, (isPart_of_mem_windows hv).bounds.2⟩
  apart := pairwise_windows w

end CodeAtlas.Wire

namespace CodeAtlas

open Wire Trace

/-! ## Documents -/

namespace Occurrence

/-- Reads a field of an occurrence in a buffer. -/
def takeField (buffer : List UInt8) (o : Occurrence) (f : LocatedField) : Trace Occurrence :=
  match f.number, f.value with
  | 1, .span start stop => do
    let ns ← numbersAt buffer start stop
    pure { o with range := ns }
  | 2, .span start stop => do
    let bytes ← bytesAt buffer start stop
    pure { o with symbol := String.ofList (Utf8.decodeLossy bytes) }
  | 4, .number n => pure { o with roles := n }
  | 7, .span start stop => do
    let ns ← numbersAt buffer start stop
    pure { o with enclosing := ns }
  | _, _ => pure o

/-- The occurrence between two offsets; none without a symbol or with a range too short. -/
def decodeAt (buffer : List UInt8) (start stop : Nat) : Trace (Option Occurrence) := do
  let o ← messageAt buffer start stop (takeField buffer) { range := [], symbol := "" }
  pure (if o.symbol.isEmpty || decide (o.range.length < 3) then none else some o)

/-- A field of an occurrence is read at its place as it is from its bytes. -/
theorem follows_takeField (buffer : List UInt8) : Follows buffer (takeField buffer) readField where
  number o k n p := by
    by_cases hroles : k = 4
    · subst hroles
      exact Gives.pure _ _ _
    · have htake : takeField buffer o ⟨k, .number n⟩ = pure o := by
        unfold takeField
        split <;> simp_all
      have hread : readField o ⟨k, .number n⟩ = .ok o := by
        unfold readField
        split <;> simp_all
      rw [htake, hread]
      exact Gives.pure _ _ _
  window o k v hv := by
    have hle := Window.start_le_stop v
    by_cases hunused : k ≠ 1 ∧ k ≠ 2 ∧ k ≠ 4 ∧ k ≠ 7
    · have htake : takeField buffer o ⟨k, .span v.start v.stop⟩ = pure o := by
        unfold takeField
        split <;> simp_all
      rw [htake, readField_of_unused hunused]
      exact Gives.pure _ _ _
    · have hused : k = 1 ∨ k = 2 ∨ k = 4 ∨ k = 7 := by omega
      rcases hused with rfl | rfl | rfl | rfl
      · exact (gives_numbersAt hv).map hle fun _ => rfl
      · exact (gives_bytesAt hv).map hle fun _ => rfl
      · exact Gives.pure _ _ _
      · exact (gives_numbersAt hv).map hle fun _ => rfl

/-- An occurrence is read within its window. -/
theorem gives_decodeAt {buffer : List UInt8} {w : Window} (h : w.IsPart ⟨0, buffer⟩) :
    (decodeAt buffer w.start w.stop).Gives w.start w.stop (decode w) := by
  rw [decode_eq]
  exact (gives_messageAt (follows_takeField buffer) h _).map (Window.start_le_stop w) fun _ => rfl

end Occurrence

namespace Document

/-- Reads a field of a document in a buffer. -/
def takeField (buffer : List UInt8) (d : Document) (f : LocatedField) : Trace Document :=
  match f.number, f.value with
  | 2, .span start stop => do
    let o ← Occurrence.decodeAt buffer start stop
    pure { d with occurrences := d.occurrences ++ o.toList }
  | 4, .span start stop => do
    let bytes ← bytesAt buffer start stop
    pure { d with path := String.ofList (Utf8.decodeLossy bytes) }
  | _, _ => pure d

/-- The document between two offsets. -/
def decodeAt (buffer : List UInt8) (start stop : Nat) : Trace Document :=
  messageAt buffer start stop (takeField buffer) { path := "", occurrences := [] }

/-- A field of a document is read at its place as it is from its bytes. -/
theorem follows_takeField (buffer : List UInt8) : Follows buffer (takeField buffer) readField where
  number d k n p := by
    have htake : takeField buffer d ⟨k, .number n⟩ = pure d := by
      unfold takeField
      split <;> simp_all
    have hread : readField d ⟨k, .number n⟩ = .ok d := by
      unfold readField
      split <;> simp_all
    rw [htake, hread]
    exact Gives.pure _ _ _
  window d k v hv := by
    have hle := Window.start_le_stop v
    by_cases hunused : k ≠ 2 ∧ k ≠ 4
    · have htake : takeField buffer d ⟨k, .span v.start v.stop⟩ = pure d := by
        unfold takeField
        split <;> simp_all
      rw [htake, readField_of_unused hunused]
      exact Gives.pure _ _ _
    · have hused : k = 2 ∨ k = 4 := by omega
      rcases hused with rfl | rfl
      · exact (Occurrence.gives_decodeAt hv).map hle fun _ => rfl
      · exact (gives_bytesAt hv).map hle fun _ => rfl

/-- A document is read within its window. -/
theorem gives_decodeAt {buffer : List UInt8} {w : Window} (h : w.IsPart ⟨0, buffer⟩) :
    (decodeAt buffer w.start w.stop).Gives w.start w.stop (decode w) := by
  rw [decode_eq]
  exact gives_messageAt (follows_takeField buffer) h _

/-- Adds the document that a field of an index holds to those before it, unless it is malformed or has no path. -/
def takeDocument (buffer : List UInt8) (ds : List Document) (f : LocatedField) : Trace (List Document) :=
  match f.number, f.value with
  | 2, .span start stop => do
    match ← (decodeAt buffer start stop).attempt with
    | .ok d => pure (if d.path.isEmpty then ds else ds ++ [d])
    | .error _ => pure ds
  | _, _ => pure ds

/-- The documents of an index in a buffer of its own, up to where the index breaks off. -/
def decodeAllAt (index : List UInt8) : Trace (List Document) := do
  let (ds, _) ← foldFieldsAt index 0 index.length (takeDocument index) []
  pure ds

/-- A field of an index is read at its place as it is from its bytes. -/
theorem follows_takeDocument (buffer : List UInt8) :
    Follows buffer (takeDocument buffer) fun ds f => .ok (ds ++ (ofField f).toList) where
  number ds k n p := by
    have htake : takeDocument buffer ds ⟨k, .number n⟩ = pure ds := by
      unfold takeDocument
      split <;> simp_all
    have hnone : ofField ⟨k, .number n⟩ = none := by
      unfold ofField
      split <;> simp_all
    rw [htake, hnone, Option.toList_none, List.append_nil]
    exact Gives.pure _ _ _
  window ds k v hv := by
    by_cases hunused : k ≠ 2
    · have htake : takeDocument buffer ds ⟨k, .span v.start v.stop⟩ = pure ds := by
        unfold takeDocument
        split <;> simp_all
      rw [htake, ofField_of_unused hunused, Option.toList_none, List.append_nil]
      exact Gives.pure _ _ _
    · obtain rfl : k = 2 := by omega
      refine (gives_decodeAt hv).attempt.bind ?_ (Window.start_le_stop v) (Nat.le_refl _)
      rw [ofField_window]
      cases decode v with
      | error e => simpa using Gives.pure ds _ _
      | ok d =>
        by_cases hpath : d.path.isEmpty = true
        · simpa [hpath] using Gives.pure ds _ _
        · simpa [hpath] using Gives.pure (ds ++ [d]) _ _

/-- Documents are gathered in their order. -/
theorem foldlM_filterMap (fs : List Field) (ds : List Document) :
    fs.foldlM (m := Except Malformed) (fun ds f => .ok (ds ++ (ofField f).toList)) ds = .ok (ds ++ fs.filterMap ofField) := by
  induction fs generalizing ds with
  | nil => simp [pure, Except.pure]
  | cons f fs ih =>
    rw [List.foldlM_cons]
    show fs.foldlM _ (ds ++ (ofField f).toList) = _
    rw [ih, List.filterMap_cons]
    cases ofField f <;> simp

/-- An index is read within its bounds, and without a problem. -/
theorem gives_decodeAllAt (index : List UInt8) : (decodeAllAt index).Gives 0 index.length (.ok (decodeAll index)) := by
  have hpart : (⟨0, index⟩ : Window).IsPart ⟨0, index⟩ := Window.IsPart.refl _
  have hgives := gives_foldFieldsAt (follows_takeDocument index) hpart []
  rw [foldlM_filterMap, List.nil_append, Window.stop, Nat.zero_add] at hgives
  exact hgives.map (Nat.zero_le _) fun _ => rfl

/-- Reading never leaves its window. Between any two offsets of a buffer, a message is read with questions for bytes between them only,
at most one for each; the windows it holds are between them, one after another, and stay within their own bounds when they are read
again. So the documents of any index are found with at most one question for each of its bytes and for no other, every loop comes to its
end, and whatever is malformed ends in a list of documents all the same. -/
theorem reading_staysWithin (index : List UInt8) :
    (∀ start stop : Nat, start ≤ stop → stop ≤ index.length → ∃ w, Window.ofBuffer? index start stop = .ok w ∧
      (w.start = start ∧ w.stop = stop) ∧ StaysWithin index w ∧ (∀ v ∈ windows w, StaysWithin index v) ∧
        (fieldsAt index start stop).asked.length ≤ stop - start) ∧
      (decodeAllAt index).Gives 0 index.length (.ok (decodeAll index)) ∧ (decodeAllAt index).asked.length ≤ index.length := by
  refine ⟨fun start stop hstart hstop => ?_, gives_decodeAllAt index, (gives_decodeAllAt index).length_asked_le⟩
  obtain ⟨hpart, hend⟩ := Window.isPart_ofBuffer hstart hstop
  have hbuffer := Window.ofBuffer?_of_isPart hpart
  have hwithin := staysWithin_of_isPart hpart
  rw [hend] at hbuffer
  refine ⟨_, hbuffer, ⟨rfl, hend⟩, hwithin, fun v hv => staysWithin_of_isPart ((isPart_of_mem_windows hv).trans hpart), ?_⟩
  have hlength := hwithin.fields.length_asked_le
  rw [hend] at hlength
  exact hlength

/-- A document with a path, and a byte after it that is no field. -/
def pathAndRest : List UInt8 := [18, 4, 34, 2, 97, 98, 7]

/-- The message before the last byte is found by looking at its tag and its length only. -/
theorem staysWithin_pathAndRest :
    (∃ w, Window.ofBuffer? pathAndRest (0 : Nat) (6 : Nat) = .ok w ∧ (w.start = 0 ∧ w.stop = 6) ∧ StaysWithin pathAndRest w ∧
      (∀ v ∈ windows w, StaysWithin pathAndRest v) ∧ (fieldsAt pathAndRest 0 6).asked.length ≤ 6 - 0) ∧
      (fieldsAt pathAndRest 0 6).asked = [0, 1] ∧ (decodeAllAt pathAndRest).asked = [0, 1, 2, 3, 4, 5, 6] ∧
        decodeAll pathAndRest = [⟨"ab", []⟩] :=
  ⟨(reading_staysWithin pathAndRest).1 0 6 (by decide) (by decide), by decide, by decide, by decide⟩

end Document

end CodeAtlas
