import CodeAtlas.Proofs.Graph.Structure
import CodeAtlas.Proofs.Import.CallsInFile
import Mathlib.Data.List.Nodup

/-!
# Imports are read back

The imports of a file of declarations are read back, each with its specifier, its line and its names, in the order of the declarations:
where every specifier has text, no list of local exports runs into the declaration behind it, and no call is read across two specifiers.
-/

namespace CodeAtlas.TypeScript

open Text Pattern ImportStatement

/-- What the declarations import, in their order. -/
def declaredImports (ds : List ModuleDeclaration) : List ImportStatement := (ds.zipIdx 1).filterMap fun d => d.1.form.import? d.2

/-- Declarations that are kept apart: every specifier has text, no open list stands in front of a declaration with `from`, and no call is
read across two specifiers. -/
structure KeptApart (ds : List ModuleDeclaration) : Prop where
  specifiers_ne_nil : ∀ s ∈ specifiers ds, s.text ≠ []
  lists : ds.IsChain fun d d' => ¬d.RunsInto d'
  calls : (specifiers ds).IsChain fun s s' => ¬s.CallsAcross s'

section Located

variable {α : Type} {sel sel' : Nat → Form → Option α} {offset line : Nat} {ds : List ModuleDeclaration}

/-- What is located by either of two selections. -/
theorem located_append_perm {both : Nat → Form → Option α} (h : ∀ line f, (sel line f).toList ++ (sel' line f).toList = (both line f).toList) :
    (located sel offset line ds ++ located sel' offset line ds).Perm (located both offset line ds) := by
  induction ds generalizing offset line with
  | nil => exact .nil
  | cons d ds ih =>
    have hline : ((sel line d.form).map (offset, ·)).toList ++ ((sel' line d.form).map (offset, ·)).toList =
        ((both line d.form).map (offset, ·)).toList := by
      rw [Option.toList_map, Option.toList_map, Option.toList_map, ← List.map_append, h]
    rw [located, located, located, ← hline, List.append_assoc, List.append_assoc]
    exact ((List.perm_append_comm_assoc _ _ _).trans (ih.append_left _)).append_left _

/-- What is found on lines is not before them. -/
theorem le_of_mem_located {x : Nat × α} (h : x ∈ located sel offset line ds) : offset ≤ x.1 := by
  induction ds generalizing offset line with
  | nil => nomatch h
  | cons d ds ih =>
    rcases List.mem_append.1 h with h | h
    · obtain ⟨y, -, rfl⟩ := Option.map_eq_some_iff.1 (Option.mem_toList.1 h)
      exact Nat.le_refl offset
    · have hle := ih h
      omega

/-- The offsets of what is located ascend. -/
theorem pairwise_located : (located sel offset line ds).Pairwise fun x y => x.1 < y.1 := by
  induction ds generalizing offset line with
  | nil => exact .nil
  | cons d ds ih =>
    refine List.pairwise_append.2 ⟨?_, ih, fun x hx y hy => ?_⟩
    · cases sel line d.form with
      | none => exact .nil
      | some a => exact List.pairwise_singleton _ _
    · obtain ⟨z, -, rfl⟩ := Option.map_eq_some_iff.1 (Option.mem_toList.1 hx)
      have hle := le_of_mem_located hy
      dsimp only
      omega

/-- What is found on lines is found in their order. -/
theorem map_located_eq : (located sel offset line ds).map Prod.snd = (ds.zipIdx line).filterMap fun d => sel d.2 d.1.form := by
  induction ds generalizing offset line with
  | nil => rfl
  | cons d ds ih =>
    rw [located, List.map_append, ih, List.zipIdx_cons, List.filterMap_cons]
    cases sel line d.form <;> rfl

/-- What is sorted by ascending offsets is in the order of the offsets. -/
theorem mergeSort_eq_of_perm {xs ys : List (Nat × α)} (h : xs.Perm ys) (hys : ys.Pairwise fun x y => x.1 < y.1) :
    (xs.mergeSort fun x y => decide (x.1 ≤ y.1)) = ys := by
  have hperm := (List.mergeSort_perm xs fun x y => decide (x.1 ≤ y.1)).trans h
  have hnodup : (ys.map Prod.fst).Nodup := List.pairwise_map.2 (hys.imp Nat.ne_of_lt)
  refine List.Perm.eq_of_pairwise (fun x y hx hy hxy hyx => ?_) (pairwise_mergeSort_key Prod.fst xs) (hys.imp Nat.le_of_lt) hperm
  exact List.inj_on_of_nodup_map hnodup (hperm.subset hx) hy (Nat.le_antisymm hxy hyx)

end Located

section Files

variable {final : Bool} {ds : List ModuleDeclaration} {content : Text} {st : ImportStatement} {m : Match}

/-- The statements of declarations that are kept apart are their imports. -/
theorem importStatements_of_keptApart (h : KeptApart ds) : importStatements (fileText final ds) = declaredImports ds := by
  have hne : ∀ d ∈ ds, ∀ s ∈ d.form.specifier?, s.text ≠ [] :=
    fun d hd s hs => h.specifiers_ne_nil s (List.mem_filterMap.2 ⟨d, hd, hs⟩)
  obtain ⟨hrequire, hdynamic⟩ := calls_eq_nil_iff.2 h.calls
  have hforms : ∀ line f, (Form.fromImport? line f).toList ++ (Form.bareImport? line f).toList = (Form.import? line f).toList := by
    intro line f
    cases f <;> rfl
  rw [importStatements, map_findAll_importFrom hne h.lists, map_findAll_sideEffectImport hne, hrequire, hdynamic, List.map_nil, List.append_nil,
    List.map_nil, List.append_nil, mergeSort_eq_of_perm (located_append_perm hforms) pairwise_located, map_located_eq]
  rfl

/-! ## Declarations that are not kept apart -/

/-- The statements of a file are found by four patterns. -/
theorem mem_importStatements_iff : st ∈ importStatements content ↔
    (∃ m ∈ importFrom.findAll content, (ofImportFrom content m).2 = st) ∨
      (∃ m ∈ sideEffectImport.findAll content, (statement content m [] false false).2 = st) ∨
        (∃ m ∈ requireCall.findAll content, (ofRequire content m).2 = st) ∨
          ∃ m ∈ dynamicImport.findAll content, (statement content m [] false true).2 = st := by
  simp only [importStatements, List.mem_map, List.mem_mergeSort, List.mem_append, or_and_right, exists_or, or_assoc, exists_exists_and_eq_and]

/-- The specifier of a declaration with `from` is the one that was found. -/
theorem specifier_ofImportFrom : (ofImportFrom content m).2.specifier = String.ofList (m.get .specifier) := by
  rcases hclause : clauseSymbols (m.get .clause) with ⟨symbols, all⟩
  rw [ofImportFrom, hclause]
  rfl

/-- So is the specifier of a call. -/
theorem specifier_ofRequire : (ofRequire content m).2.specifier = String.ofList (m.get .specifier) := by
  unfold ofRequire
  dsimp only
  split <;> rfl

/-- The line of a declaration is that of its beginning. -/
theorem line_ofImportFrom : (ofImportFrom content m).2.line = lineAfter (content.take m.offset) := by
  rcases hclause : clauseSymbols (m.get .clause) with ⟨symbols, all⟩
  rw [ofImportFrom, hclause]
  rfl

/-- What is imported is imported by a declaration, on the line of the declaration. -/
theorem of_mem_declaredImports (h : st ∈ declaredImports ds) : ∃ n d s, ds[n]? = some d ∧ d.form.specifier? = some s ∧
    st.specifier = String.ofList s.text ∧ st.line = n + 1 := by
  obtain ⟨⟨d, line⟩, hmem, himport⟩ := List.mem_filterMap.1 h
  obtain ⟨hle, hget⟩ := List.mk_mem_zipIdx_iff_le_and_getElem?_sub.1 hmem
  have hline : line - 1 + 1 = line := Nat.sub_add_cancel hle
  cases hform : d.form with
  | withFrom exported typeOnly clause s =>
    rw [hform] at himport
    cases himport
    exact ⟨line - 1, d, s, hget, congrArg Form.specifier? hform, rfl, hline.symm⟩
  | bare s =>
    rw [hform] at himport
    cases himport
    exact ⟨line - 1, d, s, hget, congrArg Form.specifier? hform, rfl, hline.symm⟩
  | exportList list =>
    rw [hform] at himport
    nomatch himport

/-- Every specifier of a declaration is declared to be imported. -/
theorem exists_mem_declaredImports {s : Specifier} (h : s ∈ specifiers ds) : ∃ st ∈ declaredImports ds, st.specifier = String.ofList s.text := by
  obtain ⟨d, hd, hs⟩ := List.mem_filterMap.1 h
  obtain ⟨n, hn⟩ := List.mem_iff_getElem?.1 hd
  have hmem : (d, n + 1) ∈ ds.zipIdx 1 := List.mk_mem_zipIdx_iff_le_and_getElem?_sub.2 ⟨Nat.le_add_left 1 n, hn⟩
  obtain ⟨st, hst, hspecifier⟩ : ∃ st, d.form.import? (n + 1) = some st ∧ st.specifier = String.ofList s.text := by
    cases hform : d.form with
    | withFrom exported typeOnly clause s' =>
      rw [hform] at hs
      cases hs
      exact ⟨_, rfl, rfl⟩
    | bare s' =>
      rw [hform] at hs
      cases hs
      exact ⟨_, rfl, rfl⟩
    | exportList list =>
      rw [hform] at hs
      nomatch hs
  exact ⟨st, List.mem_filterMap.2 ⟨_, hmem, hst⟩, hspecifier⟩

/-- Every statement that is found has a specifier with text. -/
theorem specifier_ne_empty (h : st ∈ importStatements (fileText final ds)) : st.specifier ≠ "" := by
  have hne : ∀ {m : Match}, m.get .specifier ≠ [] → String.ofList (m.get .specifier) ≠ "" := fun h e => h (String.ofList_eq_empty_iff.1 e)
  rcases mem_importStatements_iff.1 h with ⟨m, hm, rfl⟩ | ⟨m, hm, rfl⟩ | ⟨m, hm, rfl⟩ | ⟨m, hm, rfl⟩
  · obtain ⟨w, r, -, hm⟩ := exists_place_of_mem_all hm
    obtain ⟨i, kw, g, ty, clause, b, b', s, q, q', hread⟩ := exists_readAs_importFrom hm
    rw [specifier_ofImportFrom]
    exact hne (hread.specifier ▸ hread.some_)
  · obtain ⟨w, r, -, hm⟩ := exists_place_of_mem_all hm
    obtain ⟨i, g, q, s, q', -, -, -, -, -, -, -, hs, -, hspecifier⟩ := of_sideEffectImport hm
    exact hne (hspecifier ▸ hs)
  · rw [specifier_ofRequire]
    exact hne (List.ne_nil_of_mem (lineFeed_mem_of_mem_calls (List.mem_append_left _ hm)))
  · exact hne (List.ne_nil_of_mem (lineFeed_mem_of_mem_calls (List.mem_append_right _ hm)))

/-- Declarations whose imports are read back are kept apart. -/
theorem keptApart_of_importStatements (h : importStatements (fileText final ds) = declaredImports ds) : KeptApart ds := by
  have hne : ∀ s ∈ specifiers ds, s.text ≠ [] := by
    intro s hs htext
    obtain ⟨st, hst, hspecifier⟩ := exists_mem_declaredImports hs
    rw [← h] at hst
    exact specifier_ne_empty hst (by rw [hspecifier, htext])
  have hnoCall : ∀ m, (∃ st ∈ importStatements (fileText final ds), st.specifier = String.ofList (m.get .specifier)) →
      m ∉ requireCall.findAll (fileText final ds) ++ dynamicImport.findAll (fileText final ds) := by
    rintro m ⟨st, hst, hspecifier⟩ hm
    rw [h] at hst
    obtain ⟨n, d, s, -, -, htext, -⟩ := of_mem_declaredImports hst
    have hmem := lineFeed_mem_of_mem_calls hm
    rw [String.ofList_inj.1 (hspecifier.symm.trans htext)] at hmem
    exact s.oneLine hmem
  have hrequire : requireCall.findAll (fileText final ds) = [] := List.eq_nil_iff_forall_not_mem.2 fun m hm =>
    hnoCall m ⟨_, mem_importStatements_iff.2 (Or.inr (Or.inr (Or.inl ⟨m, hm, rfl⟩))), specifier_ofRequire⟩ (List.mem_append_left _ hm)
  have hdynamic : dynamicImport.findAll (fileText final ds) = [] := List.eq_nil_iff_forall_not_mem.2 fun m hm =>
    hnoCall m ⟨_, mem_importStatements_iff.2 (Or.inr (Or.inr (Or.inr ⟨m, hm, rfl⟩))), rfl⟩ (List.mem_append_right _ hm)
  refine ⟨hne, ?_, calls_eq_nil_iff.1 ⟨hrequire, hdynamic⟩⟩
  by_contra hchain
  cases ds with
  | nil => exact hchain List.isChain_nil
  | cons d ds =>
    obtain ⟨m, hm, pre, e, es, list, hstands, hform, hoffset⟩ := exists_mem_of_not_isChain
      (fun d hd s hs => hne s (List.mem_filterMap.2 ⟨d, hd, hs⟩)) standsBehind_first hchain
    have hst : (ofImportFrom (fileText final (d :: ds)) m).2 ∈ declaredImports (d :: ds) := h ▸ mem_importStatements_iff.2 (Or.inl ⟨m, hm, rfl⟩)
    obtain ⟨n, e', s, hget, hs, -, hline⟩ := of_mem_declaredImports hst
    rw [line_ofImportFrom, hoffset, hstands.text_eq, List.take_left] at hline
    obtain ⟨front, hall, hlines⟩ := hstands.split
    obtain rfl : front.length = n := Nat.succ.inj (hlines.symm.trans hline)
    rw [hall, List.getElem?_append_right (Nat.le_refl _), Nat.sub_self, List.getElem?_cons_zero] at hget
    cases hget
    rw [hform] at hs
    nomatch hs

/-- The imports of declarations are read back, each with its specifier, its line and its names, exactly when the declarations are kept
apart. -/
theorem importStatements_fileText_iff (final : Bool) (ds : List ModuleDeclaration) :
    importStatements (fileText final ds) = declaredImports ds ↔ KeptApart ds :=
  ⟨keptApart_of_importStatements, importStatements_of_keptApart⟩

example : importStatements "import a, \x7b b as c, type d, \x7d from \"./x\";\nexport \x7b a \x7d;\n".text =
    [{ specifier := "./x", line := 1, symbols := ["b", "d", "a"] }] := by decide +kernel

/-- `export { a }` and, on the next line, `import b from './b'`. -/
def listThenImport : List ModuleDeclaration :=
  [(Form.exportList ⟨[⟨false, ⟨"a".text, by decide, by decide, by decide⟩, none⟩], false, nofun⟩).written false,
    (Form.withFrom false false (.default_ ⟨"b".text, by decide, by decide, by decide⟩)
      ⟨"./b".text, '\'', by decide, by decide, by decide⟩).written false]

/-- The import behind an open list is not read back: the list is taken for the beginning of its clause. -/
theorem import_behind_list_misread : fileText true listThenImport = "export \x7b a \x7d\nimport b from './b'\n".text ∧
    declaredImports listThenImport = [{ specifier := "./b", line := 2, symbols := ["b"] }] ∧
    importStatements (fileText true listThenImport) = [{ specifier := "./b", line := 1, symbols := ["a"] }] := by
  have htext : fileText true listThenImport = "export \x7b a \x7d\nimport b from './b'\n".text := by decide
  have himports : declaredImports listThenImport = [{ specifier := "./b", line := 2, symbols := ["b"] }] := by decide
  refine ⟨htext, himports, ?_⟩
  rw [htext]
  decide +kernel

end Files

end CodeAtlas.TypeScript
