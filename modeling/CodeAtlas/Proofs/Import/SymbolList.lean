import CodeAtlas.Import.Statement
import CodeAtlas.Proofs.Text.Spelling
import CodeAtlas.Proofs.Text.Split
import Mathlib.Data.List.Forall2

/-!
# Lists of symbols

A list of symbols is written with commas between its items, and each item is a name, perhaps with `as` and another name behind it. The
name in front is read back, unless it is `type` and has another name behind it: then it is taken for the modifier.
-/

namespace CodeAtlas.ImportStatement

open Text

/-- The words of an item: its name, and the name it is given. -/
def itemTokens (name : Text) : Option Text → List Text
  | none => [name]
  | some other => [name, "as".text, other]

/-- A name that can stand in a list: a plain token that is not the word between two names. -/
structure IsName (t : Text) : Prop where
  isToken : IsToken t
  isPlain : IsPlain t
  ne_as : t ≠ "as".text

/-- The word `as` has no commas, brackets and braces. -/
theorem isPlain_as : IsPlain "as".text := by
  unfold IsPlain
  decide

/-- Neither has the word `type`. -/
theorem isPlain_type : IsPlain "type".text := by
  unfold IsPlain
  decide

section Before

variable {s r n l : Text} {other : Option Text}

/-- A separator that begins with a space is not found within a run of spaces in front of something else. -/
theorem cut?_spaces (hs : ∀ r, ¬s <+: ' ' :: r) (hr : ¬s <+: r) (k : Nat) :
    cut? (' ' :: s) (List.replicate k ' ' ++ r) = (cut? (' ' :: s) r).map fun p => (List.replicate k ' ' ++ p.1, p.2) := by
  induction k with
  | zero => exact Option.map_id'.symm
  | succ k ih =>
    have hprefix : ¬(' ' :: s).isPrefixOf (' ' :: (List.replicate k ' ' ++ r)) = true := by
      rw [List.isPrefixOf_iff_prefix, List.cons_prefix_cons]
      rintro ⟨-, h⟩
      cases k with
      | zero => exact hr h
      | succ k => exact hs _ h
    rw [List.replicate_succ, List.cons_append, cut?, if_neg hprefix, ih, Option.map_map]
    rfl

/-- A word with a space behind it begins a text only where it is the first word of the text. -/
theorem eq_of_first_word {w x : Text} (h : w ++ [' '] <+: n ++ x) (hw : ' ' ∉ w) (hn : ' ' ∉ n) (hx : ∀ c ∈ x.head?, c = ' ') : w = n := by
  obtain ⟨r, hr⟩ := h
  rw [List.append_assoc] at hr
  have hclass : ∀ {t : Text}, ' ' ∉ t → ∀ c ∈ t, (c != ' ') = true := fun ht c hc => bne_iff_ne.2 fun e => ht (e ▸ hc)
  exact (eq_of_runs hr (hclass hw) (hclass hn) (by rintro c ⟨⟩; rfl) (fun c hc => by rw [hx c hc]; rfl)).1

/-- A space begins no word. -/
theorem not_begins_as_space (r : Text) : ¬"as ".text <+: ' ' :: r := fun h => absurd (List.cons_prefix_cons.1 h).1 (by decide)

/-- A name with a space behind it is not the word `as` with one. -/
theorem not_begins_as {x : Text} (hn : IsName n) (hx : ∀ c ∈ x.head?, c = ' ') : ¬"as ".text <+: n ++ x := fun h =>
  hn.ne_as (eq_of_first_word (w := "as".text) h (by decide) hn.isToken.space_not_mem hx).symm

/-- Where there is a name alone, nothing is cut off. -/
theorem cut?_as_of_single (h : Spells [n] l) (hn : IsName n) : cut? " as ".text l = none := by
  cases h with
  | token k _ _ hrest =>
    obtain ⟨j, rfl⟩ := hrest.eq_replicate
    have hspaces : cut? " as ".text (List.replicate j ' ') = none := by
      cases hcut : cut? " as ".text (List.replicate j ' ') with
      | none => rfl
      | some p =>
        have hmem : 'a' ∈ List.replicate j ' ' := by
          rw [eq_of_cut? hcut]
          exact List.mem_append_left _ (List.mem_append_right _ (by decide))
        exact absurd (List.eq_of_mem_replicate hmem) (by decide)
    have hhead : ∀ c ∈ (List.replicate j ' ').head?, c = ' ' := fun c hc => List.eq_of_mem_replicate (List.mem_of_mem_head? hc)
    have hall : cut? (' ' :: "as ".text) (List.replicate k ' ' ++ (n ++ List.replicate j ' ')) = none := by
      rw [cut?_spaces not_begins_as_space (not_begins_as hn hhead), cut?_append_of_not_mem hn.isToken.space_not_mem]
      rw [show cut? (' ' :: "as ".text) (List.replicate j ' ') = none from hspaces]
      rfl
    exact hall

/-- What stands before ` as ` is the name in front. -/
theorem spells_before_as (h : Spells (itemTokens n other) l) (hn : IsName n) (hother : ∀ o ∈ other, IsPlain o) :
    Spells [n] (before l " as ") := by
  cases other with
  | none =>
    rw [before, show cut? " as ".toList l = none from cut?_as_of_single h hn]
    exact h
  | some o =>
    obtain ⟨k, l₁, rfl, h₁⟩ := h.exists_gap (mayTouch_of_isPlain hn.isPlain isPlain_as)
    obtain ⟨j, l₂, rfl, h₂⟩ := h₁.exists_gap (mayTouch_of_isPlain isPlain_as (hother o rfl))
    have hspace : ' ' :: (List.replicate j ' ' ++ ("as".text ++ ' ' :: l₂)) = List.replicate j ' ' ++ (' ' :: ("as ".text ++ l₂)) := by
      rw [← List.cons_append, ← List.replicate_succ, List.replicate_succ', List.append_assoc]
      rfl
    have hfirst : cut? (' ' :: "as ".text) (' ' :: ("as ".text ++ l₂)) = some ([], l₂) := by
      have hprefix : (' ' :: "as ".text).isPrefixOf (' ' :: ("as ".text ++ l₂)) = true :=
        List.isPrefixOf_iff_prefix.2 (List.prefix_append (' ' :: "as ".text) l₂)
      rw [cut?, if_pos hprefix]
      rfl
    have hcut : cut? (' ' :: "as ".text) (List.replicate k ' ' ++ (n ++ ' ' :: (List.replicate j ' ' ++ ("as".text ++ ' ' :: l₂)))) =
        some (List.replicate k ' ' ++ (n ++ List.replicate j ' '), l₂) := by
      rw [cut?_spaces not_begins_as_space (not_begins_as hn (by rintro c ⟨⟩; rfl)), cut?_append_of_not_mem hn.isToken.space_not_mem, hspace,
        cut?_spaces not_begins_as_space (not_begins_as_space _), hfirst]
      simp only [Option.map_some, List.append_nil]
    rw [before, show cut? " as ".toList _ = _ from hcut]
    exact .token k hn.isToken (by simp) (.spaces j)

/-- In front of `as` stands the name of an item. -/
theorem strip_before_as (h : Spells (itemTokens n other) l) (hn : IsName n) (hother : ∀ o ∈ other, IsPlain o) :
    strip (before l " as ") = n := (spells_before_as h hn hother).strip_eq_of_singleton

end Before

/-! ## Items -/

section Items

variable {n l : Text} {other : Option Text}

/-- Behind the modifier the item begins. -/
theorem itemName_of_type {u : Text} {us : List Text} (h : Spells ("type".text :: u :: us) l) (hu : IsPlain u) :
    ∃ l', Spells (u :: us) l' ∧ itemName l = strip (before (strip l') " as ") := by
  obtain ⟨l', hstrip, hspells⟩ := h.exists_strip_gap (mayTouch_of_isPlain isPlain_type hu)
  refine ⟨l', hspells, ?_⟩
  rw [itemName, hstrip]
  rfl

/-- The name of an item with a modifier is that behind the modifier. -/
theorem itemName_of_modified (h : Spells ("type".text :: itemTokens n other) l) (hn : IsName n) (hother : ∀ o ∈ other, IsPlain o) :
    itemName l = n := by
  obtain ⟨l', hspells, hname⟩ : ∃ l', Spells (itemTokens n other) l' ∧ itemName l = strip (before (strip l') " as ") := by
    cases other <;> exact itemName_of_type h hn.isPlain
  rw [hname]
  exact strip_before_as hspells.strip hn hother

/-- Without a modifier the name in front is read, also when it is `type` and nothing comes behind it. -/
theorem itemName_of_name (h : Spells (itemTokens n other) l) (hn : IsName n) (hother : ∀ o ∈ other, IsPlain o)
    (htype : n = "type".text → other = none) : itemName l = n := by
  have hfront : startsWith (strip l) "type " = false := by
    refine eq_false_of_ne_true fun hstarts => ?_
    have hbegins : "type".text ++ [' '] <+: strip l := List.isPrefixOf_iff_prefix.1 hstarts
    cases other with
    | none =>
      rw [h.strip_eq_of_singleton] at hbegins
      exact hn.isToken.space_not_mem (hbegins.subset (by decide))
    | some o =>
      obtain ⟨l', hstrip, -⟩ := h.exists_strip_gap (mayTouch_of_isPlain hn.isPlain isPlain_as)
      rw [hstrip] at hbegins
      exact nomatch htype (eq_of_first_word hbegins (by decide) hn.isToken.space_not_mem (by rintro c ⟨⟩; rfl)).symm
  rw [itemName, hfront]
  exact strip_before_as h.strip hn hother

/-- Taken for the modifier, `type` leaves the word behind it in front of the other name. -/
theorem space_mem_itemName {o : Text} (h : Spells (itemTokens "type".text (some o)) l) (ho : IsName o) : ' ' ∈ itemName l := by
  obtain ⟨l₁, h₁, hname⟩ := itemName_of_type h isPlain_as
  have htouch : mayTouch "as".text o = false := mayTouch_of_isPlain isPlain_as ho.isPlain
  obtain ⟨l₂, hstrip, h₂⟩ := h₁.exists_strip_gap htouch
  have hcut : cut? " as ".text (strip l₁) = none := by
    rw [hstrip, show " as ".text = ' ' :: "as ".text from rfl, cut?_append_of_not_mem (by decide)]
    rw [show cut? (' ' :: "as ".text) (' ' :: l₂) = none from cut?_as_of_single (h₂.after_spaces 1) ho]
    rfl
  obtain ⟨l₃, hstrip', -⟩ := h₁.strip.exists_strip_gap htouch
  rw [hname, before, show cut? " as ".toList (strip l₁) = none from hcut, hstrip']
  exact List.mem_append_right _ List.mem_cons_self

end Items

/-! ## Lists -/

/-- The words and marks of a list: its items with commas between them, and perhaps one more comma behind the last. -/
def listTokens (rows : List (List Text)) (comma : Bool) : List Text := [",".text].intercalate rows ++ if comma then [",".text] else []

section Lists

variable {α : Type} {items : List α} {tokens : α → List Text} {name : α → Text} {comma : Bool} {l : Text}

/-- At the commas a list is cut into its items. -/
theorem splitOn_of_spells {rows : List (List Text)} (hne : rows ≠ []) (hcomma : ∀ row ∈ rows, ∀ t ∈ row, ',' ∉ t)
    (h : Spells ([",".text].intercalate rows) l) : List.Forall₂ Spells rows (splitOn ',' l) := by
  have hnone : ∀ {row : List Text} {l : Text}, (∀ t ∈ row, ',' ∉ t) → Spells row l → splitOn ',' l = [l] := by
    intro row l hrow hl
    refine splitOn_of_not_mem fun hmem => ?_
    obtain e | ⟨t, ht, hc⟩ := hl.of_mem hmem
    · exact absurd e (by decide)
    · exact hrow t ht hc
  induction rows generalizing l with
  | nil => exact absurd rfl hne
  | cons row rows ih =>
    obtain ⟨hrow, hrows⟩ := List.forall_mem_cons.1 hcomma
    cases rows with
    | nil =>
      rw [List.intercalate_singleton] at h
      rw [hnone hrow h]
      exact .cons h .nil
    | cons row' rows =>
      rw [List.intercalate_cons_cons, List.append_assoc] at h
      obtain ⟨a, b, rfl, ha, hb⟩ := h.exists_mark
      have hcut : splitOn ',' (a ++ (",".text ++ b)) = splitOn ',' a ++ splitOn ',' b := splitOn_append ',' a b
      rw [hcut, hnone hrow ha]
      exact .cons ha (ih (List.cons_ne_nil _ _) hrows hb)

/-- The tokens of a list are commas and those of its rows. -/
theorem mem_listTokens {rows : List (List Text)} {t : Text} (h : t ∈ listTokens rows comma) : t = ",".text ∨ ∃ row ∈ rows, t ∈ row := by
  rcases List.mem_append.1 h with h | h
  · induction rows with
    | nil => nomatch h
    | cons row rows ih =>
      cases rows with
      | nil =>
        rw [List.intercalate_singleton] at h
        exact Or.inr ⟨row, List.mem_cons_self, h⟩
      | cons row' rows =>
        rw [List.intercalate_cons_cons, List.mem_append, List.mem_append] at h
        rcases h with (h | h) | h
        · exact Or.inr ⟨row, List.mem_cons_self, h⟩
        · exact Or.inl (List.mem_singleton.1 h)
        · obtain e | ⟨r, hr, ht⟩ := ih (List.mem_append_left _ h) h
          · exact Or.inl e
          · exact Or.inr ⟨r, List.mem_cons_of_mem _ hr, ht⟩
  · cases comma with
    | false => nomatch h
    | true => exact Or.inl (List.mem_singleton.1 h)

/-- A comma behind the last item makes one more item, which is empty. -/
theorem listTokens_eq {rows : List (List Text)} (hne : rows ≠ []) (comma : Bool) :
    listTokens rows comma = [",".text].intercalate (rows ++ if comma then [[]] else []) := by
  unfold listTokens
  cases comma with
  | false => simp
  | true =>
    induction rows with
    | nil => exact absurd rfl hne
    | cons row rows ih =>
      cases rows with
      | nil => simp
      | cons row' rows =>
        have ih := ih (List.cons_ne_nil _ _)
        simp only [List.cons_append, List.intercalate_cons_cons, List.append_assoc] at ih ⊢
        rw [ih]

/-- Whether a piece of a list has more than blanks. -/
def isFilled (p : Text) : Bool := !(strip p).isEmpty

/-- A piece is filled if its row has tokens. -/
theorem isFilled_iff {row : List Text} {p : Text} (h : Spells row p) : isFilled p = true ↔ row ≠ [] := by
  cases row with
  | nil =>
    rw [isFilled, h.strip_eq_nil]
    exact iff_of_false Bool.false_ne_true fun hne => hne rfl
  | cons t ts =>
    rw [isFilled, List.isEmpty_eq_false_iff.2 h.strip.ne_nil]
    exact iff_of_true rfl (List.cons_ne_nil t ts)

/-- Of the pieces of a list those of its items are kept. -/
theorem filter_pieces {rows last : List (List Text)} {pieces : List Text} (h : List.Forall₂ Spells (rows ++ last) pieces)
    (hrows : ∀ row ∈ rows, row ≠ []) (hlast : ∀ row ∈ last, row = []) : List.Forall₂ Spells rows (pieces.filter isFilled) := by
  induction rows generalizing pieces with
  | nil =>
    rw [List.nil_append] at h
    have hnone : pieces.filter isFilled = [] := by
      induction h with
      | nil => rfl
      | cons hp _ ih =>
        obtain ⟨hrow, hlast⟩ := List.forall_mem_cons.1 hlast
        rw [List.filter_cons_of_neg fun hfilled => (isFilled_iff hp).1 hfilled hrow, ih hlast]
    rw [hnone]
    exact .nil
  | cons row rows ih =>
    obtain ⟨hrow, hrows⟩ := List.forall_mem_cons.1 hrows
    cases h with
    | cons hp h =>
      rw [List.filter_cons_of_pos ((isFilled_iff hp).2 hrow)]
      exact .cons hp (ih h hrows)

/-- The pieces of a list that are not blank are those of its items. -/
theorem exists_pieces (hitems : items ≠ []) (htokens : ∀ i ∈ items, tokens i ≠ [] ∧ ∀ t ∈ tokens i, ',' ∉ t)
    (h : Spells (listTokens (items.map tokens) comma) l) :
    List.Forall₂ (fun i p => Spells (tokens i) p) items ((splitOn ',' l).filter isFilled) := by
  rw [listTokens_eq (by rwa [Ne, List.map_eq_nil_iff])] at h
  have hlast : ∀ row ∈ (if comma = true then [[]] else [] : List (List Text)), row = [] := by cases comma <;> simp
  have hrows : ∀ row ∈ items.map tokens, row ≠ [] ∧ ∀ t ∈ row, ',' ∉ t := List.forall_mem_map.2 htokens
  have hpieces := splitOn_of_spells (List.append_ne_nil_of_left_ne_nil (by rwa [Ne, List.map_eq_nil_iff]) _)
    (List.forall_mem_append.2 ⟨fun row hrow => (hrows row hrow).2, fun row hrow => by rw [hlast row hrow]; nofun⟩) h
  exact List.forall₂_map_left_iff.1 (filter_pieces hpieces (fun row hrow => (hrows row hrow).1) hlast)

/-- The names of the pieces are those of the items. -/
theorem map_pieces {pieces : List Text} {f : Text → Text} (h : List.Forall₂ (fun i p => Spells (tokens i) p) items pieces)
    (hname : ∀ i ∈ items, ∀ p, Spells (tokens i) p → f p = name i) : pieces.map f = items.map name := by
  induction h with
  | nil => rfl
  | cons hp _ ih =>
    obtain ⟨hi, hitems⟩ := List.forall_mem_cons.1 hname
    rw [List.map_cons, List.map_cons, hi _ hp, ih hitems]

/-- A piece of each item is among the pieces. -/
theorem exists_piece_of_mem {pieces : List Text} (h : List.Forall₂ (fun i p => Spells (tokens i) p) items pieces) {i : α} (hi : i ∈ items) :
    ∃ p ∈ pieces, Spells (tokens i) p := by
  induction h with
  | nil => nomatch hi
  | cons hp _ ih =>
    rcases List.mem_cons.1 hi with rfl | hi
    · exact ⟨_, List.mem_cons_self, hp⟩
    · obtain ⟨p, hmem, hspells⟩ := ih hi
      exact ⟨p, List.mem_cons_of_mem _ hmem, hspells⟩

/-- The symbols of a list that spells tokens are the names of its filled pieces, each once and without stars. -/
theorem symbolList_eq_of_spells {ts : List Text} (h : Spells ts l) : symbolList l =
    (((((splitOn ',' l).filter isFilled).map itemName).filter fun n => !n.isEmpty && n != ['*']).map String.ofList).eraseDups := by
  have hline : '\n' ∉ l := h.not_mem_of_isBlank (by decide) (by decide)
  have hreplace : replace '\n' " " l = l := by
    have hkeep : ∀ c ∈ l, (if c = '\n' then " ".toList else [c]) = [c] := by
      intro c hc
      refine if_neg ?_
      rintro rfl
      exact hline hc
    rw [replace, List.flatMap_congr hkeep, List.flatMap_singleton']
  rw [symbolList, hreplace]
  rfl

/-- The symbols of a list are the names of its items, each once. -/
theorem symbolList_of_spells (hitems : items ≠ []) (htokens : ∀ i ∈ items, tokens i ≠ [] ∧ ∀ t ∈ tokens i, ',' ∉ t)
    (hname : ∀ i ∈ items, ∀ p, Spells (tokens i) p → itemName p = name i) (hsymbol : ∀ i ∈ items, name i ≠ [] ∧ name i ≠ ['*'])
    (h : Spells (listTokens (items.map tokens) comma) l) : symbolList l = (items.map fun i => String.ofList (name i)).eraseDups := by
  have hfilter : (items.map name).filter (fun n => !n.isEmpty && n != ['*']) = items.map name := by
    refine List.filter_eq_self.2 (List.forall_mem_map.2 fun i hi => ?_)
    obtain ⟨hne, hstar⟩ := hsymbol i hi
    rw [List.isEmpty_eq_false_iff.2 hne, bne_iff_ne.2 hstar]
    rfl
  rw [symbolList_eq_of_spells h, map_pieces (exists_pieces hitems htokens h) hname, hfilter, List.map_map]
  rfl

/-- The name read for an item is among the symbols. -/
theorem exists_symbol_of_spells (hitems : items ≠ []) (htokens : ∀ i ∈ items, tokens i ≠ [] ∧ ∀ t ∈ tokens i, ',' ∉ t)
    (h : Spells (listTokens (items.map tokens) comma) l) {i : α} (hi : i ∈ items)
    (hsymbol : ∀ p, Spells (tokens i) p → itemName p ≠ [] ∧ itemName p ≠ ['*']) :
    ∃ p, Spells (tokens i) p ∧ String.ofList (itemName p) ∈ symbolList l := by
  obtain ⟨p, hp, hspells⟩ := exists_piece_of_mem (exists_pieces hitems htokens h) hi
  obtain ⟨hne, hstar⟩ := hsymbol p hspells
  refine ⟨p, hspells, ?_⟩
  rw [symbolList_eq_of_spells h, List.mem_eraseDups]
  refine List.mem_map_of_mem (List.mem_filter.2 ⟨List.mem_map_of_mem hp, ?_⟩)
  rw [List.isEmpty_eq_false_iff.2 hne, bne_iff_ne.2 hstar]
  rfl

end Lists

end CodeAtlas.ImportStatement
