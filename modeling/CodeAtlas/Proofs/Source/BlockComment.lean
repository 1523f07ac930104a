import CodeAtlas.Proofs.Text.Split
import CodeAtlas.Source.Doc
import Mathlib.Data.List.DropRight

/-!
# Block comments above a declaration

Where the line above a declaration ends in a closing mark, its documentation is taken from the lines up to the nearest one that begins
with an opening mark. These lines are one block comment exactly if the lines above the declaration end in one at all. A comment that
begins behind code on its line is none on lines of its own, and what is taken then reaches into an earlier comment.
-/

namespace CodeAtlas.Doc

open Text

/-- A line that begins with the opening mark of a block comment. -/
def Opens (line : Text) : Prop := (strip line).startsWith "/*" = true

/-- A line that ends with the closing mark of a block comment. -/
def Closes (line : Text) : Prop := (strip line).endsWith "*/" = true

/-- Lines that form one block comment: the first begins with the opening mark, the last ends with the closing mark, and the closing mark
stands nowhere before that end. -/
structure IsBlockComment (lines : List Text) : Prop where
  opens : ∃ l ∈ lines.head?, Opens l
  closes : ∃ l ∈ lines.getLast?, Closes l
  once : ∀ before after, join "\n" lines = before ++ "*/".text ++ after → ∀ c ∈ after, isBlank c = true

/-- Nothing but blanks follows a mark exactly if this is so where it first stands. -/
theorem blank_after_iff {mark : String} {t : Text} :
    (∀ before after, t = before ++ mark.text ++ after → ∀ c ∈ after, isBlank c = true) ↔
      ∀ p ∈ cut? mark.text t, ∀ c ∈ p.2, isBlank c = true := by
  constructor
  · rintro h ⟨before, after⟩ hcut
    exact h before after (eq_of_cut? hcut)
  · intro h before after hsplit
    obtain ⟨first, rest, hcut, hsuffix⟩ := exists_cut? hsplit
    exact fun c hc => h _ hcut c (hsuffix.mem hc)

instance : DecidablePred Opens := fun line => inferInstanceAs (Decidable ((strip line).startsWith "/*" = true))

instance : DecidablePred Closes := fun line => inferInstanceAs (Decidable ((strip line).endsWith "*/" = true))

instance (lines : List Text) : Decidable (IsBlockComment lines) :=
  decidable_of_iff ((∃ l ∈ lines.head?, Opens l) ∧ (∃ l ∈ lines.getLast?, Closes l) ∧
      ∀ p ∈ cut? "*/".text (join "\n" lines), ∀ c ∈ p.2, isBlank c = true)
    ⟨fun ⟨hopens, hcloses, honce⟩ => ⟨hopens, hcloses, blank_after_iff.2 honce⟩,
      fun h => ⟨h.opens, h.closes, blank_after_iff.1 h.once⟩⟩

/-- The lines above a declaration without the blank lines and annotations next to it. -/
def unskipped (marks : List String) (above : List Text) : List Text := above.rdropWhile (isSkipped marks)

/-- The lines that documentation is taken from where a closing mark ends the lines above a declaration: the last of them, from the nearest
one on that begins with an opening mark. -/
structure IsTaken (marks : List String) (above block : List Text) : Prop where
  last : block <:+ unskipped marks above
  opens : ∃ l ∈ block.head?, Opens l
  closes : ∃ l ∈ block.getLast?, Closes l
  nearest : ∀ l ∈ block.tail, ¬Opens l

/-- A search up to a line of some kind ends at the nearest one. -/
theorem upTo_eq_some {p : Text → Bool} {ls found : List Text} (h : upTo p ls = some found) :
    ∃ nearer l, found = nearer ++ [l] ∧ found <+: ls ∧ p l = true ∧ ∀ x ∈ nearer, p x = false := by
  induction ls generalizing found with
  | nil => nomatch h
  | cons x ls ih =>
    unfold upTo at h
    split at h
    · rename_i hx
      obtain rfl : [x] = found := Option.some.inj h
      exact ⟨[], x, rfl, ⟨ls, rfl⟩, hx, nofun⟩
    · rename_i hx
      obtain ⟨rest, hrest, rfl⟩ := Option.map_eq_some_iff.1 h
      obtain ⟨nearer, l, rfl, ⟨far, rfl⟩, hl, hnearer⟩ := ih hrest
      exact ⟨x :: nearer, l, rfl, ⟨far, rfl⟩, hl, List.forall_mem_cons.2 ⟨eq_false_of_ne_true hx, hnearer⟩⟩

variable {marks : List String} {above block comment : List Text} {doc : Text}

/-- Where a closing mark ends the lines above a declaration, the documentation is that of the lines that are taken. -/
theorem exists_isTaken (h : preceding marks true above.reverse = some doc) (hcloses : ∃ l ∈ (unskipped marks above).getLast?, Closes l) :
    ∃ block, IsTaken marks above block ∧ ofBlock block = some doc := by
  obtain ⟨last, hlast, hmark⟩ := hcloses
  have hkept : above.reverse.dropWhile (isSkipped marks) = (unskipped marks above).reverse := (List.reverse_reverse _).symm
  obtain ⟨earlier, hsplit⟩ := List.getLast?_eq_some_iff.1 hlast
  rw [hsplit, List.reverse_append] at hkept
  have hmark : (strip last).endsWith "*/" = true := hmark
  unfold preceding at h
  rw [hkept] at h
  simp only [List.reverse_singleton, List.singleton_append, hmark, Bool.and_self, if_true] at h
  obtain ⟨found, hfound, hdoc⟩ := Option.bind_eq_some_iff.1 h
  obtain ⟨nearer, l, rfl, hprefix, hopens, hnearer⟩ := upTo_eq_some hfound
  obtain ⟨far, hfar⟩ := id hprefix
  have hhead : (nearer ++ [l]).head? = some last := by
    rw [← List.head?_append_of_ne_nil _ (List.concat_ne_nil l nearer), hfar, List.head?_cons]
  refine ⟨(nearer ++ [l]).reverse, ⟨?_, ⟨l, by simp, hopens⟩, ⟨last, List.getLast?_reverse.trans hhead, hmark⟩, ?_⟩, hdoc⟩
  · rw [hsplit, ← List.reverse_prefix, List.reverse_reverse, List.reverse_append]
    exact hprefix
  · intro x hx
    rw [List.reverse_append, List.reverse_singleton, List.singleton_append, List.tail_cons, List.mem_reverse] at hx
    exact Bool.eq_false_iff.1 (hnearer x hx)

/-- What stands in the last of some lines stands in all of them. -/
theorem exists_join_eq (hne : block ≠ []) (h : block <:+ comment) : ∃ before, join "\n" comment = before ++ join "\n" block := by
  obtain ⟨earlier, rfl⟩ := h
  induction earlier with
  | nil => exact ⟨[], rfl⟩
  | cons l earlier ih =>
    obtain ⟨before, hbefore⟩ := ih
    have hrest : earlier ++ block ≠ [] := List.append_ne_nil_of_right_ne_nil earlier hne
    obtain ⟨m, ms, hcons⟩ := List.exists_cons_of_ne_nil hrest
    refine ⟨l ++ "\n".toList ++ before, ?_⟩
    rw [List.append_assoc, ← hbefore, List.cons_append, hcons, join, List.intercalate_cons_cons, join]

/-- Lines taken from within a block comment form a block comment. -/
theorem IsTaken.isBlockComment (h : IsTaken marks above block) (hcomment : IsBlockComment comment)
    (hlast : comment <:+ unskipped marks above) : IsBlockComment block := by
  rcases List.suffix_or_suffix_of_suffix h.last hlast with hwithin | hwithin
  · refine ⟨h.opens, h.closes, fun before after hmark => ?_⟩
    have hne : block ≠ [] := by
      rintro rfl
      obtain ⟨l, hl, -⟩ := h.opens
      nomatch hl
    obtain ⟨outside, houtside⟩ := exists_join_eq hne hwithin
    refine hcomment.once (outside ++ before) after ?_
    rw [houtside, hmark]
    simp only [List.append_assoc]
  · obtain ⟨earlier, rfl⟩ := hwithin
    cases earlier with
    | nil => exact hcomment
    | cons l earlier =>
      obtain ⟨first, hfirst, hopens⟩ := hcomment.opens
      exact absurd hopens (h.nearest first (List.mem_append_right _ (List.mem_of_mem_head? hfirst)))

/-- The documentation that is taken where a closing mark ends the lines above a declaration comes from one block comment exactly if these
lines end in one. -/
theorem blockComment_taken_iff (marks : List String) (lines : List Text) (i : Nat) (doc : Text)
    (hdoc : preceding marks true (lines.take i).reverse = some doc)
    (hcloses : ∃ l ∈ (unskipped marks (lines.take i)).getLast?, Closes l) :
    ∃ block, IsTaken marks (lines.take i) block ∧ ofBlock block = some doc ∧
      (IsBlockComment block ↔ ∃ comment, comment <:+ unskipped marks (lines.take i) ∧ IsBlockComment comment) := by
  obtain ⟨block, htaken, hblock⟩ := exists_isTaken hdoc hcloses
  refine ⟨block, htaken, hblock, fun hcomment => ⟨block, htaken.last, hcomment⟩, ?_⟩
  rintro ⟨comment, hlast, hcomment⟩
  exact htaken.isBlockComment hcomment hlast

/-- A comment over two lines and an annotation, above a declaration. -/
def annotated : List Text :=
  ["int width;".text, "/** Area of the widget,".text, " *  in square pixels. */".text, "@Override".text, "int area();".text]

/-- The comment is taken, without the annotation and the code above. -/
theorem blockComment_taken_annotated :
    preceding ["//"] true (annotated.take 4).reverse = some "Area of the widget, in square pixels.".text ∧
      (∃ l ∈ (unskipped ["//"] (annotated.take 4)).getLast?, Closes l) ∧
      IsBlockComment ((annotated.take 3).drop 1) ∧
      ∃ block, IsTaken ["//"] (annotated.take 4) block ∧ ofBlock block = some "Area of the widget, in square pixels.".text ∧
        (IsBlockComment block ↔
          ∃ comment, comment <:+ unskipped ["//"] (annotated.take 4) ∧ IsBlockComment comment) := by
  have hdoc : preceding ["//"] true (annotated.take 4).reverse = some "Area of the widget, in square pixels.".text := by
    decide
  have hcloses : ∃ l ∈ (unskipped ["//"] (annotated.take 4)).getLast?, Closes l := by decide
  exact ⟨hdoc, hcloses, by decide, blockComment_taken_iff ["//"] annotated 4 _ hdoc hcloses⟩

/-- A comment behind the code of a line, with a comment on the line above. -/
def trailing : List Text :=
  ["/* Width of the widget. */".text, "int width; /* in pixels */".text, "int area();".text]

/-- The code between the two comments becomes documentation of the declaration below them. -/
theorem code_taken_between_comments :
    preceding ["//"] true (trailing.take 2).reverse = some "Width of the widget. int width; /* in pixels".text ∧
      IsTaken ["//"] (trailing.take 2) (trailing.take 2) ∧ ¬IsBlockComment (trailing.take 2) := by
  refine ⟨by decide, ⟨?_, by decide, by decide, by decide⟩, by decide⟩
  have hkept : unskipped ["//"] (trailing.take 2) = trailing.take 2 := by decide
  exact ⟨[], hkept.symm⟩

end CodeAtlas.Doc
