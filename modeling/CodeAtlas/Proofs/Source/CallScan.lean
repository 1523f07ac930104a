import CodeAtlas.Proofs.Source.CallSites
import Mathlib.Data.Set.Defs

/-!
# The calls that one scan finds

One scan looks for the calls of many names, and goes on after the bracket of the call that it has found. Names end where the blanks and
the bracket of their call begin, so the names that are called by one bracket end at one place; of these the one that begins first is
found. Of words there is but one, so each of them is found wherever it is called.
-/

namespace CodeAtlas.Calls

open Text Pattern

/-- A name is called after a text, with the edge of a word in front of it. -/
structure StandsAt (name : String) (before rest : Text) : Prop where
  edge : (before.getLast?.any isWordChar != rest.head?.any isWordChar) = true
  call : BeginsWithCall name rest

/-- A name is called after a text, and no longer name that it ends has begun before. -/
structure FoundAt (names : List String) (name : String) (before rest : Text) : Prop where
  stands : StandsAt name before rest
  first : ∀ {w u : Text} {longer : String}, before = w ++ u → u ≠ [] → longer ∈ names → longer.text = u ++ name.text →
    ¬ StandsAt longer w (u ++ rest)

/-- A name is found somewhere in a text. -/
def FoundIn (names : List String) (name : String) (body : Text) : Prop :=
  ∃ before rest, body = before ++ rest ∧ FoundAt names name before rest

/-- How many characters stand before the calls of a name in a text. -/
def callPlaces (name : String) (body : Text) : Set Nat :=
  {n | ∃ before rest, body = before ++ rest ∧ before.length = n ∧ before.getLast?.any isWordChar = false ∧ BeginsWithCall name rest}

section Scan

variable {names : List String} {name name' : String} {m : Match} {w r u v : Text}

/-- An edge of a word is between a word character and one that is none. -/
theorem fits_edge_iff : Fits edge ⟨(Place.ofText (w ++ r)).after w r, []⟩ ⟨(Place.ofText (w ++ r)).after w r, []⟩ ↔
    (w.getLast?.any isWordChar != r.head?.any isWordChar) = true := by
  have hbefore : ((Place.ofText (w ++ r)).after w r).before = w.getLast? := Option.or_none
  rw [edge, fits_here_iff]
  simp only [hbefore, and_true]
  rfl

/-- A match says which name is called where it begins, and reaches to its bracket. -/
theorem standsAt_of_matchAt
    (h : (siteAfter edge names).matchAt (fun _ => true) ((Place.ofText (w ++ r)).after w r) = some m) :
    m.offset = w.length ∧ ∃ name ∈ names, ∃ blanks after, r = name.text ++ (blanks ++ '(' :: after) ∧
      (∀ c ∈ blanks, isBlank c = true) ∧ m.text.length = name.text.length + (blanks.length + 1) ∧ m.get .name = name.text ∧
      StandsAt name w r := by
  have hoffset : m.offset = w.length := (offset_of_matchAt h).trans (Nat.zero_add _)
  obtain ⟨s, hlead, name, hmem, bl, after, hrest, hblank, htext, hname⟩ := fits_of_matchAt_siteAfter h
  obtain ⟨-, rfl⟩ := fits_here_iff.1 hlead
  have hrest : r = name.text ++ (bl ++ '(' :: after) := hrest
  refine ⟨hoffset, name, hmem, bl, after, hrest, hblank, ?_, hname, fits_edge_iff.1 hlead, bl, after, hrest, hblank⟩
  have htext : m.text = r.take (0 + w.length + (name.text.length + (bl.length + 1)) - (0 + w.length)) := htext
  rw [htext, hrest]
  simp only [List.length_take, List.length_append, List.length_cons]
  omega

/-- What is called before the bracket of a call, but not at its beginning, is a name that ends its name. -/
theorem eq_append_of_within {blanks after : Text} (hname : IsUnbroken name) (hname' : IsUnbroken name')
    (hblank : ∀ c ∈ blanks, isBlank c = true) (h : name'.text ++ (blanks ++ '(' :: after) = u ++ r) (hbegins : BeginsWithCall name r)
    (hwithin : u.length < name'.text.length + (blanks.length + 1)) : name'.text = u ++ name.text := by
  have htake := takeWhile_of_beginsWithCall hname hbegins
  rcases List.append_eq_append_iff.1 h with ⟨x, rfl, hx⟩ | ⟨x, hx, rfl⟩
  · have hgap : ∀ c ∈ blanks ++ ['('], isNameChar c = false := by
      intro c hc
      rcases List.mem_append.1 hc with hc | hc
      · simp [isNameChar, hblank c hc]
      · simp [isNameChar, List.mem_singleton.1 hc]
    obtain ⟨y, rfl, -⟩ := exists_append_of_gap (c := after) hgap (by simpa using hx) (hbegins.head hname)
    simp only [List.length_append, List.length_cons] at hwithin
    omega
  · rw [takeWhile_append_call (fun c hc => hname'.2 c (hx ▸ List.mem_append_right u hc)) hblank] at htake
    rw [hx, htake]

/-- Where a name stands, a match is found: of this name there, or of a longer one that it ends and that has begun before. -/
theorem exists_found_of_standsAt (hnames : ∀ name ∈ names, IsUnbroken name) (hmem : name ∈ names) (h : StandsAt name w r) :
    ∃ m ∈ (site names).findAll (w ++ r), ∃ v u longer, w = v ++ u ∧ longer ∈ names ∧ longer.text = u ++ name.text ∧
      StandsAt longer v (u ++ r) ∧ m.offset = v.length ∧ m.get .name = longer.text ∧ longer.text.length < m.text.length := by
  obtain ⟨m, hmatch⟩ := exists_matchAt_of_edge isLead_edge hmem (fits_edge_iff.2 h.edge) h.call
  rcases mem_all_or_within rfl (Nat.zero_le _) hmatch with hm | ⟨m', hm', v, u, rfl, -, hmatch', hwithin⟩
  · obtain ⟨hoffset, name', hmem', bl, after, -, -, hlength, hget, hstands⟩ := standsAt_of_matchAt hmatch
    obtain rfl := eq_of_beginsWithCall (hnames name' hmem') (hnames name hmem) hstands.call h.call
    exact ⟨m, hm, w, [], name', (List.append_nil w).symm, hmem', rfl, h, hoffset, hget, by omega⟩
  · obtain ⟨hoffset, longer, hlonger, bl, after, hrest, hblank, hlength, hget, hstands⟩ := standsAt_of_matchAt hmatch'
    have htext := eq_append_of_within (hnames name hmem) (hnames longer hlonger) hblank hrest.symm h.call (by omega)
    exact ⟨m', hm', v, u, longer, rfl, hlonger, htext, hstands, hoffset, hget, by omega⟩

/-- At a place a name is found that stands there, unless a longer name that it ends has begun before. -/
theorem exists_mem_findAll_iff (hnames : ∀ name ∈ names, IsUnbroken name) :
    (∃ m ∈ (site names).findAll (w ++ r), m.offset = w.length ∧ m.get .name = name.text) ↔ name ∈ names ∧ FoundAt names name w r := by
  constructor
  · rintro ⟨m, hm, hoffset, hget⟩
    obtain ⟨w', r', hsplit, hmatch⟩ := exists_place_of_mem_all hm
    obtain ⟨hoffset', name', hmem, -, -, -, -, -, hget', hstands⟩ := standsAt_of_matchAt hmatch
    obtain ⟨rfl, rfl⟩ := List.append_inj hsplit (hoffset.symm.trans hoffset')
    obtain rfl : name' = name := String.toList_inj.1 (hget'.symm.trans hget)
    refine ⟨hmem, hstands, ?_⟩
    rintro v u longer rfl hne hlonger htext hbefore
    rw [List.append_assoc] at hm
    obtain ⟨m₁, hm₁, v₁, u₁, longest, rfl, -, htext₁, -, hoffset₁, -, hlength⟩ := exists_found_of_standsAt hnames hlonger hbefore
    have hpos : 0 < u.length := List.length_pos_iff.2 hne
    rw [htext₁, htext] at hlength
    simp only [List.length_append] at hoffset hlength
    have hle := le_of_mem_findAll hm₁ hm (by omega)
    omega
  · rintro ⟨hmem, hfound⟩
    obtain ⟨m, hm, v, u, longer, rfl, hlonger, htext, hstands, hoffset, hget, -⟩ := exists_found_of_standsAt hnames hmem hfound.stands
    by_cases hu : u = []
    · obtain rfl := hu
      exact ⟨m, hm, by rw [hoffset, List.append_nil], hget.trans htext⟩
    · exact absurd hstands (hfound.first rfl hu hlonger htext)

/-- What a match that is found says is found there. -/
theorem exists_foundAt_of_mem_findAll (hnames : ∀ name ∈ names, IsUnbroken name) {body : Text} (hm : m ∈ (site names).findAll body) :
    ∃ w r name, body = w ++ r ∧ m.offset = w.length ∧ String.ofList (m.get .name) = name ∧ name ∈ names ∧ FoundAt names name w r := by
  obtain ⟨w, r, rfl, hmatch⟩ := exists_place_of_mem_all hm
  have hoffset : m.offset = w.length := (offset_of_matchAt hmatch).trans (Nat.zero_add _)
  exact ⟨w, r, _, rfl, hoffset, rfl, (exists_mem_findAll_iff hnames).1 ⟨m, hm, hoffset, String.toList_ofList.symm⟩⟩

/-- The names that the scan of a text finds. -/
theorem mem_called_iff_foundIn (hnames : ∀ name ∈ names, IsUnbroken name) {body : Text} :
    name ∈ called (site names) body ↔ name ∈ names ∧ FoundIn names name body := by
  constructor
  · intro h
    obtain ⟨m, hm, hname⟩ := List.mem_map.1 h
    obtain ⟨w, r, _, rfl, -, rfl, hmem, hfound⟩ := exists_foundAt_of_mem_findAll hnames hm
    exact hname ▸ ⟨hmem, w, r, rfl, hfound⟩
  · rintro ⟨hmem, w, r, rfl, hfound⟩
    obtain ⟨m, hm, -, hget⟩ := (exists_mem_findAll_iff hnames).2 ⟨hmem, hfound⟩
    exact List.mem_map.2 ⟨m, hm, by rw [hget, String.ofList_toList]⟩

end Scan

section Words

variable {names : List String} {name : String} {w r : Text}

/-- A word stands where it is called. -/
theorem IsWord.standsAt_iff (hname : IsWord name) : StandsAt name w r ↔ w.getLast?.any isWordChar = false ∧ BeginsWithCall name r := by
  constructor
  · intro h
    have hedge := h.edge
    rw [h.call.head hname] at hedge
    exact ⟨by simpa using hedge, h.call⟩
  · rintro ⟨hbefore, hcall⟩
    exact ⟨by rw [hbefore, hcall.head hname]; rfl, hcall⟩

/-- No word ends another that has begun before the edge in front of it. -/
theorem foundAt_iff_of_isWord (hnames : ∀ name ∈ names, IsWord name) (hmem : name ∈ names) :
    FoundAt names name w r ↔ w.getLast?.any isWordChar = false ∧ BeginsWithCall name r := by
  rw [← (hnames name hmem).standsAt_iff]
  refine ⟨FoundAt.stands, fun h => ⟨h, ?_⟩⟩
  rintro v u longer rfl hu hlonger htext -
  have hlast : (v ++ u).getLast?.any isWordChar = false := ((hnames name hmem).standsAt_iff.1 h).1
  have hword : isWordChar (u.getLast hu) = true :=
    (hnames longer hlonger).2 _ (htext ▸ List.mem_append_left _ (List.getLast_mem hu))
  rw [List.getLast?_append, List.getLast?_eq_some_getLast hu, Option.some_or, Option.any_some, hword] at hlast
  nomatch hlast

/-- Of a word all calls are found. -/
theorem mem_callPlaces_iff (hnames : ∀ name ∈ names, IsWord name) (hmem : name ∈ names) {body : Text} {n : Nat} :
    n ∈ callPlaces name body ↔ ∃ m ∈ (site names).findAll body, m.offset = n ∧ String.ofList (m.get .name) = name := by
  have hunbroken : ∀ name ∈ names, IsUnbroken name := fun name hname => (hnames name hname).isUnbroken
  constructor
  · rintro ⟨w, r, rfl, rfl, hcalled⟩
    obtain ⟨m, hm, hoffset, hget⟩ :=
      (exists_mem_findAll_iff hunbroken).2 ⟨hmem, (foundAt_iff_of_isWord hnames hmem).2 hcalled⟩
    exact ⟨m, hm, hoffset, by rw [hget, String.ofList_toList]⟩
  · rintro ⟨m, hm, rfl, hname⟩
    obtain ⟨w, r, _, rfl, hoffset, rfl, -, hfound⟩ := exists_foundAt_of_mem_findAll hunbroken hm
    rw [hname] at hfound
    exact ⟨w, r, rfl, hoffset.symm, (foundAt_iff_of_isWord hnames hmem).1 hfound⟩

end Words

end CodeAtlas.Calls
