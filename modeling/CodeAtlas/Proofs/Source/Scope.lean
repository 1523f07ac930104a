import CodeAtlas.Proofs.Source.Nesting
import CodeAtlas.Source.Scope

/-!
# The stack of scopes and the braces of a text

The stack of scopes looks at the net change of the depth on each line. It agrees with the braces themselves as long as on no line a body
is closed and made up for by a brace that is opened later on the line, and as long as nothing but braces that are opened comes between a
header and its body. A body that is opened and closed on the line of its header is a case where the two do not agree.
-/

namespace CodeAtlas

open Text

variable {α : Type}

namespace Nesting

/-! ## Stacks that stand for a nesting -/

/-- The scopes of the declarations whose bodies are open. -/
def bodies : List (List α) → List (Scope α)
  | [] => []
  | ds :: below => ds.map (fun d => { decl := d, outer := below.length, opened := true }) ++ bodies below

/-- The stack of scopes that stands for a nesting in which the headers that wait are on the current depth. -/
def toStack (n : Nesting α) : ScopeStack α where
  depth := n.braces.length
  scopes := n.waiting.map (fun d => { decl := d, outer := n.braces.length }) ++ bodies n.braces

/-- A scope is opened by one of the braces that are open. -/
theorem outer_lt_of_mem_bodies {braces : List (List α)} {c : Scope α} (h : c ∈ bodies braces) : c.outer < braces.length := by
  induction braces with
  | nil => nomatch h
  | cons ds below ih =>
    rw [List.length_cons]
    rcases List.mem_append.1 h with h | h
    · obtain ⟨d, -, rfl⟩ := List.mem_map.1 h
      exact Int.ofNat_lt.2 (Nat.lt_succ_self _)
    · have := ih h
      omega

/-- The scopes of the braces are the declarations whose bodies they open. -/
theorem map_decl_bodies (braces : List (List α)) : (bodies braces).map Scope.decl = braces.flatten := by
  induction braces with
  | nil => rfl
  | cons ds below ih => simp [bodies, ih, Function.comp_def]

/-- The innermost declaration is the same on the stack. -/
theorem enclosing_toStack (n : Nesting α) : n.toStack.enclosing = n.enclosing := by
  simp [toStack, ScopeStack.enclosing, enclosing, around, map_decl_bodies, Function.comp_def]

/-- So is the owner of a line: the scopes below begin at a smaller depth. -/
theorem owner_toStack (n : Nesting α) : n.toStack.owner = n.owner := by
  obtain ⟨braces, waiting⟩ := n
  cases waiting with
  | cons d ds =>
    have hne : ¬ (braces.length : Int) = braces.length + 1 := by omega
    simp [toStack, ScopeStack.owner, owner, hne]
  | nil =>
    cases braces with
    | nil => rfl
    | cons ds below =>
      cases ds with
      | cons d ds => simp [toStack, ScopeStack.owner, owner, bodies]
      | nil =>
        have hlt := fun c (hc : c ∈ bodies below) => outer_lt_of_mem_bodies hc
        simp only [toStack, ScopeStack.owner, owner, bodies, List.map_nil, List.nil_append, List.length_cons]
        cases hbodies : bodies below with
        | nil => rfl
        | cons top rest =>
          have htop := hlt top (by simp [hbodies])
          have hne : ¬ (below.length : Int) = top.outer := by omega
          simp [hne]

/-! ## Reading a line -/

/-- A line on which the net change of the depth tells what becomes of the bodies and headers. -/
structure Plain (n : Nesting α) (code : Text) : Prop where
  /-- Of the braces closed on the line, those that are made up for by opened ones are not the braces of bodies. -/
  bodies : ∀ ds ∈ (n.braces.take (dip code)).drop (dip code - rise code), ds = []
  /-- A header waits on at the depth where it stands. -/
  waits : n.waiting ≠ [] → fate code = .waits → dip code = 0
  /-- A header whose body is opened is the only one, and no brace is closed before. -/
  opens : n.waiting ≠ [] → fate code = .opens → n.waiting.length = 1 ∧ '}' ∉ code.takeWhile isBefore
  /-- A header that is gone at the end of the line has left the depth where it was, and a semicolon as a sign. -/
  ends : n.waiting ≠ [] → fate code = .ends → rise code ≤ dip code ∧ ';' ∈ code

/-- Whether a line is plain is decided by its braces. -/
instance (n : Nesting α) (code : Text) : Decidable (n.Plain code) :=
  decidable_of_iff
    ((∀ ds ∈ (n.braces.take (dip code)).drop (dip code - rise code), ds = []) ∧
      (n.waiting ≠ [] → fate code = .waits → dip code = 0) ∧
      (n.waiting ≠ [] → fate code = .opens → n.waiting.length = 1 ∧ '}' ∉ code.takeWhile isBefore) ∧
      (n.waiting ≠ [] → fate code = .ends → rise code ≤ dip code ∧ ';' ∈ code))
    ⟨fun ⟨hbodies, hwaits, hopens, hends⟩ => ⟨hbodies, hwaits, hopens, hends⟩, fun h => ⟨h.bodies, h.waits, h.opens, h.ends⟩⟩

variable {braces : List (List α)} {waiting : List α} {code : Text}

/-- Scopes that are left on a line are taken off whatever is below them. -/
theorem settle_append {depth : Int} {semicolon : Bool} {above : List (Scope α)} (below : List (Scope α))
    (h : ∀ c ∈ above, depth ≤ c.outer ∧ (c.opened || semicolon) = true) :
    ScopeStack.settle depth semicolon (above ++ below) = ScopeStack.settle depth semicolon below := by
  induction above with
  | nil => rfl
  | cons c above ih =>
    obtain ⟨hdepth, hleft⟩ := h c List.mem_cons_self
    rw [List.cons_append, ScopeStack.settle, if_neg (by omega), if_pos hleft]
    exact ih fun c' hc' => h c' (List.mem_cons_of_mem c hc')

/-- Down to a depth, the bodies of the braces are left that were opened there or deeper. -/
theorem settle_bodies (depth : Nat) (semicolon : Bool) (braces : List (List α)) :
    ScopeStack.settle depth semicolon (bodies braces) = bodies (braces.drop (braces.length - depth)) := by
  induction braces with
  | nil => rw [List.drop_nil, bodies, ScopeStack.settle]
  | cons ds below ih =>
    rw [List.length_cons]
    rcases Nat.lt_or_ge below.length depth with hlt | hge
    · have hzero : below.length + 1 - depth = 0 := by omega
      rw [hzero, List.drop_zero]
      cases ds with
      | nil =>
        have hzero' : below.length - depth = 0 := by omega
        rw [hzero', List.drop_zero] at ih
        exact ih
      | cons d ds =>
        show ScopeStack.settle _ _ ({ decl := d, outer := below.length, opened := true } :: _) = _
        rw [ScopeStack.settle, if_pos (Int.ofNat_lt.2 hlt)]
        rfl
    · have hsucc : below.length + 1 - depth = (below.length - depth) + 1 := by omega
      rw [hsucc, List.drop_succ_cons, ← ih]
      refine settle_append _ fun c hc => ?_
      obtain ⟨d, -, rfl⟩ := List.mem_map.1 hc
      exact ⟨Int.ofNat_le.2 hge, rfl⟩

/-- There are as many scopes as declarations with open bodies. -/
theorem length_bodies (braces : List (List α)) : (bodies braces).length = braces.flatten.length := by
  rw [← map_decl_bodies, List.length_map]

/-- Braces without bodies on the inside do not matter. -/
theorem bodies_append_eq_iff {inner outer : List (List α)} : bodies (inner ++ outer) = bodies outer ↔ ∀ ds ∈ inner, ds = [] := by
  constructor
  · intro h ds hds
    have hlength := congrArg List.length h
    rw [length_bodies, length_bodies, List.flatten_append, List.length_append] at hlength
    have hnil : inner.flatten = [] := List.eq_nil_of_length_eq_zero (by omega)
    exact List.flatten_eq_nil_iff.1 hnil ds hds
  · intro h
    induction inner with
    | nil => rfl
    | cons ds inner ih =>
      rw [List.cons_append, bodies, h ds List.mem_cons_self]
      exact ih fun ds' hds' => h ds' (List.mem_cons_of_mem ds hds')

/-- The bodies that are left in view of the net change of the depth are those that are left. -/
theorem settle_bodies_eq_iff (h : dip code ≤ braces.length) :
    ScopeStack.settle ((braces.length - dip code + rise code : Nat) : Int) (code.contains ';') (bodies braces) =
        bodies (List.replicate (rise code) [] ++ braces.drop (dip code)) ↔
      ∀ ds ∈ (braces.take (dip code)).drop (dip code - rise code), ds = [] := by
  have hdrop : braces.drop (dip code - rise code) =
      (braces.take (dip code)).drop (dip code - rise code) ++ braces.drop (dip code) := by
    rw [← List.drop_append_of_le_length (by rw [List.length_take]; omega), List.take_append_drop]
  have hcount : braces.length - (braces.length - dip code + rise code) = dip code - rise code := by omega
  rw [settle_bodies, hcount, hdrop, bodies_append_eq_iff.2 fun ds hds => (List.mem_replicate.1 hds).2]
  exact bodies_append_eq_iff

section Advance

variable {n : Nesting α}

/-- The depth is right in any case; it is the scopes that may be wrong. -/
theorem advance_toStack_eq_iff (h : dip code ≤ n.braces.length) :
    n.toStack.advance code = (n.read code).toStack ↔
      ScopeStack.settle ((n.braces.length - dip code + rise code : Nat) : Int) (code.contains ';') n.toStack.scopes =
        (n.read code).toStack.scopes := by
  have hdepth : n.toStack.depth + ((code.count '{' : Int) - code.count '}') =
      ((n.braces.length - dip code + rise code : Nat) : Int) := by
    have hstack : n.toStack.depth = n.braces.length := rfl
    rw [count_sub_count, hstack]
    omega
  have hread : (n.read code).toStack.depth = ((n.braces.length - dip code + rise code : Nat) : Int) := by rw [toStack, length_read n h]
  unfold ScopeStack.advance
  rw [hdepth, ← hread]
  refine ⟨congrArg ScopeStack.scopes, fun hscopes => ?_⟩
  dsimp only
  rw [hscopes]

/-- A scope at the depth of the whole nesting is none of the bodies. -/
theorem cons_ne_bodies {c : Scope α} {below : List (Scope α)} {braces' : List (List α)} (hle : braces'.length ≤ braces.length)
    (hc : c.outer = braces.length) : c :: below ≠ bodies braces' := by
  intro heq
  have hlt := outer_lt_of_mem_bodies (heq ▸ List.mem_cons_self : c ∈ bodies braces')
  omega

/-- Braces that open no body add no scopes. -/
theorem bodies_replicate_append (k : Nat) (braces : List (List α)) : bodies (List.replicate k [] ++ braces) = bodies braces :=
  bodies_append_eq_iff.2 fun _ hds => (List.mem_replicate.1 hds).2

/-- Headers that are left waiting are where the stack has them exactly if the line closes nothing. -/
theorem settle_waits_iff {d : α} {ds : List α} (hcode : ∀ c ∈ code, isBefore c) (h : dip code ≤ braces.length) :
    ScopeStack.settle ((braces.length - dip code + rise code : Nat) : Int) (code.contains ';')
        (toStack { braces, waiting := d :: ds }).scopes =
        (toStack { braces := braces.drop (dip code), waiting := d :: ds }).scopes ↔ dip code = 0 := by
  have hsemicolon : code.contains ';' = false := by
    rw [Bool.eq_false_iff]
    intro hmem
    exact absurd (hcode ';' (List.contains_iff_mem.1 hmem)) (by decide)
  have hdepth : ¬ (braces.length : Int) < ((braces.length - dip code + rise code : Nat) : Int) := by
    rw [rise_before hcode]
    omega
  have hsettle : ScopeStack.settle ((braces.length - dip code + rise code : Nat) : Int) (code.contains ';')
      (toStack { braces, waiting := d :: ds }).scopes = (toStack { braces, waiting := d :: ds }).scopes := by
    simp only [toStack, List.map_cons, List.cons_append, ScopeStack.settle, if_neg hdepth, hsemicolon]
    rfl
  rw [hsettle]
  constructor
  · intro heq
    have hhead := congrArg (fun scopes => scopes.head?.map Scope.outer) heq
    simp only [toStack, List.map_cons, List.cons_append, List.head?_cons, Option.map_some, Option.some.injEq, List.length_drop] at hhead
    omega
  · intro hdip
    rw [hdip, List.drop_zero]

/-- Headers that a line ends are taken off exactly if the depth has not grown and a semicolon is on the line. -/
theorem settle_ends_iff {d : α} {ds : List α} (h : dip code ≤ braces.length) :
    ScopeStack.settle ((braces.length - dip code + rise code : Nat) : Int) (code.contains ';')
        (toStack { braces, waiting := d :: ds }).scopes =
        (toStack { braces := List.replicate (rise code) [] ++ braces.drop (dip code) }).scopes ↔
      (∀ ds ∈ (braces.take (dip code)).drop (dip code - rise code), ds = []) ∧ rise code ≤ dip code ∧ ';' ∈ code := by
  have hideal : (toStack { braces := List.replicate (rise code) [] ++ braces.drop (dip code) }).scopes =
      bodies (braces.drop (dip code)) := bodies_replicate_append _ _
  have hshorter : (braces.drop (dip code)).length ≤ braces.length := by
    rw [List.length_drop]
    omega
  rw [hideal]
  by_cases hrise : rise code ≤ dip code
  · have hdepth : ¬ (braces.length : Int) < ((braces.length - dip code + rise code : Nat) : Int) := by omega
    by_cases hsemicolon : ';' ∈ code
    · have hsettle : ScopeStack.settle ((braces.length - dip code + rise code : Nat) : Int) (code.contains ';')
          (toStack { braces, waiting := d :: ds }).scopes =
          ScopeStack.settle ((braces.length - dip code + rise code : Nat) : Int) (code.contains ';') (bodies braces) := by
        refine settle_append _ fun c hc => ?_
        obtain ⟨d', -, rfl⟩ := List.mem_map.1 hc
        exact ⟨Int.not_lt.1 hdepth, by simp [hsemicolon]⟩
      rw [hsettle, ← settle_bodies_eq_iff h, bodies_replicate_append, and_iff_left ⟨hrise, hsemicolon⟩]
    · refine iff_of_false ?_ fun hplain => hsemicolon hplain.2.2
      have hcontains : code.contains ';' = false := by simp [hsemicolon]
      simp only [toStack, List.map_cons, List.cons_append, ScopeStack.settle, if_neg hdepth, hcontains]
      exact cons_ne_bodies hshorter rfl
  · have hdepth : (braces.length : Int) < ((braces.length - dip code + rise code : Nat) : Int) := by omega
    refine iff_of_false ?_ fun hplain => hrise hplain.2.1
    simp only [toStack, List.map_cons, List.cons_append, ScopeStack.settle, if_pos hdepth]
    exact cons_ne_bodies hshorter rfl

/-- The headers whose body is opened are where the stack has them exactly if there is one, and no brace is closed before its own. -/
theorem settle_opens_iff {d : α} {ds : List α} {closed opened : Nat} (semicolon : Bool)
    (hfresh : closed ≤ opened ∨ d ∉ braces.flatten) (h : closed ≤ braces.length) :
    ScopeStack.settle ((braces.length - closed + (opened + 1) : Nat) : Int) semicolon (toStack { braces, waiting := d :: ds }).scopes =
        (toStack { braces := List.replicate opened [] ++ (d :: ds) :: braces.drop closed }).scopes ↔
      ds = [] ∧ closed = 0 := by
  have hideal : (toStack { braces := List.replicate opened [] ++ (d :: ds) :: braces.drop closed }).scopes =
      bodies ((d :: ds) :: braces.drop closed) := bodies_replicate_append _ _
  rw [hideal]
  by_cases hdepth : (braces.length : Int) < ((braces.length - closed + (opened + 1) : Nat) : Int)
  · simp only [toStack, List.map_cons, List.cons_append, ScopeStack.settle, if_pos hdepth, bodies]
    constructor
    · intro heq
      obtain ⟨hhead, htail⟩ := List.cons.inj heq
      simp only [Scope.mk.injEq, List.length_drop] at hhead
      have hdip : closed = 0 := by omega
      rw [hdip, List.drop_zero] at htail
      refine ⟨?_, hdip⟩
      cases ds with
      | nil => rfl
      | cons d' ds =>
        have hopened := congrArg Scope.opened (List.cons.inj (List.append_cancel_right htail)).1
        nomatch hopened
    · rintro ⟨rfl, hdip⟩
      rw [hdip, List.drop_zero]
      rfl
  · refine iff_of_false ?_ fun hplain => hdepth (by omega)
    have hd : d ∉ braces.flatten := hfresh.resolve_left (by omega)
    intro heq
    cases semicolon with
    | true =>
      have hsettle : ScopeStack.settle ((braces.length - closed + (opened + 1) : Nat) : Int) true
          (toStack { braces, waiting := d :: ds }).scopes =
          bodies (braces.drop (braces.length - (braces.length - closed + (opened + 1)))) := by
        refine (settle_append _ fun c hc => ?_).trans (settle_bodies _ _ braces)
        obtain ⟨d', -, rfl⟩ := List.mem_map.1 hc
        exact ⟨Int.not_lt.1 hdepth, rfl⟩
      have hdecls := congrArg (List.map Scope.decl) (hsettle.symm.trans heq)
      rw [map_decl_bodies, map_decl_bodies] at hdecls
      have hmem : d ∈ (braces.drop (braces.length - (braces.length - closed + (opened + 1)))).flatten := by simp [hdecls]
      obtain ⟨ds', hds', hd'⟩ := List.mem_flatten.1 hmem
      exact hd (List.mem_flatten.2 ⟨ds', List.mem_of_mem_drop hds', hd'⟩)
    | false =>
      simp only [toStack, List.map_cons, List.cons_append, ScopeStack.settle, if_neg hdepth] at heq
      have hopened := congrArg Scope.opened (List.cons.inj heq).1
      nomatch hopened

/-- The shape of a line on which the body of a header is opened. -/
theorem exists_of_opens (hfate : fate code = .opens) :
    ∃ pre r, code = pre ++ '{' :: r ∧ (∀ c ∈ pre, isBefore c) ∧ dip r = 0 ∧ rise code = rise r + 1 ∧ dip code = dip pre ∧
      (dip code = 0 ↔ '}' ∉ code.takeWhile isBefore) := by
  rcases fate_cases code with ⟨hwaits, -⟩ | ⟨pre, c, r, hsplit, htake, hpre, ⟨rfl, hr, -⟩ | ⟨-, -, hends⟩ | ⟨-, hends⟩⟩
  · nomatch hfate.symm.trans hwaits
  · have hdip : dip code = dip pre := by rw [hsplit, (dip_append pre _).1, dip_open, hr, Nat.zero_sub, Nat.add_zero]
    have hrise : rise code = rise r + 1 := by
      rw [hsplit, (dip_append pre _).2, rise_open, if_pos hr, rise_before hpre, Nat.zero_sub, Nat.add_zero]
    refine ⟨pre, r, hsplit, hpre, hr, hrise, hdip, ?_⟩
    rw [hdip, htake]
    exact dip_before_eq_zero_iff hpre
  · nomatch hfate.symm.trans hends
  · nomatch hfate.symm.trans hends

/-- With headers waiting, a line on which they go on waiting is plain if it closes no more than it opens. -/
theorem plain_iff_of_waits (hwaiting : n.waiting ≠ []) (hfate : fate code = .waits) : n.Plain code ↔ dip code = 0 := by
  refine ⟨fun h => h.waits hwaiting hfate, fun hdip => ⟨by simp [hdip], fun _ _ => hdip, ?_, ?_⟩⟩
  · exact fun _ hopens => nomatch hfate.symm.trans hopens
  · exact fun _ hends => nomatch hfate.symm.trans hends

/-- One on which they are opened is plain if there is only one, and nothing is closed before. -/
theorem plain_iff_of_opens (hwaiting : n.waiting ≠ []) (hfate : fate code = .opens) :
    n.Plain code ↔ n.waiting.length = 1 ∧ dip code = 0 := by
  obtain ⟨-, -, -, -, -, -, -, hclosed⟩ := exists_of_opens hfate
  rw [hclosed]
  refine ⟨fun h => h.opens hwaiting hfate, fun hopens => ⟨by simp [hclosed.2 hopens.2], ?_, fun _ _ => hopens, ?_⟩⟩
  · exact fun _ hwaits => nomatch hfate.symm.trans hwaits
  · exact fun _ hends => nomatch hfate.symm.trans hends

/-- One that ends them is plain if it has a semicolon and leaves the bodies around as they were. -/
theorem plain_iff_of_ends (hwaiting : n.waiting ≠ []) (hfate : fate code = .ends) :
    n.Plain code ↔ (∀ ds ∈ (n.braces.take (dip code)).drop (dip code - rise code), ds = []) ∧ rise code ≤ dip code ∧ ';' ∈ code := by
  refine ⟨fun h => ⟨h.bodies, h.ends hwaiting hfate⟩, fun h => ⟨h.1, ?_, ?_, fun _ _ => h.2⟩⟩
  · exact fun _ hwaits => nomatch hfate.symm.trans hwaits
  · exact fun _ hopens => nomatch hfate.symm.trans hopens

/-- A stack stands for the nesting after a line, as it did before, exactly if the line is a plain one. It would go unnoticed only if the
header of a declaration were taken for another one of the same declaration. -/
theorem advance_toStack_iff (h : dip code ≤ n.braces.length)
    (hfresh : ∀ d ∈ n.waiting, fate code = .opens → rise code ≤ dip code → d ∉ n.braces.flatten) :
    n.toStack.advance code = (n.read code).toStack ↔ n.Plain code := by
  rw [advance_toStack_eq_iff h]
  obtain ⟨braces, waiting⟩ := n
  cases waiting with
  | nil =>
    rw [read_of_nil h]
    refine (settle_bodies_eq_iff h).trans ⟨fun hbodies => ⟨hbodies, ?_, ?_, ?_⟩, Plain.bodies⟩
    all_goals exact fun hwaiting => absurd rfl hwaiting
  | cons d ds =>
    have hwaiting : (⟨braces, d :: ds⟩ : Nesting α).waiting ≠ [] := List.cons_ne_nil d ds
    cases hfate : fate code with
    | waits =>
      have hcode := before_of_waits hfate
      rw [read_before hcode, settle_waits_iff hcode h, plain_iff_of_waits hwaiting hfate]
    | ends => rw [read_of_ends hfate h, read_of_nil h, settle_ends_iff h, plain_iff_of_ends hwaiting hfate]
    | opens =>
      obtain ⟨pre, r, hsplit, hpre, hr, hrise, hdip, -⟩ := exists_of_opens hfate
      have hread : ({ braces, waiting := d :: ds } : Nesting α).read code =
          { braces := List.replicate (rise r) [] ++ (d :: ds) :: braces.drop (dip code) } := by
        rw [hdip, hsplit, read_append, read_before hpre]
        show ({ braces := (d :: ds) :: braces.drop (dip pre) } : Nesting α).read r = _
        rw [read_of_nil (by omega), hr, List.drop_zero]
      have hfresh' : dip code ≤ rise r ∨ d ∉ braces.flatten := by
        rcases Nat.lt_or_ge (rise r) (dip code) with hlt | hge
        · exact Or.inr (hfresh d List.mem_cons_self hfate (by omega))
        · exact Or.inl hge
      rw [hread, hrise, settle_opens_iff _ hfresh' h, plain_iff_of_opens hwaiting hfate]
      simp

/-- Over a plain line, the stack goes on as the nesting does. -/
theorem Plain.advance_toStack (hplain : n.Plain code) (h : dip code ≤ n.braces.length) :
    n.toStack.advance code = (n.read code).toStack := by
  refine (advance_toStack_iff h fun d hd hfate hrise => ?_).2 hplain
  have hwaiting : n.waiting ≠ [] := List.ne_nil_of_mem hd
  obtain ⟨-, r, -, -, -, hopened, -, -⟩ := exists_of_opens hfate
  have hdip := ((plain_iff_of_opens hwaiting hfate).1 hplain).2
  omega

end Advance

end Nesting

/-! ## Runs -/

namespace ScopeStack

/-- A line of code, and the declaration that is entered at it. -/
structure Step (α : Type) where
  entered : Option α := none
  code : Text

/-- Enters a declaration at its header. -/
def enter (s : ScopeStack α) : Option α → ScopeStack α
  | none => s
  | some d => s.push d

/-- What one line does with the stack. -/
def step (s : ScopeStack α) (st : Step α) : ScopeStack α := (s.enter st.entered).advance st.code

/-- The stack after some lines. -/
def after (steps : List (Step α)) : ScopeStack α := steps.foldl step {}

/-- The code of some lines. -/
def codeOf (steps : List (Step α)) : Text := steps.flatMap (·.code)

end ScopeStack

open ScopeStack

namespace Nesting

/-- What one line does with the nesting. -/
def step (n : Nesting α) (st : Step α) : Nesting α := (n.enter st.entered).read st.code

/-- The nesting after some lines. -/
def after (steps : List (Step α)) : Nesting α := steps.foldl step {}

/-- Lines that are plain ones each where they stand. -/
def PlainFrom : Nesting α → List (Step α) → Prop
  | _, [] => True
  | n, st :: steps => (n.enter st.entered).Plain st.code ∧ PlainFrom (n.step st) steps

/-- Whether lines are plain ones is decided line by line. -/
instance decidablePlainFrom : (n : Nesting α) → (steps : List (Step α)) → Decidable (PlainFrom n steps)
  | _, [] => isTrue trivial
  | n, st :: steps =>
    have := decidablePlainFrom (n.step st) steps
    inferInstanceAs (Decidable (_ ∧ _))

section Run

variable {n : Nesting α} {st : Step α} {steps : List (Step α)}

/-- A header is entered on the stack as in the nesting. -/
theorem toStack_enter (n : Nesting α) (entered : Option α) : (n.enter entered).toStack = n.toStack.enter entered := by
  cases entered <;> rfl

/-- As long as the text as a whole does not close more braces than it opens, no line does. -/
theorem dip_le_of_codeOf (h : dip (codeOf (st :: steps)) ≤ n.braces.length) :
    dip st.code ≤ (n.enter st.entered).braces.length ∧ dip (codeOf steps) ≤ (n.step st).braces.length := by
  have hcode : codeOf (st :: steps) = st.code ++ codeOf steps := List.flatMap_cons
  rw [hcode, (dip_append _ _).1] at h
  have hle : dip st.code ≤ (n.enter st.entered).braces.length := by
    rw [braces_enter]
    omega
  refine ⟨hle, ?_⟩
  rw [step, length_read _ hle, braces_enter]
  omega

/-- Over plain lines, the stack stands for the nesting. -/
theorem foldl_toStack (h : dip (codeOf steps) ≤ n.braces.length) (hplain : PlainFrom n steps) :
    steps.foldl ScopeStack.step n.toStack = (steps.foldl step n).toStack := by
  induction steps generalizing n with
  | nil => rfl
  | cons st steps ih =>
    obtain ⟨hline, hrest⟩ := dip_le_of_codeOf h
    have hstep : n.toStack.step st = (n.step st).toStack := by
      rw [ScopeStack.step, ← toStack_enter]
      exact hplain.1.advance_toStack hline
    rw [List.foldl_cons, List.foldl_cons, hstep]
    exact ih hrest hplain.2

/-- The first of some plain lines are plain. -/
theorem PlainFrom.take (h : PlainFrom n steps) (k : Nat) : PlainFrom n (steps.take k) := by
  induction steps generalizing n k with
  | nil => rwa [List.take_nil]
  | cons st steps ih =>
    cases k with
    | zero => exact trivial
    | succ k => exact ⟨h.1, ih h.2 k⟩

/-- The first of some lines close no more braces than all of them. -/
theorem dip_codeOf_take_le (steps : List (Step α)) (k : Nat) : dip (codeOf (steps.take k)) ≤ dip (codeOf steps) := by
  have hcode : codeOf steps = codeOf (steps.take k) ++ codeOf (steps.drop k) := by
    rw [codeOf, codeOf, codeOf, ← List.flatMap_append, List.take_append_drop]
  rw [hcode, (dip_append _ _).1]
  exact Nat.le_add_right _ _

/-- What is entered on lines is what is entered on the first and on the others. -/
theorem filterMap_entered_cons (st : Step α) (steps : List (Step α)) :
    (st :: steps).filterMap (·.entered) = st.entered.toList ++ steps.filterMap (·.entered) := by
  cases hst : st.entered <;> simp [hst]

/-- Where declarations are entered once, those around are not entered again. -/
theorem nodup_step (h : ((st :: steps).filterMap (·.entered) ++ n.around).Nodup) :
    (steps.filterMap (·.entered) ++ (n.enter st.entered).around).Nodup ∧ (steps.filterMap (·.entered) ++ (n.step st).around).Nodup := by
  have hnodup : (steps.filterMap (·.entered) ++ (n.enter st.entered).around).Nodup := by
    rw [filterMap_entered_cons, List.append_assoc] at h
    rw [around_enter]
    exact (List.perm_append_comm_assoc _ _ _).nodup_iff.1 h
  exact ⟨hnodup, hnodup.sublist (List.Sublist.append_left (around_read_sublist _ _) _)⟩

/-- Where declarations are entered once, the stack stands for the nesting all along exactly if all lines are plain. -/
theorem plainFrom_iff (h : dip (codeOf steps) ≤ n.braces.length) (hfresh : (steps.filterMap (·.entered) ++ n.around).Nodup) :
    PlainFrom n steps ↔ ∀ k, (steps.take k).foldl ScopeStack.step n.toStack = ((steps.take k).foldl step n).toStack := by
  refine ⟨fun hplain k => foldl_toStack (Nat.le_trans (dip_codeOf_take_le steps k) h) (hplain.take k), fun hfollows => ?_⟩
  induction steps generalizing n with
  | nil => trivial
  | cons st steps ih =>
    obtain ⟨hline, hrest⟩ := dip_le_of_codeOf h
    obtain ⟨hnodup, hnodup'⟩ := nodup_step hfresh
    have hstep : n.toStack.step st = (n.step st).toStack := hfollows 1
    have hplain : (n.enter st.entered).Plain st.code := by
      rw [ScopeStack.step, ← toStack_enter] at hstep
      refine (advance_toStack_iff hline fun d hd _ _ hd' => ?_).1 hstep
      exact (List.nodup_append.1 (List.nodup_append.1 hnodup).2.1).2.2 d hd d hd' rfl
    refine ⟨hplain, ih hrest hnodup' fun k => ?_⟩
    rw [← hstep]
    exact hfollows (k + 1)

end Run

end Nesting

namespace ScopeStack

variable {steps : List (Step α)}

/-- Where a text never closes more braces than it has opened, the stack tells after any number of plain lines what the braces say: which
declarations are around, and which of them owns the line that comes. And its scopes are those of the nesting for plain lines only. -/
theorem follows_nesting (hbraces : ∀ n, ((codeOf steps).take n).count '}' ≤ ((codeOf steps).take n).count '{') :
    (Nesting.PlainFrom {} steps → ∀ k, (after (steps.take k)).enclosing = (Nesting.after (steps.take k)).enclosing ∧
        (after (steps.take k)).owner = (Nesting.after (steps.take k)).owner) ∧
      ((steps.filterMap (·.entered)).Nodup →
        (Nesting.PlainFrom {} steps ↔ ∀ k, after (steps.take k) = (Nesting.after (steps.take k)).toStack)) := by
  have hdip : dip (codeOf steps) ≤ ({} : Nesting α).braces.length := dip_le_iff.2 hbraces
  have hnil : ({} : Nesting α).around = [] := rfl
  refine ⟨fun hplain k => ?_, fun hnodup => Nesting.plainFrom_iff hdip (by rwa [hnil, List.append_nil])⟩
  have hafter : after (steps.take k) = (Nesting.after (steps.take k)).toStack :=
    Nesting.foldl_toStack (Nat.le_trans (Nesting.dip_codeOf_take_le steps k) hdip) (hplain.take k)
  rw [hafter]
  exact ⟨Nesting.enclosing_toStack _, Nesting.owner_toStack _⟩

/-- A class with a method over four lines. -/
def methodInClass : List (Step String) :=
  [⟨some "A", "class A \x7b".toList⟩, ⟨none, "  void m() \x7b".toList⟩, ⟨none, "  \x7d".toList⟩, ⟨none, "\x7d".toList⟩]

/-- In a method of a class, the owner is the class. -/
theorem follows_nesting_methodInClass :
    (∀ n, ((codeOf methodInClass).take n).count '}' ≤ ((codeOf methodInClass).take n).count '{') ∧
      (after (methodInClass.take 3)).owner = some "A" ∧ (Nesting.after (methodInClass.take 3)).owner = some "A" := by
  have hbraces := dip_le_iff.1 (show dip (codeOf methodInClass) ≤ 0 by decide)
  have hplain : Nesting.PlainFrom {} methodInClass := by decide
  have hfollows := (follows_nesting hbraces).1 hplain 3
  have howner : (Nesting.after (methodInClass.take 3)).owner = some "A" := by decide
  exact ⟨hbraces, hfollows.2.trans howner, howner⟩

/-- A class whose body is opened and closed on the line of its header, and a function below it. -/
def emptyClass : List (Step String) :=
  [⟨some "A", "class A \x7b\x7d".toList⟩, ⟨none, "function f() \x7b".toList⟩, ⟨none, "\x7d".toList⟩]

/-- The empty class is taken for one whose body is still to come, and then the body of the function for its body. -/
theorem emptyClass_not_left :
    dip (codeOf emptyClass) = 0 ∧ rise (codeOf emptyClass) = 0 ∧
      (after (emptyClass.take 1)).enclosing = ["A"] ∧ (Nesting.after (emptyClass.take 1)).enclosing = [] ∧
      (after (emptyClass.take 2)).owner = some "A" ∧ (Nesting.after (emptyClass.take 2)).owner = none := by
  decide

end ScopeStack

end CodeAtlas
