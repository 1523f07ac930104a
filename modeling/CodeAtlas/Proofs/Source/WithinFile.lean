import CodeAtlas.Proofs.Source.CallScan
import CodeAtlas.Proofs.Source.Calls
import Mathlib.Data.List.Nodup
import Mathlib.Data.Nat.Find
import Mathlib.Order.Bounds.Basic

/-!
# The calls within a file

The calls between the declarations of a file come from one scan for all names in the body of each function. Where names are words, they
are those that a search for every single name finds, each pair once, and those of one function in the order in which the names are first
called in it.
-/

namespace CodeAtlas.Calls

open Text

/-- What a name stands for: the first of the declarations that may be called and bear it. -/
structure IsCallee (kinds : List EntityKind) (entities : List Entity) (t : Entity) : Prop where
  long : 2 ≤ t.name.length
  first : ∃ before after, entities = before ++ t :: after ∧ t.kind ∈ kinds ∧ ∀ e ∈ before, e.kind ∈ kinds → e.name ≠ t.name

/-- One declaration calls another, where the calls of a name in a text are told by `found`. -/
structure CallsWithin (found : String → Text → Prop) (kinds : List EntityKind) (entities : List Entity) (c t : Entity) : Prop where
  caller : c ∈ entities
  callable : c.kind.isCallable = true
  body : ∃ b, c.body = some b ∧ b ≠ "" ∧ found t.name b.text
  callee : IsCallee kinds entities t
  otherName : t.name ≠ c.name
  otherId : t.id ≠ c.id

/-- What is found in one way may be found in another. -/
theorem CallsWithin.imp {found found' : String → Text → Prop} {kinds : List EntityKind} {entities : List Entity} {c t : Entity}
    (h : CallsWithin found kinds entities c t) (himp : ∀ {body : Text}, found t.name body → found' t.name body) :
    CallsWithin found' kinds entities c t := by
  obtain ⟨b, hb, hne, hfound⟩ := h.body
  exact { h with body := ⟨b, hb, hne, himp hfound⟩ }

/-- The edge of a call. -/
def callEdge (c t : Entity) : Edge := { fromId := c.id, toId := t.id, kind := .calls, repoId := c.repoId }

/-- The edges that a search for each name makes. -/
structure IsSearchPerName (kinds : List EntityKind) (entities : List Entity) (edges : List Edge) : Prop where
  mem_iff : ∀ e, e ∈ edges ↔ ∃ c t, CallsWithin CalledIn kinds entities c t ∧ e = callEdge c t
  nodup : (edges.map fun e => (e.fromId, e.toId)).Nodup
  /-- Of the edges of one caller, one with an earlier first call comes before one with a later. -/
  ordered : edges.Pairwise fun e e' => ∀ {c t t' : Entity} {b : String}, e = callEdge c t → CallsWithin CalledIn kinds entities c t →
    e' = callEdge c t' → CallsWithin CalledIn kinds entities c t' → c.body = some b →
      ∃ n n', IsLeast (callPlaces t.name b.text) n ∧ IsLeast (callPlaces t'.name b.text) n' ∧ n < n'

/-- A name that is called is called somewhere first. -/
theorem exists_isLeast_callPlaces {name : String} {body : Text} (h : CalledIn name body) : ∃ n, IsLeast (callPlaces name body) n := by
  classical
  obtain ⟨before, rest, hbody, hcalled⟩ := h
  have hexists : ∃ n, n ∈ callPlaces name body := ⟨before.length, before, rest, hbody, rfl, hcalled⟩
  exact ⟨Nat.find hexists, Nat.find_spec hexists, fun _ hn => Nat.find_min' hexists hn⟩

/-- The names that may be called, each with the declaration that it stands for. -/
def callees (kinds : List EntityKind) (entities : List Entity) : List (String × Entity) :=
  firstByName (entities.filter fun e => kinds.contains e.kind && decide (1 < e.name.length))

/-- The edge of a caller to what a name stands for. -/
def edgeTo? (table : List (String × Entity)) (caller : Entity) (name : String) : Option Edge :=
  match target? table name with
  | some callee => if callee.id = caller.id ∨ name = caller.name then none else some (callEdge caller callee)
  | none => none

section Names

variable {kinds : List EntityKind} {entities : List Entity} {c t : Entity} {e : Edge} {name : String}

/-- A name leads to the entity that may be called by it. -/
theorem target?_callees : target? (callees kinds entities) name = some t ↔ t.name = name ∧ IsCallee kinds entities t := by
  rw [callees, target?_firstByName, List.find?_filter, List.find?_eq_some_iff_append]
  simp only [Bool.and_eq_true, List.contains_iff_mem, decide_eq_true_eq, beq_iff_eq, Bool.not_eq_true', decide_eq_false_iff_not]
  constructor
  · rintro ⟨⟨⟨hkind, hlong⟩, rfl⟩, before, after, rfl, hbefore⟩
    exact ⟨rfl, hlong, before, after, rfl, hkind, fun x hx hxkind hname => hbefore x hx ⟨⟨hxkind, hname ▸ hlong⟩, hname⟩⟩
  · rintro ⟨rfl, hlong, before, after, rfl, hkind, hbefore⟩
    exact ⟨⟨⟨hkind, hlong⟩, rfl⟩, before, after, rfl, fun x hx h => hbefore x hx h.1.1 h.2⟩

/-- The names that may be called are those of entities of these kinds, with two characters at least. -/
theorem mem_map_callees : name ∈ (callees kinds entities).map (·.1) ↔ ∃ e ∈ entities, e.kind ∈ kinds ∧ 2 ≤ e.name.length ∧ e.name = name := by
  rw [callees, mem_map_firstByName]
  simp only [List.mem_filter, Bool.and_eq_true, List.contains_iff_mem, decide_eq_true_eq, and_assoc]
  exact Iff.rfl

/-- What may be called is an entity of the file. -/
theorem IsCallee.mem (h : IsCallee kinds entities t) : t ∈ entities := by
  obtain ⟨before, after, rfl, -⟩ := h.first
  exact List.mem_append_right before List.mem_cons_self

/-- Its name is one of the names. -/
theorem IsCallee.name_mem (h : IsCallee kinds entities t) : t.name ∈ (callees kinds entities).map (·.1) := by
  obtain ⟨-, -, -, hkind, -⟩ := h.first
  exact mem_map_callees.2 ⟨t, h.mem, hkind, h.long, rfl⟩

/-- A call of a name gives an edge to the entity that may be called by it, unless that is the caller or has its name. -/
theorem edgeTo?_eq_some_iff : edgeTo? (callees kinds entities) c name = some e ↔
    ∃ t, t.name = name ∧ IsCallee kinds entities t ∧ t.name ≠ c.name ∧ t.id ≠ c.id ∧ e = callEdge c t := by
  unfold edgeTo?
  constructor
  · intro h
    split at h
    · rename_i t ht
      obtain ⟨rfl, hcallee⟩ := target?_callees.1 ht
      obtain ⟨hother, rfl⟩ := by simpa only [Option.ite_none_left_eq_some, Option.some.injEq] using h
      exact ⟨t, rfl, hcallee, fun h => hother (Or.inr h), fun h => hother (Or.inl h), rfl⟩
    · nomatch h
  · rintro ⟨t, rfl, hcallee, hname, hid, rfl⟩
    rw [target?_callees.2 ⟨rfl, hcallee⟩]
    exact if_neg (not_or.2 ⟨hid, hname⟩)

end Names

section Edges

variable {kinds : List EntityKind} {entities : List Entity} {c c' t t' : Entity} {e : Edge} {a b : String}

/-- The calls of the names of a file. -/
def nameSite (kinds : List EntityKind) (entities : List Entity) : Pattern := site ((callees kinds entities).map (·.1))

/-- Whether the scan for the names of a file finds a name in a text. -/
def ScanFinds (kinds : List EntityKind) (entities : List Entity) (name : String) (body : Text) : Prop :=
  name ∈ called (nameSite kinds entities) body

/-- What all declarations call, one after the other. -/
def allCalls (kinds : List EntityKind) (entities : List Entity) : List Edge :=
  entities.flatMap (callsOf (nameSite kinds entities) (callees kinds entities))

/-- The calls of a caller are found in its body. -/
theorem callsOf_eq {pattern : Pattern} {table : List (String × Entity)} {body : Text} (h : callerBody? c = some body) :
    callsOf pattern table c = (called pattern body).filterMap (edgeTo? table c) := by
  rw [callsOf, h]
  rfl

/-- The edges of a caller are those of the calls that the scan finds in its body. -/
theorem mem_callsOf_iff (hc : c ∈ entities) : e ∈ callsOf (nameSite kinds entities) (callees kinds entities) c ↔
    ∃ t, CallsWithin (ScanFinds kinds entities) kinds entities c t ∧ e = callEdge c t := by
  constructor
  · intro h
    cases hbody : callerBody? c with
    | none =>
      rw [callsOf, hbody] at h
      nomatch h
    | some body =>
      rw [callsOf_eq hbody] at h
      obtain ⟨name, hname, hedge⟩ := List.mem_filterMap.1 h
      obtain ⟨t, rfl, hcallee, hother, hid, rfl⟩ := edgeTo?_eq_some_iff.1 hedge
      obtain ⟨hcallable, b, hb, hne, rfl⟩ := callerBody?_eq_some_iff.1 hbody
      exact ⟨t, ⟨hc, hcallable, ⟨b, hb, hne, hname⟩, hcallee, hother, hid⟩, rfl⟩
  · rintro ⟨t, h, rfl⟩
    obtain ⟨b, hb, hne, hfound⟩ := h.body
    rw [callsOf_eq (callerBody?_eq_some_iff.2 ⟨h.callable, b, hb, hne, rfl⟩)]
    exact List.mem_filterMap.2 ⟨t.name, hfound, edgeTo?_eq_some_iff.2 ⟨t, rfl, h.callee, h.otherName, h.otherId, rfl⟩⟩

/-- So are those of all callers. -/
theorem mem_allCalls_iff : e ∈ allCalls kinds entities ↔
    ∃ c t, CallsWithin (ScanFinds kinds entities) kinds entities c t ∧ e = callEdge c t := by
  rw [allCalls, List.mem_flatMap]
  constructor
  · rintro ⟨c, hc, he⟩
    exact ⟨c, (mem_callsOf_iff hc).1 he⟩
  · rintro ⟨c, h⟩
    obtain ⟨t, ht, -⟩ := id h
    exact ⟨c, ht.caller, (mem_callsOf_iff ht.caller).2 h⟩

/-- Where there is nothing to call there are no calls. -/
theorem allCalls_eq_nil (h : callees kinds entities = []) : allCalls kinds entities = [] := by
  refine List.eq_nil_iff_forall_not_mem.2 fun e he => ?_
  obtain ⟨c, t, hcalls, -⟩ := mem_allCalls_iff.1 he
  have hmem := hcalls.callee.name_mem
  rw [h] at hmem
  nomatch hmem

/-- Of all edges between two entities the first is kept. -/
theorem withinFile_eq : withinFile kinds entities = firstByKey (fun e => (e.fromId, e.toId)) (allCalls kinds entities) := by
  unfold withinFile
  dsimp only
  split
  · rename_i hempty
    rw [allCalls_eq_nil (List.isEmpty_iff.1 hempty)]
    rfl
  · rfl

/-- An edge that is kept is one of a call. -/
theorem mem_allCalls_of_mem (h : e ∈ withinFile kinds entities) : e ∈ allCalls kinds entities := by
  rw [withinFile_eq] at h
  exact mem_of_mem_firstByKey h

/-- Of the calls between two declarations one is kept. -/
theorem exists_mem_withinFile_of_mem (h : e ∈ allCalls kinds entities) :
    ∃ e' ∈ withinFile kinds entities, (e'.fromId, e'.toId) = (e.fromId, e.toId) := by
  rw [withinFile_eq]
  exact key_mem_firstByKey h

/-- Every pair of a caller and what it calls has an edge. -/
theorem exists_mem_withinFile_iff : (∃ e ∈ withinFile kinds entities, e.fromId = a ∧ e.toId = b) ↔
    ∃ c t, CallsWithin (ScanFinds kinds entities) kinds entities c t ∧ c.id = a ∧ t.id = b := by
  constructor
  · rintro ⟨e, he, rfl, rfl⟩
    obtain ⟨c, t, h, rfl⟩ := mem_allCalls_iff.1 (mem_allCalls_of_mem he)
    exact ⟨c, t, h, rfl, rfl⟩
  · rintro ⟨c, t, h, rfl, rfl⟩
    obtain ⟨e, he, hkey⟩ := exists_mem_withinFile_of_mem (mem_allCalls_iff.2 ⟨c, t, h, rfl⟩)
    exact ⟨e, he, (Prod.mk.inj hkey).1, (Prod.mk.inj hkey).2⟩

/-- Where ids are not repeated, an id tells the entity. -/
theorem eq_of_id (hids : (entities.map (·.id)).Nodup) (hc : c ∈ entities) (hc' : c' ∈ entities) (h : c.id = c'.id) : c = c' :=
  List.inj_on_of_nodup_map hids hc hc' h

/-- Edges are kept for exactly the calls that the scan finds. -/
theorem mem_withinFile_iff (hids : (entities.map (·.id)).Nodup) : e ∈ withinFile kinds entities ↔
    ∃ c t, CallsWithin (ScanFinds kinds entities) kinds entities c t ∧ e = callEdge c t := by
  rw [← mem_allCalls_iff]
  refine ⟨mem_allCalls_of_mem, fun he => ?_⟩
  obtain ⟨e', he', hkey⟩ := exists_mem_withinFile_of_mem he
  obtain ⟨c, t, h, rfl⟩ := mem_allCalls_iff.1 he
  obtain ⟨c', t', h', rfl⟩ := mem_allCalls_iff.1 (mem_allCalls_of_mem he')
  obtain rfl : c' = c := eq_of_id hids h'.caller h.caller (Prod.mk.inj hkey).1
  obtain rfl : t' = t := eq_of_id hids h'.callee.mem h.callee.mem (Prod.mk.inj hkey).2
  exact he'

/-- A match among those of a body makes an edge among the calls of its function. -/
theorem exists_split_callsOf {body : Text} {m : Match} (hbody : callerBody? c = some body)
    (hm : m ∈ (nameSite kinds entities).findAll body)
    (he : edgeTo? (callees kinds entities) c (String.ofList (m.get .name)) = some e) :
    ∃ before after, callsOf (nameSite kinds entities) (callees kinds entities) c = before ++ e :: after ∧
      ∀ e' ∈ before, ∃ m' ∈ (nameSite kinds entities).findAll body, m'.offset < m.offset ∧
        edgeTo? (callees kinds entities) c (String.ofList (m'.get .name)) = some e' := by
  obtain ⟨earlier, later, hfindAll⟩ := List.append_of_mem hm
  have hpairs := Pattern.pairwise_findAll (nameSite kinds entities) body
  rw [callsOf_eq hbody, called]
  rw [hfindAll] at hpairs ⊢
  rw [List.map_append, List.filterMap_append, List.map_cons, List.filterMap_cons_some he]
  refine ⟨_, _, rfl, fun e' he' => ?_⟩
  obtain ⟨name, hname, hedge⟩ := List.mem_filterMap.1 he'
  obtain ⟨m', hm', rfl⟩ := List.mem_map.1 hname
  exact ⟨m', List.mem_append_left _ hm', ((List.pairwise_append.1 hpairs).2.2 m' hm' m List.mem_cons_self).1, hedge⟩

/-- What stands before an edge among the calls of its function stands before it among all calls, and nothing else of this function. -/
theorem exists_split_allCalls (hids : (entities.map (·.id)).Nodup) (hc : c ∈ entities) {before after : List Edge}
    (h : callsOf (nameSite kinds entities) (callees kinds entities) c = before ++ e :: after) :
    ∃ before' after', allCalls kinds entities = before' ++ e :: after' ∧ ∀ e' ∈ before', e'.fromId = c.id → e' ∈ before := by
  obtain ⟨callers, others, hentities⟩ := List.append_of_mem hc
  have hall : allCalls kinds entities = (callers ++ c :: others).flatMap (callsOf (nameSite kinds entities) (callees kinds entities)) := by
    rw [allCalls, ← hentities]
  rw [hall, List.flatMap_append, List.flatMap_cons, h, List.append_assoc, List.cons_append, ← List.append_assoc]
  refine ⟨_, _, rfl, fun e' he' hfrom => ?_⟩
  rcases List.mem_append.1 he' with he' | he'
  · obtain ⟨c', hc', he'⟩ := List.mem_flatMap.1 he'
    obtain ⟨t', -, rfl⟩ := (mem_callsOf_iff (hentities ▸ List.mem_append_left _ hc')).1 he'
    have hfrom : c'.id = c.id := hfrom
    rw [hentities, List.map_append, List.map_cons] at hids
    exact absurd (hfrom ▸ List.mem_cons_self) (List.disjoint_of_nodup_append hids (List.mem_map_of_mem hc'))
  · exact he'

end Edges

section Words

variable {kinds : List EntityKind} {entities : List Entity} {c t : Entity} {name : String}

/-- A name that may be called is a word, if the names of these kinds are. -/
theorem isWord_of_mem_callees (hwords : ∀ e ∈ entities, e.kind ∈ kinds → ∀ x ∈ e.name.text, isWordChar x = true)
    (h : name ∈ (callees kinds entities).map (·.1)) : IsWord name := by
  obtain ⟨e, he, hkind, hlong, rfl⟩ := mem_map_callees.1 h
  refine ⟨?_, hwords e he hkind⟩
  intro hempty
  rw [hempty] at hlong
  exact absurd hlong (by decide)

/-- The scan finds the calls that a search for the name finds. -/
theorem scanFinds_iff_calledIn (hwords : ∀ e ∈ entities, e.kind ∈ kinds → ∀ x ∈ e.name.text, isWordChar x = true)
    (ht : IsCallee kinds entities t) {body : Text} : ScanFinds kinds entities t.name body ↔ CalledIn t.name body := by
  rw [ScanFinds, nameSite, mem_called_site_iff fun _ => isWord_of_mem_callees hwords]
  exact and_iff_right ht.name_mem

/-- So it does within callers. -/
theorem callsWithin_iff (hwords : ∀ e ∈ entities, e.kind ∈ kinds → ∀ x ∈ e.name.text, isWordChar x = true) :
    CallsWithin (ScanFinds kinds entities) kinds entities c t ↔ CallsWithin CalledIn kinds entities c t :=
  ⟨fun h => h.imp (scanFinds_iff_calledIn hwords h.callee).1, fun h => h.imp (scanFinds_iff_calledIn hwords h.callee).2⟩

end Words

/-- The calls that are found within a file, where the names that may be called are words, are those that a search for each name finds. -/
theorem withinFile_isSearchPerName {kinds : List EntityKind} {entities : List Entity} (hids : (entities.map (·.id)).Nodup)
    (hwords : ∀ e ∈ entities, e.kind ∈ kinds → ∀ x ∈ e.name.text, isWordChar x = true) :
    IsSearchPerName kinds entities (withinFile kinds entities) := by
  refine ⟨fun e => ?mem_iff, ?nodup, ?ordered⟩
  case mem_iff =>
    rw [mem_withinFile_iff hids]
    simp only [callsWithin_iff hwords]
  case nodup =>
    rw [withinFile_eq]
    exact nodup_firstByKey _
  case ordered =>
    rw [withinFile_eq]
    refine (pairwise_firstByKey _).imp fun {e e'} hpair c t t' b he ht he' ht' hb => ?_
    have hbody : ∀ {t}, CallsWithin CalledIn kinds entities c t → callerBody? c = some b.text ∧ CalledIn t.name b.text := by
      intro t ht
      obtain ⟨b', hb', hne, hcalled⟩ := ht.body
      obtain rfl : b = b' := Option.some.inj (hb.symm.trans hb')
      exact ⟨callerBody?_eq_some_iff.2 ⟨ht.callable, b, hb, hne, rfl⟩, hcalled⟩
    have hword : ∀ name ∈ (callees kinds entities).map (·.1), IsWord name := fun _ => isWord_of_mem_callees hwords
    obtain ⟨n, hn⟩ := exists_isLeast_callPlaces (hbody ht).2
    obtain ⟨n', hn'⟩ := exists_isLeast_callPlaces (hbody ht').2
    refine ⟨n, n', hn, hn', ?_⟩
    obtain ⟨m', hm', rfl, hname'⟩ := (mem_callPlaces_iff hword ht'.callee.name_mem).1 hn'.1
    have hedge' := edgeTo?_eq_some_iff.2 ⟨t', hname'.symm, ht'.callee, ht'.otherName, ht'.otherId, rfl⟩
    obtain ⟨before, after, hcalls, hbefore⟩ := exists_split_callsOf (hbody ht').1 hm' hedge'
    obtain ⟨before', after', hall, hbefore'⟩ := exists_split_allCalls hids ht'.caller hcalls
    obtain ⟨x, hx, hkey⟩ := hpair hall (by rw [he'])
    rw [he] at hkey
    obtain ⟨m, hm, hlt, hedge⟩ := hbefore x (hbefore' x hx (Prod.mk.inj hkey).1)
    obtain ⟨t₁, hname, hcallee, -, -, rfl⟩ := edgeTo?_eq_some_iff.1 hedge
    obtain rfl : t₁ = t := eq_of_id hids hcallee.mem ht.callee.mem (Prod.mk.inj hkey).2
    have hle : n ≤ m.offset := hn.2 ((mem_callPlaces_iff hword ht.callee.name_mem).2 ⟨m, hm, rfl, hname.symm⟩)
    omega

/-- A function with its name for an id. -/
def namedFunction (name body : String) : Entity where
  id := name
  repoId := "r"
  kind := .function
  name := name
  filePath := "f"
  startLine := 1
  endLine := 1
  language := ""
  body := body

/-- Two functions, one with a name that begins with the name of the other, and one that calls both in one expression. -/
def prefixedNames : List Entity := [namedFunction "runAll" "", namedFunction "main" "runAll(run (1), run(2))", namedFunction "run" ""]

/-- Of two names, one of which begins like the other, both are found. -/
theorem prefixedNames_searched : (prefixedNames.map (·.id)).Nodup ∧
    (∀ e ∈ prefixedNames, e.kind ∈ EntityKind.callable → ∀ x ∈ e.name.text, isWordChar x = true) ∧
    IsSearchPerName EntityKind.callable prefixedNames (withinFile EntityKind.callable prefixedNames) ∧
    (withinFile EntityKind.callable prefixedNames).map (fun e => (e.fromId, e.toId)) = [("main", "runAll"), ("main", "run")] := by
  have hids : (prefixedNames.map (·.id)).Nodup := by decide
  have hall : ∀ e ∈ prefixedNames, e.name.text.all isWordChar = true := by decide
  have hwords : ∀ e ∈ prefixedNames, e.kind ∈ EntityKind.callable → ∀ x ∈ e.name.text, isWordChar x = true :=
    fun e he _ => List.all_eq_true.1 (hall e he)
  have hordered : ordered ((callees EntityKind.callable prefixedNames).map (·.1)) = ["runAll", "main", "run"] :=
    List.mergeSort_of_pairwise (by decide)
  refine ⟨hids, hwords, withinFile_isSearchPerName hids hwords, ?_⟩
  rw [withinFile_eq, allCalls, nameSite, site, hordered]
  decide

end CodeAtlas.Calls
