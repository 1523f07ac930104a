import CodeAtlas.Proofs.Moved.Scan
import CodeAtlas.Source.Walk

/-!
# Walks further down

A walk over a file with line feeds in front passes over the blank lines without a trace and then keeps step with the walk over the file
without them: if a visit to a header does, so does the whole walk.
-/

namespace CodeAtlas

variable {k : Nat}

/-! ## Scopes -/

/-- The scope with its declaration changed. -/
def Scope.map {α β : Type} (f : α → β) (c : Scope α) : Scope β := { decl := f c.decl, outer := c.outer, opened := c.opened }

/-- The stack with each of its declarations changed. -/
def ScopeStack.map {α β : Type} (f : α → β) (s : ScopeStack α) : ScopeStack β :=
  { depth := s.depth, scopes := s.scopes.map (Scope.map f) }

namespace ScopeStack

variable {α β : Type} (f : α → β)

/-- The owner of a mapped stack is the mapped owner. -/
theorem owner_map (s : ScopeStack α) : (s.map f).owner = s.owner.map f := by
  unfold owner map
  cases s.scopes with
  | nil => rfl
  | cons top below =>
    dsimp only [List.map_cons]
    rw [apply_ite (Option.map f)]
    rfl

/-- Scopes settle alike when they are mapped. -/
theorem settle_map (depth : Int) (semicolon : Bool) (scopes : List (Scope α)) :
    settle depth semicolon (scopes.map (Scope.map f)) = (settle depth semicolon scopes).map (Scope.map f) := by
  induction scopes with
  | nil => rfl
  | cons top below ih =>
    rw [List.map_cons, settle, ih, settle, apply_ite (List.map (Scope.map f)), apply_ite (List.map (Scope.map f))]
    rfl

/-- A stack goes on alike when it is mapped. -/
theorem advance_map (s : ScopeStack α) (code : Text) : (s.map f).advance code = (s.advance code).map f := by
  unfold advance map
  dsimp only
  rw [settle_map]

end ScopeStack

/-! ## Walks -/

/-- The walk over a file with `k` line feeds in front. -/
def Walk.movedDown {ν : Type} (k : Nat) (w : Walk ν) : Walk ν where
  scan := w.scan.movedDown k
  scopes := w.scopes.map (Declaration.movedDown k)
  notes := w.notes

namespace Walk

variable {ν : Type} {w w' : Walk ν} {d d' : Declaration}

/-- The owner of a line is moved down with it. -/
theorem owner_movedDown : (w.movedDown k).owner = w.owner.map (Declaration.movedDown k) := ScopeStack.owner_map _ _

/-! ### Operations

Each operation is stated for any walk and any declaration that come out as the moved ones, in whatever form they stand. -/

/-- A declaration is recorded alike further down. -/
theorem fst_declare_movedDown (hd : d' = d.movedDown k) : ((w.movedDown k).declare d').1 = (w.declare d).1.movedDown k :=
  congrArg (fun scan => { w.movedDown k with scan }) (FileScan.fst_declare_movedDown hd)

/-- What is recorded of it is moved down with it. -/
theorem snd_declare_movedDown (hd : d' = d.movedDown k) : ((w.movedDown k).declare d').2 = (w.declare d).2.movedDown k :=
  FileScan.snd_declare_movedDown hd

/-- Its id does not move. -/
theorem id_declare_movedDown (hd : d' = d.movedDown k) : ((w.movedDown k).declare d').2.id = (w.declare d).2.id := by
  rw [snd_declare_movedDown hd]
  rfl

/-- A link is made alike further down. -/
theorem link_movedDown (fromId toId : String) (kind : EdgeKind) :
    (w.movedDown k).link fromId toId kind = (w.link fromId toId kind).movedDown k :=
  congrArg (fun scan => { w.movedDown k with scan }) (FileScan.link_movedDown fromId toId kind)

/-- So are many, if the ids are the same. -/
theorem linkAll_movedDown (hw : w' = w.movedDown k) {fromId fromId' : String} (hfrom : fromId' = fromId)
    {toIds toIds' : List String} (hto : toIds' = toIds) {kind : EdgeKind} :
    w'.linkAll fromId' toIds' kind = (w.linkAll fromId toIds kind).movedDown k := by
  subst hw hfrom hto
  exact List.foldl_hom (movedDown k) fun w t => link_movedDown fromId' t kind

/-- A declaration is entered alike further down. -/
theorem push_movedDown (hw : w' = w.movedDown k) (hd : d' = d.movedDown k) : w'.push d' = (w.push d).movedDown k := by
  subst hw hd
  rfl

/-- What has been recorded is changed alike further down. -/
theorem modify_movedDown (hw : w' = w.movedDown k) {id id' : String} (hid : id' = id) {f f' : Declaration → Declaration}
    (hf : ∀ d, f' (d.movedDown k) = (f d).movedDown k) {notes notes' : ν} (hnotes : notes' = notes) :
    { w' with scan := w'.scan.modify id' f', notes := notes' } = movedDown k { w with scan := w.scan.modify id f, notes } := by
  subst hw hid hnotes
  exact congrArg (fun scan => { w.movedDown k with scan, notes := notes' }) (FileScan.modify_movedDown hf id')

/-- A member is linked to its owner alike further down. -/
theorem memberOf_movedDown {owner : Declaration} (hw : w' = w.movedDown k) (hd : d' = d.movedDown k) :
    w'.memberOf d' (owner.movedDown k) = (w.memberOf d owner).movedDown k := by
  subst hw hd
  exact congrArg (fun scan => { w.movedDown k with scan }) (FileScan.memberOf_movedDown rfl rfl owner)

/-- A member is recorded and linked from its type at once. -/
theorem declareMember_movedDown {owner : Declaration} (hd : d' = d.movedDown k) :
    ((w.movedDown k).declare d').1.memberOf ((w.movedDown k).declare d').2 (owner.movedDown k) =
      ((w.declare d).1.memberOf (w.declare d).2 owner).movedDown k :=
  memberOf_movedDown (fst_declare_movedDown hd) (snd_declare_movedDown hd)

/-- A type is linked to what it extends and implements before its scope is entered. -/
theorem enterType_movedDown (hw : w' = w.movedDown k) (hd : d' = d.movedDown k)
    {extended extended' implemented implemented' : List String} (hextended : extended' = extended)
    (himplemented : implemented' = implemented) :
    ((w'.linkAll d'.id extended' .extending).linkAll d'.id implemented' .implementing).push d' =
      (((w.linkAll d.id extended .extending).linkAll d.id implemented .implementing).push d).movedDown k := by
  have hid : d'.id = d.id := hd ▸ rfl
  exact push_movedDown (linkAll_movedDown (linkAll_movedDown hw hid hextended) hid himplemented) hd

/-! ### The whole walk -/

variable {skipHash : Bool} {visit : Text → Nat → Walk ν → Walk ν}

/-- Lines are visited alike further down, if each of them is. -/
theorem visitLines_movedDown
    (hvisit : ∀ header line w, 1 ≤ line → visit header (line + k) (w.movedDown k) = (visit header line w).movedDown k)
    {line : Nat} (first : 1 ≤ line) (lines : List Text) (w : Walk ν) :
    visitLines skipHash visit (line + k) lines (w.movedDown k) = (visitLines skipHash visit line lines w).movedDown k := by
  induction lines generalizing line w with
  | nil => rfl
  | cons l ls ih =>
    have hline : visitLine skipHash visit (l :: ls) (line + k) (w.movedDown k) =
        (visitLine skipHash visit (l :: ls) line w).movedDown k := by
      unfold visitLine
      dsimp only
      split
      · rfl
      · exact hvisit _ line w first
    have hadvance : ∀ (w : Walk ν) code, (w.movedDown k).advance code = (w.advance code).movedDown k := by
      intro w code
      exact congrArg (fun scopes => { w.movedDown k with scopes }) (ScopeStack.advance_map _ _ code)
    rw [visitLines, hline, hadvance, Nat.add_right_comm, visitLines]
    exact ih (Nat.le_succ_of_le first) _

/-- Blank lines at the top are passed over. -/
theorem visitLines_blank (line : Nat) (lines : List Text) {w : Walk ν} (hscopes : w.scopes = {}) :
    visitLines skipHash visit line (List.replicate k [] ++ lines) w = visitLines skipHash visit (line + k) lines w := by
  have hcode : w.scan.noise.strip [] = [] := by
    cases w.scan.noise <;> rfl
  have hadvance : w.advance (w.scan.noise.strip []) = w := by
    rw [hcode, advance, hscopes]
    cases w
    subst hscopes
    rfl
  induction k generalizing line with
  | zero => rfl
  | succ n ih =>
    rw [List.replicate_succ, List.cons_append, visitLines]
    have hline : visitLine skipHash visit ([] :: (List.replicate n [] ++ lines)) line w = w := rfl
    rw [hline, hadvance, ih, Nat.add_right_comm, Nat.add_assoc]

/-- So is a whole file. -/
theorem run_movedDown
    (hvisit : ∀ header line w, 1 ≤ line → visit header (line + k) (w.movedDown k) = (visit header line w).movedDown k)
    (file : SourceFile) (noise : Noise) (notes : ν) :
    run skipHash visit (FileScan.start (file.movedDown k) noise) notes =
      (run skipHash visit (FileScan.start file noise) notes).movedDown k := by
  rw [FileScan.start_movedDown, run]
  show visitLines skipHash visit 1 (List.replicate k [] ++ (FileScan.start file noise).lines) _ = _
  rw [visitLines_blank 1 _ rfl]
  exact visitLines_movedDown hvisit (Nat.le_refl 1) _ { scan := FileScan.start file noise, notes }

end Walk

end CodeAtlas
