import CodeAtlas.Proofs.Source.Scan
import CodeAtlas.Source.Walk

/-!
# What a walk keeps

A walk keeps what each of its visits and each count of braces keeps, and it visits lines of the file only.
-/

namespace CodeAtlas

namespace ScopeStack

variable {α : Type}

/-- What is left after settling was there before. -/
theorem decl_mem_of_mem_settle {depth : Int} {semicolon : Bool} {scopes : List (Scope α)} {c : Scope α}
    (h : c ∈ settle depth semicolon scopes) : c.decl ∈ scopes.map Scope.decl := by
  induction scopes with
  | nil => nomatch h
  | cons top below ih =>
    unfold settle at h
    split at h
    · rcases List.mem_cons.1 h with rfl | h
      · exact List.mem_cons_self
      · exact List.mem_cons_of_mem _ (List.mem_map_of_mem h)
    · split at h
      · exact List.mem_cons_of_mem _ (ih h)
      · exact List.mem_map_of_mem h

/-- The declaration that a line stands directly in is one of those around it. -/
theorem mem_of_owner_eq_some {s : ScopeStack α} {d : α} (h : s.owner = some d) : d ∈ s.scopes.map Scope.decl := by
  unfold owner at h
  split at h
  · rename_i top below hscopes
    split at h
    · cases h
      rw [hscopes]
      exact List.mem_cons_self
    · nomatch h
  · nomatch h

end ScopeStack

namespace FileScan

/-- Links from a declaration that the walk refers to. -/
theorem Sound.foldl_link {file : SourceFile} {held : List String} {s : FileScan} {fromId : String} {kind : EdgeKind}
    (h : s.Sound file held) (hfrom : fromId ∈ held) (toIds : List String) (hkind : EdgeKind.linking.contains kind = true) :
    (toIds.foldl (fun s t => s.link fromId t kind) s).Sound file held :=
  List.foldlRecOn _ _ h fun _ hs _ _ => hs.link hfrom hkind

end FileScan

namespace Walk

section Frame

variable {ν : Type}

@[simp]
theorem scopes_declare (w : Walk ν) (d : Declaration) : (w.declare d).1.scopes = w.scopes := rfl

/-- Links change the scan only. -/
theorem linkAll_eq (w : Walk ν) (fromId : String) (toIds : List String) (kind : EdgeKind) :
    w.linkAll fromId toIds kind = { w with scan := toIds.foldl (fun s t => s.link fromId t kind) w.scan } := by
  unfold linkAll
  induction toIds generalizing w with
  | nil => rfl
  | cons t ts ih => exact ih (w.link fromId t kind)

@[simp]
theorem scopes_linkAll (w : Walk ν) (fromId : String) (toIds : List String) (kind : EdgeKind) :
    (w.linkAll fromId toIds kind).scopes = w.scopes := by
  rw [linkAll_eq]

@[simp]
theorem notes_linkAll (w : Walk ν) (fromId : String) (toIds : List String) (kind : EdgeKind) :
    (w.linkAll fromId toIds kind).notes = w.notes := by
  rw [linkAll_eq]

end Frame

section Sound

variable {ν : Type} {w : Walk ν} {file : SourceFile} {held : List String}

/-- Recording a declaration that fits keeps what has been recorded sound, and puts its id at hand. -/
theorem sound_declare (h : w.scan.Sound file held) {d : Declaration} (hd : d.Fits file) :
    (w.declare d).1.scan.Sound file ((w.declare d).2.id :: held) := FileScan.Sound.declare h hd

/-- A link from an id at hand keeps what has been recorded sound. -/
theorem sound_link (h : w.scan.Sound file held) {fromId toId : String} {kind : EdgeKind} (hfrom : fromId ∈ held)
    (hkind : EdgeKind.linking.contains kind = true) : (w.link fromId toId kind).scan.Sound file held :=
  FileScan.Sound.link h hfrom hkind

/-- So does linking a member to its owner. -/
theorem sound_memberOf (h : w.scan.Sound file held) {member owner : Declaration} (hmember : member.id ∈ held) :
    (w.memberOf member owner).scan.Sound file held := FileScan.Sound.memberOf h hmember

/-- So does recording a member and linking it. -/
theorem sound_declareMember (h : w.scan.Sound file held) {d : Declaration} (hd : d.Fits file) (owner : Declaration) :
    ((w.declare d).1.memberOf (w.declare d).2 owner).scan.Sound file ((w.declare d).2.id :: held) :=
  FileScan.Sound.declareMember h hd owner

/-- So do many links from an id at hand. -/
theorem sound_linkAll (h : w.scan.Sound file held) {fromId : String} {kind : EdgeKind} (hfrom : fromId ∈ held)
    (toIds : List String) (hkind : EdgeKind.linking.contains kind = true) : (w.linkAll fromId toIds kind).scan.Sound file held := by
  rw [linkAll_eq]
  exact h.foldl_link hfrom toIds hkind

end Sound

variable {ν : Type} {skipHash : Bool} {visit : Text → Nat → Walk ν → Walk ν} {I : Walk ν → Prop}

/-- What a visit keeps is kept by a line. -/
theorem visitLine_induction {lines : List Text} {line : Nat} {w : Walk ν} (h : I w)
    (hvisit : ∀ header, I (visit header line w)) : I (visitLine skipHash visit lines line w) := by
  unfold visitLine
  dsimp only
  split
  · exact h
  · exact hvisit _

/-- What visits keep is kept along the lines of a file. -/
theorem visitLines_induction {n : Nat}
    (hvisit : ∀ header line w, 1 ≤ line → line ≤ n → I w → I (visit header line w))
    (hadvance : ∀ code w, I w → I (w.advance code)) {line : Nat} {lines : List Text} {w : Walk ν} (hfirst : 1 ≤ line)
    (hlast : line + lines.length ≤ n + 1) (h : I w) : I (visitLines skipHash visit line lines w) := by
  induction lines generalizing line w with
  | nil => exact h
  | cons l ls ih =>
    rw [List.length_cons] at hlast
    refine ih (by omega) (by omega) (hadvance _ _ ?_)
    exact visitLine_induction h fun header => hvisit header line w hfirst (by omega) h

/-- What holds at the start, and is kept by visits to lines of the file and by counting braces, holds at the end. -/
theorem run_induction {scan : FileScan} {notes : ν} (hstart : I { scan, notes })
    (hvisit : ∀ header line w, 1 ≤ line → line ≤ scan.lines.length → I w → I (visit header line w))
    (hadvance : ∀ code w, I w → I (w.advance code)) : I (run skipHash visit scan notes) :=
  visitLines_induction hvisit hadvance (Nat.le_refl 1) (by omega) hstart

/-- A walk that refers to nothing from one header to the next is sound when its visits are. -/
theorem sound_run {file : SourceFile} {noise : Noise} {notes : ν}
    (hvisit : ∀ header line w, file.HasLine line → w.scan.Sound file [] → (visit header line w).scan.Sound file []) :
    (run skipHash visit (FileScan.start file noise) notes).scan.Sound file [] :=
  run_induction (I := fun w => w.scan.Sound file []) (FileScan.sound_start file noise)
    (fun header line w hfirst hlast h => hvisit header line w ⟨hfirst, hlast⟩ h) fun _ _ h => h

end Walk

end CodeAtlas
