import CodeAtlas.Language.CFamily.Declarations
import CodeAtlas.Language.CSharp.Declarations
import CodeAtlas.Language.Java.Declarations
import CodeAtlas.Language.Php.Declarations
import CodeAtlas.Language.Rust.Declarations
import CodeAtlas.Language.TypeScript.Declarations
import CodeAtlas.Proofs.Source.Walk

/-!
# The languages with braces

For each of the languages that are walked by their braces: what is recorded at a header keeps the scan sound, so the walk does, and
what reading a file gives is well formed. The walks differ in what they still refer to after a header: most to nothing, that of PHP to
the declarations around the line, those of Rust and the C family to the members that are attached to their types at the end.
-/

namespace CodeAtlas

open FileScan Walk

variable {file : SourceFile} {header : Text} {line : Nat} {owner : Declaration}

/-! ## TypeScript and JavaScript -/

namespace TypeScript

variable {names : Names} {w : Walk Unit}

/-- A header outside all types keeps what has been recorded sound, whichever kind of declaration it begins. -/
theorem sound_topLevel (h : w.scan.Sound file []) (hline : file.HasLine line) :
    (topLevel names header line w).scan.Sound file [] := by
  unfold topLevel
  dsimp only
  split
  · exact Sound.drop (sound_declare h (h.fits_draft hline rfl rfl))
  split
  · refine Sound.drop (sound_linkAll ?_ (List.mem_singleton_self _) _ rfl)
    split
    · exact sound_linkAll (sound_declare h (h.fits_draft hline rfl rfl)) (List.mem_singleton_self _) _ rfl
    · exact sound_declare h (h.fits_draft hline rfl rfl)
  split
  · exact Sound.drop (sound_linkAll (sound_declare h (h.fits_draft hline rfl rfl)) (List.mem_singleton_self _) _ rfl)
  split
  · exact Sound.drop (sound_declare h (h.fits_draft hline rfl rfl))
  split
  · exact Sound.drop (sound_declare h (h.fits_draft hline rfl rfl))
  split
  · exact Sound.drop (sound_declare h (h.fits_draft hline rfl rfl))
  · exact h

/-- A header in the body of a type keeps what has been recorded sound. -/
theorem sound_member (h : w.scan.Sound file []) (hline : file.HasLine line) :
    (member owner header line w).scan.Sound file [] := by
  unfold member
  dsimp only
  split
  · exact h
  · split
    · exact h
    · exact Sound.drop (sound_declareMember h (h.fits_draft hline rfl rfl) _)

/-- A visit keeps what has been recorded sound. -/
theorem sound_visit (h : w.scan.Sound file []) (hline : file.HasLine line) : (visit names header line w).scan.Sound file [] := by
  unfold visit
  split
  · exact sound_member h hline
  · exact sound_topLevel h hline

/-- What is read of a file finishes it. -/
theorem finishes_read (file : SourceFile) : (read file).Finishes file (resolve file.known file.path) := by
  refine ⟨_, _, _, _, _, ?_, rfl⟩
  exact sound_run fun _ _ _ hline h => sound_visit h hline

end TypeScript

/-! ## Java -/

namespace Java

variable {imported : List (String × String)} {m : Match} {w : Walk Unit}

/-- Every kind of type is a known kind of entity. -/
theorem known_typeKind (keyword : Text) : EntityKind.known.contains (typeKind keyword) = true := by
  unfold typeKind
  split
  · decide
  · split <;> decide

/-- Recording a type keeps what has been recorded sound. -/
theorem sound_declareType (h : w.scan.Sound file []) (hline : file.HasLine line) :
    (declareType imported m line w).scan.Sound file [] := by
  unfold declareType
  dsimp only
  refine Sound.drop (sound_linkAll (sound_linkAll ?_ (List.mem_singleton_self _) _ rfl) (List.mem_singleton_self _) _ rfl)
  split
  · exact sound_declareMember h (h.fits_draft hline (known_typeKind _) rfl) _
  · exact sound_declare h (h.fits_draft hline (known_typeKind _) rfl)

/-- A header in the body of a type keeps what has been recorded sound. -/
theorem sound_member (h : w.scan.Sound file []) (hline : file.HasLine line) :
    (member owner header line w).scan.Sound file [] := by
  unfold member
  split
  · exact h
  · exact Sound.drop (sound_declareMember h (h.fits_draft hline rfl rfl) _)

/-- A visit keeps what has been recorded sound. -/
theorem sound_visit (h : w.scan.Sound file []) (hline : file.HasLine line) :
    (visit imported header line w).scan.Sound file [] := by
  unfold visit
  dsimp only
  split
  · exact sound_declareType h hline
  · exact sound_member h hline
  · exact h

/-- What is read of a file finishes it. -/
theorem finishes_read (file : SourceFile) : (read file).Finishes file (resolve file.known) := by
  refine ⟨_, _, _, _, _, ?_, rfl⟩
  exact sound_run fun _ _ _ hline h => sound_visit h hline

end Java

/-! ## C# -/

namespace CSharp

variable {m : Match} {w : Walk Unit}

/-- Every kind of type is a known kind of entity. -/
theorem known_typeKind (keyword : Text) : EntityKind.known.contains (typeKind keyword) = true := by
  unfold typeKind
  split
  · decide
  · split
    · decide
    · split <;> decide

/-- Links to bases lead from an entity that has been recorded. -/
theorem sound_linkBases {held : List String} {d : Declaration} (h : w.scan.Sound file held) (hd : d.id ∈ held)
    (kind : EntityKind) (names : List String) : (linkBases d kind names w).scan.Sound file held := by
  unfold linkBases
  refine List.foldlRecOn (motive := fun w : Walk Unit => w.scan.Sound file held) _ _ h fun w hw p _ => ?_
  split
  · exact sound_link hw hd rfl
  split
  · exact sound_link hw hd rfl
  split
  · exact hw
  · exact sound_link hw hd rfl

/-- Recording a type keeps what has been recorded sound. -/
theorem sound_declareType (h : w.scan.Sound file []) (hline : file.HasLine line) :
    (declareType m line w).scan.Sound file [] := by
  have hbases : ∀ (w : Walk Unit) (d : Declaration) (kind : EntityKind) (names : List String), w.scan.Sound file [d.id] →
      (if kind = .enum then linkBases d kind names w else (linkBases d kind names w).push d).scan.Sound file [] := by
    intro w d kind names hw
    have hlinked := sound_linkBases hw (List.mem_singleton_self _) kind names
    split
    · exact hlinked.drop
    · exact hlinked.drop
  unfold declareType
  dsimp only
  cases ownerType? w with
  | none => exact hbases _ _ _ _ (sound_declare h (h.fits_draft hline (known_typeKind _) rfl))
  | some o =>
    exact hbases _ _ _ _ (sound_declareMember h (h.fits_draft hline (known_typeKind _) rfl) _)

/-- A namespace for the whole file ends on its last line. -/
theorem sound_declareNamespace (h : w.scan.Sound file []) (hline : file.HasLine line) :
    (declareNamespace m line w).scan.Sound file [] := by
  unfold declareNamespace
  dsimp only
  split
  · refine Sound.drop (Sound.modify (sound_declare h (h.fits_draft hline rfl rfl)) (fun _ => rfl) fun d hd => ?_)
    refine ⟨hd.id, hd.kind, hd.start, ?_⟩
    rintro n ⟨⟩
    exact Nat.le_of_eq (congrArg List.length (sound_declare h (h.fits_draft hline rfl rfl)).ofLines)
  · exact Sound.drop (sound_declare h (h.fits_draft hline rfl rfl))

/-- A header in the body of a type keeps what has been recorded sound. -/
theorem sound_member (h : w.scan.Sound file []) (hline : file.HasLine line) :
    (member owner header line w).scan.Sound file [] := by
  unfold member
  split
  · exact h
  · exact Sound.drop (sound_declareMember h (h.fits_draft hline rfl rfl) _)

/-- A visit keeps what has been recorded sound. -/
theorem sound_visit (h : w.scan.Sound file []) (hline : file.HasLine line) : (visit header line w).scan.Sound file [] := by
  unfold visit
  dsimp only
  split
  · exact h
  split
  · exact sound_declareNamespace h hline
  split
  · exact sound_declareType h hline
  · exact sound_member h hline
  · exact h

/-- What is read of a file finishes it. -/
theorem finishes_read (file : SourceFile) : (read file).Finishes file (resolve file.known (ownNamespace? file.lines)) := by
  refine ⟨_, _, _, _, _, ?_, rfl⟩
  exact sound_run fun _ _ _ hline h => sound_visit h hline

end CSharp

/-! ## PHP -/

namespace Php

variable {imported : List (String × String)} {m : Match} {w : Walk Unit}

/-- The ids of the declarations around the current line. -/
def around (w : Walk Unit) : List String := (w.scopes.scopes.map Scope.decl).map (·.id)

/-- A walk that may refer to the declarations around the current line: a class that uses a trait is linked then. -/
def Grounded (file : SourceFile) (w : Walk Unit) : Prop := w.scan.Sound file (around w)

/-- Every kind of type is a known kind of entity. -/
theorem known_typeKind (keyword : Text) : EntityKind.known.contains (typeKind keyword) = true := by
  unfold typeKind
  split
  · decide
  · split <;> decide

/-- Going on to the next line keeps a walk grounded. -/
theorem grounded_advance (code : Text) (h : Grounded file w) : Grounded file (w.advance code) := by
  refine Sound.mono h fun id hid => ?_
  obtain ⟨d, hd, rfl⟩ := List.mem_map.1 hid
  obtain ⟨c, hc, rfl⟩ := List.mem_map.1 hd
  exact List.mem_map_of_mem (ScopeStack.decl_mem_of_mem_settle hc)

/-- Recording a type keeps a walk grounded. -/
theorem grounded_declareType (h : Grounded file w) (hline : file.HasLine line) :
    Grounded file (declareType imported m line w) := by
  unfold declareType
  dsimp only
  refine Sound.mono (sound_linkAll (sound_linkAll (sound_declare h (Sound.fits_draft h hline (known_typeKind _) rfl))
    List.mem_cons_self _ rfl) List.mem_cons_self _ rfl) fun id hid => ?_
  simpa [around, push, ScopeStack.push] using hid

/-- A header outside all types keeps a walk grounded. -/
theorem grounded_topLevel (h : Grounded file w) (hline : file.HasLine line) :
    Grounded file (topLevel imported header line w) := by
  unfold topLevel
  split
  · exact grounded_declareType h hline
  · split
    · exact Sound.tail (sound_declare h (Sound.fits_draft h hline rfl rfl))
    · exact h

/-- A header in the body of a type that has been recorded keeps a walk grounded. -/
theorem grounded_member (h : Grounded file w) (hline : file.HasLine line) (howner : owner.id ∈ around w) :
    Grounded file (member imported owner header line w) := by
  unfold member
  split
  · split
    · refine Sound.mono (sound_linkAll h howner _ rfl) fun id hid => ?_
      simpa [around] using hid
    · exact h
  · exact Sound.tail (sound_declareMember h (Sound.fits_draft h hline rfl rfl) _)

/-- A visit keeps a walk grounded. -/
theorem grounded_visit (h : Grounded file w) (hline : file.HasLine line) : Grounded file (visit imported header line w) := by
  unfold visit
  dsimp only
  split
  · exact h
  split
  · rename_i owner howner
    exact grounded_member h hline (List.mem_map_of_mem (ScopeStack.mem_of_owner_eq_some howner))
  · exact grounded_topLevel h hline

/-- The walk through a file is grounded. -/
theorem grounded_run (imported : List (String × String)) :
    Grounded file (run true (visit imported) (start file .php) ()) :=
  run_induction (sound_start file .php) (fun _ _ _ hfirst hlast h => grounded_visit h ⟨hfirst, hlast⟩)
    fun code _ h => grounded_advance code h

/-- What is read of a file finishes it. -/
theorem finishes_read (file : SourceFile) : (read file).Finishes file (resolve file.known file.path (ownNamespace? file.content.text)) := by
  refine ⟨_, _, _, _, _, ?_, rfl⟩
  exact Sound.drop (grounded_run _)

end Php

/-! ## The C family -/

namespace CFamily

variable {cpp : Bool} {at_ : Position} {m : Match} {w : Walk Notes}

/-- The ids of the methods that are defined outside their class. -/
def qualifiedIds (w : Walk Notes) : List String := w.notes.qualified.map (·.1)

/-- A walk that may refer to the methods defined outside their class: they are attached to it when the walk is over. -/
def Grounded (file : SourceFile) (w : Walk Notes) : Prop := w.scan.Sound file (qualifiedIds w)

/-- A type may be linked to its bases and entered once it is recorded. -/
theorem grounded_enterType {w' : Walk Notes} {d : Declaration} (h : w'.scan.Sound file (d.id :: qualifiedIds w))
    (hnotes : w'.notes = w.notes) (kind : EntityKind) (ids : List String) (access : Text) :
    Grounded file (if kind = .enum then w'.linkAll d.id ids .extending
      else (setAccess d.id access (w'.linkAll d.id ids .extending)).push d) := by
  have hlinked : (w'.linkAll d.id ids .extending).scan.Sound file (qualifiedIds w) :=
    Sound.tail (sound_linkAll h List.mem_cons_self ids rfl)
  have hids : qualifiedIds (w'.linkAll d.id ids .extending) = qualifiedIds w := by
    rw [qualifiedIds, notes_linkAll, hnotes, qualifiedIds]
  rw [← hids] at hlinked
  split
  · exact hlinked
  · exact hlinked

/-- Recording a type keeps a walk grounded. -/
theorem grounded_declareType (h : Grounded file w) (hline : file.HasLine line) : Grounded file (declareType at_ m line w) := by
  unfold declareType
  extract_lets keyword kind exported
  have hkind : EntityKind.known.contains kind = true := by
    show EntityKind.known.contains (if _ then _ else _) = true
    split
    · decide
    · split <;> decide
  dsimp only
  cases at_.inClass? with
  | none => exact grounded_enterType (sound_declare h (Sound.fits_draft h hline hkind rfl)) rfl kind _ _
  | some o =>
    exact grounded_enterType (sound_declareMember h (Sound.fits_draft h hline hkind rfl) _) rfl kind _ _

/-- Recording a function keeps a walk grounded. A definition may take the place of a declaration on another line, which is a line of the
file too. -/
theorem grounded_declareFunction (h : Grounded file w) (hline : file.HasLine line) :
    Grounded file (declareFunction cpp at_ m line w) := by
  unfold declareFunction
  dsimp only
  split
  · exact h
  split
  · exact h
  split
  · exact Sound.tail (sound_declareMember h (Sound.fits_draft h hline rfl rfl) _)
  split
  · refine Sound.mono (Sound.modify (sound_declare h ?_) ?_ fun d hd => ?_) fun id hid => ?_
    · exact Sound.fits_draft h hline rfl rfl
    · exact fun _ => rfl
    · have hstart : ∀ takeOver : Bool, file.HasLine (if takeOver then line else d.startLine) := by
        intro takeOver
        cases takeOver with
        | true => exact hline
        | false => exact hd.start
      exact ⟨hd.id, hd.kind, hstart _, hd.ending⟩
    · rw [qualifiedIds, List.map_append, List.mem_append, List.map_singleton, List.mem_singleton] at hid
      exact List.mem_cons.2 hid.symm
  · exact Sound.tail (sound_declare h (Sound.fits_draft h hline rfl rfl))

/-- A header of a type or function keeps a walk grounded. -/
theorem grounded_declaration (h : Grounded file w) (hline : file.HasLine line) :
    Grounded file (declaration cpp at_ header line w) := by
  unfold declaration
  dsimp only
  split
  · exact h
  split
  · exact Sound.tail (sound_declare h (Sound.fits_draft h hline rfl rfl))
  split
  · exact grounded_declareType h hline
  split
  · exact Sound.tail (sound_declare h (Sound.fits_draft h hline rfl rfl))
  split
  · exact grounded_declareFunction h hline
  · exact h

/-- A visit keeps a walk grounded. -/
theorem grounded_visit (h : Grounded file w) (hline : file.HasLine line) : Grounded file (visit cpp header line w) := by
  unfold visit
  dsimp only
  split
  · split
    · exact h
    · exact grounded_declaration h hline
  · exact grounded_declaration h hline

/-- Every method defined outside its class is attached to a declaration of the file. -/
theorem sound_attach (h : Grounded file w) : (attach w).Sound file [] := by
  have hfold : (attach w).Sound file (qualifiedIds w) := by
    unfold attach
    refine List.foldlRecOn _ _ h fun s hs p hp => ?_
    dsimp only
    split
    · exact hs.link (List.mem_map_of_mem hp) rfl
    · exact hs
  exact hfold.drop

/-- The walk through a file is grounded. -/
theorem grounded_run (cpp : Bool) : Grounded file (run true (visit cpp) (start file .cLike) {}) :=
  run_induction (sound_start file .cLike) (fun _ _ _ hfirst hlast h => grounded_visit h ⟨hfirst, hlast⟩) fun _ _ h => h

/-- What is read of a file finishes it. -/
theorem finishes_read (file : SourceFile) : (read file).Finishes file (resolve file.known file.path) := by
  refine ⟨_, _, _, _, _, ?_, rfl⟩
  exact sound_attach (grounded_run _)

end CFamily

/-! ## Rust -/

namespace Rust

variable {m : Match} {w : Walk Notes}

/-- The ids of the functions that stand directly in an implementation. -/
def memberIds (w : Walk Notes) : List String := w.notes.members.map (·.1)

/-- A walk that may refer to the functions of implementations: they are attached to their types when the walk is over. -/
def Grounded (file : SourceFile) (w : Walk Notes) : Prop := w.scan.Sound file (memberIds w)

/-- What is recorded beside the coordinates of a declaration does not matter. -/
theorem grounded_declareFunction (h : Grounded file w) (hline : file.HasLine line) :
    Grounded file (declareFunction header line m w) := by
  unfold declareFunction
  dsimp only
  split
  · exact Sound.tail (sound_declare h (Sound.fits_draft h hline rfl rfl))
  split
  · refine Sound.mono (Sound.modify (sound_declare h ?_) ?_ fun d hd => ?_) fun id hid => ?_
    · exact Sound.fits_draft h hline rfl rfl
    · exact fun _ => rfl
    · exact ⟨hd.id, hd.kind, hd.start, hd.ending⟩
    · rw [memberIds, List.map_append, List.mem_append, List.map_singleton, List.mem_singleton] at hid
      exact List.mem_cons.2 hid.symm
  · refine Sound.tail (sound_memberOf (Sound.modify (sound_declare h ?_) ?_ fun d hd => ?_) List.mem_cons_self)
    · exact Sound.fits_draft h hline rfl rfl
    · exact fun _ => rfl
    · exact ⟨hd.id, hd.kind, hd.start, hd.ending⟩

/-- A visit keeps a walk grounded. A header of an implementation opens a scope only. -/
theorem grounded_visit (h : Grounded file w) (hline : file.HasLine line) : Grounded file (visit header line w) := by
  unfold visit
  dsimp only
  split
  · exact grounded_declareFunction h hline
  split
  · refine Sound.tail (sound_declare h (Sound.fits_draft h hline ?_ rfl))
    dsimp only
    split <;> rfl
  split
  · exact Sound.tail (sound_declare h (Sound.fits_draft h hline rfl rfl))
  split
  · unfold enterImpl
    dsimp only
    split <;> exact h
  split
  · exact Sound.tail (sound_declare h (Sound.fits_draft h hline rfl rfl))
  split
  · exact Sound.tail (sound_declare h (Sound.fits_draft h hline rfl rfl))
  · exact h

/-- Members are attached, and types linked to their traits, by the ids of declarations of the file. -/
theorem sound_attach (h : Grounded file w) : (attach w).Sound file [] := by
  unfold attach
  extract_lets id? attached
  have hid : ∀ name id, id? name = some id → id ∈ w.scan.ids := by
    intro name id h
    obtain ⟨d, hd, rfl⟩ := Option.map_eq_some_iff.1 h
    exact List.mem_map_of_mem (List.mem_of_find?_eq_some hd)
  have hattached : attached.Sound file w.scan.ids := by
    refine List.foldlRecOn _ _ { h with held := fun _ => id } fun s hs p hp => ?_
    split
    · exact hs.link (h.held _ (List.mem_map_of_mem hp)) rfl
    · exact hs
  refine Sound.drop (List.foldlRecOn _ _ hattached fun s hs p _ => ?_)
  split
  · rename_i t trait ht _
    exact hs.link (hid p.1 t ht) rfl
  · exact hs

/-- The walk through a file is grounded. -/
theorem grounded_run : Grounded file (run true visit (start file .rust) {}) :=
  run_induction (sound_start file .rust) (fun _ _ _ hfirst hlast h => grounded_visit h ⟨hfirst, hlast⟩) fun _ _ h => h

/-- What is read of a file finishes it. -/
theorem finishes_read (file : SourceFile) : (read file).Finishes file (resolve file.known file.path) := by
  refine ⟨_, _, _, _, _, ?_, rfl⟩
  exact sound_attach grounded_run

end Rust

end CodeAtlas
