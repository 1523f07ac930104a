import CodeAtlas.Language.Go.Declarations
import CodeAtlas.Language.Python.Declarations
import CodeAtlas.Language.Ruby.Declarations
import CodeAtlas.Proofs.Source.Walk

/-!
# The languages without braces

Python, Go and Ruby are read line by line, each with scopes of its own. What is recorded on a line keeps the scan sound, so the walk
does, and what reading a file gives is well formed.
-/

namespace CodeAtlas

open FileScan

variable {file : SourceFile} {line : Nat} {m : Match}

/-- Where what is dropped comes before what is kept, dropping from the front is filtering. -/
theorem mem_dropWhile_iff {α : Type} {p : α → Bool} {as : List α} (h : as.Pairwise fun a b => p b = true → p a = true) {a : α} :
    a ∈ as.dropWhile p ↔ a ∈ as ∧ p a = false := by
  induction as with
  | nil => simp
  | cons b bs ih =>
    obtain ⟨hfirst, hrest⟩ := List.pairwise_cons.1 h
    by_cases hb : p b = true
    · rw [List.dropWhile_cons_of_pos hb, ih hrest, List.mem_cons]
      refine and_congr_left fun ha => ⟨Or.inr, ?_⟩
      rintro (rfl | ha')
      · rw [hb] at ha
        nomatch ha
      · exact ha'
    · rw [List.dropWhile_cons_of_neg hb]
      refine ⟨fun ha => ⟨ha, ?_⟩, And.left⟩
      rcases List.mem_cons.1 ha with rfl | ha
      · simpa using hb
      · simpa using mt (hfirst a ha) hb

/-! ## Python -/

namespace Python

variable {names : Names} {lines : List Text} {indent : Nat} {s : State}

/-- Recording a function keeps what has been recorded sound. -/
theorem sound_declareFunction (h : s.scan.Sound file []) (hline : file.HasLine line) :
    (declareFunction names lines line indent m s).scan.Sound file [] := by
  unfold declareFunction
  dsimp only
  split
  · exact Sound.drop (h.declare (h.fits_draft hline rfl rfl))
  split
  · exact Sound.drop (h.declareMember (h.fits_draft hline rfl rfl) _)
  · exact Sound.drop (h.declare (h.fits_draft hline rfl rfl))

/-- So does recording a class. -/
theorem sound_declareClass (h : s.scan.Sound file []) (hline : file.HasLine line) :
    (declareClass names line indent m s).scan.Sound file [] := by
  unfold declareClass
  dsimp only
  refine Sound.drop (List.foldlRecOn _ _ (h.declare (h.fits_draft hline rfl rfl)) fun scan hscan base _ => ?_)
  exact hscan.link (List.mem_singleton_self _) rfl

/-- A visit keeps what has been recorded sound. -/
theorem sound_visit (h : s.scan.Sound file []) (hline : file.HasLine line) : (visit names lines line s).scan.Sound file [] := by
  unfold visit
  dsimp only
  split
  · exact h
  split
  · exact Sound.drop (h.declare (h.fits_draft hline rfl rfl))
  split
  · exact sound_declareFunction h hline
  split
  · exact sound_declareClass h hline
  · exact h

/-- A walk over lines of the file keeps what has been recorded sound. -/
theorem sound_walk {line : Nat} (h : s.scan.Sound file []) (hfirst : 1 ≤ line)
    (hlast : line + lines.length ≤ file.lines.length + 1) : (walk names line lines s).scan.Sound file [] := by
  induction lines generalizing line s with
  | nil => exact h
  | cons l ls ih =>
    rw [List.length_cons] at hlast
    exact ih (sound_visit h ⟨hfirst, by omega⟩) (by omega) (by omega)

/-- What is read of a file finishes it. -/
theorem finishes_read (file : SourceFile) : (read file).Finishes file (resolve file.known file.path) := by
  refine ⟨_, _, _, _, _, ?_, rfl⟩
  exact sound_walk (sound_start file .hash) (Nat.le_refl 1) (Nat.le_of_eq (Nat.add_comm _ _))

end Python

/-! ## Go -/

namespace Go

variable {lines : List Text} {l : Text} {scan : FileScan}

/-- Recording a function keeps what has been recorded sound. -/
theorem sound_declareFunction (h : scan.Sound file []) (hline : file.HasLine line) :
    (declareFunction lines line m scan).Sound file [] := by
  unfold declareFunction
  dsimp only
  split
  · refine Sound.drop (Sound.link (Sound.modify (h.declare ?_) ?_ fun d hd => ?_) (List.mem_singleton_self _) ?_)
    · exact h.fits_draft hline rfl rfl
    · exact fun _ => rfl
    · exact ⟨hd.id, hd.kind, hd.start, hd.ending⟩
    · decide
  · exact Sound.drop (h.declare (h.fits_draft hline rfl rfl))

/-- So does recording a type. -/
theorem sound_declareType (h : scan.Sound file []) (hline : file.HasLine line) : (declareType l line m scan).Sound file [] := by
  unfold declareType
  extract_lets name shape kind block
  have hkind : EntityKind.known.contains kind = true := by
    show EntityKind.known.contains (if _ then _ else _) = true
    split
    · decide
    · split <;> decide
  exact Sound.drop (h.declare (h.fits_draft hline hkind rfl))

/-- A visit keeps what has been recorded sound. -/
theorem sound_visit (h : scan.Sound file []) (hline : file.HasLine line) : (visit lines line scan).Sound file [] := by
  unfold visit
  dsimp only
  split
  · exact sound_declareFunction h hline
  split
  · exact sound_declareType h hline
  · exact h

/-- A walk over lines of the file keeps what has been recorded sound. -/
theorem sound_walk {line : Nat} (h : scan.Sound file []) (hfirst : 1 ≤ line)
    (hlast : line + lines.length ≤ file.lines.length + 1) : (walk line lines scan).Sound file [] := by
  induction lines generalizing line scan with
  | nil => exact h
  | cons l ls ih =>
    rw [List.length_cons] at hlast
    exact ih (sound_visit h ⟨hfirst, by omega⟩) (by omega) (by omega)

/-- What is read of a file finishes it. -/
theorem finishes_read (file : SourceFile) : (read file).Finishes file (resolve file.known) := by
  refine ⟨_, _, _, _, _, ?_, rfl⟩
  exact sound_walk (sound_start file .cLike) (Nat.le_refl 1) (Nat.le_of_eq (Nat.add_comm _ _))

end Go

/-! ## Ruby -/

namespace Ruby

variable {l : Text} {lines : List Text} {s : State}

/-- Recording a class keeps what has been recorded sound. -/
theorem sound_declareClass (h : s.scan.Sound file []) (hline : file.HasLine line) :
    (declareClass m line s).scan.Sound file [] := by
  have hbase : ∀ (scan : FileScan) (id base : String), scan.Sound file [id] →
      (if m.has .bases then scan.link id base .extending else scan).Sound file [] := by
    intro scan id base hscan
    split
    · exact Sound.drop (hscan.link (List.mem_singleton_self _) rfl)
    · exact hscan.drop
  unfold declareClass
  dsimp only
  cases s.owner with
  | none => exact hbase _ _ _ (h.declare (h.fits_draft hline rfl rfl))
  | some o => exact hbase _ _ _ (h.declareMember (h.fits_draft hline rfl rfl) _)

/-- So does recording a method. -/
theorem sound_declareMethod (h : s.scan.Sound file []) (hline : file.HasLine line) :
    (declareMethod m line s).scan.Sound file [] := by
  unfold declareMethod
  dsimp only
  split
  · exact Sound.drop (h.declareMember (h.fits_draft hline rfl rfl) _)
  · exact Sound.drop (h.declare (h.fits_draft hline rfl rfl))

/-- A visit keeps what has been recorded sound. -/
theorem sound_visit (h : s.scan.Sound file []) (hline : file.HasLine line) : (visit l line s).scan.Sound file [] := by
  unfold visit
  split
  · unfold State.setVisibility
    split <;> exact h
  split
  · exact sound_declareClass h hline
  split
  · exact Sound.drop (h.declare (h.fits_draft hline rfl rfl))
  split
  · exact h
  split
  · exact sound_declareMethod h hline
  · exact h

/-- A walk over lines of the file keeps what has been recorded sound. -/
theorem sound_walk {line : Nat} (h : s.scan.Sound file []) (hfirst : 1 ≤ line)
    (hlast : line + lines.length ≤ file.lines.length + 1) : (walk line lines s).scan.Sound file [] := by
  induction lines generalizing line s with
  | nil => exact h
  | cons l ls ih =>
    rw [List.length_cons] at hlast
    refine ih ?_ (by omega) (by omega)
    show (if _ then s else visit l line s).scan.Sound file []
    split
    · exact h
    · exact sound_visit h ⟨hfirst, by omega⟩

/-- What is read of a file finishes it. -/
theorem finishes_read (file : SourceFile) : (read file).Finishes file (resolve file.known file.path) := by
  refine ⟨_, _, _, _, _, ?_, rfl⟩
  exact sound_walk (sound_start file .hash) (Nat.le_refl 1) (Nat.le_of_eq (Nat.add_comm _ _))

end Ruby

end CodeAtlas
