import CodeAtlas.Proofs.Language.Indented
import Mathlib.Data.Set.Finite.Lemmas

/-!
# What encloses a function

The range of a declaration is found when all lines have been read. In terms of these ranges, a function is a method of the innermost
class around it, is not exported within another function, and is exported by its name where nothing is around it. Only a declaration with
code in its header that is indented as little as the line on which the header begins does not count: the walk leaves it at that code,
while the search for its last line does not look at the indentation of a header.
-/

namespace CodeAtlas.Python

open Text FileScan

/-- A class, function or method around the line on which an entity begins: it begins above, ends there or below, and is indented less. -/
structure Encloses (lines : List Text) (c e : Entity) : Prop where
  kind : c.kind ∈ scopeKinds
  before : c.startLine < e.startLine
  within : e.startLine ≤ c.endLine
  shallower : indentAt lines c.startLine.toNat < indentAt lines e.startLine.toNat

instance (lines : List Text) (c e : Entity) : Decidable (Encloses lines c e) :=
  decidable_of_iff
    (c.kind ∈ scopeKinds ∧ c.startLine < e.startLine ∧ e.startLine ≤ c.endLine ∧
      indentAt lines c.startLine.toNat < indentAt lines e.startLine.toNat)
    ⟨fun ⟨hkind, hbefore, hwithin, hshallower⟩ => ⟨hkind, hbefore, hwithin, hshallower⟩,
      fun h => ⟨h.kind, h.before, h.within, h.shallower⟩⟩

/-- All code in the header of a declaration, as far as it is not below the line of an entity, is indented deeper than its first line. -/
def HeaderDeeper (lines : List Text) (c e : Entity) : Prop :=
  IsDeeper lines (indentAt lines c.startLine.toNat) (c.startLine.toNat + 1)
    (min (Header.lastLine .hash lines c.startLine.toNat) e.startLine.toNat)

/-- Of the entities around something, the one that begins last. -/
structure IsInnermostOf (entities : List Entity) (around : Entity → Prop) (c : Entity) : Prop where
  mem : c ∈ entities
  holds : around c
  last : ∀ b ∈ entities, around b → b.startLine ≤ c.startLine

/-- A function or method is recorded as what is around it says: as a method of a class, with an edge to it, exactly if the class is the
innermost of what is around; as an exported function only where nothing is around, and there by its name. -/
structure RecordedIn (names : Names) (f : Fragment) (around : Entity → Prop) (e : Entity) : Prop where
  method_iff : ∀ c ∈ f.entities, (e.kind = .method ∧ ∃ x ∈ f.edges, x.link = (e.id, c.id, .memberOf)) ↔
    c.kind = .class_ ∧ IsInnermostOf f.entities around c
  ofMethod : e.kind = .method → ∃ c ∈ f.entities, ∃ x ∈ f.edges, x.link = (e.id, c.id, .memberOf)
  exported : e.kind = .function → e.exported = true → ∀ c ∈ f.entities, ¬ around c
  outermost : (∀ c ∈ f.entities, ¬ around c) → e.kind = .function ∧ e.exported = isPublic names.listed e.name

variable {lines : List Text}

/-- A line of code below a declaration is within its scope exactly if it is deeper than the declaration, in its range, and deeper code
is all there is in the header. -/
theorem isOpen_iff {first n : Nat} (hfirst : 1 ≤ first) (hbefore : first < n) (hlast : n ≤ lines.length)
    (hcode : HasCode (lineAt lines n)) :
    IsOpen lines first n ↔ n ≤ Block.indentEnd .hash lines first ∧ indentAt lines first < indentAt lines n ∧
      IsDeeper lines (indentAt lines first) (first + 1) (min (Header.lastLine .hash lines first) n) := by
  have hheader : first ≤ Header.lastLine .hash lines first := Header.le_lastLine hfirst (by omega)
  rw [Block.le_indentEnd_iff hcode]
  constructor
  · intro hopen
    exact ⟨Or.inr (hopen.mono (by omega) (Nat.le_refl n)), hopen n (by omega) (Nat.le_refl n) hcode,
      hopen.mono (Nat.le_refl _) (Nat.min_le_right _ _)⟩
  · rintro ⟨hrange, -, hdeep⟩ i hi hin hcode'
    rcases Nat.lt_or_ge (Header.lastLine .hash lines first) i with hgt | hle
    · rcases hrange with hle | hrange
      · omega
      · exact hrange i hgt hin hcode'
    · exact hdeep i hi (Nat.le_min.2 ⟨hle, hin⟩) hcode'

/-- Where an entity is around a place, one of them is the innermost. -/
theorem exists_isInnermostOf {entities : List Entity} (around : Entity → Prop) {b : Entity} (hb : b ∈ entities) (hb' : around b) :
    ∃ c, IsInnermostOf entities around c := by
  have hfinite : {c | c ∈ entities ∧ around c}.Finite := (List.finite_toSet entities).subset fun _ hc => hc.1
  obtain ⟨c, ⟨hmem, hc⟩, hlast⟩ := Set.exists_max_image {c | c ∈ entities ∧ around c} (·.startLine) hfinite ⟨b, hb, hb'⟩
  exact ⟨c, hmem, hc, fun a ha ha' => hlast a ⟨ha, ha'⟩⟩

/-- What is recorded depends on the innermost entity around only. -/
theorem RecordedIn.congr {names : Names} {f : Fragment} {around around' : Entity → Prop} {e : Entity} (h : RecordedIn names f around e)
    (hinner : ∀ c, IsInnermostOf f.entities around' c ↔ IsInnermostOf f.entities around c) : RecordedIn names f around' e := by
  have hnone : (∀ c ∈ f.entities, ¬ around' c) ↔ ∀ c ∈ f.entities, ¬ around c := by
    constructor
    · intro hnone c hc hc'
      obtain ⟨b, hb⟩ := exists_isInnermostOf _ hc hc'
      have hb' := (hinner b).2 hb
      exact hnone b hb'.mem hb'.holds
    · intro hnone c hc hc'
      obtain ⟨b, hb⟩ := exists_isInnermostOf _ hc hc'
      have hb' := (hinner b).1 hb
      exact hnone b hb'.mem hb'.holds
  refine ⟨fun c hc => ?_, h.ofMethod, fun hkind hexported => ?_, fun houter => ?_⟩
  · rw [hinner]
    exact h.method_iff c hc
  · exact hnone.2 (h.exported hkind hexported)
  · exact h.outermost (hnone.1 houter)

/-- The entities of a read file are those of its declarations, the comment of each taken from below. -/
theorem mem_entities_read {file : SourceFile} {e : Entity} :
    e ∈ (read file).entities ↔ ∃ d ∈ (walked file).scan.decls, (walked file).scan.toEntity decision .below d = e :=
  mem_entities_iff

namespace Indented

variable {names : Names} {s : State} {file : SourceFile} {d c : Declaration}

/-- A declaration of a class or of a function is one that opens a scope. -/
theorem bare_mem_scopeDecls {scan : FileScan} (hd : d ∈ scan.decls) (hkind : d.kind ∈ scopeKinds) : d.bare ∈ scopeDecls scan :=
  mem_scopeDecls_iff.2 ⟨d, hd, hkind, rfl⟩

/-- For what the walk has recorded, being around a line in terms of ranges is being an open scope there. -/
theorem encloses_iff (doc : DocStyle) (h : Indented names file.lines file.lines.length s) (hsound : s.scan.Sound file [])
    (hc : c ∈ s.scan.decls) (hd : d ∈ s.scan.decls) (hkind : d.kind ∈ scopeKinds) :
    (Encloses file.lines (s.scan.toEntity decision doc c) (s.scan.toEntity decision doc d) ∧
        HeaderDeeper file.lines (s.scan.toEntity decision doc c) (s.scan.toEntity decision doc d)) ↔
      c.kind ∈ scopeKinds ∧ c.startLine < d.startLine ∧ IsOpen file.lines c.startLine d.startLine := by
  obtain ⟨hfirst, -, hcode⟩ := h.placed _ (bare_mem_scopeDecls hd hkind)
  have hlast := (hsound.fits d hd).start.2
  have hrange : c.kind ∈ scopeKinds → (s.scan.toEntity decision doc c).endLine =
      (max (Block.indentEnd .hash file.lines c.startLine) c.startLine : Nat) := by
    intro hscope
    obtain ⟨hblock, hending⟩ := h.ranged _ (bare_mem_scopeDecls hc hscope)
    change c.block = .indent at hblock
    change c.endLine = none at hending
    simp only [FileScan.toEntity, FileScan.endLine, hending, hblock, h.noise, hsound.ofLines, Option.getD_none, Block.endLine]
  constructor
  · rintro ⟨⟨hscope, hbefore, hwithin, hshallower⟩, hdeep⟩
    rw [hrange hscope] at hwithin
    change (c.startLine : Int) < d.startLine at hbefore
    change (d.startLine : Int) ≤ _ at hwithin
    refine ⟨hscope, by omega, (isOpen_iff (hsound.fits c hc).start.1 (by omega) hlast hcode).2 ⟨by omega, hshallower, hdeep⟩⟩
  · rintro ⟨hscope, hbefore, hopen⟩
    obtain ⟨hwithin, hshallower, hdeep⟩ := (isOpen_iff (hsound.fits c hc).start.1 hbefore hlast hcode).1 hopen
    refine ⟨⟨hscope, Int.ofNat_lt.2 hbefore, ?_, hshallower⟩, hdeep⟩
    rw [hrange hscope]
    exact Int.ofNat_le.2 (Nat.le_trans hwithin (Nat.le_max_left _ _))

/-- The innermost entity around a declaration is the entity of the innermost scope declaration around it. -/
theorem isInnermostOf_iff (doc : DocStyle) (h : Indented names file.lines file.lines.length s) (hsound : s.scan.Sound file [])
    (hd : d ∈ s.scan.decls) (hkind : d.kind ∈ scopeKinds) (hc : c ∈ s.scan.decls) :
    IsInnermostOf (s.scan.entities decision doc)
        (fun x => Encloses file.lines x (s.scan.toEntity decision doc d) ∧ HeaderDeeper file.lines x (s.scan.toEntity decision doc d))
        (s.scan.toEntity decision doc c) ↔
      IsInnermost file.lines (scopeDecls s.scan) d.startLine c.bare := by
  constructor
  · rintro ⟨-, haround, hlast⟩
    obtain ⟨hscope, hbefore, hopen⟩ := (encloses_iff doc h hsound hc hd hkind).1 haround
    refine ⟨bare_mem_scopeDecls hc hscope, hbefore, hopen, fun b hb hbefore' hopen' => ?_⟩
    obtain ⟨b, hb', hscope', rfl⟩ := mem_scopeDecls_iff.1 hb
    have haround' := (encloses_iff doc h hsound hb' hd hkind).2 ⟨hscope', hbefore', hopen'⟩
    exact Int.ofNat_le.1 (hlast _ (mem_entities_iff.2 ⟨b, hb', rfl⟩) haround')
  · intro hinner
    obtain ⟨c', -, hscope, heq⟩ := mem_scopeDecls_iff.1 hinner.mem
    have hkinds : c'.bare.kind = c.bare.kind := congrArg Declaration.kind heq
    change c'.kind = c.kind at hkinds
    rw [hkinds] at hscope
    refine ⟨mem_entities_iff.2 ⟨c, hc, rfl⟩, (encloses_iff doc h hsound hc hd hkind).2 ⟨hscope, hinner.before, hinner.open_⟩, ?_⟩
    intro x hx hx'
    obtain ⟨b, hb, rfl⟩ := mem_entities_iff.1 hx
    obtain ⟨hscope', hbefore', hopen'⟩ := (encloses_iff doc h hsound hb hd hkind).1 hx'
    exact Int.ofNat_le.2 (hinner.last b.bare (bare_mem_scopeDecls hb hscope') hbefore' hopen')

/-- A function is recorded as what is around it says. -/
theorem recordedIn (doc : DocStyle) (h : Indented names file.lines file.lines.length s) (hsound : s.scan.Sound file [])
    {imports : List Edge}
    (himports : ∀ e ∈ imports, e.kind = .imports) (hd : d ∈ s.scan.decls) (hkind : d.kind = .function ∨ d.kind = .method) :
    RecordedIn names (s.scan.finish decision doc imports)
      (fun x => Encloses file.lines x (s.scan.toEntity decision doc d) ∧ HeaderDeeper file.lines x (s.scan.toEntity decision doc d))
      (s.scan.toEntity decision doc d) := by
  have hscope : d.kind ∈ scopeKinds := by rcases hkind with hkind | hkind <;> simp [hkind, scopeKinds]
  have hmem := bare_mem_scopeDecls hd hscope
  have hattributed := h.attributed _ hmem
  have hinnermost : ∀ c ∈ s.scan.decls, _ := fun c hc => isInnermostOf_iff doc h hsound hd hscope hc
  have hedge : ∀ c : Declaration, (∃ x ∈ (s.scan.finish decision doc imports).edges, x.link = (d.id, c.id, .memberOf)) ↔
      ∃ x ∈ s.scan.edges, x.link = (d.id, c.id, .memberOf) := fun c => exists_link_finish_iff himports (by decide)
  have hunique : ∀ b ∈ scopeDecls s.scan, ∀ a ∈ s.scan.decls, a.id = b.id → a.bare = b := by
    intro b hb a ha hid
    obtain ⟨b, hb', -, rfl⟩ := mem_scopeDecls_iff.1 hb
    rw [List.inj_on_of_nodup_map hsound.distinct ha hb' hid]
  refine ⟨fun x hx => ?method_iff, fun hmethod => ?ofMethod, fun hfunction hexported x hx haround => ?exported, fun hnone => ?outermost⟩
  case method_iff =>
    obtain ⟨c, hc, rfl⟩ := mem_entities_iff.1 hx
    refine Iff.trans (and_congr_right fun _ => hedge c) (Iff.trans ?_ (and_congr_right fun _ => (hinnermost c hc).symm))
    constructor
    · rintro ⟨-, y, hy, hlink⟩
      obtain ⟨hfrom, hto, hmember⟩ : y.fromId = d.id ∧ y.toId = c.id ∧ y.kind = .memberOf := by simpa [Edge.link] using hlink
      obtain ⟨d', hd', c', hfrom', hto', -, hclass, hinner⟩ := h.members y hy hmember
      obtain rfl := hunique d' hd' d hd (hfrom.symm.trans hfrom')
      obtain rfl := hunique c' hinner.mem c hc (hto.symm.trans hto')
      exact ⟨hclass, hinner⟩
    · rintro ⟨hclass, hinner⟩
      have hmethod : d.kind = .method := hkind.resolve_left fun hfunction =>
        ((hattributed.function hfunction).1 _ hinner).1 hclass
      obtain ⟨c', hinner', -, y, hy, hlink⟩ := hattributed.method hmethod
      rw [hinner'.unique h.ordered hinner] at hlink
      exact ⟨hmethod, y, hy, hlink⟩
  case ofMethod =>
    obtain ⟨c', hinner, -, hy⟩ := hattributed.method hmethod
    obtain ⟨c, hc, -, rfl⟩ := mem_scopeDecls_iff.1 hinner.mem
    exact ⟨_, mem_entities_iff.2 ⟨c, hc, rfl⟩, (hedge c).2 hy⟩
  case exported =>
    obtain ⟨y, hy⟩ := exists_isInnermostOf (fun x => Encloses file.lines x _ ∧ HeaderDeeper file.lines x _) hx haround
    obtain ⟨c, hc, rfl⟩ := mem_entities_iff.1 hy.mem
    have hhidden : d.exported = false := ((hattributed.function hfunction).1 _ ((hinnermost c hc).1 hy)).2
    exact absurd hexported (Bool.eq_false_iff.1 hhidden)
  case outermost =>
    have hnone' : ∀ c, ¬ IsInnermost file.lines (scopeDecls s.scan) d.startLine c := by
      intro b hb
      obtain ⟨c, hc, -, rfl⟩ := mem_scopeDecls_iff.1 hb.mem
      have hc' := (hinnermost c hc).2 hb
      exact hnone _ hc'.mem hc'.holds
    have hfunction : d.kind = .function := hkind.resolve_right fun hmethod => by
      obtain ⟨b, hb, -⟩ := hattributed.method hmethod
      exact hnone' b hb
    exact ⟨hfunction, (hattributed.function hfunction).2 hnone'⟩

end Indented

/-- Where all declarations have ids of their own, a function is a method of the innermost class around it, and is exported only outside
everything. What counts as around it are the declarations with deeper code only in their headers; and where the innermost declaration in
whose range it stands is one of these, the ranges alone decide. -/
theorem recordedIn_read {file : SourceFile} (h : RecordsOnce file) {e : Entity} (he : e ∈ (read file).entities)
    (hkind : e.kind = .function ∨ e.kind = .method) :
    RecordedIn (namesOf file) (read file) (fun c => Encloses file.lines c e ∧ HeaderDeeper file.lines c e) e ∧
      ((∀ c, IsInnermostOf (read file).entities (Encloses file.lines · e) c → HeaderDeeper file.lines c e) →
        RecordedIn (namesOf file) (read file) (Encloses file.lines · e) e) := by
  have hrecorded : RecordedIn (namesOf file) (read file) (fun c => Encloses file.lines c e ∧ HeaderDeeper file.lines c e) e := by
    obtain ⟨d, hd, rfl⟩ := mem_entities_read.1 he
    rw [read_eq]
    exact Indented.recordedIn .below (indented_walked h) (sound_walked file) (fun e he => (isImport_of_mem_importEdges he).kind) hd hkind
  refine ⟨hrecorded, fun hdeeper => hrecorded.congr fun c => ⟨fun hc => ?_, fun hc => ?_⟩⟩
  · exact ⟨hc.mem, ⟨hc.holds, hdeeper c hc⟩, fun b hb hb' => hc.last b hb hb'.1⟩
  · obtain ⟨a, ha⟩ := exists_isInnermostOf (Encloses file.lines · e) hc.mem hc.holds.1
    have hle := hc.last a ha.mem ⟨ha.holds, hdeeper a ha⟩
    exact ⟨hc.mem, hc.holds.1, fun b hb hb' => Int.le_trans (ha.last b hb hb') hle⟩

/-- A Python file without anything around it. -/
def pythonFile (content : String) : SourceFile where
  repoId := "r"
  path := "a.py"
  content := content
  language := "python"
  known := .ofFiles ["a.py"]

/-- A class with a method. -/
def plainClass : SourceFile := pythonFile "class A(Base):\n    def f(self):\n        pass\n"

/-- A class with a header of three lines, the last of which is indented as little as the first. -/
def splitHeader : SourceFile := pythonFile "class A(\n    Base,\n):\n    def f(self):\n        pass\n"

/-- The method of `plainClass` is recorded within the class around it. -/
theorem recordedIn_plainClass :
    RecordsOnce plainClass ∧ ∃ e ∈ (read plainClass).entities, e.kind = .method ∧
      RecordedIn (namesOf plainClass) (read plainClass)
        (fun c => Encloses plainClass.lines c e ∧ HeaderDeeper plainClass.lines c e) e := by
  have honce : RecordsOnce plainClass := by decide +kernel
  have hmethod : ((walked plainClass).scan.decls.any fun d => decide (d.kind = .method)) = true := by decide +kernel
  obtain ⟨d, hd, hkind⟩ := List.any_eq_true.1 hmethod
  have he : (walked plainClass).scan.toEntity decision .below d ∈ (read plainClass).entities := mem_entities_read.2 ⟨d, hd, rfl⟩
  exact ⟨honce, _, he, of_decide_eq_true hkind, (recordedIn_read honce he (Or.inr (of_decide_eq_true hkind))).1⟩

/-- The function in a class with a header of three lines is recorded as an exported function outside everything, within the range of the
class. -/
theorem splitHeader_not_recordedIn :
    RecordsOnce splitHeader ∧ ∃ e ∈ (read splitHeader).entities, e.kind = .function ∧
      ¬ RecordedIn (namesOf splitHeader) (read splitHeader) (Encloses splitHeader.lines · e) e := by
  have honce : RecordsOnce splitHeader := by decide +kernel
  let entity := (walked splitHeader).scan.toEntity decision .below
  have hinside : ((walked splitHeader).scan.decls.any fun d => decide (d.kind = .function) && d.exported &&
      (walked splitHeader).scan.decls.any fun c => decide (Encloses splitHeader.lines (entity c) (entity d))) = true := by
    decide +kernel
  obtain ⟨d, hd, hfound⟩ := List.any_eq_true.1 hinside
  rw [Bool.and_eq_true, Bool.and_eq_true] at hfound
  obtain ⟨⟨hkind, hexported⟩, haround⟩ := hfound
  obtain ⟨c, hc, hencloses⟩ := List.any_eq_true.1 haround
  refine ⟨honce, entity d, mem_entities_read.2 ⟨d, hd, rfl⟩, of_decide_eq_true hkind, fun h => ?_⟩
  exact h.exported (of_decide_eq_true hkind) hexported (entity c) (mem_entities_read.2 ⟨c, hc, rfl⟩) (of_decide_eq_true hencloses)

end CodeAtlas.Python
