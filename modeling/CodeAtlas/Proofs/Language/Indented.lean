import CodeAtlas.Proofs.Language.Lines
import CodeAtlas.Proofs.Source.Indentation
import CodeAtlas.Proofs.Source.Recording

/-!
# Scopes by indentation

While Python is read line by line, a declaration stays on the stack of scopes as long as all code below its header line is indented
deeper. Its range is found later on, by a search that passes over the lines of the header first. So the two agree, and a function is a
method of the innermost class around it, where no line of code within a header of several lines is indented as little as its first line.
-/

namespace CodeAtlas.Python

open Text FileScan

/-! ## What a line records -/

/-- The kinds of the declarations that lines may stand in. -/
def scopeKinds : List EntityKind := [.class_, .function, .method]

/-- The scopes that are left open by a line of code. -/
def State.leave (s : State) (l : Text) : State := { s with scopes := s.scopes.dropWhile fun scope => decide (Text.indent l ≤ scope.1) }

/-- The declaration that a function is recorded as. -/
def functionDraft (names : Names) (lines : List Text) (line : Nat) (m : Match) (s : State) : Declaration :=
  let header := Header.joined .hash lines
  let name := String.ofList (m.get .name)
  let params := Header.bracketedText header
  let shown := "(" ++ String.ofList (squeeze params) ++ ")"
  let fill (d : Declaration) : Declaration :=
    { d with
      block := .indent
      isAsync := m.has .async
      parameterCount := some (Header.countParameters params uncounted)
      returnType := (returnClause.search? header).map fun r => String.ofList (strip (r.get .returnType)) }
  let asFunction (exported : Bool) : Declaration :=
    { fill (s.scan.draft .function name line (some ("def " ++ name ++ shown))) with exported }
  match s.scopes with
  | [] => asFunction (isPublic names.listed name)
  | (_, owner) :: _ =>
    if owner.kind = .class_ then
      { fill (s.scan.draft .method name line (some (owner.name ++ "." ++ name ++ shown))) with
        exported := owner.exported && !name.text.startsWith "_" }
    else asFunction false

/-- The declaration that a class is recorded as. -/
def classDraft (names : Names) (line : Nat) (m : Match) (s : State) : Declaration :=
  let name := String.ofList (m.get .name)
  { s.scan.draft .class_ name line with block := .indent, exported := s.scopes.isEmpty && isPublic names.listed name }

/-- The declaration that the line at the head of the lines records, also where one with its id is there already. -/
def drafted? (names : Names) (lines : List Text) (line : Nat) (s : State) : Option Declaration :=
  let l := lines.headD []
  if (strip l).isEmpty || startsWith (strip l) "#" then none
  else match decorator.matchStart? l with
    | some m => some { s.scan.draft .decorator (String.ofList (m.get .name)) line with block := .line }
    | none =>
      match defHeader.matchStart? l with
      | some m => some (functionDraft names lines line m (s.leave l))
      | none =>
        (classHeader.matchStart? (if l.contains '(' then Header.joined .hash lines else l)).map fun m =>
          classDraft names line m (s.leave l)

/-- The declarations that the lines from number `line` on record. -/
def draftsFrom (names : Names) : (line : Nat) → List Text → State → List Declaration
  | _, [], _ => []
  | line, l :: ls, s => (drafted? names (l :: ls) line s).toList ++ draftsFrom names (line + 1) ls (visit names (l :: ls) line s)

/-- The names that reading a file knows before its walk. -/
def namesOf (file : SourceFile) : Names where
  imported := importedSymbolFiles
    (importEdges file.repoId file.path file.language (resolve file.known file.path) (importStatements file.lines))
  listed := publicNames? file.content.text

/-- The declarations that reading a file records. -/
def drafts (file : SourceFile) : List Declaration :=
  draftsFrom (namesOf file) 1 file.lines { scan := FileScan.start file .hash }

variable {names : Names} {lines : List Text} {line indent : Nat} {m : Match} {s : State}

/-- A function is recorded as a method of the innermost scope when that is a class, and is exported by its own name outside all
scopes only. -/
theorem declareFunction_eq (names : Names) (lines : List Text) (line indent : Nat) (m : Match) (s : State) :
    declareFunction names lines line indent m s =
      { scan := match s.scopes with
          | [] => (s.scan.declare (functionDraft names lines line m s)).1
          | (_, owner) :: _ =>
            if owner.kind = .class_ then
              (s.scan.declare (functionDraft names lines line m s)).1.memberOf (s.scan.declare (functionDraft names lines line m s)).2 owner
            else (s.scan.declare (functionDraft names lines line m s)).1
        scopes := (indent, (s.scan.declare (functionDraft names lines line m s)).2) :: s.scopes } := by
  unfold declareFunction functionDraft
  cases s.scopes with
  | nil => rfl
  | cons top below =>
    obtain ⟨k, owner⟩ := top
    by_cases hclass : owner.kind = .class_
    · simp only [if_pos hclass]
    · simp only [if_neg hclass]

/-- What is recorded of a class begins on the line of its header and ends by indentation. -/
theorem isDraft_classDraft (names : Names) (line : Nat) (m : Match) (s : State) : (classDraft names line m s).IsDraft .indent line :=
  ⟨rfl, rfl, rfl, rfl⟩

/-- So does what is recorded of a function. -/
theorem isDraft_functionDraft (names : Names) (lines : List Text) (line : Nat) (m : Match) (s : State) :
    (functionDraft names lines line m s).IsDraft .indent line := by
  unfold functionDraft
  cases s.scopes with
  | nil => exact ⟨rfl, rfl, rfl, rfl⟩
  | cons top below =>
    obtain ⟨k, owner⟩ := top
    by_cases hclass : owner.kind = .class_
    · simp only [if_pos hclass]
      exact ⟨rfl, rfl, rfl, rfl⟩
    · simp only [if_neg hclass]
      exact ⟨rfl, rfl, rfl, rfl⟩

/-- The scopes around a function decide on its kind, and whether its name does on its export. -/
theorem functionDraft_kind (names : Names) (lines : List Text) (line : Nat) (m : Match) (s : State) :
    match s.scopes with
    | [] => (functionDraft names lines line m s).kind = .function ∧
        (functionDraft names lines line m s).exported = isPublic names.listed (functionDraft names lines line m s).name
    | (_, owner) :: _ =>
      if owner.kind = .class_ then (functionDraft names lines line m s).kind = .method
      else (functionDraft names lines line m s).kind = .function ∧ (functionDraft names lines line m s).exported = false := by
  unfold functionDraft
  cases s.scopes with
  | nil => exact ⟨rfl, rfl⟩
  | cons top below =>
    obtain ⟨k, owner⟩ := top
    by_cases hclass : owner.kind = .class_ <;> simp [hclass, FileScan.draft]

/-- A function or method may be a scope. -/
theorem functionDraft_kind_mem (names : Names) (lines : List Text) (line : Nat) (m : Match) (s : State) :
    (functionDraft names lines line m s).kind ∈ scopeKinds := by
  have hkind := functionDraft_kind names lines line m s
  split at hkind
  · simp [hkind.1, scopeKinds]
  · split at hkind
    · simp [hkind, scopeKinds]
    · simp [hkind.1, scopeKinds]

/-- What a visit to a line does: nothing where there is no code; else scopes are left, and a decorator, a function, a class or nothing
is recorded. -/
theorem visit_cases (names : Names) (l : Text) (ls : List Text) (line : Nat) (s : State) :
    (¬ HasCode l ∧ drafted? names (l :: ls) line s = none ∧ visit names (l :: ls) line s = s) ∨
      HasCode l ∧
        ((drafted? names (l :: ls) line s = none ∧ visit names (l :: ls) line s = s.leave l) ∨
          (∃ d, drafted? names (l :: ls) line s = some d ∧ d.kind = .decorator ∧
            visit names (l :: ls) line s = { s.leave l with scan := (s.scan.declare d).1 }) ∨
          (∃ m, drafted? names (l :: ls) line s = some (functionDraft names (l :: ls) line m (s.leave l)) ∧
            visit names (l :: ls) line s = declareFunction names (l :: ls) line (Text.indent l) m (s.leave l)) ∨
          ∃ m, drafted? names (l :: ls) line s = some (classDraft names line m (s.leave l)) ∧
            visit names (l :: ls) line s = declareClass names line (Text.indent l) m (s.leave l)) := by
  unfold visit drafted?
  dsimp only [List.headD]
  by_cases hcode : (List.isEmpty (strip l) || startsWith (strip l) "#") = true
  · refine Or.inl ⟨by simp [HasCode, hcode], ?_⟩
    rw [if_pos hcode, if_pos hcode]
    exact ⟨rfl, rfl⟩
  · refine Or.inr ⟨by simpa [HasCode] using hcode, ?_⟩
    rw [if_neg hcode, if_neg hcode]
    cases decorator.matchStart? l with
    | some m => exact Or.inr (Or.inl ⟨_, rfl, rfl, rfl⟩)
    | none =>
      cases defHeader.matchStart? l with
      | some m => exact Or.inr (Or.inr (Or.inl ⟨m, rfl, rfl⟩))
      | none =>
        cases classHeader.matchStart? (if l.contains '(' then Header.joined .hash (l :: ls) else l) with
        | some m => exact Or.inr (Or.inr (Or.inr ⟨m, rfl, rfl⟩))
        | none => exact Or.inl ⟨rfl, rfl⟩

/-! ## The declarations that lines stand in -/

/-- The classes, functions and methods recorded so far, in the order of their lines. -/
def scopeDecls (scan : FileScan) : List Declaration := scan.recorded.filter fun d => scopeKinds.contains d.kind

section ScopeDecls

variable {scan : FileScan} {d : Declaration}

/-- The scopes are the declarations of these kinds, apart from what is found out later. -/
theorem mem_scopeDecls_iff : d ∈ scopeDecls scan ↔ ∃ e ∈ scan.decls, e.kind ∈ scopeKinds ∧ e.bare = d := by
  rw [scopeDecls, List.mem_filter, mem_recorded_iff]
  constructor
  · rintro ⟨⟨e, he, rfl⟩, hkind⟩
    exact ⟨e, he, List.contains_iff_mem.1 hkind, rfl⟩
  · rintro ⟨e, he, hkind, rfl⟩
    exact ⟨⟨e, he, rfl⟩, List.contains_iff_mem.2 hkind⟩

/-- The scopes depend on what has been recorded only. -/
theorem scopeDecls_congr {scan' : FileScan} (h : scan'.recorded = scan.recorded) : scopeDecls scan' = scopeDecls scan := by
  rw [scopeDecls, h, scopeDecls]

/-- A further declaration of these kinds is the last scope. -/
theorem scopeDecls_append (hkind : d.kind ∈ scopeKinds) :
    scopeDecls { scan with decls := scan.decls ++ [d] } = scopeDecls scan ++ [d.bare] := by
  have hbare : d.bare.kind ∈ scopeKinds := hkind
  rw [scopeDecls, recorded_append, List.filter_append, scopeDecls]
  simp [hbare]

/-- A declaration of another kind is no scope. -/
theorem scopeDecls_declare_of_kind (h : d.kind ∉ scopeKinds) : scopeDecls (scan.declare d).1 = scopeDecls scan := by
  rcases declare_cases scan d with ⟨-, hdeclare⟩ | ⟨e, -, -, hdeclare⟩
  · have hbare : d.bare.kind ∉ scopeKinds := h
    rw [hdeclare, scopeDecls, recorded_append, List.filter_append, scopeDecls]
    simp [hbare]
  · rw [hdeclare]

end ScopeDecls

/-! ## Open scopes -/

/-- All code after line `first` and up to line `last` is indented deeper than line `first`. -/
def IsOpen (lines : List Text) (first last : Nat) : Prop := IsDeeper lines (indentAt lines first) (first + 1) last

/-- Of some declarations, the last one that begins before a line and is open on it. -/
structure IsInnermost (lines : List Text) (ds : List Declaration) (line : Nat) (c : Declaration) : Prop where
  mem : c ∈ ds
  before : c.startLine < line
  open_ : IsOpen lines c.startLine line
  last : ∀ b ∈ ds, b.startLine < line → IsOpen lines b.startLine line → b.startLine ≤ c.startLine

namespace IsInnermost

variable {ds : List Declaration} {n : Nat} {c c' d : Declaration}

/-- Declarations that begin on the line or below it do not matter. -/
theorem append_iff (h : n ≤ d.startLine) : IsInnermost lines (ds ++ [d]) n c ↔ IsInnermost lines ds n c := by
  constructor
  · intro hc
    rcases List.mem_append.1 hc.mem with hmem | hmem
    · exact ⟨hmem, hc.before, hc.open_, fun b hb => hc.last b (List.mem_append_left _ hb)⟩
    · have hbefore := hc.before
      rw [List.mem_singleton.1 hmem] at hbefore
      omega
  · intro hc
    refine ⟨List.mem_append_left _ hc.mem, hc.before, hc.open_, fun b hb hbefore hopen => ?_⟩
    rcases List.mem_append.1 hb with hb | hb
    · exact hc.last b hb hbefore hopen
    · rw [List.mem_singleton.1 hb] at hbefore
      omega

/-- Of declarations on different lines one is the innermost at most. -/
theorem unique (hds : ds.Pairwise fun a b => a.startLine < b.startLine) (hc : IsInnermost lines ds n c)
    (hc' : IsInnermost lines ds n c') : c = c' := by
  have hline : c.startLine = c'.startLine :=
    Nat.le_antisymm (hc'.last c hc.mem hc.before hc.open_) (hc.last c' hc'.mem hc'.before hc'.open_)
  have hpairs := List.pairwise_iff_getElem.1 hds
  obtain ⟨i, hi, rfl⟩ := List.getElem_of_mem hc.mem
  obtain ⟨j, hj, rfl⟩ := List.getElem_of_mem hc'.mem
  rcases Nat.lt_trichotomy i j with hlt | rfl | hgt
  · have := hpairs i j hi hj hlt
    omega
  · rfl
  · have := hpairs j i hj hi hgt
    omega

end IsInnermost

/-! ## What the walk keeps -/

/-- How a function or method is recorded among the scopes: as a method of the innermost one if that is a class, with an edge to it; as
a function else, which is exported by its own name where there is no scope, and not exported where there is one. -/
structure IsAttributed (names : Names) (lines : List Text) (scan : FileScan) (d : Declaration) : Prop where
  method : d.kind = .method → ∃ c, IsInnermost lines (scopeDecls scan) d.startLine c ∧ c.kind = .class_ ∧
    ∃ e ∈ scan.edges, e.link = (d.id, c.id, .memberOf)
  function : d.kind = .function → (∀ c, IsInnermost lines (scopeDecls scan) d.startLine c → c.kind ≠ .class_ ∧ d.exported = false) ∧
    ((∀ c, ¬ IsInnermost lines (scopeDecls scan) d.startLine c) → d.exported = isPublic names.listed d.name)

/-- How a function or method is recorded stays so where the scopes around it are the same and no edge is lost. -/
theorem IsAttributed.mono {scan scan' : FileScan} {d : Declaration} (h : IsAttributed names lines scan d)
    (hscopes : ∀ c, IsInnermost lines (scopeDecls scan') d.startLine c ↔ IsInnermost lines (scopeDecls scan) d.startLine c)
    (hedges : ∀ e ∈ scan.edges, e ∈ scan'.edges) : IsAttributed names lines scan' d := by
  refine ⟨fun hkind => ?_, fun hkind => ?_⟩
  · obtain ⟨c, hc, hclass, e, he, hlink⟩ := h.method hkind
    exact ⟨c, (hscopes c).2 hc, hclass, e, hedges e he, hlink⟩
  · simp only [hscopes]
    exact h.function hkind

/-- What holds after `n` lines have been read. -/
structure Indented (names : Names) (lines : List Text) (n : Nat) (s : State) : Prop where
  noise : s.scan.noise = .hash
  placed : ∀ d ∈ scopeDecls s.scan, 1 ≤ d.startLine ∧ d.startLine ≤ n ∧ HasCode (lineAt lines d.startLine)
  ordered : (scopeDecls s.scan).Pairwise fun a b => a.startLine < b.startLine
  ranged : ∀ d ∈ scopeDecls s.scan, d.block = .indent ∧ d.endLine = none
  nested : s.scopes.Pairwise fun a b => b.1 < a.1 ∧ b.2.startLine < a.2.startLine
  scopes : ∀ k d, (k, d) ∈ s.scopes ↔ d ∈ scopeDecls s.scan ∧ k = indentAt lines d.startLine ∧ IsOpen lines d.startLine n
  attributed : ∀ d ∈ scopeDecls s.scan, IsAttributed names lines s.scan d
  /-- The edges to types lead from methods to the innermost classes around them. -/
  members : ∀ e ∈ s.scan.edges, e.kind = .memberOf → ∃ d ∈ scopeDecls s.scan, ∃ c, e.fromId = d.id ∧ e.toId = c.id ∧
    d.kind = .method ∧ c.kind = .class_ ∧ IsInnermost lines (scopeDecls s.scan) d.startLine c

namespace Indented

variable {n : Nat} {l : Text}

/-- A blank line closes nothing. -/
theorem isOpen_succ_iff_of_blank {first : Nat} (hl : ¬ HasCode (lineAt lines (n + 1))) :
    IsOpen lines first (n + 1) ↔ IsOpen lines first n := by
  refine ⟨fun hopen => hopen.mono (Nat.le_refl _) (Nat.le_succ n), fun hopen i hi hin hcode => ?_⟩
  rcases Nat.lt_or_ge n i with hlt | hge
  · obtain rfl : i = n + 1 := by omega
    exact absurd hcode hl
  · exact hopen i hi hge hcode

/-- A line with code closes what it is not indented deeper than. -/
theorem isOpen_succ_iff {first : Nat} (hl : HasCode (lineAt lines (n + 1))) (hfirst : first ≤ n) :
    IsOpen lines first (n + 1) ↔ IsOpen lines first n ∧ indentAt lines first < indentAt lines (n + 1) := by
  constructor
  · exact fun hopen => ⟨hopen.mono (Nat.le_refl _) (Nat.le_succ n), hopen (n + 1) (Nat.succ_le_succ hfirst) (Nat.le_refl _) hl⟩
  · rintro ⟨hopen, hdeep⟩ i hi hin hcode
    rcases Nat.lt_or_ge n i with hlt | hge
    · obtain rfl : i = n + 1 := by omega
      exact hdeep
    · exact hopen i hi hge hcode

/-- A line without code changes nothing. -/
theorem skip (h : Indented names lines n s) (hl : ¬ HasCode (lineAt lines (n + 1))) : Indented names lines (n + 1) s := by
  refine { h with placed := fun d hd => ?_, scopes := fun k d => ?_ }
  · have hplaced := h.placed d hd
    exact ⟨hplaced.1, Nat.le_succ_of_le hplaced.2.1, hplaced.2.2⟩
  · rw [h.scopes]
    exact and_congr_right fun _ => and_congr_right fun _ => (isOpen_succ_iff_of_blank hl).symm

/-- A line of code leaves the scopes open that are indented less. -/
theorem leave (h : Indented names lines n s) (hl : HasCode (lineAt lines (n + 1))) :
    Indented names lines (n + 1) (s.leave (lineAt lines (n + 1))) := by
  refine { h with placed := fun d hd => ?_, nested := ?_, scopes := fun k d => ?_ }
  · have hplaced := h.placed d hd
    exact ⟨hplaced.1, Nat.le_succ_of_le hplaced.2.1, hplaced.2.2⟩
  · exact h.nested.sublist (List.dropWhile_sublist _)
  · have hnested : s.scopes.Pairwise fun a b => decide (Text.indent (lineAt lines (n + 1)) ≤ b.1) = true →
        decide (Text.indent (lineAt lines (n + 1)) ≤ a.1) = true := by
      refine h.nested.imp fun {a b} hab hb => ?_
      simp only [decide_eq_true_iff] at hb ⊢
      omega
    show (k, d) ∈ s.scopes.dropWhile _ ↔ _
    rw [mem_dropWhile_iff hnested, h.scopes, and_assoc, and_assoc]
    refine and_congr_right fun hd => and_congr_right fun hk => ?_
    rw [isOpen_succ_iff hl (h.placed d hd).2.1, hk, decide_eq_false_iff_not, Nat.not_le]
    exact Iff.rfl

/-- The top of the stack is the innermost scope of the line to be recorded. -/
theorem innermost (h : Indented names lines (n + 1) s) (hbelow : ∀ d ∈ scopeDecls s.scan, d.startLine ≤ n) {k : Nat}
    {c : Declaration} {rest : List (Nat × Declaration)} (hscopes : s.scopes = (k, c) :: rest) :
    IsInnermost lines (scopeDecls s.scan) (n + 1) c := by
  have hc : (k, c) ∈ s.scopes := by simp [hscopes]
  obtain ⟨hmem, -, hopen⟩ := (h.scopes k c).1 hc
  refine ⟨hmem, Nat.lt_succ_of_le (hbelow c hmem), hopen, fun b hb _ hb' => ?_⟩
  have hstacked : (indentAt lines b.startLine, b) ∈ s.scopes := (h.scopes _ b).2 ⟨hb, rfl, hb'⟩
  have hnested := h.nested
  rw [hscopes] at hstacked hnested
  rcases List.mem_cons.1 hstacked with heq | hrest
  · cases heq
    exact Nat.le_refl _
  · exact Nat.le_of_lt ((List.pairwise_cons.1 hnested).1 _ hrest).2

/-- Where no scope is open, no declaration is innermost. -/
theorem not_innermost (h : Indented names lines n s) (hscopes : s.scopes = []) {c : Declaration} :
    ¬ IsInnermost lines (scopeDecls s.scan) n c := by
  intro hc
  have hstacked : (indentAt lines c.startLine, c) ∈ s.scopes := (h.scopes _ c).2 ⟨hc.mem, rfl, hc.open_⟩
  rw [hscopes] at hstacked
  nomatch hstacked

/-- Recording a declaration on a line that has been reached enters its scope. -/
theorem record (h : Indented names lines (n + 1) s) (hbelow : ∀ d ∈ scopeDecls s.scan, d.startLine ≤ n)
    (hl : HasCode (lineAt lines (n + 1))) {scan : FileScan} {d : Declaration} (hnoise : scan.noise = s.scan.noise)
    (hdecls : scopeDecls scan = scopeDecls s.scan ++ [d]) (hd : d.IsDraft .indent (n + 1)) (hedges : ∀ e ∈ s.scan.edges, e ∈ scan.edges)
    (hnew : ∀ e ∈ scan.edges, e.kind = .memberOf → e ∈ s.scan.edges ∨ ∃ c, e.fromId = d.id ∧ e.toId = c.id ∧
      d.kind = .method ∧ c.kind = .class_ ∧ IsInnermost lines (scopeDecls s.scan) (n + 1) c)
    (hattributed : IsAttributed names lines scan d) :
    Indented names lines (n + 1) { scan, scopes := (indentAt lines (n + 1), d) :: s.scopes } := by
  have hline := hd.start
  have hcongr : ∀ b ∈ scopeDecls s.scan, ∀ c, IsInnermost lines (scopeDecls scan) b.startLine c ↔
      IsInnermost lines (scopeDecls s.scan) b.startLine c := by
    intro b hb c
    have hle := hbelow b hb
    rw [hdecls]
    exact IsInnermost.append_iff (by omega)
  have hscope : ∀ k b, (k, b) ∈ s.scopes → k < indentAt lines (n + 1) ∧ b.startLine < d.startLine := by
    intro k b hb
    obtain ⟨hmem, rfl, hopen⟩ := (h.scopes k b).1 hb
    have hle := hbelow b hmem
    exact ⟨((isOpen_succ_iff hl hle).1 hopen).2, by omega⟩
  have hmem : ∀ b, b ∈ scopeDecls scan ↔ b ∈ scopeDecls s.scan ∨ b = d := by simp [hdecls]
  refine ⟨hnoise.trans h.noise, ?placed, ?ordered, ?ranged, ?nested, ?scopes, ?attributed, ?members⟩
  case placed =>
    intro b hb
    rcases (hmem b).1 hb with hb | rfl
    · exact h.placed b hb
    · rw [hline]
      exact ⟨Nat.succ_pos n, Nat.le_refl _, hl⟩
  case ordered =>
    rw [hdecls]
    refine List.pairwise_append.2 ⟨h.ordered, List.pairwise_singleton _ _, fun a ha b hb => ?_⟩
    have hle := hbelow a ha
    rw [List.mem_singleton.1 hb]
    omega
  case ranged =>
    intro b hb
    rcases (hmem b).1 hb with hb | rfl
    · exact h.ranged b hb
    · exact ⟨hd.block, hd.ending⟩
  case nested =>
    exact List.pairwise_cons.2 ⟨fun b hb => hscope b.1 b.2 hb, h.nested⟩
  case scopes =>
    intro k b
    rw [List.mem_cons, h.scopes, hmem, Prod.mk.injEq]
    constructor
    · rintro (⟨rfl, rfl⟩ | ⟨hb, hk, hopen⟩)
      · refine ⟨Or.inr rfl, by rw [hline], fun i hi hin _ => ?_⟩
        omega
      · exact ⟨Or.inl hb, hk, hopen⟩
    · rintro ⟨hb | rfl, hk, hopen⟩
      · exact Or.inr ⟨hb, hk, hopen⟩
      · exact Or.inl ⟨by rw [hk, hline], rfl⟩
  case attributed =>
    intro b hb
    rcases (hmem b).1 hb with hb | rfl
    · exact (h.attributed b hb).mono (hcongr b hb) hedges
    · exact hattributed
  case members =>
    intro e he hkind
    rcases hnew e he hkind with he | ⟨c, hfrom, hto, hmethod, hclass, hc⟩
    · obtain ⟨b, hb, c, hfrom, hto, hmethod, hclass, hc⟩ := h.members e he hkind
      exact ⟨b, (hmem b).2 (Or.inl hb), c, hfrom, hto, hmethod, hclass, (hcongr b hb c).2 hc⟩
    · refine ⟨d, (hmem d).2 (Or.inr rfl), c, hfrom, hto, hmethod, hclass, ?_⟩
      rw [hdecls, hline]
      exact (IsInnermost.append_iff (by omega)).2 hc

/-- A declaration of another kind is recorded without a scope. -/
theorem of_scan (h : Indented names lines n s) {scan : FileScan} (hnoise : scan.noise = s.scan.noise)
    (hdecls : scopeDecls scan = scopeDecls s.scan) (hedges : scan.edges = s.scan.edges) : Indented names lines n { s with scan } := by
  refine ⟨hnoise.trans h.noise, ?_, ?_, ?_, h.nested, ?_, ?_, ?_⟩
  · exact hdecls ▸ h.placed
  · exact hdecls ▸ h.ordered
  · exact hdecls ▸ h.ranged
  · exact hdecls ▸ h.scopes
  · intro d hd
    refine (h.attributed d (hdecls ▸ hd)).mono (fun c => by rw [hdecls]) fun e he => ?_
    rwa [hedges]
  · show ∀ e ∈ scan.edges, _
    rw [hedges, hdecls]
    exact h.members

/-- A function outside all classes enters its scope. -/
theorem recordFunction (h : Indented names lines (n + 1) s) (hbelow : ∀ d ∈ scopeDecls s.scan, d.startLine ≤ n)
    (hl : HasCode (lineAt lines (n + 1))) {d : Declaration} (hd : d.IsDraft .indent (n + 1)) (hfresh : d.id ∉ s.scan.ids)
    (hkind : d.kind = .function)
    (hinner : ∀ c, IsInnermost lines (scopeDecls s.scan) (n + 1) c → c.kind ≠ .class_ ∧ d.exported = false)
    (houter : (∀ c, ¬ IsInnermost lines (scopeDecls s.scan) (n + 1) c) → d.exported = isPublic names.listed d.name) :
    Indented names lines (n + 1)
      { scan := (s.scan.declare d).1, scopes := (indentAt lines (n + 1), (s.scan.declare d).2) :: s.scopes } := by
  have hdecls : scopeDecls { s.scan with decls := s.scan.decls ++ [d] } = scopeDecls s.scan ++ [d] := by
    rw [scopeDecls_append (by simp [hkind, scopeKinds]), hd.bare_eq]
  have hcongr : ∀ c, IsInnermost lines (scopeDecls { s.scan with decls := s.scan.decls ++ [d] }) d.startLine c ↔
      IsInnermost lines (scopeDecls s.scan) (n + 1) c := by
    intro c
    rw [hdecls, hd.start]
    exact IsInnermost.append_iff (Nat.le_of_eq hd.start.symm)
  rw [declare_of_fresh hfresh]
  refine h.record hbelow hl rfl hdecls hd (fun e he => he) (fun e he _ => Or.inl he) ⟨fun hmethod => ?_, fun _ => ⟨?_, ?_⟩⟩
  · rw [hkind] at hmethod
    nomatch hmethod
  · exact fun c hc => hinner c ((hcongr c).1 hc)
  · exact fun hnone => houter fun c hc => hnone c ((hcongr c).2 hc)

/-- A method of the innermost class enters its scope, with an edge to the class. -/
theorem recordMethod (h : Indented names lines (n + 1) s) (hbelow : ∀ d ∈ scopeDecls s.scan, d.startLine ≤ n)
    (hl : HasCode (lineAt lines (n + 1))) {d c : Declaration} (hd : d.IsDraft .indent (n + 1)) (hfresh : d.id ∉ s.scan.ids)
    (hkind : d.kind = .method) (hclass : c.kind = .class_) (hc : IsInnermost lines (scopeDecls s.scan) (n + 1) c) :
    Indented names lines (n + 1)
      { scan := (s.scan.declare d).1.memberOf (s.scan.declare d).2 c
        scopes := (indentAt lines (n + 1), (s.scan.declare d).2) :: s.scopes } := by
  have hne : d.id ≠ c.id := by
    intro heq
    obtain ⟨e, he, -, rfl⟩ := mem_scopeDecls_iff.1 hc.mem
    refine hfresh ?_
    rw [heq]
    exact List.mem_map.2 ⟨e, he, rfl⟩
  have hdecls : scopeDecls (FileScan.memberOf { s.scan with decls := s.scan.decls ++ [d] } d c) = scopeDecls s.scan ++ [d] := by
    rw [scopeDecls_congr (recorded_memberOf d c), scopeDecls_append (by simp [hkind, scopeKinds]), hd.bare_eq]
  rw [declare_of_fresh hfresh]
  refine h.record hbelow hl ?_ hdecls hd ?_ ?_ ⟨fun _ => ?_, fun hfunction => ?_⟩
  · exact noise_link
  · exact fun e he => mem_edges_link.2 (Or.inl he)
  · intro e he _
    refine (mem_edges_link.1 he).imp_right ?_
    rintro ⟨-, rfl⟩
    exact ⟨c, rfl, rfl, hkind, hclass, hc⟩
  · rw [hdecls, hd.start]
    exact ⟨c, (IsInnermost.append_iff (Nat.le_of_eq hd.start.symm)).2 hc, hclass, _, mem_edges_link.2 (Or.inr ⟨hne, rfl⟩), rfl⟩
  · rw [hkind] at hfunction
    nomatch hfunction

/-- A function is recorded with the scopes around it, and entered. -/
theorem function (h : Indented names lines (n + 1) s) (hbelow : ∀ d ∈ scopeDecls s.scan, d.startLine ≤ n)
    (hl : HasCode (lineAt lines (n + 1))) {ls : List Text} {m : Match}
    (hfresh : (functionDraft names ls (n + 1) m s).id ∉ s.scan.ids) :
    Indented names lines (n + 1) (declareFunction names ls (n + 1) (indentAt lines (n + 1)) m s) := by
  have hkind := functionDraft_kind names ls (n + 1) m s
  have hd := isDraft_functionDraft names ls (n + 1) m s
  rw [declareFunction_eq]
  generalize functionDraft names ls (n + 1) m s = d at hkind hd hfresh ⊢
  cases hscopes : s.scopes with
  | nil =>
    rw [hscopes] at hkind
    have hrecord := h.recordFunction hbelow hl hd hfresh hkind.1 (fun c hc => absurd hc (h.not_innermost hscopes)) fun _ => hkind.2
    rwa [hscopes] at hrecord
  | cons top below =>
    obtain ⟨k, owner⟩ := top
    have howner := h.innermost hbelow hscopes
    rw [hscopes] at hkind
    dsimp only at hkind ⊢
    by_cases hclass : owner.kind = .class_
    · rw [if_pos hclass] at hkind ⊢
      have hrecord := h.recordMethod hbelow hl hd hfresh hkind hclass howner
      rwa [hscopes] at hrecord
    · rw [if_neg hclass] at hkind ⊢
      have hrecord := h.recordFunction hbelow hl hd hfresh hkind.1
        (fun c hc => (hc.unique h.ordered howner).symm ▸ ⟨hclass, hkind.2⟩) fun hnone => absurd howner (hnone owner)
      rwa [hscopes] at hrecord

/-- A class is recorded and entered. -/
theorem class_ (h : Indented names lines (n + 1) s) (hbelow : ∀ d ∈ scopeDecls s.scan, d.startLine ≤ n)
    (hl : HasCode (lineAt lines (n + 1))) {m : Match} (hfresh : (classDraft names (n + 1) m s).id ∉ s.scan.ids) :
    Indented names lines (n + 1) (declareClass names (n + 1) (indentAt lines (n + 1)) m s) := by
  have hd := isDraft_classDraft names (n + 1) m s
  have hkind : (classDraft names (n + 1) m s).kind = .class_ := rfl
  have hdecls : scopeDecls { s.scan with decls := s.scan.decls ++ [classDraft names (n + 1) m s] } =
      scopeDecls s.scan ++ [classDraft names (n + 1) m s] := by
    rw [scopeDecls_append (by simp [hkind, scopeKinds]), hd.bare_eq]
  have hdeclare := declare_of_fresh hfresh
  unfold classDraft at hdeclare
  unfold declareClass
  dsimp only at hdeclare ⊢
  rw [hdeclare]
  have hlinks := fun target => (AddsLinks.refl { s.scan with decls := s.scan.decls ++ [classDraft names (n + 1) m s] }).foldl_link
    (classDraft names (n + 1) m s).id target (show EdgeKind.extending ≠ .memberOf by decide) (baseClassNames (m.get .bases))
  refine h.record hbelow hl (hlinks _).noise ((scopeDecls_congr (hlinks _).recorded).trans hdecls) hd (hlinks _).old ?_
    ⟨fun hmethod => ?_, fun hfunction => ?_⟩
  · exact fun e he hmember => ((hlinks _).new e he).imp_right fun hother => absurd hmember hother
  · nomatch hkind.symm.trans hmethod
  · nomatch hkind.symm.trans hfunction

/-- What one more line does. -/
theorem visit {ls : List Text} (h : Indented names lines n s) (hdrop : lines.drop n = l :: ls)
    (hfresh : ∀ d ∈ drafted? names (l :: ls) (n + 1) s, d.kind = .decorator ∨ d.id ∉ s.scan.ids) :
    Indented names lines (n + 1) (visit names (l :: ls) (n + 1) s) := by
  have hl := lineAt_of_drop hdrop
  rcases visit_cases names l ls (n + 1) s with ⟨hblank, -, heq⟩ | ⟨hcode, hcases⟩
  · rw [heq]
    exact h.skip (hl ▸ hblank)
  · rw [← hl] at hcode
    have hleave := h.leave hcode
    have hbelow : ∀ d ∈ scopeDecls s.scan, d.startLine ≤ n := fun d hd => (h.placed d hd).2.1
    rw [hl] at hleave
    have hindent : Text.indent l = indentAt lines (n + 1) := by rw [indentAt, hl]
    rcases hcases with ⟨-, heq⟩ | ⟨d, -, hkind, heq⟩ | ⟨m, hd, heq⟩ | ⟨m, hd, heq⟩
    · rw [heq]
      exact hleave
    · rw [heq]
      have hother : d.kind ∉ scopeKinds := by
        rw [hkind]
        decide
      exact hleave.of_scan (noise_declare _ _) (scopeDecls_declare_of_kind hother) (edges_declare _ _)
    · have hother : (functionDraft names (l :: ls) (n + 1) m (s.leave l)).kind ≠ .decorator := by
        intro hkind
        have hscope := functionDraft_kind_mem names (l :: ls) (n + 1) m (s.leave l)
        rw [hkind] at hscope
        exact absurd hscope (by decide)
      rw [heq, hindent]
      exact hleave.function hbelow hcode ((hfresh _ hd).resolve_left hother)
    · have hother : (classDraft names (n + 1) m (s.leave l)).kind ≠ .decorator := by
        show EntityKind.class_ ≠ _
        decide
      rw [heq, hindent]
      exact hleave.class_ hbelow hcode ((hfresh _ hd).resolve_left hother)

end Indented

/-- A function brings at most its own id. -/
theorem mem_ids_declareFunction {ls : List Text} {id : String} (h : id ∈ (declareFunction names ls line indent m s).scan.ids) :
    id ∈ s.scan.ids ∨ id = (functionDraft names ls line m s).id := by
  rw [declareFunction_eq] at h
  dsimp only at h
  split at h
  · exact mem_ids_declare h
  · split at h
    · rw [ids_memberOf] at h
      exact mem_ids_declare h
    · exact mem_ids_declare h

/-- A class brings at most its own id. -/
theorem mem_ids_declareClass {id : String} (h : id ∈ (declareClass names line indent m s).scan.ids) :
    id ∈ s.scan.ids ∨ id = (classDraft names line m s).id := by
  unfold declareClass at h
  dsimp only at h
  have hlinks := fun target => (AddsLinks.refl (s.scan.declare (classDraft names line m s)).1).foldl_link
    (s.scan.declare (classDraft names line m s)).2.id target (show EdgeKind.extending ≠ .memberOf by decide)
    (baseClassNames (m.get .bases))
  refine mem_ids_declare ?_
  rw [← (hlinks _).ids]
  exact h

/-- A line adds the id of what it records at most. -/
theorem mem_ids_visit {l : Text} {ls : List Text} {id : String} (h : id ∈ (visit names (l :: ls) line s).scan.ids) :
    id ∈ s.scan.ids ∨ ∃ d ∈ drafted? names (l :: ls) line s, d.id = id := by
  rcases visit_cases names l ls line s with ⟨-, -, heq⟩ | ⟨-, ⟨-, heq⟩ | ⟨d, hd, -, heq⟩ | ⟨m, hd, heq⟩ | ⟨m, hd, heq⟩⟩
  · rw [heq] at h
    exact Or.inl h
  · rw [heq] at h
    exact Or.inl h
  · rw [heq] at h
    exact (mem_ids_declare h).imp_right fun hid => ⟨d, hd, hid.symm⟩
  · rw [heq] at h
    exact (mem_ids_declareFunction h).imp_right fun hid => ⟨_, hd, hid.symm⟩
  · rw [heq] at h
    exact (mem_ids_declareClass h).imp_right fun hid => ⟨_, hd, hid.symm⟩

/-- Of two declarations with one id the later one is a decorator, which may be applied more than once. -/
def Differ (a b : Declaration) : Prop := b.kind = .decorator ∨ a.id ≠ b.id

/-- Whether two declarations differ is decided by the kind of the second and their ids. -/
instance (a b : Declaration) : Decidable (Differ a b) := inferInstanceAs (Decidable (_ ∨ _))

/-- All declarations of a file but the decorators have ids of their own. -/
def RecordsOnce (file : SourceFile) : Prop := (drafts file).Pairwise Differ

/-- Whether a file records its scopes once is decided pair by pair. -/
instance (file : SourceFile) : Decidable (RecordsOnce file) := inferInstanceAs (Decidable (List.Pairwise _ _))

/-- Line after line, what has been recorded fits the lines that have been read. -/
theorem Indented.walk {n : Nat} {ls : List Text} (h : Indented names lines n s) (hdrop : lines.drop n = ls)
    (honce : (draftsFrom names (n + 1) ls s).Pairwise Differ)
    (hfresh : ∀ d ∈ draftsFrom names (n + 1) ls s, d.kind = .decorator ∨ d.id ∉ s.scan.ids) :
    Indented names lines (n + ls.length) (walk names (n + 1) ls s) := by
  induction ls generalizing n s with
  | nil => exact h
  | cons l ls ih =>
    have hrest : lines.drop (n + 1) = ls := by rw [← List.drop_drop, hdrop, List.drop_one, List.tail_cons]
    have hlater : ∀ a ∈ drafted? names (l :: ls) (n + 1) s,
        ∀ b ∈ draftsFrom names (n + 2) ls (Python.visit names (l :: ls) (n + 1) s), Differ a b :=
      fun a ha b hb => (List.pairwise_append.1 honce).2.2 a (Option.mem_toList.2 ha) b hb
    have hnow : ∀ d ∈ drafted? names (l :: ls) (n + 1) s, d.kind = .decorator ∨ d.id ∉ s.scan.ids :=
      fun d hd => hfresh d (List.mem_append_left _ (Option.mem_toList.2 hd))
    have hcount : n + (l :: ls).length = n + 1 + ls.length := by simp [Nat.add_comm, Nat.add_left_comm]
    rw [hcount]
    refine ih (h.visit hdrop hnow) hrest (List.pairwise_append.1 honce).2.1 fun d hd => ?_
    by_cases hkind : d.kind = .decorator
    · exact Or.inl hkind
    · refine Or.inr fun hid => ?_
      rcases mem_ids_visit hid with hold | ⟨a, ha, heq⟩
      · exact (hfresh d (List.mem_append_right _ hd)).elim hkind fun hnew => hnew hold
      · exact (hlater a ha d hd).elim hkind fun hne => hne heq

/-- Before the first line nothing is recorded and no scope is open. -/
theorem indented_start (file : SourceFile) :
    Indented (namesOf file) file.lines 0 { scan := FileScan.start file .hash } where
  noise := rfl
  placed := fun _ h => nomatch h
  ordered := List.Pairwise.nil
  ranged := fun _ h => nomatch h
  nested := List.Pairwise.nil
  scopes := fun _ _ => ⟨(nomatch ·), fun h => nomatch h.1⟩
  attributed := fun _ h => nomatch h
  members := fun _ h => nomatch h

/-- The state after all lines of a file. -/
def walked (file : SourceFile) : State := walk (namesOf file) 1 file.lines { scan := FileScan.start file .hash }

theorem read_eq (file : SourceFile) : read file = (walked file).scan.finish decision .below
    (importEdges file.repoId file.path file.language (resolve file.known file.path) (importStatements file.lines)) := rfl

/-- What a walk has recorded is sound. -/
theorem sound_walked (file : SourceFile) : (walked file).scan.Sound file [] :=
  sound_walk (sound_start file .hash) (Nat.le_refl 1) (Nat.le_of_eq (Nat.add_comm _ _))

/-- A walk that records scopes once keeps them as the lines are indented. -/
theorem indented_walked {file : SourceFile} (h : RecordsOnce file) :
    Indented (namesOf file) file.lines file.lines.length (walked file) := by
  have hwalk := (indented_start file).walk rfl h fun d _ => Or.inr fun hid => nomatch hid
  rwa [Nat.zero_add] at hwalk

end CodeAtlas.Python
