import CodeAtlas.Proofs.Graph.Contract
import CodeAtlas.Proofs.Import.Edges
import CodeAtlas.Proofs.Source.Block
import CodeAtlas.Proofs.Source.Calls
import CodeAtlas.Source.Scan

/-!
# What reading a file gives

A scan is sound when its declarations have ids of their own, lie within the file, and are where its links start. Every operation on a
scan keeps it sound, and what becomes of a sound scan is well formed.
-/

namespace CodeAtlas

namespace SourceFile

/-- The lines of a file. -/
def lines (file : SourceFile) : List Text := Text.lines file.content.text

/-- The lines from one number to another, both included. -/
def linesBetween (file : SourceFile) (first last : Nat) : List Text := (file.lines.drop (first - 1)).take (last + 1 - first)

/-- Whether a file has a line of the given number. -/
def HasLine (file : SourceFile) (line : Nat) : Prop := 1 ≤ line ∧ line ≤ file.lines.length

end SourceFile

/-- A declaration of a file: its id is that of its coordinates, and it begins on a line of the file. -/
structure Declaration.Fits (file : SourceFile) (d : Declaration) : Prop where
  id : d.id = Identity.entity file.repoId file.path d.kind.name d.name d.signature
  kind : d.kind ∈ EntityKind.known
  start : file.HasLine d.startLine
  ending : ∀ n ∈ d.endLine, n ≤ file.lines.length

/-- The kinds of the edges that are recorded while a file is walked. -/
def EdgeKind.linking : List EdgeKind := [implementing, extending, memberOf]

theorem EdgeKind.linking_subset_known : linking ⊆ known := by decide

/-- An edge that leads from one of the given ids to another. -/
structure Edge.IsLink (repoId : String) (ids : List String) (e : Edge) : Prop where
  source : e.fromId ∈ ids
  target : e.fromId ≠ e.toId
  kind : e.kind ∈ EdgeKind.linking
  conforms : e.Conforms repoId

namespace FileScan

/-- The ids of the declarations. -/
def ids (s : FileScan) : List String := s.decls.map (·.id)

/-- What holds of a scan all along the walk. The ids in `held` are those of declarations that the walk still refers to. -/
structure Sound (file : SourceFile) (held : List String) (s : FileScan) : Prop where
  ofFile : s.file = file
  ofLines : s.lines = file.lines
  distinct : s.ids.Nodup
  fits : ∀ d ∈ s.decls, d.Fits file
  links : ∀ e ∈ s.edges, e.IsLink file.repoId s.ids
  held : ∀ id ∈ held, id ∈ s.ids

/-- Before anything is recorded, what has been recorded is sound. -/
theorem sound_start (file : SourceFile) (noise : Noise) : (start file noise).Sound file [] where
  ofFile := rfl
  ofLines := rfl
  distinct := List.nodup_nil
  fits := fun _ h => nomatch h
  links := fun _ h => nomatch h
  held := fun _ h => nomatch h

namespace Sound

variable {file : SourceFile} {held : List String} {s : FileScan}

/-- Fewer declarations may be referred to. -/
theorem mono (h : s.Sound file held) {held' : List String} (hsub : ∀ id ∈ held', id ∈ held) : s.Sound file held' :=
  { h with held := fun id hid => h.held id (hsub id hid) }

/-- What is sound with some ids at hand is sound without them. -/
theorem drop (h : s.Sound file held) : s.Sound file [] := h.mono fun _ hid => nomatch hid

/-- It is sound without the last of them. -/
theorem tail {id : String} (h : s.Sound file (id :: held)) : s.Sound file held := h.mono fun _ => List.mem_cons_of_mem id

/-- A draft with whatever is known beside its coordinates is a declaration of the file. -/
theorem fits_draft (h : s.Sound file held) {d : Declaration} {line : Nat} (hline : file.HasLine line)
    (hkind : EntityKind.known.contains d.kind = true)
    (hdraft : (d.id, d.startLine, d.endLine) = (s.localId d.kind d.name d.signature, line, none)) : d.Fits file := by
  rw [Prod.mk.injEq, Prod.mk.injEq] at hdraft
  obtain ⟨hid, hstart, hending⟩ := hdraft
  refine ⟨?_, List.contains_iff_mem.1 hkind, hstart ▸ hline, ?_⟩
  · rw [hid, localId, idIn, h.ofFile]
  · intro n hn
    rw [hending] at hn
    nomatch hn

/-- Recording a declaration adds its id to those that the walk may refer to. -/
theorem declare (h : s.Sound file held) {d : Declaration} (hd : d.Fits file) :
    (s.declare d).1.Sound file ((s.declare d).2.id :: held) := by
  unfold FileScan.declare
  split
  · rename_i e he
    refine { h with held := fun id hid => ?_ }
    rcases List.mem_cons.1 hid with rfl | hid
    · exact List.mem_map_of_mem (List.mem_of_find?_eq_some he)
    · exact h.held id hid
  · rename_i hnone
    have hnew : d.id ∉ s.ids := by
      intro hmem
      obtain ⟨e, he, hid⟩ := List.mem_map.1 hmem
      exact List.find?_eq_none.1 hnone e he (beq_iff_eq.2 hid)
    have hids : ∀ id, id ∈ (s.decls ++ [d]).map (·.id) ↔ id ∈ s.ids ∨ id = d.id := by
      intro id
      rw [List.map_append, List.mem_append, List.map_singleton, List.mem_singleton]
      exact Iff.rfl
    refine ⟨h.ofFile, h.ofLines, ?_, ?_, ?_, ?_⟩
    · show ((s.decls ++ [d]).map (·.id)).Nodup
      rw [List.map_append, List.map_singleton, List.nodup_append]
      refine ⟨h.distinct, List.nodup_cons.2 ⟨List.not_mem_nil, List.nodup_nil⟩, ?_⟩
      intro id hid id' hid' e
      rw [List.mem_singleton] at hid'
      exact hnew (hid' ▸ e ▸ hid)
    · intro e he
      rcases List.mem_append.1 he with he | he
      · exact h.fits e he
      · rw [List.mem_singleton] at he
        exact he ▸ hd
    · exact fun e he => { h.links e he with source := (hids _).2 (Or.inl (h.links e he).source) }
    · intro id hid
      rcases List.mem_cons.1 hid with rfl | hid
      · exact (hids _).2 (Or.inr rfl)
      · exact (hids _).2 (Or.inl (h.held id hid))

/-- What is recorded of a declaration may change, except for its id. -/
theorem modify (h : s.Sound file held) {id : String} {f : Declaration → Declaration} (hid : ∀ d, (f d).id = d.id)
    (hf : ∀ d, d.Fits file → (f d).Fits file) : (s.modify id f).Sound file held := by
  have hids : (s.modify id f).ids = s.ids := by
    rw [ids, ids, FileScan.modify, List.map_map]
    refine List.map_congr_left fun d _ => ?_
    rw [Function.comp_apply]
    split
    · exact hid d
    · rfl
  refine ⟨h.ofFile, h.ofLines, hids ▸ h.distinct, ?_, hids ▸ h.links, hids ▸ h.held⟩
  intro d hd
  obtain ⟨d', hd', rfl⟩ := List.mem_map.1 hd
  split
  · exact hf d' (h.fits d' hd')
  · exact h.fits d' hd'

/-- A link may lead from a declaration that the walk refers to, to whatever id. -/
theorem link (h : s.Sound file held) {fromId toId : String} {kind : EdgeKind} (hfrom : fromId ∈ held)
    (hkind : EdgeKind.linking.contains kind = true) : (s.link fromId toId kind).Sound file held := by
  unfold FileScan.link
  split
  · exact h
  · rename_i hne
    refine { h with links := fun e he => ?_ }
    rcases List.mem_append.1 he with he | he
    · exact h.links e he
    · rw [List.mem_singleton] at he
      subst he
      have hrepo : s.file.repoId = file.repoId := congrArg SourceFile.repoId h.ofFile
      have hlinking : kind ∈ EdgeKind.linking := List.contains_iff_mem.1 hkind
      exact ⟨h.held fromId hfrom, hne, hlinking, hrepo, EdgeKind.linking_subset_known hlinking, Binary64.inUnitInterval_one⟩

/-- Linking a member to its owner keeps what has been recorded sound. -/
theorem memberOf (h : s.Sound file held) {member owner : Declaration} (hmember : member.id ∈ held) :
    (s.memberOf member owner).Sound file held := by
  have hparent : (s.modify member.id fun d => { d with parent := some owner.name }).Sound file held :=
    h.modify (fun _ => rfl) fun _ hd => ⟨hd.id, hd.kind, hd.start, hd.ending⟩
  exact hparent.link hmember rfl

/-- A member is recorded and linked from its type at once. -/
theorem declareMember (h : s.Sound file held) {d : Declaration} (hd : d.Fits file) (owner : Declaration) :
    ((s.declare d).1.memberOf (s.declare d).2 owner).Sound file ((s.declare d).2.id :: held) :=
  memberOf (h.declare hd) List.mem_cons_self

end Sound

end FileScan

/-- What reading a file makes of a declaration: an entity with the id of its coordinates that covers lines of the file. -/
structure Entity.ReadFrom (file : SourceFile) (e : Entity) : Prop where
  repo : e.repoId = file.repoId
  path : e.filePath = file.path
  id : e.id = Identity.entity e.repoId e.filePath e.kind.name e.name e.signature
  kind : e.kind ∈ EntityKind.known
  first : 1 ≤ e.startLine
  range : e.startLine ≤ e.endLine
  last : e.endLine ≤ file.lines.length
  body : 1 ≤ file.maxBodyLines → e.body = some (String.ofList (Text.join "\n"
    (file.linesBetween e.startLine.toNat (min e.endLine.toNat (e.startLine.toNat + file.maxBodyLines - 1)))))

/-- What reading a file gives. -/
structure Fragment.WellFormed (file : SourceFile) (f : Fragment) : Prop where
  distinct : (f.entities.map (·.id)).Nodup
  ordered : (f.entities.map (·.startLine)).Pairwise (· ≤ ·)
  entity : ∀ e ∈ f.entities, e.ReadFrom file
  links : (f.edges.map Edge.link).Nodup
  edge : ∀ e ∈ f.edges, e.Conforms file.repoId
  source : ∀ e ∈ f.edges, e.fromId = Identity.file file.repoId file.path ∨ e.fromId ∈ f.entities.map (·.id)
  /-- Only an import of the file may lead to where it comes from, and then to other coordinates: two digests of different bytes agree. -/
  target : ∀ e ∈ f.edges, e.fromId = e.toId → e.kind = .imports ∧ e.fromId = Identity.file file.repoId file.path ∧
    e.LeadsAway file.repoId file.path

theorem FileScan.mem_entities_iff {s : FileScan} {decision : Pattern} {doc : DocStyle} {e : Entity} :
    e ∈ s.entities decision doc ↔ ∃ d ∈ s.decls, s.toEntity decision doc d = e := by
  simp [FileScan.entities]

/-- A link of another kind than imports and calls is found exactly if it was recorded on the way. -/
theorem FileScan.exists_link_finish_iff {s : FileScan} {decision : Pattern} {doc : DocStyle} {imports : List Edge}
    {callTargets : List EntityKind} (himports : ∀ e ∈ imports, e.kind = .imports) {fromId toId : String} {kind : EdgeKind}
    (hkind : ¬ [EdgeKind.imports, EdgeKind.calls].contains kind) :
    (∃ e ∈ (s.finish decision doc imports callTargets).edges, e.link = (fromId, toId, kind)) ↔
      ∃ e ∈ s.edges, e.link = (fromId, toId, kind) := by
  constructor
  · rintro ⟨e, he, hlink⟩
    obtain ⟨-, -, rfl⟩ : e.fromId = fromId ∧ e.toId = toId ∧ e.kind = kind := by simpa [Edge.link] using hlink
    refine ⟨e, ?_, hlink⟩
    rcases List.mem_append.1 (Calls.mem_of_mem_firstByKey he) with he | he
    · rcases List.mem_append.1 he with he | he
      · exact absurd (by simp [himports e he]) hkind
      · exact he
    · exact absurd (by simp [(Calls.isCall_of_mem_withinFile he).kind]) hkind
  · rintro ⟨e, he, hlink⟩
    have hall : e ∈ imports ++ s.edges ++ Calls.withinFile callTargets (s.entities decision doc) := by simp [he]
    obtain ⟨x, hx, heq⟩ : ∃ x ∈ Calls.distinctLinks _, x.link = e.link := Calls.key_mem_firstByKey hall
    exact ⟨x, hx, heq.trans hlink⟩

namespace FileScan.Sound

variable {file : SourceFile} {held : List String} {s : FileScan}

/-- A declaration ends within its file. -/
theorem endLine_le (h : s.Sound file held) {d : Declaration} (hd : d.Fits file) : s.endLine d ≤ file.lines.length := by
  have hblock : d.block.endLine s.noise s.lines d.startLine ≤ file.lines.length := by
    rw [h.ofLines]
    exact d.block.endLine_le s.noise hd.start.1 hd.start.2
  have hgetD : d.endLine.getD (d.block.endLine s.noise s.lines d.startLine) ≤ file.lines.length := by
    cases hending : d.endLine with
    | none => exact hblock
    | some n => exact hd.ending n hending
  exact Nat.max_le.2 ⟨hgetD, hd.start.2⟩

/-- The body of a declaration is the lines from its first to its last, or to as many as the limit allows. -/
theorem bodyLines_eq (h : s.Sound file held) (d : Declaration) (hmax : 1 ≤ file.maxBodyLines) :
    s.bodyLines d = file.linesBetween d.startLine (min (s.endLine d) (d.startLine + file.maxBodyLines - 1)) := by
  have hcount : min (s.endLine d + 1 - d.startLine) file.maxBodyLines =
      min (s.endLine d) (d.startLine + file.maxBodyLines - 1) + 1 - d.startLine := by omega
  rw [bodyLines, SourceFile.linesBetween, h.ofLines, h.ofFile, hcount]

/-- Its entity is read from the file. -/
theorem readFrom_toEntity (h : s.Sound file held) (decision : Pattern) (doc : DocStyle) {d : Declaration} (hd : d.Fits file) :
    (s.toEntity decision doc d).ReadFrom file := by
  have hrange : d.startLine ≤ s.endLine d := Nat.le_max_right _ _
  have hlast := h.endLine_le hd
  have hfirst := hd.start.1
  refine ⟨congrArg SourceFile.repoId h.ofFile, congrArg SourceFile.path h.ofFile, ?_, hd.kind, ?_, ?_, ?_, ?_⟩
  · have hrepo : (s.toEntity decision doc d).repoId = file.repoId := congrArg SourceFile.repoId h.ofFile
    have hpath : (s.toEntity decision doc d).filePath = file.path := congrArg SourceFile.path h.ofFile
    rw [hrepo, hpath]
    exact hd.id
  · show 1 ≤ (d.startLine : Int)
    omega
  · show (d.startLine : Int) ≤ s.endLine d
    omega
  · show (s.endLine d : Int) ≤ file.lines.length
    omega
  · intro hmax
    have hsome : (s.bodyLines d).isEmpty = false := by
      rw [List.isEmpty_eq_false_iff_exists_mem]
      refine List.exists_mem_of_length_pos ?_
      rw [h.bodyLines_eq d hmax, SourceFile.linesBetween, List.length_take, List.length_drop]
      omega
    have hbody : (s.toEntity decision doc d).body = some (String.ofList (Text.join "\n" (s.bodyLines d))) := by
      unfold toEntity
      dsimp only
      rw [hsome]
      rfl
    rw [hbody, h.bodyLines_eq d hmax]
    rfl

/-- The ids of the entities are those of the declarations. -/
theorem map_id_entities (s : FileScan) (decision : Pattern) (doc : DocStyle) :
    ((s.entities decision doc).map (·.id)).Perm s.ids := by
  rw [entities, List.map_map]
  exact (List.mergeSort_perm _ _).map _

/-- The entities are in the order of their lines. -/
theorem ordered_entities (s : FileScan) (decision : Pattern) (doc : DocStyle) :
    ((s.entities decision doc).map (·.startLine)).Pairwise (· ≤ ·) := by
  have hsorted : (s.decls.mergeSort fun a b => decide (a.startLine ≤ b.startLine)).Pairwise
      fun a b => decide (a.startLine ≤ b.startLine) = true := by
    refine List.pairwise_mergeSort ?_ ?_ s.decls
    · intro a b c hab hbc
      exact decide_eq_true (Nat.le_trans (of_decide_eq_true hab) (of_decide_eq_true hbc))
    · intro a b
      rw [Bool.or_eq_true, decide_eq_true_iff, decide_eq_true_iff]
      exact Nat.le_total a.startLine b.startLine
  rw [entities, List.map_map, List.pairwise_map]
  refine hsorted.imp fun {a b} hab => ?_
  show (a.startLine : Int) ≤ b.startLine
  exact Int.ofNat_le.2 (of_decide_eq_true hab)

/-- Every edge that is found in a file is an import, or a link recorded on the way, or a call. -/
theorem cases_of_mem_edges_finish (h : s.Sound file held) {decision : Pattern} {doc : DocStyle} {imports : List Edge}
    {callTargets : List EntityKind} {e : Edge} (he : e ∈ (s.finish decision doc imports callTargets).edges) :
    e ∈ imports ∨ e.IsLink file.repoId s.ids ∨ e.IsCall (s.entities decision doc) := by
  rcases List.mem_append.1 (Calls.mem_of_mem_firstByKey he) with he | he
  · exact (List.mem_append.1 he).imp_right fun he => Or.inl (h.links e he)
  · exact Or.inr (Or.inr (Calls.isCall_of_mem_withinFile he))

/-- A sound scan of a file becomes a well-formed fragment. -/
theorem wellFormed_finish (h : s.Sound file []) (decision : Pattern) (doc : DocStyle) {imports : List Edge}
    (himports : ∀ e ∈ imports, e.IsImport file.repoId file.path) (callTargets : List EntityKind) :
    (s.finish decision doc imports callTargets).WellFormed file := by
  have hids := map_id_entities s decision doc
  have hentity : ∀ e ∈ s.entities decision doc, e.ReadFrom file := by
    intro e he
    obtain ⟨d, hd, rfl⟩ := List.mem_map.1 he
    exact h.readFrom_toEntity decision doc (h.fits d (List.mem_mergeSort.1 hd))
  have hcases : ∀ e ∈ (s.finish decision doc imports callTargets).edges, e.IsImport file.repoId file.path ∨
      e.IsLink file.repoId s.ids ∨ e.IsCall (s.entities decision doc) :=
    fun e he => (h.cases_of_mem_edges_finish he).imp_left (himports e)
  refine ⟨hids.nodup_iff.2 h.distinct, ordered_entities s decision doc, hentity, Calls.nodup_firstByKey _, ?_, ?_, ?_⟩
  · intro e he
    rcases hcases e he with hi | hl | hc
    · refine ⟨hi.repo, ?_, hi.confidence⟩
      rw [hi.kind]
      decide
    · exact hl.conforms
    · obtain ⟨caller, hcaller, -, hrepo⟩ := hc.source
      refine ⟨hrepo.trans (hentity caller hcaller).repo, ?_, hc.confidence⟩
      rw [hc.kind]
      decide
  · intro e he
    rcases hcases e he with hi | hl | hc
    · exact Or.inl hi.source
    · exact Or.inr (hids.mem_iff.2 hl.source)
    · obtain ⟨caller, hcaller, hid, -⟩ := hc.source
      exact Or.inr (hid ▸ List.mem_map_of_mem hcaller)
  · intro e he hself
    rcases hcases e he with hi | hl | hc
    · exact ⟨hi.kind, hi.source, hi.target⟩
    · exact absurd hself hl.target
    · exact absurd hself hc.target

end FileScan.Sound

/-- What comes of finishing a sound scan of a file, with the edges of some imports that are resolved in a given way. -/
def Fragment.Finishes (file : SourceFile) (resolve : Resolver) (found : Fragment) : Prop :=
  ∃ scan decision doc statements callTargets, FileScan.Sound file [] scan ∧
    found = scan.finish decision doc (importEdges file.repoId file.path file.language resolve statements) callTargets

namespace Fragment.Finishes

variable {file : SourceFile} {resolve : Resolver} {found : Fragment}

/-- What finishes a file is well-formed. -/
theorem wellFormed (h : found.Finishes file resolve) : found.WellFormed file := by
  obtain ⟨scan, decision, doc, statements, callTargets, hscan, rfl⟩ := h
  exact hscan.wellFormed_finish decision doc (fun _ => isImport_of_mem_importEdges) callTargets

/-- The import edges among what is found are those of import statements. -/
theorem mem_importEdges (h : found.Finishes file resolve) {e : Edge} (he : e ∈ found.edges) (hkind : e.kind = .imports) :
    ∃ statements, e ∈ importEdges file.repoId file.path file.language resolve statements := by
  obtain ⟨scan, decision, doc, statements, callTargets, hscan, rfl⟩ := h
  rcases hscan.cases_of_mem_edges_finish he with himport | hlink | hcall
  · exact ⟨statements, himport⟩
  · have hlinking := hlink.kind
    rw [hkind] at hlinking
    exact absurd hlinking (by decide)
  · exact absurd (hkind.symm.trans hcall.kind) (by decide)

end Fragment.Finishes

end CodeAtlas
