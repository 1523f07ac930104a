import CodeAtlas.Proofs.Graph.Structure
import CodeAtlas.Proofs.NormalPath
import CodeAtlas.Workspace.Scan

/-!
# Names in a workspace

The entries of a workspace go by names. A directory lists each of them once, and what a scan finds has a path of names, so a path in
normal form.
-/

namespace CodeAtlas

namespace WorkspaceTree

variable {t : WorkspaceTree} {l : Location}

/-- The entries of a tree go by names. -/
def Named (t : WorkspaceTree) : Prop := ∀ e ∈ t.entries, ∀ s ∈ e.1, Path.IsName s

/-- No name is listed twice in a directory of a tree. -/
theorem nodup_names (t : WorkspaceTree) (l : Location) : (t.names l).Nodup :=
  (List.mergeSort_perm _ _).nodup_iff.2 (nodup_eraseDups _)

/-- Every name that a tree of named entries lists is the name of one path segment. -/
theorem Named.isName_of_mem_names (h : t.Named) {n : String} (hn : n ∈ t.names l) : Path.IsName n := by
  obtain ⟨e, he, hn⟩ := List.mem_filterMap.1 (List.mem_eraseDups.1 (List.mem_mergeSort.1 hn))
  split at hn
  · exact h e he n (List.mem_of_getElem? hn)
  · nomatch hn

/-- Down from a location these names lead through directories to something, and no link is on the way. -/
def IsStraight (t : WorkspaceTree) (l names : Location) : Prop :=
  ∀ ds, ds <+: names → ∃ e, t.entry? (l ++ ds) = some e ∧ (∀ target, e ≠ .link target) ∧ (ds ≠ names → e = .directory)

/-- Where no link is on the way, names lead to where they say. -/
theorem IsStraight.walk_eq {names : Location} (h : t.IsStraight l names) (hnames : ∀ s ∈ names, Path.IsName s) (links : Nat) :
    t.walk links l names = some (l ++ names) := by
  induction names generalizing l with
  | nil => rw [walk, List.append_nil]
  | cons s names ih =>
    have hs := hnames s List.mem_cons_self
    have hrest : t.IsStraight (l ++ [s]) names := by
      intro ds hds
      obtain ⟨e, he, hlink, hdir⟩ := h (s :: ds) ((List.prefix_cons_inj s).2 hds)
      rw [List.append_assoc]
      exact ⟨e, he, hlink, fun hne => hdir fun e => hne (List.cons.inj e).2⟩
    obtain ⟨e, he, -, hdir⟩ := h [] List.nil_prefix
    obtain rfl := hdir (List.cons_ne_nil s names).symm
    rw [List.append_nil] at he
    obtain ⟨e, hchild, hlink, -⟩ := h [s] ((List.prefix_cons_inj s).2 List.nil_prefix)
    have hstep : t.walk links l (s :: names) = t.walk links (l ++ [s]) names := by
      rw [walk, he]
      dsimp only
      rw [if_neg (not_or.2 ⟨hs.ne_empty, hs.ne_dot⟩), if_neg hs.ne_dots, hchild]
      cases e with
      | link target => exact absurd rfl (hlink target)
      | file content => rfl
      | directory => rfl
    rw [hstep, ih hrest fun s' hs' => hnames s' (List.mem_cons_of_mem s hs'), List.append_assoc, List.singleton_append]

end WorkspaceTree

namespace Workspace

variable {w : Workspace}

/-- The entries of a workspace go by names, and so do the files that version control lists. -/
structure Named (w : Workspace) : Prop where
  tree : w.tree.Named
  tracked : ∀ paths, w.tracked = some paths → ∀ p ∈ paths, p ≠ "" → ∀ s ∈ Path.segments p, Path.IsName s

/-- No name is listed twice in a directory of the workspace. -/
theorem nodup_names (w : Workspace) (dir : String) : (w.names dir).Nodup := by
  unfold names
  split
  · exact w.tree.nodup_names _
  · exact List.nodup_nil

/-- Every name that a workspace of named entries lists is the name of one path segment. -/
theorem Named.isName_of_mem_names (h : w.Named) {dir n : String} (hn : n ∈ w.names dir) : Path.IsName n := by
  unfold names at hn
  split at hn
  · exact h.tree.isName_of_mem_names hn
  · nomatch hn

/-- Every segment of a path to a leaf is a name. -/
theorem Named.isName_of_mem_leaves (h : w.Named) {p s : String} (hp : p ∈ w.leaves) (hs : s ∈ Path.segments p) : Path.IsName s := by
  unfold leaves at hp
  split at hp
  · nomatch hp
  · rename_i b _
    obtain ⟨e, he, hleaf⟩ := List.mem_filterMap.1 hp
    have hnames : ∀ s ∈ e.1.drop b.length, Path.IsName s := fun s hs => h.tree e he s (List.mem_of_mem_drop hs)
    split at hleaf
    · nomatch hleaf
    · split at hleaf
      · rename_i hbelow
        rw [Bool.and_eq_true, List.isPrefixOf_iff_prefix, bne_iff_ne] at hbelow
        obtain ⟨⟨rest, hrest⟩, hne⟩ := hbelow
        rw [← hrest, List.drop_left] at hleaf hnames
        obtain rfl := Option.some.inj hleaf
        have hrest' : rest ≠ [] := by
          rintro rfl
          exact hne ((List.append_nil b).symm.trans hrest).symm
        rw [Path.segments_ofSegments (Path.plain_of_isName hnames) hrest'] at hs
        exact hnames s hs
      · nomatch hleaf

/-- Where the scan finds a file, the root of the workspace is a directory. -/
theorem exists_base_of_mem_scan {f : ScannedFile} (h : f ∈ w.scan) : ∃ b, w.base = some b := by
  obtain ⟨p, hp, rfl⟩ := List.mem_map.1 h
  have hfile := (Bool.and_eq_true_iff.1 (List.mem_filter.1 hp).2).2
  unfold isFile at_ locate at hfile
  cases hbase : w.base with
  | none =>
    rw [hbase] at hfile
    nomatch hfile
  | some b => exact ⟨b, rfl⟩

/-- What a scan finds has a path of names. -/
theorem Named.isName_of_mem_scan (h : w.Named) {f : ScannedFile} (hf : f ∈ w.scan) {s : String} (hs : s ∈ Path.segments f.path) :
    Path.IsName s := by
  obtain ⟨p, hp, rfl⟩ := List.mem_map.1 hf
  have hcandidate := List.mem_eraseDups.1 (List.mem_mergeSort.1 (List.mem_filter.1 hp).1)
  unfold candidates at hcandidate
  split at hcandidate
  · rename_i paths htracked
    obtain ⟨hmem, hne⟩ := List.mem_filter.1 hcandidate
    exact h.tracked paths htracked p hmem (fun e => by simp [e] at hne) s hs
  · exact h.isName_of_mem_leaves (List.mem_filter.1 hcandidate).1 hs

end Workspace

end CodeAtlas
