import CodeAtlas.Proofs.SymbolIndex.Resolve
import CodeAtlas.Proofs.Workspace.Names
import CodeAtlas.Workspace.Packages
import Mathlib.Data.List.Infix
import Mathlib.Data.List.Nodup

/-!
# Where the packages are

A pattern of a manifest leads to directories of the workspace, spelled as the pattern spells them. The index of a package is put at that
spelling, whereas a scan lists every file under the names that lead to it. So a file that is in an index is recognised in the scan exactly
if its package is spelled in normal form and no link or climb is on the way to it. Two patterns that lead to one directory list it twice.
-/

namespace CodeAtlas

open WorkspaceTree (plain)

namespace PackageRoots

variable {w : Workspace} {p r : String}

/-- The directory that a pattern is about, as the pattern spells it. -/
def spelled (pattern : String) : String := String.ofList (patternBase (Text.strip pattern.text)).1

/-- Whether a pattern means the directories in the one that it is about. -/
def meansInside (pattern : String) : Bool := (patternBase (Text.strip pattern.text)).2

/-- A pattern that leads down from the workspace or above it, and not from the root of the file system. -/
def IsRelativePattern (pattern : String) : Prop := Path.IsRelative (String.ofList (Text.strip pattern.text))

/-- Whether a pattern is relative is decided by its characters. -/
instance : DecidablePred IsRelativePattern := fun p => inferInstanceAs (Decidable (Path.IsRelative (String.ofList (Text.strip p.text))))

/-- Whether a pattern names no directory: nothing but blanks does not, and neither does a negation or a star in the middle. -/
def namesNone (pattern : String) : Bool :=
  (Text.strip pattern.text).isEmpty || (Text.strip pattern.text).startsWith "!" || (patternBase (Text.strip pattern.text)).1.contains '*'

/-- Whether a pattern is about a directory of the workspace. -/
def applies (w : Workspace) (pattern : String) : Bool := !(namesNone pattern || !w.isDirectory (spelled pattern))

/-- A pattern applies if it names something and a directory is where it points. -/
theorem applies_iff : applies w p = true ↔ namesNone p = false ∧ w.isDirectory (spelled p) = true := by
  rw [applies, Bool.not_eq_true', Bool.or_eq_false_iff, Bool.not_eq_false']

/-- The roots of a pattern are the directories inside the one that it names, or that one itself. -/
theorem ofPattern_eq (w : Workspace) (p : String) : ofPattern w p =
    if applies w p then
      if meansInside p then
        ((w.names (spelled p)).filter fun n => w.isDirectory (Path.join (spelled p) n)).map fun n => spelled p ++ "/" ++ n
      else [spelled p]
    else [] := by
  unfold ofPattern applies namesNone meansInside spelled
  dsimp only
  split
  · rename_i h
    rw [h]
    rfl
  · rename_i h
    rw [Bool.not_eq_true] at h
    rw [h, Bool.not_false, if_pos rfl, List.filterMap_map, ← List.filterMap_eq_map, List.filterMap_filter]
    rfl

/-- So it is told of a single root. -/
theorem mem_ofPattern_iff : r ∈ ofPattern w p ↔ applies w p = true ∧
    if meansInside p then ∃ n ∈ w.names (spelled p), w.isDirectory (Path.join (spelled p) n) = true ∧ spelled p ++ "/" ++ n = r
    else r = spelled p := by
  rw [ofPattern_eq]
  by_cases happlies : applies w p = true
  · rw [if_pos happlies, and_iff_right happlies]
    split
    · simp only [List.mem_map, List.mem_filter, and_assoc]
    · exact List.mem_singleton
  · rw [if_neg happlies]
    exact iff_of_false List.not_mem_nil fun h => happlies h.1

/-- No pattern lists a directory twice. -/
theorem nodup_ofPattern (w : Workspace) (p : String) : (ofPattern w p).Nodup := by
  rw [ofPattern_eq]
  split
  · split
    · exact ((w.nodup_names _).filter _).map fun _ _ e => (String.append_right_inj _).1 e
    · exact List.nodup_singleton _
  · exact List.nodup_nil

/-- The directory of a pattern is how it begins. -/
theorem patternBase_prefix (t : Text) : (patternBase t).1 <+: t := by
  unfold patternBase
  split
  · exact (Text.trimRight_prefix _ _).trans (Text.trimRight_prefix _ _)
  · exact Text.trimRight_prefix _ _

/-- It does not end in a slash. -/
theorem getLast?_patternBase (t : Text) : (patternBase t).1.getLast? ≠ some '/' := by
  unfold patternBase
  split <;> exact Path.getLast?_trimRight _

/-- The directory of a relative pattern is not empty: the slash before the stars is none of them. -/
theorem patternBase_ne_nil {t : Text} (h : t.head? ≠ some '/') (hne : t ≠ []) : (patternBase t).1 ≠ [] := by
  have htrim : ∀ u : Text, u <+: t → u ≠ [] → Text.trimRight (· == '/') u ≠ [] := by
    intro u hbegins hu htrim
    obtain ⟨c, r, rfl⟩ := List.exists_cons_of_ne_nil hu
    obtain ⟨rest, rfl⟩ := hbegins
    have hc := List.rdropWhile_eq_nil_iff.1 htrim c List.mem_cons_self
    rw [beq_iff_eq.1 hc] at h
    exact h rfl
  unfold patternBase
  split
  · rename_i hinside
    refine htrim _ (Text.trimRight_prefix _ _) fun hstars => ?_
    obtain ⟨ending, hmem, hends⟩ := List.any_eq_true.1 hinside
    have hslash : '/' ∈ t := (List.isSuffixOf_iff_suffix.1 hends).subset (by rcases List.mem_pair.1 hmem with rfl | rfl <;> decide)
    nomatch List.rdropWhile_eq_nil_iff.1 hstars '/' hslash
  · exact htrim t List.prefix_rfl hne

/-- The directory of a relative pattern is spelled as a path of a directory. -/
theorem isDirectoryPath_spelled (hp : IsRelativePattern p) (happlies : applies w p = true) : Path.IsDirectoryPath (spelled p) := by
  have hne : Text.strip p.text ≠ [] := by
    intro e
    have hnone := (applies_iff.1 happlies).1
    rw [namesNone, e] at hnone
    nomatch hnone
  have hpattern : (String.ofList (Text.strip p.text)).text = Text.strip p.text := String.toList_ofList
  have htext : (spelled p).text = (patternBase (Text.strip p.text)).1 := String.toList_ofList
  have hhead := Path.isRelative_iff.1 hp
  rw [hpattern] at hhead
  refine ⟨hp.of_prefix ?_, fun e => patternBase_ne_nil hhead hne (String.ofList_eq_empty_iff.1 e), ?_⟩
  · rw [htext, hpattern]
    exact patternBase_prefix _
  · rw [htext]
    exact getLast?_patternBase _

/-- A directory that a relative pattern lists is the one that it is about, or a name in that. -/
theorem spelled_or_name_of_mem (hw : w.Named) (hp : IsRelativePattern p) (hr : r ∈ ofPattern w p) :
    Path.IsDirectoryPath (spelled p) ∧ w.isDirectory r = true ∧
      (meansInside p = false ∧ r = spelled p ∨
        meansInside p = true ∧ ∃ n, Path.IsName n ∧ r = spelled p ++ "/" ++ n) := by
  obtain ⟨happlies, hr⟩ := mem_ofPattern_iff.1 hr
  have hspelled := isDirectoryPath_spelled hp happlies
  refine ⟨hspelled, ?_⟩
  split at hr
  · rename_i hinside
    obtain ⟨n, hn, hdir, rfl⟩ := hr
    have hname := hw.isName_of_mem_names hn
    rw [hspelled.join_name hname] at hdir
    exact ⟨hdir, Or.inr ⟨hinside, n, hname, rfl⟩⟩
  · rename_i hinside
    subst hr
    exact ⟨(applies_iff.1 happlies).2, Or.inl ⟨Bool.not_eq_true _ ▸ hinside, rfl⟩⟩

/-- What a relative pattern lists is in normal form if the pattern is so spelled, unless it looks inside a mere dot. -/
theorem normalize_eq_iff_of_mem (hw : w.Named) (hp : IsRelativePattern p) (hr : r ∈ ofPattern w p) :
    Path.normalize r = r ↔ Path.normalize (spelled p) = spelled p ∧ (meansInside p = true → spelled p ≠ ".") := by
  obtain ⟨hspelled, -, ⟨hinside, rfl⟩ | ⟨hinside, n, hname, rfl⟩⟩ := spelled_or_name_of_mem hw hp hr
  · rw [hinside]
    exact (and_iff_left nofun).symm
  · rw [Path.normalize_append_name_iff hspelled.relative hspelled.ne_empty hname, imp_iff_right hinside]

/-- A root of a relative pattern is the path of a directory. -/
theorem isDirectoryPath_of_mem (hw : w.Named) (hp : IsRelativePattern p) (hr : r ∈ ofPattern w p) : Path.IsDirectoryPath r := by
  obtain ⟨hspelled, -, ⟨-, rfl⟩ | ⟨-, n, hname, rfl⟩⟩ := spelled_or_name_of_mem hw hp hr
  · exact hspelled
  · exact hspelled.append_name hname

/-! ## Files of a package -/

/-- A path leads where its names say, past no link and without climbing. -/
def LeadsStraight (w : Workspace) (path : String) : Prop := w.locate path = w.base.map (· ++ plain path)

/-- A path of names that meets no link leads straight to its directory. -/
theorem leadsStraight_of_isStraight {b : Location} (hbase : w.base = some b) (hr : Path.IsRelative r)
    (hnames : ∀ s ∈ plain r, Path.IsName s) (h : w.tree.IsStraight b (plain r)) : LeadsStraight w r := by
  rw [LeadsStraight, Workspace.locate, hbase, Option.bind_some, Option.map_some, WorkspaceTree.locate,
    if_neg (Bool.eq_false_iff.1 hr), h.walk_eq hnames]

/-- A file that a scan finds lies in the directory that a path leads to: these names lead to it from there. -/
structure LiesIn (w : Workspace) (root : String) (names : Location) (f : ScannedFile) : Prop where
  scanned : f ∈ w.scan
  ne_nil : names ≠ []
  isName : ∀ s ∈ names, Path.IsName s
  location : (w.locate root).map (· ++ names) = w.base.map (· ++ plain f.path)

/-- Whichever documents the index of a package has, it covers a file exactly if one of them goes by these names. -/
def Recognised (place : IndexedSymbols.Place) (names : Location) (f : ScannedFile) : Prop :=
  ∀ docs, f.path ∈ (IndexedSymbols.ofDocuments place docs).coveredFiles ↔ ∃ d ∈ docs, d.path = Path.ofSegments names

variable {names : Location} {f : ScannedFile} {place : IndexedSymbols.Place}

/-- A file of a package lies below its root, unless the root is the workspace itself. -/
theorem path_eq_append (hr : Path.IsDirectoryPath place.root) (hdot : place.root ≠ ".") (relative : String) :
    place.path relative = place.root ++ "/" ++ relative := by
  unfold IndexedSymbols.Place.path
  rw [if_neg (by simp [hr.ne_empty, hdot]), hr.trimRight, String.ofList_toList]

/-- A file of a package lies in the workspace at the place of its root. -/
theorem LiesIn.exists_location (h : LiesIn w r names f) (hw : w.Named) :
    ∃ b l, w.base = some b ∧ w.locate r = some l ∧ l ++ names = b ++ Path.segments f.path := by
  obtain ⟨b, hbase⟩ := Workspace.exists_base_of_mem_scan h.scanned
  have hplain : plain f.path = Path.segments f.path := Path.plain_eq_segments_of_isName fun s hs => hw.isName_of_mem_scan h.scanned hs
  have hlocation := h.location
  rw [hbase, hplain, Option.map_some, Option.map_eq_some_iff] at hlocation
  obtain ⟨l, hl, hnames⟩ := hlocation
  exact ⟨b, l, hbase, hl, hnames⟩

/-- A file has the path in its package's index that a scan lists it under exactly if the package is spelled in normal form and no link or
climb is on the way to it. -/
theorem LiesIn.path_eq_iff (h : LiesIn w place.root names f) (hw : w.Named) (hr : Path.IsDirectoryPath place.root) :
    place.path (Path.ofSegments names) = f.path ↔ Path.normalize place.root = place.root ∧ LeadsStraight w place.root := by
  obtain ⟨b, l, hbase, hl, hlocation⟩ := h.exists_location hw
  have hstraight : LeadsStraight w place.root ↔ l = b ++ plain place.root := by
    rw [LeadsStraight, hl, hbase, Option.map_some, Option.some_inj]
  have hsegments : Path.segments (Path.ofSegments names) = names :=
    Path.segments_ofSegments (Path.plain_of_isName h.isName) h.ne_nil
  rw [hstraight]
  by_cases hdot : place.root = "."
  · have hpath : place.path (Path.ofSegments names) = Path.ofSegments names := by
      rw [IndexedSymbols.Place.path, hdot]
      rfl
    have hnothing : plain "." = [] := by decide
    rw [hpath, hdot, hnothing, List.append_nil, and_iff_right (by decide)]
    constructor
    · intro e
      rw [← e, hsegments] at hlocation
      exact List.append_cancel_right hlocation
    · rintro rfl
      rw [List.append_cancel_left hlocation, Path.ofSegments_segments]
  · rw [path_eq_append hr hdot]
    constructor
    · intro e
      have hparts : Path.segments f.path = Path.segments place.root ++ names := by rw [← e, Path.segments_append, hsegments]
      have hroot : ∀ s ∈ Path.segments place.root, Path.IsName s := fun s hs =>
        hw.isName_of_mem_scan h.scanned (hparts ▸ List.mem_append_left names hs)
      rw [hparts, ← List.append_assoc] at hlocation
      exact ⟨Path.normalize_of_isName hroot, Path.plain_eq_segments_of_isName hroot ▸ List.append_cancel_right hlocation⟩
    · rintro ⟨hnormal, rfl⟩
      rw [Path.plain_eq_segments_of_normalize hr.relative hr.ne_empty hdot hnormal, List.append_assoc] at hlocation
      rw [← Path.ofSegments_segments f.path, ← List.append_cancel_left hlocation,
        Path.ofSegments_append (Path.segments_ne_nil _) h.ne_nil, Path.ofSegments_segments]

/-- A file is recognised if it has the same path in the index as in the scan. -/
theorem recognised_iff : Recognised place names f ↔ place.path (Path.ofSegments names) = f.path := by
  constructor
  · intro h
    obtain ⟨d, hd, hpath⟩ := List.mem_map.1 ((h [⟨Path.ofSegments names, []⟩]).2 ⟨_, List.mem_singleton_self _, rfl⟩)
    rw [List.mem_singleton.1 hd] at hpath
    exact hpath
  · intro h docs
    rw [← h]
    exact List.mem_map.trans (exists_congr fun d => and_congr_right fun _ => ⟨place.path_injective, congrArg place.path⟩)

/-! ## A workspace with one package -/

/-- A workspace with one package, which has one file. -/
def onePackage : Workspace := { tree := ⟨[(["packages", "a", "x.ts"], .file [])]⟩ }

/-- The place of the index of that package, as a pattern spells it. -/
def placeAt (root : String) : IndexedSymbols.Place := { repoId := "r", language := "typescript", root }

/-- The entries of the small workspace have names. -/
theorem named_onePackage : onePackage.Named where
  tree := by
    intro e he
    obtain rfl := List.mem_singleton.1 he
    exact (by decide : ∀ s ∈ ["packages", "a", "x.ts"], Path.IsName s)
  tracked := nofun

/-- A path to a directory of the small workspace leads straight to it. -/
theorem leadsStraight_onePackage {path : String} (hpath : Path.IsRelative path) (h : plain path <+: ["packages", "a", "x.ts"]) :
    LeadsStraight onePackage path := by
  refine leadsStraight_of_isStraight rfl hpath (fun s hs => ?_) fun ds hds => ?_
  · exact (by decide : ∀ s ∈ ["packages", "a", "x.ts"], Path.IsName s) s (h.subset hs)
  · have hmem : ds ∈ [[], ["packages"], ["packages", "a"], ["packages", "a", "x.ts"]] := (List.mem_inits _ _).2 (hds.trans h)
    simp only [List.mem_cons, List.not_mem_nil, or_false] at hmem
    rcases hmem with rfl | rfl | rfl | rfl
    · exact ⟨.directory, rfl, nofun, fun _ => rfl⟩
    · exact ⟨.directory, rfl, nofun, fun _ => rfl⟩
    · exact ⟨.directory, rfl, nofun, fun _ => rfl⟩
    · exact ⟨.file [], rfl, nofun, fun hne => absurd (hds.eq_of_length_le h.length_le) hne⟩

/-- A path that leads to one of its directories is one of a directory. -/
theorem isDirectory_onePackage {path : String} (hpath : Path.IsRelative path) (h : plain path <+: ["packages", "a"]) :
    onePackage.isDirectory path = true := by
  have hlocate := leadsStraight_onePackage hpath (h.trans ⟨["x.ts"], rfl⟩)
  have hmem : plain path ∈ [[], ["packages"], ["packages", "a"]] := (List.mem_inits _ _).2 h
  unfold Workspace.isDirectory Workspace.at_
  rw [hlocate]
  generalize plain path = l at hmem
  simp only [List.mem_cons, List.not_mem_nil, or_false] at hmem
  rcases hmem with rfl | rfl | rfl <;> rfl

/-- The scan of the small workspace lists its file. -/
theorem mem_scan_onePackage : ScannedFile.ofPath "packages/a/x.ts" ∈ onePackage.scan := by
  have hlocate : onePackage.locate ".gitignore" = none := by
    have hplain : plain ".gitignore" = [".gitignore"] := by decide
    have hslash : ".gitignore".text.startsWith "/" = false := by decide
    rw [Workspace.locate, onePackage, Option.bind_some, WorkspaceTree.locate, if_neg (Bool.eq_false_iff.1 hslash), hplain]
    simp [WorkspaceTree.walk, WorkspaceTree.entry?, WorkspaceTree.isAbove]
  have hrules : onePackage.ignoreRules [] = .ofWorkspace [] none := by
    rw [Workspace.ignoreRules, Workspace.content?, Workspace.at_, hlocate]
    rfl
  have hcandidate : "packages/a/x.ts" ∈ onePackage.candidates := by
    have hwalked : Workspace.isWalked (.ofWorkspace [] none) "packages/a/x.ts" = true := by decide
    refine List.mem_filter.2 ⟨?_, hrules ▸ hwalked⟩
    exact (by decide : "packages/a/x.ts" ∈ onePackage.leaves)
  have hdir : onePackage.locate "packages/a" = some ["packages", "a"] := leadsStraight_onePackage (by decide) (by decide)
  have hfile : onePackage.isFile "packages/a/x.ts" = true := by
    have hlocate : onePackage.locate "packages/a/x.ts" = some ["packages", "a", "x.ts"] :=
      leadsStraight_onePackage (by decide) (by decide)
    rw [Workspace.isFile, Workspace.at_, hlocate]
    rfl
  have hlink : onePackage.isLink "packages/a/x.ts" = false := by
    have hplain : plain "packages/a/x.ts" = ["packages", "a"] ++ ["x.ts"] := by decide
    have hparent : Path.ofSegments ["packages", "a"] = "packages/a" := by decide
    rw [Workspace.isLink, hplain, List.dropLast_concat, List.getLast?_concat, hparent, hdir]
    rfl
  have hignored : IgnoreRules.inIgnoredDirectory "packages/a/x.ts".text = false := by decide
  refine List.mem_map.2 ⟨_, List.mem_filter.2 ⟨List.mem_mergeSort.2 (List.mem_eraseDups.2 hcandidate), ?_⟩, rfl⟩
  rw [hignored, hlink, hfile]
  rfl

/-- The file lies in its package, however the path of the package is written. -/
theorem liesIn_onePackage {root : String} (hroot : Path.IsRelative root) (hplain : plain root = ["packages", "a"]) :
    LiesIn onePackage root ["x.ts"] (.ofPath "packages/a/x.ts") where
  scanned := mem_scan_onePackage
  ne_nil := List.cons_ne_nil _ _
  isName := by decide
  location := by
    rw [leadsStraight_onePackage hroot (hplain ▸ by decide), hplain]
    decide

/-- A pattern for what is in `packages` lists the package, spelled as the pattern spells it. -/
theorem mem_ofPattern_onePackage {p : String} (hnone : namesNone p = false) (hinside : meansInside p = true)
    (hspelled : Path.IsDirectoryPath (spelled p)) (hplain : plain (spelled p) = ["packages"]) :
    spelled p ++ "/" ++ "a" ∈ ofPattern onePackage p := by
  have hname : Path.IsName "a" := by decide
  have hbegins : plain (spelled p) <+: ["packages", "a"] := hplain ▸ by decide
  have hnames : "a" ∈ onePackage.names (spelled p) := by
    rw [Workspace.names, leadsStraight_onePackage hspelled.relative (hbegins.trans ⟨["x.ts"], rfl⟩), hplain]
    exact List.mem_mergeSort.2 (List.mem_eraseDups.2 (by decide))
  refine mem_ofPattern_iff.2 ⟨applies_iff.2 ⟨hnone, isDirectory_onePackage hspelled.relative hbegins⟩, ?_⟩
  rw [if_pos hinside]
  refine ⟨"a", hnames, ?_, rfl⟩
  rw [hspelled.join_name hname]
  refine isDirectory_onePackage (hspelled.append_name hname).relative ?_
  rw [Path.plain_append, hplain]
  exact List.prefix_rfl

/-! ## The directories of patterns -/

/-- No root is found twice exactly if no two patterns share one. -/
theorem nodup_ofPatterns_iff (w : Workspace) (patterns : List String) : (ofPatterns w patterns).Nodup ↔
    patterns.Pairwise fun p q => (ofPattern w p).Disjoint (ofPattern w q) := by
  rw [ofPatterns, List.nodup_flatMap, and_iff_right fun p _ => nodup_ofPattern w p]

/-- Relative patterns lead to directories. These are in normal form if the patterns are so spelled and look not inside a mere dot, and
none is listed twice unless two patterns list it. A document of such a package has the path that a scan lists its file under, so that the
file is recognised as covered, exactly if the directory is in normal form and no link or climb is on the way to it. -/
theorem ofPatterns_agree_iff (hw : w.Named) {patterns : List String} (hp : ∀ p ∈ patterns, IsRelativePattern p) :
    (∀ r ∈ ofPatterns w patterns, w.isDirectory r = true) ∧
      (∀ p ∈ patterns, ∀ r ∈ ofPattern w p, Path.normalize r = r ↔
        Path.normalize (spelled p) = spelled p ∧ (meansInside p = true → spelled p ≠ ".")) ∧
        ((ofPatterns w patterns).Nodup ↔ patterns.Pairwise fun p q => (ofPattern w p).Disjoint (ofPattern w q)) ∧
          ∀ (place : IndexedSymbols.Place) (names : Location) (f : ScannedFile), place.root ∈ ofPatterns w patterns →
            LiesIn w place.root names f →
              (place.path (Path.ofSegments names) = f.path ↔
                Path.normalize place.root = place.root ∧ LeadsStraight w place.root) ∧
                (Recognised place names f ↔ Path.normalize place.root = place.root ∧ LeadsStraight w place.root) := by
  refine ⟨fun r hr => ?_, fun p hmem r hr => normalize_eq_iff_of_mem hw (hp p hmem) hr, nodup_ofPatterns_iff w patterns,
    fun place names f hr hf => ?_⟩
  · obtain ⟨p, hmem, hr⟩ := List.mem_flatMap.1 hr
    exact (spelled_or_name_of_mem hw (hp p hmem) hr).2.1
  · obtain ⟨p, hmem, hr⟩ := List.mem_flatMap.1 hr
    have hpath := hf.path_eq_iff hw (isDirectoryPath_of_mem hw (hp p hmem) hr)
    exact ⟨hpath, recognised_iff.trans hpath⟩

/-- Spelled plainly the package is listed once, and its file is recognised. -/
theorem packages_recognised : (ofPatterns onePackage ["packages/*"]).Nodup ∧
    ∃ root ∈ ofPatterns onePackage ["packages/*"], onePackage.isDirectory root = true ∧ Path.normalize root = root ∧
      LiesIn onePackage root ["x.ts"] (.ofPath "packages/a/x.ts") ∧
        (placeAt root).path "x.ts" = "packages/a/x.ts" ∧ Recognised (placeAt root) ["x.ts"] (.ofPath "packages/a/x.ts") := by
  have hrelative : ∀ p ∈ ["packages/*"], IsRelativePattern p := by decide
  obtain ⟨hdirectory, hnormal, hnodup, hpath⟩ := ofPatterns_agree_iff named_onePackage hrelative
  have hpattern : "packages/a" ∈ ofPattern onePackage "packages/*" :=
    mem_ofPattern_onePackage (p := "packages/*") (by decide) (by decide) ⟨by decide, by decide, by decide⟩ (by decide)
  have hmem : "packages/a" ∈ ofPatterns onePackage ["packages/*"] := List.mem_flatMap.2 ⟨_, List.mem_singleton_self _, hpattern⟩
  have hlies : LiesIn onePackage "packages/a" ["x.ts"] (.ofPath "packages/a/x.ts") := liesIn_onePackage (by decide) (by decide)
  have hagrees : Path.normalize "packages/a" = "packages/a" ∧ LeadsStraight onePackage "packages/a" :=
    ⟨(hnormal _ (List.mem_singleton_self _) _ hpattern).2 (by decide), leadsStraight_onePackage (by decide) (by decide)⟩
  obtain ⟨hlisted, hrecognised⟩ := hpath (placeAt "packages/a") ["x.ts"] _ hmem hlies
  exact ⟨hnodup.2 (List.pairwise_singleton _ _), "packages/a", hmem, hdirectory _ hmem, hagrees.1, hlies, hlisted.2 hagrees,
    hrecognised.2 hagrees⟩

/-- With a dot in front the package is put at another path than the one that the scan lists its file under, so the file is not recognised.
And where two patterns lead to the package, it is listed twice. -/
theorem dotted_package_not_recognised :
    (∀ p ∈ ["./packages/*", "packages/*", "packages/a"], IsRelativePattern p) ∧
      (∃ root ∈ ofPatterns onePackage ["./packages/*"], Path.normalize root ≠ root ∧
        LiesIn onePackage root ["x.ts"] (.ofPath "packages/a/x.ts") ∧
          root ++ "/" ++ "x.ts" ≠ "packages/a/x.ts" ∧
            ¬Recognised (placeAt root) ["x.ts"] (.ofPath "packages/a/x.ts")) ∧
        ¬(ofPatterns onePackage ["packages/*", "packages/a"]).Nodup := by
  have hdotted : "./packages/a" ∈ ofPattern onePackage "./packages/*" :=
    mem_ofPattern_onePackage (p := "./packages/*") (by decide) (by decide) ⟨by decide, by decide, by decide⟩ (by decide)
  have hstar : "packages/a" ∈ ofPattern onePackage "packages/*" :=
    mem_ofPattern_onePackage (p := "packages/*") (by decide) (by decide) ⟨by decide, by decide, by decide⟩ (by decide)
  have hplain : "packages/a" ∈ ofPattern onePackage "packages/a" :=
    mem_ofPattern_iff.2 ⟨applies_iff.2 ⟨by decide, isDirectory_onePackage (by decide) (by decide)⟩, by decide⟩
  have hlies : LiesIn onePackage "./packages/a" ["x.ts"] (.ofPath "packages/a/x.ts") := liesIn_onePackage (by decide) (by decide)
  have hother : (placeAt "./packages/a").path (Path.ofSegments ["x.ts"]) ≠ "packages/a/x.ts" := by decide
  refine ⟨by decide, ⟨"./packages/a", List.mem_flatMap.2 ⟨_, List.mem_singleton_self _, hdotted⟩, by decide, hlies, by decide,
    fun h => hother (recognised_iff.1 h)⟩, fun h => ?_⟩
  exact List.pairwise_pair.1 ((nodup_ofPatterns_iff _ _).1 h) hstar hplain

end PackageRoots

end CodeAtlas
