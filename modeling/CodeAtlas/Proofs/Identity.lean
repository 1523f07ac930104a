import CodeAtlas.Identity
import CodeAtlas.Proofs.Text.Split
import CodeAtlas.Proofs.Text.Utf8

/-!
# Ids and what they are the digest of

A digest has sixty-four digits whatever it is of, so every id has sixteen.

The bytes that are digested give the joined text back, and the joined text gives the pieces between its separators. Where no part has a
separator of its own the pieces are the parts, so the bytes tell the coordinates: what merges two ids can only be the digest.
-/

namespace CodeAtlas

theorem Sha256.length_hexDigest (message : List UInt8) : (hexDigest message).length = 64 := rfl

namespace Identity

/-- An id has sixteen characters. -/
theorem length_ofParts (parts : List String) : (ofParts parts).length = 16 := by
  rw [ofParts, String.length_ofList, cut, List.length_take, Sha256.length_hexDigest]
  rfl

/-- An id is not empty. -/
theorem ofParts_ne_empty (parts : List String) : ofParts parts ≠ "" := by
  intro h
  have hlen := length_ofParts parts
  rw [h] at hlen
  nomatch hlen

/-- The path of an external package is not empty. -/
theorem externalPath_ne_empty (package : String) : externalPath package ≠ "" := by
  intro h
  have hmark : externalMark.length = 9 := by decide
  have hlen := congrArg String.length h
  rw [externalPath, String.length_append, hmark, String.length_empty] at hlen
  omega

/-! ## Parts -/

/-- No part has a separator of its own. -/
def Unseparated (parts : List String) : Prop := ∀ p ∈ parts, separator ∉ p.text

/-- Whether parts are free of separators is decided part by part. -/
instance (parts : List String) : Decidable (Unseparated parts) := List.decidableBAll _ parts

/-- What stands between the separators of the joined text: a part with separators of its own has several pieces. -/
def pieces (parts : List String) : List Text := parts.flatMap fun p => Text.splitOn separator p.text

/-- A part that another follows has a separator behind it. -/
theorem joined_cons_cons (p q : String) (rest : List String) :
    joined (p :: q :: rest) = p.text ++ separator :: joined (q :: rest) := by
  rw [joined, List.map_cons, List.map_cons, List.intercalate_cons_cons, List.append_assoc]
  rfl

/-- The pieces of parts are those of the first and of the others. -/
theorem pieces_cons (p : String) (rest : List String) : pieces (p :: rest) = Text.splitOn separator p.text ++ pieces rest :=
  List.flatMap_cons

section

variable {parts parts' : List String}

/-- Cut at the separators, joined parts fall into their pieces; only a part that another follows has a separator behind it. -/
theorem splitOn_joined (h : parts ≠ []) : Text.splitOn separator (joined parts) = pieces parts := by
  induction parts with
  | nil => exact absurd rfl h
  | cons p rest ih =>
    cases rest with
    | nil => rw [joined, List.map_singleton, List.intercalate_singleton, pieces, List.flatMap_singleton]
    | cons q rest => rw [joined_cons_cons, Text.splitOn_append, ih (List.cons_ne_nil q rest), pieces_cons p]

/-- The pieces, joined again, are the joined parts. -/
theorem intercalate_pieces (h : parts ≠ []) : [separator].intercalate (pieces parts) = joined parts := by
  rw [← splitOn_joined h, Text.splitOn_eq, List.intercalate_splitOn]

/-- The bytes tell the pieces and nothing else about the parts. -/
theorem bytes_eq_iff_pieces (h : parts ≠ []) (h' : parts' ≠ []) : bytes parts = bytes parts' ↔ pieces parts = pieces parts' := by
  constructor
  · intro hbytes
    have hjoined : joined parts = joined parts' := Utf8.encode_injective hbytes
    rw [← splitOn_joined h, ← splitOn_joined h', hjoined]
  · intro hpieces
    rw [bytes, bytes, ← intercalate_pieces h, ← intercalate_pieces h', hpieces]

/-- A separator within a part counts like one between two parts. -/
example : bytes ["a\x00b", "c"] = bytes ["a", "b\x00c"] := by decide +kernel

/-- Parts without separators are pieces themselves. -/
theorem pieces_of_unseparated (h : Unseparated parts) : pieces parts = parts.map String.text := by
  induction parts with
  | nil => rfl
  | cons p rest ih =>
    obtain ⟨hp, hrest⟩ := List.forall_mem_cons.1 h
    rw [pieces_cons, Text.splitOn_of_not_mem hp, ih hrest, List.map_cons, List.singleton_append]

/-- Parts without separators are told by their bytes. -/
theorem bytes_eq_iff (h : parts ≠ []) (h' : parts' ≠ []) (hsep : Unseparated parts) (hsep' : Unseparated parts') :
    bytes parts = bytes parts' ↔ parts = parts' := by
  rw [bytes_eq_iff_pieces h h', pieces_of_unseparated hsep, pieces_of_unseparated hsep']
  exact List.map_inj_right fun _ _ => String.toList_inj.1

end

/-! ## Entities and edges -/

section

variable {repoId repoId' filePath filePath' kind kind' name name' fromId fromId' toId toId' : String}
  {signature signature' : Option String}

/-- The parts of an entity tell all that they are made of; no signature counts as an empty one. -/
theorem entityParts_eq_iff :
    entityParts repoId filePath kind name signature = entityParts repoId' filePath' kind' name' signature' ↔
      repoId = repoId' ∧ filePath = filePath' ∧ kind = kind' ∧ name = name' ∧ signature.getD "" = signature'.getD "" := by
  simp only [entityParts, List.cons.injEq, and_true]

theorem edgeParts_eq_iff :
    edgeParts fromId toId kind = edgeParts fromId' toId' kind' ↔ fromId = fromId' ∧ toId = toId' ∧ kind = kind' := by
  simp only [edgeParts, List.cons.injEq, and_true]

/-- An entity has five coordinates, an edge three. -/
theorem entityParts_ne_edgeParts : entityParts repoId filePath kind name signature ≠ edgeParts fromId toId kind' := by
  intro h
  have hlength : 5 = 3 := congrArg List.length h
  nomatch hlength

/-- The bytes that are hashed for an entity tell all that they are made of. -/
theorem bytes_entityParts_eq_iff (h : Unseparated (entityParts repoId filePath kind name signature))
    (h' : Unseparated (entityParts repoId' filePath' kind' name' signature')) :
    bytes (entityParts repoId filePath kind name signature) = bytes (entityParts repoId' filePath' kind' name' signature') ↔
      repoId = repoId' ∧ filePath = filePath' ∧ kind = kind' ∧ name = name' ∧ signature.getD "" = signature'.getD "" :=
  (bytes_eq_iff (List.cons_ne_nil _ _) (List.cons_ne_nil _ _) h h').trans entityParts_eq_iff

/-- The bytes that are hashed for an edge tell all that they are made of. -/
theorem bytes_edgeParts_eq_iff (h : Unseparated (edgeParts fromId toId kind)) (h' : Unseparated (edgeParts fromId' toId' kind')) :
    bytes (edgeParts fromId toId kind) = bytes (edgeParts fromId' toId' kind') ↔ fromId = fromId' ∧ toId = toId' ∧ kind = kind' :=
  (bytes_eq_iff (List.cons_ne_nil _ _) (List.cons_ne_nil _ _) h h').trans edgeParts_eq_iff

/-- No bytes are hashed both for an entity and for an edge. -/
theorem bytes_entityParts_ne_edgeParts (h : Unseparated (entityParts repoId filePath kind name signature))
    (h' : Unseparated (edgeParts fromId toId kind')) :
    bytes (entityParts repoId filePath kind name signature) ≠ bytes (edgeParts fromId toId kind') := fun hbytes =>
  entityParts_ne_edgeParts ((bytes_eq_iff (List.cons_ne_nil _ _) (List.cons_ne_nil _ _) h h').1 hbytes)

/-- Bytes that are hashed for entities of two kinds are different. -/
theorem bytes_ne_of_kind_ne (h : Unseparated (entityParts repoId filePath kind name signature))
    (h' : Unseparated (entityParts repoId' filePath' kind' name' signature')) (hkind : kind ≠ kind') :
    bytes (entityParts repoId filePath kind name signature) ≠ bytes (entityParts repoId' filePath' kind' name' signature') := by
  intro hbytes
  obtain ⟨-, -, hsame, -⟩ := (bytes_entityParts_eq_iff h h').1 hbytes
  exact hkind hsame

end

/-! ## Files, directories and packages -/

/-- The coordinates of a file. -/
def fileParts (repoId path : String) : List String := entityParts repoId path "file" path none

/-- The coordinates of a directory. -/
def directoryParts (repoId path : String) : List String := entityParts repoId path "directory" path none

/-- The coordinates of the module of a third-party package. -/
def externalModuleParts (repoId package : String) : List String := entityParts repoId (externalPath package) "module" package none

theorem file_eq_ofParts (repoId path : String) : file repoId path = ofParts (fileParts repoId path) := rfl

theorem directory_eq_ofParts (repoId path : String) : directory repoId path = ofParts (directoryParts repoId path) := rfl

theorem externalModule_eq_ofParts (repoId package : String) :
    externalModule repoId package = ofParts (externalModuleParts repoId package) := rfl

/-- The parts of an entity are free of separators if what they are made of is. -/
theorem unseparated_entityParts {repoId filePath kind name : String} (hrepo : separator ∉ repoId.text)
    (hpath : separator ∉ filePath.text) (hkind : separator ∉ kind.text) (hname : separator ∉ name.text) :
    Unseparated (entityParts repoId filePath kind name none) := by
  have hnone : separator ∉ "".text := by decide +kernel
  simp only [Unseparated, entityParts, List.forall_mem_cons]
  exact ⟨hrepo, hpath, hkind, hname, hnone, List.forall_mem_nil _⟩

/-- The path of an external package holds no separator where the package holds none. -/
theorem not_mem_externalPath {package : String} (h : separator ∉ package.text) : separator ∉ (externalPath package).text := by
  have hmark : separator ∉ externalMark.text := by decide +kernel
  rw [externalPath, String.text, String.toList_append, List.mem_append]
  exact not_or.2 ⟨hmark, h⟩

/-- The kind tells the three apart, also where one has the path of another. -/
theorem nodup_structuralBytes {repoId path repoId' folder repoId'' package : String}
    (h : Unseparated [repoId, path, repoId', folder, repoId'', package]) :
    [bytes (fileParts repoId path), bytes (directoryParts repoId' folder), bytes (externalModuleParts repoId'' package)].Nodup := by
  simp only [Unseparated, List.forall_mem_cons] at h
  obtain ⟨hrepo, hpath, hrepo', hfolder, hrepo'', hpackage, -⟩ := h
  have hfile : Unseparated (fileParts repoId path) := unseparated_entityParts hrepo hpath (by decide +kernel) hpath
  have hdirectory : Unseparated (directoryParts repoId' folder) :=
    unseparated_entityParts hrepo' hfolder (by decide +kernel) hfolder
  have hmodule : Unseparated (externalModuleParts repoId'' package) :=
    unseparated_entityParts hrepo'' (not_mem_externalPath hpackage) (by decide +kernel) hpackage
  have hfileDirectory : bytes (fileParts repoId path) ≠ bytes (directoryParts repoId' folder) :=
    bytes_ne_of_kind_ne hfile hdirectory (by decide)
  have hfileModule : bytes (fileParts repoId path) ≠ bytes (externalModuleParts repoId'' package) :=
    bytes_ne_of_kind_ne hfile hmodule (by decide)
  have hdirectoryModule : bytes (directoryParts repoId' folder) ≠ bytes (externalModuleParts repoId'' package) :=
    bytes_ne_of_kind_ne hdirectory hmodule (by decide)
  simp [hfileDirectory, hfileModule, hdirectoryModule]

/-- The text of an entity without a signature ends in a separator, behind which nothing stands. -/
theorem joined_entityParts (repoId filePath kind name : String) :
    joined (entityParts repoId filePath kind name none) =
      repoId.text ++ separator :: (filePath.text ++ separator :: (kind.text ++ separator :: (name.text ++ [separator]))) := by
  simp [entityParts, joined]

/-- Within a repository the bytes of a file tell its path, also where the path has separators of its own. -/
theorem bytes_fileParts_eq_iff {repoId path path' : String} : bytes (fileParts repoId path) = bytes (fileParts repoId path') ↔ path = path' := by
  refine ⟨fun hbytes => ?_, fun h => by rw [h]⟩
  have hjoined : joined (fileParts repoId path) = joined (fileParts repoId path') := Utf8.encode_injective hbytes
  rw [fileParts, fileParts, joined_entityParts, joined_entityParts, List.append_cancel_left_eq, List.cons.injEq] at hjoined
  have hlength := congrArg List.length hjoined.2
  simp only [List.length_append, List.length_cons, List.length_nil] at hlength
  have hpath : path.text.length = path'.text.length := by omega
  exact String.toList_inj.1 (List.append_inj_left hjoined.2 hpath)

/-- The bytes of a directory are not those of a file: the path counts twice in both, and the kinds differ by an odd number of letters. -/
theorem bytes_directoryParts_ne (repoId folder path : String) : bytes (directoryParts repoId folder) ≠ bytes (fileParts repoId path) := by
  intro hbytes
  have hjoined := congrArg List.length (Utf8.encode_injective hbytes)
  have hkind : "directory".text.length = 9 ∧ "file".text.length = 4 := by decide
  simp only [directoryParts, fileParts, joined_entityParts, List.length_append, List.length_cons, List.length_nil] at hjoined
  omega

/-- Nor are those of the module of a package. -/
theorem bytes_externalModuleParts_ne (repoId package path : String) :
    bytes (externalModuleParts repoId package) ≠ bytes (fileParts repoId path) := by
  intro hbytes
  have hjoined := congrArg List.length (Utf8.encode_injective hbytes)
  have hkind : "module".text.length = 6 ∧ "file".text.length = 4 ∧ externalMark.text.length = 9 := by decide
  have hpath : (externalPath package).text.length = externalMark.text.length + package.text.length := by
    simp [externalPath, String.text]
  simp only [externalModuleParts, fileParts, joined_entityParts, List.length_append, List.length_cons, List.length_nil] at hjoined
  omega

/-- The bytes of an id tell what it is the id of: the list of parts, the coordinates of an entity or of an edge, and which of the two
it is; and no file, directory or package is taken for another of the three. -/
theorem inputs_unambiguous :
    (∀ parts parts' : List String, parts ≠ [] → parts' ≠ [] → Unseparated parts → Unseparated parts' →
      (bytes parts = bytes parts' ↔ parts = parts')) ∧
    (∀ (repoId filePath kind name : String) (signature : Option String) (repoId' filePath' kind' name' : String)
      (signature' : Option String), Unseparated (entityParts repoId filePath kind name signature) →
      Unseparated (entityParts repoId' filePath' kind' name' signature') →
      (bytes (entityParts repoId filePath kind name signature) = bytes (entityParts repoId' filePath' kind' name' signature') ↔
        repoId = repoId' ∧ filePath = filePath' ∧ kind = kind' ∧ name = name' ∧ signature.getD "" = signature'.getD "")) ∧
    (∀ fromId toId kind fromId' toId' kind' : String, Unseparated (edgeParts fromId toId kind) →
      Unseparated (edgeParts fromId' toId' kind') →
      (bytes (edgeParts fromId toId kind) = bytes (edgeParts fromId' toId' kind') ↔
        fromId = fromId' ∧ toId = toId' ∧ kind = kind')) ∧
    (∀ (repoId filePath kind name : String) (signature : Option String) (fromId toId kind' : String),
      Unseparated (entityParts repoId filePath kind name signature) → Unseparated (edgeParts fromId toId kind') →
      bytes (entityParts repoId filePath kind name signature) ≠ bytes (edgeParts fromId toId kind')) ∧
    ∀ repoId path repoId' folder repoId'' package : String,
      file repoId path = ofParts (fileParts repoId path) ∧ directory repoId' folder = ofParts (directoryParts repoId' folder) ∧
      externalModule repoId'' package = ofParts (externalModuleParts repoId'' package) ∧
      (Unseparated [repoId, path, repoId', folder, repoId'', package] →
        [bytes (fileParts repoId path), bytes (directoryParts repoId' folder),
          bytes (externalModuleParts repoId'' package)].Nodup) := by
  refine ⟨fun _ _ => bytes_eq_iff, fun _ _ _ _ _ _ _ _ _ _ => bytes_entityParts_eq_iff, fun _ _ _ _ _ _ => bytes_edgeParts_eq_iff,
    fun _ _ _ _ _ _ _ _ => bytes_entityParts_ne_edgeParts, ?_⟩
  intro repoId path repoId' folder repoId'' package
  exact ⟨file_eq_ofParts repoId path, directory_eq_ofParts repoId' folder, externalModule_eq_ofParts repoId'' package,
    nodup_structuralBytes⟩

/-- Two lists that differ in the place of an empty part; a missing signature and an empty one; an edge and its reverse; an entity and an
edge that begin alike; a file and a directory at the path that stands for a package, and the package. -/
theorem unambiguous_nearCollisions :
    bytes ["Größe", "", "𝄞"] ≠ bytes ["Größe", "𝄞", ""] ∧
    bytes (entityParts "r" "a.py" "class" "A" none) = bytes (entityParts "r" "a.py" "class" "A" (some "")) ∧
    bytes (edgeParts "x" "y" "calls") ≠ bytes (edgeParts "y" "x" "calls") ∧
    bytes (entityParts "x" "y" "calls" "" none) ≠ bytes (edgeParts "x" "y" "calls") ∧
    [bytes (fileParts "r" "external:a"), bytes (directoryParts "r" "external:a"), bytes (externalModuleParts "r" "a")].Nodup := by
  obtain ⟨hparts, hentities, hedges, hapart, hstructure⟩ := inputs_unambiguous
  refine ⟨?_, ?_, ?_, ?_, ?_⟩
  · rw [Ne, hparts _ _ (by decide) (by decide) (by decide +kernel) (by decide +kernel)]
    decide
  · rw [hentities _ _ _ _ _ _ _ _ _ _ (by decide +kernel) (by decide +kernel)]
    exact ⟨rfl, rfl, rfl, rfl, rfl⟩
  · rw [Ne, hedges _ _ _ _ _ _ (by decide +kernel) (by decide +kernel)]
    decide
  · exact hapart _ _ _ _ _ _ _ _ (by decide +kernel) (by decide +kernel)
  · exact (hstructure "r" "external:a" "r" "external:a" "r" "a").2.2.2 (by decide +kernel)

end Identity

end CodeAtlas
