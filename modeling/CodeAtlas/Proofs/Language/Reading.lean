import CodeAtlas.Language.Registry
import CodeAtlas.Proofs.Import.Resolved
import CodeAtlas.Proofs.Language.Braces
import CodeAtlas.Proofs.Language.Lines
import CodeAtlas.Proofs.Path

/-!
# Reading files

Every reader reads every file, and what it gives is well formed, whatever the text: unbalanced braces, missing ends and repeated
declarations included.
-/

namespace CodeAtlas

namespace Registry

/-- Every reader walks the whole file and finishes what it has found; its resolver is certain only of what the workspace has. -/
theorem exists_finishes {reader : LanguageReader} (hreader : reader ∈ standardReaders) (file : SourceFile) :
    ∃ found resolve, reader.read file = .done found ∧ found.Finishes file resolve ∧ (file.known.Sound → resolve.Sound file.known) := by
  simp only [standardReaders, List.mem_cons, List.not_mem_nil, or_false] at hreader
  rcases hreader with rfl | rfl | rfl | rfl | rfl | rfl | rfl | rfl | rfl
  · exact ⟨_, _, rfl, TypeScript.finishes_read file, fun _ => TypeScript.sound_resolve⟩
  · exact ⟨_, _, rfl, Python.finishes_read file, Python.sound_resolve⟩
  · exact ⟨_, _, rfl, Go.finishes_read file, Go.sound_resolve⟩
  · exact ⟨_, _, rfl, Java.finishes_read file, Java.sound_resolve⟩
  · exact ⟨_, _, rfl, Rust.finishes_read file, fun _ => Rust.sound_resolve⟩
  · exact ⟨_, _, rfl, Ruby.finishes_read file, Ruby.sound_resolve⟩
  · exact ⟨_, _, rfl, CFamily.finishes_read file, CFamily.sound_resolve⟩
  · exact ⟨_, _, rfl, CSharp.finishes_read file, fun h => CSharp.sound_resolve h _⟩
  · exact ⟨_, _, rfl, Php.finishes_read file, fun h => Php.sound_resolve h _⟩

/-- Every standard reader comes to its end on every file, with a well-formed fragment. -/
theorem exists_read_eq_done {reader : LanguageReader} (hreader : reader ∈ standardReaders) (file : SourceFile) :
    ∃ found, reader.read file = .done found ∧ found.WellFormed file := by
  obtain ⟨found, resolve, hdone, hfound, -⟩ := exists_finishes hreader file
  exact ⟨found, hdone, hfound.wellFormed⟩

/-- Every reader reads every file of the workspace, and what it gives is well formed. The search for the directory of a package climbs
from a relative path up to the root of the workspace, and ends there. -/
theorem wellFormed_of_mem_standardReaders {reader : LanguageReader} (hreader : reader ∈ standardReaders) {file : SourceFile}
    (hpath : Path.IsRelative file.path) :
    ∃ found, reader.read file = .done found ∧ found.WellFormed file ∧ (Path.ancestry file.path).getLast? = some "" := by
  obtain ⟨found, hdone, hfound⟩ := exists_read_eq_done hreader file
  exact ⟨found, hdone, hfound, Path.getLast?_ancestry hpath⟩

/-- Two files whose ids are the same digits of their digests, the first of which includes the second. -/
def collidingInclude : SourceFile where
  repoId := "r"
  path := "bebahhmfnnphpgon.c"
  content := "#include \"keljalgechbciadm.c\"\n"
  language := "c"
  known := .ofFiles ["keljalgechbciadm.c"]

/-- An include becomes an edge from a file to itself when the two ids collide. -/
theorem self_edge_of_collision :
    ∃ reader ∈ standardReaders, ∃ file, Path.IsRelative file.path ∧ 1 ≤ file.maxBodyLines ∧
      ∃ found, reader.read file = .done found ∧ ∃ e ∈ found.edges, e.fromId = e.toId := by
  have hself : ((CFamily.read collidingInclude).edges.any fun e => e.fromId == e.toId) = true := by decide +kernel
  obtain ⟨e, he, hends⟩ := List.any_eq_true.1 hself
  exact ⟨standardReaders[6], List.getElem_mem _, collidingInclude, by decide, by decide, _, rfl, e, he, beq_iff_eq.1 hends⟩

/-- Even the include that collides gives a well-formed fragment. -/
theorem wellFormed_collidingInclude :
    ∃ found, standardReaders[6].read collidingInclude = .done found ∧ found.WellFormed collidingInclude ∧
      (Path.ancestry collidingInclude.path).getLast? = some "" :=
  wellFormed_of_mem_standardReaders (List.getElem_mem _) (by decide)

end Registry

end CodeAtlas
