import CodeAtlas.Language.Registry
import CodeAtlas.Proofs.Moved.Braces
import CodeAtlas.Proofs.Moved.Unbraced

/-!
# Reading does not depend on the place in the file

Line feeds in front of a file move everything that is found in it down, and change nothing else: neither ids nor bodies nor
documentation nor links know where in the file they come from.
-/

namespace CodeAtlas

namespace Registry

/-- Whatever reader a file is given to: `k` line feeds in front of it add `k` to the first and last line of each entity and to the
line of each import. All else that is found, and its order, stays the same. -/
theorem exists_read_eq_done_movedDown {reader : LanguageReader} (hreader : reader ∈ generic :: standardReaders) (file : SourceFile)
    (k : Nat) : ∃ found, reader.read file = .done found ∧ reader.read (file.movedDown k) = .done (found.movedDown k) := by
  simp only [standardReaders, List.mem_cons, List.not_mem_nil, or_false] at hreader
  rcases hreader with rfl | rfl | rfl | rfl | rfl | rfl | rfl | rfl | rfl | rfl
  · exact ⟨_, rfl, rfl⟩
  · exact ⟨_, rfl, congrArg Reading.done (TypeScript.read_movedDown file)⟩
  · exact ⟨_, rfl, congrArg Reading.done (Python.read_movedDown file)⟩
  · exact ⟨_, rfl, congrArg Reading.done (Go.read_movedDown file)⟩
  · exact ⟨_, rfl, congrArg Reading.done (Java.read_movedDown file)⟩
  · exact ⟨_, rfl, congrArg Reading.done (Rust.read_movedDown file)⟩
  · exact ⟨_, rfl, congrArg Reading.done (Ruby.read_movedDown file)⟩
  · exact ⟨_, rfl, congrArg Reading.done (CFamily.read_movedDown file)⟩
  · exact ⟨_, rfl, congrArg Reading.done (CSharp.read_movedDown file)⟩
  · exact ⟨_, rfl, congrArg Reading.done (Php.read_movedDown file)⟩

/-- A module that imports a function, and calls it in a documented function of its own. -/
def documentedModule : SourceFile where
  repoId := "r"
  path := "pkg/a.py"
  content := "from pkg.b import f\n\n\ndef g(x):\n    \"\"\"Calls what it imports.\"\"\"\n    return f(x)\n"
  language := "python"
  known := .ofFiles ["pkg/a.py", "pkg/b.py"]

/-- A documented module below three empty lines is read with its lines moved by three. -/
theorem documentedModule_below_three_lineFeeds :
    ∃ found, standardReaders[1].read documentedModule = .done found ∧
      standardReaders[1].read (documentedModule.movedDown 3) = .done (found.movedDown 3) ∧
      found.entities.map (fun e => (e.name, e.startLine, e.endLine, e.doc)) = [("g", 4, 6, some "Calls what it imports.")] ∧
      found.edges.map Edge.kind = [.imports] := by
  have hreader : standardReaders[1] ∈ generic :: standardReaders := List.mem_cons_of_mem generic (List.getElem_mem _)
  obtain ⟨found, hread, hmoved⟩ := exists_read_eq_done_movedDown hreader documentedModule 3
  have hfound : Python.read documentedModule = found := Reading.done.inj hread
  refine ⟨found, hread, hmoved, ?_, ?_⟩
  · rw [← hfound]
    decide +kernel
  · rw [← hfound]
    decide +kernel

end Registry

end CodeAtlas
