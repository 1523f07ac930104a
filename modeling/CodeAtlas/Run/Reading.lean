import CodeAtlas.Language.Registry
import CodeAtlas.Settings.Indexer
import CodeAtlas.Workspace.Manifest
import CodeAtlas.Workspace.Scan

/-!
# Reading files in a run

Files that no index covers are read by the readers of their languages, all of them side by side, each with the same time from its
start. One file that cannot be read never stops a run; a file whose reading does not end makes the files behind it fail as well.
-/

namespace CodeAtlas

/-- What reading a file of a workspace comes to. -/
inductive FileReading where
  /-- What the file declares, and how many lines it has. -/
  | read (found : Fragment) (lines : Nat)
  /-- The file is no text, or its reader gave up. -/
  | nothing
  /-- Reading does not end. -/
  | endless

namespace FileReading

/-- Whether reading ends. -/
def ends : FileReading → Bool
  | endless => false
  | _ => true

/-- What was found in a file. -/
def found : FileReading → Fragment
  | read f _ => f
  | _ => {}

/-- How many lines a file has, if it was read. -/
def lines? : FileReading → Option Nat
  | read _ n => some n
  | _ => none

end FileReading

namespace ScannedFile

/-- The language of a file: that of its extension, or else the name of its reader. -/
def language (registry : Registry) (f : ScannedFile) : String :=
  (languageOfExtension? f.extension).getD (registry.forExtension f.extension).name

/-- Reads a file of a workspace. -/
def reading (w : Workspace) (registry : Registry) (repoId : String) (known : KnownPaths) (maxBodyLines : Nat) (f : ScannedFile) :
    FileReading :=
  match (w.content? f.path).bind Manifest.text? with
  | none => .nothing
  | some content =>
    let file : SourceFile :=
      { repoId, path := f.path, content := String.ofList content, known, language := f.language registry, maxBodyLines }
    match (registry.forExtension f.extension).read file with
    | .done found => .read found content.lines.length
    | .failed => .nothing
    | .endless => .endless

end ScannedFile

/-- The files of a run with their readings, in the order of the files. -/
abbrev FileReadings := List (ScannedFile × FileReading)

namespace FileReadings

/-- The files that are read in time. While the run waits for one whose reading does not end, the time of all behind it runs out. -/
def inTime (rs : FileReadings) : FileReadings := rs.takeWhile fun r => r.2.ends

/-- The paths of the files that are not read in time. -/
def late (rs : FileReadings) : List String := (rs.dropWhile fun r => r.2.ends).map (·.1.path)

end FileReadings

end CodeAtlas
