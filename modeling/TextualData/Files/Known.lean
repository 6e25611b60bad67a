import TextualData.Entries
import TextualData.Files.Basic

/-!
# Files that have been read

`KnownFiles` holds what was found at some paths. As `Files` it answers for these paths alone.
-/

namespace TextualData

/-- What was found at a path. -/
structure KnownFile where
  content : Except FileFault (List UInt8)
  canonical : String

/-- What was found at some paths. -/
abbrev KnownFiles := Entries KnownFile

/-- The files at the paths. Nothing is found elsewhere. -/
def KnownFiles.files (known : KnownFiles) : Files where
  read path :=
    match Entries.get? known path with
    | some file => file.content
    | none => .error .notFound
  canonical path :=
    match Entries.get? known path with
    | some file => file.canonical
    | none => path

end TextualData
