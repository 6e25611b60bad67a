import TextualData.Error.Basic

/-!
# Files

`Files` is what a program can learn about the files that surround it: the bytes of the file at a
path, and the canonical form of the path. Files do not change while they are looked at.
-/

namespace TextualData

/-- The files that can be reached. -/
structure Files where
  read : String → Except FileFault (List UInt8)
  /-- The absolute path without detours that leads to the same place. A path that leads nowhere
  stays as it is. -/
  canonical : String → String

end TextualData
