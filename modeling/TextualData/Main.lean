import TextualData.CommandLine.Program
import TextualData.Files.Known

/-!
# The command line program

A run is computed from the files that are known so far. When it asks for one that is not known,
that file is read and the run begins again; the last run is the one that counts.
-/

namespace TextualData
namespace CommandLine

/-- The reason why a file could not be read. -/
def faultOf : IO.Error → FileFault
  | .noFileOrDirectory .. => .notFound
  | e => .other (toString e)

/-- Looks at what is at a path. -/
def look (path : String) : IO KnownFile := do
  let content ← (IO.FS.readBinFile path).toBaseIO
  let canonical ← (IO.FS.realPath path).toBaseIO
  return ⟨(content.mapError faultOf).map fun bytes => bytes.toList,
    match canonical with
    | .ok path => path.toString
    | .error _ => path⟩

/-- The first file that a run asked for and that is not known. -/
def unknownFile? (known : KnownFiles) (outcome : Outcome) : Option String :=
  outcome.steps.findSome? fun step => step.file?.filter fun path => !known.keys.contains path

/-- Runs the program until all files that it asks for are known. -/
partial def runKnowing (known : KnownFiles) (args : List String) : IO Outcome := do
  let outcome := run known.files args
  match unknownFile? known outcome with
  | some path => runKnowing (known.insert path (← look path)) args
  | none => return outcome

end CommandLine
end TextualData

/-- Runs the program on its arguments. -/
def main (args : List String) : IO UInt32 := do
  let outcome ← TextualData.CommandLine.runKnowing [] args
  IO.print outcome.output
  IO.eprint outcome.messages
  return outcome.exit.toUInt32
