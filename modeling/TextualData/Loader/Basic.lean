import TextualData.Environment.Basic
import TextualData.Files.Basic
import TextualData.Loader.Report
import TextualData.Path

/-!
# Data loaders

A data loader is a function that a text can call to bring in data. `Loader.Call` is what it sees of
the evaluation that it was called from: besides the arguments these are the data and the settings,
and a way to evaluate further texts, each in a fresh environment. `Loader.Setting` holds what is
the same for all calls, with the loaders that an application adds.
-/

namespace TextualData
namespace Loader

/-- Evaluates further texts for a loader. -/
structure Nested where
  /-- Evaluates a text as the entries of a hash. -/
  hash : Source → LoadM Hash
  /-- Evaluates a text as the items of a sequence. -/
  sequence : Source → LoadM (List Value)

namespace Nested

/-- Evaluates nothing, because loaders have called each other too often. -/
def refusing : Nested where
  hash _ := throw (.loading .nestedTooDeep)
  sequence _ := throw (.loading .nestedTooDeep)

end Nested

/-- The settings of an application. -/
structure Config where
  /-- The directory that relative paths start from. -/
  dataRoot : String := "."
  /-- The encoding of files that no other is given for. -/
  encoding : String := "UTF-8"
deriving DecidableEq, Repr

/-- The path of a data file. -/
def Config.resolve (config : Config) (path : String) : String :=
  Path.join config.dataRoot path

/-- What a loader sees of the evaluation that it was called from. -/
structure Call where
  arguments : List Value
  config : Config
  /-- The data that was there before the evaluation. -/
  data : Hash
  nested : Nested

/-- A loader that an application adds. -/
abbrev Custom := Call → LoadM Value

/-- What all calls have in common. -/
structure Setting where
  files : Files
  config : Config := {}
  /-- The data that was there before the evaluation. -/
  data : Hash := []
  /-- The loaders that the application adds, by the names of their functions. -/
  custom : Entries Custom := []

end Loader
end TextualData
