import TextualData.Loader.Report
import TextualData.Mode

/-!
# Reports of the program

The program reports its steps and those of the data loaders, each in a line with the part of the
program that it comes from. Some reports are of interest only when every step is asked for.
-/

namespace TextualData
namespace CommandLine

/-- A step of the program. -/
inductive Report where
  /-- A file is about to be read and evaluated. -/
  | evaluating (file : String) (mode : Mode)
  /-- A template is about to be read and rendered. -/
  | rendering (template : String)
  | loading (step : LoadReport)
deriving DecidableEq, Repr

namespace Report

/-- Whether the report is of interest only when every step is asked for. -/
def isDetail : Report → Bool
  | rendering _ => false
  | _ => true

/-- The part of the program that the report comes from. -/
def origin : Report → String
  | evaluating .. => "tdd"
  | rendering _ => "tdd"
  | loading (.file _) => "tdd::loader::file"
  | loading (.header ..) => "tdd::encoding"
  | loading (.table ..) => "tdd::loader::table"

/-- What the report says. -/
def text : Report → String
  | evaluating file mode => s!"Evaluating {file} as " ++ mode.name
  | rendering template => s!"Rendering {template}"
  | loading (.file path) => s!"Loading data file {path}"
  | loading (.header declared given) =>
    s!"Header declares charset {declared}, overriding {given}"
  | loading (.table rows columns) => s!"Loaded {rows} CSV rows with {columns} columns"

/-- The report as a line. -/
def line (r : Report) : String :=
  (if r.isDetail then "[DEBUG " else "[INFO  ") ++ r.origin ++ "] " ++ r.text ++ "\n"

/-- The file that is read next, if one is. -/
def file? : Report → Option String
  | evaluating file _ => some file
  | rendering template => some template
  | loading (.file path) => some path
  | _ => none

end Report
end CommandLine
end TextualData
