import TextualData.CommandLine.Arguments
import TextualData.CommandLine.Report
import TextualData.Loader.Environment
import TextualData.Template.Render
import TextualData.Value.Dump

/-!
# The program

`CommandLine.run` is a run of the program on given arguments and files: it evaluates a file and
dumps the result, or renders a template with it. The `Outcome` holds all that the run leaves
behind.
-/

namespace TextualData
namespace CommandLine

/-- Why a run ends early. -/
inductive Stop where
  | error (e : Error)
  /-- The opposite of the scale of a decimal overflows. -/
  | overflow

/-- A computation that may end early and reports its steps, the latest first. -/
abbrev ProgramM := EStateM Stop (List Report)

namespace ProgramM

variable {α : Type}

/-- Adds a report. -/
def report (r : Report) : ProgramM Unit :=
  modify (r :: ·)

/-- A computation that may fail and reports nothing. -/
def ofExcept : Except Error α → ProgramM α
  | .ok a => pure a
  | .error e => throw (.error e)

/-- A computation that may overflow. -/
def ofOption : Option α → ProgramM α
  | some a => pure a
  | none => throw .overflow

/-- The steps of data loaders as steps of the program. -/
def ofLoad (m : LoadM α) : ProgramM α := fun reports =>
  match m.result with
  | .ok a => .ok a (m.reports.map .loading ++ reports)
  | .error e => .error (.error e) (m.reports.map .loading ++ reports)

end ProgramM

/-- Evaluates the file that the options name. -/
def evaluateFile (files : Files) (options : Options) : ProgramM Value := do
  ProgramM.report (.evaluating options.file options.mode)
  let bytes ← ProgramM.ofExcept ((files.read options.file).mapError .file)
  ProgramM.ofLoad do
    let text ← Loader.decodeSource bytes options.config.encoding
    let env := Loader.environment { files := files, config := options.config } Loader.usualDepth
    let source : Source := ⟨text, some options.file⟩
    Loader.fresh (source.evaluateAs options.mode env options.forceStrings)

/-- The variables of a template: the entries of a hash, or any other value under a name of its
own. -/
def templateVariables : Value → Hash
  | .hash entries => entries
  | v => [("data", v)]

/-- What the program prints: the dump of the result with a line break after it, or the template
rendered with the result. -/
def perform (files : Files) (options : Options) : ProgramM String := do
  let v ← evaluateFile files options
  match options.template? with
  | none => return (← ProgramM.ofOption v.dump?) ++ "\n"
  | some template =>
    ProgramM.report (.rendering template)
    let bytes ← ProgramM.ofExcept ((files.read template).mapError .file)
    let text ← ProgramM.ofExcept (Charset.decode bytes options.config.encoding)
    let rendered ← ProgramM.ofOption (Template.render? text (templateVariables v))
    ProgramM.ofExcept rendered

/-- All that a run leaves behind. -/
structure Outcome where
  exit : Nat
  output : String := ""
  messages : String := ""
  steps : List Report := []
deriving DecidableEq, Repr

/-- The messages of the errors behind an error, and the reason of the innermost one. -/
def causes (e : Error) : List String :=
  e.chain.tail.map Error.message ++ (e.chain.getLast?.bind Error.reason?).toList

/-- The lines about an error and what is behind it. -/
def errorLines (e : Error) : String :=
  e.message ++ "\n" ++ String.join ((causes e).map fun cause => "Caused by: " ++ cause ++ "\n")

/-- The lines about steps. -/
def reportLines (verbose : Bool) (steps : List Report) : String :=
  String.join ((steps.filter fun r => verbose || !r.isDetail).map Report.line)

/-- Runs the program with its options. What is printed about an overflow is left out. -/
def runWith (files : Files) (options : Options) : Outcome :=
  match perform files options [] with
  | .ok output reports =>
    let steps := reports.reverse
    ⟨0, output, reportLines options.verbose steps, steps⟩
  | .error (.error e) reports =>
    let steps := reports.reverse
    ⟨1, "", reportLines options.verbose steps ++ errorLines e, steps⟩
  | .error .overflow reports =>
    let steps := reports.reverse
    ⟨101, "", reportLines options.verbose steps, steps⟩

/-- The name and the version of the program. -/
def versionText : String :=
  "tdd 0.1.0\n"

/-- The help text. -/
def helpText : String :=
  "tdd: evaluates Textual Data Definition files\n\n" ++
  "Usage: tdd [OPTIONS] <FILE>\n\n" ++
  "Arguments:\n" ++
  "  <FILE>  TDD file to evaluate\n\n" ++
  "Options:\n" ++
  "  -m, --mode <MODE>      Top level of the file: hash, sequence or expression\n" ++
  "  -e, --encoding <ENC>   Charset of the file and of the data files that declare none\n" ++
  "  -d, --data-root <DIR>  Directory of data files, by default the directory of FILE\n" ++
  "  -s, --force-strings    Read values like true or 123 as strings\n" ++
  "  -t, --template <FILE>  Template to render instead of dumping the result\n" ++
  "  -v, --verbose          Enable verbose logging output\n" ++
  "  -h, --help             Print help\n" ++
  "  -V, --version          Print version\n"

/-- What refused arguments are answered with. -/
def refuse : Refusal → Outcome
  | .help => { exit := 0, output := helpText }
  | .version => { exit := 0, output := versionText }
  | .missingFile => { exit := 1, output := helpText }
  | .invalidValue => { exit := 2, messages := "error: invalid value\n" }
  | .unknownArgument => { exit := 2, messages := "error: unexpected argument\n" }
  | .repeatedOption => { exit := 2, messages := "error: an option is given twice\n" }
  | .unexpectedValue => { exit := 2, messages := "error: an option takes no value\n" }

/-- Runs the program. -/
def run (files : Files) (args : List String) : Outcome :=
  match Options.ofArguments args with
  | .ok options => runWith files options
  | .error refusal => refuse refusal

end CommandLine
end TextualData
