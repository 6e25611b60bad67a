import TextualData.Loader.Basic
import TextualData.Mode

/-!
# Command line arguments

`CommandLine.Options.ofArguments` reads the arguments of the program. An option is given by its
long name or its letter; a value follows as the next argument, after an equals sign, or right
after the letter. Letters of options without a value may stand together. After a double hyphen
nothing is an option. What an argument asks for takes effect when the next one begins, so an
unknown option is refused before an unsuitable value in front of it.
-/

namespace TextualData
namespace CommandLine

/-- The options. -/
inductive Flag where
  /-- How the top level of the file is read. -/
  | mode
  | encoding
  | dataRoot
  | template
  /-- Whether tokens are strings whatever they look like. -/
  | forceStrings
  | verbose
  | help
  | version
deriving DecidableEq, Repr

namespace Flag

/-- All options in order. -/
def all : List Flag :=
  [mode, encoding, dataRoot, forceStrings, template, verbose, help, version]

/-- The long name. -/
def long : Flag → String
  | mode => "mode"
  | encoding => "encoding"
  | dataRoot => "data-root"
  | template => "template"
  | forceStrings => "force-strings"
  | verbose => "verbose"
  | help => "help"
  | version => "version"

/-- The letter. -/
def letter : Flag → Char
  | mode => 'm'
  | encoding => 'e'
  | dataRoot => 'd'
  | template => 't'
  | forceStrings => 's'
  | verbose => 'v'
  | help => 'h'
  | version => 'V'

/-- Whether a value belongs to the option. -/
def takesValue : Flag → Bool
  | mode | encoding | dataRoot | template => true
  | forceStrings | verbose | help | version => false

/-- The option with a long name. -/
def ofLong? (name : String) : Option Flag :=
  all.find? (·.long = name)

/-- The option with a letter. -/
def ofLetter? (c : Char) : Option Flag :=
  all.find? (·.letter = c)

end Flag

/-- Why arguments are not followed. -/
inductive Refusal where
  | invalidValue
  /-- There is no such option, or no place for the argument. -/
  | unknownArgument
  | missingFile
  | repeatedOption
  /-- A value is given to an option that takes none. -/
  | unexpectedValue
  | help
  | version
deriving DecidableEq, Repr

/-- What arguments have asked for. -/
structure Request where
  file? : Option String := none
  mode? : Option Mode := none
  encoding? : Option String := none
  /-- The directory of data files, if given. -/
  dataRoot? : Option String := none
  template? : Option String := none
  /-- Whether tokens are strings whatever they look like. -/
  forceStrings : Bool := false
  verbose : Bool := false
deriving DecidableEq, Repr

namespace Request

/-- Whether an option is given. -/
def has (r : Request) : Flag → Bool
  | .mode => r.mode?.isSome
  | .encoding => r.encoding?.isSome
  | .dataRoot => r.dataRoot?.isSome
  | .template => r.template?.isSome
  | .forceStrings => r.forceStrings
  | .verbose => r.verbose
  | .help | .version => false

/-- A path, which is not empty. -/
def path (s : String) : Except Refusal String :=
  if s.isEmpty then .error .invalidValue else .ok s

/-- The mode with a name. -/
def mode (s : String) : Except Refusal Mode :=
  match [Mode.hash, .sequence, .expression].find? (·.word = s) with
  | some mode => .ok mode
  | none => .error .invalidValue

/-- Gives a value to an option that takes one. -/
def setValue (r : Request) (flag : Flag) (value : String) : Except Refusal Request := do
  if r.has flag then throw .repeatedOption
  match flag with
  | .mode => return { r with mode? := some (← mode value) }
  | .encoding => return { r with encoding? := some value }
  | .dataRoot => return { r with dataRoot? := some (← path value) }
  | .template => return { r with template? := some (← path value) }
  | _ => throw .unexpectedValue

/-- Sets an option that takes no value. -/
def raise (r : Request) (flag : Flag) : Except Refusal Request := do
  if r.has flag then throw .repeatedOption
  match flag with
  | .forceStrings => return { r with forceStrings := true }
  | .verbose => return { r with verbose := true }
  | .help => throw .help
  | .version => throw .version
  | _ => throw .invalidValue

end Request

/-- What has been read and has no effect yet. -/
inductive Pending where
  | nothing
  | awaiting (flag : Flag)
  | value (flag : Flag) (value : String)
  | file (name : String)
deriving DecidableEq, Repr

/-- The arguments that have been read. -/
structure Progress where
  request : Request := {}
  pending : Pending := .nothing
  named : Bool := false
  /-- Whether a double hyphen has been read. -/
  literal : Bool := false

namespace Progress

/-- Lets what is pending have its effect. -/
def settle (p : Progress) : Except Refusal Progress := do
  match p.pending with
  | .nothing => return p
  | .awaiting _ => throw .invalidValue
  | .value flag value =>
    return { p with request := ← p.request.setValue flag value, pending := .nothing }
  | .file name =>
    return { p with
      request := { p.request with file? := some (← Request.path name) }
      pending := .nothing }

/-- Begins an option that takes a value, which may be attached. -/
def startValue (p : Progress) (flag : Flag) (attached : Option String) :
    Except Refusal Progress := do
  let p ← p.settle
  match attached with
  | some value => return { p with request := ← p.request.setValue flag value }
  | none => return { p with pending := .awaiting flag }

/-- Follows an option that takes no value. -/
def raise (p : Progress) (flag : Flag) : Except Refusal Progress := do
  let p ← p.settle
  return { p with request := ← p.request.raise flag }

/-- Follows the letters after a hyphen. -/
def letters (p : Progress) : List Char → Except Refusal Progress
  | [] => .ok p
  | c :: l =>
    match Flag.ofLetter? c with
    | none => .error .unknownArgument
    | some flag =>
      if flag.takesValue then
        p.startValue flag
          (match l with
          | [] => none
          | '=' :: value => some (String.ofList value)
          | value => some (String.ofList value))
      else do letters (← p.raise flag) l

/-- Follows a long name with the value that is attached to it. -/
def longName (p : Progress) (l : List Char) : Except Refusal Progress :=
  let name := String.ofList (l.takeWhile (· ≠ '='))
  let attached :=
    match l.dropWhile (· ≠ '=') with
    | _ :: value => some (String.ofList value)
    | [] => none
  match Flag.ofLong? name with
  | none => .error .unknownArgument
  | some flag =>
    if flag.takesValue then p.startValue flag attached
    else if attached.isSome then .error .unexpectedValue
    else p.raise flag

/-- Takes an argument as the name of the file. -/
def name (p : Progress) (arg : String) : Except Refusal Progress := do
  if p.named then throw .unknownArgument
  let p ← p.settle
  return { p with pending := .file arg, named := true }

/-- Takes an argument that is no option: the value that an option awaits, or a name. -/
def plain (p : Progress) (arg : String) : Except Refusal Progress :=
  match p.pending with
  | .awaiting flag => .ok { p with pending := .value flag arg }
  | _ => p.name arg

/-- Reads one argument. -/
def read (p : Progress) (arg : String) : Except Refusal Progress :=
  if p.literal then p.name arg
  else
    match arg.toList with
    | ['-', '-'] => .ok { p with literal := true }
    | '-' :: '-' :: l => p.longName l
    | '-' :: c :: l => p.letters (c :: l)
    | _ => p.plain arg

end Progress

/-- What a run of the program is to do. -/
structure Options where
  file : String
  /-- The template to render, if the result is not to be dumped. -/
  template? : Option String
  verbose : Bool
  config : Loader.Config
  /-- How the top level of the file is read. -/
  mode : Mode
  /-- Whether tokens are strings whatever they look like. -/
  forceStrings : Bool
deriving DecidableEq, Repr

namespace Options

/-- Reads all arguments. Data files stand beside the file, if no other place is named. -/
def ofArguments (args : List String) : Except Refusal Options := do
  let request := (← (← args.foldlM Progress.read {}).settle).request
  match request.file? with
  | none => throw .missingFile
  | some file =>
    let defaults : Loader.Config := { dataRoot := Path.directory file }
    return {
      file := file
      template? := request.template?
      verbose := request.verbose
      config := ⟨request.dataRoot?.getD defaults.dataRoot,
        request.encoding?.getD defaults.encoding⟩
      mode := request.mode?.getD .hash
      forceStrings := request.forceStrings }

end Options
end CommandLine
end TextualData
