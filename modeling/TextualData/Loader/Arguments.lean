import TextualData.Loader.Option

/-!
# Arguments of file loaders

A loader that reads a file takes its name and either an encoding, or options, or nothing more. A
`Usage` is the form of the call; messages show it and the number of arguments follows from it.
-/

namespace TextualData
namespace Loader

/-- What a loader takes after the name of the file. -/
inductive SecondArgument where
  | nothing
  /-- The encoding of the file, which may be left out. -/
  | encoding
  /-- A hash of options, which may be left out. -/
  | options
deriving DecidableEq, Repr

/-- The form of a call. -/
structure Usage where
  name : String
  second : SecondArgument
deriving DecidableEq, Repr

namespace Usage

/-- The form of the call as messages show it. -/
def text (usage : Usage) : String :=
  usage.name ++
    match usage.second with
    | .nothing => "(fileName)"
    | .encoding => "(fileName[, encoding])"
    | .options => "(fileName[, options])"

/-- The greatest number of arguments. -/
def maximum (usage : Usage) : Nat :=
  match usage.second with
  | .nothing => 1
  | _ => 2

end Usage

/-- The arguments of a call. -/
structure Arguments where
  file : String
  encoding? : Option String := none
  options : Hash := []

namespace Arguments

/-- The name of the file. -/
def fileName (usage : Usage) : Value → Except LoadFault String
  | .string s => .ok s
  | v => .error (.fileNameArgument usage.text v.kind)

/-- The options, with the encoding taken out. -/
def ofOptions (file : String) (options : Hash) : Except LoadFault Arguments :=
  match options.get? "encoding" with
  | none => .ok ⟨file, none, options⟩
  | some v => do
    return ⟨file, some (← LoaderOption.string "encoding" v), options.erase "encoding"⟩

/-- Reads what follows the name of the file. -/
def readSecond (usage : Usage) (file : String) (v : Value) : Except LoadFault Arguments :=
  match usage.second, v with
  | .options, .hash options => ofOptions file options
  | .options, v => .error (.optionsArgument usage.text v.kind)
  | _, .string encoding => .ok ⟨file, some encoding, []⟩
  | _, v => .error (.encodingArgument usage.text v.kind)

/-- Reads the arguments of a call. -/
def ofList (usage : Usage) (args : List Value) : Except LoadFault Arguments :=
  if usage.maximum < args.length then .error (.argumentCount usage.text)
  else
    match args with
    | [] => .error (.argumentCount usage.text)
    | first :: more => do
      let file ← fileName usage first
      match more with
      | [] => return ⟨file, none, []⟩
      | second :: _ => readSecond usage file second

end Arguments
end Loader
end TextualData
