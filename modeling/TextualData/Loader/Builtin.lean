import TextualData.Charset.Decode
import TextualData.Document.Json
import TextualData.Document.Yaml.Document
import TextualData.Loader.Arguments
import TextualData.Loader.Basic
import TextualData.Properties
import TextualData.Slices.Options
import TextualData.Table.Basic

/-!
# Loaders of files

`Loader.Builtin` lists the loaders that are always there, each of which reads one file.
`Builtin.ofName` finds one by the name of its function, and `Builtin.load` runs it.
-/

namespace TextualData
namespace Loader

/-- The loaders that are always there. -/
inductive Builtin where
  /-- Evaluates a file as the entries of a hash. -/
  | tdd
  /-- Evaluates a file as the items of a sequence. -/
  | tddSequence
  | text
  | json
  | yaml
  | properties
  | csv
  /-- Cuts the content of a file into slices. -/
  | slicedText
deriving DecidableEq, Repr

/-- The text of bytes that may declare their encoding; otherwise they are in the given one. -/
def decodeSource (bytes : List UInt8) (encoding : String) : LoadM String := do
  if let some declared := Charset.declared? bytes then
    LoadM.report (.header declared encoding)
  LoadM.ofExcept (Charset.decodeSource bytes encoding)

namespace Builtin

/-- The loaders in order. -/
def all : List Builtin :=
  [tdd, tddSequence, text, json, yaml, properties, csv, slicedText]

/-- The name of the function. -/
def name : Builtin → String
  | tdd => "tdd"
  | tddSequence => "tddSequence"
  | text => "text"
  | json => "json"
  | yaml => "yaml"
  | properties => "properties"
  | csv => "csv"
  | slicedText => "slicedText"

/-- The loader with a name. -/
def ofName (name : String) : Except LoadFault Builtin :=
  match all.find? (·.name = name) with
  | some loader => .ok loader
  | none => .error (.unknownLoader name)

/-- What the function takes after the name of the file. -/
def second : Builtin → SecondArgument
  | tdd | tddSequence | text => .encoding
  | json | yaml | properties => .nothing
  | csv | slicedText => .options

/-- The form of a call. -/
def usage (loader : Builtin) : Usage :=
  ⟨loader.name, loader.second⟩

/-- The bytes of a file. -/
def readFile (files : Files) (path : String) : LoadM (List UInt8) := do
  LoadM.report (.file path)
  LoadM.ofExcept ((files.read path).mapError .file)

/-- The characters of a file in an encoding, without a byte order mark. -/
def readText (files : Files) (path encoding : String) : LoadM (List Char) := do
  let text ← LoadM.ofExcept (Charset.decode (← readFile files path) encoding)
  return Text.withoutByteOrderMark text.toList

/-- The text of a file that may declare its encoding, under the canonical name of the file. -/
def readSource (files : Files) (path encoding : String) : LoadM Source := do
  let text ← decodeSource (← readFile files path) encoding
  return ⟨text, some (files.canonical path)⟩

/-- Reads a JSON document. -/
def readJson (l : List Char) : Except Error Value :=
  match Json.parse? (String.ofList l) with
  | some document => document.toValue.mapError .loading
  | none => .error (.document .json "malformed document")

/-- Reads a YAML document. -/
def readYaml (l : List Char) : Except Error Value :=
  match Yaml.parse? (String.ofList l) with
  | some document => document.toValue.mapError .loading
  | none => .error (.document .yaml "malformed document")

/-- Runs a loader. All arguments are checked before the file is read. -/
def load (loader : Builtin) (files : Files) (call : Call) : LoadM Value := do
  let arguments ← LoadM.ofFault (Arguments.ofList loader.usage call.arguments)
  let path := call.config.resolve arguments.file
  let encoding := arguments.encoding?.getD call.config.encoding
  match loader with
  | tdd => return .hash (← call.nested.hash (← readSource files path encoding))
  | tddSequence => return .sequence (← call.nested.sequence (← readSource files path encoding))
  | text => return .string (String.ofList (← readText files path encoding))
  | json => LoadM.ofExcept (readJson (← readText files path Charset.utf8.name))
  | yaml => LoadM.ofExcept (readYaml (← readText files path Charset.utf8.name))
  | properties =>
    let bytes ← readFile files path
    return .hash (← LoadM.ofFault (Properties.parse (String.ofList (bytes.map Charset.latin1Char))))
  | csv =>
    let options ← LoadM.ofFault (Table.Options.ofHash arguments.options)
    let table ← LoadM.ofFault (Table.load options (← readText files path encoding))
    LoadM.report (.table table.rows.length table.columns.length)
    return .sequence (table.rows.map Value.hash)
  | slicedText =>
    let plan ← LoadM.ofFault (Slices.Plan.ofHash arguments.options)
    let slices := Slices.cut plan (← readText files path encoding)
    return .sequence (slices.map fun slice => .string (String.ofList slice))

end Builtin
end Loader
end TextualData
