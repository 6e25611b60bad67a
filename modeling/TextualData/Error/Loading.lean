import TextualData.Value.Basic
import TextualData.Text.Quoted

/-!
# Failures of data loaders

`LoadFault` lists the ways in which a data loader or the function `get` refuses its arguments or
the data it reads, with the message for each.
-/

namespace TextualData

/-- What the value of an option has to be. -/
inductive OptionRequirement where
  | string
  | boolean
  /-- A string that is read as a character. -/
  | character
  /-- One character, or the word for the tab. -/
  | oneCharacterOrTab
  /-- Strings throughout, which the item at an index is not. -/
  | stringAt (index : Nat)
  | stringsOrString
  | strings
deriving DecidableEq, Repr

/-- The requirement in words. -/
def OptionRequirement.text : OptionRequirement → String
  | string => "a string"
  | boolean => "a boolean"
  | character => "a character"
  | oneCharacterOrTab => "1 character long or tab"
  | stringAt index =>
    s!"a sequence of strings, but the item at index {index} is not a string"
  | stringsOrString => "a sequence of strings or a single string, but it is neither"
  | strings => "a sequence of strings, but it is not even a sequence"

/-- Why a loader failed. -/
inductive LoadFault where
  | unknownLoader (name : String)
  /-- A parameter of `get`, counted from one, is not a string. -/
  | getParameter (position : Nat) (kind : Value.Kind)
  | noVariable (name : String)
  /-- The hash found so far has no such key. -/
  | noSubvariable (name : String) (position : Nat)
  /-- A parameter of `get` names something that is no hash, and more parameters follow. -/
  | notHashVariable (position : Nat) (kind : Value.Kind)
  /-- The function `get` was called without parameters. -/
  | getWithoutParameters
  /-- A loader was called with too few or too many arguments. -/
  | argumentCount (usage : String)
  | fileNameArgument (usage : String) (kind : Value.Kind)
  /-- The second argument is no encoding name. -/
  | encodingArgument (usage : String) (kind : Value.Kind)
  /-- The second argument is no hash of options. -/
  | optionsArgument (usage : String) (kind : Value.Kind)
  | optionValue (name : String) (requirement : OptionRequirement)
  | unknownOption (name : String) (supported : String)
  | emptySeparator (name : String)
  /-- Header cells are given by two options. -/
  | conflictingHeaders
  /-- The separator of cells is not an ASCII character. -/
  | wideSeparator (c : Char)
  /-- A header cell asks for dates or times. -/
  | dateColumn (type : String)
  | unknownColumnType (type : String)
  /-- A record has more cells than there are columns. -/
  | wideRow (row : Nat)
  /-- A cell cannot be read as the type of its column. -/
  | invalidCell (cell : String) (type : String) (row : Nat) (column : String)
  | jsonNull
  | yamlNull
  /-- A key of a YAML mapping, as shown, is no string. -/
  | yamlKey (key : String)
  | unrepresentableNumber (text : String)
  /-- A numeric escape in a properties file has other digits than it should. -/
  | malformedEscape (digits : String)
  /-- Loaders called each other to a depth that is not allowed. -/
  | nestedTooDeep
  /-- A loader that the application registered failed. -/
  | custom (message : String)
deriving DecidableEq, Repr

/-- The message for a failed loader. -/
def LoadFault.message : LoadFault → String
  | unknownLoader name => s!"Unknown data loader: {name}"
  | getParameter position kind =>
    "Parameters to function \"get\" must be strings, but parameter at position " ++
      s!"{position} is a " ++ kind.name ++ "."
  | noVariable name => "No variable with name " ++ Text.quote name ++ " exists."
  | noSubvariable name position =>
    "No sub-variable with name " ++ Text.quote name ++
      s!" exists (referred by parameter at position {position})."
  | notHashVariable position kind =>
    s!"Parameter at position {position} must be the name of a hash variable, but it is the name " ++
       "of a " ++ kind.name ++ " variable."
  | getWithoutParameters =>
    "Function \"get\" needs at least 1 arguments. get(name, subName, subSubName, ...)"
  | argumentCount usage => s!"Wrong number of arguments, the call must look like {usage}"
  | fileNameArgument usage kind =>
    s!"The 1st argument of {usage} (file name) must be a string, but it is a(n) " ++ kind.name
  | encodingArgument usage kind =>
    s!"The 2nd argument of {usage} (encoding) must be a string, but it is a(n) " ++ kind.name
  | optionsArgument usage kind =>
    s!"The 2nd argument of {usage} (options) must be a hash, but it is a(n) " ++ kind.name
  | optionValue name requirement =>
    "The value of the " ++ Text.quote name ++ " option must be " ++ requirement.text ++ "."
  | unknownOption name supported =>
    "Unknown option: " ++ Text.quote name ++ s!". The supported options are: {supported}"
  | emptySeparator name =>
    "The value of the " ++ Text.quote name ++ " option can't be 0 length string."
  | conflictingHeaders =>
    "Only one of the \"headers\" and \"replaceHeaders\" options can be used at once."
  | wideSeparator c =>
    "The separator must be an ASCII character, but it is " ++
      Text.quote (String.singleton c) ++ "."
  | dateColumn type =>
    "Date and time columns are not supported, found type " ++ Text.quote type ++ " in a header."
  | unknownColumnType type => "Unknown data type in a header: " ++ Text.quote type
  | wideRow row => s!"Row {row} contains more columns than the number of header cells."
  | invalidCell cell type row column =>
    "Value " ++ Text.quote cell ++ s!" is not a valid {type} (row {row}, column " ++
      Text.quote column ++ ")."
  | jsonNull => "JSON null is not supported"
  | yamlNull => "YAML null is not supported"
  | yamlKey key => s!"YAML mapping keys must be strings, but found {key}"
  | unrepresentableNumber text => s!"Number {text} can't be represented"
  | malformedEscape digits => s!"Malformed \\uxxxx encoding in properties: \\u{digits}"
  | nestedTooDeep => "Data files are nested too deeply."
  | custom message => message

end TextualData
