import TextualData.Location
import TextualData.Error.Syntax
import TextualData.Error.Loading

/-!
# Errors

An `Error` is a cause with, for the errors of evaluation itself, the place where it was found.
`Error.message` is the whole text shown to a user, `Error.chain` the error followed by its causes.
-/

namespace TextualData

/-- Why a well-formed text cannot be evaluated. -/
inductive EvaluationFault where
  /-- Nothing resolves the function that stands for a key. -/
  | unresolvedKey
  | keyKind (kind : Value.Kind)
  /-- What stands in place of an entry is neither a key nor a hash. -/
  | entryKind (kind : Value.Kind)
  /-- The function in place of an entry gives no hash. -/
  | resultKind (kind : Value.Kind)
deriving DecidableEq, Repr

/-- The message for a text that cannot be evaluated. -/
def EvaluationFault.message : EvaluationFault → String
  | unresolvedKey =>
    "You can't use the function here, because it can't be evaluated in this context."
  | keyKind kind => "The key must be a String, but it is a(n) " ++ kind.name ++ "."
  | entryKind kind =>
    "This expression should be either a string or a hash, but it is a(n) " ++ kind.name ++ "."
  | resultKind kind =>
    "Function doesn't evaluate to a hash, but to " ++ kind.name ++
      ", so it can't be merged into the hash."

/-- Why a file cannot be read. -/
inductive FileFault where
  | notFound
  | notDirectory
  | isDirectory
  | other (reason : String)
deriving DecidableEq, Repr

/-- The message for an unreadable file. -/
def FileFault.message : FileFault → String
  | notFound => "No such file or directory (os error 2)"
  | notDirectory => "Not a directory (os error 20)"
  | isDirectory => "Is a directory (os error 21)"
  | other reason => reason

/-- The formats of documents that are read as a whole, or not at all. -/
inductive Format where
  | json
  | yaml
  | template
deriving DecidableEq, Repr

/-- The name of a format in a message. -/
def Format.name : Format → String
  | json => "JSON"
  | yaml => "YAML"
  | template => "Template"

/-- What can go wrong. -/
inductive Error where
  | malformed (fault : Malformation) (location : Location)
  /-- The text is well-formed, and means nothing. -/
  | evaluation (fault : EvaluationFault) (location : Location)
  | call (name : String) (location : Location) (cause : Error)
  /-- The environment failed outside of a function call. -/
  | environment (cause : Error) (location : Location)
  | file (fault : FileFault)
  /-- A document is not of the format it should have, for the reason given. -/
  | document (format : Format) (reason : String)
  | encoding (name : String)
  | loading (fault : LoadFault)
deriving DecidableEq, Repr

namespace Error

/-- Where the error was found, for errors of evaluation. -/
def location? : Error → Option Location
  | malformed _ l => some l
  | evaluation _ l => some l
  | call _ l _ => some l
  | environment _ l => some l
  | _ => none

/-- Whether the error comes from evaluation itself, and so has a location. -/
def isLocated (e : Error) : Bool :=
  e.location?.isSome

/-- The error behind this one. -/
def cause? : Error → Option Error
  | call _ _ cause => some cause
  | environment cause _ => some cause
  | _ => none

/-- The text of the error, its location included. -/
def message : Error → String
  | malformed fault l => "TDD syntax error: " ++ fault.message ++ l.render
  | evaluation fault l => "TDD error: " ++ fault.message ++ l.render
  | call name l _ =>
    "TDD error: Failed to evaluate function " ++ Text.quote name ++ "." ++ l.render
  | environment cause l => "Error while evaluating TDD: " ++ cause.message ++ l.render
  | file fault => "IO error: " ++ fault.message ++ "."
  | document format reason => format.name ++ " error: " ++ reason ++ "."
  | encoding name => s!"Unsupported encoding: {name}."
  | loading fault => "Data loader error: " ++ fault.message

/-- The reason behind an error about a file or a document, in words. -/
def reason? : Error → Option String
  | file fault => some fault.message
  | document _ reason => some reason
  | _ => none

/-- The error and the errors behind it, outermost first. -/
def chain : Error → List Error
  | call name l cause => call name l cause :: cause.chain
  | environment cause l => environment cause l :: cause.chain
  | e => [e]

end Error
end TextualData
