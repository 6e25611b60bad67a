import TextualData.Loader.Basic

/-!
# Simple loaders for applications

Loaders that show what they see, evaluate a text that they are given, or fail.
-/

namespace TextualData
namespace Loader
namespace Custom

/-- Gives its arguments as a sequence. -/
def arguments : Custom := fun call =>
  return .sequence call.arguments

/-- Gives the data. -/
def data : Custom := fun call =>
  return .hash call.data

/-- Gives the name of the encoding that is set. -/
def encoding : Custom := fun call =>
  return .string call.config.encoding

/-- Evaluates its first argument as the entries of a hash. -/
def hash : Custom := fun call => do
  match call.arguments with
  | .string text :: _ => return .hash (← call.nested.hash ⟨text, none⟩)
  | _ => throw (.loading (.custom "hash(text) takes a string"))

/-- Fails with a message. -/
def failing (message : String) : Custom := fun _ =>
  throw (.loading (.custom message))

end Custom
end Loader
end TextualData
