import TextualData.Error.Loading
import TextualData.Value.Basic

/-!
# Options of loaders

A loader may take a hash of options. The readers here turn the value of one option into what the
loader needs, or say what the value has to be.
-/

namespace TextualData
namespace LoaderOption

/-- A string. -/
def string (name : String) : Value → Except LoadFault String
  | .string s => .ok s
  | _ => .error (.optionValue name .string)

/-- A truth value. -/
def boolean (name : String) : Value → Except LoadFault Bool
  | .boolean b => .ok b
  | _ => .error (.optionValue name .boolean)

/-- A single character, or the word `tab` in any letter case for the tab. -/
def character (name : String) : Value → Except LoadFault Char
  | .string s =>
    if s.toList.map Char.toLower = ['t', 'a', 'b'] then .ok '\t'
    else
      match s.toList with
      | [c] => .ok c
      | _ => .error (.optionValue name .oneCharacterOrTab)
  | _ => .error (.optionValue name .character)

/-- The strings of a sequence, the first of which has the given index. -/
def stringsFrom (name : String) (index : Nat) : List Value → Except LoadFault (List String)
  | [] => .ok []
  | .string s :: vs => do return s :: (← stringsFrom name (index + 1) vs)
  | _ :: _ => .error (.optionValue name (.stringAt index))

/-- A sequence of strings. -/
def strings (name : String) : Value → Except LoadFault (List String)
  | .sequence items => stringsFrom name 0 items
  | _ => .error (.optionValue name .strings)

/-- A sequence of strings, or a single string. -/
def stringsOrString (name : String) : Value → Except LoadFault (List String)
  | .sequence items => stringsFrom name 0 items
  | .string s => .ok [s]
  | _ => .error (.optionValue name .stringsOrString)

end LoaderOption
end TextualData
