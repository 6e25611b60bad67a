import TextualData.Environment.Basic

/-!
# Variables

The function `get` reads a variable, or an entry of a hash inside of it. Variables are the entries
that the hashes under construction hold so far, and then the data that was there before. A hash
inside of a sequence or of the parameters of a function is not visible: `Visibility` keeps track
of which hashes are.
-/

namespace TextualData

/-- Which of the hashes under construction are visible. -/
structure Visibility where
  /-- For each visible hash the number of hashes around it, innermost first. -/
  depths : List Nat := []
  /-- The number of sequences and parameter lists that have begun and not ended. -/
  barriers : Nat := 0
deriving DecidableEq, Repr

namespace Visibility

/-- Follows an event, at which there is the given number of hashes under construction. -/
def update (v : Visibility) (event : Event) (openHashes : Nat) : Visibility :=
  match event with
  | .enter .sequence | .enter (.params _) => { v with barriers := v.barriers + 1 }
  | .leave .sequence | .leave (.params _) => { v with barriers := v.barriers - 1 }
  | .enter .hash => if v.barriers = 0 then { v with depths := (openHashes - 1) :: v.depths } else v
  | .leave .hash => if v.barriers = 0 then { v with depths := v.depths.tail } else v
  | .enter (.key _) | .leave (.key _) => v

/-- The visible hashes, innermost first, of those under construction in the same order. -/
def hashes (v : Visibility) (openHashes : List Hash) : List Hash :=
  v.depths.filterMap fun depth => openHashes.reverse[depth]?

end Visibility

namespace Variable

/-- The value of a variable: that of the first hash that has it, or that of the data. -/
def lookup? (hashes : List Hash) (data : Hash) (name : String) : Option Value :=
  (hashes ++ [data]).findSome? (·.get? name)

/-- A parameter of `get`, counted from one, which is a name. -/
def name (position : Nat) : Value → Except LoadFault String
  | .string s => .ok s
  | v => .error (.getParameter position v.kind)

/-- Follows the names from the one at the given position into a value. -/
def follow (position : Nat) : Value → List Value → Except LoadFault Value
  | v, [] => .ok v
  | .hash h, param :: params => do
    let name ← name position param
    match Entries.get? h name with
    | some v => follow (position + 1) v params
    | none => .error (.noSubvariable name position)
  | v, _ :: _ => .error (.notHashVariable (position - 1) v.kind)

/-- What `get` gives: the value of a variable, or of an entry inside of it. -/
def get (hashes : List Hash) (data : Hash) : List Value → Except LoadFault Value
  | [] => .error .getWithoutParameters
  | param :: params => do
    let name ← name 1 param
    match lookup? hashes data name with
    | some v => follow 2 v params
    | none => .error (.noVariable name)

end Variable
end TextualData
