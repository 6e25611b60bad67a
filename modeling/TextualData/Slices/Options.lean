import TextualData.Loader.Option
import TextualData.Slices.Basic

/-!
# Options of slices

`Slices.Plan.ofHash` reads the options that say how a text is cut.
-/

namespace TextualData
namespace Slices
namespace Plan

/-- The names of all options, as a message lists them. -/
def supported : String :=
  "encoding, separator, trim, dropEmptyLastItem"

/-- Sets the separator, whose line breaks may be of any kind. -/
def setSeparator (plan : Plan) (name separator : String) : Except LoadFault Plan :=
  match Text.normalizeLineBreaks separator.toList with
  | [] => .error (.emptySeparator name)
  | c :: l => .ok { plan with separator := c :: l, separator_ne_nil := by simp }

/-- Sets one option. -/
def set (plan : Plan) (name : String) (v : Value) : Except LoadFault Plan := do
  match name with
  | "separator" => plan.setSeparator name (← LoaderOption.string name v)
  | "trim" => return { plan with trim := ← LoaderOption.boolean name v }
  | "dropEmptyLastItem" => return { plan with dropEmptyLast := ← LoaderOption.boolean name v }
  | _ => throw (.unknownOption name supported)

/-- Reads options in order. -/
def ofHash (h : Hash) : Except LoadFault Plan :=
  h.foldlM (fun plan e => plan.set e.1 e.2) {}

end Plan
end Slices
end TextualData
