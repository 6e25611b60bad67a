import TextualData.Value.Basic

/-!
# Equality of values

`Value.equal` compares decimals by the number they denote and hashes without regard to order; an
integer never equals a decimal. Fragments are equal if they are the same place of the same text.
-/

namespace TextualData
namespace Value

mutual

/-- Whether two values are equal. -/
def equal : Value → Value → Bool
  | string a, string b => a == b
  | integer a, integer b => a == b
  | decimal a, decimal b => a.sameValue b
  | boolean a, boolean b => a == b
  | sequence a, sequence b => equalItems a b
  | hash a, hash b => a.length == b.length && equalEntries a b
  | call f a, call g b => f == g && equalItems a b
  | fragment a, fragment b => a == b
  | _, _ => false

/-- Whether two lists have equal values in the same order. -/
def equalItems : List Value → List Value → Bool
  | [], [] => true
  | a :: as, b :: bs => equal a b && equalItems as bs
  | _, _ => false

/-- Whether each entry is found with an equal value among the others. -/
def equalEntries : List (String × Value) → List (String × Value) → Bool
  | [], _ => true
  | (k, v) :: es, others =>
    (match Entries.get? others k with
      | some w => equal v w
      | none => false) && equalEntries es others

end

end Value
end TextualData
