import TextualData.Grammar.Blanks
import TextualData.Grammar.Literal
import TextualData.Grammar.Token

/-!
# The extent of an expression

`Scan.extent` moves the cursor over an expression without evaluating it: over a bracketed listing
with anything in it that is well bracketed, a literal, or a token with the parameters of its call.
-/

namespace TextualData
namespace Extent

/-- The bracket that closes what the character opens. -/
def closing? (c : Char) : Option Char :=
  if c = '{' then some '}'
  else if c = '[' then some ']'
  else if c = '<' then some '>'
  else if c = '(' then some ')'
  else none

/-- Whether the character stands between items. -/
def separates (c : Char) : Bool :=
  c == ',' || c == ':' || c == ';' || c == '='

/-- Moves over a quoted literal from within. A backslash takes the next character with it. -/
def quoted (quotation : Char) (start : Nat) : (before rest : List Char) →
    EStateM.Result ScanFault Cursor Unit
  | before, [] => .error ⟨.unclosedString quotation, start⟩ ⟨before, []⟩
  | before, c :: rest =>
    if c = quotation then .ok () ⟨c :: before, rest⟩
    else if c = Text.backslash then
      match rest with
      | [] => .error ⟨.unclosedString quotation, start⟩ ⟨c :: before, []⟩
      | e :: rest => quoted quotation start (e :: c :: before) rest
    else quoted quotation start (c :: before) rest

mutual

/-- Moves over the expression at the cursor. The number bounds the recursion. -/
def expression : Nat → Scan Unit
  | 0 => Scan.refuse .exhausted
  | bound + 1 => do
    let start ← get
    match start.peek? with
    | none => Scan.refuse .unexpectedEnd
    | some c =>
      match closing? c, Literal.rawQuotation? start.rest with
      | some closing, _ => bracketed bound closing
      | none, some quotation =>
        let _ ← Scan.raw quotation
      | none, none =>
        if Literal.isQuotation c then
          fun s => quoted c start.position s.next.before s.next.rest
        else
          let token ← Scan.token false
          if token.isEmpty then Scan.refuse .unexpectedCharacter
          let stop ← get
          let _ ← Scan.blanks
          if (← Scan.peek?) = some '(' then bracketed bound ')'
          else set stop

/-- Moves over a listing from its opening bracket to its closing one. -/
def bracketed : Nat → Char → Scan Unit
  | 0, _ => Scan.refuse .exhausted
  | bound + 1, closing => do
    let start := (← get).position
    Scan.next
    let _ ← Scan.blanks
    items bound closing start
    Scan.next

/-- Moves over items and separators up to the closing bracket. -/
def items : Nat → Char → (start : Nat) → Scan Unit
  | 0, _, _ => Scan.refuse .exhausted
  | bound + 1, closing, start => do
    match ← Scan.peek? with
    | none => Scan.refuseAt start (.unclosedListing closing)
    | some c =>
      if c = closing then return
      if separates c then Scan.next else expression bound
      let _ ← Scan.blanks
      items bound closing start

end

end Extent

/-- Moves the cursor over the expression that begins at it. -/
def Scan.extent : Scan Unit := fun c =>
  Extent.expression (3 * c.rest.length + 3) c

end TextualData
