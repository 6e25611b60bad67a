import TextualData.Cursor
import TextualData.Error.Syntax

/-!
# Scanning

A `Scan` moves a cursor and may refuse the text. The cursor of a failed scan is kept, because what
is told about the end of an unfinished scope depends on where the scan stopped.
-/

namespace TextualData

/-- Why a scan stopped, and the byte offset that is to blame. -/
structure ScanFault where
  cause : Malformation
  /-- The byte offset of the place to blame. -/
  position : Nat
deriving DecidableEq, Repr

/-- A computation that moves a cursor and may fail. -/
abbrev Scan := EStateM ScanFault Cursor

namespace Scan

variable {α : Type}

/-- Fails with the blame on a given place. -/
def refuseAt (position : Nat) (cause : Malformation) : Scan α :=
  throw ⟨cause, position⟩

/-- Fails with the blame on the cursor. -/
def refuse (cause : Malformation) : Scan α := do
  refuseAt (← get).position cause

/-- The character at the cursor, if the window does not end there. -/
def peek? : Scan (Option Char) := do
  return (← get).peek?

/-- Moves the cursor over one character. -/
def next : Scan Unit :=
  modify Cursor.next

end Scan
end TextualData
