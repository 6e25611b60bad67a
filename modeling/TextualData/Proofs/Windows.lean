import TextualData.Proofs.Tasks
import TextualData.Proofs.Progress

/-!
# Windows of a text

The window between two byte offsets of a text, in terms of the characters before it, in it and after
it; and the text that stands around a place.
-/

namespace TextualData

namespace Text

private theorem go_append (before l rest : List Char) :
    splitAtByte.go before (byteSize l) (l ++ rest) = (l.reverse ++ before, rest) := by
  induction l generalizing before with
  | nil => cases rest <;> rfl
  | cons x l ih =>
    have hx := Char.utf8Size_pos x
    obtain ⟨n, hn⟩ : ∃ n, byteSize (x :: l) = n + 1 := ⟨byteSize (x :: l) - 1, by simp; omega⟩
    have hrest : n + 1 - x.utf8Size = byteSize l := by simp at hn; omega
    rw [List.cons_append, hn]
    show splitAtByte.go (x :: before) (n + 1 - x.utf8Size) (l ++ rest) = _
    rw [hrest, ih]
    simp

/-- A text is cut behind its first characters at their size. -/
theorem splitAtByte_byteSize (l rest : List Char) :
    splitAtByte (byteSize l) (l ++ rest) = (l.reverse, rest) := by
  simpa [splitAtByte] using go_append [] l rest

end Text

namespace Cursor

/-- The window of the characters between two others. -/
theorem ofWindow_append (before l after : List Char) :
    ofWindow (before ++ l ++ after) (Text.byteSize before) (Text.byteSize (before ++ l)) =
      ⟨before.reverse, l⟩ := by
  have hsize : Text.byteSize (before ++ l) - Text.byteSize before = Text.byteSize l := by simp
  simp only [ofWindow, List.append_assoc, Text.splitAtByte_byteSize, hsize, List.reverse_reverse]

/-- A window is a part of its text, wherever it is asked for. -/
theorem ofWindow_isPart (text : List Char) (start stop : Nat) :
    ∃ after, text = (ofWindow text start stop).before.reverse ++ (ofWindow text start stop).rest ++
      after := by
  have hstart := Text.splitAtByte_append start text
  have hstop := Text.splitAtByte_append (stop - start) (Text.splitAtByte start text).2
  refine ⟨(Text.splitAtByte (stop - start) (Text.splitAtByte start text).2).2, ?_⟩
  simp only [ofWindow, List.append_assoc]
  rw [hstop, hstart]

/-- A place in a window has the text of the window around it. -/
theorem Leads.append_eq {w c : Cursor} (h : w.Leads c) :
    c.before.reverse ++ c.rest = w.before.reverse ++ w.rest := by
  obtain ⟨l, hrest, hbefore⟩ := h
  simp [hrest, hbefore]

theorem Leads.position_le {c d : Cursor} (h : c.Leads d) : c.position ≤ d.position := by
  obtain ⟨l, -, hbefore⟩ := h
  simp [Cursor.position, hbefore]

theorem Leads.position_lt {c d : Cursor} (h : c.Leads d)
    (hlt : d.rest.length < c.rest.length) : c.position < d.position := by
  obtain ⟨l, hrest, hbefore⟩ := h
  cases l with
  | nil => simp [hrest] at hlt
  | cons x l =>
    have hx := x.utf8Size_pos
    simp [Cursor.position, hbefore]
    omega

end Cursor

/-- The window of a task is a part of the text of the task. -/
theorem Task.window_isPart (task : Task) : ∃ after,
    task.source.text.toList = task.window.before.reverse ++ task.window.rest ++ after := by
  cases task with
  | text source mode forced => exact ⟨[], by simp [Task.window, Task.source, Cursor.ofText]⟩
  | fragment f forced => exact Cursor.ofWindow_isPart _ _ _

end TextualData
