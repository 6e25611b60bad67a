import TextualData.Proofs.Windows

/-!
# Windows between characters

A byte offset is a place in a text if it is between two characters; `Task.Holds` says this of the
offsets in the window of a task. `Task.HasWindow` asks it of the ends of the window, and then all
places of the window are such offsets.
-/

namespace TextualData

theorem Text.utf8ByteSize_ofList (l : List Char) :
    (String.ofList l).utf8ByteSize = byteSize l := by
  induction l with
  | nil => rfl
  | cons x l ih =>
    rw [show x :: l = [x] ++ l from rfl, String.ofList_append, String.utf8ByteSize_append, ih,
      ← String.singleton_eq_ofList, String.utf8ByteSize_singleton, byteSize_append, byteSize_cons,
      byteSize_nil, Nat.add_zero]

/-- An offset is between two characters if it is the size of the first characters of the text. -/
theorem Text.isValid_iff {text : String} {offset : Nat} :
    (String.Pos.Raw.mk offset).IsValid text ↔
      ∃ l m, text.toList = l ++ m ∧ byteSize l = offset := by
  rw [String.Pos.Raw.isValid_iff_exists_append]
  constructor
  · rintro ⟨s, t, rfl, hoffset⟩
    refine ⟨s.toList, t.toList, String.toList_append, ?_⟩
    rw [← utf8ByteSize_ofList, String.ofList_toList]
    exact (congrArg String.Pos.Raw.byteIdx hoffset).symm
  · rintro ⟨l, m, htext, rfl⟩
    refine ⟨String.ofList l, String.ofList m, ?_, ?_⟩
    · rw [← String.ofList_append, ← htext, String.ofList_toList]
    · rw [← utf8ByteSize_ofList]
      rfl

/-- Of two beginnings of a text the shorter one is the beginning of the other. -/
theorem Text.exists_append_of_byteSize_le {k l m n : List Char} (h : k ++ l = m ++ n)
    (hle : byteSize k ≤ byteSize m) : ∃ k', m = k ++ k' := by
  rcases List.append_eq_append_iff.1 h with ⟨k', rfl, -⟩ | ⟨k', rfl, -⟩
  · exact ⟨k', rfl⟩
  · cases k' with
    | nil => exact ⟨[], by simp⟩
    | cons x k' =>
      have hx := x.utf8Size_pos
      simp at hle
      omega

namespace Task

/-- Where the window of a task begins, as a byte offset. -/
def start : Task → Nat
  | text .. => 0
  | fragment f _ => f.start

/-- Where the window of a task ends, as a byte offset. -/
def stop : Task → Nat
  | text source _ _ => source.text.utf8ByteSize
  | fragment f _ => f.stop

/-- The byte offset is in the window of the task and between two characters of the text. -/
structure Holds (task : Task) (offset : Nat) : Prop where
  start_le : task.start ≤ offset
  le_stop : offset ≤ task.stop
  isValid : (String.Pos.Raw.mk offset).IsValid task.source.text

/-- The window of the task begins and ends between two characters. -/
def HasWindow (task : Task) : Prop :=
  task.Holds task.start ∧ task.Holds task.stop

variable {task : Task}

/-- The characters before the window, in it and behind it. -/
theorem HasWindow.exists_parts (h : task.HasWindow) : ∃ before l after,
    task.source.text.toList = before ++ l ++ after ∧ task.window = ⟨before.reverse, l⟩ ∧
      Text.byteSize before = task.start ∧ Text.byteSize (before ++ l) = task.stop := by
  cases task with
  | text source mode forced =>
    refine ⟨[], source.text.toList, [], (List.append_nil _).symm, rfl, rfl, ?_⟩
    rw [List.nil_append, ← Text.utf8ByteSize_ofList, String.ofList_toList]
    rfl
  | fragment f forced =>
    obtain ⟨before, rest, htext, hstart⟩ := Text.isValid_iff.1 h.1.isValid
    obtain ⟨upTo, after, htext', hstop⟩ := Text.isValid_iff.1 h.2.isValid
    have hle : Text.byteSize before ≤ Text.byteSize upTo := by
      rw [hstart, hstop]
      exact h.1.le_stop
    obtain ⟨l, rfl⟩ := Text.exists_append_of_byteSize_le (htext.symm.trans htext') hle
    refine ⟨before, l, after, htext', ?_, hstart, hstop⟩
    have hwindow : f.text.toList = before ++ l ++ after := htext'
    have hstart' : f.start = Text.byteSize before := hstart.symm
    have hstop' : f.stop = Text.byteSize (before ++ l) := hstop.symm
    rw [window, hwindow, hstart', hstop', Cursor.ofWindow_append]

theorem HasWindow.position_window (h : task.HasWindow) : task.window.position = task.start := by
  obtain ⟨before, l, -, -, hwindow, hstart, -⟩ := h.exists_parts
  simp [hwindow, Cursor.position, hstart]

/-- All places of the window are in it. -/
theorem HasWindow.holds (h : task.HasWindow) {c : Cursor} (hc : task.window.Leads c) :
    task.Holds c.position := by
  obtain ⟨before, l, after, htext, hwindow, hstart, hstop⟩ := h.exists_parts
  rw [hwindow] at hc
  obtain ⟨m, rfl, hbefore⟩ : ∃ m, l = m ++ c.rest ∧ c.before = m.reverse ++ before.reverse := hc
  have hposition : c.position = Text.byteSize (before ++ m) := by
    simp [Cursor.position, hbefore, Nat.add_comm]
  rw [hposition]
  refine ⟨by simp [← hstart], ?_, Text.isValid_iff.2 ⟨before ++ m, c.rest ++ after, ?_, rfl⟩⟩
  · simp [← hstop]
  · simp [htext]

end Task

end TextualData
