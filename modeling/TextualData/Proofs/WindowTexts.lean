import TextualData.Proofs.ComparedRuns
import TextualData.Proofs.WindowBounds

/-!
# Windows as texts of their own

A fragment is evaluated as the text in its window would be, if the line up to the window is blank:
with the same value, or the same fault at the same place, counted from the start of the whole text.
Where the line before the window is not blank, a number sign at the start of the window opens no
comment there, but opens one at the start of a text.
-/

namespace TextualData

namespace Fragment

/-- An error of the text in the window, at its place in the whole text. -/
def relocate (f : Fragment) : Error → Error
  | .malformed fault l => .malformed fault (f.source.locate (l.position + f.start))
  | .evaluation fault l => .evaluation fault (f.source.locate (l.position + f.start))
  | e => e

open Evaluation

/-- The window of a fragment whose line is blank up to there denotes what its characters denote as a
text of their own; errors are further on by the start of the window. -/
theorem evaluate_eq_evaluate_content (f : Fragment) (file : Option String) (forced : Bool)
    (hwindow : (Task.fragment f forced).HasWindow)
    (hline : Text.isLineBlankBefore (Task.fragment f forced).window.before) :
    (f.evaluate .unresolving forced ()).1 =
      ((Source.mk f.content file).evaluate .unresolving forced ()).1.mapError f.relocate := by
  let window := (Task.fragment f forced).window
  let p : Comparison := ⟨f.source, ⟨f.content, file⟩, window.before, hline⟩
  have hcontent : f.content.toList = window.rest := String.toList_ofList
  have hstart : p.distance = f.start := hwindow.position_window
  have h := (Comparison.single_alike (p := p) (S := fun _ _ => True) (.eq forced)).run
    (.ofText f.content.toList)
  have hplace : (Cursor.ofText f.content.toList).behind p.ahead = window := by
    rw [hcontent]
    rfl
  rw [hplace] at h
  show (run (single p.onLeft forced) window ()).1 =
    (run (single p.onRight forced) (.ofText f.content.toList) ()).1.mapError f.relocate
  generalize (run (single p.onLeft forced) window ()).1 = r,
    (run (single p.onRight forced) (.ofText f.content.toList) ()).1 = r' at h
  cases h with
  | ok result =>
    rw [result]
    rfl
  | error blame =>
    cases blame with
    | malformed fault position | evaluation fault position =>
      rw [hstart]
      rfl

/-- The window of a sequence that lacks a separator, in an indented line. -/
theorem evaluate_indented_content :
    ((Fragment.mk "é\n [1 2]" 4 9 none).evaluate .unresolving false ()).1 =
      .error (.malformed .missingSeparator ⟨"é\n [1 2]", 7, none⟩) := by
  have hparts : "é\n [1 2]".toList = ['é', '\n', ' '] ++ ['[', '1', ' ', '2', ']'] := rfl
  have hstart : (String.Pos.Raw.mk 4).IsValid "é\n [1 2]" :=
    Text.isValid_iff.2 ⟨_, _, hparts, rfl⟩
  have hstop : (String.Pos.Raw.mk 9).IsValid "é\n [1 2]" :=
    Text.isValid_iff.2 ⟨_, [], (List.append_nil _).symm, rfl⟩
  rw [evaluate_eq_evaluate_content ⟨"é\n [1 2]", 4, 9, none⟩ none false
    ⟨⟨Nat.le_refl _, by decide, hstart⟩, ⟨by decide, Nat.le_refl _, hstop⟩⟩ (by decide)]
  with_unfolding_all rfl

end Fragment
end TextualData
