import TextualData.Proofs.Invocations
import TextualData.Proofs.OffsetRuns

/-!
# Staying in the window

An evaluation whose window begins and ends between two characters comes to no place outside of the
window and splits no character of the text: neither where it reads, nor where it calls back, nor in
what it blames, nor at the ends of the fragments that it keeps.
-/

namespace TextualData

namespace Cursor.Visits

variable {w c d : Cursor} {log : List CallbackRecord}

/-- All callbacks are made at places of the window. -/
theorem covers (h : c.Visits log d) (hw : w.Leads c) : ∀ r ∈ log, w.Covers r.position := by
  induction h with
  | nil => simp
  | cons h here _ ih =>
    refine List.forall_mem_cons.2 ⟨?_, ih (hw.trans h)⟩
    rw [here]
    exact (hw.trans h).covers

theorem position_le (h : c.Visits log d) : ∀ r ∈ log, c.position ≤ r.position := by
  induction h with
  | nil => simp
  | cons h here _ ih =>
    refine List.forall_mem_cons.2 ⟨?_, fun r hr => Nat.le_trans h.position_le (ih r hr)⟩
    rw [here]
    exact h.position_le

/-- No callback is made before the place of one that was made earlier. -/
theorem pairwise (h : c.Visits log d) :
    log.Pairwise fun r r' => r.position ≤ r'.position := by
  induction h with
  | nil => exact .nil
  | cons h here more ih =>
    refine .cons (fun r hr => ?_) ih
    rw [here]
    exact more.position_le r hr

end Cursor.Visits

namespace Task

open Evaluation

variable {σ : Type}

theorem HasWindow.holds_of_covers {task : Task} (h : task.HasWindow) {offset : Nat}
    (hoffset : task.window.Covers offset) : task.Holds offset := by
  obtain ⟨c, hc, rfl⟩ := hoffset
  exact h.holds hc

/-- The evaluation of a task keeps a part of the text as a fragment, which the environment has
asked for. -/
inductive Keeps (task : Task) (env : Environment σ) (inner : σ) : Fragment → Prop where
  /-- A hash, from its opening brace on. -/
  | hash {n first last : Nat} {forced : Bool} {response : Response} {s t u : State σ}
      (h : task.Makes env inner (.hash (n + 1) forced) s)
      (entered : notify ⟨task.source, env⟩ (.enter .hash) s.cursor.next.position
        ⟨s.cursor.next, [] :: s.openHashes, s.inner⟩ = .ok (some response) t)
      (passed : passExpression ⟨task.source, env⟩ { t with cursor := s.cursor } =
        .ok (first, last) u) : Keeps task env inner (task.source.fragment first last)
  /-- The value of a key. -/
  | value {n start first last : Nat} {name : String} {forced : Bool} {s t u : State σ}
      (h : task.Makes env inner (.keyValue (n + 1) name start forced) s)
      (entered : notify ⟨task.source, env⟩ (.enter (.key name)) start s = .ok (some .fragment) t)
      (passed : passExpression ⟨task.source, env⟩ t = .ok (first, last) u) :
      Keeps task env inner (task.source.fragment first last)

theorem ends_of_passExpression {setting : Setting σ} {first last : Nat} {s t : State σ}
    (h : passExpression setting s = .ok (first, last) t) :
    first = s.cursor.position ∧ last = t.cursor.position ∧ s.cursor.Leads t.cursor ∧
      first < last := by
  obtain ⟨c, hpassed, rfl, rfl, rfl⟩ := passExpression_eq_ok.1 h
  have hskips := extent_eq_ok.1 hpassed
  exact ⟨rfl, rfl, hskips.leads, hskips.leads.position_lt hskips.length_lt⟩

/-- A fragment that is kept lies in the window, and is not empty. -/
theorem Keeps.holds {task : Task} {env : Environment σ} {inner : σ} {f : Fragment}
    (hwindow : task.HasWindow) (h : task.Keeps env inner f) :
    f.source = task.source ∧ task.Holds f.start ∧ task.Holds f.stop ∧ f.start < f.stop := by
  cases h with
  | hash h _ passed =>
    obtain ⟨rfl, rfl, hleads, hlt⟩ := ends_of_passExpression passed
    exact ⟨rfl, hwindow.holds h.leads, hwindow.holds (h.leads.trans hleads), hlt⟩
  | @value _ _ first last _ _ s t u h entered passed =>
    obtain ⟨rfl, rfl, hleads, hlt⟩ := ends_of_passExpression passed
    rw [cursor_of_notify entered] at hleads hlt ⊢
    exact ⟨rfl, hwindow.holds h.leads, hwindow.holds (h.leads.trans hleads), hlt⟩

/-- Whatever the environment does, all that an evaluation does is in its window, and between two
characters of the text: it reads there, so that an evaluation by checked byte offsets comes to the
same; it is invoked at such places and calls back from such places, one after the other; it blames
such places; and the fragments that it keeps begin and end there. -/
theorem stays_in_window {task : Task} (hwindow : task.HasWindow) (env : Environment σ) (inner : σ) :
    (task.evaluateByOffsets env inner =
      ((task.evaluate env inner).1.mapError some, (task.evaluate env inner).2)) ∧
    (∀ invocation s, task.Makes env inner invocation s → task.Holds s.cursor.position) ∧
    (∀ r ∈ task.callbacks env inner, task.Holds r.position) ∧
    (task.callbacks env inner).Pairwise (fun r r' => r.position ≤ r'.position) ∧
    (∀ e, (task.evaluate env inner).1 = .error e →
      (∃ position, task.Holds position ∧ e.location? = some (task.source.locate position)) ∨
        ∃ r ∈ task.callbacks env inner, ∃ event, r.callback = .event event (.error e)) ∧
    ∀ f, task.Keeps env inner f →
      f.source = task.source ∧ task.Holds f.start ∧ task.Holds f.stop ∧ f.start < f.stop := by
  obtain ⟨⟨d, hvisits⟩, hblame⟩ := task.visits_callbacks env inner
  refine ⟨evaluateByOffsets_eq hwindow env inner, fun _ s h => hwindow.holds h.leads,
    fun r hr => ?_, hvisits.pairwise, fun e he => ?_, fun f h => h.holds hwindow⟩
  · exact hwindow.holds_of_covers (hvisits.covers (.refl _) r hr)
  · refine (hblame e he).imp_left ?_
    rintro ⟨position, hcovers, hlocation⟩
    exact ⟨position, hwindow.holds_of_covers hcovers, hlocation⟩

/-- A window between characters of two bytes that ends within a hash: the scopes of the hash and of
its key are ended where the window ends. -/
theorem stays_in_window_of_truncated :
    ((Task.fragment ⟨"é{k:ö}é", 2, 7, none⟩ false).callbacks .unresolving ()).map
        CallbackRecord.position = [3, 5, 7, 7] ∧
      ((Task.fragment ⟨"é{k:ö}é", 2, 7, none⟩ false).callbacks .unresolving ()).Pairwise
        (fun r r' => r.position ≤ r'.position) ∧
      ((Task.fragment ⟨"é{k:ö}é", 2, 7, none⟩ false).evaluateByOffsets .unresolving ()).1 =
        ((Task.fragment ⟨"é{k:ö}é", 2, 7, none⟩ false).evaluate .unresolving ()).1.mapError
          some := by
  have hwindow : (Task.fragment ⟨"é{k:ö}é", 2, 7, none⟩ false).HasWindow :=
    ⟨⟨by decide, by decide, Text.isValid_iff.2 ⟨['é'], _, rfl, rfl⟩⟩,
      ⟨by decide, by decide, Text.isValid_iff.2 ⟨['é', '{', 'k', ':', 'ö'], _, rfl, rfl⟩⟩⟩
  obtain ⟨hreads, -, -, hpairwise, -⟩ := stays_in_window hwindow .unresolving ()
  exact ⟨by decide +kernel, hpairwise, congrArg Prod.fst hreads⟩

end Task
end TextualData
