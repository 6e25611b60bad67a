import TextualData.Proofs.Nesting

/-!
# Progress and termination

`Task.Progresses` collects why an evaluation comes to its end, whatever the text and the
environment. Each expression takes a part of the window, and so does each round of a loop; the only
step back, to the opening brace of a hash that is kept, leads to nothing but passing over that hash;
and neither the bound on the recursion nor one on its depth is ever exceeded.
-/

namespace TextualData

namespace Evaluation

variable {σ : Type} {setting : Setting σ} {s t u : State σ} {n : Nat} {forced : Bool} {v : Value}

/-- A hash that is kept is passed over from its opening brace, and left where that ends. -/
theorem extent_of_kept {response : Response} (opens : s.cursor.peek? = some '{')
    (entered : notify setting (.enter .hash) s.cursor.next.position
      ⟨s.cursor.next, [] :: s.openHashes, s.inner⟩ = .ok (some response) t)
    (h : hash setting (n + 1) forced s = .ok v u) :
    Scan.extent s.cursor = .ok () u.cursor ∧
      v = .fragment (setting.source.fragment s.cursor.position u.cursor.position) := by
  rw [hash, get_bind_run, next_bind_run] at h
  obtain ⟨⟨kept, entries⟩, _, hbuild, h⟩ := bind_eq_ok.1 h
  obtain ⟨s₁, hscope, -, rfl⟩ := buildHash_eq_ok.1 hbuild
  rw [position_bind_run] at hscope
  obtain ⟨_, _, s₂, _, entered', hbody, left⟩ := within_eq_ok.1 hscope
  obtain ⟨rfl, rfl⟩ := EStateM.Result.ok.inj (entered.symm.trans entered')
  have hcursor := cursor_of_notify left
  obtain ⟨_, _, hback, hbody⟩ := bind_eq_ok.1 hbody
  obtain rfl := modify_eq_ok.1 hback
  obtain ⟨⟨first, last⟩, _, hpass, hbody⟩ := bind_eq_ok.1 hbody
  obtain ⟨d, hextent, rfl, rfl, rfl⟩ := passExpression_eq_ok.1 hpass
  obtain ⟨_, _, hprevious, hbody⟩ := bind_eq_ok.1 hbody
  obtain rfl := modify_eq_ok.1 hprevious
  obtain ⟨rfl, rfl⟩ := pure_eq_ok.1 hbody
  simp only [next_bind_run] at h
  obtain ⟨rfl, rfl⟩ := pure_eq_ok.1 h
  -- The closing brace is left for the end of the scope, and passed again.
  obtain ⟨e, -, hcloses, rfl⟩ :=
    ((Scan.extent_stays_of_brace opens (Cursor.Leads.refl s.cursor)).leads hextent).2
  have hend : s₁.cursor.next = e.next := by rw [hcursor, Cursor.previous_next hcloses]
  exact ⟨hextent.trans (by rw [hend]), by rw [hend]; rfl⟩

end Evaluation

namespace Task

open Evaluation

variable {σ : Type}

/-- Whatever an invocation begins with is still ahead of it. -/
theorem Makes.hasText {task : Task} {env : Environment σ} {inner : σ} {invocation : Invocation}
    {s : State σ} (h : task.Makes env inner invocation s) :
    (Activity.evaluating invocation s).HasText := by
  induction h with
  | expression _ _ hasText => exact hasText
  | hash | sequence => exact trivial
  | step _ next ih => exact (Activates.evaluating next).hasText ih

/-- The evaluation of a task moves forward, and comes to its end. -/
structure Progresses (task : Task) (env : Environment σ) (inner : σ) : Prop where
  /-- An expression that is evaluated is left strictly further on in the window. -/
  expression : ∀ {n forced inKey s v t},
    Evaluation.expression ⟨task.source, env⟩ n forced inKey s = .ok v t →
      s.cursor.Precedes t.cursor
  /-- An expression that is passed over is left strictly further on in the window. -/
  passed : ∀ {n c d}, Extent.expression n c = .ok () d → c.Precedes d
  /-- The loops over items, over entries, over what is passed over in a listing, over blanks and
  over the characters of a quoted literal go on strictly further on, and return. -/
  items : ∀ closing forced opening,
    (itemsLoop ⟨task.source, env⟩ closing forced opening).Advances ∧
      (itemsLoop ⟨task.source, env⟩ closing forced opening).Ends
  entries : ∀ closing forced opening,
    (entriesLoop ⟨task.source, env⟩ closing forced opening).Advances ∧
      (entriesLoop ⟨task.source, env⟩ closing forced opening).Ends
  listing : ∀ closing start,
    (Extent.itemsLoop closing start).Advances ∧ (Extent.itemsLoop closing start).Ends
  blanks : Blanks.loop.Advances ∧ Blanks.loop.Ends
  quoted : ∀ {quotation}, Literal.isQuotation quotation → ∀ start,
    (Literal.loop quotation start).Advances ∧ (Literal.loop quotation start).Ends
  /-- All that comes of going back to the opening brace of a hash, which is to be kept, is passing
  over; and the hash is left where that ends. -/
  kept : ∀ {n forced response s t}, s.cursor.peek? = some '{' →
    Evaluation.notify ⟨task.source, env⟩ (.enter .hash) s.cursor.next.position
      ⟨s.cursor.next, [] :: s.openHashes, s.inner⟩ = .ok (some response) t →
    (∀ depth b, Nests ⟨task.source, env⟩ (.evaluating (.hash (n + 1) forced) s) depth b →
      b = .evaluating (.hash (n + 1) forced) s ∨ b.isPassing) ∧
    ∀ v u, Evaluation.hash ⟨task.source, env⟩ (n + 1) forced s = .ok v u →
      Scan.extent s.cursor = .ok () u.cursor
  /-- The bounds on the recursion are not used up. -/
  ends : ∀ e, (task.evaluate env inner).1 = .error e → e.IsExhaustion →
    e.IsAnswered (task.callbacks env inner)
  passedEnds : ∀ {c fault d}, Scan.extent c = .error fault d → fault.cause ≠ .exhausted
  /-- Within what the evaluation invokes, there are not more expressions around an expression than
  bytes in the window, and fewer if it is evaluated. -/
  depth : ∀ {invocation s depth a}, task.Makes env inner invocation s →
    Nests ⟨task.source, env⟩ (.evaluating invocation s) depth a → a.isExpression →
      depth ≤ Text.byteSize task.window.rest ∧
        (¬a.isPassing → depth < Text.byteSize task.window.rest)

/-- Every evaluation makes progress and ends: on every text and in every window, at every entry,
with forcing or without, and in every environment. -/
theorem progresses (task : Task) (env : Environment σ) (inner : σ) :
    task.Progresses env inner where
  expression := precedes_of_expression
  passed := Extent.precedes_of_expression
  items _ _ _ := ⟨itemsLoop_advances, itemsLoop_advances.ends⟩
  entries _ _ _ := ⟨entriesLoop_advances, entriesLoop_advances.ends⟩
  listing _ _ := ⟨Extent.itemsLoop_advances, Extent.itemsLoop_advances.ends⟩
  blanks := ⟨Blanks.loop_advances, Blanks.loop_advances.ends⟩
  quoted h _ := ⟨Literal.loop_advances h, (Literal.loop_advances h).ends⟩
  kept opens entered :=
    ⟨fun _ _ h => h.isPassing_of_kept entered, fun _ _ h => (extent_of_kept opens entered h).1⟩
  ends _ := isAnswered_of_isExhaustion task env inner
  passedEnds := Scan.cause_of_extent
  depth h hnests ha := by
    obtain ⟨hle, hlt⟩ := hnests.depth_le h.hasText ha
    have hwindow := h.leads.byteSize_rest_le
    exact ⟨Nat.le_trans hle hwindow, fun hevaluates => Nat.lt_of_lt_of_le (hlt hevaluates) hwindow⟩

end Task
end TextualData
