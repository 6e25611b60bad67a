import TextualData.Proofs.Invocations
import TextualData.Proofs.Relocation
import TextualData.Proofs.Windows
import TextualData.Proofs.WholeTexts

/-!
# Deferred evaluation

A value that an evaluation reads has the same value when its text is evaluated later on, as a
fragment. This holds with an environment that asks for nothing and resolves calls as a function of
the call alone, and it does not matter whether the rest of the first evaluation succeeds.
-/

namespace TextualData

namespace Environment

variable {σ : Type}

/-- What a call gives depends on nothing but the call. -/
def ResolvesBy (env : Environment σ) (f : FunctionCall → Except Error Value) : Prop :=
  ∀ call context inner, (env.call call context inner).1 = f call

/-- A call has a result. -/
def Gives (f : FunctionCall → Except Error Value) (call : FunctionCall) (v : Value) : Prop :=
  f call = .ok v

variable {env : Environment σ} {f : FunctionCall → Except Error Value}

theorem ResolvesBy.resolvesWithin (h : env.ResolvesBy f) : env.ResolvesWithin (Gives f) :=
  fun call context inner _ hv => (h call context inner).symm.trans hv

theorem ResolvesBy.resolves (h : env.ResolvesBy f) : env.Resolves (Gives f) :=
  fun call _ hv context inner => (h call context inner).trans hv

theorem unresolving_resolvesBy : unresolving.ResolvesBy fun call => .ok call.toValue :=
  fun _ _ _ => rfl

/-- The environment that asks for nothing and gives calls the results of a function. -/
def ofFunction (f : FunctionCall → Except Error Value) : Environment Unit where
  call call _ _ := (f call, ())
  notify _ _ _ := (.ok none, ())

theorem ofFunction_isSilent (f : FunctionCall → Except Error Value) : (ofFunction f).IsSilent :=
  fun _ _ _ => rfl

theorem ofFunction_resolvesBy (f : FunctionCall → Except Error Value) :
    (ofFunction f).ResolvesBy f :=
  fun _ _ _ => rfl

end Environment

/-- What is read as an expression between two places reads as one in a window of its own, wherever
that stands, if a number sign at its start does not open a comment there. -/
theorem Reads.readsAsValue {resolves : FunctionCall → Value → Prop} {forced : Bool} {v : Value}
    {c c' : Cursor} {l : List Char} (h : Reads resolves (.value forced false v) c c')
    (hl : c.Spans l c') {before : List Char}
    (hsign : l.head? = some '#' → Text.isLineBlankBefore before = false) :
    Cursor.ReadsAsValue resolves forced ⟨before, l⟩ v := by
  let t' : Cursor := ⟨l.reverse ++ before, []⟩
  have hblanks : Scan.blanks t' = .ok false t' := Scan.blanks_of_rest_eq_nil rfl
  have hspan : Cursor.SameSpan c c' ⟨before, l⟩ t' := ⟨l, hl, (List.append_nil l).symm, rfl⟩
  have hread : Reads resolves (.value forced false v) ⟨before, l⟩ t' :=
    h.of_sameSpan hspan ⟨.inr fun x hx => by simp [t', Cursor.peek?] at hx,
      false, t', hblanks, by simp [t', Cursor.peek?]⟩
  obtain ⟨x, hpeek, hx⟩ := hread.exists_mayBegin
  refine ⟨false, _, t', false, t', ?_, hread, hblanks, rfl⟩
  refine Scan.blanks_of_peek? hpeek hx.1 (hx.ne (by decide)) ?_
  rintro rfl
  exact hsign hpeek

namespace Task

open Evaluation

variable {σ : Type} {task : Task} {env : Environment σ} {f : FunctionCall → Except Error Value}
  {inner : σ} {n : Nat} {forced : Bool} {s t : State σ} {v : Value}

/-- A value that the evaluation of a task reads, in a state and up to another, is the value of the
fragment between the two places. It is also the value of the same characters between others, if a
number sign at their start does not open a comment there. -/
theorem evaluate_fragment_of_makes (hsilent : env.IsSilent) (hcalls : env.ResolvesBy f)
    (h : task.Makes env inner (.expression n forced false) s)
    (hrun : expression ⟨task.source, env⟩ n forced false s = .ok v t) :
    (∀ inner', ((task.source.fragment s.cursor.position t.cursor.position).evaluate env forced
      inner').1 = .ok v) ∧
    ∃ l, s.cursor.Spans l t.cursor ∧ ∀ before after file inner',
      (l.head? = some '#' → Text.isLineBlankBefore before.reverse = false) →
      ((Fragment.mk (String.ofList (before ++ l ++ after)) (Text.byteSize before)
        (Text.byteSize (before ++ l)) file).evaluate env forced inner').1 = .ok v := by
  obtain ⟨hread, -⟩ :=
    (followsReading hsilent hcalls.resolvesWithin n).expression hrun
  obtain ⟨l, hl⟩ := hread.leads
  have hvalue : ∀ before after file inner',
      (l.head? = some '#' → Text.isLineBlankBefore before.reverse = false) →
      ((Fragment.mk (String.ofList (before ++ l ++ after)) (Text.byteSize before)
        (Text.byteSize (before ++ l)) file).evaluate env forced inner').1 = .ok v := by
    intro before after file inner' hsign
    refine (single_eq_ok hsilent hcalls.resolvesWithin hcalls.resolves).2 ?_
    rw [String.toList_ofList, Cursor.ofWindow_append]
    exact hread.readsAsValue hl hsign
  refine ⟨fun inner' => ?_, l, hl, hvalue⟩
  -- In the same text the line before the value is the same, so what was no comment is none.
  obtain ⟨after, htext⟩ := task.window_isPart
  have hparts : task.source.text =
      String.ofList (s.cursor.before.reverse ++ l ++ (t.cursor.rest ++ after)) := by
    rw [← String.ofList_toList (s := task.source.text), htext, ← h.leads.append_eq, hl.1]
    simp
  have hstart : s.cursor.position = Text.byteSize s.cursor.before.reverse := by
    rw [Text.byteSize_reverse, Cursor.position]
  have hstop : t.cursor.position = Text.byteSize (s.cursor.before.reverse ++ l) := by
    rw [Cursor.position, hl.2]
    simp [Nat.add_comm]
  rw [Source.fragment, hstart, hstop, hparts]
  refine hvalue _ _ _ inner' fun hsign => ?_
  rw [List.reverse_reverse]
  refine (Scan.stops_of_blanks (h.blanks rfl) ?_).2 rfl
  rw [Cursor.peek?, hl.1]
  cases l with
  | nil => simp at hsign
  | cons x l => exact hsign

/-- The second item of a sequence that does not succeed begins with a number sign, which opens no
comment within its line. -/
theorem evaluate_fragment_of_numberSign :
    (∀ inner', (((Source.mk "[a,#b" none).fragment 3 5).evaluate .unresolving false inner').1 =
      .ok (.string "#b")) ∧
    ∃ l, Cursor.Spans l ⟨[',', 'a', '['], ['#', 'b']⟩ ⟨['b', '#', ',', 'a', '['], []⟩ ∧
      ∀ before after file inner',
        (l.head? = some '#' → Text.isLineBlankBefore before.reverse = false) →
        ((Fragment.mk (String.ofList (before ++ l ++ after)) (Text.byteSize before)
          (Text.byteSize (before ++ l)) file).evaluate .unresolving false inner').1 =
            .ok (.string "#b") := by
  let task : Task := .text ⟨"[a,#b", none⟩ .expression false
  have hlisting : task.Makes .unresolving () (.items 27 (some ']') false 0)
      ⟨⟨['['], ['a', ',', '#', 'b']⟩, [], ()⟩ :=
    .step (.step (.step (.expression (.inl ⟨_, rfl⟩) rfl (by decide)) (.sequence rfl))
      (.inSequence rfl)) (.items rfl)
  have hfirst : expression ⟨task.source, .unresolving⟩ 26 false false
      ⟨⟨['['], ['a', ',', '#', 'b']⟩, [], ()⟩ =
        .ok (.string "a") ⟨⟨['a', '['], [',', '#', 'b']⟩, [], ()⟩ := by
    with_unfolding_all rfl
  have hcomma : scan ⟨task.source, .unresolving⟩ (Scan.separator (some ']') (some .inList))
      ⟨⟨['a', '['], [',', '#', 'b']⟩, [], ()⟩ =
        .ok .comma ⟨⟨[',', 'a', '['], ['#', 'b']⟩, [], ()⟩ := rfl
  have hitem : task.Makes .unresolving () (.expression 25 false false)
      ⟨⟨[',', 'a', '['], ['#', 'b']⟩, [], ()⟩ :=
    .step (.step hlisting (.moreItems ⟨'a', rfl, by decide, by decide⟩ hfirst hcomma (by decide)))
      (.item ⟨'#', rfl, by decide, by decide⟩)
  have hrun : expression ⟨task.source, .unresolving⟩ 25 false false
      ⟨⟨[',', 'a', '['], ['#', 'b']⟩, [], ()⟩ =
        .ok (.string "#b") ⟨⟨['b', '#', ',', 'a', '['], []⟩, [], ()⟩ := by
    with_unfolding_all rfl
  have hstart : Cursor.position ⟨[',', 'a', '['], ['#', 'b']⟩ = 3 := by decide
  have hstop : Cursor.position ⟨['b', '#', ',', 'a', '['], []⟩ = 5 := by decide
  have h := evaluate_fragment_of_makes Environment.unresolving_isSilent
    Environment.unresolving_resolvesBy hitem hrun
  rw [hstart, hstop] at h
  obtain ⟨hvalue, l, hl, hother⟩ := h
  exact ⟨hvalue, l, hl, hother⟩

end Task
end TextualData
