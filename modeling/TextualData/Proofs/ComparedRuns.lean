import TextualData.Proofs.Comparison

/-!
# Evaluation goes the same way

The functions of the evaluation go the same way side by side, with values in any relation that goes
with the forms of values. A key is read in both without forcing, so that all keys are equal, and
all that is taken over from a hash in the place of a key.
-/

namespace TextualData
namespace Evaluation
namespace Comparison

variable {p : Comparison}

/-- With a given bound, the functions of the evaluation go the same way side by side. -/
structure AllAlike (p : Comparison) (n : Nat) : Prop where
  expression : ∀ {V forced forced' S inKey}, Value.Congruence V forced forced' →
    Alike p S (expression p.onLeft n forced inKey) (expression p.onRight n forced' inKey) V
  hash : ∀ {V forced forced' S}, Value.Congruence V forced forced' →
    Alike p S (hash p.onLeft n forced) (hash p.onRight n forced') V
  sequence : ∀ {V forced forced' S}, Value.Congruence V forced forced' →
    Alike p S (sequence p.onLeft n forced) (sequence p.onRight n forced') V
  unquoted : ∀ {V forced forced' S inKey}, Value.Congruence V forced forced' →
    Alike p S (unquoted p.onLeft n forced inKey) (unquoted p.onRight n forced' inKey) V
  itemsUpTo : ∀ {V forced forced' S closing opening}, Value.Congruence V forced forced' →
    Alike p S (itemsUpTo p.onLeft n closing forced (opening + p.distance))
      (itemsUpTo p.onRight n closing forced' opening) (List.Forall₂ V)
  items : ∀ {V forced forced' S closing opening}, Value.Congruence V forced forced' →
    Alike p S (items p.onLeft n closing forced (opening + p.distance))
      (items p.onRight n closing forced' opening) (List.Forall₂ V)
  entriesUpTo : ∀ {V forced forced' S closing opening}, Value.Congruence V forced forced' →
    Alike p (OnTop V S) (entriesUpTo p.onLeft n closing forced (opening + p.distance))
      (entriesUpTo p.onRight n closing forced' opening) fun _ _ => True
  entries : ∀ {V forced forced' S closing opening}, Value.Congruence V forced forced' →
    Alike p (OnTop V S) (entries p.onLeft n closing forced (opening + p.distance))
      (entries p.onRight n closing forced' opening) fun _ _ => True
  entry : ∀ {V forced forced' S closing}, Value.Congruence V forced forced' →
    Alike p (OnTop V S) (entry p.onLeft n closing forced) (entry p.onRight n closing forced') Eq
  keyValue : ∀ {V forced forced' S name start}, Value.Congruence V forced forced' →
    Alike p (OnTop V S) (keyValue p.onLeft n name (start + p.distance) forced)
      (keyValue p.onRight n name start forced') fun _ _ => True

theorem AllAlike.zero : AllAlike p 0 where
  expression _ := by simp only [Evaluation.expression]; exact .refuse _
  hash _ := by simp only [Evaluation.hash]; exact .refuse _
  sequence _ := by simp only [Evaluation.sequence]; exact .refuse _
  unquoted _ := by simp only [Evaluation.unquoted]; exact .refuse _
  itemsUpTo _ := by simp only [Evaluation.itemsUpTo]; exact .refuse _
  items _ := by simp only [Evaluation.items]; exact .refuse _
  entriesUpTo _ := by simp only [Evaluation.entriesUpTo]; exact .refuse _
  entries _ := by simp only [Evaluation.entries]; exact .refuse _
  entry _ := by simp only [Evaluation.entry]; exact .refuse _
  keyValue _ := by simp only [Evaluation.keyValue]; exact .refuse _

section
variable {V : Value → Value → Prop} {S : List Hash → List Hash → Prop} {n start opening : Nat}
  {forced forced' inKey : Bool} {closing : Option Char}

theorem expression_alike (ih : AllAlike p n) (hV : Value.Congruence V forced forced') :
    Alike p S (expression p.onLeft (n + 1) forced inKey)
      (expression p.onRight (n + 1) forced' inKey) V := by
  simp only [expression]
  refine .get fun c _ _ => ?_
  simp only [Cursor.rest_behind]
  cases c.rest with
  | nil => exact .refuse _
  | cons x rest =>
    refine .ite (fun _ => ih.hash hV) fun _ => .ite (fun _ => ih.sequence hV) fun _ =>
      .ite (fun _ => ?_) fun _ => ?_
    · exact .bind (.scan (.quoted x)) fun l _ heq => .pure (heq ▸ hV.refl _)
    · cases Literal.rawQuotation? (x :: rest) with
      | none => exact ih.unquoted hV
      | some quotation =>
        exact .bind (.scan (.raw quotation)) fun l _ heq => .pure (heq ▸ hV.refl _)

theorem hash_alike (ih : AllAlike p n) (hV : Value.Congruence V forced forced') :
    Alike p S (hash p.onLeft (n + 1) forced) (hash p.onRight (n + 1) forced') V := by
  simp only [hash]
  refine .get fun c _ _ => .bind (.scan .next) fun _ _ _ => ?_
  simp only [Cursor.position_behind]
  -- Nobody asks for the hash to be kept, so that it is evaluated on both sides.
  refine .bind (.buildHash (V := V) (Q := fun kept kept' => kept = none ∧ kept' = none)
    (.position fun _ => .within (.bind (ih.entriesUpTo hV) fun _ _ _ => .pure ⟨rfl, rfl⟩))) ?_
  rintro ⟨kept, es⟩ ⟨kept', es'⟩ ⟨⟨rfl, rfl⟩, hes⟩
  exact .bind (.scan .next) fun _ _ _ => .pure (hV.hash hes)

theorem sequence_alike (ih : AllAlike p n) (hV : Value.Congruence V forced forced') :
    Alike p S (sequence p.onLeft (n + 1) forced) (sequence p.onRight (n + 1) forced') V := by
  simp only [sequence]
  refine .position fun start => .bind (.scan .next) fun _ _ _ => .position fun _ => ?_
  exact .bind (.within (ih.itemsUpTo hV)) fun _ _ hvs => .bind (.scan .next) fun _ _ _ =>
    .pure (hV.sequence hvs)

theorem unquoted_alike (ih : AllAlike p n) (hV : Value.Congruence V forced forced') :
    Alike p S (unquoted p.onLeft (n + 1) forced inKey)
      (unquoted p.onRight (n + 1) forced' inKey) V := by
  simp only [unquoted]
  refine .position fun start => .bind (.scan (.token inKey)) ?_
  rintro l _ rfl
  refine .refuse_or (.refuse _) (.get fun stop _ _ => ?_)
  refine .bind (.scan (.blanks p.blank)) fun _ _ _ => .get fun c _ _ => ?_
  simp only [Cursor.peek?_behind]
  refine .ite (fun _ => ?_) fun _ => ?_
  · refine .position fun opening => .bind (.scan .next) fun _ _ _ =>
      .bind (.within (ih.itemsUpTo hV)) fun _ _ hvs => .bind (.scan .next) fun _ _ _ => ?_
    exact .ite (fun _ => .pure (hV.call hvs)) fun _ => .resolve (hV.call hvs)
  · refine .bind (.goTo stop) fun _ _ _ => .pure ?_
    cases inKey with
    | false =>
      have htoken := hV.token l
      simpa only [tokenValue] using htoken
    | true =>
      rw [Bool.or_true, Bool.or_true]
      exact hV.refl _

theorem itemsUpTo_alike (ih : AllAlike p n) (hV : Value.Congruence V forced forced') :
    Alike p S (itemsUpTo p.onLeft (n + 1) closing forced (opening + p.distance))
      (itemsUpTo p.onRight (n + 1) closing forced' opening) (List.Forall₂ V) := by
  simp only [itemsUpTo]
  exact .bind (.scan (.blanks p.blank)) fun _ _ _ => ih.items hV

theorem items_alike (ih : AllAlike p n) (hV : Value.Congruence V forced forced') :
    Alike p S (items p.onLeft (n + 1) closing forced (opening + p.distance))
      (items p.onRight (n + 1) closing forced' opening) (List.Forall₂ V) := by
  simp only [items]
  refine .get fun c _ _ => ?_
  simp only [Cursor.peek?_behind]
  cases c.peek? with
  | none =>
    cases closing with
    | none => exact .pure .nil
    | some closing => exact .refuseAt _ _
  | some x =>
    refine .ite (fun _ => .pure .nil) fun _ => .ite (fun _ => .refuse _) fun _ => ?_
    refine .bind (ih.expression hV) fun v w hv =>
      .bind (.scan (.separator p.blank closing _)) ?_
    rintro separator _ rfl
    exact .ite (fun _ => .pure (.cons hv .nil)) fun _ =>
      .bind (ih.items hV) fun _ _ hvs => .pure (.cons hv hvs)

theorem entriesUpTo_alike (ih : AllAlike p n) (hV : Value.Congruence V forced forced') :
    Alike p (OnTop V S) (entriesUpTo p.onLeft (n + 1) closing forced (opening + p.distance))
      (entriesUpTo p.onRight (n + 1) closing forced' opening) fun _ _ => True := by
  simp only [entriesUpTo]
  exact .bind (.scan (.blanks p.blank)) fun _ _ _ => ih.entries hV

theorem entries_alike (ih : AllAlike p n) (hV : Value.Congruence V forced forced') :
    Alike p (OnTop V S) (entries p.onLeft (n + 1) closing forced (opening + p.distance))
      (entries p.onRight (n + 1) closing forced' opening) fun _ _ => True := by
  simp only [entries]
  refine .get fun c _ _ => ?_
  simp only [Cursor.peek?_behind]
  cases c.peek? with
  | none =>
    cases closing with
    | none => exact .pure trivial
    | some closing => exact .refuseAt _ _
  | some x =>
    refine .ite (fun _ => .pure trivial) fun _ => .ite (fun _ => .refuse _) fun _ =>
      .bind (ih.entry hV) ?_
    rintro separator _ rfl
    exact .ite (fun _ => .pure trivial) fun _ => ih.entries hV

theorem resolveKey_alike (key : Value) :
    Alike p S (resolveKey p.onLeft key (start + p.distance)) (resolveKey p.onRight key start)
      Eq := by
  cases key with
  | call name params =>
    refine .bind (.resolve (V := Eq) rfl) ?_
    rintro v _ rfl
    exact .pure rfl
  | _ => exact .pure rfl

theorem keyName_alike (key : Value) (unresolved : Bool) :
    Alike p S (keyName p.onLeft key unresolved (start + p.distance))
      (keyName p.onRight key unresolved start) Eq := by
  cases key with
  | string name => exact .pure rfl
  | _ => exact .ite (fun _ => .fail _ _) fun _ => .fail _ _

theorem storeBare_alike (refl : ∀ v, V v v) (key : Value) (fromCall unresolved : Bool) :
    Alike p (OnTop V S) (storeBare p.onLeft key fromCall unresolved (start + p.distance))
      (storeBare p.onRight key fromCall unresolved start) fun _ _ => True := by
  have refusal (v : Value) : Alike p (OnTop V S)
      (if unresolved then fail p.onLeft (start + p.distance) .unresolvedKey
        else fail p.onLeft (start + p.distance) (.resultKind v.kind) : EvalM Unit Unit)
      (if unresolved then fail p.onRight start .unresolvedKey
        else fail p.onRight start (.resultKind v.kind) : EvalM Unit Unit) fun _ _ => True :=
    .ite (fun _ => .fail _ _) fun _ => .fail _ _
  cases key with
  | hash entries => cases fromCall <;> exact .modifyHash fun h => h.merge refl entries
  | string name =>
    cases fromCall with
    | false => exact .within (.put (refl _))
    | true => exact refusal _
  | _ =>
    cases fromCall with
    | false => exact .fail _ _
    | true => exact refusal _

theorem entry_alike (ih : AllAlike p n) (hV : Value.Congruence V forced forced') :
    Alike p (OnTop V S) (entry p.onLeft (n + 1) closing forced)
      (entry p.onRight (n + 1) closing forced') Eq := by
  simp only [entry]
  refine .position fun start => .bind (ih.expression (.eq false)) ?_
  rintro key _ rfl
  refine .bind (resolveKey_alike key) ?_
  rintro ⟨key, fromCall, unresolved⟩ _ rfl
  refine .bind (.scan (.separator p.blank closing none)) ?_
  rintro separator _ rfl
  refine .ite (fun _ => .bind (keyName_alike key unresolved) ?_) fun _ => ?_
  · rintro name _ rfl
    exact .bind (ih.keyValue hV) fun _ _ _ => .scan (.separator p.blank closing _)
  · exact .bind (storeBare_alike hV.refl key fromCall unresolved) fun _ _ _ => .pure rfl

theorem keyValue_alike {name : String} (ih : AllAlike p n)
    (hV : Value.Congruence V forced forced') :
    Alike p (OnTop V S) (keyValue p.onLeft (n + 1) name (start + p.distance) forced)
      (keyValue p.onRight (n + 1) name start forced') fun _ _ => True := by
  simp only [keyValue]
  refine .get fun c _ _ => ?_
  simp only [Cursor.rest_behind]
  exact .refuse_or (.refuseAt _ _) (.within (.bind (ih.expression hV) fun _ _ hv => .put hv))

end

theorem allAlike (p : Comparison) : ∀ n, AllAlike p n
  | 0 => .zero
  | n + 1 =>
    have ih := allAlike p n
    { expression := expression_alike ih
      hash := hash_alike ih
      sequence := sequence_alike ih
      unquoted := unquoted_alike ih
      itemsUpTo := itemsUpTo_alike ih
      items := items_alike ih
      entriesUpTo := entriesUpTo_alike ih
      entries := entries_alike ih
      entry := entry_alike ih
      keyValue := keyValue_alike ih }

section
variable {V : Value → Value → Prop} {S : List Hash → List Hash → Prop} {forced forced' : Bool}

theorem single_alike (hV : Value.Congruence V forced forced') :
    Alike p S (single p.onLeft forced) (single p.onRight forced') V := by
  simp only [single]
  refine .get fun c _ _ => .bind (.scan (.blanks p.blank)) fun _ _ _ => .get fun d _ _ => ?_
  simp only [Cursor.rest_behind]
  refine .refuse_or (.refuse _) (.bind ((allAlike p _).expression hV) fun v w hv => ?_)
  refine .bind (.scan (.blanks p.blank)) fun _ _ _ => .get fun d _ _ => ?_
  simp only [Cursor.rest_behind]
  exact .ite (fun _ => .pure hv) fun _ =>
    .bind (.refuse (Q := fun _ _ => False) _) fun _ _ h => h.elim

theorem topHash_alike (hV : Value.Congruence V forced forced') :
    Alike p S (topHash p.onLeft forced) (topHash p.onRight forced') (Entries.Alike V) := by
  simp only [topHash]
  refine .get fun c _ _ => ?_
  simp only [Cursor.rest_behind, Cursor.position_behind]
  exact .bind (.buildHash (.within ((allAlike p _).entriesUpTo hV))) fun _ _ h => .pure h.2

theorem topSequence_alike (hV : Value.Congruence V forced forced') :
    Alike p S (topSequence p.onLeft forced) (topSequence p.onRight forced') (List.Forall₂ V) := by
  simp only [topSequence]
  refine .get fun c _ _ => ?_
  simp only [Cursor.rest_behind, Cursor.position_behind]
  exact .within ((allAlike p _).itemsUpTo hV)

end

/-- Both evaluations gave related results, or failed alike. -/
inductive SameResult (p : Comparison) {α β : Type} (Q : α → β → Prop) :
    Except Error α → Except Error β → Prop where
  | ok {a : α} {b : β} (result : Q a b) : SameResult p Q (.ok a) (.ok b)
  | error {e e' : Error} (blame : p.SameBlame e e') : SameResult p Q (.error e) (.error e')

/-- What goes the same way from each place does so from the start of the window. -/
theorem Alike.run {α β : Type} {Q : α → β → Prop} {m : EvalM Unit α} {m' : EvalM Unit β}
    (h : Alike p (fun _ _ => True) m m' Q) (window : Cursor) :
    SameResult p Q (run m (window.behind p.ahead) ()).1 (run m' window ()).1 := by
  have hrun := h window [] [] trivial
  simp only [Evaluation.run]
  generalize m ⟨window.behind p.ahead, [], ()⟩ = r, m' ⟨window, [], ()⟩ = r' at hrun
  cases hrun with
  | ok result _ => exact .ok result
  | error blame => exact .error blame

end Comparison
end Evaluation
end TextualData
