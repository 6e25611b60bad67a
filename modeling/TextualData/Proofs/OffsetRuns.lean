import TextualData.Proofs.Invocations
import TextualData.Proofs.OffsetEvaluation

/-!
# Evaluation by byte offsets agrees with evaluation

`OffsetEvaluation.Agrees` compares an evaluation by offsets with one that moves a cursor. They agree
on all that evaluation is made of, from each place of the window. So an evaluation by offsets gives
the same result, and never reads where it must not.
-/

namespace TextualData

/-- The window ends at a place if nothing is left there. -/
theorem View.IsAt.position_eq_stop {view : View} {c : Cursor} (h : view.IsAt c) :
    c.position = view.stop ↔ c.rest.isEmpty := by
  obtain ⟨-, -, hstop⟩ := h
  rw [hstop, eq_comm, Nat.add_eq_left, Offsets.byteSize_eq_zero, List.isEmpty_iff]

theorem View.IsAt.position_le_stop {view : View} {c : Cursor} (h : view.IsAt c) :
    c.position ≤ view.stop := by
  obtain ⟨-, -, hstop⟩ := h
  omega

namespace OffsetEvaluation

variable {σ α β : Type}

/-- A state with its place told by the byte offset. -/
def State.located (s : Evaluation.State σ) : State σ :=
  ⟨s.cursor.position, s.openHashes, s.inner⟩

theorem offset_located (s : Evaluation.State σ) :
    Evaluation.Places.offset (State.located s).cursor = s.cursor.position :=
  rfl

/-- The outcome of an evaluation, with its place told by the byte offset. -/
def located : EStateM.Result Error (Evaluation.State σ) α →
    EStateM.Result (Option Error) (State σ) α
  | .ok a s => .ok a (State.located s)
  | .error e s => .error (some e) (State.located s)

/-- From a place of the window, an evaluation by offsets does what an evaluation does, which comes
to a place of the window with a result as told, or fails. -/
def Agrees (setting : Setting σ) (k : EvalM σ α) (m : Evaluation.EvalM σ α) (c : Cursor)
    (Q : α → Cursor → Prop) : Prop :=
  ∀ hs inner, k ⟨c.position, hs, inner⟩ = located (m ⟨c, hs, inner⟩) ∧
    ∀ a s, m ⟨c, hs, inner⟩ = .ok a s → setting.view.IsAt s.cursor ∧ Q a s.cursor

variable {setting : Setting σ} {c d : Cursor} {Q R : α → Cursor → Prop} {S : β → Cursor → Prop}

theorem notify_located (event : Event) (position : Nat) (s : Evaluation.State σ) :
    Evaluation.notify setting.toSetting event position (State.located s) =
      located (Evaluation.notify setting.toSetting event position s) := by
  have hcontext : (State.located s).context setting.source = s.context setting.source := rfl
  have hinner : (State.located s).inner = s.inner := rfl
  simp only [Evaluation.notify, hcontext, hinner]
  cases setting.environment.notify event (s.context setting.source) s.inner with
  | mk answer inner => cases answer <;> rfl

theorem resolve_located (call : FunctionCall) (position : Nat) (s : Evaluation.State σ) :
    Evaluation.resolve setting.toSetting call position (State.located s) =
      located (Evaluation.resolve setting.toSetting call position s) := by
  have hcontext : (State.located s).context setting.source = s.context setting.source := rfl
  have hinner : (State.located s).inner = s.inner := rfl
  simp only [Evaluation.resolve, hcontext, hinner]
  cases setting.environment.call call (s.context setting.source) s.inner with
  | mk answer inner => cases answer <;> rfl

namespace Agrees

theorem of_ok {k : EvalM σ α} {m : Evaluation.EvalM σ α} {a : α} {f : List Hash → List Hash}
    (h : setting.view.IsAt d) (hQ : Q a d)
    (hk : ∀ hs inner, k ⟨c.position, hs, inner⟩ = .ok a ⟨d.position, f hs, inner⟩)
    (hm : ∀ hs inner, m ⟨c, hs, inner⟩ = .ok a ⟨d, f hs, inner⟩) : Agrees setting k m c Q := by
  intro hs inner
  rw [hk, hm]
  refine ⟨rfl, fun _ _ heq => ?_⟩
  obtain ⟨rfl, rfl⟩ := EStateM.Result.ok.inj heq
  exact ⟨h, hQ⟩

theorem of_error {k : EvalM σ α} {m : Evaluation.EvalM σ α} (e : Error)
    (hk : ∀ hs inner, k ⟨c.position, hs, inner⟩ = .error (some e) ⟨c.position, hs, inner⟩)
    (hm : ∀ hs inner, m ⟨c, hs, inner⟩ = .error e ⟨c, hs, inner⟩) : Agrees setting k m c Q := by
  intro hs inner
  rw [hk, hm]
  exact ⟨rfl, fun _ _ heq => nomatch heq⟩

theorem imp {k : EvalM σ α} {m : Evaluation.EvalM σ α} (h : Agrees setting k m c Q)
    (hQ : ∀ a d, Q a d → R a d) : Agrees setting k m c R :=
  fun hs inner => ⟨(h hs inner).1, fun a s hm =>
    ⟨((h hs inner).2 a s hm).1, hQ _ _ ((h hs inner).2 a s hm).2⟩⟩

theorem bind {k : EvalM σ α} {m : Evaluation.EvalM σ α} {g : α → EvalM σ β}
    {f : α → Evaluation.EvalM σ β} (h : Agrees setting k m c Q)
    (hf : ∀ a d, setting.view.IsAt d → Q a d → Agrees setting (g a) (f a) d S) :
    Agrees setting (k >>= g) (m >>= f) c S := by
  intro hs inner
  obtain ⟨hrun, hok⟩ := h hs inner
  cases hm : m ⟨c, hs, inner⟩ with
  | ok a s =>
    rw [hm] at hrun
    obtain ⟨hplace, hQ⟩ := hok a s hm
    rw [bind_of_eq_ok hrun, bind_of_eq_ok hm]
    exact hf a s.cursor hplace hQ s.openHashes s.inner
  | error e s =>
    rw [hm] at hrun
    rw [bind_of_eq_error hrun, bind_of_eq_error hm]
    exact ⟨rfl, fun _ _ heq => by cases heq⟩

theorem pure {a : α} (h : setting.view.IsAt c) (hQ : Q a c) :
    Agrees setting (pure a) (pure a) c Q :=
  of_ok (f := id) h hQ (fun _ _ => rfl) fun _ _ => rfl

/-- What is scanned by offsets is what is scanned. -/
theorem scan {k : OffsetScan α} {m : Scan α} (hk : Offsets.Agrees k m c)
    (hm : ∀ a d, m c = .ok a d → setting.view.IsAt d) :
    Agrees setting (scan setting k) (Evaluation.scan setting.toSetting m) c
      fun a d => m c = .ok a d := by
  intro hs inner
  rw [Offsets.Agrees] at hk
  cases h : m c with
  | ok a d =>
    rw [h] at hk
    simp only [OffsetEvaluation.scan, Evaluation.scan, hk, h, Offsets.located]
    refine ⟨rfl, fun _ _ heq => ?_⟩
    obtain ⟨rfl, rfl⟩ := EStateM.Result.ok.inj heq
    exact ⟨hm a d h, rfl⟩
  | error fault d =>
    rw [h] at hk
    simp only [OffsetEvaluation.scan, Evaluation.scan, hk, h, Offsets.located]
    exact ⟨rfl, fun _ _ heq => by cases heq⟩

theorem ite {p : Prop} {_ : Decidable p} {k k' : EvalM σ α} {m m' : Evaluation.EvalM σ α}
    (h : p → Agrees setting k m c Q) (h' : ¬p → Agrees setting k' m' c Q) :
    Agrees setting (if p then k else k') (if p then m else m') c Q := by
  by_cases hp : p
  · rw [if_pos hp, if_pos hp]
    exact h hp
  · rw [if_neg hp, if_neg hp]
    exact h' hp

theorem refuse {cause : Malformation} :
    Agrees setting (OffsetEvaluation.scan setting (Offsets.refuse cause))
      (Evaluation.scan setting.toSetting (Scan.refuse cause)) c Q :=
  of_error (.malformed cause (setting.source.locate c.position)) (fun _ _ => rfl) fun _ _ => rfl

theorem refuseAt {position : Nat} {cause : Malformation} :
    Agrees setting (OffsetEvaluation.scan setting (Offsets.blame position cause))
      (Evaluation.scan setting.toSetting (Scan.refuseAt position cause)) c Q :=
  of_error (.malformed cause (setting.source.locate position)) (fun _ _ => rfl) fun _ _ => rfl

theorem fail {position : Nat} {fault : EvaluationFault} :
    Agrees setting (Evaluation.fail setting.toSetting position fault)
      (Evaluation.fail setting.toSetting position fault) c Q :=
  of_error (.evaluation fault (setting.source.locate position)) (fun _ _ => rfl) fun _ _ => rfl

theorem notify {event : Event} {position : Nat} (h : setting.view.IsAt c) :
    Agrees setting (Evaluation.notify setting.toSetting event position)
      (Evaluation.notify setting.toSetting event position) c fun _ d => d = c := by
  refine fun hs inner => ⟨notify_located event position ⟨c, hs, inner⟩, fun a s hm => ?_⟩
  rw [Evaluation.cursor_of_notify hm]
  exact ⟨h, rfl⟩

theorem resolve {call : FunctionCall} {position : Nat} (h : setting.view.IsAt c) :
    Agrees setting (Evaluation.resolve setting.toSetting call position)
      (Evaluation.resolve setting.toSetting call position) c fun _ d => d = c := by
  refine fun hs inner => ⟨resolve_located call position ⟨c, hs, inner⟩, fun a s hm => ?_⟩
  obtain ⟨-, rfl⟩ := Evaluation.resolve_eq_ok.1 hm
  exact ⟨h, rfl⟩

theorem within {scope : Scope} {start : Nat} {body : Option Response → EvalM σ α}
    {body' : Option Response → Evaluation.EvalM σ α} (h : setting.view.IsAt c)
    (hbody : ∀ response, Agrees setting (body response) (body' response) c Q) :
    Agrees setting (Evaluation.within setting.toSetting scope start body)
      (Evaluation.within setting.toSetting scope start body') c Q := by
  refine .bind (.notify h) ?_
  rintro response d - rfl hs inner
  obtain ⟨hrun, hok⟩ := hbody response hs inner
  have leave (s : Evaluation.State σ) :
      Evaluation.notify setting.toSetting (.leave scope) s.cursor.position (State.located s) =
        located (Evaluation.notify setting.toSetting (.leave scope) s.cursor.position s) :=
    notify_located _ _ s
  cases hm : body' response ⟨d, hs, inner⟩ with
  | ok a s =>
    have hleave := leave s
    rw [hm] at hrun
    cases hnotify : Evaluation.notify setting.toSetting (.leave scope) s.cursor.position s with
    | ok response t =>
      rw [hnotify] at hleave
      simp only [hrun, hm, located, offset_located, Evaluation.offset_cursor, hleave, hnotify]
      refine ⟨trivial, fun _ _ heq => ?_⟩
      obtain ⟨rfl, rfl⟩ := EStateM.Result.ok.inj heq
      rw [Evaluation.cursor_of_notify hnotify]
      exact hok a s hm
    | error e t =>
      rw [hnotify] at hleave
      simp only [hrun, hm, located, offset_located, Evaluation.offset_cursor, hleave, hnotify]
      exact ⟨trivial, fun _ _ heq => by cases heq⟩
  | error e s =>
    have hleave := leave s
    rw [hm] at hrun
    -- What is answered to the end of a failed scope is ignored.
    cases hnotify : Evaluation.notify setting.toSetting (.leave scope) s.cursor.position s with
    | ok _ t | error _ t =>
      rw [hnotify] at hleave
      simp only [hrun, hm, located, offset_located, Evaluation.offset_cursor, hleave, hnotify]
      exact ⟨trivial, fun _ _ heq => by cases heq⟩

theorem buildHash {k : EvalM σ α} {m : Evaluation.EvalM σ α} (h : Agrees setting k m c Q) :
    Agrees setting (Evaluation.buildHash k) (Evaluation.buildHash m) c
      fun a d => Q a.1 d := by
  intro hs inner
  obtain ⟨hrun, hok⟩ := h ([] :: hs) inner
  simp only [Evaluation.buildHash, hrun]
  cases hm : m ⟨c, [] :: hs, inner⟩ with
  | ok a s =>
    refine ⟨rfl, fun _ _ heq => ?_⟩
    obtain ⟨rfl, rfl⟩ := EStateM.Result.ok.inj heq
    exact hok a s hm
  | error e s => exact ⟨rfl, fun _ _ heq => by cases heq⟩

theorem modifyHash {f : Hash → Hash} (h : setting.view.IsAt c) :
    Agrees setting (Evaluation.modifyHash f) (Evaluation.modifyHash f) c fun _ d => d = c :=
  fun hs inner => by
    cases hs <;> exact ⟨rfl, fun _ _ heq => by cases heq; exact ⟨h, rfl⟩⟩

theorem get {k : EvalM σ α} {f : Evaluation.State σ → Evaluation.EvalM σ α}
    (hf : ∀ s : Evaluation.State σ, s.cursor = c → Agrees setting k (f s) c Q) :
    Agrees setting k (MonadState.get >>= f) c Q :=
  fun hs inner => hf ⟨c, hs, inner⟩ rfl hs inner

theorem position {g : Nat → EvalM σ α} {m : Evaluation.EvalM σ α}
    (h : Agrees setting (g c.position) m c Q) :
    Agrees setting (Evaluation.position >>= g) m c Q :=
  h

theorem position_right {k : EvalM σ α} {f : Nat → Evaluation.EvalM σ α}
    (h : Agrees setting k (f c.position) c Q) :
    Agrees setting k (Evaluation.position >>= f) c Q :=
  h

/-- A look or a slice whose result is known. -/
theorem scan_left {k : OffsetScan α} {a : α} {g : α → EvalM σ β} {m : Evaluation.EvalM σ β}
    (hk : k c.position = .ok a c.position) (h : Agrees setting (g a) m c S) :
    Agrees setting (OffsetEvaluation.scan setting k >>= g) m c S := by
  intro hs inner
  have hrun : OffsetEvaluation.scan setting k ⟨c.position, hs, inner⟩ =
      .ok a ⟨c.position, hs, inner⟩ := by simp only [OffsetEvaluation.scan, hk]
  rw [bind_of_eq_ok hrun]
  exact h hs inner

/-- Both go to the same place. -/
theorem goTo {k : Unit → EvalM σ α} {f : Unit → Evaluation.EvalM σ α}
    (place : Evaluation.State σ → Cursor)
    (hplace : ∀ s : Evaluation.State σ, s.cursor = c → place s = d)
    (h : Agrees setting (k ()) (f ()) d Q) :
    Agrees setting (OffsetEvaluation.goTo d.position >>= k)
      ((modify fun s => { s with cursor := place s }) >>= f) c Q := by
  intro hs inner
  have h := h hs inner
  rw [← hplace ⟨c, hs, inner⟩ rfl] at h ⊢
  exact h

/-- Both go back by one character of one byte. -/
theorem goBack {k : Unit → EvalM σ α} {f : Unit → Evaluation.EvalM σ α}
    (hposition : c.position - 1 = d.position) (hplace : c.previous = d)
    (h : Agrees setting (k ()) (f ()) d Q) :
    Agrees setting ((modify fun s => { s with cursor := s.cursor - 1 }) >>= k)
      ((modify fun s => { s with cursor := s.cursor.previous }) >>= f) c Q := by
  intro hs inner
  have h := h hs inner
  rw [← hposition] at h
  subst hplace
  exact h

/-- Both refuse under the same condition. -/
theorem refuse_or {p q : Prop} {_ : Decidable p} {_ : Decidable q} {k : OffsetScan α} {m : Scan α}
    {k' : EvalM σ β} {m' : Evaluation.EvalM σ β} (hiff : p ↔ q)
    (hrefuse : Agrees setting (OffsetEvaluation.scan setting k)
      (Evaluation.scan setting.toSetting m) c fun _ _ => False)
    (h : Agrees setting k' m' c S) :
    Agrees setting (if p then OffsetEvaluation.scan setting k >>= fun _ => k' else k')
      (if q then Evaluation.scan setting.toSetting m >>= fun _ => m' else m') c S := by
  by_cases hp : p
  · rw [if_pos hp, if_pos (hiff.1 hp)]
    exact .bind hrefuse fun _ _ _ h => h.elim
  · rw [if_neg hp, if_neg (mt hiff.2 hp)]
    exact h

theorem blanks (h : setting.view.IsAt c) :
    Agrees setting (OffsetEvaluation.scan setting (Offsets.blanks setting.view))
      (Evaluation.scan setting.toSetting Scan.blanks) c fun _ _ => True :=
  (scan (Offsets.blanks_agrees h) fun _ _ hd => h.leads (Scan.leads_of_blanks hd)).imp
    fun _ _ _ => trivial

theorem separator (h : setting.view.IsAt c) (closing : Option Char)
    (refusal : Option ColonRefusal) :
    Agrees setting (OffsetEvaluation.scan setting (Offsets.separator setting.view closing refusal))
      (Evaluation.scan setting.toSetting (Scan.separator closing refusal)) c
      fun sep d => sep = .closing → d.peek? = closing :=
  (scan (Offsets.separator_agrees h closing refusal) fun _ _ hd =>
    h.leads (Scan.leads_of_separator hd)).imp fun _ _ hd hsep =>
      peek?_of_separator_closing (hsep ▸ hd)

/-- Both move on over a character of one byte. -/
theorem next (h : setting.view.IsAt c) {x : Char} (hpeek : c.peek? = some x)
    (hx : x.utf8Size = 1) :
    Agrees setting (OffsetEvaluation.scan setting (Offsets.advance 1))
      (Evaluation.scan setting.toSetting Scan.next) c fun _ d => d = c.next :=
  (scan (Offsets.next_agrees hpeek hx) fun _ _ hd =>
    Scan.next_eq_ok.1 hd ▸ h.leads (Cursor.Leads.next c)).imp
      fun _ _ hd => (Scan.next_eq_ok.1 hd).symm

theorem passExpression (h : setting.view.IsAt c) :
    Agrees setting (OffsetEvaluation.passExpression setting)
      (Evaluation.passExpression setting.toSetting) c
      fun ends d => Scan.extent c = .ok () d ∧ ends = (c.position, d.position) := by
  refine .position (.position_right (.bind (.scan (Offsets.extent_agrees h) fun _ _ hd =>
    h.leads (extent_eq_ok.1 hd).leads) fun _ d hplace hd => ?_))
  exact .position (.position_right (.pure hplace ⟨hd, rfl⟩))

end Agrees

/-- With a given bound, evaluation by offsets does what evaluation does. The opening bracket of a
listing is just before the place where its inside begins; without brackets, its place is not asked
for. -/
structure AllAgree (setting : Setting σ) (n : Nat) : Prop where
  expression : ∀ {c forced inKey}, setting.view.IsAt c →
    Agrees setting (expression setting n forced inKey)
      (Evaluation.expression setting.toSetting n forced inKey) c fun _ _ => True
  hash : ∀ {c forced}, setting.view.IsAt c → c.peek? = some '{' →
    Agrees setting (hash setting n forced) (Evaluation.hash setting.toSetting n forced) c
      fun _ _ => True
  sequence : ∀ {c forced}, setting.view.IsAt c → c.peek? = some '[' →
    Agrees setting (sequence setting n forced) (Evaluation.sequence setting.toSetting n forced) c
      fun _ _ => True
  unquoted : ∀ {c forced inKey}, setting.view.IsAt c →
    Agrees setting (unquoted setting n forced inKey)
      (Evaluation.unquoted setting.toSetting n forced inKey) c fun _ _ => True
  itemsUpTo : ∀ {c closing forced opening}, setting.view.IsAt c →
    (closing = none ∨ c.position - 1 = opening) →
    Agrees setting (itemsUpTo setting n closing forced)
      (Evaluation.itemsUpTo setting.toSetting n closing forced opening) c
      fun _ d => d.peek? = closing
  items : ∀ {c closing forced first opening}, setting.view.IsAt c →
    (closing = none ∨ first = opening) →
    Agrees setting (items setting n closing forced first)
      (Evaluation.items setting.toSetting n closing forced opening) c fun _ d => d.peek? = closing
  entriesUpTo : ∀ {c closing forced opening}, setting.view.IsAt c →
    (closing = none ∨ c.position - 1 = opening) →
    Agrees setting (entriesUpTo setting n closing forced)
      (Evaluation.entriesUpTo setting.toSetting n closing forced opening) c
      fun _ d => d.peek? = closing
  entries : ∀ {c closing forced first opening}, setting.view.IsAt c →
    (closing = none ∨ first = opening) →
    Agrees setting (entries setting n closing forced first)
      (Evaluation.entries setting.toSetting n closing forced opening) c fun _ d => d.peek? = closing
  entry : ∀ {c closing forced}, setting.view.IsAt c →
    Agrees setting (entry setting n closing forced)
      (Evaluation.entry setting.toSetting n closing forced) c
      fun sep d => sep = .closing → d.peek? = closing
  keyValue : ∀ {c name start forced}, setting.view.IsAt c →
    Agrees setting (keyValue setting n name start forced)
      (Evaluation.keyValue setting.toSetting n name start forced) c fun _ _ => True

theorem AllAgree.zero : AllAgree setting 0 where
  expression _ := by simp only [OffsetEvaluation.expression, Evaluation.expression]; exact .refuse
  hash _ _ := by simp only [OffsetEvaluation.hash, Evaluation.hash]; exact .refuse
  sequence _ _ := by simp only [OffsetEvaluation.sequence, Evaluation.sequence]; exact .refuse
  unquoted _ := by simp only [OffsetEvaluation.unquoted, Evaluation.unquoted]; exact .refuse
  itemsUpTo _ _ := by simp only [OffsetEvaluation.itemsUpTo, Evaluation.itemsUpTo]; exact .refuse
  items _ _ := by simp only [OffsetEvaluation.items, Evaluation.items]; exact .refuse
  entriesUpTo _ _ := by
    simp only [OffsetEvaluation.entriesUpTo, Evaluation.entriesUpTo]; exact .refuse
  entries _ _ := by simp only [OffsetEvaluation.entries, Evaluation.entries]; exact .refuse
  entry _ := by simp only [OffsetEvaluation.entry, Evaluation.entry]; exact .refuse
  keyValue _ := by simp only [OffsetEvaluation.keyValue, Evaluation.keyValue]; exact .refuse

section
variable {n : Nat} {forced inKey : Bool} {closing : Option Char} {first opening start : Nat}

theorem expression_agrees (ih : AllAgree setting n) (h : setting.view.IsAt c) :
    Agrees setting (expression setting (n + 1) forced inKey)
      (Evaluation.expression setting.toSetting (n + 1) forced inKey) c fun _ _ => True := by
  simp only [expression, Evaluation.expression]
  refine .scan_left (Offsets.peek_run h) (.get fun s hs => ?_)
  rw [hs, Cursor.peek?]
  cases hrest : c.rest with
  | nil => exact .refuse
  | cons x rest =>
    have hpeek : c.peek? = some x := by rw [Cursor.peek?, hrest]; rfl
    refine .ite (fun hx => ih.hash h (hx ▸ hpeek)) fun _ => .ite
      (fun hx => ih.sequence h (hx ▸ hpeek)) fun _ => .ite (fun hx => ?_) fun _ => ?_
    · refine .bind (.scan (Offsets.quoted_agrees h hpeek hx) fun _ _ hd =>
        h.leads (Scan.quoted_length_lt hpeek hd).1) fun _ _ hd _ => .pure hd trivial
    · have hraw : (do Offsets.rawQuotation? setting.view (← get)) c.position =
          .ok (Literal.rawQuotation? c.rest) c.position := by
        rw [get_bind_run, Offsets.rawQuotation?_eq h]
        rfl
      rw [hrest] at hraw
      refine .scan_left hraw ?_
      cases hquotation : Literal.rawQuotation? (x :: rest) with
      | none => exact ih.unquoted h
      | some quotation =>
        rw [← hrest] at hquotation
        refine .bind (.scan (Offsets.raw_agrees h hquotation) fun _ _ hd => ?_)
          fun _ _ hd _ => .pure hd trivial
        exact h.leads ((Cursor.Leads.next c).trans ((Cursor.Leads.next _).trans
          (Scan.raw_leads hd).1))

theorem hash_agrees (ih : AllAgree setting n) (h : setting.view.IsAt c)
    (opens : c.peek? = some '{') :
    Agrees setting (hash setting (n + 1) forced)
      (Evaluation.hash setting.toSetting (n + 1) forced) c fun _ _ => True := by
  simp only [hash, Evaluation.hash]
  refine .position (.get fun s hs => ?_)
  rw [hs]
  refine .bind (.next h opens rfl) fun _ d hd hnext => ?_
  subst hnext
  have hopening := Offsets.position_next_sub opens rfl
  refine .bind (.buildHash (Q := fun _ d => d.peek? = some '}') (.position (.position_right
    (.within hd fun response => .ite (fun _ => ?_) fun _ => ?_)))) fun a e he hcloses =>
      .bind (.next he hcloses rfl) fun _ _ hend _ => .pure hend trivial
  · exact .bind (ih.entriesUpTo hd (.inr hopening)) fun _ e he hcloses => .pure he hcloses
  · refine .goTo _ (fun _ _ => rfl) (.bind (.passExpression h) fun ends e he hends => ?_)
    -- The hash is left from its closing brace.
    obtain ⟨hextent, rfl⟩ := hends
    have hstays := Scan.extent_stays_of_brace opens (Cursor.Leads.refl c)
    obtain ⟨e, hleads, hcloses, rfl⟩ := (hstays.leads hextent).2
    refine .goBack (Offsets.position_next_sub hcloses rfl) (Cursor.previous_next hcloses) ?_
    exact .pure (hd.leads hleads) hcloses

theorem sequence_agrees (ih : AllAgree setting n) (h : setting.view.IsAt c)
    (opens : c.peek? = some '[') :
    Agrees setting (sequence setting (n + 1) forced)
      (Evaluation.sequence setting.toSetting (n + 1) forced) c fun _ _ => True := by
  simp only [sequence, Evaluation.sequence]
  refine .position_right (.bind (.next h opens rfl) fun _ d hd hnext => ?_)
  subst hnext
  have hopening := Offsets.position_next_sub opens rfl
  refine .position (.position_right (.bind (.within hd fun _ => ih.itemsUpTo hd (.inr hopening))
    fun _ e he hcloses => ?_))
  exact .bind (.next he hcloses rfl) fun _ _ hend _ => .pure hend trivial

theorem unquoted_agrees (ih : AllAgree setting n) (h : setting.view.IsAt c) :
    Agrees setting (unquoted setting (n + 1) forced inKey)
      (Evaluation.unquoted setting.toSetting (n + 1) forced inKey) c fun _ _ => True := by
  simp only [unquoted, Evaluation.unquoted]
  refine .position (.position_right (.bind (.scan (Offsets.token_agrees h inKey) fun l d hd => ?_)
    fun l stop hstop htoken => ?_))
  · obtain ⟨rest, hsplit, rfl⟩ := Scan.token_eq_ok.1 hd
    exact h.leads (Token.leads_pass hsplit)
  · obtain ⟨rest, hsplit, rfl⟩ := Scan.token_eq_ok.1 htoken
    refine .position (.refuse_or ?_ .refuse ?_)
    · rw [Cursor.position_pass, Nat.add_eq_left, Offsets.byteSize_eq_zero, List.isEmpty_iff]
    · refine .get fun s hs => ?_
      rw [hs]
      refine .bind (.blanks hstop) fun _ e he _ => ?_
      refine .scan_left (Offsets.peek_run he) (.get fun s hs => ?_)
      rw [hs]
      refine .ite (fun hopen => ?_) fun _ => ?_
      · refine .position_right (.bind (.next he hopen rfl) fun _ d hd hnext => ?_)
        subst hnext
        refine .bind (.within hd fun _ =>
          ih.itemsUpTo hd (.inr (Offsets.position_next_sub hopen rfl))) fun _ e' he' hcloses => ?_
        refine .bind (.next he' hcloses rfl) fun _ _ hend _ => .ite (fun _ => .pure hend trivial)
          fun _ => (Agrees.resolve hend).imp fun _ _ _ => trivial
      · exact .goTo _ (fun _ _ => rfl) (.pure hstop trivial)

theorem itemsUpTo_agrees (ih : AllAgree setting n) (h : setting.view.IsAt c)
    (hopening : closing = none ∨ c.position - 1 = opening) :
    Agrees setting (itemsUpTo setting (n + 1) closing forced)
      (Evaluation.itemsUpTo setting.toSetting (n + 1) closing forced opening) c
      fun _ d => d.peek? = closing := by
  simp only [itemsUpTo, Evaluation.itemsUpTo]
  exact .position (.bind (.blanks h) fun _ _ hd _ => ih.items hd hopening)

theorem items_agrees (ih : AllAgree setting n) (h : setting.view.IsAt c)
    (hopening : closing = none ∨ first = opening) :
    Agrees setting (items setting (n + 1) closing forced first)
      (Evaluation.items setting.toSetting (n + 1) closing forced opening) c
      fun _ d => d.peek? = closing := by
  simp only [items, Evaluation.items]
  refine .scan_left (Offsets.peek_run h) (.get fun s hs => ?_)
  rw [hs]
  cases hpeek : c.peek? with
  | none =>
    cases closing with
    | none => exact .pure h hpeek
    | some closing =>
      obtain rfl := hopening.resolve_left (Option.some_ne_none closing)
      exact .refuseAt
  | some x =>
    refine .ite (fun hx => .pure h (hpeek.trans hx.symm)) fun _ => .ite (fun _ => .refuse) fun _ =>
      .bind (ih.expression h) fun v d hd _ => .bind (.separator hd _ _) fun sep e he hcloses => ?_
    refine .ite (fun hsep => .pure he (hcloses hsep)) fun _ => ?_
    exact .bind (ih.items he hopening) fun _ _ hend hcloses => .pure hend hcloses

theorem entriesUpTo_agrees (ih : AllAgree setting n) (h : setting.view.IsAt c)
    (hopening : closing = none ∨ c.position - 1 = opening) :
    Agrees setting (entriesUpTo setting (n + 1) closing forced)
      (Evaluation.entriesUpTo setting.toSetting (n + 1) closing forced opening) c
      fun _ d => d.peek? = closing := by
  simp only [entriesUpTo, Evaluation.entriesUpTo]
  exact .position (.bind (.blanks h) fun _ _ hd _ => ih.entries hd hopening)

theorem entries_agrees (ih : AllAgree setting n) (h : setting.view.IsAt c)
    (hopening : closing = none ∨ first = opening) :
    Agrees setting (entries setting (n + 1) closing forced first)
      (Evaluation.entries setting.toSetting (n + 1) closing forced opening) c
      fun _ d => d.peek? = closing := by
  simp only [entries, Evaluation.entries]
  refine .scan_left (Offsets.peek_run h) (.get fun s hs => ?_)
  rw [hs]
  cases hpeek : c.peek? with
  | none =>
    cases closing with
    | none => exact .pure h hpeek
    | some closing =>
      obtain rfl := hopening.resolve_left (Option.some_ne_none closing)
      exact .refuseAt
  | some x =>
    refine .ite (fun hx => .pure h (hpeek.trans hx.symm)) fun _ => .ite (fun _ => .refuse) fun _ =>
      .bind (ih.entry h) fun sep d hd hcloses => ?_
    exact .ite (fun hsep => .pure hd (hcloses hsep)) fun _ => ih.entries hd hopening

theorem resolveKey_agrees {key : Value} (h : setting.view.IsAt c) :
    Agrees setting (Evaluation.resolveKey setting.toSetting key start)
      (Evaluation.resolveKey setting.toSetting key start) c fun _ _ => True := by
  cases key with
  | call name params => exact .bind (.resolve h) fun _ _ hd _ => .pure hd trivial
  | _ => exact .pure h trivial

theorem keyName_agrees {key : Value} {unresolved : Bool} (h : setting.view.IsAt c) :
    Agrees setting (Evaluation.keyName setting.toSetting key unresolved start)
      (Evaluation.keyName setting.toSetting key unresolved start) c fun _ _ => True := by
  cases key with
  | string name => exact .pure h trivial
  | _ => exact .ite (fun _ => .fail) fun _ => .fail

/-- Whatever is stored for an entry without a colon, the place stays. -/
theorem storeBare_agrees {key : Value} {fromCall unresolved : Bool} (h : setting.view.IsAt c) :
    Agrees setting (Evaluation.storeBare setting.toSetting key fromCall unresolved start)
      (Evaluation.storeBare setting.toSetting key fromCall unresolved start) c
      fun _ d => d = c := by
  have refusal : ∀ v : Value, Agrees setting
      (if unresolved then Evaluation.fail setting.toSetting start .unresolvedKey
        else Evaluation.fail setting.toSetting start (.resultKind v.kind) : EvalM σ Unit)
      (if unresolved then Evaluation.fail setting.toSetting start .unresolvedKey
        else Evaluation.fail setting.toSetting start (.resultKind v.kind)) c fun _ d => d = c :=
    fun v => .ite (fun _ => .fail) fun _ => .fail
  cases key with
  | hash entries => cases fromCall <;> exact .modifyHash h
  | string name =>
    cases fromCall with
    | false => exact .within h fun _ => .ite (fun _ => .pure h rfl) fun _ => .modifyHash h
    | true => exact refusal _
  | _ =>
    cases fromCall with
    | false => exact .fail
    | true => exact refusal _

theorem entry_agrees (ih : AllAgree setting n) (h : setting.view.IsAt c) :
    Agrees setting (entry setting (n + 1) closing forced)
      (Evaluation.entry setting.toSetting (n + 1) closing forced) c
      fun sep d => sep = .closing → d.peek? = closing := by
  simp only [entry, Evaluation.entry]
  refine .position (.position_right (.bind (ih.expression h) fun key d hd _ => ?_))
  refine .bind (resolveKey_agrees hd) fun r d hd _ => ?_
  refine .bind (.separator hd _ _) fun sep e he hcloses => .ite (fun _ => ?_) fun _ => ?_
  · refine .bind (keyName_agrees he) fun name e he _ => ?_
    exact .bind (ih.keyValue he) fun _ d hd _ => .separator hd _ _
  · refine .bind (storeBare_agrees he) fun _ d hd hstay => .pure hd ?_
    rwa [hstay]

theorem keyValue_agrees (ih : AllAgree setting n) {name : String} (h : setting.view.IsAt c) :
    Agrees setting (keyValue setting (n + 1) name start forced)
      (Evaluation.keyValue setting.toSetting (n + 1) name start forced) c fun _ _ => True := by
  simp only [keyValue, Evaluation.keyValue]
  refine .position (.get fun s hs => ?_)
  rw [hs]
  refine .refuse_or h.position_eq_stop .refuseAt (.within h fun response => ?_)
  cases response with
  | none =>
    exact .bind (ih.expression h) fun _ d hd _ => (Agrees.modifyHash hd).imp fun _ _ _ => trivial
  | some response =>
    refine .bind (.passExpression h) fun ends d hd hends => ?_
    obtain ⟨-, rfl⟩ := hends
    exact .ite (fun _ => (Agrees.modifyHash hd).imp fun _ _ _ => trivial) fun _ => .pure hd trivial

end

theorem allAgree (setting : Setting σ) : ∀ n, AllAgree setting n
  | 0 => .zero
  | n + 1 =>
    have ih := allAgree setting n
    { expression := expression_agrees ih
      hash := hash_agrees ih
      sequence := sequence_agrees ih
      unquoted := unquoted_agrees ih
      itemsUpTo := itemsUpTo_agrees ih
      items := items_agrees ih
      entriesUpTo := entriesUpTo_agrees ih
      entries := entries_agrees ih
      entry := entry_agrees ih
      keyValue := keyValue_agrees ih }

theorem rest_agrees {g : List Char → EvalM σ α} {m : Evaluation.EvalM σ α}
    (h : setting.view.IsAt c) (hg : Agrees setting (g c.rest) m c Q) :
    Agrees setting (rest setting >>= g) m c Q := by
  have hslice : Offsets.slice setting.view c.position setting.stop c.position =
      .ok c.rest c.position := congrFun (Offsets.slice_rest h) c.position
  exact fun hs inner => Agrees.scan_left hslice hg hs inner

theorem single_agrees (h : setting.view.IsAt c) (forced : Bool) :
    Agrees setting (single setting forced) (Evaluation.single setting.toSetting forced) c
      fun _ _ => True := by
  simp only [single, Evaluation.single]
  refine rest_agrees h (.get fun s hs => ?_)
  rw [hs]
  refine .bind (.blanks h) fun _ d hd _ => .position (.get fun s hs => ?_)
  rw [hs]
  refine .refuse_or hd.position_eq_stop .refuse ?_
  refine .bind ((allAgree setting _).expression hd) fun v e he _ => ?_
  refine .bind (.blanks he) fun _ d hd _ => .position (.get fun s hs => ?_)
  rw [hs]
  have hstop : d.position = setting.stop ↔ d.rest.isEmpty := hd.position_eq_stop
  have hle : d.position ≤ setting.stop := hd.position_le_stop
  by_cases hend : d.rest.isEmpty
  · rw [if_pos hend, if_neg (Nat.not_lt.2 (Nat.le_of_eq (hstop.2 hend).symm))]
    exact .pure hd trivial
  · rw [if_neg hend, if_pos (Nat.lt_of_le_of_ne hle (mt hstop.1 hend))]
    exact .bind (.refuse (Q := fun _ _ => False)) fun _ _ _ h => h.elim

theorem topHash_agrees (h : setting.view.IsAt c) (forced : Bool) :
    Agrees setting (topHash setting forced) (Evaluation.topHash setting.toSetting forced) c
      fun _ _ => True := by
  simp only [topHash, Evaluation.topHash]
  refine rest_agrees h (.get fun s hs => ?_)
  rw [hs]
  refine .bind (.buildHash (.position (.within h fun _ =>
    (allAgree setting _).entriesUpTo h (.inl rfl)))) fun _ _ hd _ => .pure hd trivial

theorem topSequence_agrees (h : setting.view.IsAt c) (forced : Bool) :
    Agrees setting (topSequence setting forced) (Evaluation.topSequence setting.toSetting forced) c
      fun _ _ => True := by
  simp only [topSequence, Evaluation.topSequence]
  refine rest_agrees h (.get fun s hs => ?_)
  rw [hs]
  exact .position ((Agrees.within h fun _ =>
    (allAgree setting _).itemsUpTo h (.inl rfl)).imp fun _ _ _ => trivial)

/-- What agrees has the same result, and leaves the environment in the same state. -/
theorem Agrees.run {k : EvalM σ α} {m : Evaluation.EvalM σ α} (h : Agrees setting k m c Q)
    (inner : σ) : Evaluation.run k c.position inner =
      ((Evaluation.run m c inner).1.mapError some, (Evaluation.run m c inner).2) := by
  simp only [Evaluation.run, (h [] inner).1]
  cases m ⟨c, [], inner⟩ <;> rfl

end OffsetEvaluation

namespace Task

variable {σ : Type}

theorem HasWindow.isAt {task : Task} (h : task.HasWindow) :
    View.IsAt ⟨task.source.text.toList, task.stop⟩ task.window := by
  obtain ⟨before, l, after, htext, hwindow, -, hstop⟩ := h.exists_parts
  rw [hwindow]
  refine ⟨after, by simp [htext], ?_⟩
  simp [← hstop, Cursor.position]

/-- From a window between characters, the evaluation by offsets does what the evaluation does. -/
theorem evaluateByOffsets_eq {task : Task} (hwindow : task.HasWindow) (env : Environment σ)
    (inner : σ) : task.evaluateByOffsets env inner =
      ((task.evaluate env inner).1.mapError some, (task.evaluate env inner).2) := by
  have hplace : (OffsetEvaluation.Setting.view ⟨⟨task.source, env⟩, task.stop⟩).IsAt task.window :=
    hwindow.isAt
  have hagrees : OffsetEvaluation.Agrees ⟨⟨task.source, env⟩, task.stop⟩
      (task.programByOffsets env) (task.program σ env) task.window fun _ _ => True := by
    cases task with
    | text source mode forced =>
      cases mode with
      | hash =>
        exact .bind (OffsetEvaluation.topHash_agrees hplace forced) fun _ _ hd _ =>
          .pure hd trivial
      | sequence =>
        exact .bind (OffsetEvaluation.topSequence_agrees hplace forced) fun _ _ hd _ =>
          .pure hd trivial
      | expression => exact OffsetEvaluation.single_agrees hplace forced
    | fragment f forced => exact OffsetEvaluation.single_agrees hplace forced
  rw [evaluateByOffsets, ← hwindow.position_window, evaluate_eq_run, hagrees.run]

end Task
end TextualData
