import TextualData.Proofs.Blame
import TextualData.Proofs.Blanks
import TextualData.Proofs.Tasks

/-!
# Evaluation moves forward

`Evaluation.Advances` says of a computation, whatever the environment answers and however the
computation ends, that its callbacks are made at places on the way from one place of the window to
the place where it ends, in their order, and that what it blames for a failure is a place of the
window. It holds of all that evaluation is made of. A computation may look back, as it does where it
reads a hash that is kept as a fragment or a token that is no call; it never comes back to before
its last callback.
-/

namespace TextualData

/-- Callbacks are made at places on the way from one place to another, in order. -/
inductive Cursor.Visits : Cursor → List CallbackRecord → Cursor → Prop where
  | nil {c c' : Cursor} (h : c.Leads c') : Visits c [] c'
  | cons {c c₁ c' : Cursor} {r : CallbackRecord} {log : List CallbackRecord} (h : c.Leads c₁)
      (here : r.position = c₁.position) (more : Visits c₁ log c') : Visits c (r :: log) c'

namespace Cursor.Visits

variable {c c₁ c' : Cursor} {log log' : List CallbackRecord}

theorem leads (h : c.Visits log c') : c.Leads c' := by
  induction h with
  | nil h => exact h
  | cons h _ _ ih => exact h.trans ih

theorem of_leads (h : c.Leads c₁) (more : c₁.Visits log c') : c.Visits log c' := by
  cases more with
  | nil h' => exact .nil (h.trans h')
  | cons h' here more => exact .cons (h.trans h') here more

theorem append (h : c.Visits log c₁) (more : c₁.Visits log' c') : c.Visits (log ++ log') c' := by
  induction h with
  | nil h => exact more.of_leads h
  | cons h here _ ih => exact .cons h here (ih more)

/-- A callback at the place itself. -/
theorem single {r : CallbackRecord} (h : c.Leads c') (here : r.position = c'.position) :
    c.Visits [r] c' :=
  .cons h here (.nil (.refl c'))

end Cursor.Visits

/-- An error is put down to a place of the window, or it is an answer of the environment that is
passed on as it is. -/
def Error.IsBlamed (source : Source) (w : Cursor) (log : List CallbackRecord) (e : Error) : Prop :=
  (∃ position, w.Covers position ∧ e.location? = some (source.locate position)) ∨
    ∃ r ∈ log, ∃ event, r.callback = .event event (.error e)

/-- More callbacks change nothing about what an error is put down to. -/
theorem Error.IsBlamed.mono {source : Source} {w : Cursor} {log log' : List CallbackRecord}
    {e : Error} (h : e.IsBlamed source w log) (hlog : log ⊆ log') : e.IsBlamed source w log' :=
  h.imp_right fun ⟨r, hr, hevent⟩ => ⟨r, hlog hr, hevent⟩

namespace Evaluation

variable {σ α β : Type} {source : Source} {env : Environment σ} {w floor c d : Cursor}
  {Q R : α → Cursor → Prop} {S : β → Cursor → Prop}

/-- From a place of the window `w`, and whatever the environment has recorded before, a computation
makes callbacks on the way from `floor` to where it ends; it has a result as told or fails with an
error that is accounted for. -/
def Advances (source : Source) (w floor : Cursor) (m : EvalM (σ × List CallbackRecord) α)
    (c : Cursor) (Q : α → Cursor → Prop) : Prop :=
  ∀ hs inner past, ∃ log : List CallbackRecord,
    match m ⟨c, hs, inner, past⟩ with
    | .ok a s => s.inner.2 = log.reverse ++ past ∧ floor.Visits log s.cursor ∧ Q a s.cursor
    | .error e s =>
      s.inner.2 = log.reverse ++ past ∧ floor.Visits log s.cursor ∧ e.IsBlamed source w log

/-- A state of evaluation at a place. -/
abbrev TracedState (σ : Type) := State (σ × List CallbackRecord)

namespace Advances

/-- A step that makes no callback and succeeds. -/
theorem of_ok {m : EvalM (σ × List CallbackRecord) α} {a : TracedState σ → α}
    {f : TracedState σ → List Hash} (h : ∀ s : TracedState σ, s.cursor = c →
      m s = .ok (a s) ⟨d, f s, s.inner⟩) (hd : floor.Leads d) (hQ : ∀ s, Q (a s) d) :
    Advances source w floor m c Q := by
  intro hs inner past
  refine ⟨[], ?_⟩
  rw [h _ rfl]
  exact ⟨rfl, .nil hd, hQ _⟩

theorem imp {m : EvalM (σ × List CallbackRecord) α} (h : Advances source w floor m c Q)
    (hQ : ∀ a d, floor.Leads d → Q a d → R a d) : Advances source w floor m c R := by
  intro hs inner past
  obtain ⟨log, hlog⟩ := h hs inner past
  refine ⟨log, ?_⟩
  split at hlog
  · exact ⟨hlog.1, hlog.2.1, hQ _ _ hlog.2.1.leads hlog.2.2⟩
  · exact hlog

/-- What comes after a place comes after each place before it. -/
theorem of_leads {m : EvalM (σ × List CallbackRecord) α} (h : Advances source w d m c Q)
    (hd : floor.Leads d) : Advances source w floor m c Q := by
  intro hs inner past
  obtain ⟨log, hlog⟩ := h hs inner past
  refine ⟨log, ?_⟩
  split at hlog
  · exact ⟨hlog.1, hlog.2.1.of_leads hd, hlog.2.2⟩
  · exact ⟨hlog.1, hlog.2.1.of_leads hd, hlog.2.2⟩

theorem bind {m : EvalM (σ × List CallbackRecord) α}
    {f : α → EvalM (σ × List CallbackRecord) β} (hm : Advances source w floor m c Q)
    (hf : ∀ a d, floor.Leads d → Q a d → Advances source w d (f a) d S) :
    Advances source w floor (m >>= f) c S := by
  intro hs inner past
  obtain ⟨log, hlog⟩ := hm hs inner past
  cases hrun : m ⟨c, hs, inner, past⟩ with
  | error e s =>
    simp only [hrun] at hlog
    exact ⟨log, by simpa only [Bind.bind, EStateM.bind, hrun] using hlog⟩
  | ok a s =>
    obtain ⟨d, ks, inner', past'⟩ := s
    simp only [hrun] at hlog
    obtain ⟨rfl, hvisits, hQ⟩ := hlog
    obtain ⟨log', hlog'⟩ := hf a d hvisits.leads hQ ks inner' (log.reverse ++ past)
    refine ⟨log ++ log', ?_⟩
    simp only [Bind.bind, EStateM.bind, hrun]
    split at hlog'
    · exact ⟨by simp [hlog'.1], hvisits.append hlog'.2.1, hlog'.2.2⟩
    · exact ⟨by simp [hlog'.1], hvisits.append hlog'.2.1,
        hlog'.2.2.mono (List.subset_append_right _ _)⟩

/-- After a scan, what follows may go back behind it. -/
theorem after_scan {m : Scan α} {f : α → EvalM (σ × List CallbackRecord) β} {env'}
    (hm : Scan.Stays w floor m c Q)
    (hf : ∀ a d, m c = .ok a d → floor.Leads d → Q a d → Advances source w floor (f a) d S) :
    Advances source w floor (scan ⟨source, env'⟩ m >>= f) c S := by
  intro hs inner past
  cases hrun : m c with
  | error fault d =>
    obtain ⟨hd, hblame⟩ := hm.blame hrun
    refine ⟨[], ?_⟩
    simp only [Bind.bind, EStateM.bind, Evaluation.scan, hrun]
    exact ⟨rfl, .nil hd, .inl ⟨_, hblame, rfl⟩⟩
  | ok a d =>
    obtain ⟨hd, hQ⟩ := hm.leads hrun
    obtain ⟨log, hlog⟩ := hf a d hrun hd hQ hs inner past
    exact ⟨log, by simpa only [Bind.bind, EStateM.bind, Evaluation.scan, hrun] using hlog⟩

theorem pure {a : α} (hc : floor.Leads c) (hQ : Q a c) :
    Advances source w floor (pure a : EvalM (σ × List CallbackRecord) α) c Q :=
  of_ok (fun s hs => by rw [← hs]; rfl) hc fun _ => hQ

theorem scan {m : Scan α} {env'} (hm : Scan.Stays w floor m c Q) :
    Advances source w floor
      (Evaluation.scan ⟨source, env'⟩ m : EvalM (σ × List CallbackRecord) α) c Q := by
  have h : Advances source w floor (Evaluation.scan ⟨source, env'⟩ m >>= Pure.pure) c Q :=
    after_scan hm fun a d _ hd hQ => .pure hd hQ
  rwa [bind_pure] at h

theorem get {f : TracedState σ → EvalM (σ × List CallbackRecord) α}
    (hf : ∀ s : TracedState σ, s.cursor = c → Advances source w floor (f s) c Q) :
    Advances source w floor (MonadState.get >>= f) c Q :=
  fun hs inner past => hf ⟨c, hs, inner, past⟩ rfl hs inner past

theorem position {f : Nat → EvalM (σ × List CallbackRecord) α}
    (hf : Advances source w floor (f c.position) c Q) :
    Advances source w floor (Evaluation.position >>= f) c Q :=
  hf

/-- The cursor is put elsewhere, maybe back. -/
theorem after_move {f : Unit → EvalM (σ × List CallbackRecord) α}
    (place : TracedState σ → Cursor) (h : ∀ s : TracedState σ, s.cursor = c → place s = d)
    (hf : Advances source w floor (f ()) d Q) :
    Advances source w floor ((modify fun s => { s with cursor := place s }) >>= f) c Q := by
  intro hs inner past
  obtain ⟨log, hlog⟩ := hf hs inner past
  refine ⟨log, ?_⟩
  rw [← h ⟨c, hs, inner, past⟩ rfl] at hlog
  exact hlog

theorem after_passExpression {f : Nat × Nat → EvalM (σ × List CallbackRecord) α} {env'}
    (hm : Scan.Stays w floor Scan.extent c fun _ _ => True)
    (hf : ∀ d, Scan.extent c = .ok () d → floor.Leads d →
      Advances source w floor (f (c.position, d.position)) d Q) :
    Advances source w floor (passExpression ⟨source, env'⟩ >>= f) c Q := by
  simp only [passExpression, bind_assoc, pure_bind]
  exact .position (.after_scan hm fun _ d hrun hd _ => .position (hf d hrun hd))

theorem ite {p : Prop} {_ : Decidable p} {m m' : EvalM (σ × List CallbackRecord) α}
    (h : Advances source w floor m c Q) (h' : Advances source w floor m' c Q) :
    Advances source w floor (if p then m else m') c Q := by
  by_cases hp : p
  · rwa [if_pos hp]
  · rwa [if_neg hp]

/-- A refusal comes first under a condition. -/
theorem refuse_or {p : Prop} {_ : Decidable p} {m : Scan α} {env'}
    {m' : EvalM (σ × List CallbackRecord) β} (hm : Scan.Stays w floor m c fun _ _ => False)
    (h : Advances source w floor m' c S) :
    Advances source w floor
      (if p then Evaluation.scan ⟨source, env'⟩ m >>= fun _ => m' else m') c S :=
  .ite (.after_scan hm fun _ _ _ _ h => h.elim) h

theorem fail {position : Nat} {fault : EvaluationFault} {env'} (hc : floor.Leads c)
    (h : w.Covers position) : Advances source w floor
      (Evaluation.fail ⟨source, env'⟩ position fault : EvalM (σ × List CallbackRecord) α) c Q :=
  fun _ _ _ => ⟨[], rfl, .nil hc, .inl ⟨position, h, rfl⟩⟩

theorem modifyHash {f : Hash → Hash} (hc : floor.Leads c) :
    Advances source w floor
      (Evaluation.modifyHash f : EvalM (σ × List CallbackRecord) Unit) c fun _ d => d = c := by
  intro hs inner past
  refine ⟨[], ?_⟩
  cases hs <;> exact ⟨rfl, .nil hc, rfl⟩

/-- An event is told at the cursor. -/
theorem notify {event : Event} {position : Nat} (hc : floor.Leads c) (h : w.Covers position) :
    Advances source w floor (Evaluation.notify ⟨source, env.traced⟩ event position) c
      fun _ d => d = c := by
  intro hs inner past
  rcases hanswer : env.notify event ⟨source, c.position, hs⟩ inner with ⟨e | response, inner'⟩
  · refine ⟨[⟨.event event (.error e), c.position, hs.length⟩], ?_⟩
    simp only [Evaluation.notify, Environment.traced, context_cursor, report_cursor, hanswer]
    refine ⟨rfl, .single hc rfl, ?_⟩
    by_cases he : e.isLocated
    · rw [if_pos he]
      exact .inr ⟨_, List.mem_singleton.2 rfl, event, rfl⟩
    · rw [if_neg he]
      exact .inl ⟨position, h, rfl⟩
  · refine ⟨[⟨.event event (.ok response), c.position, hs.length⟩], ?_⟩
    simp only [Evaluation.notify, Environment.traced, context_cursor, hanswer]
    exact ⟨rfl, .single hc rfl, trivial⟩

/-- A call is resolved at the cursor. -/
theorem resolve {call : FunctionCall} {position : Nat} (hc : floor.Leads c)
    (h : w.Covers position) :
    Advances source w floor (Evaluation.resolve ⟨source, env.traced⟩ call position) c
      fun _ d => d = c := by
  intro hs inner past
  rcases hanswer : env.call call ⟨source, c.position, hs⟩ inner with ⟨e | v, inner'⟩
  · refine ⟨[⟨.call call (.error e), c.position, hs.length⟩], ?_⟩
    simp only [Evaluation.resolve, Environment.traced, context_cursor, report_cursor, hanswer]
    exact ⟨rfl, .single hc rfl, .inl ⟨position, h, rfl⟩⟩
  · refine ⟨[⟨.call call (.ok v), c.position, hs.length⟩], ?_⟩
    simp only [Evaluation.resolve, Environment.traced, context_cursor, hanswer]
    exact ⟨rfl, .single hc rfl, trivial⟩

/-- The end of a scope is told where its body ends, also if the body fails. -/
theorem within {scope : Scope} {start : Nat}
    {body : Option Response → EvalM (σ × List CallbackRecord) α} (hw : w.Leads floor)
    (hc : floor.Leads c) (h : w.Covers start)
    (hbody : ∀ response, Advances source w c (body response) c Q) :
    Advances source w floor (Evaluation.within ⟨source, env.traced⟩ scope start body) c Q := by
  refine .bind (.notify hc h) ?_
  rintro response _ hd rfl hs inner past
  obtain ⟨log, hlog⟩ := hbody response hs inner past
  have leave (s : TracedState σ) (hvisits : Cursor.Visits _ log s.cursor) :
      Advances source w s.cursor
        (Evaluation.notify ⟨source, env.traced⟩ (.leave scope) s.cursor.position) s.cursor
        fun _ d => d = s.cursor :=
    .notify (.refl s.cursor) (hw.trans (hd.trans hvisits.leads)).covers
  split at hlog
  · next a s hrun =>
    obtain ⟨hpast, hvisits, hQ⟩ := hlog
    obtain ⟨log', hlog'⟩ := leave s hvisits s.openHashes s.inner.1 s.inner.2
    refine ⟨log ++ log', ?_⟩
    simp only [hrun]
    split at hlog'
    · next t hleave =>
      obtain ⟨hpast', hvisits', ht⟩ := hlog'
      simp only [offset_cursor, hleave]
      exact ⟨by simp [hpast', hpast], hvisits.append hvisits', by rwa [ht]⟩
    · next e t hleave =>
      obtain ⟨hpast', hvisits', hblame⟩ := hlog'
      simp only [offset_cursor, hleave]
      exact ⟨by simp [hpast', hpast], hvisits.append hvisits',
        hblame.mono (List.subset_append_right _ _)⟩
  · next e s hrun =>
    obtain ⟨hpast, hvisits, hblame⟩ := hlog
    obtain ⟨log', hlog'⟩ := leave s hvisits s.openHashes s.inner.1 s.inner.2
    refine ⟨log ++ log', ?_⟩
    have hblame' := hblame.mono (List.subset_append_left log log')
    simp only [hrun]
    -- What is answered to the end of a failed scope is ignored.
    split at hlog' <;> (next hleave =>
      simp only [offset_cursor, hleave]
      exact ⟨by simp [hlog'.1, hpast], hvisits.append hlog'.2.1, hblame'⟩)

theorem buildHash {m : EvalM (σ × List CallbackRecord) α} (h : Advances source w floor m c Q) :
    Advances source w floor (Evaluation.buildHash m) c fun a d => Q a.1 d := by
  intro hs inner past
  obtain ⟨log, hlog⟩ := h ([] :: hs) inner past
  refine ⟨log, ?_⟩
  simp only [Evaluation.buildHash]
  split at hlog
  · next hrun => simpa only [hrun] using hlog
  · next hrun => simpa only [hrun] using hlog

end Advances

/-- Evaluation with a given bound moves forward. What is to blame for a listing that is not closed
is given by its place. -/
structure AllAdvance (source : Source) (env : Environment σ) (n : Nat) : Prop where
  expression : ∀ {w c forced inKey}, w.Leads c →
    Advances source w c (expression ⟨source, env.traced⟩ n forced inKey) c fun _ _ => True
  hash : ∀ {w c forced}, w.Leads c → c.peek? = some '{' →
    Advances source w c (hash ⟨source, env.traced⟩ n forced) c fun _ _ => True
  sequence : ∀ {w c forced}, w.Leads c →
    Advances source w c (sequence ⟨source, env.traced⟩ n forced) c fun _ _ => True
  unquoted : ∀ {w c forced inKey}, w.Leads c →
    Advances source w c (unquoted ⟨source, env.traced⟩ n forced inKey) c fun _ _ => True
  itemsUpTo : ∀ {w c closing forced opening}, w.Leads c → w.Covers opening →
    Advances source w c (itemsUpTo ⟨source, env.traced⟩ n closing forced opening) c fun _ _ => True
  items : ∀ {w c closing forced opening}, w.Leads c → w.Covers opening →
    Advances source w c (items ⟨source, env.traced⟩ n closing forced opening) c fun _ _ => True
  entriesUpTo : ∀ {w c closing forced opening}, w.Leads c → w.Covers opening →
    Advances source w c (entriesUpTo ⟨source, env.traced⟩ n closing forced opening) c
      fun _ _ => True
  entries : ∀ {w c closing forced opening}, w.Leads c → w.Covers opening →
    Advances source w c (entries ⟨source, env.traced⟩ n closing forced opening) c fun _ _ => True
  /-- After an entry, the cursor is at the next one, or at the closing bracket. -/
  entry : ∀ {w c closing forced}, w.Leads c →
    Advances source w c (entry ⟨source, env.traced⟩ n closing forced) c
      fun _ d => Scan.blanks d = .ok false d
  keyValue : ∀ {w c name start forced}, w.Leads c → w.Covers start →
    Advances source w c (keyValue ⟨source, env.traced⟩ n name start forced) c fun _ _ => True

theorem AllAdvance.zero : AllAdvance source env 0 where
  expression hw := by simp only [Evaluation.expression]; exact .scan (.refuse hw (.refl _))
  hash hw _ := by simp only [Evaluation.hash]; exact .scan (.refuse hw (.refl _))
  sequence hw := by simp only [Evaluation.sequence]; exact .scan (.refuse hw (.refl _))
  unquoted hw := by simp only [Evaluation.unquoted]; exact .scan (.refuse hw (.refl _))
  itemsUpTo hw _ := by simp only [Evaluation.itemsUpTo]; exact .scan (.refuse hw (.refl _))
  items hw _ := by simp only [Evaluation.items]; exact .scan (.refuse hw (.refl _))
  entriesUpTo hw _ := by simp only [Evaluation.entriesUpTo]; exact .scan (.refuse hw (.refl _))
  entries hw _ := by simp only [Evaluation.entries]; exact .scan (.refuse hw (.refl _))
  entry hw := by simp only [Evaluation.entry]; exact .scan (.refuse hw (.refl _))
  keyValue hw _ := by simp only [Evaluation.keyValue]; exact .scan (.refuse hw (.refl _))

section
variable {n : Nat} {forced inKey : Bool} {closing : Option Char} {opening start : Nat}

theorem expression_advances (ih : AllAdvance source env n) (hw : w.Leads c) :
    Advances source w c (expression ⟨source, env.traced⟩ (n + 1) forced inKey) c
      fun _ _ => True := by
  simp only [Evaluation.expression]
  refine .get fun s hs => ?_
  rw [hs]
  cases hrest : c.rest with
  | nil => exact .scan (.refuse hw (.refl c))
  | cons x rest =>
    by_cases hbrace : x = '{'
    · subst hbrace
      simp only [if_true]
      exact ih.hash hw (by simp [Cursor.peek?, hrest])
    · simp only [if_neg hbrace]
      refine .ite (ih.sequence hw) (.ite ?_ ?_)
      · exact .after_scan (.quoted hw (.refl c)) fun _ _ _ hd _ => .pure hd trivial
      · cases Literal.rawQuotation? (x :: rest) with
        | some quotation =>
          exact .after_scan (.raw hw (.refl c)) fun _ _ _ hd _ => .pure hd trivial
        | none => exact ih.unquoted hw

theorem hash_advances (ih : AllAdvance source env n) (hw : w.Leads c)
    (opens : c.peek? = some '{') :
    Advances source w c (hash ⟨source, env.traced⟩ (n + 1) forced) c fun _ _ => True := by
  have hnext := Cursor.Leads.next c
  simp only [Evaluation.hash]
  refine .get fun s hs => ?_
  rw [hs]
  refine .after_scan (.next (.refl c)) fun _ d _ _ hd => ?_
  rw [hd]
  refine .bind (.buildHash (Q := fun _ _ => True) (.position ?_)) fun a e he _ => ?_
  · refine .within hw hnext (hw.trans hnext).covers fun response => .ite ?_ ?_
    · exact .bind (ih.entriesUpTo (hw.trans hnext) hw.covers) fun _ e _ _ =>
        .pure (.refl e) trivial
    · -- The hash is passed over from its opening brace and left from its closing one.
      have hextent := Scan.extent_stays_of_brace opens hw
      refine .after_move _ (fun _ _ => rfl) (.after_passExpression ?_ fun d hrun hd => ?_)
      · exact hextent.imp fun _ _ _ _ => trivial
      · obtain ⟨e, he, hcloses, rfl⟩ := (hextent.leads hrun).2
        refine .after_move _ (fun s hs => by rw [hs, Cursor.previous_next hcloses]) ?_
        exact .pure he trivial
  · exact .after_scan (.next (.refl e)) fun _ _ _ hd _ => .pure hd trivial

theorem sequence_advances (ih : AllAdvance source env n) (hw : w.Leads c) :
    Advances source w c (sequence ⟨source, env.traced⟩ (n + 1) forced) c fun _ _ => True := by
  have hnext := Cursor.Leads.next c
  simp only [Evaluation.sequence]
  refine .position (.after_scan (.next (.refl c)) fun _ d _ _ hd => ?_)
  rw [hd]
  refine .position (.bind (Q := fun _ _ => True)
    (.within hw hnext (hw.trans hnext).covers fun _ => ?_) fun _ e _ _ => ?_)
  · exact ih.itemsUpTo (hw.trans hnext) hw.covers
  · exact .after_scan (.next (.refl e)) fun _ _ _ hd _ => .pure hd trivial

theorem unquoted_advances (ih : AllAdvance source env n) (hw : w.Leads c) :
    Advances source w c (unquoted ⟨source, env.traced⟩ (n + 1) forced inKey) c
      fun _ _ => True := by
  simp only [Evaluation.unquoted]
  refine .position (.after_scan (.token (.refl c)) fun l stop _ hstop _ => ?_)
  refine .refuse_or (.refuse hw hstop) (.get fun s hs => ?_)
  rw [hs]
  have hwstop := hw.trans hstop
  -- The blanks after a token are passed in search of a call, and given back if there is none.
  refine .of_leads (.after_scan (.blanks hwstop (.refl stop)) fun _ e _ he _ => ?_) hstop
  refine .get fun s' hs' => ?_
  refine .ite ?_ (.after_move _ (fun _ _ => rfl) (.pure (.refl stop) trivial))
  have hopen := he.trans (Cursor.Leads.next e)
  refine .position (.after_scan (.next he) fun _ d _ _ hnext => ?_)
  rw [hnext]
  refine .bind (Q := fun _ _ => True) (.within hwstop hopen hw.covers fun _ => ?_)
    fun _ d' hd' _ => ?_
  · exact ih.itemsUpTo (hwstop.trans hopen) (hwstop.trans he).covers
  · refine .after_scan (.next (.refl d')) fun _ e' _ he' _ => .ite (.pure he' trivial) ?_
    exact (Advances.resolve he' hw.covers).imp fun _ _ _ _ => trivial

theorem itemsUpTo_advances (ih : AllAdvance source env n) (hw : w.Leads c)
    (hopening : w.Covers opening) :
    Advances source w c (itemsUpTo ⟨source, env.traced⟩ (n + 1) closing forced opening) c
      fun _ _ => True := by
  simp only [Evaluation.itemsUpTo]
  exact .after_scan (.blanks hw (.refl c)) fun _ d _ hd _ =>
    .of_leads (ih.items (hw.trans hd) hopening) hd

theorem items_advances (ih : AllAdvance source env n) (hw : w.Leads c)
    (hopening : w.Covers opening) :
    Advances source w c (items ⟨source, env.traced⟩ (n + 1) closing forced opening) c
      fun _ _ => True := by
  simp only [Evaluation.items]
  refine .get fun s hs => ?_
  rw [hs]
  cases c.peek? with
  | none =>
    cases closing with
    | none => exact .pure (.refl c) trivial
    | some closing => exact .scan (.refuseAt (.refl c) hopening)
  | some x =>
    refine .ite (.pure (.refl c) trivial) (.ite (.scan (.refuse hw (.refl c))) ?_)
    refine .bind (ih.expression hw) fun _ d hd _ => ?_
    refine .after_scan (.separator (hw.trans hd) (.refl d)) fun _ e _ he _ => ?_
    refine .ite (.pure he trivial) (.of_leads ?_ he)
    exact .bind (ih.items (hw.trans (hd.trans he)) hopening) fun _ _ _ _ => .pure (.refl _) trivial

theorem entriesUpTo_advances (ih : AllAdvance source env n) (hw : w.Leads c)
    (hopening : w.Covers opening) :
    Advances source w c (entriesUpTo ⟨source, env.traced⟩ (n + 1) closing forced opening) c
      fun _ _ => True := by
  simp only [Evaluation.entriesUpTo]
  exact .after_scan (.blanks hw (.refl c)) fun _ d _ hd _ =>
    .of_leads (ih.entries (hw.trans hd) hopening) hd

theorem entries_advances (ih : AllAdvance source env n) (hw : w.Leads c)
    (hopening : w.Covers opening) :
    Advances source w c (entries ⟨source, env.traced⟩ (n + 1) closing forced opening) c
      fun _ _ => True := by
  simp only [Evaluation.entries]
  refine .get fun s hs => ?_
  rw [hs]
  cases c.peek? with
  | none =>
    cases closing with
    | none => exact .pure (.refl c) trivial
    | some closing => exact .scan (.refuseAt (.refl c) hopening)
  | some x =>
    refine .ite (.pure (.refl c) trivial) (.ite (.scan (.refuse hw (.refl c))) ?_)
    refine .bind (ih.entry hw) fun _ d hd _ => ?_
    exact .ite (.pure (.refl d) trivial) (ih.entries (hw.trans hd) hopening)

theorem resolveKey_advances {key : Value} (hc : floor.Leads c) (hstart : w.Covers start) :
    Advances source w floor (resolveKey ⟨source, env.traced⟩ key start) c fun _ d => d = c := by
  cases key with
  | call name params => exact .bind (.resolve hc hstart) fun _ d _ hd => .pure (.refl d) hd
  | _ => exact .pure hc rfl

theorem keyName_advances {key : Value} {unresolved : Bool} {env'} (hc : floor.Leads c)
    (hstart : w.Covers start) :
    Advances source w floor
      (keyName ⟨source, env'⟩ key unresolved start : EvalM (σ × List CallbackRecord) String) c
      fun _ d => d = c := by
  cases key with
  | string name => exact .pure hc rfl
  | _ => exact .ite (.fail hc hstart) (.fail hc hstart)

/-- Whatever is stored for an entry without a colon, the cursor stays. -/
theorem storeBare_advances {key : Value} {fromCall unresolved : Bool} (hw : w.Leads floor)
    (hc : floor.Leads c) (hstart : w.Covers start) :
    Advances source w floor (storeBare ⟨source, env.traced⟩ key fromCall unresolved start) c
      fun _ d => d = c := by
  have refusal : ∀ v : Value, Advances source w floor
      (if unresolved then
        (fail ⟨source, env.traced⟩ start .unresolvedKey : EvalM (σ × List CallbackRecord) Unit)
      else fail ⟨source, env.traced⟩ start (.resultKind v.kind)) c fun _ d => d = c :=
    fun v => .ite (.fail hc hstart) (.fail hc hstart)
  cases key with
  | hash entries => cases fromCall <;> exact .modifyHash hc
  | string name =>
    cases fromCall with
    | false =>
      exact .within hw hc hstart fun _ => .ite (.pure (.refl c) rfl) (.modifyHash (.refl c))
    | true => exact refusal _
  | _ =>
    cases fromCall with
    | false => exact .fail hc hstart
    | true => exact refusal _

theorem entry_advances (ih : AllAdvance source env n) (hw : w.Leads c) :
    Advances source w c (entry ⟨source, env.traced⟩ (n + 1) closing forced) c
      fun _ d => Scan.blanks d = .ok false d := by
  simp only [Evaluation.entry]
  refine .position (.bind (ih.expression hw) fun key d hd _ => ?_)
  have hwd := hw.trans hd
  refine .bind (resolveKey_advances (.refl d) hw.covers) fun r d' _ h => ?_
  rw [h]
  refine .after_scan (.separator hwd (.refl d)) fun separator e hseparator he _ => ?_
  have hwe := hwd.trans he
  refine .ite (.of_leads ?_ he) (.of_leads ?_ he)
  · refine .bind (keyName_advances (.refl e) hw.covers) fun name e' _ h => ?_
    rw [h]
    refine .bind (ih.keyValue hwe hw.covers) fun _ d' hd' _ => ?_
    refine (Advances.scan (Scan.Stays.separator (hwe.trans hd') (.refl d')).result).imp ?_
    exact fun _ _ _ h => Scan.blanks_of_separator h
  · refine .bind (storeBare_advances hwe (.refl e) hw.covers) fun _ e' _ h => ?_
    rw [h]
    exact .pure (.refl e) (Scan.blanks_of_separator hseparator)

theorem keyValue_advances (ih : AllAdvance source env n) {name : String} (hw : w.Leads c)
    (hstart : w.Covers start) :
    Advances source w c (keyValue ⟨source, env.traced⟩ (n + 1) name start forced) c
      fun _ _ => True := by
  simp only [Evaluation.keyValue]
  refine .get fun s hs => .refuse_or (.refuseAt (.refl c) hstart) ?_
  refine .within hw (.refl c) hstart fun response => ?_
  cases response with
  | none =>
    exact .bind (ih.expression hw) fun _ d hd _ =>
      (Advances.modifyHash (.refl d)).imp fun _ _ _ _ => trivial
  | some response =>
    refine .after_passExpression (Scan.extent_stays hw (.refl c)) fun d _ hd => ?_
    exact .ite ((Advances.modifyHash hd).imp fun _ _ _ _ => trivial) (.pure hd trivial)

end

/-- Evaluation moves forward, whatever the bound. -/
theorem allAdvance (source : Source) (env : Environment σ) : ∀ n, AllAdvance source env n
  | 0 => .zero
  | n + 1 =>
    have ih := allAdvance source env n
    { expression := expression_advances ih
      hash := hash_advances ih
      sequence := sequence_advances ih
      unquoted := unquoted_advances ih
      itemsUpTo := itemsUpTo_advances ih
      items := items_advances ih
      entriesUpTo := entriesUpTo_advances ih
      entries := entries_advances ih
      entry := entry_advances ih
      keyValue := keyValue_advances ih }

theorem single_advances (forced : Bool) :
    Advances source w w (single ⟨source, env.traced⟩ forced) w fun _ _ => True := by
  refine .get fun s hs => .after_scan (.blanks (.refl w) (.refl w)) fun _ d _ hd _ => ?_
  refine .get fun s' hs' => .refuse_or (.refuse (.refl w) hd) (.of_leads ?_ hd)
  refine .bind ((allAdvance source env _).expression hd) fun v e he _ => ?_
  have hwe := hd.trans he
  refine .after_scan (.blanks hwe (.refl e)) fun _ d' _ hd' _ => .get fun s'' hs'' => ?_
  exact .ite (.pure hd' trivial)
    (.after_scan (.refuse (Q := fun _ _ => False) hwe hd') fun _ _ _ _ h => h.elim)

theorem topHash_advances (forced : Bool) :
    Advances source w w (topHash ⟨source, env.traced⟩ forced) w fun _ _ => True := by
  refine .get fun s hs => ?_
  rw [hs]
  refine .bind (.buildHash (Q := fun _ _ => True) ?_) fun a d hd _ => .pure (.refl d) trivial
  exact .within (.refl w) (.refl w) (Cursor.Leads.refl w).covers fun _ =>
    (allAdvance source env _).entriesUpTo (.refl w) (Cursor.Leads.refl w).covers

theorem topSequence_advances (forced : Bool) :
    Advances source w w (topSequence ⟨source, env.traced⟩ forced) w fun _ _ => True := by
  refine .get fun s hs => ?_
  rw [hs]
  exact .within (.refl w) (.refl w) (Cursor.Leads.refl w).covers fun _ =>
    (allAdvance source env _).itemsUpTo (.refl w) (Cursor.Leads.refl w).covers

/-- What moves forward with the records of an environment does so without them. -/
theorem Composed.leads_of_ok {braced : Bool} {own : Nat} {m : Computation α}
    (h : Composed source braced own m) {s t : State σ} {a : α}
    (hadvances : Advances source w floor (m _ env.traced) s.cursor Q)
    (hrun : m σ env s = .ok a t) : floor.Leads t.cursor ∧ Q a t.cursor := by
  obtain ⟨inner, htraced⟩ := h.ok_traced hrun
  obtain ⟨log, hlog⟩ := hadvances s.openHashes s.inner []
  rw [htraced] at hlog
  exact ⟨hlog.2.1.leads, hlog.2.2⟩

section
variable {n : Nat} {s t : State σ}

theorem leads_of_expression {forced inKey : Bool} {v : Value}
    (h : expression ⟨source, env⟩ n forced inKey s = .ok v t) : s.cursor.Leads t.cursor :=
  (((allComposed source n).expression forced inKey).leads_of_ok
    ((allAdvance source env n).expression (.refl _)) h).1

/-- After an entry, the cursor is at the next one, or at the closing bracket. -/
theorem leads_of_entry {closing : Option Char} {forced : Bool} {separator : Separator}
    (h : entry ⟨source, env⟩ n closing forced s = .ok separator t) :
    s.cursor.Leads t.cursor ∧ Scan.blanks t.cursor = .ok false t.cursor :=
  ((allComposed source n).entry closing forced).leads_of_ok
    ((allAdvance source env n).entry (.refl _)) h

end
end Evaluation

namespace Task

open Evaluation

variable {σ : Type}

theorem program_advances (task : Task) (env : Environment σ) :
    Advances task.source task.window task.window (task.program _ env.traced) task.window
      fun _ _ => True := by
  cases task with
  | text source mode forced =>
    cases mode with
    | hash => exact .bind (topHash_advances forced) fun _ d _ _ => .pure (.refl d) trivial
    | sequence => exact .bind (topSequence_advances forced) fun _ d _ _ => .pure (.refl d) trivial
    | expression => exact single_advances forced
  | fragment f forced => exact single_advances forced

/-- The callbacks of a task are made on the way through its window, and what it fails with is
accounted for. -/
theorem visits_callbacks (task : Task) (env : Environment σ) (inner : σ) :
    (∃ d, task.window.Visits (task.callbacks env inner) d) ∧
      ∀ e, (task.evaluate env inner).1 = .error e →
        e.IsBlamed task.source task.window (task.callbacks env inner) := by
  have hsim : env.Simulates (fun i i' => i'.1 = i) env.traced := by
    constructor <;> rintro _ _ _ i rfl <;> exact ⟨rfl, rfl⟩
  rw [(task.evaluate_simulates hsim inner (inner, []) rfl).1, callbacks, evaluate_eq_run, run]
  obtain ⟨log, hlog⟩ := task.program_advances env [] inner []
  split at hlog
  · next a s hrun =>
    simp only [hrun, hlog.1, List.append_nil, List.reverse_reverse]
    exact ⟨⟨_, hlog.2.1⟩, by simp⟩
  · next e s hrun =>
    simp only [hrun, hlog.1, List.append_nil, List.reverse_reverse]
    exact ⟨⟨_, hlog.2.1⟩, fun e' he => by rw [← Except.error.inj he]; exact hlog.2.2⟩

end Task
end TextualData
