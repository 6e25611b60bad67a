import Mathlib.Data.List.Forall2
import TextualData.Proofs.Tasks

/-!
# The first failure of an evaluation

A run that fails does so with its first failure, be it found by evaluation itself or given by the
environment as the answer to a callback. From then on it only tells the ends of the scopes that are
open, innermost first, and what is answered to that is ignored. `Decided` says at which callback an
outcome is settled: what is answered up to there matters, and what is answered later does not.
-/

namespace TextualData

/-- Whether the answer to a callback is no error. -/
def Callback.isAccepted : Callback → Bool
  | event _ answer => answer.isOk
  | call _ answer => answer.isOk

/-- The error that an evaluation gives when a callback is answered with an error. -/
inductive Callback.IsReportedAs (source : Source) : Callback → Error → Prop where
  | located {event : Event} {e : Error} (h : e.isLocated) :
      IsReportedAs source (.event event (.error e)) e
  | wrapped {event : Event} {e : Error} (h : ¬ e.isLocated) (position : Nat) :
      IsReportedAs source (.event event (.error e)) (.environment e (source.locate position))
  | call {call : FunctionCall} {e : Error} (position : Nat) :
      IsReportedAs source (.call call (.error e)) (.call call.name (source.locate position) e)

/-- After these callbacks there is a failure for the first time, which gives the error: evaluation
finds one of its own, or the last of the callbacks is answered with one. -/
inductive FirstFailure (source : Source) : List CallbackRecord → Error → Prop where
  | own {before : List CallbackRecord} {e : Error}
      (accepted : ∀ r ∈ before, r.callback.isAccepted) (h : e.IsOwn source) :
      FirstFailure source before e
  | answer {before : List CallbackRecord} {r : CallbackRecord} {e : Error}
      (accepted : ∀ r ∈ before, r.callback.isAccepted) (h : r.callback.IsReportedAs source e) :
      FirstFailure source (before ++ [r]) e

/-- The callbacks tell the ends of the scopes, in order. -/
def EndsScopes (scopes : List Scope) (log : List CallbackRecord) : Prop :=
  List.Forall₂ (fun scope r => ∃ answer, r.callback = .event (.leave scope) answer) scopes log

/-- After the callbacks `before`, and not earlier, it is settled that a task fails with an error. -/
structure Task.FailsAfter (task : Task) (before : List CallbackRecord) (e : Error) : Prop where
  /-- Whatever an environment answers later, the error is this one, and only the ends of the open
  scopes are told. -/
  settled : ∀ {σ : Type} (env : Environment σ) (inner : σ), before <+: task.callbacks env inner →
    (task.evaluate env inner).1 = .error e ∧ ∃ unwinding,
      task.callbacks env inner = before ++ unwinding ∧ EndsScopes (openScopes [] before) unwinding
  /-- If an environment answers one of the callbacks with an error instead, then the task fails with
  that error. -/
  heard : ∀ {σ : Type} (env : Environment σ) (inner : σ) (earlier : List CallbackRecord)
    (r r' : CallbackRecord), earlier ++ [r] <+: before →
      earlier ++ [r'] <+: task.callbacks env inner → ¬ r'.callback.isAccepted →
        ∃ e', (task.evaluate env inner).1 = .error e' ∧ r'.callback.IsReportedAs task.source e'

theorem Callback.IsReportedAs.isLocated {source : Source} {callback : Callback} {e : Error}
    (h : callback.IsReportedAs source e) : e.isLocated := by
  cases h with
  | located h => exact h
  | wrapped h position => rfl
  | call position => rfl

theorem FirstFailure.isLocated {source : Source} {before : List CallbackRecord} {e : Error}
    (h : FirstFailure source before e) : e.isLocated := by
  cases h with
  | own _ h => cases h <;> rfl
  | answer _ h => exact h.isLocated

theorem FirstFailure.append {source : Source} {first before : List CallbackRecord} {e : Error}
    (hfirst : ∀ r ∈ first, r.callback.isAccepted) (h : FirstFailure source before e) :
    FirstFailure source (first ++ before) e := by
  cases h with
  | own accepted h => exact .own (List.forall_mem_append.2 ⟨hfirst, accepted⟩) h
  | answer accepted h =>
    rw [← List.append_assoc]
    exact .answer (List.forall_mem_append.2 ⟨hfirst, accepted⟩) h

/-- A list that goes on with an element begins inside the first of two lists, or goes on in the
second. -/
theorem snoc_prefix_append {α : Type} {k l l' : List α} {a : α} (h : k ++ [a] <+: l ++ l') :
    k ++ [a] <+: l ∨ ∃ k', k = l ++ k' ∧ k' ++ [a] <+: l' := by
  rcases Nat.lt_or_ge k.length l.length with hlt | hge
  · refine .inl (List.prefix_of_prefix_length_le h (List.prefix_append l l') ?_)
    simpa using Nat.succ_le_of_lt hlt
  · obtain ⟨k', rfl⟩ := List.prefix_of_prefix_length_le (List.prefix_append l l')
      ((List.prefix_append k [a]).trans h) hge
    rw [List.append_assoc] at h
    exact .inr ⟨k', rfl, (List.prefix_append_right_inj l).1 h⟩

theorem snoc_prefix_cons {α : Type} {k l : List α} {a b : α} (h : k ++ [a] <+: b :: l) :
    k = [] ∧ a = b ∨ ∃ k', k = b :: k' ∧ k' ++ [a] <+: l := by
  cases k with
  | nil => exact .inl ⟨rfl, (List.cons_prefix_cons.1 h).1⟩
  | cons c k =>
    obtain ⟨rfl, hk⟩ := List.cons_prefix_cons.1 h
    exact .inr ⟨k, rfl, hk⟩

namespace Evaluation

variable {α β : Type} {source : Source} {braced : Bool} {own : Nat}

theorem isReportedAs_reported (event : Event) (position : Nat) (e : Error) :
    (Callback.event event (.error e)).IsReportedAs source (reported source position e) := by
  unfold reported
  by_cases h : e.isLocated
  · rw [if_pos h]
    exact .located h
  · rw [if_neg h]
    exact .wrapped h position

/-- After the callbacks `before`, which leave the given scopes open, the outcome of a computation is
settled, and not earlier. -/
structure Decided (source : Source) (m : Computation α) (p : Place) (before : List CallbackRecord)
    (scopes : List Scope) (o : Outcome α) : Prop where
  opened : ∀ outer, openScopes outer before = scopes ++ outer
  ok : ∀ a q, o = .ok a q → scopes = [] ∧ ∀ r ∈ before, r.callback.isAccepted
  error : ∀ e q, o = .error e q → FirstFailure source before e
  settled : ∀ log o', Traced m p log o' → before <+: log →
    o' = o ∧ ∃ unwinding, log = before ++ unwinding ∧ EndsScopes scopes unwinding
  heard : ∀ log o' earlier r r', Traced m p log o' → earlier ++ [r] <+: before →
    earlier ++ [r'] <+: log → ¬ r'.callback.isAccepted →
      ∃ e q, o' = .error e q ∧ r'.callback.IsReportedAs source e

/-- All traces of a computation are decided somewhere. -/
def Settled (source : Source) (m : Computation α) : Prop :=
  ∀ p log o, Traced m p log o → ∃ before scopes, before <+: log ∧
    Decided source m p before scopes o

section
variable {m : Computation α} {p : Place} {log log' k k' : List CallbackRecord} {o o' : Outcome α}

/-- No trace goes beyond another. -/
theorem Settled.eq_of_isPrefix (hm : Settled source m) (h : Traced m p log o)
    (h' : Traced m p log' o') (hpre : log <+: log') : log = log' ∧ o = o' := by
  obtain ⟨before, scopes, hbefore, hdecided⟩ := hm p log o h
  obtain ⟨-, unwinding, hlog, hunwinds⟩ := hdecided.settled _ _ h hbefore
  obtain ⟨ho, unwinding', hlog', hunwinds'⟩ :=
    hdecided.settled _ _ h' (hbefore.trans hpre)
  refine ⟨hpre.eq_of_length ?_, ho.symm⟩
  rw [hlog, hlog', List.length_append, List.length_append, ← hunwinds.length_eq,
    ← hunwinds'.length_eq]

theorem Settled.eq_of_comparable (hm : Settled source m) (h : Traced m p log o)
    (h' : Traced m p log' o') (hpre : log ++ k <+: log' ++ k') : log = log' ∧ o = o' := by
  have hlog : log <+: log' ++ k' := (List.prefix_append _ _).trans hpre
  rcases List.prefix_or_prefix_of_prefix hlog (List.prefix_append _ _) with hpre | hpre
  · exact hm.eq_of_isPrefix h h' hpre
  · obtain ⟨rfl, rfl⟩ := hm.eq_of_isPrefix h' h hpre
    exact ⟨rfl, rfl⟩

/-- A computation that gives a result has been heard to the end. -/
theorem Decided.eq_of_ok {before : List CallbackRecord} {scopes : List Scope} {a : α} {q : Place}
    (hdecided : Decided source m p before scopes (.ok a q)) (h : Traced m p log o)
    (hpre : before <+: log) : log = before ∧ scopes = [] := by
  obtain ⟨-, unwinding, rfl, hunwinds⟩ := hdecided.settled _ _ h hpre
  obtain ⟨rfl, -⟩ := hdecided.ok a q rfl
  obtain rfl := List.forall₂_nil_left_iff.1 hunwinds
  exact ⟨List.append_nil _, rfl⟩

end

theorem Settled.quiet {m : Computation α} (h : Quiet source m) : Settled source m := by
  intro p log o htrace
  obtain ⟨o', -, hown, hunique⟩ := h.traced p
  obtain ⟨rfl, rfl⟩ := hunique _ _ htrace
  refine ⟨[], [], List.nil_prefix, ?_⟩
  constructor
  case opened => exact fun _ => rfl
  case ok => exact fun a q _ => ⟨rfl, by simp⟩
  case error => exact fun e q ho => .own (by simp) (hown e q ho)
  case settled =>
    intro log o' h _
    obtain ⟨rfl, rfl⟩ := hunique _ _ h
    exact ⟨rfl, [], rfl, .nil⟩
  case heard =>
    intro log o' earlier r r' _ hpre
    simp at hpre

theorem Settled.resolve (call : FunctionCall) (position : Nat) :
    Settled source fun _ env => resolve ⟨source, env⟩ call position := by
  intro p log o htrace
  obtain ⟨answer, rfl, rfl⟩ := htrace.resolve
  refine ⟨_, [], List.prefix_rfl, ?_⟩
  constructor
  case opened => exact fun _ => rfl
  case ok =>
    intro a q ho
    cases answer with
    | ok v => exact ⟨rfl, List.forall_mem_singleton.2 rfl⟩
    | error e => cases ho
  case error =>
    intro e q ho
    cases answer with
    | ok v => cases ho
    | error e =>
      obtain ⟨rfl, rfl⟩ := Outcome.error.inj ho
      show FirstFailure source ([] ++ [_]) _
      exact .answer (by simp) (.call position)
  case settled =>
    intro log o' h hpre
    obtain ⟨answer', rfl, rfl⟩ := h.resolve
    cases Place.record_inj.1 (List.cons_prefix_cons.1 hpre).1
    exact ⟨rfl, [], rfl, .nil⟩
  case heard =>
    intro log o' earlier r r' h hpre hpre' hrefused
    obtain ⟨answer', rfl, rfl⟩ := h.resolve
    rcases snoc_prefix_cons hpre' with ⟨-, rfl⟩ | ⟨k, rfl, hk⟩
    · cases answer' with
      | ok v => exact absurd rfl hrefused
      | error e => exact ⟨_, p, rfl, .call position⟩
    · simp at hk

theorem Settled.buildHash {m : Computation α} (hm : Composed source braced own m)
    (h : Settled source m) : Settled source fun σ env => buildHash (m σ env) := by
  intro p log o htrace
  obtain ⟨o, hinner, rfl⟩ := htrace.buildHash hm
  obtain ⟨before, scopes, hbefore, hdecided⟩ := h _ _ _ hinner
  refine ⟨before, scopes, hbefore, ?_⟩
  constructor
  case opened => exact hdecided.opened
  case ok =>
    intro a q ho
    cases o with
    | ok a' q' => exact hdecided.ok a' q' rfl
    | error e q' => cases ho
  case error =>
    intro e q ho
    cases o with
    | ok a' q' => cases ho
    | error e' q' =>
      obtain ⟨rfl, -⟩ := Outcome.error.inj ho
      exact hdecided.error e' q' rfl
  case settled =>
    intro log o' h' hpre
    obtain ⟨o', hinner', rfl⟩ := h'.buildHash hm
    obtain ⟨rfl, hunwinding⟩ := hdecided.settled _ _ hinner' hpre
    exact ⟨rfl, hunwinding⟩
  case heard =>
    intro log o' earlier r r' h' hpre hpre' hrefused
    obtain ⟨o', hinner', rfl⟩ := h'.buildHash hm
    obtain ⟨e, q, rfl, he⟩ := hdecided.heard _ _ _ _ _ hinner' hpre hpre' hrefused
    exact ⟨e, q.withoutHash, rfl, he⟩

/-- A step that fails settles what follows it. -/
theorem Decided.bind_of_error {m : Computation α} {f : α → Computation β}
    (hm : Composed source braced own m) (hf : ∀ a, Composed source braced own (f a))
    (hsettled : Settled source m) {p q : Place} {log before : List CallbackRecord}
    {scopes : List Scope} {e : Error} (htrace : Traced m p log (.error e q))
    (hbefore : before <+: log) (hdecided : Decided source m p before scopes (.error e q)) :
    Decided source (fun σ env => m σ env >>= fun a => f a σ env) p before scopes (.error e q) := by
  constructor
  case opened => exact hdecided.opened
  case ok => exact fun a q h => nomatch h
  case error => exact fun e' q' h => by cases h; exact hdecided.error e q rfl
  case settled =>
    intro log' o' h hpre
    rcases h.bind hm hf with ⟨e', q', rfl, hfirst⟩ | ⟨a, q', first, second, rfl, hfirst, -⟩
    · obtain ⟨ho, hunwinding⟩ := hdecided.settled _ _ hfirst hpre
      cases ho
      exact ⟨rfl, hunwinding⟩
    · -- The first step cannot have given a result.
      obtain ⟨unwinding, rfl⟩ := hbefore
      rcases List.prefix_or_prefix_of_prefix hpre (List.prefix_append first second) with
        hshort | hlong
      · exact nomatch (hdecided.settled _ _ hfirst hshort).1
      · have hlong' := hlong.trans (List.prefix_append before unwinding)
        exact nomatch (hsettled.eq_of_isPrefix hfirst htrace hlong').2
  case heard =>
    intro log' o' earlier r r' h hpre hpre' hrefused
    rcases h.bind hm hf with ⟨e', q', rfl, hfirst⟩ | ⟨a, q', first, second, rfl, hfirst, -⟩
    · obtain ⟨e₁, q₁, ho, he₁⟩ := hdecided.heard _ _ _ _ _ hfirst hpre hpre' hrefused
      cases ho
      exact ⟨e', q', rfl, he₁⟩
    · rcases snoc_prefix_append hpre' with hshort | ⟨k, rfl, -⟩
      · obtain ⟨_, _, ho, -⟩ := hdecided.heard _ _ _ _ _ hfirst hpre hshort hrefused
        cases ho
      · have hlong : first <+: log :=
          (List.prefix_append _ _).trans ((List.prefix_append _ _).trans (hpre.trans hbefore))
        exact nomatch (hsettled.eq_of_isPrefix hfirst htrace hlong).2

/-- A step that gives a result has been heard, and what follows it settles the outcome. -/
theorem Decided.bind_of_ok {m : Computation α} {f : α → Computation β}
    (hm : Composed source braced own m) (hf : ∀ a, Composed source braced own (f a))
    (hsettled : Settled source m) {p q : Place} {first before : List CallbackRecord}
    {scopes : List Scope} {a : α} {o : Outcome β} (htrace : Traced m p first (.ok a q))
    (hfirst : Decided source m p first [] (.ok a q))
    (hdecided : Decided source (f a) q before scopes o) :
    Decided source (fun σ env => m σ env >>= fun a => f a σ env) p (first ++ before) scopes o := by
  have haccepted : ∀ r ∈ first, r.callback.isAccepted := (hfirst.ok a q rfl).2
  constructor
  case opened =>
    intro outer
    rw [openScopes_append, hfirst.opened]
    exact hdecided.opened outer
  case ok =>
    intro b q' ho
    obtain ⟨hscopes, haccepted'⟩ := hdecided.ok b q' ho
    exact ⟨hscopes, List.forall_mem_append.2 ⟨haccepted, haccepted'⟩⟩
  case error => exact fun e q' ho => (hdecided.error e q' ho).append haccepted
  case settled =>
    intro log o' h hpre
    rcases h.bind hm hf with ⟨e', q', rfl, h₁⟩ | ⟨a', q', first', second, rfl, h₁, h₂⟩
    · exact nomatch (hfirst.settled _ _ h₁ ((List.prefix_append _ _).trans hpre)).1
    · obtain ⟨rfl, ho⟩ := hsettled.eq_of_comparable htrace h₁ hpre
      cases ho
      obtain ⟨rfl, unwinding, rfl, hunwinds⟩ :=
        hdecided.settled _ _ h₂ ((List.prefix_append_right_inj first).1 hpre)
      exact ⟨rfl, unwinding, (List.append_assoc _ _ _).symm, hunwinds⟩
  case heard =>
    intro log o' earlier r r' h hpre hpre' hrefused
    rcases h.bind hm hf with ⟨e', q', rfl, h₁⟩ | ⟨a', q', first', second, rfl, h₁, h₂⟩
    · rcases snoc_prefix_append hpre with hshort | ⟨k, rfl, -⟩
      · obtain ⟨e₁, q₁, ho, he₁⟩ := hfirst.heard _ _ _ _ _ h₁ hshort hpre' hrefused
        cases ho
        exact ⟨e', q', rfl, he₁⟩
      · have hlong : first <+: log :=
          (List.prefix_append _ _).trans ((List.prefix_append _ _).trans hpre')
        exact nomatch (hfirst.settled _ _ h₁ hlong).1
    · rcases snoc_prefix_append hpre with hshort | ⟨k, rfl, hk⟩
      · rcases snoc_prefix_append hpre' with hshort' | ⟨k, rfl, -⟩
        · obtain ⟨_, _, ho, -⟩ := hfirst.heard _ _ _ _ _ h₁ hshort hshort' hrefused
          cases ho
        · -- The other run would be over with the first step before the two part.
          rw [List.append_assoc] at hshort
          obtain ⟨rfl, -⟩ :=
            hsettled.eq_of_isPrefix h₁ htrace ((List.prefix_append _ _).trans hshort)
          exact absurd hshort.length_le (by simp)
      · rw [List.append_assoc] at hpre'
        obtain ⟨rfl, ho⟩ := hsettled.eq_of_comparable htrace h₁ hpre'
        cases ho
        exact hdecided.heard _ _ _ _ _ h₂ hk ((List.prefix_append_right_inj first).1 hpre')
          hrefused

theorem Settled.bind {m : Computation α} {f : α → Computation β}
    (hm : Composed source braced own m) (hf : ∀ a, Composed source braced own (f a))
    (ihm : Settled source m) (ihf : ∀ a, Settled source (f a)) :
    Settled source fun σ env => m σ env >>= fun a => f a σ env := by
  intro p log o htrace
  rcases htrace.bind hm hf with ⟨e, q, rfl, hfirst⟩ | ⟨a, q, first, second, rfl, hfirst, hsecond⟩
  · obtain ⟨before, scopes, hbefore, hdecided⟩ := ihm _ _ _ hfirst
    exact ⟨before, scopes, hbefore, .bind_of_error hm hf ihm hfirst hbefore hdecided⟩
  · obtain ⟨before, scopes, hbefore, hdecided⟩ := ihf a _ _ _ hsecond
    obtain ⟨before₁, scopes₁, hbefore₁, hdecided₁⟩ := ihm _ _ _ hfirst
    obtain ⟨rfl, rfl⟩ := hdecided₁.eq_of_ok hfirst hbefore₁
    exact ⟨first ++ before, scopes, (List.prefix_append_right_inj first).2 hbefore,
      .bind_of_ok hm hf ihm hfirst hdecided₁ hdecided⟩

section
variable {scope : Scope} {start : Nat} {body : Option Response → Computation α} {p : Place}

/-- A scope that is not accepted fails. -/
theorem Traced.within_refused (hbody : ∀ response, Composed source braced own (body response))
    {log : List CallbackRecord} {o : Outcome α} {r : CallbackRecord}
    (h : Traced (fun σ env => Evaluation.within ⟨source, env⟩ scope start
      fun response => body response σ env) p log o)
    (hpre : [r] <+: log) (hrefused : ¬ r.callback.isAccepted) :
    ∃ e q, o = .error e q ∧ r.callback.IsReportedAs source e := by
  rcases h.within hbody with ⟨e, rfl, rfl⟩ | ⟨response, inside, o', answer, -, rfl, -⟩
  · obtain ⟨rfl, -⟩ := List.cons_prefix_cons.1 hpre
    exact ⟨_, p, rfl, isReportedAs_reported (.enter scope) start e⟩
  · obtain ⟨rfl, -⟩ := List.cons_prefix_cons.1 hpre
    exact absurd rfl hrefused

/-- A scope whose beginning is accepted. -/
theorem Traced.within_accepted (hbody : ∀ response, Composed source braced own (body response))
    {log k : List CallbackRecord} {o : Outcome α} {response : Option Response}
    (h : Traced (fun σ env => Evaluation.within ⟨source, env⟩ scope start
      fun response => body response σ env) p log o)
    (hpre : p.record (.event (.enter scope) (.ok response)) :: k <+: log) :
    ∃ inside o' answer, Traced (body response) p inside o' ∧
      log = p.record (.event (.enter scope) (.ok response)) ::
        (inside ++ [o'.place.record (.event (.leave scope) answer)]) ∧
      o = o'.leave source answer ∧
      k <+: inside ++ [o'.place.record (.event (.leave scope) answer)] := by
  rcases h.within hbody with ⟨e, rfl, rfl⟩ | ⟨response', inside, o', answer, hinside, rfl, rfl⟩
  · exact nomatch (List.cons_prefix_cons.1 hpre).1
  · obtain ⟨hrecord, hk⟩ := List.cons_prefix_cons.1 hpre
    cases Place.record_inj.1 hrecord
    exact ⟨inside, o', answer, hinside, rfl, rfl, hk⟩

/-- What is answered inside of a scope is heard. -/
theorem Decided.within_heard (hbody : ∀ response, Composed source braced own (body response))
    {response : Option Response} (hsettled : Settled source (body response))
    {before log inside earlier : List CallbackRecord} {scopes : List Scope} {o o' : Outcome α}
    {r r' : CallbackRecord} (htrace : Traced (body response) p inside o)
    (hbefore : before <+: inside) (hdecided : Decided source (body response) p before scopes o)
    (h : Traced (fun σ env => Evaluation.within ⟨source, env⟩ scope start
      fun response => body response σ env) p log o')
    (hpre : earlier ++ [r] <+: p.record (.event (.enter scope) (.ok response)) :: before)
    (hpre' : earlier ++ [r'] <+: log) (hrefused : ¬ r'.callback.isAccepted) :
    ∃ e q, o' = .error e q ∧ r'.callback.IsReportedAs source e := by
  rcases snoc_prefix_cons hpre with ⟨rfl, -⟩ | ⟨k, rfl, hk⟩
  · exact h.within_refused hbody hpre' hrefused
  · obtain ⟨inside', o₁, answer, hinside, rfl, rfl, hk'⟩ := h.within_accepted hbody hpre'
    rcases snoc_prefix_append hk' with hshort | ⟨k', rfl, -⟩
    · obtain ⟨e, q, rfl, he⟩ := hdecided.heard _ _ _ _ _ hinside hk hshort hrefused
      exact ⟨e, q, rfl, he⟩
    · -- The body of the other run would be over before the two part.
      rw [List.append_assoc] at hk
      obtain ⟨rfl, -⟩ := hsettled.eq_of_isPrefix hinside htrace
        ((List.prefix_append _ _).trans (hk.trans hbefore))
      exact absurd (hk.trans hbefore).length_le (by simp)

/-- A scope ends also if its body fails, and then what is answered to its end does not matter. -/
theorem Decided.within_of_error (hbody : ∀ response, Composed source braced own (body response))
    {response : Option Response} (hsettled : Settled source (body response))
    {before inside : List CallbackRecord} {scopes : List Scope} {e : Error} {q : Place}
    (htrace : Traced (body response) p inside (.error e q)) (hbefore : before <+: inside)
    (hdecided : Decided source (body response) p before scopes (.error e q)) :
    Decided source (fun σ env => Evaluation.within ⟨source, env⟩ scope start
        fun response => body response σ env) p
      (p.record (.event (.enter scope) (.ok response)) :: before) (scopes ++ [scope])
      (.error e q) := by
  constructor
  case opened =>
    intro outer
    rw [List.append_assoc]
    exact hdecided.opened (scope :: outer)
  case ok => exact fun a q h => nomatch h
  case error =>
    intro e' q' h
    cases h
    have hfirst : ∀ r ∈ [p.record (.event (.enter scope) (.ok response))],
        r.callback.isAccepted := List.forall_mem_singleton.2 rfl
    exact (hdecided.error e q rfl).append hfirst
  case settled =>
    intro log o' h hpre
    obtain ⟨inside', o₁, answer, hinside, rfl, rfl, hk⟩ := h.within_accepted hbody hpre
    rcases List.prefix_concat_iff.1 hk with rfl | hk
    · -- The body of the other run would be over before the outcome is settled.
      obtain ⟨rfl, -⟩ := hsettled.eq_of_isPrefix hinside htrace
        ((List.prefix_append _ _).trans hbefore)
      exact absurd hbefore.length_le (by simp)
    · obtain ⟨rfl, unwinding, rfl, hunwinds⟩ := hdecided.settled _ _ hinside hk
      refine ⟨rfl, unwinding ++ [q.record (.event (.leave scope) answer)], by simp [Outcome.place],
        ?_⟩
      exact List.rel_append hunwinds (.cons ⟨answer, rfl⟩ .nil)
  case heard =>
    intro log o' earlier r r' h hpre hpre' hrefused
    exact hdecided.within_heard hbody hsettled htrace hbefore h hpre hpre' hrefused

/-- If the body of a scope gives a result, then the answer to the end of the scope matters. -/
theorem Decided.within_of_ok (hbody : ∀ response, Composed source braced own (body response))
    {response : Option Response} (hsettled : Settled source (body response))
    {inside : List CallbackRecord} {a : α} {q : Place}
    (htrace : Traced (body response) p inside (.ok a q))
    (hdecided : Decided source (body response) p inside [] (.ok a q))
    (answer : Except Error (Option Response)) :
    Decided source (fun σ env => Evaluation.within ⟨source, env⟩ scope start
        fun response => body response σ env) p
      (p.record (.event (.enter scope) (.ok response)) ::
        (inside ++ [q.record (.event (.leave scope) answer)])) []
      ((Outcome.ok a q).leave source answer) := by
  have haccepted : ∀ r ∈ p.record (.event (.enter scope) (.ok response)) :: inside,
      r.callback.isAccepted :=
    List.forall_mem_cons.2 ⟨rfl, (hdecided.ok a q rfl).2⟩
  constructor
  case opened =>
    intro outer
    show openScopes (scope :: outer) (inside ++ [_]) = outer
    rw [openScopes_append, hdecided.opened]
    rfl
  case ok =>
    intro a' q' ho
    cases answer with
    | ok response' =>
      refine ⟨rfl, ?_⟩
      rw [← List.cons_append]
      exact List.forall_mem_append.2 ⟨haccepted, List.forall_mem_singleton.2 rfl⟩
    | error e => cases ho
  case error =>
    intro e q' ho
    cases answer with
    | ok response' => cases ho
    | error e' =>
      cases ho
      exact .answer haccepted (isReportedAs_reported _ _ _)
  case settled =>
    intro log o' h hpre
    obtain ⟨inside', o₁, answer', hinside, rfl, rfl, hk⟩ := h.within_accepted hbody hpre
    obtain ⟨rfl, rfl⟩ := hsettled.eq_of_comparable htrace hinside hk
    have hrecord := (List.cons_prefix_cons.1 ((List.prefix_append_right_inj inside).1 hk)).1
    cases Place.record_inj.1 hrecord
    exact ⟨rfl, [], (List.append_nil _).symm, .nil⟩
  case heard =>
    intro log o' earlier r r' h hpre hpre' hrefused
    rw [← List.cons_append] at hpre
    rcases snoc_prefix_append hpre with hshort | ⟨k, rfl, hk⟩
    · exact hdecided.within_heard hbody hsettled htrace List.prefix_rfl h hshort hpre' hrefused
    · obtain rfl : k = [] := by simpa using hk.length_le
      rw [List.append_nil] at hpre'
      obtain ⟨inside', o₁, answer', hinside, rfl, rfl, hk'⟩ := h.within_accepted hbody hpre'
      obtain ⟨rfl, rfl⟩ := hsettled.eq_of_comparable htrace hinside hk'
      obtain ⟨rfl, -⟩ :=
        List.cons_prefix_cons.1 ((List.prefix_append_right_inj inside).1 hk')
      cases answer' with
      | ok response' => exact absurd rfl hrefused
      | error e => exact ⟨_, q, rfl, isReportedAs_reported _ _ _⟩

theorem Settled.within (hbody : ∀ response, Composed source braced own (body response))
    (ih : ∀ response, Settled source (body response)) :
    Settled source fun σ env => Evaluation.within ⟨source, env⟩ scope start
      fun response => body response σ env := by
  intro p log o htrace
  rcases htrace.within hbody with ⟨e, rfl, rfl⟩ | ⟨response, inside, o, answer, hinside, rfl, rfl⟩
  · refine ⟨_, [], List.prefix_rfl, ?_⟩
    constructor
    case opened => exact fun _ => rfl
    case ok => exact fun a q h => nomatch h
    case error =>
      intro e' q' h
      cases h
      show FirstFailure source ([] ++ [_]) _
      exact .answer (by simp) (isReportedAs_reported _ _ _)
    case settled =>
      intro log o' h hpre
      rcases h.within hbody with ⟨e', rfl, rfl⟩ | ⟨_, _, _, _, -, rfl, -⟩
      · cases (List.cons_prefix_cons.1 hpre).1
        exact ⟨rfl, [], rfl, .nil⟩
      · exact nomatch (List.cons_prefix_cons.1 hpre).1
    case heard =>
      intro log o' earlier r r' h hpre hpre' hrefused
      rcases snoc_prefix_cons hpre with ⟨rfl, -⟩ | ⟨k, rfl, hk⟩
      · exact h.within_refused hbody hpre' hrefused
      · exact absurd hk.length_le (by simp)
  · obtain ⟨before, scopes, hbefore, hdecided⟩ := ih response _ _ _ hinside
    cases o with
    | error e q =>
      refine ⟨_, _, ?_, hdecided.within_of_error hbody (ih response) hinside hbefore⟩
      exact List.cons_prefix_cons.2 ⟨rfl, hbefore.trans (List.prefix_append _ _)⟩
    | ok a q =>
      obtain ⟨rfl, rfl⟩ := hdecided.eq_of_ok hinside hbefore
      exact ⟨_, [], List.prefix_rfl, hdecided.within_of_ok hbody (ih response) hinside answer⟩

end

theorem Composed.settled {m : Computation α} (h : Composed source braced own m) :
    Settled source m := by
  induction h with
  | quiet h => exact .quiet h
  | bind hm hf ihm ihf => exact .bind hm hf ihm ihf
  | resolve call position => exact .resolve call position
  | within _ hbody _ ih => exact .within hbody ih
  | buildHash hm ih => exact .buildHash hm ih

end Evaluation

open Evaluation

/-- The first failure of an evaluation wins. A task that gives a value met none. One that fails does
so with its first failure, after which only the ends of the scopes open at that moment are told,
innermost first. -/
theorem Task.first_failure_wins {σ : Type} (task : Task) (env : Environment σ) (inner : σ) :
    match (task.evaluate env inner).1 with
    | .ok _ => ∀ r ∈ task.callbacks env inner, r.callback.isAccepted
    | .error e => e.isLocated ∧ ∃ before unwinding,
        task.callbacks env inner = before ++ unwinding ∧ FirstFailure task.source before e ∧
          EndsScopes (openScopes [] before) unwinding ∧ task.FailsAfter before e := by
  obtain ⟨o, hresult, htrace⟩ := task.exists_traced env inner
  obtain ⟨before, scopes, hbefore, hdecided⟩ := task.composed.settled _ _ _ htrace
  rw [hresult]
  cases o with
  | ok v q =>
    obtain ⟨hlog, -⟩ := hdecided.eq_of_ok htrace hbefore
    rw [hlog]
    exact (hdecided.ok v q rfl).2
  | error e q =>
    have hfailure := hdecided.error e q rfl
    have hopened : openScopes [] before = scopes := by simpa using hdecided.opened []
    obtain ⟨-, unwinding, hlog, hunwinds⟩ := hdecided.settled _ _ htrace hbefore
    refine ⟨hfailure.isLocated, before, unwinding, hlog, hfailure, hopened ▸ hunwinds, ?_⟩
    constructor
    case settled =>
      intro σ env inner hpre
      obtain ⟨o', hresult', htrace'⟩ := task.exists_traced env inner
      obtain ⟨rfl, hunwinding⟩ := hdecided.settled _ _ htrace' hpre
      exact ⟨hresult', hopened ▸ hunwinding⟩
    case heard =>
      intro σ env inner earlier r r' hpre hpre' hrefused
      obtain ⟨o', hresult', htrace'⟩ := task.exists_traced env inner
      obtain ⟨e', q', rfl, he⟩ := hdecided.heard _ _ _ _ _ htrace' hpre hpre' hrefused
      exact ⟨e', hresult', he⟩

end TextualData
