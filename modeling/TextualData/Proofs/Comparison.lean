import Mathlib.Data.List.Forall2
import TextualData.Proofs.Reading
import TextualData.Proofs.ShiftedScans

/-!
# Evaluations side by side

Two evaluations without an environment are compared that read the same window, the first one behind
more text than the second. `Comparison.Alike` says that they go the same way: both come to the same
place, with results and open hashes in given relations, or both fail with the same fault at the
same place of the window. What may differ is the meaning of tokens outside of keys, as far as a
relation between values allows it that goes with the forms of values (`Value.Congruence`).
-/

namespace TextualData

section
variable {V : Value → Value → Prop}

/-- The same keys in the same order, with values in a relation. -/
def Entries.Alike (V : Value → Value → Prop) : Hash → Hash → Prop :=
  List.Forall₂ fun e e' => e.1 = e'.1 ∧ V e.2 e'.2

/-- A relation that goes with the forms of values, in which tokens mean related values when they
are forced to be strings or are not. -/
structure Value.Congruence (V : Value → Value → Prop) (forced forced' : Bool) : Prop where
  refl : ∀ v, V v v
  token : ∀ l, V (tokenValue forced false l) (tokenValue forced' false l)
  sequence : ∀ {vs ws}, List.Forall₂ V vs ws → V (.sequence vs) (.sequence ws)
  hash : ∀ {es es'}, Entries.Alike V es es' → V (.hash es) (.hash es')
  call : ∀ {name vs ws}, List.Forall₂ V vs ws → V (.call name vs) (.call name ws)

theorem Entries.alike_eq_iff {es es' : Hash} : Entries.Alike Eq es es' ↔ es = es' := by
  have heq : (fun e e' : String × Value => e.1 = e'.1 ∧ e.2 = e'.2) = Eq := by
    funext e e'
    exact propext Prod.ext_iff.symm
  rw [Alike, heq, List.forall₂_eq_eq_eq]

/-- Equality goes with all forms of values, if tokens mean the same. -/
theorem Value.Congruence.eq (forced : Bool) : Congruence Eq forced forced where
  refl _ := rfl
  token _ := rfl
  sequence h := congrArg _ (by rwa [List.forall₂_eq_eq_eq] at h)
  hash h := congrArg _ (Entries.alike_eq_iff.1 h)
  call h := congrArg _ (by rwa [List.forall₂_eq_eq_eq] at h)

namespace Entries.Alike

variable {es es' : Hash}

theorem insert (h : Alike V es es') (key : String) {v w : Value} (hv : V v w) :
    Alike V (es.insert key v) (es'.insert key w) := by
  induction h with
  | nil => exact .cons ⟨rfl, hv⟩ .nil
  | @cons e e' es es' he hes ih =>
    obtain ⟨k, u⟩ := e
    obtain ⟨k', u'⟩ := e'
    obtain ⟨rfl, hu⟩ : k = k' ∧ V u u' := he
    unfold Entries.insert
    by_cases hk : k = key
    · rw [if_pos hk, if_pos hk]
      exact .cons ⟨rfl, hv⟩ hes
    · rw [if_neg hk, if_neg hk]
      exact .cons ⟨rfl, hu⟩ ih

/-- The same entries are taken over into hashes that are alike. -/
theorem merge (refl : ∀ v, V v v) (h : Alike V es es') (more : Hash) :
    Alike V (es.merge more) (es'.merge more) := by
  induction more generalizing es es' with
  | nil => exact h
  | cons e more ih => exact ih (h.insert e.1 (refl e.2))

end Entries.Alike
end

namespace Evaluation

variable {α β γ δ : Type}

/-- Without an environment, a scope is its body. -/
theorem within_unresolving (source : Source) (scope : Scope) (start : Nat)
    (body : Option Response → EvalM Unit α) :
    within ⟨source, .unresolving⟩ scope start body = body none := by
  funext s
  have henter : notify ⟨source, .unresolving⟩ (.enter scope) start s = .ok none s := rfl
  refine (bind_of_eq_ok henter).trans ?_
  cases body none s <;> rfl

/-- Two texts whose evaluations are compared. -/
structure Comparison where
  left : Source
  right : Source
  /-- The characters that only the first text has before the window, nearest first. -/
  ahead : List Char
  /-- The window begins in a line that is blank up to there. -/
  blank : Text.isLineBlankBefore ahead

namespace Comparison

variable (p : Comparison)

/-- What the evaluation of the first text is given. -/
def onLeft : Setting Unit :=
  ⟨p.left, .unresolving⟩

/-- What the evaluation of the second text is given. -/
def onRight : Setting Unit :=
  ⟨p.right, .unresolving⟩

/-- The size of what only the first text has before the window. -/
def distance : Nat :=
  Text.byteSize p.ahead

/-- The same fault at the same place of the window. -/
inductive SameBlame : Error → Error → Prop where
  | malformed (fault : Malformation) (position : Nat) :
      SameBlame (.malformed fault (p.left.locate (position + p.distance)))
        (.malformed fault (p.right.locate position))
  | evaluation (fault : EvaluationFault) (position : Nat) :
      SameBlame (.evaluation fault (p.left.locate (position + p.distance)))
        (.evaluation fault (p.right.locate position))

/-- Both evaluations came to the same place with related results, or failed alike. -/
inductive Meets (S : List Hash → List Hash → Prop) (Q : α → β → Prop) :
    EStateM.Result Error (State Unit) α → EStateM.Result Error (State Unit) β → Prop where
  | ok {a : α} {b : β} {c : Cursor} {hs hs' : List Hash} (result : Q a b) (hashes : S hs hs') :
      Meets S Q (.ok a ⟨c.behind p.ahead, hs, ()⟩) (.ok b ⟨c, hs', ()⟩)
  | error {e e' : Error} {s s' : State Unit} (blame : p.SameBlame e e') :
      Meets S Q (.error e s) (.error e' s')

/-- From each place, with related open hashes, both evaluations go the same way. -/
def Alike (S : List Hash → List Hash → Prop) (m : EvalM Unit α) (m' : EvalM Unit β)
    (Q : α → β → Prop) : Prop :=
  ∀ (c : Cursor) (hs hs' : List Hash), S hs hs' →
    Meets p S Q (m ⟨c.behind p.ahead, hs, ()⟩) (m' ⟨c, hs', ()⟩)

/-- The innermost hashes have the same keys and related values. -/
inductive OnTop (V : Value → Value → Prop) (S : List Hash → List Hash → Prop) :
    List Hash → List Hash → Prop where
  | intro {h h' : Hash} {hs hs' : List Hash} (innermost : Entries.Alike V h h') (outer : S hs hs') :
      OnTop V S (h :: hs) (h' :: hs')

namespace Alike

variable {p} {S : List Hash → List Hash → Prop} {V : Value → Value → Prop} {Q : α → β → Prop}
  {R : γ → δ → Prop}

theorem bind {m : EvalM Unit α} {m' : EvalM Unit β} {f : α → EvalM Unit γ} {f' : β → EvalM Unit δ}
    (h : Alike p S m m' Q) (hf : ∀ a b, Q a b → Alike p S (f a) (f' b) R) :
    Alike p S (m >>= f) (m' >>= f') R := by
  intro c hs hs' hS
  have hrun := h c hs hs' hS
  generalize hm : m ⟨c.behind p.ahead, hs, ()⟩ = r, hm' : m' ⟨c, hs', ()⟩ = r' at hrun
  cases hrun with
  | ok result hashes =>
    rw [bind_of_eq_ok hm, bind_of_eq_ok hm']
    exact hf _ _ result _ _ _ hashes
  | error blame =>
    rw [bind_of_eq_error hm, bind_of_eq_error hm']
    exact .error blame

theorem pure {a : α} {b : β} (h : Q a b) : Alike p S (pure a) (pure b) Q :=
  fun _ _ _ hS => .ok h hS

theorem get {f : State Unit → EvalM Unit α} {f' : State Unit → EvalM Unit β}
    (hf : ∀ (c : Cursor) (hs hs' : List Hash),
      Alike p S (f ⟨c.behind p.ahead, hs, ()⟩) (f' ⟨c, hs', ()⟩) Q) :
    Alike p S (MonadState.get >>= f) (MonadState.get >>= f') Q :=
  fun c hs hs' => hf c hs hs' c hs hs'

theorem position {f : Nat → EvalM Unit α} {f' : Nat → EvalM Unit β}
    (hf : ∀ n, Alike p S (f (n + p.distance)) (f' n) Q) :
    Alike p S (Evaluation.position >>= f) (Evaluation.position >>= f') Q := by
  intro c hs hs' hS
  have h := hf c.position c hs hs' hS
  rwa [distance, ← c.position_behind] at h

theorem ite {q : Prop} {_ : Decidable q} {m k : EvalM Unit α} {m' k' : EvalM Unit β}
    (h : q → Alike p S m m' Q) (h' : ¬q → Alike p S k k' Q) :
    Alike p S (if q then m else k) (if q then m' else k') Q := by
  by_cases hq : q
  · rw [if_pos hq, if_pos hq]
    exact h hq
  · rw [if_neg hq, if_neg hq]
    exact h' hq

theorem scan {m m' : Scan α} (h : Scan.Shifts p.ahead m m') :
    Alike p S (scan p.onLeft m) (scan p.onRight m') Eq := by
  intro c hs hs' hS
  have hrun := h c
  cases hm : m' c with
  | ok a d =>
    rw [hm] at hrun
    have hl : Evaluation.scan p.onLeft m ⟨c.behind p.ahead, hs, ()⟩ =
        .ok a ⟨d.behind p.ahead, hs, ()⟩ := by simp only [Evaluation.scan, hrun, Scan.behind]
    have hr : Evaluation.scan p.onRight m' ⟨c, hs', ()⟩ = .ok a ⟨d, hs', ()⟩ := by
      simp only [Evaluation.scan, hm]
    rw [hl, hr]
    exact .ok rfl hS
  | error fault d =>
    rw [hm] at hrun
    simp only [Evaluation.scan, hrun, hm, Scan.behind]
    exact .error (.malformed fault.cause fault.position)

theorem refuse (cause : Malformation) :
    Alike p S (Evaluation.scan p.onLeft (Scan.refuse cause))
      (Evaluation.scan p.onRight (Scan.refuse cause)) Q :=
  fun c _ _ _ => by
    have h : Scan.refuse (α := α) cause (c.behind p.ahead) =
        .error ⟨cause, c.position + p.distance⟩ (c.behind p.ahead) := by
      rw [distance, ← c.position_behind]
      rfl
    simp only [Evaluation.scan, h]
    exact .error (.malformed cause c.position)

theorem refuseAt (position : Nat) (cause : Malformation) :
    Alike p S (Evaluation.scan p.onLeft (Scan.refuseAt (position + p.distance) cause))
      (Evaluation.scan p.onRight (Scan.refuseAt position cause)) Q :=
  fun _ _ _ _ => .error (.malformed cause position)

theorem fail (position : Nat) (fault : EvaluationFault) :
    Alike p S (fail p.onLeft (position + p.distance) fault) (fail p.onRight position fault) Q :=
  fun _ _ _ _ => .error (.evaluation fault position)

/-- Both refuse under the same condition. -/
theorem refuse_or {q : Prop} {_ : Decidable q} {m : EvalM Unit γ} {m' : EvalM Unit δ}
    {k : EvalM Unit α} {k' : EvalM Unit β} (hrefuse : Alike p S m m' fun _ _ => False)
    (h : Alike p S k k' Q) :
    Alike p S (if q then m >>= fun _ => k else k) (if q then m' >>= fun _ => k' else k') Q :=
  .ite (fun _ => .bind hrefuse fun _ _ h => h.elim) fun _ => h

/-- Nothing is asked for at the beginning of a scope. -/
theorem within {scope scope' : Scope} {start start' : Nat} {body : Option Response → EvalM Unit α}
    {body' : Option Response → EvalM Unit β} (h : Alike p S (body none) (body' none) Q) :
    Alike p S (within p.onLeft scope start body) (within p.onRight scope' start' body') Q := by
  intro c hs hs' hS
  have hrun := h c hs hs' hS
  have hl : Evaluation.within p.onLeft scope start body ⟨c.behind p.ahead, hs, ()⟩ =
      body none ⟨c.behind p.ahead, hs, ()⟩ :=
    congrFun (within_unresolving p.left scope start body) _
  have hr : Evaluation.within p.onRight scope' start' body' ⟨c, hs', ()⟩ =
      body' none ⟨c, hs', ()⟩ :=
    congrFun (within_unresolving p.right scope' start' body') _
  rwa [hl, hr]

/-- Calls stay as they are. -/
theorem resolve {call call' : FunctionCall} {start start' : Nat}
    (h : V call.toValue call'.toValue) :
    Alike p S (resolve p.onLeft call start) (resolve p.onRight call' start') V :=
  fun _ _ _ hS => .ok h hS

theorem buildHash {m : EvalM Unit α} {m' : EvalM Unit β} (h : Alike p (OnTop V S) m m' Q) :
    Alike p S (buildHash m) (buildHash m') fun a b => Q a.1 b.1 ∧ Entries.Alike V a.2 b.2 := by
  intro c hs hs' hS
  have hrun := h c ([] :: hs) ([] :: hs') (.intro List.Forall₂.nil hS)
  simp only [Evaluation.buildHash]
  generalize m ⟨c.behind p.ahead, [] :: hs, ()⟩ = r, m' ⟨c, [] :: hs', ()⟩ = r' at hrun
  cases hrun with
  | ok result hashes =>
    cases hashes with
    | intro innermost outer => exact .ok ⟨result, innermost⟩ outer
  | error blame => exact .error blame

theorem modifyHash {f f' : Hash → Hash}
    (h : ∀ {es es'}, Entries.Alike V es es' → Entries.Alike V (f es) (f' es')) :
    Alike p (OnTop V S) (modifyHash f) (modifyHash f') fun _ _ => True := by
  intro c hs hs' hS
  cases hS with
  | intro innermost outer => exact .ok trivial (.intro (h innermost) outer)

theorem put {key : String} {v w : Value} (h : V v w) :
    Alike p (OnTop V S) (put key v) (put key w) fun _ _ => True :=
  modifyHash fun hes => hes.insert key h

/-- Both go to the same place. -/
theorem goTo (c : Cursor) :
    Alike p S (modify fun s => { s with cursor := c.behind p.ahead })
      (modify fun s => { s with cursor := c }) fun _ _ => True :=
  fun _ _ _ hS => .ok trivial hS

end Alike
end Comparison
end Evaluation
end TextualData
