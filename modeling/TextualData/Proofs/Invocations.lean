import TextualData.Proofs.Advance
import TextualData.Proofs.Reading

/-!
# Invocations

The functions that evaluate the parts of a text invoke each other. `Invokes` says which invocation
leads to which, and in what state, and `Task.Makes` which of them the evaluation of a task makes,
successful or not. An invocation is made at a place behind the one before it, and behind blanks,
unless it begins by passing them.
-/

namespace TextualData
namespace Evaluation

/-- An invocation of a function that evaluates a part of a text, with its arguments. -/
inductive Invocation where
  | expression (bound : Nat) (forced inKey : Bool)
  | hash (bound : Nat) (forced : Bool)
  | sequence (bound : Nat) (forced : Bool)
  | unquoted (bound : Nat) (forced inKey : Bool)
  | itemsUpTo (bound : Nat) (closing : Option Char) (forced : Bool) (opening : Nat)
  | items (bound : Nat) (closing : Option Char) (forced : Bool) (opening : Nat)
  | entriesUpTo (bound : Nat) (closing : Option Char) (forced : Bool) (opening : Nat)
  | entries (bound : Nat) (closing : Option Char) (forced : Bool) (opening : Nat)
  | entry (bound : Nat) (closing : Option Char) (forced : Bool)
  | keyValue (bound : Nat) (name : String) (start : Nat) (forced : Bool)

variable {σ : Type}

/-- In one state, an invocation leads to another, which is made in another state. -/
inductive Invokes (setting : Setting σ) : Invocation → State σ → Invocation → State σ → Prop where
  | hash {n : Nat} {forced inKey : Bool} {s : State σ} (opens : s.cursor.peek? = some '{') :
      Invokes setting (.expression (n + 1) forced inKey) s (.hash n forced) s
  | sequence {n : Nat} {forced inKey : Bool} {s : State σ} (opens : s.cursor.peek? = some '[') :
      Invokes setting (.expression (n + 1) forced inKey) s (.sequence n forced) s
  /-- Neither a listing nor a literal begins at the cursor. -/
  | unquoted {n : Nat} {forced inKey : Bool} {s : State σ} {x : Char}
      (next : s.cursor.peek? = some x) (noListing : x ≠ '{' ∧ x ≠ '[')
      (noQuotation : ¬Literal.isQuotation x) (noRaw : Literal.rawQuotation? s.cursor.rest = none) :
      Invokes setting (.expression (n + 1) forced inKey) s (.unquoted n forced inKey) s
  | inHash {n : Nat} {forced : Bool} {s t : State σ}
      (entered : notify setting (.enter .hash) s.cursor.next.position
        ⟨s.cursor.next, [] :: s.openHashes, s.inner⟩ = .ok none t) :
      Invokes setting (.hash (n + 1) forced) s
        (.entriesUpTo n (some '}') forced s.cursor.position) t
  | inSequence {n : Nat} {forced : Bool} {response : Option Response} {s t : State σ}
      (entered : notify setting (.enter .sequence) s.cursor.next.position
        { s with cursor := s.cursor.next } = .ok response t) :
      Invokes setting (.sequence (n + 1) forced) s
        (.itemsUpTo n (some ']') forced s.cursor.position) t
  | inCall {n : Nat} {forced inKey broken : Bool} {l : List Char} {response : Option Response}
      {s s₁ s₂ t : State σ} (token : scan setting (Scan.token inKey) s = .ok l s₁)
      (nonempty : l ≠ []) (blanks : scan setting Scan.blanks s₁ = .ok broken s₂)
      (opens : s₂.cursor.peek? = some '(')
      (entered : notify setting (.enter (.params (String.ofList l))) s.cursor.position
        { s₂ with cursor := s₂.cursor.next } = .ok response t) :
      Invokes setting (.unquoted (n + 1) forced inKey) s
        (.itemsUpTo n (some ')') forced s₂.cursor.position) t
  | items {n opening : Nat} {closing : Option Char} {forced broken : Bool} {s t : State σ}
      (blanks : scan setting Scan.blanks s = .ok broken t) :
      Invokes setting (.itemsUpTo (n + 1) closing forced opening) s
        (.items n closing forced opening) t
  | item {n opening : Nat} {closing : Option Char} {forced : Bool} {s : State σ}
      (begins : s.cursor.BeginsItem closing) :
      Invokes setting (.items (n + 1) closing forced opening) s (.expression n forced false) s
  /-- The items after the first. -/
  | moreItems {n opening : Nat} {closing : Option Char} {forced : Bool} {v : Value}
      {separator : Separator} {s s₁ t : State σ} (begins : s.cursor.BeginsItem closing)
      (first : expression setting n forced false s = .ok v s₁)
      (separated : scan setting (Scan.separator closing (some .inList)) s₁ = .ok separator t)
      (goesOn : separator ≠ .closing) :
      Invokes setting (.items (n + 1) closing forced opening) s (.items n closing forced opening) t
  | entries {n opening : Nat} {closing : Option Char} {forced broken : Bool} {s t : State σ}
      (blanks : scan setting Scan.blanks s = .ok broken t) :
      Invokes setting (.entriesUpTo (n + 1) closing forced opening) s
        (.entries n closing forced opening) t
  | entry {n opening : Nat} {closing : Option Char} {forced : Bool} {s : State σ}
      (begins : s.cursor.BeginsItem closing) :
      Invokes setting (.entries (n + 1) closing forced opening) s (.entry n closing forced) s
  /-- The entries after the first. -/
  | moreEntries {n opening : Nat} {closing : Option Char} {forced : Bool} {separator : Separator}
      {s t : State σ} (begins : s.cursor.BeginsItem closing)
      (first : entry setting n closing forced s = .ok separator t)
      (goesOn : separator ≠ .closing) :
      Invokes setting (.entries (n + 1) closing forced opening) s
        (.entries n closing forced opening) t
  | key {n : Nat} {closing : Option Char} {forced : Bool} {s : State σ} :
      Invokes setting (.entry (n + 1) closing forced) s (.expression n false true) s
  | keyValue {n : Nat} {closing : Option Char} {forced fromCall unresolved : Bool}
      {key key' : Value} {name : String} {s s₁ s₂ s₃ t : State σ}
      (first : expression setting n false true s = .ok key s₁)
      (resolved : resolveKey setting key s.cursor.position s₁ =
        .ok (key', fromCall, unresolved) s₂)
      (colon : scan setting (Scan.separator closing none) s₂ = .ok .colon s₃)
      (named : keyName setting key' unresolved s.cursor.position s₃ = .ok name t) :
      Invokes setting (.entry (n + 1) closing forced) s
        (.keyValue n name s.cursor.position forced) t
  | value {n start : Nat} {name : String} {forced : Bool} {s t : State σ}
      (hasValue : s.cursor.rest ≠ [])
      (entered : notify setting (.enter (.key name)) start s = .ok none t) :
      Invokes setting (.keyValue (n + 1) name start forced) s (.expression n forced false) t

/-- Whether blanks have been passed before an invocation is made. -/
def Invocation.isBehindBlanks : Invocation → Bool
  | itemsUpTo .. | entriesUpTo .. => false
  | _ => true

section
variable {setting : Setting σ} {s t : State σ} {event : Event} {position start : Nat}

theorem cursor_of_notify {response : Option Response}
    (h : notify setting event position s = .ok response t) : t.cursor = s.cursor := by
  unfold notify at h
  split at h
  · obtain ⟨-, rfl⟩ := EStateM.Result.ok.inj h
    rfl
  · simp at h

theorem cursor_of_resolveKey {key : Value} {r : Value × Bool × Bool}
    (h : resolveKey setting key start s = .ok r t) : t.cursor = s.cursor := by
  unfold resolveKey at h
  split at h
  · obtain ⟨v, _, hr, h⟩ := bind_eq_ok.1 h
    obtain ⟨-, rfl⟩ := resolve_eq_ok.1 hr
    obtain ⟨-, rfl⟩ := pure_eq_ok.1 h
    rfl
  · obtain ⟨-, rfl⟩ := pure_eq_ok.1 h
    rfl

theorem cursor_of_keyName {key : Value} {unresolved : Bool} {name : String}
    (h : keyName setting key unresolved start s = .ok name t) : t.cursor = s.cursor := by
  unfold keyName at h
  split at h
  · rw [(pure_eq_ok.1 h).2]
  · simp only [ite_run] at h
    split at h <;> exact absurd h fail_ne_ok

variable {invocation invocation' : Invocation}

/-- An invocation is made behind the place of the one before it. -/
theorem Invokes.leads (h : Invokes setting invocation s invocation' t) :
    s.cursor.Leads t.cursor := by
  cases h with
  | hash | sequence | unquoted | item | entry | key => exact .refl _
  | inHash entered | inSequence entered =>
    rw [cursor_of_notify entered]
    exact .next _
  | inCall token _ blanks _ entered =>
    obtain ⟨_, htoken, rfl⟩ := scan_eq_ok.1 token
    obtain ⟨_, hblanks, rfl⟩ := scan_eq_ok.1 blanks
    obtain ⟨rest, hsplit, rfl⟩ := Scan.token_eq_ok.1 htoken
    rw [cursor_of_notify entered]
    exact (Token.leads_pass hsplit).trans ((Scan.leads_of_blanks hblanks).trans (.next _))
  | items blanks | entries blanks =>
    obtain ⟨_, hblanks, rfl⟩ := scan_eq_ok.1 blanks
    exact Scan.leads_of_blanks hblanks
  | moreItems _ first separated =>
    obtain ⟨_, hseparated, rfl⟩ := scan_eq_ok.1 separated
    exact (leads_of_expression first).trans (Scan.leads_of_separator hseparated)
  | moreEntries _ first => exact (leads_of_entry first).1
  | keyValue first resolved colon named =>
    obtain ⟨_, hcolon, rfl⟩ := scan_eq_ok.1 colon
    rw [cursor_of_keyName named]
    rw [cursor_of_resolveKey resolved] at hcolon
    exact (leads_of_expression first).trans (Scan.leads_of_separator hcolon)
  | value _ entered =>
    rw [cursor_of_notify entered]
    exact .refl _

/-- What begins after blanks invokes nothing before further blanks. -/
theorem Invokes.blanks (h : Invokes setting invocation s invocation' t)
    (hs : invocation.isBehindBlanks → Scan.blanks s.cursor = .ok false s.cursor)
    (ht : invocation'.isBehindBlanks) : Scan.blanks t.cursor = .ok false t.cursor := by
  cases h with
  | hash | sequence | unquoted | item | entry | key => exact hs rfl
  | inHash | inSequence | inCall => simp [Invocation.isBehindBlanks] at ht
  | items blanks | entries blanks =>
    obtain ⟨_, hblanks, rfl⟩ := scan_eq_ok.1 blanks
    exact Scan.blanks_again hblanks
  | moreItems _ _ separated =>
    obtain ⟨_, hseparated, rfl⟩ := scan_eq_ok.1 separated
    exact Scan.blanks_of_separator hseparated
  | moreEntries _ first => exact (leads_of_entry first).2
  | keyValue _ _ colon named =>
    obtain ⟨_, hcolon, rfl⟩ := scan_eq_ok.1 colon
    rw [cursor_of_keyName named]
    exact Scan.blanks_of_separator hcolon
  | value _ entered =>
    rw [cursor_of_notify entered]
    exact hs rfl

end
end Evaluation

namespace Task

open Evaluation

variable {σ : Type}

/-- The evaluation of a task makes an invocation in a state. -/
inductive Makes (task : Task) (env : Environment σ) (inner : σ) : Invocation → State σ → Prop where
  /-- An expression is read from a text or from a fragment. -/
  | expression {forced broken : Bool} {t : State σ}
      (mode : (∃ source, task = .text source .expression forced) ∨ ∃ f, task = .fragment f forced)
      (blanks : scan ⟨task.source, env⟩ Scan.blanks ⟨task.window, [], inner⟩ = .ok broken t)
      (hasText : t.cursor.rest ≠ []) :
      Makes task env inner (.expression (bound task.window.rest.length) forced false) t
  | hash {source : Source} {forced : Bool} {response : Option Response} {t : State σ}
      (mode : task = .text source .hash forced)
      (entered : notify ⟨task.source, env⟩ (.enter .hash) task.window.position
        ⟨task.window, [[]], inner⟩ = .ok response t) :
      Makes task env inner
        (.entriesUpTo (bound task.window.rest.length) none forced task.window.position) t
  | sequence {source : Source} {forced : Bool} {response : Option Response} {t : State σ}
      (mode : task = .text source .sequence forced)
      (entered : notify ⟨task.source, env⟩ (.enter .sequence) task.window.position
        ⟨task.window, [], inner⟩ = .ok response t) :
      Makes task env inner
        (.itemsUpTo (bound task.window.rest.length) none forced task.window.position) t
  | step {invocation invocation' : Invocation} {s t : State σ}
      (h : Makes task env inner invocation s)
      (next : Invokes ⟨task.source, env⟩ invocation s invocation' t) :
      Makes task env inner invocation' t

variable {task : Task} {env : Environment σ} {inner : σ} {invocation : Invocation} {s : State σ}

/-- All invocations are made in the window of the task. -/
theorem Makes.leads (h : task.Makes env inner invocation s) : task.window.Leads s.cursor := by
  induction h with
  | expression _ blanks =>
    obtain ⟨_, hblanks, rfl⟩ := scan_eq_ok.1 blanks
    exact Scan.leads_of_blanks hblanks
  | hash _ entered | sequence _ entered =>
    rw [cursor_of_notify entered]
    exact .refl _
  | step _ next ih => exact ih.trans next.leads

theorem Makes.blanks (h : task.Makes env inner invocation s) (hs : invocation.isBehindBlanks) :
    Scan.blanks s.cursor = .ok false s.cursor := by
  induction h with
  | expression _ blanks =>
    obtain ⟨_, hblanks, rfl⟩ := scan_eq_ok.1 blanks
    exact Scan.blanks_again hblanks
  | hash | sequence => simp [Invocation.isBehindBlanks] at hs
  | step _ next ih => exact next.blanks ih hs

end Task
end TextualData
