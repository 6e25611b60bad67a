import TextualData.Proofs.Forcing
import TextualData.Proofs.Terms

/-!
# Strings by force

A task means one term, and its evaluation gives the value of the term, with forcing and without. So
a leaf of a forced value is a string, or true where a key was given without a value, or what a loose
token means: forcing does not reach into a hash whose entries are taken over.
-/

namespace TextualData

/-- The leaves of a term, in sequences, hashes and parameters at any depth. -/
inductive Term.IsLeafOf : Term → Term → Prop where
  | literal {s : String} : IsLeafOf (.literal s) (.literal s)
  | token {loose : Bool} {l : List Char} : IsLeafOf (.token loose l) (.token loose l)
  | flag : IsLeafOf .flag .flag
  | item {leaf t : Term} {ts : List Term} (mem : t ∈ ts) (inner : IsLeafOf leaf t) :
      IsLeafOf leaf (.sequence ts)
  | entry {leaf : Term} {e : String × Term} {es : List (String × Term)} (mem : e ∈ es)
      (inner : IsLeafOf leaf e.2) : IsLeafOf leaf (.hash es)
  | param {leaf t : Term} {name : String} {ts : List Term} (mem : t ∈ ts)
      (inner : IsLeafOf leaf t) : IsLeafOf leaf (.call name ts)

/-- The leaves of a value, in sequences, hashes and parameters at any depth. -/
inductive Value.IsLeafOf : Value → Value → Prop where
  | self {v : Value} (noParts : v.HasNoParts) : IsLeafOf v v
  | item {leaf v : Value} {vs : List Value} (mem : v ∈ vs) (inner : IsLeafOf leaf v) :
      IsLeafOf leaf (.sequence vs)
  | entry {leaf : Value} {e : String × Value} {h : Hash} (mem : e ∈ h)
      (inner : IsLeafOf leaf e.2) : IsLeafOf leaf (.hash h)
  | param {leaf v : Value} {name : String} {vs : List Value} (mem : v ∈ vs)
      (inner : IsLeafOf leaf v) : IsLeafOf leaf (.call name vs)

namespace Term

variable {forced : Bool}

theorem values_eq_map (forced : Bool) (ts : List Term) :
    values forced ts = ts.map (value forced) := by
  induction ts with
  | nil => rfl
  | cons t ts ih => rw [values, ih, List.map_cons]

theorem entryValues_eq_map (forced : Bool) (es : List (String × Term)) :
    entryValues forced es = es.map fun e => (e.1, e.2.value forced) := by
  induction es with
  | nil => rfl
  | cons e es ih => rw [entryValues, ih, List.map_cons]

theorem IsLeafOf.value {leaf t : Term} (h : leaf.IsLeafOf t) :
    (leaf.value forced).IsLeafOf (t.value forced) := by
  induction h with
  | literal | flag => exact .self (by simp [Term.value, Value.HasNoParts])
  | token => exact .self (Token.hasNoParts_tokenValue _ _ _)
  | item mem _ ih =>
    exact .item (by simpa only [values_eq_map] using List.mem_map_of_mem mem) ih
  | @entry _ e es mem _ ih =>
    refine .entry (e := (e.1, e.2.value forced)) ?_ ih
    rw [entryValues_eq_map]
    exact List.mem_map.2 ⟨e, mem, rfl⟩
  | param mem _ ih =>
    exact .param (by simpa only [values_eq_map] using List.mem_map_of_mem mem) ih

/-- The leaves of the value of a term are the values of its leaves. -/
theorem isLeafOf_value_iff {w : Value} {t : Term} :
    w.IsLeafOf (t.value forced) ↔ ∃ leaf : Term, leaf.IsLeafOf t ∧ leaf.value forced = w := by
  constructor
  · intro h
    -- Only the term varies, whose value is taken apart with it.
    generalize hv : t.value forced = v at h
    induction h generalizing t with
    | self noParts =>
      cases t with
      | literal => exact ⟨_, .literal, hv⟩
      | token => exact ⟨_, .token, hv⟩
      | flag => exact ⟨_, .flag, hv⟩
      | sequence => exact absurd hv.symm (noParts.1 _)
      | hash => exact absurd hv.symm (noParts.2.1 _)
      | call => exact absurd hv.symm (noParts.2.2 _ _)
    | item mem _ ih =>
      cases t with
      | sequence ts =>
        rw [← Value.sequence.inj hv, values_eq_map] at mem
        obtain ⟨u, hu, rfl⟩ := List.mem_map.1 mem
        obtain ⟨leaf, hleaf, hvalue⟩ := ih rfl
        exact ⟨leaf, .item hu hleaf, hvalue⟩
      | token => exact absurd hv ((Token.hasNoParts_tokenValue _ _ _).1 _)
      | _ => cases hv
    | entry mem _ ih =>
      cases t with
      | hash es =>
        rw [← Value.hash.inj hv, entryValues_eq_map] at mem
        obtain ⟨e, he, rfl⟩ := List.mem_map.1 mem
        obtain ⟨leaf, hleaf, hvalue⟩ := ih rfl
        exact ⟨leaf, .entry he hleaf, hvalue⟩
      | token => exact absurd hv ((Token.hasNoParts_tokenValue _ _ _).2.1 _)
      | _ => cases hv
    | param mem _ ih =>
      cases t with
      | call name ts =>
        rw [← (Value.call.inj hv).2, values_eq_map] at mem
        obtain ⟨u, hu, rfl⟩ := List.mem_map.1 mem
        obtain ⟨leaf, hleaf, hvalue⟩ := ih rfl
        exact ⟨leaf, .param hu hleaf, hvalue⟩
      | token => exact absurd hv ((Token.hasNoParts_tokenValue _ _ _).2.2 _ _)
      | _ => cases hv
  · rintro ⟨leaf, hleaf, rfl⟩
    exact hleaf.value

end Term

/-- All leaves but flags are strings when tokens are forced to be strings. -/
def Term.HasStringLeaves (t : Term) : Prop :=
  ∀ leaf : Term, leaf.IsLeafOf t → leaf = .flag ∨ ∃ s, leaf.value true = .string s

/-- Exactly the loose tokens can be anything else. -/
theorem Term.hasStringLeaves_iff (t : Term) : t.HasStringLeaves ↔
    ∀ l, (Term.token true l).IsLeafOf t → Token.classify l = .string (String.ofList l) := by
  constructor
  · intro h l hl
    obtain hflag | ⟨s, hs⟩ := h _ hl
    · cases hflag
    · exact Token.classify_of_string hs
  · intro h leaf hleaf
    induction hleaf with
    | literal => exact .inr ⟨_, rfl⟩
    | @token loose l =>
      cases loose with
      | false => exact .inr ⟨String.ofList l, rfl⟩
      | true => exact .inr ⟨String.ofList l, h l .token⟩
    | flag => exact .inl rfl
    | item mem _ ih => exact ih fun l hl => h l (.item mem hl)
    | entry mem _ ih => exact ih fun l hl => h l (.entry mem hl)
    | param mem _ ih => exact ih fun l hl => h l (.param mem hl)

/-- What a window means as a whole, by how its top level is read. -/
def Cursor.Means (c : Cursor) (t : Term) : Mode → Prop
  | .expression => ∃ broken c₁ c₂ broken' c₃, Scan.blanks c = .ok broken c₁ ∧
      Denotes (.value false false t) c₁ c₂ ∧ Scan.blanks c₂ = .ok broken' c₃ ∧ c₃.rest = []
  | .hash => ∃ es broken c₁ c₂, t = .hash es ∧ Scan.blanks c = .ok broken c₁ ∧
      Denotes (.entries none false [] es) c₁ c₂
  | .sequence => ∃ ts broken c₁ c₂, t = .sequence ts ∧ Scan.blanks c = .ok broken c₁ ∧
      Denotes (.items none false ts) c₁ c₂

namespace Cursor

variable {c : Cursor} {t u : Term} {mode : Mode} {forced : Bool}

/-- A window means one term at most. -/
theorem Means.unique (h : c.Means t mode) (h' : c.Means u mode) : t = u := by
  cases mode with
  | expression =>
    obtain ⟨_, _, _, _, _, hblanks, hd, -⟩ := h
    obtain ⟨_, _, _, _, _, hblanks', hd', -⟩ := h'
    obtain rfl := Scan.blanks_unique hblanks hblanks'
    exact (hd'.isOnly _ _ hd).1
  | hash =>
    obtain ⟨es, _, _, _, rfl, hblanks, hd⟩ := h
    obtain ⟨es', _, _, _, rfl, hblanks', hd'⟩ := h'
    obtain rfl := Scan.blanks_unique hblanks hblanks'
    exact congrArg Term.hash (hd'.isOnly _ _ hd).1
  | sequence =>
    obtain ⟨ts, _, _, _, rfl, hblanks, hd⟩ := h
    obtain ⟨ts', _, _, _, rfl, hblanks', hd'⟩ := h'
    obtain rfl := Scan.blanks_unique hblanks hblanks'
    exact congrArg Term.sequence (hd'.isOnly _ _ hd).1

theorem readsAsValue_iff {v : Value} : c.ReadsAsValue Unresolved forced v ↔
    ∃ t, c.Means t .expression ∧ t.value forced = v := by
  constructor
  · rintro ⟨broken, c₁, c₂, broken', c₃, hblanks, hread, hblanks', hend⟩
    obtain ⟨t, ht, rfl⟩ := hread.hasTerm forced false (Bool.and_true forced).symm
    exact ⟨t, ⟨broken, c₁, c₂, broken', c₃, hblanks, ht, hblanks', hend⟩, rfl⟩
  · rintro ⟨t, ⟨broken, c₁, c₂, broken', c₃, hblanks, ht, hblanks', hend⟩, rfl⟩
    have hread := ht.reads forced
    simp only [Part.phrase, Bool.not_false, Bool.and_true] at hread
    exact ⟨broken, c₁, c₂, broken', c₃, hblanks, hread, hblanks', hend⟩

theorem readsAsHash_iff {h : Hash} : c.ReadsAsHash Unresolved forced h ↔
    ∃ t, c.Means t .hash ∧ t.value forced = .hash h := by
  constructor
  · rintro ⟨broken, c₁, c₂, hblanks, hread⟩
    obtain ⟨es, hes, rfl⟩ := hread.hasTerm forced false (Bool.and_true forced).symm [] rfl
    exact ⟨.hash es, ⟨es, broken, c₁, c₂, rfl, hblanks, hes⟩, rfl⟩
  · rintro ⟨_, ⟨es, broken, c₁, c₂, rfl, hblanks, hes⟩, hvalue⟩
    obtain rfl := Value.hash.inj hvalue
    have hread := hes.reads forced
    simp only [Part.phrase, Bool.not_false, Bool.and_true] at hread
    exact ⟨broken, c₁, c₂, hblanks, hread⟩

theorem readsAsSequence_iff {vs : List Value} : c.ReadsAsSequence Unresolved forced vs ↔
    ∃ t, c.Means t .sequence ∧ t.value forced = .sequence vs := by
  constructor
  · rintro ⟨broken, c₁, c₂, hblanks, hread⟩
    obtain ⟨ts, hts, rfl⟩ := hread.hasTerm forced false (Bool.and_true forced).symm
    exact ⟨.sequence ts, ⟨ts, broken, c₁, c₂, rfl, hblanks, hts⟩, rfl⟩
  · rintro ⟨_, ⟨ts, broken, c₁, c₂, rfl, hblanks, hts⟩, hvalue⟩
    obtain rfl := Value.sequence.inj hvalue
    have hread := hts.reads forced
    simp only [Part.phrase, Bool.not_false, Bool.and_true] at hread
    exact ⟨broken, c₁, c₂, hblanks, hread⟩

end Cursor

namespace Task

open Evaluation

variable {task : Task} {forced : Bool} {v : Value} {t : Term}

private theorem map_eq_ok {α β : Type} {f : α → β} {r : Except Error α} {b : β} :
    r.map f = .ok b ↔ ∃ a, r = .ok a ∧ f a = b := by
  cases r <;> simp [Except.map]

/-- How the top level of the task is read. -/
def mode : Task → Mode
  | text _ mode _ => mode
  | fragment _ _ => .expression

/-- The term that the window of the task means. -/
def Means (task : Task) (t : Term) : Prop :=
  task.window.Means t task.mode

/-- The value of a task without an environment is the value of the term it means. -/
theorem evaluate_eq_ok_iff_means :
    ((task.withForced forced).evaluate .unresolving ()).1 = .ok v ↔
      ∃ t, task.Means t ∧ t.value forced = v := by
  cases task with
  | text source mode forced' =>
    cases mode with
    | expression => exact Source.evaluate_eq_ok.trans Cursor.readsAsValue_iff
    | hash =>
      refine map_eq_ok.trans ⟨?_, ?_⟩
      · rintro ⟨h, hrun, rfl⟩
        exact Cursor.readsAsHash_iff.1 (Source.evaluateHash_eq_ok.1 hrun)
      · rintro ⟨t, ht, rfl⟩
        have hform := ht
        obtain ⟨es, _, _, _, rfl, -⟩ := hform
        exact ⟨_, Source.evaluateHash_eq_ok.2 (Cursor.readsAsHash_iff.2 ⟨_, ht, rfl⟩), rfl⟩
    | sequence =>
      refine map_eq_ok.trans ⟨?_, ?_⟩
      · rintro ⟨vs, hrun, rfl⟩
        exact Cursor.readsAsSequence_iff.1 (Source.evaluateSequence_eq_ok.1 hrun)
      · rintro ⟨t, ht, rfl⟩
        have hform := ht
        obtain ⟨ts, _, _, _, rfl, -⟩ := hform
        exact ⟨_, Source.evaluateSequence_eq_ok.2 (Cursor.readsAsSequence_iff.2 ⟨_, ht, rfl⟩), rfl⟩
  | fragment f forced' =>
    exact (single_eq_ok Environment.unresolving_isSilent Environment.unresolving_resolvesWithin
      Environment.unresolving_resolves).trans Cursor.readsAsValue_iff

/-- A forced value has strings at all its leaves, but true for keys that were given without a value,
exactly if each loose token in it means itself. -/
theorem forced_leaves_are_strings_iff
    (h : ((task.withForced true).evaluate .unresolving ()).1 = .ok v) :
    ∃ t, task.Means t ∧ (∀ u, task.Means u → u = t) ∧ t.value true = v ∧
      (∀ w : Value, w.IsLeafOf v ↔ ∃ leaf : Term, leaf.IsLeafOf t ∧ leaf.value true = w) ∧
      (t.HasStringLeaves ↔ ∀ l, (Term.token true l).IsLeafOf t →
        Token.classify l = .string (String.ofList l)) := by
  obtain ⟨t, ht, rfl⟩ := evaluate_eq_ok_iff_means.1 h
  exact ⟨t, ht, fun u hu => Cursor.Means.unique hu ht, rfl, fun w => Term.isLeafOf_value_iff,
    t.hasStringLeaves_iff⟩

/-- In the hash that is taken over, the token stays a string for what it is; the other one is
forced. -/
theorem forced_leaves_of_plain_merge :
    ∃ t, (Task.text ⟨"{{a: x, b}, c: 1}", none⟩ .expression true).Means t ∧
      (∀ u, (Task.text ⟨"{{a: x, b}, c: 1}", none⟩ .expression true).Means u → u = t) ∧
      t.value true = .hash [("a", .string "x"), ("b", .boolean true), ("c", .string "1")] ∧
      (∀ w : Value, w.IsLeafOf
          (.hash [("a", .string "x"), ("b", .boolean true), ("c", .string "1")]) ↔
        ∃ leaf : Term, leaf.IsLeafOf t ∧ leaf.value true = w) ∧
      (t.HasStringLeaves ↔ ∀ l, (Term.token true l).IsLeafOf t →
        Token.classify l = .string (String.ofList l)) := by
  have h : (((Task.text ⟨"{{a: x, b}, c: 1}", none⟩ .expression true).withForced true).evaluate
      .unresolving ()).1 =
        .ok (.hash [("a", .string "x"), ("b", .boolean true), ("c", .string "1")]) := by
    with_unfolding_all rfl
  exact forced_leaves_are_strings_iff h

/-- Forcing does not reach the number in a hash that is taken over. -/
theorem forced_merge_keeps_number :
    ((Task.text ⟨"{{a: 1}}", none⟩ .expression true).evaluate .unresolving ()).1 =
      .ok (.hash [("a", .integer 1)]) := by
  with_unfolding_all rfl

end Task
end TextualData
