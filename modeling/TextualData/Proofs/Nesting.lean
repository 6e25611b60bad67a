import TextualData.Proofs.Rounds

/-!
# How deep expressions nest

An evaluation is carried out by functions that invoke each other, and by functions that pass over
what the environment has asked to keep or to leave out. `Activates` says which of these activities
leads to which, and `Nests` counts the expressions around an activity. Each expression that another
one stands in takes a character for itself before it comes to that one, its opening bracket or its
first token, so there are not more of them than bytes in the window.
-/

namespace TextualData

theorem Text.byteSize_pos {l : List Char} (h : l ≠ []) : 0 < byteSize l := by
  obtain ⟨x, m, rfl⟩ := List.exists_cons_of_ne_nil h
  have hx := x.utf8Size_pos
  rw [byteSize_cons]
  omega

namespace Cursor

variable {c d : Cursor}

theorem rest_ne_nil_of_peek? {x : Char} (h : c.peek? = some x) : c.rest ≠ [] := by
  obtain ⟨rest, hrest⟩ := rest_of_peek? h
  simp [hrest]

theorem position_lt_next (h : c.rest ≠ []) : c.position < c.next.position := by
  obtain ⟨x, rest, hrest⟩ := List.exists_cons_of_ne_nil h
  exact (precedes_next (x := x) (by simp [peek?, hrest])).position_lt

theorem Leads.byteSize_rest_le (h : c.Leads d) :
    Text.byteSize d.rest ≤ Text.byteSize c.rest := by
  obtain ⟨l, hrest, -⟩ := h
  rw [hrest, Text.byteSize_append]
  exact Nat.le_add_left _ _

end Cursor

namespace Evaluation

variable {σ : Type}

/-- A function at work: on the evaluation of a part of the text, or on passing over it. -/
inductive Activity (σ : Type) where
  | evaluating (invocation : Invocation) (s : State σ)
  | passing (invocation : Extent.Invocation) (c : Cursor)

namespace Activity

/-- The place where the activity begins. -/
def cursor : Activity σ → Cursor
  | evaluating _ s => s.cursor
  | passing _ c => c

/-- Whether the activity deals with a whole expression. -/
def isExpression : Activity σ → Bool
  | evaluating (.expression ..) _ | passing (.expression _) _ => true
  | _ => false

/-- Whether the activity passes over the text, without evaluation. -/
def isPassing : Activity σ → Bool
  | evaluating .. => false
  | passing .. => true

/-- Whether the activity takes a character of the expression around it: it is for the part of the
expression that begins with the bracket or the token at the place. -/
def takesOpening : Activity σ → Bool
  | evaluating (.hash ..) _ | evaluating (.sequence ..) _ | evaluating (.unquoted ..) _
  | passing (.bracketed ..) _ => true
  | _ => false

end Activity

/-- One activity leads to another. -/
inductive Activates (setting : Setting σ) : Activity σ → Activity σ → Prop where
  | evaluating {invocation invocation' : Invocation} {s t : State σ}
      (h : Invokes setting invocation s invocation' t) :
      Activates setting (.evaluating invocation s) (.evaluating invocation' t)
  | passing {invocation invocation' : Extent.Invocation} {c d : Cursor}
      (h : Extent.Invokes invocation c invocation' d) :
      Activates setting (.passing invocation c) (.passing invocation' d)
  /-- A hash is kept: it is passed over from its opening brace. -/
  | keptHash {n : Nat} {forced : Bool} {response : Response} {s t : State σ}
      (entered : notify setting (.enter .hash) s.cursor.next.position
        ⟨s.cursor.next, [] :: s.openHashes, s.inner⟩ = .ok (some response) t) :
      Activates setting (.evaluating (.hash (n + 1) forced) s)
        (.passing (.expression (3 * s.cursor.rest.length + 3)) s.cursor)
  /-- The value of a key is kept or left out. -/
  | keptValue {n start : Nat} {name : String} {forced : Bool} {response : Response} {s t : State σ}
      (hasValue : s.cursor.rest ≠ [])
      (entered : notify setting (.enter (.key name)) start s = .ok (some response) t) :
      Activates setting (.evaluating (.keyValue (n + 1) name start forced) s)
        (.passing (.expression (3 * t.cursor.rest.length + 3)) t.cursor)

/-- One activity is carried out within another, with so many expressions around it from there. -/
inductive Nests (setting : Setting σ) (a : Activity σ) : (depth : Nat) → Activity σ → Prop where
  | refl : Nests setting a 0 a
  | step {depth : Nat} {b c : Activity σ} (h : Nests setting a depth b)
      (next : Activates setting b c) : Nests setting a (depth + b.isExpression.toNat) c

namespace Activity

/-- The text goes on at the place, where the activity begins with a character there. -/
def HasText : Activity σ → Prop
  | evaluating (.itemsUpTo ..) _ | evaluating (.items ..) _ | evaluating (.entriesUpTo ..) _
  | evaluating (.entries ..) _ | evaluating (.keyValue ..) _ | passing (.items ..) _ => True
  | a => a.cursor.rest ≠ []

/-- What an activity has ahead of the characters before it: the opening that it takes, and one more
for a hash that is passed over, whose opening brace was read before. -/
def ahead (a : Activity σ) : Nat :=
  a.takesOpening.toNat + a.isPassing.toNat

variable {a : Activity σ}

theorem HasText.rest_ne_nil (h : a.HasText) (ha : a.isExpression) : a.cursor.rest ≠ [] := by
  cases a with
  | evaluating invocation s =>
    cases invocation with
    | expression => exact h
    | _ => cases ha
  | passing invocation c =>
    cases invocation with
    | expression => exact h
    | _ => cases ha

theorem ahead_of_isExpression (ha : a.isExpression) : a.ahead = a.isPassing.toNat := by
  cases a with
  | evaluating invocation s =>
    cases invocation with
    | expression => rfl
    | _ => cases ha
  | passing invocation c =>
    cases invocation with
    | expression => rfl
    | _ => cases ha

end Activity

section
variable {setting : Setting σ} {a b c : Activity σ} {depth : Nat}

namespace Activates

theorem leads (h : Activates setting a b) : a.cursor.Leads b.cursor := by
  cases h with
  | evaluating h => exact h.leads
  | passing h => exact h.leads
  | keptHash => exact .refl _
  | @keptValue _ _ _ _ _ s t _ entered =>
    show s.cursor.Leads t.cursor
    rw [cursor_of_notify entered]
    exact .refl _

theorem hasText (h : Activates setting a b) (ha : a.HasText) : b.HasText := by
  cases h with
  | @evaluating _ _ s t h =>
    cases h with
    | hash | sequence | unquoted | key => exact ha
    | inHash | inSequence | inCall | items | moreItems | entries | moreEntries | keyValue =>
      exact trivial
    | item begins | entry begins =>
      obtain ⟨x, next, -⟩ := begins
      exact Cursor.rest_ne_nil_of_peek? next
    | value hasValue entered =>
      show t.cursor.rest ≠ []
      rwa [cursor_of_notify entered]
  | passing h =>
    cases h with
    | listing next | item next => exact Cursor.rest_ne_nil_of_peek? next
    | params _ _ _ _ _ _ _ opens => exact Cursor.rest_ne_nil_of_peek? opens
    | items | afterMark | afterItem => exact trivial
  | keptHash => exact ha
  | @keptValue _ _ _ _ _ s t hasValue entered =>
    show t.cursor.rest ≠ []
    rwa [cursor_of_notify entered]

/-- From an activity to the next, the place moves on by an opening for each expression. -/
theorem position_le (h : Activates setting a b) (ha : a.HasText) :
    a.cursor.position + a.isExpression.toNat + a.ahead ≤ b.cursor.position + b.ahead := by
  have hle := h.leads.position_le
  cases h with
  | @evaluating _ _ s t h =>
    cases h with
    | hash | sequence | unquoted => exact Nat.le_refl _
    | inHash entered =>
      show s.cursor.position + 1 ≤ t.cursor.position
      rw [cursor_of_notify entered]
      exact Cursor.position_lt_next ha
    | inSequence entered =>
      show s.cursor.position + 1 ≤ t.cursor.position
      rw [cursor_of_notify entered]
      exact Cursor.position_lt_next ha
    | inCall token _ blanks opens entered =>
      show s.cursor.position + 1 ≤ t.cursor.position
      obtain ⟨_, htoken, rfl⟩ := scan_eq_ok.1 token
      obtain ⟨_, hblanks, rfl⟩ := scan_eq_ok.1 blanks
      obtain ⟨rest, hsplit, rfl⟩ := Scan.token_eq_ok.1 htoken
      rw [cursor_of_notify entered]
      have htoken := (Token.leads_pass hsplit).position_le
      have hblanks := (Scan.leads_of_blanks hblanks).position_le
      have hnext := Cursor.position_lt_next (Cursor.rest_ne_nil_of_peek? opens)
      exact Nat.le_trans (Nat.succ_le_succ (Nat.le_trans htoken hblanks)) hnext
    | items | item | moreItems | entries | entry | moreEntries | key | keyValue | value => exact hle
  | @passing _ _ c d h =>
    cases h with
    | listing => exact Nat.le_refl _
    | params => exact Nat.add_le_add_right hle 2
    | items blanks =>
      show c.position + 2 ≤ d.position + 1
      have hnext := Cursor.position_lt_next ha
      have hblanks := (Scan.leads_of_blanks blanks).position_le
      exact Nat.succ_le_succ (Nat.le_trans hnext hblanks)
    | item | afterMark | afterItem => exact Nat.add_le_add_right hle 1
  | keptHash => exact Nat.le_refl _
  | keptValue => exact Nat.le_succ_of_le hle

/-- Passing over is all that comes of passing over. -/
theorem isPassing (h : Activates setting a b) (ha : a.isPassing) : b.isPassing := by
  cases h with
  | evaluating => exact ha
  | passing | keptHash | keptValue => rfl

end Activates

namespace Nests

theorem leads (h : Nests setting a depth b) : a.cursor.Leads b.cursor := by
  induction h with
  | refl => exact .refl _
  | step _ next ih => exact ih.trans next.leads

theorem hasText (h : Nests setting a depth b) (ha : a.HasText) : b.HasText := by
  induction h with
  | refl => exact ha
  | step _ next ih => exact next.hasText ih

/-- The place has moved on by an opening for each of the expressions around. -/
theorem position_le (h : Nests setting a depth b) (ha : a.HasText) :
    a.cursor.position + depth + a.ahead ≤ b.cursor.position + b.ahead := by
  induction h with
  | refl => exact Nat.le_refl _
  | step h next ih =>
    have hstep := next.position_le (h.hasText ha)
    omega

/-- Passing over is all that comes of a hash that is kept. -/
theorem isPassing_of_kept {n : Nat} {forced : Bool} {response : Response} {s t : State σ}
    (entered : notify setting (.enter .hash) s.cursor.next.position
      ⟨s.cursor.next, [] :: s.openHashes, s.inner⟩ = .ok (some response) t)
    (h : Nests setting (.evaluating (.hash (n + 1) forced) s) depth b) :
    b = .evaluating (.hash (n + 1) forced) s ∨ b.isPassing := by
  induction h with
  | refl => exact .inl rfl
  | step h next ih =>
    obtain rfl | hb := ih
    · cases next with
      | evaluating h =>
        cases h with
        | inHash entered' =>
          rw [entered] at entered'
          cases entered'
      | keptHash => exact .inr rfl
    · exact .inr (next.isPassing hb)

/-- There are not more expressions around an expression than bytes in the window, and fewer if it is
evaluated. -/
theorem depth_le (h : Nests setting a depth b) (ha : a.HasText) (hb : b.isExpression) :
    depth ≤ Text.byteSize a.cursor.rest ∧ (¬b.isPassing → depth < Text.byteSize a.cursor.rest) := by
  have hle := h.position_le ha
  have hstop := h.leads.stop_eq
  have htext := Text.byteSize_pos ((h.hasText ha).rest_ne_nil hb)
  simp only [Cursor.stop] at hstop
  cases hpassing : b.isPassing with
  | false =>
    have hahead := Activity.ahead_of_isExpression hb
    rw [hpassing, Bool.toNat_false] at hahead
    exact ⟨by omega, fun _ => by omega⟩
  | true =>
    have hahead := Activity.ahead_of_isExpression hb
    rw [hpassing, Bool.toNat_true] at hahead
    exact ⟨by omega, fun h => absurd rfl h⟩

end Nests
end
end Evaluation
end TextualData
