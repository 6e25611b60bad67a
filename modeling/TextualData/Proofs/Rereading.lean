import TextualData.Proofs.EvaluatedValues
import TextualData.Proofs.FirstCharacters
import TextualData.Proofs.NumeralText
import TextualData.Proofs.QuotedText
import TextualData.Value.Dump

/-!
# What a dump is read as

`Value.reread` is the value that the dump of an evaluated value denotes, if it denotes one. It is
the value itself, except in two places: a call that begins a line with a number sign is a comment,
and a call that begins a line with a plus sign or a colon is refused after another item.
-/

namespace TextualData
namespace Value

/-- The first character of the name of a call. -/
def callSign? : Value → Option Char
  | .call name _ => name.toList.head?
  | _ => none

/-- Whether the value is taken for a comment at the beginning of a line. -/
def opensComment (v : Value) : Bool :=
  v.callSign? == some '#'

/-- Whether the value is refused after another item that only a line break separates from it. -/
def joins (v : Value) : Bool :=
  v.callSign? == some '+' || v.callSign? == some ':'

mutual

/-- What a value over several lines is read as. -/
def reread : Value → Option Value
  | .sequence items => (rereadItems false items).map .sequence
  | .hash entries => (rereadEntries entries).map .hash
  | v => some v

/-- What values on lines of their own are read as, after another item or not. -/
def rereadItems (follows : Bool) : List Value → Option (List Value)
  | [] => some []
  | v :: vs =>
    if v.opensComment then rereadItems follows vs
    else if follows && v.joins then none
    else
      match reread v, rereadItems true vs with
      | some w, some ws => some (w :: ws)
      | _, _ => none

/-- What entries on lines of their own are read as. -/
def rereadEntries : List (String × Value) → Option (List (String × Value))
  | [] => some []
  | (k, v) :: es =>
    match reread v, rereadEntries es with
    | some w, some fs => some ((k, w) :: fs)
    | _, _ => none

end

section
variable {items : List Value} {entries : Hash} {v w : Value} {vs us : List Value} {es fs : Hash}
  {k : String} {follows : Bool}

theorem reread_sequence_eq_some : reread (.sequence items) = some w ↔
    ∃ ws, rereadItems false items = some ws ∧ .sequence ws = w := by
  rw [reread, Option.map_eq_some_iff]

theorem reread_hash_eq_some : reread (.hash entries) = some w ↔
    ∃ fs, rereadEntries entries = some fs ∧ .hash fs = w := by
  rw [reread, Option.map_eq_some_iff]

/-- A call with a number sign is left out. -/
theorem rereadItems_of_opensComment (h : v.opensComment) :
    rereadItems follows (v :: vs) = rereadItems follows vs := by
  rw [rereadItems, if_pos h]

theorem rereadItems_cons_eq_some (hcomment : v.opensComment = false) :
    rereadItems follows (v :: vs) = some us ↔ (follows = true → v.joins = false) ∧
      ∃ w ws, reread v = some w ∧ rereadItems true vs = some ws ∧ w :: ws = us := by
  rw [rereadItems, hcomment, if_neg (by simp)]
  by_cases hjoins : (follows && v.joins) = true
  · rw [if_pos hjoins]
    rw [Bool.and_eq_true] at hjoins
    simp [hjoins]
  · rw [if_neg hjoins]
    have hjoins : follows = true → v.joins = false := by simpa using hjoins
    rw [iff_true_intro hjoins, true_and]
    cases reread v <;> cases rereadItems true vs <;> simp

theorem rereadEntries_cons_eq_some : rereadEntries ((k, v) :: es) = some fs ↔
    ∃ w gs, reread v = some w ∧ rereadEntries es = some gs ∧ (k, w) :: gs = fs := by
  rw [rereadEntries]
  cases reread v <;> cases rereadEntries es <;> simp

end

/-- What the first character of a value tells about it. Only calls begin with a sign that means
something at the beginning of a line. -/
structure BeginsWith (v : Value) (x : Char) : Prop where
  mayBegin : MayBegin x
  /-- It belongs to the name of a call, or is no sign. -/
  sign : v.callSign? = some x ∨ v.callSign? = none ∧ x ≠ '#' ∧ x ≠ '+' ∧ x ≠ ':'

section
variable {v : Value} {x : Char}

theorem BeginsWith.opensComment_iff (h : v.BeginsWith x) : v.opensComment = true ↔ x = '#' := by
  rw [opensComment]
  rcases h.sign with hsign | ⟨hsign, hcomment, _⟩ <;> simp [*]

theorem BeginsWith.joins_iff (h : v.BeginsWith x) : v.joins = true ↔ x = '+' ∨ x = ':' := by
  rw [joins]
  rcases h.sign with hsign | ⟨hsign, _, hplus, hcolon⟩ <;> simp [*]

end

/-- A digit or a minus sign. -/
theorem mayBegin_of_numeral {x : Char} (h : x.isDigit ∨ x = '-') : MayBegin x := by
  refine mayBegin_of_starts ?_
  rw [Token.starts, Bool.or_eq_true]
  rcases h with h | rfl
  · exact .inr (Token.continues_of_isDigit h)
  · exact .inr (by decide)

/-- The first character of a value on a single line. -/
theorem exists_inline {v : Value} (h : v.IsEvaluated) {l : List Char} (hl : v.inline? = some l) :
    ∃ x m, l = x :: m ∧ v.BeginsWith x := by
  have hnumeral : ∀ x : Char, x.isDigit ∨ x = '-' → x ≠ '#' ∧ x ≠ '+' ∧ x ≠ ':' := by
    intro x hx
    refine ⟨?_, ?_, ?_⟩ <;>
    · rintro rfl
      exact absurd hx (by decide)
  cases h with
  | string s =>
    obtain rfl := Option.some.inj ((inline?_string s).symm.trans hl)
    have hx : MayBegin Text.quotationMark := ⟨by decide, by decide⟩
    exact ⟨_, _, Text.toList_quote s, hx, .inr ⟨rfl, by decide, by decide, by decide⟩⟩
  | integer n =>
    obtain rfl := Option.some.inj ((inline?_integer n).symm.trans hl)
    obtain ⟨x, m, hm⟩ := List.exists_cons_of_ne_nil (Numeral.ofInt_ne_nil n.toInt)
    have hx := Numeral.mem_ofInt (n := n.toInt) (x := x) (by simp [hm])
    exact ⟨x, m, hm, mayBegin_of_numeral hx, .inr ⟨rfl, hnumeral x hx⟩⟩
  | decimal d =>
    obtain ⟨x, m, rfl, hx, _⟩ := Token.exists_literal hl
    exact ⟨x, m, rfl, mayBegin_of_numeral hx, .inr ⟨rfl, hnumeral x hx⟩⟩
  | boolean b =>
    obtain rfl := Option.some.inj ((inline?_boolean b).symm.trans hl)
    cases b
    · exact ⟨'f', _, rfl, ⟨by decide, by decide⟩, .inr ⟨rfl, by decide, by decide, by decide⟩⟩
    · exact ⟨'t', _, rfl, ⟨by decide, by decide⟩, .inr ⟨rfl, by decide, by decide, by decide⟩⟩
  | sequence =>
    obtain ⟨m, _, rfl⟩ := inline?_sequence_eq_some.1 hl
    exact ⟨'[', _, rfl, ⟨by decide, by decide⟩, .inr ⟨rfl, by decide, by decide, by decide⟩⟩
  | hash =>
    obtain ⟨m, _, rfl⟩ := inline?_hash_eq_some.1 hl
    exact ⟨'{', _, rfl, ⟨by decide, by decide⟩, .inr ⟨rfl, by decide, by decide, by decide⟩⟩
  | call isName =>
    obtain ⟨m, _, rfl⟩ := inline?_call_eq_some.1 hl
    obtain ⟨x, name, hname, hx, _⟩ := isName
    exact ⟨x, _, by rw [hname]; rfl, mayBegin_of_starts hx, .inl (by simp [callSign?, hname])⟩

/-- The first character of a value over several lines. -/
theorem exists_block {v : Value} (h : v.IsEvaluated) {indent l : List Char}
    (hl : v.block? indent = some l) : ∃ x m, l = x :: m ∧ v.BeginsWith x := by
  cases v with
  | sequence =>
    obtain ⟨m, _, rfl⟩ := block?_sequence_eq_some.1 hl
    exact ⟨'[', _, rfl, ⟨by decide, by decide⟩, .inr ⟨rfl, by decide, by decide, by decide⟩⟩
  | hash =>
    obtain ⟨m, _, rfl⟩ := block?_hash_eq_some.1 hl
    exact ⟨'{', _, rfl, ⟨by decide, by decide⟩, .inr ⟨rfl, by decide, by decide, by decide⟩⟩
  | _ =>
    rw [block?] at hl
    · exact exists_inline h hl
    all_goals simp

end Value
end TextualData
