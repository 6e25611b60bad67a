import TextualData.Proofs.Runs

/-!
# Reading

`Reads` is the notation as a relation, with neither a bound nor a state of the environment: between
two places of a window stands a phrase, which is an expression with its value, the rest of the
items of a sequence, or the rest of the entries of a hash with the hash before and after them. What
calls give is a parameter. An evaluation that tells its environment in vain follows this relation,
and the relation leads to nothing else.
-/

namespace TextualData

/-- A phrase of the notation with what it denotes. -/
inductive Phrase where
  /-- An expression, possibly in the place of a key. -/
  | value (forced inKey : Bool) (v : Value)
  /-- The items that are left up to the closing bracket or the end of the window. -/
  | items (closing : Option Char) (forced : Bool) (vs : List Value)
  /-- The entries that are left, and how they change the hash. -/
  | entries (closing : Option Char) (forced : Bool) (old new : Hash)

/-- The key that an expression stands for, and whether a call gave it. -/
inductive KeyMeans (resolves : FunctionCall → Value → Prop) : Value → Value → Bool → Prop where
  | call {name : String} {params : List Value} {v : Value} (h : resolves ⟨name, params⟩ v) :
      KeyMeans resolves (.call name params) v true
  /-- Anything but a call stands for itself. -/
  | plain {v : Value} (h : ∀ name params, v ≠ .call name params) : KeyMeans resolves v v false

/-- A key that no call gave stands for itself. -/
theorem KeyMeans.eq_of_plain {resolves : FunctionCall → Value → Prop} {key v : Value}
    (h : KeyMeans resolves key v false) : key = v := by
  cases h
  rfl

/-- The value of a token that is no call. -/
def tokenValue (forced inKey : Bool) (token : List Char) : Value :=
  if forced || inKey then .string (String.ofList token) else Token.classify token

/-- Whether an item or an entry may begin with a character: neither the closing bracket nor a
comma does. -/
def Cursor.BeginsItem (c : Cursor) (closing : Option Char) : Prop :=
  ∃ x, c.peek? = some x ∧ closing ≠ some x ∧ x ≠ ','

/-- Nothing begins at the closing bracket. -/
theorem Cursor.BeginsItem.peek?_ne {c : Cursor} {closing : Option Char}
    (h : c.BeginsItem closing) : c.peek? ≠ closing := by
  obtain ⟨x, hx, hne, _⟩ := h
  exact fun hc => hne (hc.symm.trans hx)

/-- The phrase stands between two places of a window, where calls give what `resolves` says. -/
inductive Reads (resolves : FunctionCall → Value → Prop) : Phrase → Cursor → Cursor → Prop where
  | hash {forced inKey : Bool} {h : Hash} {broken : Bool} {c c₁ c₂ : Cursor}
      (opens : c.peek? = some '{') (blanks : Scan.blanks c.next = .ok broken c₁)
      (inner : Reads resolves (.entries (some '}') forced [] h) c₁ c₂) :
      Reads resolves (.value forced inKey (.hash h)) c c₂.next
  | sequence {forced inKey : Bool} {vs : List Value} {broken : Bool} {c c₁ c₂ : Cursor}
      (opens : c.peek? = some '[') (blanks : Scan.blanks c.next = .ok broken c₁)
      (inner : Reads resolves (.items (some ']') forced vs) c₁ c₂) :
      Reads resolves (.value forced inKey (.sequence vs)) c c₂.next
  | quoted {forced inKey : Bool} {quotation : Char} {l : List Char} {c c₁ : Cursor}
      (opens : c.peek? = some quotation) (isQuotation : Literal.isQuotation quotation)
      (literal : Scan.quoted quotation c = .ok l c₁) :
      Reads resolves (.value forced inKey (.string (String.ofList l))) c c₁
  | raw {forced inKey : Bool} {quotation : Char} {l : List Char} {c c₁ : Cursor}
      (opens : Literal.rawQuotation? c.rest = some quotation)
      (literal : Scan.raw quotation c = .ok l c₁) :
      Reads resolves (.value forced inKey (.string (String.ofList l))) c c₁
  | token {forced inKey : Bool} {l rest : List Char} {broken : Bool} {c c₁ : Cursor}
      (noRaw : Literal.rawQuotation? c.rest = none) (split : Token.split inKey c.rest = (l, rest))
      (nonempty : l ≠ []) (blanks : Scan.blanks (c.pass l rest) = .ok broken c₁)
      (noCall : c₁.peek? ≠ some '(') :
      Reads resolves (.value forced inKey (tokenValue forced inKey l)) c (c.pass l rest)
  | call {forced : Bool} {v : Value} {vs : List Value} {l rest : List Char} {broken broken' : Bool}
      {c c₁ c₂ c₃ : Cursor}
      (noRaw : Literal.rawQuotation? c.rest = none) (split : Token.split false c.rest = (l, rest))
      (nonempty : l ≠ []) (blanks : Scan.blanks (c.pass l rest) = .ok broken c₁)
      (opens : c₁.peek? = some '(') (blanks' : Scan.blanks c₁.next = .ok broken' c₂)
      (inner : Reads resolves (.items (some ')') forced vs) c₂ c₃)
      (result : resolves ⟨String.ofList l, vs⟩ v) :
      Reads resolves (.value forced false v) c c₃.next
  /-- A call in the place of a key, which is not resolved yet. -/
  | keyCall {forced : Bool} {vs : List Value} {l rest : List Char} {broken broken' : Bool}
      {c c₁ c₂ c₃ : Cursor}
      (noRaw : Literal.rawQuotation? c.rest = none) (split : Token.split true c.rest = (l, rest))
      (nonempty : l ≠ []) (blanks : Scan.blanks (c.pass l rest) = .ok broken c₁)
      (opens : c₁.peek? = some '(') (blanks' : Scan.blanks c₁.next = .ok broken' c₂)
      (inner : Reads resolves (.items (some ')') forced vs) c₂ c₃) :
      Reads resolves (.value forced true (.call (String.ofList l) vs)) c c₃.next
  | noItems {closing : Option Char} {forced : Bool} {c : Cursor} (closes : c.peek? = closing) :
      Reads resolves (.items closing forced []) c c
  | item {closing : Option Char} {forced : Bool} {v : Value} {vs : List Value}
      {separator : Separator} {c c₁ c₂ c₃ : Cursor} (begins : c.BeginsItem closing)
      (first : Reads resolves (.value forced false v) c c₁)
      (separated : Scan.separator closing (some .inList) c₁ = .ok separator c₂)
      (more : Reads resolves (.items closing forced vs) c₂ c₃) :
      Reads resolves (.items closing forced (v :: vs)) c c₃
  | noEntries {closing : Option Char} {forced : Bool} {h : Hash} {c : Cursor}
      (closes : c.peek? = closing) : Reads resolves (.entries closing forced h h) c c
  /-- A key with its value, and the entries after it. -/
  | pair {closing : Option Char} {forced fromCall : Bool} {old new : Hash} {key v : Value}
      {name : String} {separator : Separator} {c c₁ c₂ c₃ c₄ c₅ : Cursor}
      (begins : c.BeginsItem closing)
      (first : Reads resolves (.value false true key) c c₁)
      (means : KeyMeans resolves key (.string name) fromCall)
      (colon : Scan.separator closing none c₁ = .ok .colon c₂) (hasValue : c₂.rest ≠ [])
      (second : Reads resolves (.value forced false v) c₂ c₃)
      (separated : Scan.separator closing (some .valueGiven) c₃ = .ok separator c₄)
      (more : Reads resolves (.entries closing forced (old.insert name v) new) c₄ c₅) :
      Reads resolves (.entries closing forced old new) c c₅
  /-- A key on its own, and the entries after it. -/
  | flag {closing : Option Char} {forced : Bool} {old new : Hash} {name : String}
      {separator : Separator} {c c₁ c₂ c₃ : Cursor} (begins : c.BeginsItem closing)
      (first : Reads resolves (.value false true (.string name)) c c₁)
      (separated : Scan.separator closing none c₁ = .ok separator c₂) (noColon : separator ≠ .colon)
      (more :
        Reads resolves (.entries closing forced (old.insert name (.boolean true)) new) c₂ c₃) :
      Reads resolves (.entries closing forced old new) c c₃
  /-- A hash whose entries are taken over, and the entries after it. -/
  | merge {closing : Option Char} {forced fromCall : Bool} {old new entries : Hash} {key : Value}
      {separator : Separator} {c c₁ c₂ c₃ : Cursor} (begins : c.BeginsItem closing)
      (first : Reads resolves (.value false true key) c c₁)
      (means : KeyMeans resolves key (.hash entries) fromCall)
      (separated : Scan.separator closing none c₁ = .ok separator c₂) (noColon : separator ≠ .colon)
      (more : Reads resolves (.entries closing forced (old.merge entries) new) c₂ c₃) :
      Reads resolves (.entries closing forced old new) c c₃

namespace Reads

variable {resolves : FunctionCall → Value → Prop} {closing : Option Char} {forced : Bool}
  {c c' : Cursor}

/-- Items lead to the closing bracket or to the end of the window. -/
theorem items_end {vs : List Value} (h : Reads resolves (.items closing forced vs) c c') :
    c'.peek? = closing := by
  generalize hp : Phrase.items closing forced vs = phrase at h
  induction h generalizing vs with
  | noItems closes =>
    cases hp
    exact closes
  | item _ _ _ _ _ ih =>
    cases hp
    exact ih rfl
  | _ => cases hp

/-- Entries lead to the closing bracket or to the end of the window. -/
theorem entries_end {old new : Hash} (h : Reads resolves (.entries closing forced old new) c c') :
    c'.peek? = closing := by
  generalize hp : Phrase.entries closing forced old new = phrase at h
  induction h generalizing old with
  | noEntries closes =>
    cases hp
    exact closes
  | pair _ _ _ _ _ _ _ _ _ _ ih | flag _ _ _ _ _ _ ih | merge _ _ _ _ _ _ _ ih =>
    cases hp
    exact ih rfl
  | _ => cases hp

/-- At the closing bracket there are no more items. -/
theorem items_eq_nil {vs : List Value} (h : Reads resolves (.items closing forced vs) c c')
    (closes : c.peek? = closing) : vs = [] ∧ c' = c := by
  cases h with
  | noItems => exact ⟨rfl, rfl⟩
  | item begins => exact absurd closes begins.peek?_ne

/-- At the closing bracket there are no more entries. -/
theorem entries_eq {old new : Hash} (h : Reads resolves (.entries closing forced old new) c c')
    (closes : c.peek? = closing) : new = old ∧ c' = c := by
  cases h with
  | noEntries => exact ⟨rfl, rfl⟩
  | pair begins | flag begins | merge begins => exact absurd closes begins.peek?_ne

end Reads
end TextualData
