import TextualData.Proofs.Progress
import TextualData.Proofs.SkippedLiterals

/-!
# Outlines of texts

An `Outline` is what is left of a reading when its values are forgotten: where the expressions,
items and entries begin and end. It keeps one thing in addition, the first value that is not skipped
as it is read. That is a raw literal directly after the colon of a token: skipping takes the key,
the colon and the letter of the literal for one token, and what follows for a quoted literal, in
which a backslash may take the closing quotation with it.
-/

namespace TextualData

/-- A value that is taken for a quoted literal. -/
structure Misread where
  /-- The quotation at which the literal is taken up. -/
  place : Cursor
  /-- The closing brackets of the listings around it, innermost first. -/
  closings : List Char

/-- The misread value inside one more listing. -/
def Misread.inside (closing : Char) (m : Misread) : Misread :=
  { m with closings := m.closings ++ [closing] }

/-- The value of the entry that begins at a place, if it is misread. -/
def Cursor.misreadValue? (c : Cursor) : Option Misread :=
  match Literal.rawQuotation? c.rest, Token.split true c.rest with
  | none, (x :: key, ':' :: value) =>
    match Literal.rawQuotation? value with
    | some quotation =>
      match Literal.rawBody? quotation (value.drop 2) with
      | some (l, _) =>
        if Literal.endsInEscape l then some ⟨c.pass (x :: key ++ [':', 'r']) (value.drop 1), []⟩
        else none
      | none => none
    | none => none
  | _, _ => none

/-- The kinds of phrases. -/
inductive Shape where
  /-- An expression, possibly in the place of a key. -/
  | expression (inKey : Bool)
  | items (closing : Option Char)
  | entries (closing : Option Char)

/-- The kind of a phrase. -/
def Phrase.shape : Phrase → Shape
  | value _ inKey _ => .expression inKey
  | items closing _ _ => .items closing
  | entries closing _ _ _ => .entries closing

/-- The phrase between two places of a window, with its first misread value. -/
inductive Outline : Shape → Cursor → Cursor → Option Misread → Prop where
  | hash {inKey broken : Bool} {c c₁ c₂ : Cursor} {m : Option Misread} (opens : c.peek? = some '{')
      (blanks : Scan.blanks c.next = .ok broken c₁)
      (inner : Outline (.entries (some '}')) c₁ c₂ m) :
      Outline (.expression inKey) c c₂.next (m.map (·.inside '}'))
  | sequence {inKey broken : Bool} {c c₁ c₂ : Cursor} {m : Option Misread}
      (opens : c.peek? = some '[') (blanks : Scan.blanks c.next = .ok broken c₁)
      (inner : Outline (.items (some ']')) c₁ c₂ m) :
      Outline (.expression inKey) c c₂.next (m.map (·.inside ']'))
  | quoted {inKey : Bool} {quotation : Char} {l : List Char} {c c₁ : Cursor}
      (opens : c.peek? = some quotation) (isQuotation : Literal.isQuotation quotation)
      (literal : Scan.quoted quotation c = .ok l c₁) : Outline (.expression inKey) c c₁ none
  | raw {inKey : Bool} {quotation : Char} {l : List Char} {c c₁ : Cursor}
      (opens : Literal.rawQuotation? c.rest = some quotation)
      (literal : Scan.raw quotation c = .ok l c₁) : Outline (.expression inKey) c c₁ none
  | token {inKey broken : Bool} {l rest : List Char} {c c₁ : Cursor}
      (noRaw : Literal.rawQuotation? c.rest = none) (split : Token.split inKey c.rest = (l, rest))
      (nonempty : l ≠ []) (blanks : Scan.blanks (c.pass l rest) = .ok broken c₁)
      (noCall : c₁.peek? ≠ some '(') : Outline (.expression inKey) c (c.pass l rest) none
  | call {inKey broken broken' : Bool} {l rest : List Char} {c c₁ c₂ c₃ : Cursor}
      {m : Option Misread} (noRaw : Literal.rawQuotation? c.rest = none)
      (split : Token.split inKey c.rest = (l, rest)) (nonempty : l ≠ [])
      (blanks : Scan.blanks (c.pass l rest) = .ok broken c₁) (opens : c₁.peek? = some '(')
      (blanks' : Scan.blanks c₁.next = .ok broken' c₂)
      (inner : Outline (.items (some ')')) c₂ c₃ m) :
      Outline (.expression inKey) c c₃.next (m.map (·.inside ')'))
  | noItems {closing : Option Char} {c : Cursor} (closes : c.peek? = closing) :
      Outline (.items closing) c c none
  | item {closing : Option Char} {separator : Separator} {c c₁ c₂ c₃ : Cursor}
      {m m' : Option Misread} (begins : c.BeginsItem closing)
      (first : Outline (.expression false) c c₁ m)
      (separated : Scan.separator closing (some .inList) c₁ = .ok separator c₂)
      (more : Outline (.items closing) c₂ c₃ m') : Outline (.items closing) c c₃ (m.or m')
  | noEntries {closing : Option Char} {c : Cursor} (closes : c.peek? = closing) :
      Outline (.entries closing) c c none
  /-- A key with its value, and the entries after it. -/
  | pair {closing : Option Char} {separator : Separator} {c c₁ c₂ c₃ c₄ c₅ : Cursor}
      {m m' m'' : Option Misread} (begins : c.BeginsItem closing)
      (first : Outline (.expression true) c c₁ m)
      (colon : Scan.separator closing none c₁ = .ok .colon c₂)
      (second : Outline (.expression false) c₂ c₃ m')
      (separated : Scan.separator closing (some .valueGiven) c₃ = .ok separator c₄)
      (more : Outline (.entries closing) c₄ c₅ m'') :
      Outline (.entries closing) c c₅ (m.or (c.misreadValue?.or (m'.or m'')))
  /-- A key or a hash on its own, and the entries after it. -/
  | bare {closing : Option Char} {separator : Separator} {c c₁ c₂ c₃ : Cursor}
      {m m' : Option Misread} (begins : c.BeginsItem closing)
      (first : Outline (.expression true) c c₁ m)
      (separated : Scan.separator closing none c₁ = .ok separator c₂) (noColon : separator ≠ .colon)
      (more : Outline (.entries closing) c₂ c₃ m') : Outline (.entries closing) c c₃ (m.or m')

/-- Whatever is read has an outline. -/
theorem Reads.exists_outline {resolves : FunctionCall → Value → Prop} {phrase : Phrase}
    {c c' : Cursor} (h : Reads resolves phrase c c') : ∃ m, Outline phrase.shape c c' m := by
  induction h with
  | hash opens blanks _ ih =>
    obtain ⟨m, ih⟩ := ih
    exact ⟨_, .hash opens blanks ih⟩
  | sequence opens blanks _ ih =>
    obtain ⟨m, ih⟩ := ih
    exact ⟨_, .sequence opens blanks ih⟩
  | quoted opens isQuotation literal => exact ⟨_, .quoted opens isQuotation literal⟩
  | raw opens literal => exact ⟨_, .raw opens literal⟩
  | token noRaw split nonempty blanks noCall =>
    exact ⟨_, .token noRaw split nonempty blanks noCall⟩
  | call noRaw split nonempty blanks opens blanks' _ _ ih
  | keyCall noRaw split nonempty blanks opens blanks' _ ih =>
    obtain ⟨m, ih⟩ := ih
    exact ⟨_, .call noRaw split nonempty blanks opens blanks' ih⟩
  | noItems closes => exact ⟨_, .noItems closes⟩
  | item begins _ separated _ ih ih' =>
    obtain ⟨m, ih⟩ := ih
    obtain ⟨m', ih'⟩ := ih'
    exact ⟨_, .item begins ih separated ih'⟩
  | noEntries closes => exact ⟨_, .noEntries closes⟩
  | pair begins _ _ colon _ _ separated _ ih ih' ih'' =>
    obtain ⟨m, ih⟩ := ih
    obtain ⟨m', ih'⟩ := ih'
    obtain ⟨m'', ih''⟩ := ih''
    exact ⟨_, .pair begins ih colon ih' separated ih''⟩
  | flag begins _ separated noColon _ ih ih' | merge begins _ _ separated noColon _ ih ih' =>
    obtain ⟨m, ih⟩ := ih
    obtain ⟨m', ih'⟩ := ih'
    exact ⟨_, .bare begins ih separated noColon ih'⟩

end TextualData
