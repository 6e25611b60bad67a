import TextualData.Text.Quoted

/-!
# Pieces of templates

A template is text with tags in it: `{{ … }}` for output and `{% … %}` for statements.
`Template.pieces?` cuts a template into its text and its tags, and each tag into tokens.
-/

namespace TextualData
namespace Template

/-- A token of a tag. -/
inductive Token where
  | word (s : String)
  | number (n : Nat)
  /-- A text between quotation marks or apostrophes. -/
  | quoted (s : String)
  | mark (c : Char)
deriving DecidableEq, Repr

/-- A piece of a template. -/
inductive Piece where
  | text (l : List Char)
  | output (tokens : List Token)
  | statement (tokens : List Token)
deriving DecidableEq, Repr

/-- Whether blanks of this kind may stand between tokens. -/
def isTagBlank (c : Char) : Bool :=
  c == ' ' || c == '\t' || c == '\n' || c == '\r' || c == Text.formFeed

/-- Whether a word may start with the character. -/
def startsWord (c : Char) : Bool :=
  c.isAlpha || c == '_'

/-- Whether a word may go on with the character. -/
def continuesWord (c : Char) : Bool :=
  c.isAlphanum || c == '_'

/-- The punctuation marks. -/
def marks : List Char :=
  ['.', ',', '|', '[', ']', '-']

/-- The token at the start of a text that is not blank, and what follows it. -/
def token? : List Char → Option (Token × List Char)
  | [] => none
  | c :: l =>
    if startsWord c then
      some (.word (String.ofList (c :: l.takeWhile continuesWord)), l.dropWhile continuesWord)
    else if c.isDigit then
      some (.number (Nat.ofDigitChars 10 (c :: l.takeWhile Char.isDigit) 0),
        l.dropWhile Char.isDigit)
    else if c = Text.quotationMark ∨ c = Text.apostrophe then
      match l.dropWhile (· ≠ c) with
      | _ :: rest =>
        if (l.takeWhile (· ≠ c)).contains Text.backslash then none
        else some (.quoted (String.ofList (l.takeWhile (· ≠ c))), rest)
      | [] => none
    else if marks.contains c then some (.mark c, l)
    else none

theorem length_dropWhile_le (p : Char → Bool) (l : List Char) :
    (l.dropWhile p).length ≤ l.length :=
  (List.dropWhile_suffix p).length_le

theorem length_lt_of_token? {l rest : List Char} {t : Token} (h : token? l = some (t, rest)) :
    rest.length < l.length := by
  unfold token? at h
  split at h
  · cases h
  · rename_i c l
    have hw := length_dropWhile_le continuesWord l
    have hd := length_dropWhile_le Char.isDigit l
    have hq := length_dropWhile_le (· ≠ c) l
    simp only [List.length_cons]
    split at h
    · cases h; omega
    · split at h
      · cases h; omega
      · split at h
        · split at h
          · rename_i hrest
            split at h
            · cases h
            · cases h
              rw [hrest] at hq
              simp only [List.length_cons] at hq
              omega
          · cases h
        · split at h
          · cases h; omega
          · cases h

/-- What follows the end of a tag, if it stands here. The first character of the end is given, the
second is a closing brace. -/
def afterTag? (closing : Char) : List Char → Option (List Char)
  | c :: '}' :: l => if c = closing then some l else none
  | _ => none

theorem length_lt_of_afterTag? {closing : Char} {l rest : List Char}
    (h : afterTag? closing l = some rest) : rest.length < l.length := by
  unfold afterTag? at h
  split at h
  · split at h
    · cases h; simp only [List.length_cons]; omega
    · cases h
  · cases h

/-- The tokens up to the end of a tag, and what follows it. -/
def tokens? (closing : Char) (l : List Char) : Option (List Token × List Char) :=
  match afterTag? closing l with
  | some rest => some ([], rest)
  | none =>
    match l with
    | [] => none
    | c :: m =>
      if isTagBlank c then tokens? closing m
      else
        match _h : token? (c :: m) with
        | none => none
        | some (t, rest) =>
          match tokens? closing rest with
          | none => none
          | some (ts, after) => some (t :: ts, after)
termination_by l.length
decreasing_by
  · simp
  · exact length_lt_of_token? _h

theorem length_lt_of_tokens? {closing : Char} {l after : List Char} {ts : List Token}
    (h : tokens? closing l = some (ts, after)) : after.length < l.length := by
  fun_induction tokens? closing l generalizing ts after with
  | case1 l rest hr => cases h; exact length_lt_of_afterTag? hr
  | case2 => cases h
  | case3 c m _ _ ih => have := ih h; simp only [List.length_cons]; omega
  | case4 => cases h
  | case5 => cases h
  | case6 =>
    rename_i ht _ _ hts _ ih
    cases h
    have := length_lt_of_token? ht
    have := ih hts
    omega

/-- Puts a character in front of pieces of a template. -/
def addChar (c : Char) : List Piece → List Piece
  | .text l :: ps => .text (c :: l) :: ps
  | ps => .text [c] :: ps

/-- The pieces of a template, unless a tag is malformed. -/
def pieces? (l : List Char) : Option (List Piece) :=
  match l with
  | [] => some []
  | '{' :: '{' :: m =>
    match _h : tokens? '}' m with
    | none => none
    | some (ts, rest) => (pieces? rest).map (.output ts :: ·)
  | '{' :: '%' :: m =>
    match _h : tokens? '%' m with
    | none => none
    | some (ts, rest) => (pieces? rest).map (.statement ts :: ·)
  | c :: m => (pieces? m).map (addChar c)
termination_by l.length
decreasing_by
  · have := length_lt_of_tokens? _h; simp only [List.length_cons]; omega
  · have := length_lt_of_tokens? _h; simp only [List.length_cons]; omega
  · simp

end Template
end TextualData
