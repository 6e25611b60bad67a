import Mathlib.Data.Nat.Digits.Defs
import TextualData.Proofs.Blanks
import TextualData.Proofs.QuotedText
import TextualData.Proofs.WholeTexts

/-!
# The spellings of a text

A quoted literal can spell a text in many ways: each character may stand for itself, by name or by
its code in hexadecimal digits, and continued lines may be put in anywhere (`Literal.Spells`). Every
spelling evaluates to the text it spells and ends at its closing quotation, whatever follows it.
-/

namespace TextualData
namespace Literal

open Evaluation

/-- The letters that name characters after a backslash, each with the character it names. -/
def names : List (Char × Char) :=
  [('\x22', '\x22'), ('\x27', '\x27'), ('\x5c', '\x5c'), ('{', '{'), ('n', '\n'), ('r', '\r'),
   ('t', '\t'), ('f', '\x0c'), ('b', '\x08'), ('g', '>'), ('l', '<'), ('a', '&')]

/-- One to four hexadecimal digits, of either letter case, for the code of a character. -/
def IsCode (digits : List Char) (x : Char) : Prop :=
  (1 ≤ digits.length ∧ digits.length ≤ 4) ∧ ∃ values : List Nat,
    digits.map Text.hexValue? = values.map some ∧ Nat.ofDigits 16 values.reverse = x.toNat

/-- One line break. -/
inductive IsLineBreak : List Char → Prop where
  | lineFeed : IsLineBreak ['\n']
  | carriageReturn : IsLineBreak ['\r']
  | pair : IsLineBreak ['\r', '\n']

/-- Blanks with exactly one line break among them. -/
inductive IsContinuation : List Char → Prop where
  | intro {front lineBreak back : List Char}
      (inFront : ∀ x ∈ front, Text.isBlank x ∧ Text.isLineBreak x = false)
      (isLineBreak : IsLineBreak lineBreak)
      (behind : ∀ x ∈ back, Text.isBlank x ∧ Text.isLineBreak x = false) :
      IsContinuation (front ++ lineBreak ++ back)

/-- The source between the quotations of a literal, and the text it spells. -/
inductive Spells (quotation : Char) : List Char → List Char → Prop where
  | nil : Spells quotation [] []
  | itself {x : Char} {source text : List Char} (notQuotation : x ≠ quotation)
      (notBackslash : x ≠ Text.backslash) (more : Spells quotation source text) :
      Spells quotation (x :: source) (x :: text)
  | name {e x : Char} {source text : List Char} (named : (e, x) ∈ names)
      (more : Spells quotation source text) :
      Spells quotation (Text.backslash :: e :: source) (x :: text)
  | code {mark x : Char} {digits source text : List Char} (isMark : mark = 'x' ∨ mark = 'u')
      (isCode : IsCode digits x)
      (ends : digits.length = 4 ∨ ∀ y ∈ source.head?, (Text.hexValue? y).isSome = false)
      (more : Spells quotation source text) :
      Spells quotation (Text.backslash :: mark :: (digits ++ source)) (x :: text)
  | continued {blanks source text : List Char} (isContinuation : IsContinuation blanks)
      (ends : ∀ y ∈ source.head?, Text.isBlank y = false) (more : Spells quotation source text) :
      Spells quotation (Text.backslash :: (blanks ++ source)) text

variable {quotation e x : Char} {source text rest digits blanks : List Char} {broken : Bool}

theorem named?_of_mem : ∀ p ∈ names, named? p.1 = some p.2 := by
  decide

theorem escape_name (h : (e, x) ∈ names) : escape e rest = .text [x] 1 := by
  simp [escape, named?_of_mem _ h]

/-- Up to four digits are read as the digits of a code, if they end where no other digit follows. -/
theorem hexRun_digits (hdigits : ∀ y ∈ digits, (Text.hexValue? y).isSome)
    (most : digits.length ≤ 4)
    (ends : digits.length = 4 ∨ ∀ y ∈ rest.head?, (Text.hexValue? y).isSome = false) :
    hexRun (digits ++ rest) = digits.filterMap Text.hexValue? := by
  rw [hexRun, List.take_append, List.take_of_length_le most, List.takeWhile_append_of_pos hdigits]
  have hrest : (rest.take (4 - digits.length)).takeWhile
      (fun c => (Text.hexValue? c).isSome) = [] := by
    rcases ends with hfull | hends
    · simp [hfull]
    · cases rest with
      | nil => simp
      | cons y rest =>
        cases 4 - digits.length with
        | zero => rfl
        | succ n => simp [hends y rfl]
  rw [hrest, List.append_nil]

theorem hexNumber_eq (values : List Nat) : hexNumber values = Nat.ofDigits 16 values.reverse := by
  simp [hexNumber, Nat.ofDigits_eq_foldr, List.foldr_reverse, Nat.add_comm]

theorem IsCode.isSome_hexValue? {y : Char} (h : IsCode digits x) (hy : y ∈ digits) :
    (Text.hexValue? y).isSome := by
  obtain ⟨-, values, hvalues, -⟩ := h
  have hmem : Text.hexValue? y ∈ values.map some := hvalues ▸ List.mem_map_of_mem hy
  obtain ⟨n, -, hn⟩ := List.mem_map.1 hmem
  rw [← hn]
  rfl

theorem escape_code {mark : Char} (isMark : mark = 'x' ∨ mark = 'u') (isCode : IsCode digits x)
    (ends : digits.length = 4 ∨ ∀ y ∈ rest.head?, (Text.hexValue? y).isSome = false) :
    escape mark (digits ++ rest) = .text [x] (digits.length + 1) := by
  have hdigits : ∀ y ∈ digits, (Text.hexValue? y).isSome := fun _ => isCode.isSome_hexValue?
  obtain ⟨⟨least, most⟩, values, hvalues, hnumber⟩ := isCode
  have hfilter : digits.filterMap Text.hexValue? = values := by
    have h := congrArg (List.filterMap id) hvalues
    simpa [List.filterMap_map] using h
  have hrun := hexRun_digits hdigits most ends
  rw [hfilter] at hrun
  have hlength : values.length = digits.length := by
    simpa using (congrArg List.length hvalues).symm
  have hnamed : named? mark = none := by
    rcases isMark with rfl | rfl <;> decide
  rw [escape_of_digits isMark hnamed (u := x), hrun, hlength]
  · rw [hrun, ← List.length_pos_iff]
    omega
  · rw [hrun, hexNumber_eq, hnumber, Text.scalar?_toNat]

/-- Blanks without a line break go on with a continuation. -/
theorem continuation_blanks (h : ∀ x ∈ blanks, Text.isBlank x ∧ Text.isLineBreak x = false) :
    continuation broken (blanks ++ rest) =
      (blanks.length + (continuation broken rest).1, (continuation broken rest).2) := by
  induction blanks with
  | nil => simp
  | cons x blanks ih =>
    obtain ⟨hblank, hbreak⟩ := h x (by simp)
    have hreturn : x ≠ '\r' := by
      rintro rfl
      exact absurd hbreak (by decide)
    rw [List.cons_append,
      continuation_of_goesOn (by simp [hblank, hbreak]) fun h => absurd h hreturn, hbreak,
      Bool.or_false, ih fun y hy => h y (List.mem_cons_of_mem _ hy), List.length_cons,
      Nat.add_right_comm]

theorem continuation_ends (h : ∀ x ∈ rest.head?, Text.isBlank x = false) :
    continuation broken rest = (0, broken) := by
  cases rest with
  | nil => rfl
  | cons x rest => exact continuation_of_stop (by simp [h x rfl])

/-- A line feed that follows a carriage return belongs to the same line break. -/
theorem continuation_lineBreak {lineBreak : List Char} (h : IsLineBreak lineBreak)
    (noPair : rest.head? ≠ some '\n') : continuation false (lineBreak ++ rest) =
      (lineBreak.length + (continuation true rest).1, (continuation true rest).2) := by
  cases h with
  | lineFeed =>
    rw [List.singleton_append, continuation_of_goesOn (by decide) fun h => absurd h (by decide)]
    simp [show Text.isLineBreak '\n' by decide, Nat.add_comm]
  | carriageReturn =>
    rw [List.singleton_append, continuation_of_goesOn (by decide) fun _ => noPair]
    simp [show Text.isLineBreak '\r' by decide, Nat.add_comm]
  | pair => simp [continuation_pair, Nat.add_comm]

/-- A continuation is passed with its blanks. -/
theorem IsContinuation.continuation_eq (h : IsContinuation blanks)
    (ends : ∀ y ∈ rest.head?, Text.isBlank y = false) :
    continuation false (blanks ++ rest) = (blanks.length, true) := by
  obtain ⟨inFront, isLineBreak, behind⟩ := h
  rename_i front lineBreak back
  have noPair : (back ++ rest).head? ≠ some '\n' := by
    intro hhead
    cases back with
    | nil => exact absurd (ends '\n' hhead) (by decide)
    | cons y back =>
      obtain rfl := Option.some.inj hhead
      exact absurd (behind '\n' (by simp)).2 (by decide)
  simp [continuation_blanks inFront, continuation_lineBreak isLineBreak noPair,
    continuation_blanks behind, continuation_ends ends]

theorem IsContinuation.exists_cons (h : IsContinuation blanks) :
    ∃ e more, blanks = e :: more ∧ Text.isBlank e := by
  obtain ⟨inFront, isLineBreak, -⟩ := h
  rename_i front lineBreak back
  cases front with
  | nil => cases isLineBreak <;> exact ⟨_, _, rfl, by decide⟩
  | cons e front => exact ⟨e, _, rfl, (inFront e (by simp)).1⟩

/-- No blank names a character. -/
theorem named?_of_isBlank (h : Text.isBlank e) : named? e = none := by
  have hne : ∀ y : Char, Text.isBlank y = false → e ≠ y := by
    rintro y hy rfl
    simp [h] at hy
  simp (disch := decide) [named?, hne]

theorem escape_continuation {more : List Char} (h : IsContinuation (e :: more))
    (ends : ∀ y ∈ rest.head?, Text.isBlank y = false) :
    escape e (more ++ rest) = .text [] (more.length + 1) := by
  have hblank : Text.isBlank e := by
    obtain ⟨_, _, he, hblank⟩ := h.exists_cons
    obtain ⟨rfl, rfl⟩ := List.cons.inj he
    exact hblank
  have hhex : ¬(e = 'x' ∨ e = 'u') := by
    rintro (rfl | rfl)
    · exact absurd hblank (by decide)
    · exact absurd hblank (by decide)
  have hpassed := h.continuation_eq ends
  rw [List.cons_append, List.length_cons] at hpassed
  rw [escape_of_isBlank (named?_of_isBlank hblank) hhex hblank, hpassed]
  rfl

/-- What holds of the first character of a source and of the quotation holds of what comes next. -/
theorem head?_append_quotation {p : Char → Prop} (hsource : ∀ y ∈ source.head?, p y)
    (hquotation : p quotation) : ∀ y ∈ (source ++ quotation :: rest).head?, p y := by
  cases source with
  | nil =>
    rintro y ⟨⟩
    exact hquotation
  | cons x source => exact hsource

/-- The body of a literal gives the text that its source spells, and ends at the quotation. -/
theorem Spells.body_eq (h : Spells quotation source text) (hq : isQuotation quotation)
    {start : Nat} {before read : List Char} :
    body quotation start before (source ++ quotation :: rest) read =
      .ok (read.reverse ++ text) ⟨quotation :: (source.reverse ++ before), rest⟩ := by
  induction h generalizing before read with
  | nil => simp [body_quotation]
  | itself notQuotation notBackslash _ ih =>
    rw [List.cons_append, body_plain notQuotation notBackslash, ih]
    simp
  | name named _ ih =>
    rw [List.cons_append, List.cons_append, body_text hq (escape_name named), List.drop_one,
      List.tail_cons, ih]
    simp
  | @code mark x digits source text isMark isCode ends _ ih =>
    have hends : digits.length = 4 ∨
        ∀ y ∈ (source ++ quotation :: rest).head?, (Text.hexValue? y).isSome = false :=
      ends.imp_right fun h => head?_append_quotation h (not_hexValue? (.inl hq))
    rw [List.cons_append, List.cons_append, List.append_assoc,
      body_text hq (escape_code isMark isCode hends), List.drop_succ_cons, List.drop_left, ih]
    simp
  | @continued blanks source text isContinuation ends _ ih =>
    obtain ⟨e, more, rfl, -⟩ := isContinuation.exists_cons
    have hends : ∀ y ∈ (source ++ quotation :: rest).head?, Text.isBlank y = false :=
      head?_append_quotation ends (not_isBlank (.inl hq))
    rw [List.cons_append, List.cons_append, List.cons_append, List.append_assoc,
      body_text hq (escape_continuation isContinuation hends), List.drop_succ_cons, List.drop_left,
      ih]
    simp

/-- The literal with the given quotation and source. -/
def quotedSource (quotation : Char) (source : List Char) : List Char :=
  quotation :: (source ++ [quotation])

theorem Spells.quoted_eq (h : Spells quotation source text) (hq : isQuotation quotation)
    {c : Cursor} (hrest : c.rest = quotedSource quotation source ++ rest) :
    Scan.quoted quotation c = .ok text (c.pass (quotedSource quotation source) rest) := by
  have hnext : c.next = ⟨quotation :: c.before, source ++ quotation :: rest⟩ := by
    simp [Cursor.next, hrest, quotedSource]
  rw [Scan.quoted, hnext, h.body_eq hq]
  simp [Cursor.pass, quotedSource]

/-- However a literal spells a text, it evaluates to that text, in any environment and with or
without strings forced. It does so wherever it stands in the place of a value or of a key, ends just
after its closing quotation whatever follows, and evaluates to the text on its own too. -/
theorem Spells.evaluates {s : String} (h : Spells quotation source s.toList)
    (hq : isQuotation quotation) {σ : Type} :
    (∀ (setting : Setting σ) (forced inKey : Bool) (c : Cursor) (rest : List Char),
      c.rest = quotedSource quotation source ++ rest →
        Yields setting (.value forced inKey (.string s)) c
          (c.pass (quotedSource quotation source) rest)) ∧
      ∀ (file : Option String) (env : Environment σ) (forced : Bool) (inner : σ),
        (Source.evaluate ⟨String.ofList (quotedSource quotation source), file⟩ env forced inner).1 =
          .ok (.string s) := by
  have hyields : ∀ (setting : Setting σ) (forced inKey : Bool) (c : Cursor) (rest : List Char),
      c.rest = quotedSource quotation source ++ rest →
        Yields setting (.value forced inKey (.string s)) c
          (c.pass (quotedSource quotation source) rest) := by
    intro setting forced inKey c rest hrest
    have hopens : c.peek? = some quotation := by simp [Cursor.peek?, hrest, quotedSource]
    have hquoted : Yields setting (.value forced inKey (.string (String.ofList s.toList))) c
        (c.pass (quotedSource quotation source) rest) :=
      quoted_yields hopens hq (h.quoted_eq hq hrest)
    rwa [String.ofList_toList] at hquoted
  refine ⟨hyields, fun file env forced inner => ?_⟩
  have hrest : (Cursor.ofText (quotedSource quotation source)).rest =
      quotedSource quotation source ++ [] := (List.append_nil _).symm
  have hdelimiter : quotation ∈ Token.delimiters ∧ quotation ≠ '<' := by
    rcases isQuotation_iff.1 hq with rfl | rfl <;> decide
  rw [Source.evaluate, String.toList_ofList]
  exact single_of_yields (Scan.blanks_of_delimiter rfl hdelimiter.1 hdelimiter.2)
    (hyields _ _ _ _ _ hrest) (by simp [Cursor.pass, Cursor.ofText, quotedSource])
    (Scan.blanks_of_rest_eq_nil rfl) rfl

/-- A literal with a plain character, a short code, a continued line and a named character. -/
theorem evaluates_of_every_spelling :
    Spells '\x22' ['a', '\x5c', 'u', '4', '1', '\x5c', '\n', ' ', '\x5c', 'n'] "aA\n".toList ∧
      isQuotation '\x22' ∧
      (Source.evaluate ⟨"\x22a\x5cu41\x5c\n \x5cn\x22", none⟩ .unresolving false ()).1 =
        .ok (.string "aA\n") := by
  have hcode : IsCode ['4', '1'] 'A' := ⟨by decide, [4, 1], by decide, by decide⟩
  have hspace : ∀ x ∈ [' '], Text.isBlank x ∧ Text.isLineBreak x = false := by
    intro x hx
    obtain rfl := List.mem_singleton.1 hx
    decide
  have hcontinued : IsContinuation ([] ++ ['\n'] ++ [' ']) := .intro (by simp) .lineFeed hspace
  have hbackslash : ∀ y ∈ some '\x5c',
      Text.isBlank y = false ∧ (Text.hexValue? y).isSome = false := by
    rintro y ⟨⟩
    decide
  have hname : Spells '\x22' ['\x5c', 'n'] ['\n'] := .name (by decide) .nil
  have hline : Spells '\x22' ('\x5c' :: ([] ++ ['\n'] ++ [' '] ++ ['\x5c', 'n'])) ['\n'] :=
    .continued hcontinued (fun y hy => (hbackslash y hy).1) hname
  have hshort : Spells '\x22' ('\x5c' :: 'u' :: (['4', '1'] ++ ['\x5c', '\n', ' ', '\x5c', 'n']))
      ['A', '\n'] := .code (.inr rfl) hcode (.inr fun y hy => (hbackslash y hy).2) hline
  have h : Spells '\x22' ['a', '\x5c', 'u', '4', '1', '\x5c', '\n', ' ', '\x5c', 'n']
      "aA\n".toList := .itself (by decide) (by decide) hshort
  exact ⟨h, by decide, (h.evaluates (by decide)).2 none .unresolving false ()⟩

end Literal
end TextualData
