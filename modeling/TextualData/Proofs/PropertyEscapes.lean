import Mathlib.Data.List.Forall2
import TextualData.Properties
import TextualData.Proofs.Spellings

/-!
# Escapes in properties files

A key or a value of a properties file decodes to a text if each of its escapes by number is followed
by four hexadecimal digits for the code of a character (`Properties.Decodes`). A file with another
escape by number is rejected, except that a plus sign may stand in place of the first digit
(`Properties.judgesEscapes_iff`).
-/

namespace TextualData

namespace Text

theorem scalar?_eq_some {n : Nat} {x : Char} : scalar? n = some x ↔ n = x.toNat := by
  constructor
  · intro h
    simp only [scalar?, Option.ite_none_right_eq_some, Option.some.injEq] at h
    obtain ⟨hvalid, rfl⟩ := h
    rw [Char.ofNat, dif_pos hvalid]
    rfl
  · rintro rfl
    exact scalar?_toNat x

end Text

namespace Properties

open Literal (IsCode)

/-- The number of backslashes at the end of the characters. -/
def trailingBackslashes (l : List Char) : Nat :=
  (l.reverse.takeWhile (· == Text.backslash)).length

/-- An escape by number in a key or a value, by what follows its letter. Its backslash is not
escaped itself: an even number of backslashes stands before it. -/
def HasEscape (part after : List Char) : Prop :=
  ∃ before, part = before ++ '\\' :: 'u' :: after ∧ Even (trailingBackslashes before)

/-- Four hexadecimal digits for the code of a character. -/
def IsNumber (digits : List Char) (x : Char) : Prop :=
  digits.length = 4 ∧ IsCode digits x

/-- A plus sign and three hexadecimal digits for the code of a character. -/
def IsSignedNumber (digits : List Char) (x : Char) : Prop :=
  ∃ more, digits = '+' :: more ∧ more.length = 3 ∧ IsCode more x

/-- Four characters that the reader takes for a character by its number. -/
def IsAccepted (digits : List Char) (x : Char) : Prop :=
  IsNumber digits x ∨ IsSignedNumber digits x

/-- A number that denotes a character comes first. -/
def Begins (number : List Char → Char → Prop) (l : List Char) : Prop :=
  ∃ digits x rest, l = digits ++ rest ∧ number digits x

/-- A key or a value with its escapes, and the text that it stands for, given the numbers that
denote characters. A backslash at the end stands for nothing. -/
inductive Decodes (number : List Char → Char → Prop) : List Char → List Char → Prop where
  | nil : Decodes number [] []
  | itself {c : Char} {l m : List Char} (notBackslash : c ≠ '\\') (more : Decodes number l m) :
      Decodes number (c :: l) (c :: m)
  | letter {c : Char} {l m : List Char} (noNumber : c ≠ 'u') (more : Decodes number l m) :
      Decodes number ('\\' :: c :: l) (escapedLetter c :: m)
  | number {digits l m : List Char} {x : Char} (denotes : number digits x)
      (more : Decodes number l m) : Decodes number ('\\' :: 'u' :: (digits ++ l)) (x :: m)
  | lone : Decodes number ['\\'] []

/-- The keys and the values of the entries of a file, as they are written. -/
def entries (text : String) : List (List Char × List Char) :=
  (logicalLines none (Text.lines text.toList)).map splitEntry

/-- The key of an entry and its value decode to a pair of texts. -/
structure EntryDecodes (number : List Char → Char → Prop) (entry : List Char × List Char)
    (pair : String × String) : Prop where
  key : Decodes number entry.1 pair.1.toList
  value : Decodes number entry.2 pair.2.toList

/-- An escape by number in the key or in the value of an entry, by what follows its letter. -/
def EntryHasEscape (entry : List Char × List Char) (after : List Char) : Prop :=
  HasEscape entry.1 after ∨ HasEscape entry.2 after

/-- An escape by number somewhere in a file, by what follows its letter. -/
def FileHasEscape (text : String) (after : List Char) : Prop :=
  ∃ entry ∈ entries text, EntryHasEscape entry after

/-- The hash of the pairs, inserted in order. -/
def ofPairs (pairs : List (String × String)) : Hash :=
  Entries.ofList (pairs.map fun pair => (pair.1, .string pair.2))

/-- The file is rejected exactly if one of its escapes by number is malformed, and otherwise each of
them is read as the character that it denotes. -/
structure JudgesEscapes (text : String) : Prop where
  rejects_iff : (∃ fault, parse text = .error fault) ↔
    ∃ after, FileHasEscape text after ∧ ¬Begins IsNumber after
  /-- The failure shows the malformed number, or as much of it as there is. -/
  fault_eq {fault : LoadFault} (rejected : parse text = .error fault) :
    ∃ after, FileHasEscape text after ∧ ¬Begins IsNumber after ∧
      fault = .malformedEscape (String.ofList (after.take 4))
  decodes {hash : Hash} (accepted : parse text = .ok hash) :
    ∃ pairs, List.Forall₂ (EntryDecodes IsNumber) (entries text) pairs ∧ hash = ofPairs pairs

variable {l m part before after digits : List Char} {c x : Char} {n : Nat}

theorem trailingBackslashes_append (l m : List Char) : trailingBackslashes (l ++ m) =
    if trailingBackslashes m = m.length then m.length + trailingBackslashes l
    else trailingBackslashes m := by
  by_cases h : trailingBackslashes m = m.length
  · have hall : (m.reverse.takeWhile (· == Text.backslash)).length = m.reverse.length := by
      rw [List.length_reverse, ← h, trailingBackslashes]
    rw [if_pos h, trailingBackslashes, List.reverse_append, List.takeWhile_append, if_pos hall,
      List.length_append, List.length_reverse, trailingBackslashes]
  · have hsome : (m.reverse.takeWhile (· == Text.backslash)).length ≠ m.reverse.length := by
      rwa [List.length_reverse]
    rw [if_neg h, trailingBackslashes, List.reverse_append, List.takeWhile_append, if_neg hsome,
      trailingBackslashes]

theorem even_trailingBackslashes_append (h : Even (trailingBackslashes l)) :
    Even (trailingBackslashes (l ++ m)) ↔ Even (trailingBackslashes m) := by
  rw [trailingBackslashes_append]
  split
  · next hm => rw [Nat.even_add, hm, iff_true_right h]
  · rfl

theorem trailingBackslashes_concat (hc : c ≠ '\\') (l : List Char) :
    trailingBackslashes (l ++ [c]) = 0 := by
  simp [trailingBackslashes, Text.backslash, hc]

theorem even_trailingBackslashes_cons (hc : c ≠ '\\') :
    Even (trailingBackslashes (c :: l)) ↔ Even (trailingBackslashes l) := by
  refine even_trailingBackslashes_append (l := [c]) ?_
  rw [← List.nil_append [c], trailingBackslashes_concat hc]
  exact Even.zero

theorem even_trailingBackslashes_escape (c : Char) (l : List Char) :
    Even (trailingBackslashes ('\\' :: c :: l)) ↔ Even (trailingBackslashes l) := by
  refine even_trailingBackslashes_append (l := ['\\', c]) ?_
  by_cases hc : c = '\\'
  · subst hc
    decide
  · rw [← List.singleton_append, trailingBackslashes_concat hc]
    exact Even.zero

theorem hasEscape_cons (hc : c ≠ '\\') : HasEscape (c :: l) after ↔ HasEscape l after := by
  constructor
  · rintro ⟨before, hpart, heven⟩
    cases before with
    | nil => simp_all
    | cons b before =>
      obtain ⟨rfl, rfl⟩ := List.cons_eq_cons.1 hpart
      exact ⟨before, rfl, (even_trailingBackslashes_cons hc).1 heven⟩
  · rintro ⟨before, rfl, heven⟩
    exact ⟨c :: before, rfl, (even_trailingBackslashes_cons hc).2 heven⟩

/-- An escape is the first one, or it comes after the first one. -/
theorem hasEscape_escape :
    HasEscape ('\\' :: c :: l) after ↔ c = 'u' ∧ l = after ∨ HasEscape l after := by
  constructor
  · rintro ⟨before, hpart, heven⟩
    match before with
    | [] => simp_all
    | [b] =>
      -- A single backslash before the escape would take away its meaning.
      obtain ⟨rfl, -⟩ := List.cons_eq_cons.1 hpart
      exact absurd heven (by decide)
    | b :: d :: before =>
      obtain ⟨rfl, htail⟩ := List.cons_eq_cons.1 hpart
      obtain ⟨rfl, rfl⟩ := List.cons_eq_cons.1 htail
      exact .inr ⟨before, rfl, (even_trailingBackslashes_escape _ _).1 heven⟩
  · rintro (⟨rfl, rfl⟩ | ⟨before, rfl, heven⟩)
    · exact ⟨[], rfl, Even.zero⟩
    · exact ⟨'\\' :: c :: before, rfl, (even_trailingBackslashes_escape _ _).2 heven⟩

theorem hasEscape_append (h : '\\' ∉ digits) :
    HasEscape (digits ++ l) after ↔ HasEscape l after := by
  induction digits with
  | nil => rfl
  | cons c digits ih =>
    obtain ⟨hc, hdigits⟩ := List.ne_and_not_mem_of_not_mem_cons h
    rw [List.cons_append, hasEscape_cons hc.symm, ih hdigits]

theorem mapM_hexValue?_eq_some {values : List Nat} :
    l.mapM Text.hexValue? = some values ↔ l.map Text.hexValue? = values.map some := by
  induction l generalizing values with
  | nil => cases values <;> simp
  | cons c l ih =>
    cases hc : Text.hexValue? c <;> cases hl : l.mapM Text.hexValue? <;> cases values <;>
      simp_all

theorem hexNumeral?_eq_some : hexNumeral? l = some n ↔
    ∃ values : List Nat, l.map Text.hexValue? = values.map some ∧
      Nat.ofDigits 16 values.reverse = n := by
  simp only [hexNumeral?, Option.map_eq_some_iff, mapM_hexValue?_eq_some, ← Literal.hexNumber_eq]
  rfl

/-- Hexadecimal digits denote the character whose code they are. -/
theorem hexNumeral?_bind_scalar? (least : 1 ≤ l.length) (most : l.length ≤ 4) :
    hexNumeral? l >>= Text.scalar? = some x ↔ IsCode l x := by
  simp only [Option.bind_eq_bind, Option.bind_eq_some_iff, hexNumeral?_eq_some,
    Text.scalar?_eq_some, exists_eq_right, IsCode, least, most, and_self, true_and]

theorem escapedChar?_eq_some (h : digits.length = 4) :
    escapedChar? digits = some x ↔ IsAccepted digits x := by
  unfold escapedChar? IsAccepted
  split
  · next more =>
    have hplus : ¬IsNumber ('+' :: more) x := fun hnumber =>
      absurd (hnumber.2.isSome_hexValue? List.mem_cons_self) (by decide)
    rw [List.length_cons] at h
    rw [hexNumeral?_bind_scalar? (by omega) (by omega)]
    simp_all [IsSignedNumber]
  · next hplus =>
    rw [hexNumeral?_bind_scalar? (by omega) (by omega)]
    simp_all [IsSignedNumber, IsNumber]

theorem IsAccepted.length_eq (h : IsAccepted digits x) : digits.length = 4 := by
  rcases h with h | ⟨more, rfl, h, -⟩
  · exact h.1
  · rw [List.length_cons, h]

theorem isAccepted_iff :
    IsAccepted digits x ↔ digits.length = 4 ∧ escapedChar? digits = some x :=
  ⟨fun h => ⟨h.length_eq, (escapedChar?_eq_some h.length_eq).2 h⟩,
    fun h => (escapedChar?_eq_some h.1).1 h.2⟩

theorem IsAccepted.not_mem (h : IsAccepted digits x) : '\\' ∉ digits := by
  have hcode : ∀ {more}, IsCode more x → '\\' ∉ more := fun hmore hmem =>
    absurd (hmore.isSome_hexValue? hmem) (by decide)
  rcases h with h | ⟨more, rfl, -, h⟩
  · exact hcode h.2
  · simpa using hcode h

theorem unescape_cons (hc : c ≠ '\\') (l : List Char) :
    unescape (c :: l) = (unescape l).map (c :: ·) := by
  have heq : unescape (c :: l) = do return c :: (← unescape l) := by
    rw [unescape] <;> simp [hc]
  rw [heq]
  cases unescape l <;> rfl

theorem unescape_letter (hc : c ≠ 'u') (l : List Char) :
    unescape ('\\' :: c :: l) = (unescape l).map (escapedLetter c :: ·) := by
  have heq : unescape ('\\' :: c :: l) = do return escapedLetter c :: (← unescape l) := by
    rw [unescape] <;> simp [hc]
  rw [heq]
  cases unescape l <;> rfl

theorem unescape_accepted (h : IsAccepted digits x) (l : List Char) :
    unescape ('\\' :: 'u' :: (digits ++ l)) = (unescape l).map (x :: ·) := by
  obtain ⟨hlength, hchar⟩ := isAccepted_iff.1 h
  match digits with
  | [a, b, c, d] =>
    simp only [List.cons_append, List.nil_append, unescape, hchar]
    cases unescape l <;> rfl

theorem unescape_refused (h : ¬Begins IsAccepted l) :
    unescape ('\\' :: 'u' :: l) = .error (.malformedEscape (String.ofList (l.take 4))) := by
  match l with
  | a :: b :: c :: d :: l =>
    have hchar : escapedChar? [a, b, c, d] = none := by
      refine Option.eq_none_iff_forall_ne_some.2 fun x hx => h ⟨[a, b, c, d], x, l, rfl, ?_⟩
      exact isAccepted_iff.2 ⟨rfl, hx⟩
    simp only [unescape, hchar, List.take_succ_cons, List.take_zero]
    rfl
  | [] | [a] | [a, b] | [a, b, c] => rfl

/-- A key or a value stands for a text, or it is refused for one of its escapes. -/
def IsJudged (part : List Char) : Prop :=
  (∃ m, Decodes IsAccepted part m) ∨ ∃ after, HasEscape part after ∧ ¬Begins IsAccepted after ∧
    unescape part = .error (.malformedEscape (String.ofList (after.take 4)))

/-- A further character in front leaves the judgement to the rest. -/
theorem IsJudged.step (h : IsJudged l) (hunescape : unescape part = (unescape l).map (x :: ·))
    (hdecodes : ∀ {m}, Decodes IsAccepted l m → Decodes IsAccepted part (x :: m))
    (hescape : ∀ {after}, HasEscape l after → HasEscape part after) : IsJudged part := by
  rcases h with ⟨m, hm⟩ | ⟨after, hafter, hrefused, herror⟩
  · exact .inl ⟨x :: m, hdecodes hm⟩
  · exact .inr ⟨after, hescape hafter, hrefused, by rw [hunescape, herror]; rfl⟩

theorem isJudged_escape (ih : ∀ rest, rest.length ≤ l.length → IsJudged rest) (c : Char) :
    IsJudged ('\\' :: c :: l) := by
  by_cases hc : c = 'u'
  · subst hc
    by_cases hl : Begins IsAccepted l
    · -- No digit is a backslash, so that the escapes after the number are those of the rest.
      obtain ⟨digits, x, rest, rfl, hx⟩ := hl
      exact (ih rest (by simp)).step (unescape_accepted hx rest) (.number hx) fun h =>
        hasEscape_escape.2 (.inr ((hasEscape_append hx.not_mem).2 h))
    · exact .inr ⟨l, hasEscape_escape.2 (.inl ⟨rfl, rfl⟩), hl, unescape_refused hl⟩
  · exact (ih l le_rfl).step (unescape_letter hc l) (.letter hc) fun h =>
      hasEscape_escape.2 (.inr h)

theorem isJudged (part : List Char) : IsJudged part :=
  match part with
  | [] => .inl ⟨[], .nil⟩
  | c :: l =>
    if hc : c = '\\' then
      match l with
      | [] => .inl ⟨[], hc ▸ .lone⟩
      | d :: l => hc ▸ isJudged_escape (fun rest _ => isJudged rest) d
    else (isJudged l).step (unescape_cons hc l) (.itself hc) (hasEscape_cons hc).2
termination_by part.length

theorem Decodes.unescape_eq (h : Decodes IsAccepted part m) : unescape part = .ok m := by
  induction h with
  | nil => rfl
  | itself hc _ ih => rw [unescape_cons hc, ih]; rfl
  | letter hc _ ih => rw [unescape_letter hc, ih]; rfl
  | number hx _ ih => rw [unescape_accepted hx, ih]; rfl
  | lone => rfl

theorem HasEscape.two_le_length (h : HasEscape part after) : 2 ≤ part.length := by
  obtain ⟨before, rfl, -⟩ := h
  simp
  omega

/-- Each escape of a key or a value that stands for a text has a number. -/
theorem Decodes.begins (h : Decodes IsAccepted part m) (hafter : HasEscape part after) :
    Begins IsAccepted after := by
  induction h with
  | nil => exact absurd hafter.two_le_length (by decide)
  | itself hc _ ih => exact ih ((hasEscape_cons hc).1 hafter)
  | letter hc _ ih =>
    rcases hasEscape_escape.1 hafter with ⟨rfl, -⟩ | hmore
    · exact absurd rfl hc
    · exact ih hmore
  | number hx _ ih =>
    rcases hasEscape_escape.1 hafter with ⟨-, rfl⟩ | hmore
    · exact ⟨_, _, _, rfl, hx⟩
    · exact ih ((hasEscape_append hx.not_mem).1 hmore)
  | lone => exact absurd hafter.two_le_length (by decide)

/-- Where each escape has a number without a sign, these are the numbers that are read. -/
theorem Decodes.of_begins (h : Decodes IsAccepted part m)
    (hnumber : ∀ {after}, HasEscape part after → Begins IsNumber after) :
    Decodes IsNumber part m := by
  induction h with
  | nil => exact .nil
  | itself hc _ ih => exact .itself hc (ih fun h => hnumber ((hasEscape_cons hc).2 h))
  | letter hc _ ih => exact .letter hc (ih fun h => hnumber (hasEscape_escape.2 (.inr h)))
  | @number digits l m x hx _ ih =>
    obtain ⟨digits', x', rest, hl, hx'⟩ := hnumber (hasEscape_escape.2 (.inl ⟨rfl, rfl⟩))
    -- Both numbers have four characters and begin at the same place.
    obtain ⟨rfl, rfl⟩ := List.append_inj hl (hx.length_eq.trans hx'.1.symm)
    obtain rfl : x' = x := by
      have hchar := (isAccepted_iff.1 (.inl hx')).2.symm.trans (isAccepted_iff.1 hx).2
      exact Option.some.inj hchar
    refine .number hx' (ih fun h => hnumber (hasEscape_escape.2 (.inr ?_)))
    exact (hasEscape_append hx.not_mem).2 h
  | lone => exact .lone

variable {entry : List Char × List Char} {pair : String × String} {pairs : List (String × String)}
  {line : List Char} {lines : List (List Char)}

theorem addLine_of_decodes (h : EntryDecodes IsAccepted (splitEntry line) pair) (hash : Hash) :
    addLine hash line = .ok (hash.insert pair.1 (.string pair.2)) := by
  simp only [addLine, h.key.unescape_eq, h.value.unescape_eq]
  simp [pure, Except.pure, bind, Except.bind]

theorem addLine_cases (hash : Hash) (line : List Char) :
    (∃ pair, EntryDecodes IsAccepted (splitEntry line) pair) ∨
      ∃ after, EntryHasEscape (splitEntry line) after ∧ ¬Begins IsAccepted after ∧
        addLine hash line = .error (.malformedEscape (String.ofList (after.take 4))) := by
  rcases isJudged (splitEntry line).1 with ⟨key, hkey⟩ | ⟨after, hafter, hrefused, herror⟩
  · rcases isJudged (splitEntry line).2 with ⟨value, hvalue⟩ | ⟨after, hafter, hrefused, herror⟩
    · refine .inl ⟨(String.ofList key, String.ofList value), ?_, ?_⟩
      · simpa using hkey
      · simpa using hvalue
    · refine .inr ⟨after, .inr hafter, hrefused, ?_⟩
      simp [addLine, hkey.unescape_eq, herror, bind, Except.bind]
  · refine .inr ⟨after, .inl hafter, hrefused, ?_⟩
    simp [addLine, herror, bind, Except.bind]

theorem foldlM_addLine_of_decodes
    (h : List.Forall₂ (EntryDecodes IsAccepted) (lines.map splitEntry) pairs) (hash : Hash) :
    lines.foldlM addLine hash =
      .ok (hash.merge (pairs.map fun pair => (pair.1, .string pair.2))) := by
  induction lines generalizing pairs hash with
  | nil =>
    cases h
    rfl
  | cons line lines ih =>
    rw [List.map_cons] at h
    cases h with
    | cons hpair hpairs =>
      rw [List.foldlM_cons, addLine_of_decodes hpair]
      exact ih hpairs _

theorem foldlM_addLine_cases (hash : Hash) (lines : List (List Char)) :
    (∃ pairs, List.Forall₂ (EntryDecodes IsAccepted) (lines.map splitEntry) pairs) ∨
      ∃ entry ∈ lines.map splitEntry, ∃ after, EntryHasEscape entry after ∧
        ¬Begins IsAccepted after ∧
        lines.foldlM addLine hash = .error (.malformedEscape (String.ofList (after.take 4))) := by
  induction lines generalizing hash with
  | nil => exact .inl ⟨[], .nil⟩
  | cons line lines ih =>
    rcases addLine_cases hash line with ⟨pair, hpair⟩ | ⟨after, hafter, hrefused, herror⟩
    · rcases ih (hash.insert pair.1 (.string pair.2)) with
        ⟨pairs, hpairs⟩ | ⟨entry, hentry, after, hafter, hrefused, herror⟩
      · exact .inl ⟨pair :: pairs, .cons hpair hpairs⟩
      · refine .inr ⟨entry, List.mem_cons_of_mem _ hentry, after, hafter, hrefused, ?_⟩
        rw [List.foldlM_cons, addLine_of_decodes hpair]
        exact herror
    · refine .inr ⟨splitEntry line, List.mem_cons_self, after, hafter, hrefused, ?_⟩
      rw [List.foldlM_cons, herror]
      rfl

theorem parse_of_decodes (h : List.Forall₂ (EntryDecodes IsAccepted) (entries text) pairs) :
    parse text = .ok (ofPairs pairs) :=
  foldlM_addLine_of_decodes h []

theorem parse_cases (text : String) :
    (∃ pairs, List.Forall₂ (EntryDecodes IsAccepted) (entries text) pairs) ∨
      ∃ after, FileHasEscape text after ∧ ¬Begins IsAccepted after ∧
        parse text = .error (.malformedEscape (String.ofList (after.take 4))) := by
  rcases foldlM_addLine_cases [] (logicalLines none (Text.lines text.toList)) with
    h | ⟨entry, hentry, after, hafter, hrefused, herror⟩
  · exact .inl h
  · exact .inr ⟨after, ⟨entry, hentry, hafter⟩, hrefused, herror⟩

theorem EntryDecodes.begins (h : EntryDecodes IsAccepted entry pair)
    (hafter : EntryHasEscape entry after) : Begins IsAccepted after :=
  hafter.elim h.key.begins h.value.begins

theorem EntryDecodes.of_begins (h : EntryDecodes IsAccepted entry pair)
    (hnumber : ∀ {after}, EntryHasEscape entry after → Begins IsNumber after) :
    EntryDecodes IsNumber entry pair :=
  ⟨h.key.of_begins fun h => hnumber (.inl h), h.value.of_begins fun h => hnumber (.inr h)⟩

theorem begins_isAccepted :
    Begins IsAccepted l ↔ Begins IsNumber l ∨ Begins IsSignedNumber l := by
  constructor
  · rintro ⟨digits, x, rest, rfl, h | h⟩
    · exact .inl ⟨digits, x, rest, rfl, h⟩
    · exact .inr ⟨digits, x, rest, rfl, h⟩
  · rintro (⟨digits, x, rest, rfl, h⟩ | ⟨digits, x, rest, rfl, h⟩)
    · exact ⟨digits, x, rest, rfl, .inl h⟩
    · exact ⟨digits, x, rest, rfl, .inr h⟩

/-- A plus sign is no digit. -/
theorem not_begins_isNumber (h : Begins IsSignedNumber l) : ¬Begins IsNumber l := by
  obtain ⟨_, _, rest, rfl, more, rfl, -⟩ := h
  rintro ⟨digits, x, rest', hl, hlength, hcode⟩
  have hmem : '+' ∈ digits := by
    cases digits with
    | nil => cases hlength
    | cons c digits =>
      obtain ⟨rfl, -⟩ := List.cons_eq_cons.1 hl
      exact List.mem_cons_self
  exact absurd (hcode.isSome_hexValue? hmem) (by decide)

theorem begins_of_decodes (h : List.Forall₂ (EntryDecodes IsAccepted) (entries text) pairs)
    (hafter : FileHasEscape text after) : Begins IsAccepted after := by
  obtain ⟨entry, hentry, hafter⟩ := hafter
  have hall := (List.forall₂_and_left (p := fun entry => ∀ after, EntryHasEscape entry after →
    Begins IsAccepted after) _ _).1 (h.imp fun _ _ h => ⟨fun _ => h.begins, h⟩)
  exact hall.1 entry hentry after hafter

theorem decodes_isNumber (h : List.Forall₂ (EntryDecodes IsAccepted) (entries text) pairs)
    (hnumber : ∀ {after}, FileHasEscape text after → Begins IsNumber after) :
    List.Forall₂ (EntryDecodes IsNumber) (entries text) pairs := by
  have hall := (List.forall₂_and_left (p := fun entry => ∀ {after}, EntryHasEscape entry after →
    Begins IsNumber after) _ _).2 ⟨fun entry hentry _ hafter => hnumber ⟨entry, hentry, hafter⟩, h⟩
  exact hall.imp fun _ _ h => h.2.of_begins h.1

theorem JudgesEscapes.of_decodes
    (h : List.Forall₂ (EntryDecodes IsAccepted) (entries text) pairs)
    (hnumber : ∀ {after}, FileHasEscape text after → Begins IsNumber after) :
    JudgesEscapes text where
  rejects_iff := by
    constructor
    · rintro ⟨fault, hfault⟩
      cases (parse_of_decodes h).symm.trans hfault
    · rintro ⟨after, hafter, hmalformed⟩
      exact absurd (hnumber hafter) hmalformed
  fault_eq hfault := by cases (parse_of_decodes h).symm.trans hfault
  decodes hhash := by
    cases (parse_of_decodes h).symm.trans hhash
    exact ⟨pairs, decodes_isNumber h hnumber, rfl⟩

theorem JudgesEscapes.of_error (hafter : FileHasEscape text after)
    (hmalformed : ¬Begins IsNumber after)
    (h : parse text = .error (.malformedEscape (String.ofList (after.take 4)))) :
    JudgesEscapes text where
  rejects_iff := ⟨fun _ => ⟨after, hafter, hmalformed⟩, fun _ => ⟨_, h⟩⟩
  fault_eq hfault := by
    cases h.symm.trans hfault
    exact ⟨after, hafter, hmalformed, rfl⟩
  decodes hhash := by cases h.symm.trans hhash

/-- A file is judged by its escapes, unless all that is wrong with them is that a plus sign stands
in the place of a digit. -/
theorem judgesEscapes_iff (text : String) : JudgesEscapes text ↔
    ((∃ after, FileHasEscape text after ∧ Begins IsSignedNumber after) →
      ∃ after, FileHasEscape text after ∧ ¬Begins IsNumber after ∧
        ¬Begins IsSignedNumber after) := by
  constructor
  · rintro hjudges ⟨signed, hsigned, hplus⟩
    obtain ⟨fault, hfault⟩ := hjudges.rejects_iff.2 ⟨signed, hsigned, not_begins_isNumber hplus⟩
    rcases parse_cases text with ⟨pairs, hpairs⟩ | ⟨after, hafter, hrefused, -⟩
    · cases (parse_of_decodes hpairs).symm.trans hfault
    · rw [begins_isAccepted, not_or] at hrefused
      exact ⟨after, hafter, hrefused⟩
  · intro hsigned
    rcases parse_cases text with ⟨pairs, hpairs⟩ | ⟨after, hafter, hrefused, herror⟩
    · -- No escape is refused, and so none has a sign either.
      have haccepted : ∀ {after}, FileHasEscape text after →
          Begins IsNumber after ∨ Begins IsSignedNumber after := fun hafter =>
        begins_isAccepted.1 (begins_of_decodes hpairs hafter)
      refine .of_decodes hpairs fun {after} hafter => ?_
      refine (haccepted hafter).resolve_right fun hplus => ?_
      obtain ⟨other, hother, hrefused⟩ := hsigned ⟨after, hafter, hplus⟩
      exact not_or.2 hrefused (haccepted hother)
    · rw [begins_isAccepted, not_or] at hrefused
      exact .of_error hafter hrefused.1 herror

/-- The sign in the place of a digit is passed over. -/
theorem parse_signed_escape :
    parse "a=\\u+041" = .ok [("a", .string "A")] ∧ ¬JudgesEscapes "a=\\u+041" := by
  have hparse : parse "a=\\u+041" = .ok [("a", .string "A")] := by rfl
  have hentries : entries "a=\\u+041" = [(['a'], ['\\', 'u', '+', '0', '4', '1'])] := by rfl
  have hescape : FileHasEscape "a=\\u+041" ['+', '0', '4', '1'] :=
    ⟨_, hentries ▸ List.mem_singleton_self _, .inr (hasEscape_escape.2 (.inl ⟨rfl, rfl⟩))⟩
  have hsigned : Begins IsSignedNumber ['+', '0', '4', '1'] :=
    ⟨['+', '0', '4', '1'], 'A', [], rfl, ['0', '4', '1'], rfl, rfl, by decide, [0, 4, 1], rfl, rfl⟩
  refine ⟨hparse, fun hjudges => ?_⟩
  obtain ⟨fault, hfault⟩ := hjudges.rejects_iff.2 ⟨_, hescape, not_begins_isNumber hsigned⟩
  cases hparse.symm.trans hfault

end Properties
end TextualData
