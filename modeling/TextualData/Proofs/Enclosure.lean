import TextualData.Proofs.Blanks
import TextualData.Proofs.Tokens

/-!
# Scans of an enclosed text

A text may be enclosed in brackets, each with a line feed on the inner side. A scan that is done
with before the end of the text does the same in the enclosed one. Only blanks go on at the end:
they pass over the line feed to the closing bracket.
-/

namespace TextualData

/-- The brackets of a whole listing. -/
inductive Brackets where
  | curly
  | square
deriving DecidableEq, Repr

namespace Brackets

/-- The bracket in front. -/
def opening : Brackets → Char
  | curly => '{'
  | square => '['

/-- The bracket at the end. -/
def closing : Brackets → Char
  | curly => '}'
  | square => ']'

theorem closing_mem_delimiters (b : Brackets) : b.closing ∈ Token.delimiters := by
  cases b <;> decide

end Brackets

variable {b : Brackets}

/-- The place in the enclosed text. -/
def Cursor.enclosed (b : Brackets) (c : Cursor) : Cursor :=
  ⟨c.before ++ ['\n', b.opening], c.rest ++ ['\n', b.closing]⟩

/-- The place in the enclosed text to which blanks lead when they lead to this place in the text:
the closing bracket for the end of the text. -/
def Cursor.reached (b : Brackets) (c : Cursor) : Cursor :=
  if c.rest = [] then ⟨'\n' :: (c.before ++ ['\n', b.opening]), [b.closing]⟩ else c.enclosed b

namespace Blanks

/-- What is being passed over, in the enclosed text. -/
def Mode.enclosed (b : Brackets) : Mode → Mode
  | blank => blank
  | lineComment => lineComment
  | blockComment start => blockComment (start.enclosed b)

/-- At the end of the text the closing bracket is reached. -/
theorem pass_blank_end (b : Brackets) (broken : Bool) (before : List Char) :
    pass .blank broken before ['\n', b.closing] = .ok true ⟨'\n' :: before, [b.closing]⟩ := by
  cases broken <;> cases b <;> rfl

theorem pass_lineComment_end (b : Brackets) (broken : Bool) (before : List Char) :
    pass .lineComment broken before ['\n', b.closing] = .ok true ⟨'\n' :: before, [b.closing]⟩ := by
  cases broken <;> cases b <;> rfl

theorem isLineBlankBefore_append (before : List Char) (b : Brackets) :
    Text.isLineBlankBefore (before ++ ['\n', b.opening]) = Text.isLineBlankBefore before := by
  have h : (before ++ ['\n', b.opening]).takeWhile (fun c => !Text.isLineBreak c) =
      before.takeWhile fun c => !Text.isLineBreak c := by
    induction before with
    | nil => rfl
    | cons x before ih => simp only [List.cons_append, List.takeWhile_cons, ih]
  rw [Text.isLineBlankBefore, h]
  rfl

theorem opensComment_append (l : List Char) (b : Brackets) :
    opensComment (l ++ ['\n', b.closing]) = opensComment l := by
  rw [Bool.eq_iff_iff, opensComment_iff, opensComment_iff]
  constructor
  · rintro ⟨m, hm⟩
    match l with
    | [] | [_] | [_, _] | [_, _, _] => cases b <;> simp [Brackets.closing] at hm
    | _ :: _ :: _ :: _ :: l =>
      simp only [List.cons_append, List.cons.injEq] at hm
      obtain ⟨rfl, rfl, rfl, rfl, _⟩ := hm
      exact ⟨l, rfl⟩
  · rintro ⟨m, rfl⟩
    exact ⟨m ++ ['\n', b.closing], rfl⟩

/-- A comment is not closed by what encloses the text. -/
theorem closesComment_of_append {l m : List Char} {b : Brackets}
    (h : l ++ ['\n', b.closing] = '-' :: '>' :: m) : ∃ l', l = '-' :: '>' :: l' := by
  cases l with
  | nil => cases b <;> simp [Brackets.closing] at h
  | cons x l =>
    cases l with
    | nil => cases b <;> simp [Brackets.closing] at h
    | cons y l =>
      simp only [List.cons_append, List.cons.injEq] at h
      obtain ⟨rfl, rfl, _⟩ := h
      exact ⟨l, rfl⟩

/-- Blanks of the enclosed text are those of the text, with the line feed at its end. -/
theorem pass_enclosed (b : Brackets) (mode : Mode) (broken : Bool) (before rest : List Char) :
    match pass mode broken before rest with
    | .ok broken' c => pass (mode.enclosed b) broken (before ++ ['\n', b.opening])
        (rest ++ ['\n', b.closing]) = .ok (broken' || c.rest.isEmpty) (c.reached b)
    | .error _ _ => ∃ fault c, pass (mode.enclosed b) broken (before ++ ['\n', b.opening])
        (rest ++ ['\n', b.closing]) = .error fault c := by
  fun_induction pass mode broken before rest
  case case1 broken before =>
    simpa [Mode.enclosed, Cursor.reached] using
      pass_blank_end b broken (before ++ ['\n', b.opening])
  case case2 broken before x rest hblank ih =>
    simp only [Mode.enclosed, List.cons_append, pass, hblank, if_true] at ih ⊢
    exact ih
  case case3 broken before x rest hblank hcomment ih =>
    simp only [Mode.enclosed, List.cons_append, pass, hblank, isLineBlankBefore_append, hcomment,
      if_true] at ih ⊢
    exact ih
  case case4 broken before x rest hblank hcomment hopens ih =>
    rw [← opensComment_append _ b] at hopens
    simp only [Mode.enclosed, List.cons_append, pass, hblank, isLineBlankBefore_append, hcomment,
      hopens, if_true] at ih hopens ⊢
    exact ih
  case case5 broken before x rest hblank hcomment hopens =>
    rw [← opensComment_append _ b] at hopens
    simp only [List.cons_append] at hopens
    simp [Mode.enclosed, pass, hblank, isLineBlankBefore_append, hcomment, hopens, Cursor.reached,
      Cursor.enclosed]
  case case6 broken before =>
    simpa [Mode.enclosed, Cursor.reached] using
      pass_lineComment_end b broken (before ++ ['\n', b.opening])
  case case7 broken before x rest hbreak ih =>
    simp only [Mode.enclosed, List.cons_append, pass, hbreak, if_true] at ih ⊢
    exact ih
  case case8 broken before x rest hbreak ih =>
    simp only [Mode.enclosed, List.cons_append, pass, hbreak] at ih ⊢
    exact ih
  case case9 =>
    cases b <;> exact ⟨_, _, rfl⟩
  case case10 start broken before rest ih =>
    simp only [Mode.enclosed, List.cons_append, pass] at ih ⊢
    exact ih
  case case11 start broken before x rest hno ih =>
    -- The new characters do not complete the mark that closes a comment.
    have hno' : ∀ m, x = '-' → rest ++ ['\n', b.closing] = '-' :: '>' :: m → False := by
      rintro m rfl hm
      obtain ⟨l, rfl⟩ := closesComment_of_append hm
      exact hno l rfl rfl
    rw [List.cons_append, Mode.enclosed, pass]
    · exact ih
    · exact hno'

end Blanks

theorem Scan.blanks_enclosed {c c' : Cursor} {broken : Bool}
    (h : Scan.blanks c = .ok broken c') :
    Scan.blanks (c.enclosed b) = .ok (broken || c'.rest.isEmpty) (c'.reached b) := by
  have hpass := Blanks.pass_enclosed b .blank false c.before c.rest
  rw [Scan.blanks] at h
  rw [h] at hpass
  exact hpass

theorem Scan.of_blanks_enclosed {c d : Cursor} {broken : Bool}
    (h : Scan.blanks (c.enclosed b) = .ok broken d) : ∃ broken' c',
      Scan.blanks c = .ok broken' c' ∧ broken = (broken' || c'.rest.isEmpty) ∧
      d = c'.reached b := by
  have hpass := Blanks.pass_enclosed b .blank false c.before c.rest
  change Blanks.pass .blank false _ _ = _ at h
  cases hc : Blanks.pass .blank false c.before c.rest with
  | ok broken' c' =>
    simp only [hc] at hpass
    obtain ⟨rfl, rfl⟩ := by simpa using hpass.symm.trans h
    exact ⟨broken', c', hc, rfl, rfl⟩
  | error fault c' =>
    simp only [hc] at hpass
    obtain ⟨fault, c', hpass⟩ := hpass
    exact absurd (hpass.symm.trans h) (by simp)

namespace Literal

/-- A line feed ends a run of hexadecimal digits. -/
theorem hexRun_append (l : List Char) (b : Brackets) :
    hexRun (l ++ ['\n', b.closing]) = hexRun l := by
  match l with
  | [] | [_] | [_, _] | [_, _, _] => 
    cases b <;> simp [hexRun, List.takeWhile_cons, Text.hexValue?]
  | x :: y :: z :: w :: l => simp [hexRun]

/-- Blanks up to the second line break are the same unless the text ends with them; then they go on
into what follows. -/
theorem continuation_append (broken : Bool) (l : List Char) (m : List Char) :
    continuation broken (l ++ m) = continuation broken l ∨
      l.length ≤ (continuation broken (l ++ m)).1 ∧ (continuation broken l).1 = l.length := by
  fun_induction continuation broken l
  case case1 => exact .inr ⟨Nat.zero_le _, rfl⟩
  case case2 => exact .inl rfl
  case case3 broken l hbroken n found hl ih =>
    rw [hl] at ih
    simp only [List.cons_append, continuation, hbroken, Bool.false_eq_true, if_false]
    rcases ih with ih | ⟨ih, ih'⟩
    · exact .inl (by rw [ih])
    · refine .inr ⟨?_, ?_⟩ <;> simp only [List.length_cons] <;> omega
  -- A carriage return at the end of the text would make a pair with the line feed after it.
  case case4 broken x l hpair hstop =>
    refine .inl ?_
    rw [List.cons_append]
    by_cases hcross : x = '\r' ∧ ∃ l', l ++ m = '\n' :: l'
    · obtain ⟨rfl, l', hl'⟩ := hcross
      have hbroken : broken = true := by
        cases broken with
        | true => rfl
        | false => exact absurd hstop (by decide)
      simp [hl', continuation, hbroken]
    · rw [continuation, if_pos hstop]
      exact fun l' hx hl' => hcross ⟨hx, l', hl'⟩
  case case5 broken x l hpair hstop n found hl ih =>
    rw [hl] at ih
    rw [List.cons_append]
    by_cases hcross : x = '\r' ∧ ∃ l', l ++ m = '\n' :: l'
    · obtain ⟨rfl, l', hl'⟩ := hcross
      cases l with
      | nil =>
        have hbroken : broken = false := by
          cases broken with
          | false => rfl
          | true => exact absurd (show _ = true by decide) hstop
        simp only [continuation, Prod.mk.injEq] at hl
        refine .inr ⟨?_, ?_⟩
        · simp [hl', continuation, hbroken]
        · simp [← hl.1]
      | cons y l =>
        simp only [List.cons_append, List.cons.injEq] at hl'
        obtain ⟨rfl, _⟩ := hl'
        exact absurd rfl (hpair l rfl)
    · rw [continuation, if_neg hstop]
      · rcases ih with ih | ⟨ih, ih'⟩
        · exact .inl (by rw [ih])
        · refine .inr ⟨?_, ?_⟩ <;> simp only [List.length_cons] <;> omega
      · exact fun l' hx hl' => hcross ⟨hx, l', hl'⟩

/-- An escape means the same, unless it takes up the text to its end and beyond. -/
theorem escape_append (e : Char) (l : List Char) (b : Brackets) :
    escape e (l ++ ['\n', b.closing]) = escape e l ∨
      (∀ t length, escape e l = .text t length → l.length + 1 ≤ length) ∧
      ∀ t length, escape e (l ++ ['\n', b.closing]) = .text t length → l.length + 1 ≤ length := by
  unfold escape
  cases named? e with
  | some u => exact .inl rfl
  | none =>
    by_cases hex : e = 'x' ∨ e = 'u'
    · simp only [hex, if_true, hexRun_append]
      exact .inl trivial
    · by_cases hblank : Text.isBlank e
      · simp only [hex, if_false, hblank, if_true]
        rcases continuation_append false (e :: l) ['\n', b.closing] with h | ⟨h, h'⟩
        · rw [List.cons_append] at h
          exact .inl (by rw [h])
        · refine .inr ⟨fun t length ht => ?_, fun t length ht => ?_⟩
          · split at ht
            · next n hn =>
              simp only [Escape.text.injEq] at ht
              simp only [hn, List.length_cons] at h'
              omega
            · simp at ht
          · split at ht
            · next n hn =>
              simp only [Escape.text.injEq] at ht
              simp only [List.cons_append, hn, List.length_cons] at h
              omega
            · simp at ht
      · simp only [hex, hblank, if_false, Bool.false_eq_true]
        exact .inl trivial

/-- A literal whose quotation character does not come again is not closed. -/
theorem body_error_of_not_mem {quotation : Char} (start : Nat) (before rest read : List Char)
    (h : quotation ∉ rest) : ∃ fault c, body quotation start before rest read = .error fault c := by
  fun_induction body quotation start before rest read
  case case1 | case3 | case4 => exact ⟨_, _, rfl⟩
  case case2 => simp at h
  case case5 e m t length _ _ ih =>
    refine ih fun hmem => h (List.mem_cons_of_mem _ (List.mem_of_mem_drop hmem))
  case case6 ih => exact ih fun hmem => h (List.mem_cons_of_mem _ hmem)

/-- So is one that ends in an escape which takes up the rest. -/
theorem body_escape_error {quotation e : Char} {start : Nat} {before rest read : List Char}
    (isQuotation : isQuotation quotation)
    (h : ∀ t length, escape e rest = .text t length → quotation ∉ (e :: rest).drop length) :
    ∃ fault c, body quotation start before (Text.backslash :: e :: rest) read = .error fault c := by
  cases he : escape e rest with
  | text t length =>
    rw [body_text isQuotation he]
    exact body_error_of_not_mem _ _ _ _ (h t length he)
  | malformed cause passed =>
    rw [body.eq_def]
    simp only [if_neg (ne_backslash isQuotation), if_true, he]
    exact ⟨_, _, rfl⟩

theorem mem_of_mem_drop_append {l m : List Char} {x : Char} {n : Nat} (hn : l.length ≤ n)
    (h : x ∈ (l ++ m).drop n) : x ∈ m := by
  rw [List.drop_append, List.drop_eq_nil_of_le hn, List.nil_append] at h
  exact List.mem_of_mem_drop h

/-- A literal of the enclosed text is closed where it is in the text. -/
theorem body_enclosed (b : Brackets) {quotation : Char} (isQuotation : isQuotation quotation)
    (start start' : Nat) (before rest read : List Char) :
    match body quotation start before rest read with
    | .ok l c => body quotation start' (before ++ ['\n', b.opening])
        (rest ++ ['\n', b.closing]) read = .ok l (c.enclosed b)
    | .error _ _ => ∃ fault c, body quotation start' (before ++ ['\n', b.opening])
        (rest ++ ['\n', b.closing]) read = .error fault c := by
  have hend : quotation ∉ ['\n', b.closing] := by
    rcases isQuotation_iff.1 isQuotation with rfl | rfl <;> cases b <;> decide
  -- What is added holds no quotation, so that it closes no literal.
  fun_induction body quotation start before rest read
  case case1 before read =>
    exact body_error_of_not_mem _ _ _ _ hend
  case case2 before rest read =>
    exact body_quotation
  case case3 before read hne =>
    refine body_error_of_not_mem _ _ _ _ fun hmem => ?_
    rcases List.mem_cons.1 hmem with rfl | hmem
    · exact hne rfl
    · exact hend hmem
  case case4 before read e m cause passed hescape hne here =>
    simp only [List.cons_append]
    refine body_escape_error isQuotation fun t length ht => ?_
    rcases escape_append e m b with h | ⟨_, h⟩
    · rw [h, hescape] at ht
      simp at ht
    · exact fun hmem => hend (mem_of_mem_drop_append (l := e :: m) (h t length ht) hmem)
  case case5 before read e m t length hescape hne ih =>
    by_cases hlength : m.length + 1 ≤ length
    · -- The escape takes up the text to its end, and nothing closes the literal any more.
      have hdrop : (e :: m).drop length = [] := List.drop_eq_nil_of_le hlength
      rw [hdrop, body] at ih ⊢
      simp only [List.cons_append]
      refine body_escape_error isQuotation fun t' length' ht => ?_
      have hlength' : m.length + 1 ≤ length' := by
        rcases escape_append e m b with h | ⟨_, h⟩
        · rw [h, hescape] at ht
          simp only [Escape.text.injEq] at ht
          omega
        · exact h t' length' ht
      exact fun hmem => hend (mem_of_mem_drop_append (l := e :: m) hlength' hmem)
    · have hescape' : escape e (m ++ ['\n', b.closing]) = .text t length := by
        rcases escape_append e m b with h | ⟨h, _⟩
        · rw [h, hescape]
        · exact absurd (h t length hescape) hlength
      have hle : length ≤ (e :: m).length := by rw [List.length_cons]; omega
      have htake : (e :: (m ++ ['\n', b.closing])).take length = (e :: m).take length := by
        rw [← List.cons_append, List.take_append_of_le_length hle]
      have hdrop : (e :: (m ++ ['\n', b.closing])).drop length =
          (e :: m).drop length ++ ['\n', b.closing] := by
        rw [← List.cons_append, List.drop_append_of_le_length hle]
      simp only [List.cons_append, body_text isQuotation hescape', htake, hdrop,
        List.append_assoc] at ih ⊢
      exact ih
  case case6 before read x m hquotation hbackslash ih =>
    rw [List.cons_append, body_plain hquotation hbackslash]
    exact ih

theorem rawQuotation?_append (l : List Char) (b : Brackets) :
    rawQuotation? (l ++ ['\n', b.closing]) = rawQuotation? l := by
  match l with
  | [] => rfl
  | [x] => by_cases hx : x = 'r' <;> simp [rawQuotation?, hx, isQuotation, Text.quotationMark,
      Text.apostrophe]
  | x :: y :: l => by_cases hx : x = 'r' <;> simp [rawQuotation?, hx]

theorem rawBody?_append {quotation : Char} (isQuotation : isQuotation quotation) (l : List Char)
    (b : Brackets) : rawBody? quotation (l ++ ['\n', b.closing]) =
      (rawBody? quotation l).map fun (m, rest) => (m, rest ++ ['\n', b.closing]) := by
  have hend : quotation ∉ ['\n', b.closing] := by
    rcases isQuotation_iff.1 isQuotation with rfl | rfl <;> cases b <;> decide
  induction l with
  | nil =>
    cases h : rawBody? quotation ([] ++ ['\n', b.closing]) with
    | none => rfl
    | some r =>
      obtain ⟨hr, _⟩ := rawBody?_eq_some.1 h
      rw [List.nil_append] at hr
      exact absurd (hr ▸ List.mem_append_right _ List.mem_cons_self) hend
  | cons x l ih =>
    rw [List.cons_append, rawBody?_cons, rawBody?_cons, ih]
    split
    · rfl
    · simp only [Option.map_map]
      rfl

end Literal

namespace Cursor

variable {c : Cursor} {x : Char}

theorem enclosed_next (h : c.rest ≠ []) : (c.enclosed b).next = c.next.enclosed b := by
  obtain ⟨before, _ | ⟨x, rest⟩⟩ := c
  · exact absurd rfl h
  · rfl

theorem enclosed_pass (l rest : List Char) :
    (c.enclosed b).pass l (rest ++ ['\n', b.closing]) = (c.pass l rest).enclosed b := by
  simp [enclosed, pass]

theorem reached_of_rest_ne (h : c.rest ≠ []) : c.reached b = c.enclosed b :=
  if_neg h

theorem peek?_enclosed (h : c.rest ≠ []) : (c.enclosed b).peek? = c.peek? := by
  obtain ⟨before, _ | ⟨x, rest⟩⟩ := c
  · exact absurd rfl h
  · rfl

theorem rest_ne_of_peek? (h : c.peek? = some x) : c.rest ≠ [] := by
  obtain ⟨rest, hr⟩ := rest_of_peek? h
  simp [hr]

/-- What stands at a place of the text stands also in the enclosed one, where blanks lead. -/
theorem peek?_reached_of (h : c.peek? = some x) : (c.reached b).peek? = some x := by
  rw [reached_of_rest_ne (rest_ne_of_peek? h), peek?_enclosed (rest_ne_of_peek? h), h]

theorem reached_next (h : c.peek? = some x) : (c.reached b).next = c.next.enclosed b := by
  rw [reached_of_rest_ne (rest_ne_of_peek? h), enclosed_next (rest_ne_of_peek? h)]

/-- Where blanks lead in the enclosed text stands what stands in the text, or the closing
bracket. -/
theorem peek?_reached (h : (c.reached b).peek? = some x) :
    c.peek? = some x ∧ c.reached b = c.enclosed b ∨ x = b.closing ∧ c.rest = [] := by
  by_cases hr : c.rest = []
  · rw [reached, if_pos hr] at h
    exact .inr ⟨(Option.some.inj h).symm, hr⟩
  · rw [reached_of_rest_ne hr, peek?_enclosed hr] at h
    exact .inl ⟨h, reached_of_rest_ne hr⟩

theorem of_peek?_reached (h : (c.reached b).peek? = some x) (hx : x ≠ b.closing) :
    c.peek? = some x := by
  rcases peek?_reached h with ⟨hpeek, _⟩ | ⟨he, _⟩
  · exact hpeek
  · exact absurd he hx

theorem of_peek?_enclosed (h : (c.enclosed b).peek? = some x) (hx : x ≠ '\n') :
    c.rest ≠ [] ∧ c.peek? = some x := by
  by_cases hr : c.rest = []
  · simp [enclosed, hr, peek?, Ne.symm hx] at h
  · exact ⟨hr, (peek?_enclosed hr).symm.trans h⟩

theorem reached_of_peek?_ne (h : (c.reached b).peek? ≠ some b.closing) :
    c.rest ≠ [] ∧ c.reached b = c.enclosed b := by
  by_cases hr : c.rest = []
  · simp [reached, hr, peek?] at h
  · exact ⟨hr, reached_of_rest_ne hr⟩

theorem peek?_reached_ne_none : (c.reached b).peek? ≠ none := by
  intro h
  by_cases hr : c.rest = []
  · simp [reached, hr, peek?] at h
  · rw [reached_of_rest_ne hr, peek?_enclosed hr, peek?] at h
    exact hr (List.head?_eq_none_iff.1 h)

end Cursor

namespace Scan

variable {c c' d : Cursor} {quotation : Char} {l : List Char}

theorem quoted_enclosed (opens : c.peek? = some quotation)
    (isQuotation : Literal.isQuotation quotation) (h : quoted quotation c = .ok l c') :
    quoted quotation (c.enclosed b) = .ok l (c'.enclosed b) := by
  have hbody := Literal.body_enclosed b isQuotation c.position (c.enclosed b).position
    c.next.before c.next.rest []
  rw [quoted] at h ⊢
  rw [h] at hbody
  rw [Cursor.enclosed_next (Cursor.rest_ne_of_peek? opens)]
  exact hbody

theorem of_quoted_enclosed (opens : c.peek? = some quotation)
    (isQuotation : Literal.isQuotation quotation)
    (h : quoted quotation (c.enclosed b) = .ok l d) :
    ∃ c', quoted quotation c = .ok l c' ∧ d = c'.enclosed b := by
  have hbody := Literal.body_enclosed b isQuotation c.position (c.enclosed b).position
    c.next.before c.next.rest []
  rw [quoted, Cursor.enclosed_next (Cursor.rest_ne_of_peek? opens)] at h
  cases hc : quoted quotation c with
  | ok l' c' =>
    rw [quoted] at hc
    simp only [hc] at hbody
    obtain ⟨rfl, rfl⟩ := by simpa using hbody.symm.trans h
    exact ⟨c', rfl, rfl⟩
  | error fault c' =>
    rw [quoted] at hc
    simp only [hc] at hbody
    obtain ⟨fault, c', hbody⟩ := hbody
    exact absurd (hbody.symm.trans h) (by simp)

theorem raw_enclosed_iff (opens : Literal.rawQuotation? c.rest = some quotation) :
    raw quotation (c.enclosed b) = .ok l d ↔ ∃ c', raw quotation c = .ok l c' ∧
      d = c'.enclosed b := by
  obtain ⟨rest, hrest, isQuotation⟩ := Literal.rawQuotation?_eq_some.1 opens
  have hnext : (c.enclosed b).next.next = c.next.next.enclosed b := by
    simp [Cursor.enclosed, Cursor.next, hrest]
  have hbody := Literal.rawBody?_append isQuotation c.next.next.rest b
  rw [raw_eq_ok, hnext]
  constructor
  · rintro ⟨rest', hr, rfl⟩
    obtain ⟨⟨m, rest'⟩, hm, he⟩ := Option.map_eq_some_iff.1 (hbody.symm.trans hr)
    simp only [Prod.mk.injEq] at he
    obtain ⟨rfl, rfl⟩ := he
    exact ⟨_, raw_eq_ok.2 ⟨rest', hm, rfl⟩, Cursor.enclosed_pass _ _⟩
  · rintro ⟨c', hc', rfl⟩
    obtain ⟨rest', hm, rfl⟩ := raw_eq_ok.1 hc'
    exact ⟨_, hbody.trans (congrArg (Option.map _) hm), Cursor.enclosed_pass _ _⟩

end Scan

namespace Token

theorem split_enclosed (inKey : Bool) (l : List Char) (b : Brackets) :
    split inKey (l ++ ['\n', b.closing]) =
      ((split inKey l).1, (split inKey l).2 ++ ['\n', b.closing]) := by
  have hstop : continues inKey '\n' = false := by cases inKey <;> decide
  have htake : ∀ m : List Char, (m ++ ['\n', b.closing]).takeWhile (continues inKey) =
      m.takeWhile (continues inKey) := by
    intro m
    induction m with
    | nil => simp [hstop]
    | cons x m ih => simp only [List.cons_append, List.takeWhile_cons, ih]
  have hdrop : ∀ m : List Char, (m ++ ['\n', b.closing]).dropWhile (continues inKey) =
      m.dropWhile (continues inKey) ++ ['\n', b.closing] := by
    intro m
    induction m with
    | nil => simp [hstop]
    | cons x m ih =>
      simp only [List.cons_append, List.dropWhile_cons, ih]
      split <;> rfl
  cases l with
  | nil => simp [split_cons, starts, hstop]
  | cons x m =>
    simp only [List.cons_append, split_cons, htake, hdrop]
    split <;> rfl

end Token
end TextualData
