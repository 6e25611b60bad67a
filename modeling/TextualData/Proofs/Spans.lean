import TextualData.Proofs.Gaps

/-!
# Spans

The characters between two places of a text may stand between two places of another text too
(`Cursor.SameSpan`). A scan that leads from the one place to the other in the first text then does
so in the second, if the places are alike in what the scan looks at around them: the line up to the
first place, and the character at the second.
-/

namespace TextualData

namespace Cursor

/-- The characters from the one place to the other. -/
def Spans (l : List Char) (c c' : Cursor) : Prop :=
  c.rest = l ++ c'.rest ∧ c'.before = l.reverse ++ c.before

/-- The same characters stand between two places of a text and between two of another. -/
def SameSpan (c c' t t' : Cursor) : Prop :=
  ∃ l, Spans l c c' ∧ Spans l t t'

/-- Two places have the same in front of them in their lines, as far as comments go. -/
def SameLine (c t : Cursor) : Prop :=
  Text.isLineBlankBefore c.before = Text.isLineBlankBefore t.before

variable {c c' c₁ t t' t₁ : Cursor} {l : List Char}

theorem Spans.leads (h : Spans l c c') : c.Leads c' :=
  ⟨l, h⟩

theorem spans_pass {rest : List Char} (h : c.rest = l ++ rest) : Spans l c (c.pass l rest) :=
  ⟨h, rfl⟩

theorem Spans.unique {l' : List Char} (h : Spans l c c') (h' : Spans l' c c') : l = l' :=
  List.append_cancel_right (h.1.symm.trans h'.1)

theorem Spans.eq_of_spans (h : Spans l c c') (h' : Spans l c c₁) : c' = c₁ := by
  obtain ⟨before, rest⟩ := c'
  obtain ⟨before₁, rest₁⟩ := c₁
  obtain ⟨hrest, hbefore⟩ := h
  obtain ⟨hrest', hbefore'⟩ := h'
  simp only at hrest hbefore hrest' hbefore'
  rw [hbefore, hbefore', List.append_cancel_left (hrest.symm.trans hrest')]

/-- The line goes on with the same characters. -/
theorem SameLine.of_spans (line : SameLine c t) (h : Spans l c c') (h' : Spans l t t') :
    SameLine c' t' := by
  rw [SameLine, h.2, h'.2]
  exact Text.isLineBlankBefore_append line _

namespace SameSpan

theorem line (h : SameSpan c c' t t') (line : SameLine c t) : SameLine c' t' := by
  obtain ⟨l, hc, ht⟩ := h
  exact line.of_spans hc ht

/-- A place between two of the first text has its like between two of the second. -/
theorem split (h : SameSpan c c' t t') (h₁ : c.Leads c₁) (h₂ : c₁.Leads c') :
    ∃ t₁, SameSpan c c₁ t t₁ ∧ SameSpan c₁ c' t₁ t' := by
  obtain ⟨l, hc, ht, hb⟩ := h
  obtain ⟨l₁, hc₁⟩ := h₁
  obtain ⟨l₂, hc₂⟩ := h₂
  obtain rfl : l = l₁ ++ l₂ := hc.unique
    ⟨by rw [hc₁.1, hc₂.1, List.append_assoc],
      by rw [hc₂.2, hc₁.2, List.reverse_append, List.append_assoc]⟩
  refine ⟨t.pass l₁ (l₂ ++ t'.rest), ⟨l₁, hc₁, spans_pass (by rw [ht, List.append_assoc])⟩, l₂,
    hc₂, rfl, ?_⟩
  rw [hb, List.reverse_append, List.append_assoc]
  rfl

/-- Over a single character. -/
theorem next {x : Char} (h : SameSpan c c.next t t') (hpeek : c.peek? = some x) :
    t.peek? = some x ∧ t' = t.next := by
  obtain ⟨rest, hrest⟩ := rest_of_peek? hpeek
  obtain ⟨l, hc, ht⟩ := h
  have hnext : Spans [x] c c.next := by
    rw [next_of_rest hrest]
    exact ⟨hrest, rfl⟩
  obtain rfl := hc.unique hnext
  have hrest' : t.rest = x :: t'.rest := ht.1
  refine ⟨by simp [Cursor.peek?, hrest'], ht.eq_of_spans ?_⟩
  rw [next_of_rest hrest']
  exact ⟨hrest', rfl⟩

/-- After the first character. -/
theorem after_next (h : SameSpan c c' t t') (hlt : c'.rest.length < c.rest.length) :
    SameSpan c c.next t t.next ∧ SameSpan c.next c' t.next t' := by
  obtain ⟨l, hc, ht⟩ := h
  cases l with
  | nil => simp [hc.1] at hlt
  | cons x l =>
    have hrest : c.rest = x :: (l ++ c'.rest) := hc.1
    have hrest' : t.rest = x :: (l ++ t'.rest) := ht.1
    rw [next_of_rest hrest, next_of_rest hrest']
    refine ⟨⟨[x], ⟨hrest, rfl⟩, ⟨hrest', rfl⟩⟩, l, ⟨rfl, ?_⟩, rfl, ?_⟩
    · simp [hc.2]
    · simp [ht.2]

end SameSpan
end Cursor

open Cursor

variable {c c' c₁ t t' : Cursor}

/-- Blanks lead over the same characters in any text, up to anything but an angle bracket. -/
theorem Scan.blanks_of_sameSpan {broken : Bool} {x : Char} (h : SameSpan c c' t t')
    (line : SameLine c t) (hpeek : c'.peek? = some x) (hpeek' : t'.peek? = some x) (hx : x ≠ '<')
    (blanks : Scan.blanks c = .ok broken c') : Scan.blanks t = .ok broken t' := by
  have hline := h.line line
  obtain ⟨l, hc, ht⟩ := h
  obtain ⟨rest, hrest⟩ := rest_of_peek? hpeek
  obtain ⟨l', hl, hb, hgap⟩ := gap_of_blanks blanks (by simp [hrest])
  obtain rfl := hc.unique ⟨hl, hb⟩
  obtain ⟨hblank, hsign⟩ := stops_of_blanks blanks hpeek
  have hstop : Scan.blanks t' = .ok false t' :=
    blanks_of_peek? hpeek' hblank hx fun he => (show _ = _ from hline) ▸ hsign he
  rw [show Text.isLineBlankBefore c.before = _ from line] at hgap
  have hpass : t.pass l t'.rest = t' := (spans_pass ht.1).eq_of_spans ht
  have hblanks := blanks_gap ht.1 hgap (by rw [hpass]; exact hstop)
  rwa [Bool.or_false] at hblanks

theorem Cursor.SameSpan.eq_of_refl (h : SameSpan c c t t') : t' = t := by
  obtain ⟨l, hc, ht⟩ := h
  obtain rfl : l = [] := hc.unique ⟨rfl, rfl⟩
  exact ht.eq_of_spans ⟨rfl, rfl⟩

/-- Behind the same character that is no blank the line is the same. -/
theorem Cursor.sameLine_next {x : Char} (hc : c.peek? = some x) (ht : t.peek? = some x)
    (hx : Text.isBlank x = false) : SameLine c.next t.next := by
  obtain ⟨rest, hrest⟩ := rest_of_peek? hc
  obtain ⟨rest', hrest'⟩ := rest_of_peek? ht
  rw [SameLine, next_of_rest hrest, next_of_rest hrest',
    Text.isLineBlankBefore_of_not_isBlank hx, Text.isLineBlankBefore_of_not_isBlank hx]

/-- A mark and the blanks after it. -/
private theorem mark_of_sameSpan {broken : Bool} {x y : Char} (h : SameSpan c c' t t')
    (mark : c.peek? = some y) (hy : Text.isBlank y = false) (hpeek : c'.peek? = some x)
    (hpeek' : t'.peek? = some x) (hx : x ≠ '<') (blanks : Scan.blanks c.next = .ok broken c') :
    t.peek? = some y ∧ Scan.blanks t.next = .ok broken t' := by
  have hlt := Nat.lt_of_le_of_lt (Scan.leads_of_blanks blanks).length_le (next_length_lt mark)
  obtain ⟨hnext, hafter⟩ := h.after_next hlt
  obtain ⟨hmark, _⟩ := hnext.next mark
  exact ⟨hmark, Scan.blanks_of_sameSpan hafter (sameLine_next mark hmark hy) hpeek hpeek' hx blanks⟩

/-- What separates two items separates them in any text. -/
theorem Scan.separator_of_sameSpan {closing : Option Char} {refusal : Option ColonRefusal}
    {separator : Separator} {x : Char} (h : SameSpan c c' t t') (line : SameLine c t)
    (hpeek : c'.peek? = some x) (hpeek' : t'.peek? = some x) (hx : x ≠ '<')
    (separated : Scan.separator closing refusal c = .ok separator c') :
    Scan.separator closing refusal t = .ok separator t' := by
  obtain ⟨broken, c₁, hblanks, hseparator⟩ := separator_eq_ok.1 separated
  obtain ⟨t₁, h₁, h₂⟩ := h.split (leads_of_blanks hblanks) hseparator.leads
  cases hseparator with
  | closing closes noMark =>
    obtain rfl := h₂.eq_of_refl
    exact separator_eq_ok.2 ⟨_, _, blanks_of_sameSpan h₁ line hpeek hpeek' hx hblanks,
      .closing (hpeek'.trans (hpeek.symm.trans closes)) noMark⟩
  | unfinished ends => simp [hpeek] at ends
  | colon mark allowed blanks =>
    obtain ⟨hmark, hafter⟩ := mark_of_sameSpan h₂ mark (by decide) hpeek hpeek' hx blanks
    exact separator_eq_ok.2 ⟨_, _, blanks_of_sameSpan h₁ line mark hmark (by decide) hblanks,
      .colon hmark allowed hafter⟩
  | comma mark blanks =>
    obtain ⟨hmark, hafter⟩ := mark_of_sameSpan h₂ mark (by decide) hpeek hpeek' hx blanks
    exact separator_eq_ok.2 ⟨_, _, blanks_of_sameSpan h₁ line mark hmark (by decide) hblanks,
      .comma hmark hafter⟩
  | lineBreak next goesOn noMark isBroken =>
    obtain rfl := h₂.eq_of_refl
    obtain rfl := Option.some.inj (hpeek.symm.trans next)
    exact separator_eq_ok.2 ⟨_, _, blanks_of_sameSpan h₁ line hpeek hpeek' hx hblanks,
      .lineBreak hpeek' goesOn noMark isBroken⟩

/-- A token is the same token in any text where it ends. -/
theorem Token.split_of_sameSpan {inKey : Bool} {l rest : List Char}
    (h : SameSpan c (c.pass l rest) t t') (split : Token.split inKey c.rest = (l, rest))
    (nonempty : l ≠ []) (ends : ∀ x, t'.peek? = some x → continues inKey x = false) :
    Token.split inKey t.rest = (l, t'.rest) ∧ t' = t.pass l t'.rest := by
  have hsplit := split_append inKey c.rest
  rw [split] at hsplit
  obtain ⟨l', hc, ht⟩ := h
  obtain rfl := hc.unique (spans_pass hsplit.symm)
  refine ⟨?_, ht.eq_of_spans (spans_pass ht.1)⟩
  obtain ⟨x, l, rfl⟩ := List.exists_cons_of_ne_nil nonempty
  obtain ⟨hx, m, _, rfl, _⟩ := split_eq_cons.1 split
  rw [ht.1]
  exact split_of_ends hx (List.all_eq_true.1 List.all_takeWhile) ends

/-- What makes a raw literal of a token is in its first character and the one after it. -/
theorem Literal.rawQuotation?_congr {l rest rest' : List Char} (nonempty : l ≠ [])
    (h : rest.head? = rest'.head?) : rawQuotation? (l ++ rest) = rawQuotation? (l ++ rest') := by
  match l with
  | [x] =>
    cases rest with
    | nil =>
      cases rest' with
      | nil => rfl
      | cons => simp at h
    | cons y rest =>
      cases rest' with
      | nil => simp at h
      | cons z rest' =>
        obtain rfl : y = z := by simpa using h
        by_cases hx : x = 'r'
        · subst hx; rfl
        · simp [rawQuotation?, hx]
  | x :: y :: l =>
    by_cases hx : x = 'r'
    · subst hx; rfl
    · simp [rawQuotation?, hx]

namespace Literal

/-- A continuation depends on the blanks at the start of a text only. -/
theorem continuation_takeWhile (broken : Bool) (l : List Char) :
    continuation broken (l.takeWhile Text.isBlank) = continuation broken l := by
  have hreturn : Text.isBlank '\r' := by decide
  have hfeed : Text.isBlank '\n' := by decide
  -- A carriage return at the end of the blanks has no line feed after it in the text either.
  have hpair : ∀ {c : Char} {l : List Char},
      (∀ m, c = '\r' → l = '\n' :: m → False) → ∀ m, c = '\r' →
        l.takeWhile Text.isBlank = '\n' :: m → False := by
    intro c l hno m hc hm
    cases l with
    | nil => simp at hm
    | cons y l =>
      rw [List.takeWhile_cons] at hm
      split at hm
      · obtain ⟨rfl, _⟩ := List.cons.inj hm
        exact hno l hc rfl
      · simp at hm
  fun_induction continuation broken l
  case case1 => rfl
  case case2 => simp [hreturn, hfeed, continuation]
  case case3 hbroken n found hl ih => simp [hreturn, hfeed, continuation, hbroken, ih, hl]
  case case4 broken c l hno hstop =>
    by_cases hblank : Text.isBlank c
    · rw [List.takeWhile_cons_of_pos hblank, continuation.eq_3 _ _ _ (hpair hno), if_pos hstop]
    · rw [List.takeWhile_cons_of_neg hblank]
      rfl
  case case5 broken c l hno hstop n found hl ih =>
    have hblank : Text.isBlank c := by
      simp only [Bool.or_eq_true, Bool.not_eq_true', not_or, Bool.not_eq_false] at hstop
      exact hstop.1
    rw [List.takeWhile_cons_of_pos hblank, continuation.eq_3 _ _ _ (hpair hno), if_neg hstop, ih,
      hl]

/-- An escape ends before the quotation that closes its literal. -/
theorem escape_append_quotation {quotation : Char} (isQuotation : Literal.isQuotation quotation)
    (e : Char) (m rest rest' : List Char) :
    escape e (m ++ quotation :: rest) = escape e (m ++ quotation :: rest') := by
  have htake : ∀ {p : Char → Bool}, p quotation = false → ∀ l : List Char,
      (l ++ quotation :: rest).takeWhile p = (l ++ quotation :: rest').takeWhile p := by
    intro p hp l
    simp only [List.takeWhile_append, List.takeWhile_cons, hp, Bool.false_eq_true, if_false]
  have hhex : hexRun (m ++ quotation :: rest) = hexRun (m ++ quotation :: rest') := by
    rw [hexRun, hexRun, ← List.take_takeWhile, ← List.take_takeWhile,
      htake (not_hexValue? (.inl isQuotation))]
  have hcontinuation : continuation false (e :: (m ++ quotation :: rest)) =
      continuation false (e :: (m ++ quotation :: rest')) := by
    rw [← continuation_takeWhile, ← List.cons_append, htake (not_isBlank (.inl isQuotation)),
      List.cons_append, continuation_takeWhile]
  rw [escape, escape, hhex, hcontinuation]

/-- A quoted literal reads the same in any text. -/
theorem body_of_body {quotation : Char} (isQuotation : Literal.isQuotation quotation)
    (start : Nat) (before rest read : List Char) {l : List Char} {c : Cursor}
    (h : body quotation start before rest read = .ok l c) :
    ∃ k, rest = k ++ quotation :: c.rest ∧ c.before = quotation :: (k.reverse ++ before) ∧
      ∀ start' before' rest', body quotation start' before' (k ++ quotation :: rest') read =
        .ok l ⟨quotation :: (k.reverse ++ before'), rest'⟩ := by
  fun_induction body quotation start before rest read
  case case1 | case3 | case4 => simp at h
  case case2 before read m =>
    simp only [EStateM.Result.ok.injEq] at h
    obtain ⟨rfl, rfl⟩ := h
    exact ⟨[], rfl, rfl, fun _ _ _ => body_quotation⟩
  case case5 before read e m t length hescape hne ih =>
    obtain ⟨k, hk, hb, hbody⟩ := ih h
    obtain ⟨n, rfl, _⟩ := escape_plain hescape
    rw [List.drop_succ_cons] at hk
    rw [List.take_succ_cons] at hb
    have hm : m = m.take n ++ k ++ quotation :: c.rest := by
      rw [List.append_assoc, ← hk, List.take_append_drop]
    have hlength : (m.take n).length = n := by
      have hlength := congrArg List.length hk
      simp only [List.length_drop, List.length_append, List.length_cons] at hlength
      rw [List.length_take]
      omega
    refine ⟨Text.backslash :: e :: (m.take n ++ k),
      by rw [List.cons_append, List.cons_append, ← hm], by simp [hb],
      fun start' before' rest' => ?_⟩
    -- The escape ends before the quotation, so what comes after does not matter for it.
    rw [hm, escape_append_quotation isQuotation e _ _ rest'] at hescape
    rw [List.cons_append, List.cons_append, body_text isQuotation hescape, List.take_succ_cons,
      List.drop_succ_cons, List.append_assoc, List.take_left' hlength, List.drop_left' hlength,
      hbody]
    simp
  case case6 before read x m hquotation hbackslash ih =>
    obtain ⟨k, hk, hb, hbody⟩ := ih h
    refine ⟨x :: k, by rw [hk]; rfl, by simp [hb], fun start' before' rest' => ?_⟩
    rw [List.cons_append, body_plain hquotation hbackslash, hbody]
    simp

end Literal

/-- A quoted literal is the same literal in any text. -/
theorem Scan.quoted_of_sameSpan {quotation : Char} {l : List Char} (h : SameSpan c c' t t')
    (opens : c.peek? = some quotation) (isQuotation : Literal.isQuotation quotation)
    (literal : Scan.quoted quotation c = .ok l c') :
    t.peek? = some quotation ∧ Scan.quoted quotation t = .ok l t' := by
  have hlt := (quoted_length_lt opens literal).2
  obtain ⟨hnext, m, hc, ht⟩ := h.after_next hlt
  obtain ⟨k, hk, hb, hbody⟩ := Literal.body_of_body isQuotation _ _ _ _ literal
  obtain rfl : m = k ++ [quotation] := hc.unique ⟨by simp [hk], by simp [hb]⟩
  refine ⟨(hnext.next opens).1, ?_⟩
  have hrest : t.next.rest = k ++ quotation :: t'.rest := by simp [ht.1]
  have ht' : t' = ⟨quotation :: (k.reverse ++ t.next.before), t'.rest⟩ := by
    rw [← show t'.before = quotation :: (k.reverse ++ t.next.before) by simp [ht.2]]
  rw [Scan.quoted, hrest, hbody, ← ht']

/-- A raw literal is the same literal in any text. -/
theorem Scan.raw_of_sameSpan {quotation : Char} {l : List Char} (h : SameSpan c c' t t')
    (opens : Literal.rawQuotation? c.rest = some quotation)
    (literal : Scan.raw quotation c = .ok l c') :
    Literal.rawQuotation? t.rest = some quotation ∧ Scan.raw quotation t = .ok l t' := by
  obtain ⟨rest, hrest, isQuotation⟩ := Literal.rawQuotation?_eq_some.1 opens
  have hnext : c.next.next = ⟨quotation :: 'r' :: c.before, rest⟩ := by
    rw [next_of_rest hrest, next_of_rest rfl]
  obtain ⟨rest', hbody, rfl⟩ := raw_eq_ok.1 literal
  obtain ⟨hl, hfirst⟩ := Literal.rawBody?_eq_some.1 hbody
  obtain rfl : rest = l ++ quotation :: rest' := by simpa [hnext] using hl
  obtain ⟨m, hc, ht⟩ := h
  obtain rfl : m = 'r' :: quotation :: (l ++ [quotation]) :=
    hc.unique ⟨by simp [hrest, Cursor.pass], by simp [hnext, Cursor.pass]⟩
  have hrest' : t.rest = 'r' :: quotation :: (l ++ quotation :: t'.rest) := by simp [ht.1]
  refine ⟨Literal.rawQuotation?_eq_some.2 ⟨_, hrest', isQuotation⟩, raw_eq_ok.2 ⟨t'.rest, ?_, ?_⟩⟩
  · rw [next_of_rest hrest', next_of_rest rfl]
    exact Literal.rawBody?_eq_some.2 ⟨rfl, hfirst⟩
  · rw [next_of_rest hrest', next_of_rest rfl]
    exact Spans.eq_of_spans (l := 'r' :: quotation :: (l ++ [quotation]))
      ⟨by simp [hrest', Cursor.pass], by simp [Cursor.pass]⟩ ht

end TextualData
