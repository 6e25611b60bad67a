import TextualData.Proofs.Reading
import TextualData.Proofs.Separation

/-!
# Reading moves forward

`Cursor.Leads` says that one place of a window comes after another, with the same text around.
Every scan leads on, and a phrase of the notation leads on as a whole; an expression takes at least
one character.
-/

namespace TextualData

/-- The second place lies at or after the first in the same window. -/
def Cursor.Leads (c c' : Cursor) : Prop :=
  ∃ l, c.rest = l ++ c'.rest ∧ c'.before = l.reverse ++ c.before

namespace Cursor

variable {c c' c'' : Cursor}

theorem Leads.refl (c : Cursor) : c.Leads c :=
  ⟨[], rfl, rfl⟩

theorem Leads.trans (h : c.Leads c') (h' : c'.Leads c'') : c.Leads c'' := by
  obtain ⟨l, hr, hb⟩ := h
  obtain ⟨m, hr', hb'⟩ := h'
  exact ⟨l ++ m, by rw [hr, hr', List.append_assoc],
    by rw [hb', hb, List.reverse_append, List.append_assoc]⟩

theorem Leads.length_le (h : c.Leads c') : c'.rest.length ≤ c.rest.length := by
  obtain ⟨l, hr, _⟩ := h
  simp [hr]

theorem leads_cons (x : Char) (before rest : List Char) :
    Leads ⟨before, x :: rest⟩ ⟨x :: before, rest⟩ :=
  ⟨[x], rfl, rfl⟩

theorem Leads.next (c : Cursor) : c.Leads c.next := by
  obtain ⟨before, _ | ⟨x, rest⟩⟩ := c
  · exact .refl _
  · exact leads_cons x before rest

theorem leads_pass {l rest : List Char} (h : c.rest = l ++ rest) : c.Leads (c.pass l rest) :=
  ⟨l, h, rfl⟩

theorem next_of_rest {x : Char} {rest : List Char} (h : c.rest = x :: rest) :
    c.next = ⟨x :: c.before, rest⟩ := by
  simp [next, h]

theorem rest_of_peek? {x : Char} (h : c.peek? = some x) : ∃ rest, c.rest = x :: rest :=
  List.head?_eq_some_iff.1 h

theorem next_length_lt {x : Char} (h : c.peek? = some x) :
    c.next.rest.length < c.rest.length := by
  obtain ⟨rest, hr⟩ := rest_of_peek? h
  simp [next_of_rest hr, hr]

end Cursor

namespace Blanks

theorem leads_of_pass (mode : Mode) (broken : Bool) (before rest : List Char) {b : Bool}
    {c : Cursor} (h : pass mode broken before rest = .ok b c) :
    (Cursor.mk before rest).Leads c := by
  -- The cases are those of the scan: three stop, one fails, the rest take one character or three.
  fun_induction pass mode broken before rest
  case case1 | case5 | case6 =>
    simp only [EStateM.Result.ok.injEq] at h
    obtain ⟨_, rfl⟩ := h
    exact .refl _
  case case2 ih | case3 ih | case4 ih | case7 ih | case8 ih | case11 ih =>
    exact (Cursor.leads_cons _ _ _).trans (ih h)
  case case9 => simp at h
  case case10 broken before rest ih =>
    exact .trans ⟨['-', '-', '>'], rfl, rfl⟩ (ih h)

end Blanks

theorem Scan.leads_of_blanks {c c' : Cursor} {broken : Bool}
    (h : Scan.blanks c = .ok broken c') : c.Leads c' :=
  Blanks.leads_of_pass _ _ _ _ h

namespace Literal

theorem leads_of_body (quotation : Char) (start : Nat) (before rest read : List Char)
    {l : List Char} {c : Cursor} (h : body quotation start before rest read = .ok l c) :
    (Cursor.mk before rest).Leads c := by
  fun_induction body quotation start before rest read
  case case1 | case3 | case4 => simp at h
  case case2 =>
    simp only [EStateM.Result.ok.injEq] at h
    obtain ⟨_, rfl⟩ := h
    exact Cursor.leads_cons _ _ _
  case case5 e m t length _ _ ih =>
    -- An escape is passed as a whole, the backslash before it as a character.
    refine (Cursor.leads_cons _ _ _).trans (.trans ⟨(e :: m).take length, ?_, rfl⟩ (ih h))
    exact (List.take_append_drop _ _).symm
  case case6 ih => exact (Cursor.leads_cons _ _ _).trans (ih h)

theorem rawBody?_cons (quotation x : Char) (l : List Char) :
    rawBody? quotation (x :: l) = if x = quotation then some ([], l)
      else (rawBody? quotation l).map fun (m, rest) => (x :: m, rest) := by
  by_cases hx : x = quotation
  · simp [rawBody?, hx]
  · cases hd : l.dropWhile (· != quotation) <;> simp [rawBody?, hx, hd]

/-- A raw literal ends at the first quotation character. -/
theorem rawBody?_eq_some {quotation : Char} {l m rest : List Char} :
    rawBody? quotation l = some (m, rest) ↔ l = m ++ quotation :: rest ∧ quotation ∉ m := by
  -- The search may stop at the first character, so the text before the quotation varies.
  induction l generalizing m with
  | nil => simp [rawBody?]
  | cons x l ih =>
    rw [rawBody?_cons]
    by_cases hx : x = quotation
    · subst hx
      cases m with
      | nil => simp
      | cons y m =>
        simp only [if_true, Option.some.injEq, Prod.mk.injEq, reduceCtorEq, false_and,
          false_iff, List.cons_append, List.cons.injEq, List.mem_cons, not_or]
        rintro ⟨⟨rfl, _⟩, hne, _⟩
        exact hne rfl
    · cases m with
      | nil => simp [hx]
      | cons y m =>
        simp only [hx, if_false, Option.map_eq_some_iff, Prod.exists, Prod.mk.injEq,
          List.cons.injEq, List.cons_append, List.mem_cons, not_or]
        constructor
        · rintro ⟨a, b, hab, ⟨rfl, rfl⟩, rfl⟩
          obtain ⟨hl, hm⟩ := ih.1 hab
          exact ⟨⟨rfl, hl⟩, fun h => hx h.symm, hm⟩
        · rintro ⟨⟨rfl, hl⟩, _, hm⟩
          exact ⟨m, rest, ih.2 ⟨hl, hm⟩, ⟨rfl, rfl⟩, rfl⟩

end Literal

namespace Scan

variable {c c' : Cursor} {l : List Char}

theorem quoted_length_lt {quotation : Char} (opens : c.peek? = some quotation)
    (h : quoted quotation c = .ok l c') :
    c.Leads c' ∧ c'.rest.length < c.rest.length := by
  have hnext := Literal.leads_of_body _ _ _ _ _ h
  exact ⟨(Cursor.Leads.next c).trans hnext,
    Nat.lt_of_le_of_lt hnext.length_le (Cursor.next_length_lt opens)⟩

theorem raw_eq_ok {quotation : Char} : raw quotation c = .ok l c' ↔
    ∃ rest, Literal.rawBody? quotation c.next.next.rest = some (l, rest) ∧
      c.next.next.pass (l ++ [quotation]) rest = c' := by
  unfold raw
  cases h : Literal.rawBody? quotation c.next.next.rest with
  | none => simp
  | some r =>
    obtain ⟨m, rest⟩ := r
    simp only [EStateM.Result.ok.injEq, Option.some.injEq, Prod.mk.injEq]
    constructor
    · rintro ⟨rfl, rfl⟩
      exact ⟨rest, ⟨rfl, rfl⟩, rfl⟩
    · rintro ⟨_, ⟨rfl, rfl⟩, rfl⟩
      exact ⟨rfl, rfl⟩

theorem raw_leads {quotation : Char} (h : raw quotation c = .ok l c') :
    c.next.next.Leads c' ∧ c'.rest.length < c.next.next.rest.length := by
  obtain ⟨rest, hbody, rfl⟩ := raw_eq_ok.1 h
  obtain ⟨hrest, _⟩ := Literal.rawBody?_eq_some.1 hbody
  have hrest : c.next.next.rest = (l ++ [quotation]) ++ rest := by simp [hrest]
  refine ⟨Cursor.leads_pass hrest, ?_⟩
  simp only [hrest, Cursor.pass, List.length_append, List.length_singleton]
  omega

end Scan

theorem SeparatorAt.leads {closing : Option Char} {refusal : Option ColonRefusal} {broken : Bool}
    {c c' : Cursor} {sep : Separator} (h : SeparatorAt closing refusal broken c sep c') :
    c.Leads c' := by
  cases h with
  | closing | unfinished | lineBreak => exact .refl c
  | colon _ _ blanks | comma _ blanks =>
    exact (Cursor.Leads.next c).trans (Scan.leads_of_blanks blanks)

theorem Scan.leads_of_separator {closing : Option Char} {refusal : Option ColonRefusal}
    {c c' : Cursor} {sep : Separator} (h : Scan.separator closing refusal c = .ok sep c') :
    c.Leads c' := by
  obtain ⟨broken, c₁, hb, hs⟩ := separator_eq_ok.1 h
  exact (leads_of_blanks hb).trans hs.leads

/-- A token takes up the characters that it consists of. -/
theorem Token.leads_pass {inKey : Bool} {c : Cursor} {l rest : List Char}
    (split : Token.split inKey c.rest = (l, rest)) : c.Leads (c.pass l rest) := by
  have h := split_append inKey c.rest
  rw [split] at h
  exact Cursor.leads_pass h.symm

theorem Token.length_lt {inKey : Bool} {c : Cursor} {l rest : List Char}
    (split : Token.split inKey c.rest = (l, rest)) (nonempty : l ≠ []) :
    rest.length < c.rest.length := by
  have h := split_append inKey c.rest
  simp only [split] at h
  have := List.length_pos_iff.2 nonempty
  rw [← h, List.length_append]
  omega

/-- A phrase leads forward. -/
theorem Reads.leads {resolves : FunctionCall → Value → Prop} {phrase : Phrase} {c c' : Cursor}
    (h : Reads resolves phrase c c') : c.Leads c' := by
  induction h with
  | hash _ blanks _ ih | sequence _ blanks _ ih =>
    exact (Cursor.Leads.next _).trans ((Scan.leads_of_blanks blanks).trans
      (ih.trans (Cursor.Leads.next _)))
  | quoted opens _ literal => exact (Scan.quoted_length_lt opens literal).1
  | raw _ literal =>
    exact (Cursor.Leads.next _).trans ((Cursor.Leads.next _).trans (Scan.raw_leads literal).1)
  | token _ split => exact Token.leads_pass split
  | call _ split _ blanks _ blanks' _ _ ih | keyCall _ split _ blanks _ blanks' _ ih =>
    exact (Token.leads_pass split).trans ((Scan.leads_of_blanks blanks).trans
      ((Cursor.Leads.next _).trans ((Scan.leads_of_blanks blanks').trans
        (ih.trans (Cursor.Leads.next _)))))
  | noItems | noEntries => exact .refl _
  | item _ _ separated _ ih ih' => exact ih.trans ((Scan.leads_of_separator separated).trans ih')
  | pair _ _ _ colon _ _ separated _ ih ih' ih'' =>
    exact ih.trans ((Scan.leads_of_separator colon).trans (ih'.trans
      ((Scan.leads_of_separator separated).trans ih'')))
  | flag _ _ separated _ _ ih ih' => exact ih.trans ((Scan.leads_of_separator separated).trans ih')
  | merge _ _ _ separated _ _ ih ih' =>
    exact ih.trans ((Scan.leads_of_separator separated).trans ih')

/-- An expression takes at least one character. -/
theorem Reads.length_lt {resolves : FunctionCall → Value → Prop} {forced inKey : Bool} {v : Value}
    {c c' : Cursor} (h : Reads resolves (.value forced inKey v) c c') :
    c'.rest.length < c.rest.length := by
  cases h with
  | hash opens blanks inner | sequence opens blanks inner =>
    have h₁ := Cursor.next_length_lt opens
    have h₂ :=
      ((Scan.leads_of_blanks blanks).trans (inner.leads.trans (Cursor.Leads.next _))).length_le
    omega
  | quoted opens _ literal => exact (Scan.quoted_length_lt opens literal).2
  | raw opens literal =>
    have h₁ := ((Cursor.Leads.next c).trans (Cursor.Leads.next _)).length_le
    have h₂ := (Scan.raw_leads literal).2
    omega
  | token _ split nonempty => exact Token.length_lt split nonempty
  | call _ split nonempty blanks opens blanks' inner
  | keyCall _ split nonempty blanks opens blanks' inner =>
    have h₁ := Token.length_lt split nonempty
    -- The name makes the call shorter; blanks, parameters and brackets do not make it longer.
    have h₂ := (Scan.leads_of_blanks blanks).length_le
    have h₃ :=
      ((Scan.leads_of_blanks blanks').trans (inner.leads.trans (Cursor.Leads.next _))).length_le
    have h₄ := Cursor.next_length_lt opens
    simp only [Cursor.pass] at h₂
    omega

end TextualData
