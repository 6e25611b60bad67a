import TextualData.Proofs.FinishingRuns
import TextualData.Proofs.Invocations
import TextualData.Proofs.OffsetLiterals

/-!
# Rounds of loops

Five functions go on by invoking themselves: the items and the entries of evaluation, the items that
are passed over, blanks, and the characters of a quoted literal. A `Loop` has the rounds of such a
function, and `Loop.Advances` says that they make it up: the run from a state is that of the next
round, which is strictly further on in the window, or it returns. So it returns after as many rounds
as there are bytes in the window at the most.
-/

namespace TextualData

namespace Cursor

variable {c d e : Cursor}

/-- The byte offset of the end of the window. -/
def stop (c : Cursor) : Nat :=
  c.position + Text.byteSize c.rest

/-- The second place lies strictly further on than the first, and not behind the end of the
window. -/
structure Precedes (c d : Cursor) : Prop where
  position_lt : c.position < d.position
  le_stop : d.position ≤ c.stop
  /-- The window is the same for both. -/
  leads : c.Leads d

theorem Leads.stop_eq (h : c.Leads d) : d.stop = c.stop := by
  obtain ⟨l, hrest, hbefore⟩ := h
  simp [stop, position, hrest, hbefore]
  omega

theorem Leads.precedes (h : c.Leads d) (hlt : d.rest.length < c.rest.length) : c.Precedes d where
  position_lt := h.position_lt hlt
  le_stop := Nat.le_trans (Nat.le_add_right _ _) (Nat.le_of_eq h.stop_eq)
  leads := h

theorem Precedes.trans_leads (h : c.Precedes d) (h' : d.Leads e) : c.Precedes e where
  position_lt := Nat.lt_of_lt_of_le h.position_lt h'.position_le
  le_stop := Nat.le_trans (Nat.le_add_right _ _) (Nat.le_of_eq (h.leads.trans h').stop_eq)
  leads := h.leads.trans h'

theorem precedes_next {x : Char} (h : c.peek? = some x) : c.Precedes c.next :=
  (Leads.next c).precedes (next_length_lt h)

end Cursor

/-- A function that goes on by invoking itself, from one state to another. -/
structure Loop (S R : Type) where
  /-- Where a state is in the text. -/
  place : S → Cursor
  /-- What the function gives from a state. -/
  run : S → R
  /-- The function goes on from one state with another. -/
  Round : S → S → Prop
  /-- The function ends at a state, without going on. -/
  Returns : S → Prop

namespace Loop

variable {S R : Type} {loop : Loop S R} {s t : S} {k : Nat}

/-- The loop goes on strictly further on in the window, until it returns. -/
structure Advances (loop : Loop S R) : Prop where
  precedes : ∀ {s t}, loop.Round s t → (loop.place s).Precedes (loop.place t)
  /-- A state gives what the next one gives. -/
  run_eq : ∀ {s t}, loop.Round s t → loop.run s = loop.run t
  goesOn_or_returns : ∀ s, (∃ t, loop.Round s t) ∨ loop.Returns s

/-- So many rounds lead from one state to another. -/
inductive Rounds (loop : Loop S R) (s : S) : Nat → S → Prop where
  | start : Rounds loop s 0 s
  | next {k : Nat} {t u : S} (h : Rounds loop s k t) (round : loop.Round t u) :
      Rounds loop s (k + 1) u

/-- From each state, the loop returns after some rounds, which are not more than the bytes that are
left of the window. -/
def Ends (loop : Loop S R) : Prop :=
  ∀ s, ∃ k t, loop.Rounds s k t ∧ k ≤ Text.byteSize (loop.place s).rest ∧ loop.Returns t ∧
    loop.run s = loop.run t

namespace Advances

/-- Each round takes a byte at least. -/
theorem stop_eq_and_position_le (h : loop.Advances) (hrounds : loop.Rounds s k t) :
    (loop.place t).stop = (loop.place s).stop ∧
      (loop.place s).position + k ≤ (loop.place t).position := by
  induction hrounds with
  | start => exact ⟨rfl, Nat.le_refl _⟩
  | next _ round ih =>
    have hprecedes := h.precedes round
    exact ⟨hprecedes.leads.stop_eq.trans ih.1, Nat.lt_of_le_of_lt ih.2 hprecedes.position_lt⟩

/-- There are not more rounds than bytes left in the window. -/
theorem rounds_le (h : loop.Advances) (hrounds : loop.Rounds s k t) :
    k ≤ Text.byteSize (loop.place s).rest := by
  obtain ⟨hstop, hposition⟩ := h.stop_eq_and_position_le hrounds
  simp only [Cursor.stop] at hstop
  omega

theorem run_eq_of_rounds (h : loop.Advances) (hrounds : loop.Rounds s k t) :
    loop.run s = loop.run t := by
  induction hrounds with
  | start => rfl
  | next _ round ih => exact ih.trans (h.run_eq round)

theorem ends (h : loop.Advances) : loop.Ends := by
  intro s
  -- With one round more than there are bytes, the loop would have left the window.
  have hrounds (m : Nat) : (∃ k t, loop.Rounds s k t ∧ loop.Returns t) ∨
      ∃ t, loop.Rounds s m t := by
    induction m with
    | zero => exact .inr ⟨s, .start⟩
    | succ m ih =>
      obtain hreturns | ⟨t, ht⟩ := ih
      · exact .inl hreturns
      · obtain ⟨u, round⟩ | hreturns := h.goesOn_or_returns t
        · exact .inr ⟨u, ht.next round⟩
        · exact .inl ⟨m, t, ht, hreturns⟩
  obtain ⟨k, t, ht, hreturns⟩ | ⟨t, ht⟩ := hrounds (Text.byteSize (loop.place s).rest + 1)
  · exact ⟨k, t, ht, h.rounds_le ht, hreturns, h.run_eq_of_rounds ht⟩
  · exact absurd (h.rounds_le ht) (Nat.not_succ_le_self _)

end Advances
end Loop

namespace Blanks

/-- One round of passing over blanks: a blank, a comment up to the end of its line, or a comment
with a closing mark. -/
inductive Round : (broken : Bool) → Cursor → (broken' : Bool) → Cursor → Prop where
  | blank {broken : Bool} {x : Char} {c : Cursor} (next : c.peek? = some x)
      (isBlank : Text.isBlank x) : Round broken c (broken || Text.isLineBreak x) c.next
  | lineComment {broken : Bool} {l m : List Char} {c : Cursor} (next : c.peek? = some '#')
      (opens : Text.isLineBlankBefore c.before)
      (ends : Text.splitWhere? (fun l => l.head?.any Text.isLineBreak) c.next.rest = some (l, m)) :
      Round broken c broken (c.next.pass l m)
  | blockComment {broken : Bool} {l m : List Char} {c : Cursor} (opens : opensComment c.rest)
      (ends : Text.splitWhere? closingMark.isPrefixOf c.next.rest = some (l, closingMark ++ m)) :
      Round broken c broken (c.next.pass (l ++ closingMark) m)

variable {broken broken' : Bool} {c d : Cursor}

theorem Round.precedes (h : Round broken c broken' d) : c.Precedes d := by
  cases h with
  | blank next => exact Cursor.precedes_next next
  | lineComment next _ ends =>
    exact (Cursor.precedes_next next).trans_leads
      (Cursor.leads_pass (Text.append_of_splitWhere? ends).1)
  | blockComment opens ends =>
    obtain ⟨m, hm⟩ := opensComment_iff.1 opens
    refine (Cursor.precedes_next (x := '<') (by simp [Cursor.peek?, hm])).trans_leads
      (Cursor.leads_pass ?_)
    rw [List.append_assoc]
    exact (Text.append_of_splitWhere? ends).1

/-- A round leads to the next one. -/
theorem Round.pass_eq (h : Round broken c broken' d) :
    pass .blank broken c.before c.rest = pass .blank broken' d.before d.rest := by
  cases h with
  | @blank x _ next isBlank =>
    obtain ⟨rest, hrest⟩ := Cursor.rest_of_peek? next
    rw [Cursor.next_of_rest hrest, hrest, pass, if_pos isBlank]
  | @lineComment l m _ next opens ends =>
    obtain ⟨rest, hrest⟩ := Cursor.rest_of_peek? next
    rw [Cursor.next_of_rest hrest] at ends ⊢
    rw [hrest, pass, if_neg (by decide), if_pos (by simpa using opens),
      pass_lineComment_of_some ends]
    rfl
  | @blockComment l m _ opens ends =>
    obtain ⟨k, hk⟩ := opensComment_iff.1 opens
    rw [Cursor.next_of_rest hk] at ends ⊢
    rw [hk] at opens
    rw [hk, pass, if_neg (by decide), if_neg (by simp), if_pos opens,
      pass_blockComment_of_some ends]
    rfl

/-- Passing over blanks, with whether there has been a line break. It stops at other characters, or
at the end of the window behind a comment that takes the rest of it; a comment that is not closed is
refused. -/
def loop : Loop (Bool × Cursor) (EStateM.Result ScanFault Cursor Bool) where
  place s := s.2
  run s := pass .blank s.1 s.2.before s.2.rest
  Round s t := Round s.1 s.2 t.1 t.2
  Returns s :=
    pass .blank s.1 s.2.before s.2.rest = .ok s.1 s.2 ∨
    (s.2.peek? = some '#' ∧
      pass .blank s.1 s.2.before s.2.rest = .ok s.1 (s.2.pass s.2.rest [])) ∨
    pass .blank s.1 s.2.before s.2.rest = .error ⟨.unclosedComment, s.2.position⟩ s.2

theorem loop_goesOn_or_returns (s : Bool × Cursor) : (∃ t, loop.Round s t) ∨ loop.Returns s := by
  obtain ⟨broken, before, _ | ⟨x, rest⟩⟩ := s
  · exact .inr (.inl (by rw [pass]))
  · by_cases hblank : Text.isBlank x
    · exact .inl ⟨(_, _), .blank rfl hblank⟩
    · by_cases hsign : (x == '#' && Text.isLineBlankBefore before) = true
      · obtain ⟨rfl, hline⟩ : x = '#' ∧ Text.isLineBlankBefore before := by simpa using hsign
        cases hends : Text.splitWhere? (fun l => l.head?.any Text.isLineBreak) rest with
        | some parts =>
          have round : Round broken ⟨before, '#' :: rest⟩ broken _ :=
            .lineComment rfl hline hends
          exact .inl ⟨(_, _), round⟩
        | none =>
          refine .inr (.inr (.inl ⟨rfl, ?_⟩))
          rw [pass, if_neg hblank, if_pos hsign, pass_lineComment_of_none hends]
          simp [Cursor.pass]
      · by_cases hopens : opensComment (x :: rest)
        · cases hends : Text.splitWhere? closingMark.isPrefixOf rest with
          | some parts =>
            obtain ⟨m, hm⟩ :=
              List.isPrefixOf_iff_prefix.1 (Text.append_of_splitWhere? hends).2
            have round : Round broken ⟨before, x :: rest⟩ broken _ :=
              .blockComment hopens (hends.trans (by rw [hm]))
            exact .inl ⟨(_, _), round⟩
          | none =>
            refine .inr (.inr (.inr ?_))
            rw [pass, if_neg hblank, if_neg hsign, if_pos hopens, pass_blockComment_of_none hends]
        · refine .inr (.inl ?_)
          rw [pass, if_neg hblank, if_neg hsign, if_neg hopens]

theorem loop_advances : loop.Advances where
  precedes h := Round.precedes h
  run_eq h := h.pass_eq
  goesOn_or_returns := loop_goesOn_or_returns

end Blanks

namespace Literal

/-- One round of reading a quoted literal, with the characters read so far, last first: a character
that stands for itself, or an escape. -/
inductive Round (quotation : Char) : Cursor → (read : List Char) → Cursor → (read' : List Char) →
    Prop where
  | plain {x : Char} {c : Cursor} {read : List Char} (next : c.peek? = some x)
      (open' : x ≠ quotation) (noEscape : x ≠ Text.backslash) :
      Round quotation c read c.next (x :: read)
  | escape {e : Char} {m t read : List Char} {length : Nat} {c : Cursor}
      (opens : c.rest = Text.backslash :: e :: m) (means : escape e m = .text t length) :
      Round quotation c read
        (c.pass (Text.backslash :: (e :: m).take length) ((e :: m).drop length)) (t.reverse ++ read)

variable {quotation : Char} {start : Nat} {read read' : List Char} {c d : Cursor}

theorem Round.precedes (h : Round quotation c read d read') : c.Precedes d := by
  cases h with
  | plain next => exact Cursor.precedes_next next
  | escape opens =>
    refine (Cursor.leads_pass ?_).precedes ?_
    · rw [opens, List.cons_append, List.take_append_drop]
    · rw [opens]
      exact Nat.lt_succ_of_le (List.drop_sublist _ _).length_le

/-- A round leads to the next one. -/
theorem Round.body_eq (h : Round quotation c read d read') (isQuotation : isQuotation quotation) :
    body quotation start c.before c.rest read = body quotation start d.before d.rest read' := by
  cases h with
  | plain next closes noEscape =>
    obtain ⟨rest, hrest⟩ := Cursor.rest_of_peek? next
    rw [Cursor.next_of_rest hrest, hrest, body_plain closes noEscape]
  | escape opens means =>
    rw [opens, body_text isQuotation means]
    simp [Cursor.pass]

/-- Reading a quoted literal, with the characters read so far. It is closed or refused. -/
def loop (quotation : Char) (start : Nat) :
    Loop (Cursor × List Char) (EStateM.Result ScanFault Cursor (List Char)) where
  place s := s.1
  run s := body quotation start s.1.before s.1.rest s.2
  Round s t := Round quotation s.1 s.2 t.1 t.2
  Returns s :=
    (s.1.peek? = some quotation ∧
      body quotation start s.1.before s.1.rest s.2 = .ok s.2.reverse s.1.next) ∨
    ∃ fault d, body quotation start s.1.before s.1.rest s.2 = .error fault d

theorem loop_goesOn_or_returns (isQuotation : isQuotation quotation) (s : Cursor × List Char) :
    (∃ t, (loop quotation start).Round s t) ∨ (loop quotation start).Returns s := by
  obtain ⟨⟨before, _ | ⟨x, rest⟩⟩, read⟩ := s
  · exact .inr (.inr ⟨_, _, body_nil⟩)
  · by_cases hclosed : x = quotation
    · subst hclosed
      exact .inr (.inl ⟨rfl, body_quotation⟩)
    · by_cases hescape : x = Text.backslash
      · subst hescape
        cases rest with
        | nil => exact .inr (.inr ⟨_, _, body_backslash isQuotation⟩)
        | cons e m =>
          cases hmeans : escape e m with
          | text t length => exact .inl ⟨(_, _), .escape rfl hmeans⟩
          | malformed cause passed =>
            exact .inr (.inr ⟨_, _, body_malformed isQuotation hmeans⟩)
      · exact .inl ⟨(_, _), .plain rfl hclosed hescape⟩

theorem loop_advances (isQuotation : isQuotation quotation) :
    (loop quotation start).Advances where
  precedes h := Round.precedes h
  run_eq h := h.body_eq isQuotation
  goesOn_or_returns := loop_goesOn_or_returns isQuotation

end Literal

namespace Extent

/-- An invocation of a function that passes over a part of a text, with its arguments. -/
inductive Invocation where
  | expression (bound : Nat)
  | bracketed (bound : Nat) (closing : Char)
  | items (bound : Nat) (closing : Char) (start : Nat)

/-- At one place, an invocation leads to another, which is made at another place. -/
inductive Invokes : Invocation → Cursor → Invocation → Cursor → Prop where
  | listing {n : Nat} {x closing : Char} {c : Cursor} (next : c.peek? = some x)
      (opens : closing? x = some closing) :
      Invokes (.expression (n + 1)) c (.bracketed n closing) c
  | params {n : Nat} {x : Char} {l : List Char} {broken : Bool} {c c₁ c₂ : Cursor}
      (next : c.peek? = some x) (noListing : closing? x = none)
      (noQuotation : ¬Literal.isQuotation x) (noRaw : Literal.rawQuotation? c.rest = none)
      (token : Scan.token false c = .ok l c₁) (nonempty : l ≠ [])
      (blanks : Scan.blanks c₁ = .ok broken c₂) (opens : c₂.peek? = some '(') :
      Invokes (.expression (n + 1)) c (.bracketed n ')') c₂
  | items {n : Nat} {closing : Char} {broken : Bool} {c d : Cursor}
      (blanks : Scan.blanks c.next = .ok broken d) :
      Invokes (.bracketed (n + 1) closing) c (.items n closing c.position) d
  | item {n start : Nat} {x closing : Char} {c : Cursor} (next : c.peek? = some x)
      (goesOn : x ≠ closing) (noMark : ¬separates x) :
      Invokes (.items (n + 1) closing start) c (.expression n) c
  | afterMark {n start : Nat} {x closing : Char} {broken : Bool} {c d : Cursor}
      (next : c.peek? = some x) (goesOn : x ≠ closing) (mark : separates x)
      (blanks : Scan.blanks c.next = .ok broken d) :
      Invokes (.items (n + 1) closing start) c (.items n closing start) d
  | afterItem {n start : Nat} {x closing : Char} {broken : Bool} {c c₁ d : Cursor}
      (next : c.peek? = some x) (goesOn : x ≠ closing) (noMark : ¬separates x)
      (first : expression n c = .ok () c₁) (blanks : Scan.blanks c₁ = .ok broken d) :
      Invokes (.items (n + 1) closing start) c (.items n closing start) d

variable {n n' start start' : Nat} {closing closing' : Char} {c d : Cursor}
  {invocation invocation' : Invocation}

/-- An expression that is passed over takes at least one character. -/
theorem precedes_of_expression (h : expression n c = .ok () d) : c.Precedes d :=
  have hskips := (followsSkips n).expression h
  hskips.leads.precedes hskips.length_lt

/-- An invocation is made behind the place of the one before it. -/
theorem Invokes.leads (h : Invokes invocation c invocation' d) : c.Leads d := by
  cases h with
  | listing | item => exact .refl c
  | params _ _ _ _ token _ blanks =>
    obtain ⟨rest, hsplit, rfl⟩ := Scan.token_eq_ok.1 token
    exact (Token.leads_pass hsplit).trans (Scan.leads_of_blanks blanks)
  | items blanks | afterMark _ _ _ blanks =>
    exact (Cursor.Leads.next c).trans (Scan.leads_of_blanks blanks)
  | afterItem _ _ _ first blanks =>
    exact (precedes_of_expression first).leads.trans (Scan.leads_of_blanks blanks)

/-- The items go on strictly further on. -/
theorem precedes_of_round (h : Invokes (.items n closing start) c (.items n' closing' start') d) :
    c.Precedes d := by
  cases h with
  | afterMark next _ _ blanks =>
    exact (Cursor.precedes_next next).trans_leads (Scan.leads_of_blanks blanks)
  | afterItem _ _ _ first blanks =>
    exact (precedes_of_expression first).trans_leads (Scan.leads_of_blanks blanks)

/-- A mark between items. -/
theorem items_of_mark {x : Char} (next : c.peek? = some x) (goesOn : x ≠ closing)
    (mark : separates x) : items (n + 1) closing start c =
      (Scan.blanks >>= fun _ => items n closing start) c.next := by
  rw [items, Scan.peek?_bind_run, next]
  dsimp only
  rw [if_neg goesOn, if_pos mark, bind_of_eq_ok (Scan.next_eq_ok (u := ()).2 rfl)]

/-- An item. -/
theorem items_of_item {x : Char} (next : c.peek? = some x) (goesOn : x ≠ closing)
    (noMark : ¬separates x) : items (n + 1) closing start c =
      (expression n >>= fun _ => Scan.blanks >>= fun _ => items n closing start) c := by
  rw [items, Scan.peek?_bind_run, next]
  dsimp only
  rw [if_neg goesOn, if_neg noMark]

/-- Passing over the items of a listing, with the bound on the recursion. It stops at the closing
bracket, or is refused. -/
def itemsLoop (closing : Char) (start : Nat) :
    Loop (Nat × Cursor) (EStateM.Result ScanFault Cursor Unit) where
  place s := s.2
  run s := items s.1 closing start s.2
  Round s t := Invokes (.items s.1 closing start) s.2 (.items t.1 closing start) t.2
  Returns s := (s.2.peek? = some closing ∧ items s.1 closing start s.2 = .ok () s.2) ∨
    ∃ fault d, items s.1 closing start s.2 = .error fault d

theorem items_eq_of_round (h : Invokes (.items n closing start) c (.items n' closing start) d) :
    items n closing start c = items n' closing start d := by
  cases h with
  | afterMark next goesOn mark blanks =>
    rw [items_of_mark next goesOn mark, bind_of_eq_ok blanks]
  | afterItem next goesOn noMark first blanks =>
    rw [items_of_item next goesOn noMark, bind_of_eq_ok first, bind_of_eq_ok blanks]

theorem itemsLoop_goesOn_or_returns (s : Nat × Cursor) :
    (∃ t, (itemsLoop closing start).Round s t) ∨ (itemsLoop closing start).Returns s := by
  obtain ⟨_ | n, c⟩ := s
  · exact .inr (.inr ⟨⟨.exhausted, c.position⟩, c, by simp only [items]; rfl⟩)
  cases next : c.peek? with
  | none =>
    refine .inr (.inr ⟨⟨.unclosedListing closing, start⟩, c, ?_⟩)
    simp only [items]
    rw [Scan.peek?_bind_run, next]
    rfl
  | some x =>
    by_cases hclosing : x = closing
    · subst hclosing
      refine .inr (.inl ⟨next, ?_⟩)
      simp only [items]
      rw [Scan.peek?_bind_run, next]
      dsimp only
      rw [if_pos rfl]
      rfl
    · by_cases mark : separates x
      · cases blanks : Scan.blanks c.next with
        | ok broken d => exact .inl ⟨(n, d), .afterMark next hclosing mark blanks⟩
        | error fault d =>
          exact .inr (.inr ⟨fault, d,
            (items_of_mark next hclosing mark).trans (bind_of_eq_error blanks)⟩)
      · have hitem : items (n + 1) closing start c = _ := items_of_item next hclosing mark
        cases first : expression n c with
        | error fault d =>
          exact .inr (.inr ⟨fault, d, hitem.trans (bind_of_eq_error first)⟩)
        | ok _ c₁ =>
          rw [bind_of_eq_ok first] at hitem
          cases blanks : Scan.blanks c₁ with
          | ok broken d => exact .inl ⟨(n, d), .afterItem next hclosing mark first blanks⟩
          | error fault d =>
            exact .inr (.inr ⟨fault, d, hitem.trans (bind_of_eq_error blanks)⟩)

theorem itemsLoop_advances : (itemsLoop closing start).Advances where
  precedes := precedes_of_round
  run_eq := items_eq_of_round
  goesOn_or_returns := itemsLoop_goesOn_or_returns

end Extent

namespace Evaluation

variable {σ : Type} {setting : Setting σ} {n n' opening opening' : Nat}
  {closing closing' : Option Char} {forced forced' inKey : Bool} {v : Value} {s t : State σ}

/-- An expression that is evaluated takes at least one character. -/
theorem precedes_of_expression (h : expression setting n forced inKey s = .ok v t) :
    s.cursor.Precedes t.cursor :=
  (leads_of_expression h).precedes (length_lt_of_expression h)

/-- The next round of the items is strictly further on. -/
theorem precedes_of_itemsRound
    (h : Invokes setting (.items n closing forced opening) s
      (.items n' closing' forced' opening') t) : s.cursor.Precedes t.cursor := by
  cases h with
  | moreItems _ first separated =>
    obtain ⟨_, hseparated, rfl⟩ := scan_eq_ok.1 separated
    exact (precedes_of_expression first).trans_leads (Scan.leads_of_separator hseparated)

/-- The next round of the entries is strictly further on. -/
theorem precedes_of_entriesRound
    (h : Invokes setting (.entries n closing forced opening) s
      (.entries n' closing' forced' opening') t) : s.cursor.Precedes t.cursor := by
  cases h with
  | moreEntries _ first => exact (leads_of_entry first).1.precedes (length_lt_of_entry first)

/-- An item, and what comes after it. -/
theorem items_of_beginsItem (begins : s.cursor.BeginsItem closing) :
    items setting (n + 1) closing forced opening s =
      (do
        let v ← expression setting n forced false
        let separator ← scan setting (Scan.separator closing (some .inList))
        if separator = Separator.closing then return [v]
        else return v :: (← items setting n closing forced opening)) s := by
  obtain ⟨x, next, goesOn, noComma⟩ := begins
  rw [items, get_bind_run, next]
  dsimp only
  rw [if_neg goesOn, if_neg noComma]

/-- An entry, and what comes after it. -/
theorem entries_of_beginsItem (begins : s.cursor.BeginsItem closing) :
    entries setting (n + 1) closing forced opening s =
      (do
        let separator ← entry setting n closing forced
        if separator = Separator.closing then return
        else entries setting n closing forced opening) s := by
  obtain ⟨x, next, goesOn, noComma⟩ := begins
  rw [entries, get_bind_run, next]
  dsimp only
  rw [if_neg goesOn, if_neg noComma]

/-- Where neither an item nor an entry begins, the listing ends, or is refused. -/
theorem stops_of_not_beginsItem (setting : Setting σ) (n : Nat) (forced : Bool) (opening : Nat)
    (h : ¬s.cursor.BeginsItem closing) :
    (items setting (n + 1) closing forced opening s = .ok [] s ∧
      entries setting (n + 1) closing forced opening s = .ok () s) ∨
    ∃ e e' t, items setting (n + 1) closing forced opening s = .error e t ∧
      entries setting (n + 1) closing forced opening s = .error e' t := by
  rw [items, entries, get_bind_run,
    get_bind_run]
  cases next : s.cursor.peek? with
  | none =>
    cases closing with
    | none => exact .inl ⟨rfl, rfl⟩
    | some closing => exact .inr ⟨_, _, _, rfl, rfl⟩
  | some x =>
    dsimp only
    by_cases hclosing : closing = some x
    · rw [if_pos hclosing, if_pos hclosing]
      exact .inl ⟨rfl, rfl⟩
    · rw [if_neg hclosing, if_neg hclosing]
      by_cases hcomma : x = ','
      · rw [if_pos hcomma, if_pos hcomma]
        exact .inr ⟨_, _, _, rfl, rfl⟩
      · exact absurd ⟨x, next, hclosing, hcomma⟩ h

/-- Evaluating the items of a listing, as to where that ends, with the bound on the recursion. It
ends with one more item at most, or is refused. -/
def itemsLoop (setting : Setting σ) (closing : Option Char) (forced : Bool) (opening : Nat) :
    Loop (Nat × State σ) (EStateM.Result Error (State σ) Unit) where
  place s := s.2.cursor
  run s := (items setting s.1 closing forced opening >>= fun _ => pure ()) s.2
  Round s t := Invokes setting (.items s.1 closing forced opening) s.2
    (.items t.1 closing forced opening) t.2
  Returns s :=
    (∃ vs t, items setting s.1 closing forced opening s.2 = .ok vs t ∧ vs.length ≤ 1) ∨
    ∃ e t, items setting s.1 closing forced opening s.2 = .error e t

/-- Evaluating the entries of a hash, with the bound on the recursion. It ends with one more entry
at most, or is refused. -/
def entriesLoop (setting : Setting σ) (closing : Option Char) (forced : Bool) (opening : Nat) :
    Loop (Nat × State σ) (EStateM.Result Error (State σ) Unit) where
  place s := s.2.cursor
  run s := entries setting s.1 closing forced opening s.2
  Round s t := Invokes setting (.entries s.1 closing forced opening) s.2
    (.entries t.1 closing forced opening) t.2
  Returns s :=
    (∃ t, entries setting s.1 closing forced opening s.2 = .ok () t ∧
      (t = s.2 ∨ ∃ n, s.1 = n + 1 ∧ entry setting n closing forced s.2 = .ok .closing t)) ∨
    ∃ e t, entries setting s.1 closing forced opening s.2 = .error e t

theorem items_eq_of_round (h : Invokes setting (.items n closing forced opening) s
    (.items n' closing forced opening) t) :
    (items setting n closing forced opening >>= fun _ => pure ()) s =
      (items setting n' closing forced opening >>= fun _ => pure ()) t := by
  cases h with
  | moreItems begins first separated goesOn =>
    have hitems : items setting (n' + 1) closing forced opening s = _ :=
      items_of_beginsItem begins
    rw [bind_of_eq_ok first, bind_of_eq_ok separated, if_neg goesOn] at hitems
    cases more : items setting n' closing forced opening t with
    | ok vs u =>
      rw [bind_of_eq_ok more] at hitems
      rw [bind_of_eq_ok hitems, bind_of_eq_ok more]
    | error e u =>
      rw [bind_of_eq_error more] at hitems
      rw [bind_of_eq_error hitems, bind_of_eq_error more]

theorem entries_eq_of_round (h : Invokes setting (.entries n closing forced opening) s
    (.entries n' closing forced opening) t) :
    entries setting n closing forced opening s = entries setting n' closing forced opening t := by
  cases h with
  | moreEntries begins first goesOn =>
    rw [entries_of_beginsItem begins, bind_of_eq_ok first, if_neg goesOn]

theorem itemsLoop_goesOn_or_returns (s : Nat × State σ) :
    (∃ t, (itemsLoop setting closing forced opening).Round s t) ∨
      (itemsLoop setting closing forced opening).Returns s := by
  obtain ⟨_ | n, s⟩ := s
  · exact .inr (.inr ⟨_, _, by simp only [items]; rfl⟩)
  by_cases begins : s.cursor.BeginsItem closing
  · have hitems : items setting (n + 1) closing forced opening s = _ :=
      items_of_beginsItem begins
    cases first : expression setting n forced false s with
    | error e t => exact .inr (.inr ⟨e, t, hitems.trans (bind_of_eq_error first)⟩)
    | ok v s₁ =>
      rw [bind_of_eq_ok first] at hitems
      cases separated : scan setting (Scan.separator closing (some .inList)) s₁ with
      | error e t => exact .inr (.inr ⟨e, t, hitems.trans (bind_of_eq_error separated)⟩)
      | ok separator t =>
        rw [bind_of_eq_ok separated] at hitems
        by_cases goesOn : separator = .closing
        · rw [if_pos goesOn] at hitems
          exact .inr (.inl ⟨[v], t, hitems, Nat.le_refl _⟩)
        · exact .inl ⟨(n, t), .moreItems begins first separated goesOn⟩
  · obtain h | ⟨e, _, t, h⟩ := stops_of_not_beginsItem setting n forced opening begins
    · exact .inr (.inl ⟨[], s, h.1, Nat.zero_le _⟩)
    · exact .inr (.inr ⟨e, t, h.1⟩)

theorem entriesLoop_goesOn_or_returns (s : Nat × State σ) :
    (∃ t, (entriesLoop setting closing forced opening).Round s t) ∨
      (entriesLoop setting closing forced opening).Returns s := by
  obtain ⟨_ | n, s⟩ := s
  · exact .inr (.inr ⟨_, _, by simp only [entries]; rfl⟩)
  by_cases begins : s.cursor.BeginsItem closing
  · have hentries : entries setting (n + 1) closing forced opening s = _ :=
      entries_of_beginsItem begins
    cases first : entry setting n closing forced s with
    | error e t => exact .inr (.inr ⟨e, t, hentries.trans (bind_of_eq_error first)⟩)
    | ok separator t =>
      rw [bind_of_eq_ok first] at hentries
      by_cases goesOn : separator = .closing
      · subst goesOn
        rw [if_pos rfl] at hentries
        exact .inr (.inl ⟨t, hentries, .inr ⟨n, rfl, first⟩⟩)
      · exact .inl ⟨(n, t), .moreEntries begins first goesOn⟩
  · obtain h | ⟨_, e, t, h⟩ := stops_of_not_beginsItem setting n forced opening begins
    · exact .inr (.inl ⟨s, h.2, .inl rfl⟩)
    · exact .inr (.inr ⟨e, t, h.2⟩)

theorem itemsLoop_advances : (itemsLoop setting closing forced opening).Advances where
  precedes := precedes_of_itemsRound
  run_eq := items_eq_of_round
  goesOn_or_returns := itemsLoop_goesOn_or_returns

theorem entriesLoop_advances : (entriesLoop setting closing forced opening).Advances where
  precedes := precedes_of_entriesRound
  run_eq := entries_eq_of_round
  goesOn_or_returns := entriesLoop_goesOn_or_returns

end Evaluation
end TextualData
