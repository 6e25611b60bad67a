import TextualData.Proofs.Blame
import TextualData.Proofs.OffsetLiterals

/-!
# The extent of an expression by byte offsets

An expression can be passed over by byte offsets, with each look checked: from a place of the text,
that does what `Scan.extent` does.
-/

namespace TextualData
namespace Offsets

variable (view : View)

/-- Moves on over a quoted literal from within. The number bounds the loop. -/
def passQuoted (quotation : Char) (start : Nat) : Nat → OffsetScan Unit
  | 0 => throw none
  | n + 1 => do
    match ← peek view with
    | none => blame start (.unclosedString quotation)
    | some x =>
      advance x.utf8Size
      if x = quotation then return
      else if x = Text.backslash then
        match ← peek view with
        | none => blame start (.unclosedString quotation)
        | some e =>
          advance e.utf8Size
          passQuoted quotation start n
      else passQuoted quotation start n

mutual

/-- Moves on over the expression at the offset. The number bounds the recursion. -/
def passExpression : Nat → OffsetScan Unit
  | 0 => do blame (← get) .exhausted
  | bound + 1 => do
    let start ← get
    match ← look view start with
    | none => blame start .unexpectedEnd
    | some x =>
      match Extent.closing? x, ← rawQuotation? view start with
      | some closing, _ => passBracketed bound closing
      | none, some quotation => passRaw view quotation
      | none, none =>
        if Literal.isQuotation x then
          advance 1
          passQuoted view x start (view.stop - start)
        else
          passToken view false
          let stop ← get
          if stop = start then blame start .unexpectedCharacter
          let _ ← blanks view
          if (← peek view) = some '(' then passBracketed bound ')'
          else set stop

/-- Moves on over a listing from its opening bracket to its closing one. -/
def passBracketed : Nat → Char → OffsetScan Unit
  | 0, _ => do blame (← get) .exhausted
  | bound + 1, closing => do
    advance 1
    let start := (← get) - 1
    let _ ← blanks view
    passItems bound closing start
    advance 1

/-- Moves on over items and separators up to the closing bracket. -/
def passItems : Nat → Char → (start : Nat) → OffsetScan Unit
  | 0, _, _ => do blame (← get) .exhausted
  | bound + 1, closing, start => do
    match ← peek view with
    | none => blame start (.unclosedListing closing)
    | some x =>
      if x = closing then return
      if Extent.separates x then advance 1 else passExpression bound
      let _ ← blanks view
      passItems bound closing start

end

/-- Moves on over the expression at the offset. -/
def extent : OffsetScan Unit := do
  let rest ← slice view (← get) view.stop
  passExpression view (3 * rest.length + 3)

variable {view} {c : Cursor}

theorem byteSize_eq_zero {l : List Char} : Text.byteSize l = 0 ↔ l = [] := by
  cases l with
  | nil => simp
  | cons x l =>
    have hx := x.utf8Size_pos
    simp
    omega

theorem utf8Size_of_closing? {x closing : Char} (h : Extent.closing? x = some closing) :
    x.utf8Size = 1 ∧ closing.utf8Size = 1 := by
  simp only [Extent.closing?] at h
  split at h
  · next hx => cases h; exact ⟨hx ▸ rfl, rfl⟩
  · split at h
    · next hx => cases h; exact ⟨hx ▸ rfl, rfl⟩
    · split at h
      · next hx => cases h; exact ⟨hx ▸ rfl, rfl⟩
      · split at h
        · next hx => cases h; exact ⟨hx ▸ rfl, rfl⟩
        · simp at h

theorem utf8Size_of_separates {x : Char} (h : Extent.separates x) : x.utf8Size = 1 := by
  simp only [Extent.separates, Bool.or_eq_true, beq_iff_eq] at h
  rcases h with ((rfl | rfl) | rfl) | rfl <;> rfl

theorem passQuoted_agrees {quotation : Char} (start n : Nat) (c : Cursor) (h : view.IsAt c)
    (hn : Text.byteSize c.rest < n) :
    passQuoted view quotation start n c.position =
      located (Extent.quoted quotation start c.before c.rest) := by
  induction n generalizing c with
  | zero => omega
  | succ n ih =>
    rw [passQuoted, bind_of_eq_ok (peek_run h)]
    obtain ⟨before, rest⟩ := c
    cases rest with
    | nil =>
      rw [Extent.quoted.eq_def]
      rfl
    | cons x rest =>
      have hplace := h.leads (Cursor.leads_cons x before rest)
      have hposition : Cursor.position ⟨before, x :: rest⟩ + x.utf8Size =
          Cursor.position ⟨x :: before, rest⟩ := (position_next rfl).symm
      have hsize : x.utf8Size + Text.byteSize rest < n + 1 := by simpa using hn
      have hpos := x.utf8Size_pos
      rw [Extent.quoted.eq_def]
      simp only [Cursor.peek?, List.head?_cons, bind_of_eq_ok (advance_eq _ _), hposition]
      by_cases hquotation : x = quotation
      · rw [if_pos hquotation, if_pos hquotation]
        rfl
      · rw [if_neg hquotation, if_neg hquotation]
        by_cases hbackslash : x = Text.backslash
        · rw [if_pos hbackslash, if_pos hbackslash, bind_of_eq_ok (peek_run hplace)]
          cases rest with
          | nil => rfl
          | cons e rest =>
            have hsecond : Cursor.position ⟨x :: before, e :: rest⟩ + e.utf8Size =
                Cursor.position ⟨e :: x :: before, rest⟩ := (position_next rfl).symm
            simp only [Cursor.peek?, List.head?_cons, bind_of_eq_ok (advance_eq _ _), hsecond]
            refine ih ⟨e :: x :: before, rest⟩ (hplace.leads (Cursor.leads_cons e _ _)) ?_
            show Text.byteSize rest < n
            rw [Text.byteSize_cons] at hsize
            omega
        · rw [if_neg hbackslash, if_neg hbackslash]
          exact ih ⟨x :: before, rest⟩ hplace (by show Text.byteSize rest < n; omega)

theorem literal_agrees {quotation : Char} (h : view.IsAt c) (opens : c.peek? = some quotation)
    (isQuotation : Literal.isQuotation quotation) :
    Agrees (do advance 1; passQuoted view quotation c.position (view.stop - c.position))
      (fun s => Extent.quoted quotation c.position s.next.before s.next.rest) c := by
  have hplace := h.leads (Cursor.Leads.next c)
  have hposition : c.position + 1 = c.next.position := by
    rw [position_next opens, utf8Size_of_isQuotation isQuotation]
  have hfuel : Text.byteSize c.next.rest < view.stop - c.position := by
    obtain ⟨-, -, hstop⟩ := hplace
    omega
  unfold Agrees
  rw [bind_of_eq_ok (advance_eq _ _), hposition]
  exact passQuoted_agrees c.position _ c.next hplace hfuel

/-- With a given bound, passing by offsets does what passing does. -/
structure AllAgree (view : View) (n : Nat) : Prop where
  expression : ∀ {c}, view.IsAt c → Agrees (passExpression view n) (Extent.expression n) c
  bracketed : ∀ {c x closing}, view.IsAt c → c.peek? = some x → x.utf8Size = 1 →
    closing.utf8Size = 1 → Agrees (passBracketed view n closing) (Extent.bracketed n closing) c
  items : ∀ {c closing start}, view.IsAt c →
    Agrees (passItems view n closing start) (Extent.items n closing start) c

theorem AllAgree.zero : AllAgree view 0 where
  expression _ := by simp only [passExpression, Extent.expression]; exact .get_left .refuse
  bracketed _ _ _ _ := by simp only [passBracketed, Extent.bracketed]; exact .get_left .refuse
  items _ := by simp only [passItems, Extent.items]; exact .get_left .refuse

variable {n : Nat}

/-- Behind a token, its parameters are passed if it is the name of a call. -/
theorem passCall_agrees (ih : AllAgree view n) (h : view.IsAt c) (stop : Cursor) :
    Agrees (do if (← peek view) = some '(' then passBracketed view n ')' else set stop.position)
      (do if (← Scan.peek?) = some '(' then Extent.bracketed n ')' else set stop) c :=
  .peek h (.ite (fun hopen => ih.bracketed h hopen rfl rfl) fun _ => rfl)

theorem expression_agrees (ih : AllAgree view n) (h : view.IsAt c) :
    Agrees (passExpression view (n + 1)) (Extent.expression (n + 1)) c := by
  simp only [passExpression, Extent.expression]
  refine .get (.pure_left (look_eq h) ?_)
  cases hpeek : c.peek? with
  | none => exact .refuse
  | some x =>
    refine .pure_left (rawQuotation?_eq h) ?_
    cases hclosing : Extent.closing? x with
    | some closing =>
      obtain ⟨hopens, hcloses⟩ := utf8Size_of_closing? hclosing
      simp only [hclosing]
      exact ih.bracketed h hpeek hopens hcloses
    | none =>
      cases hraw : Literal.rawQuotation? c.rest with
      | some quotation =>
        simp only [hclosing]
        exact passRaw_agrees h hraw
      | none =>
        simp only [hclosing]
        refine .ite (fun hx => literal_agrees h hpeek hx) fun _ => ?_
        refine passToken_agrees h fun l rest hsplit => ?_
        have hempty : (c.pass l rest).position = c.position ↔ l.isEmpty := by
          rw [Cursor.position_pass, Nat.add_eq_left, byteSize_eq_zero, List.isEmpty_iff]
        have hplace := h.leads (Token.leads_pass hsplit)
        refine .get_left (.refuse_or hempty Eq.symm fun _ => .get_right ?_)
        refine .bind (blanks_agrees hplace) fun _ d hd => ?_
        exact passCall_agrees ih (hplace.leads (Scan.leads_of_blanks hd)) (c.pass l rest)

theorem bracketed_agrees (ih : AllAgree view n) (h : view.IsAt c) {x closing : Char}
    (hpeek : c.peek? = some x) (hx : x.utf8Size = 1) (hclosing : closing.utf8Size = 1) :
    Agrees (passBracketed view (n + 1) closing) (Extent.bracketed (n + 1) closing) c := by
  simp only [passBracketed, Extent.bracketed]
  refine .get_right (.bind (next_agrees hpeek hx) fun _ d hd => .get_left ?_)
  obtain rfl := Scan.next_eq_ok.1 hd
  have hnext := h.leads (Cursor.Leads.next c)
  rw [position_next_sub hpeek hx]
  refine .bind (blanks_agrees hnext) fun _ d hd => ?_
  have hleads := (Cursor.Leads.next c).trans (Scan.leads_of_blanks hd)
  refine .bind (ih.items (h.leads hleads)) fun _ e he => ?_
  -- The items end at the closing bracket.
  have hstart := (Cursor.Leads.refl c).covers
  exact next_agrees (((Extent.allStay n).items hleads (.refl d) hstart).leads he).2 hclosing

theorem items_agrees (ih : AllAgree view n) (h : view.IsAt c) {closing : Char} {start : Nat} :
    Agrees (passItems view (n + 1) closing start) (Extent.items (n + 1) closing start) c := by
  simp only [passItems, Extent.items]
  refine .peek h ?_
  cases hpeek : c.peek? with
  | none => rfl
  | some x =>
    refine .ite (fun _ => .pure) fun _ => ?_
    have more : ∀ {d}, c.Leads d → Agrees (do let _ ← blanks view; passItems view n closing start)
        (do let _ ← Scan.blanks; Extent.items n closing start) d := fun hd =>
      .bind (blanks_agrees (h.leads hd)) fun _ _ he =>
        ih.items ((h.leads hd).leads (Scan.leads_of_blanks he))
    refine .ite (fun hx => .bind (next_agrees hpeek (utf8Size_of_separates hx)) fun _ d hd => ?_)
      fun _ => .bind (ih.expression h) fun _ d hd => ?_
    · obtain rfl := Scan.next_eq_ok.1 hd
      exact more (Cursor.Leads.next c)
    · have hstays := (Extent.allStay n).expression (Cursor.Leads.refl c) (.refl c)
      exact more (hstays.leads hd).1

theorem allAgree : ∀ n, AllAgree view n
  | 0 => .zero
  | n + 1 =>
    have ih := allAgree n
    { expression := expression_agrees ih
      bracketed := fun h => bracketed_agrees ih h
      items := fun h => items_agrees ih h }

theorem extent_agrees (h : view.IsAt c) : Agrees (extent view) Scan.extent c := by
  refine .get_left (.pure_left (slice_rest h) ?_)
  exact (allAgree (3 * c.rest.length + 3)).expression h

end Offsets
end TextualData
