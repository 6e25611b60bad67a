import TextualData.Proofs.Skipping

/-!
# Where scans stop and what they blame

A scan moves on in its window, also if it fails, and what it blames for a failure is a place of the
window. `Scan.Stays` says so of a scan from a place, together with what holds of its result; the
rules for it follow the steps of a scan.
-/

namespace TextualData

/-- A place in what is left of a window has the byte offset. -/
def Cursor.Covers (w : Cursor) (position : Nat) : Prop :=
  ∃ d, w.Leads d ∧ d.position = position

theorem Cursor.previous_next {e : Cursor} {x : Char} (h : e.peek? = some x) :
    e.next.previous = e := by
  obtain ⟨rest, hrest⟩ := rest_of_peek? h
  rw [next_of_rest hrest]
  show (⟨e.before, x :: rest⟩ : Cursor) = e
  rw [← hrest]

theorem Cursor.Leads.covers {w c : Cursor} (h : w.Leads c) : w.Covers c.position :=
  ⟨c, h, rfl⟩

/-- What is left later on is part of what is left. -/
theorem Cursor.Leads.covers_of_covers {c d : Cursor} (h : c.Leads d) {position : Nat}
    (hd : d.Covers position) : c.Covers position := by
  obtain ⟨e, he, hposition⟩ := hd
  exact ⟨e, h.trans he, hposition⟩

namespace Blanks

/-- A comment that is not closed is to blame at its start, where the scan stops. -/
theorem blame_of_pass (mode : Mode) (broken : Bool) (before rest : List Char) {fault : ScanFault}
    {d : Cursor} (h : pass mode broken before rest = .error fault d) :
    fault.position = d.position ∧ ((Cursor.mk before rest).Leads d ∨ mode = .blockComment d) := by
  fun_induction pass mode broken before rest
  case case1 | case5 | case6 => simp at h
  case case2 ih | case3 ih | case7 ih | case8 ih =>
    obtain ⟨hfault, hleads⟩ := ih h
    exact ⟨hfault, .inl ((Cursor.leads_cons _ _ _).trans (hleads.resolve_right (by simp)))⟩
  case case4 before x rest _ _ _ ih =>
    obtain ⟨hfault, hleads | hstart⟩ := ih h
    · exact ⟨hfault, .inl ((Cursor.leads_cons _ _ _).trans hleads)⟩
    · obtain rfl := Mode.blockComment.inj hstart
      exact ⟨hfault, .inl (.refl _)⟩
  case case9 =>
    simp only [EStateM.Result.error.injEq] at h
    obtain ⟨rfl, rfl⟩ := h
    exact ⟨rfl, .inr rfl⟩
  case case10 ih =>
    obtain ⟨hfault, hleads⟩ := ih h
    exact ⟨hfault, .inl (.trans ⟨['-', '-', '>'], rfl, rfl⟩ (hleads.resolve_right (by simp)))⟩
  case case11 ih =>
    obtain ⟨hfault, hleads⟩ := ih h
    exact ⟨hfault, hleads.imp_left (Cursor.leads_cons _ _ _).trans⟩

end Blanks

namespace Literal

/-- A quoted literal that is not well-formed is to blame at its start or at an escape in it. -/
theorem blame_of_body (quotation : Char) (start : Nat) (before rest read : List Char)
    {fault : ScanFault} {d : Cursor}
    (h : body quotation start before rest read = .error fault d) :
    (Cursor.mk before rest).Leads d ∧
      (fault.position = start ∨ (Cursor.mk before rest).Covers fault.position) := by
  fun_induction body quotation start before rest read
  case case1 | case3 =>
    simp only [EStateM.Result.error.injEq] at h
    obtain ⟨rfl, rfl⟩ := h
    exact ⟨.refl _, .inl rfl⟩
  case case2 => simp at h
  case case4 before _ e m cause passed _ _ here =>
    simp only [EStateM.Result.error.injEq] at h
    obtain ⟨rfl, rfl⟩ := h
    exact ⟨Cursor.leads_pass (List.take_append_drop _ _).symm, .inr (Cursor.Leads.refl _).covers⟩
  case case5 before read e m t length _ _ ih =>
    have hleads : (Cursor.mk before (Text.backslash :: e :: m)).Leads
        ⟨((e :: m).take length).reverse ++ Text.backslash :: before, (e :: m).drop length⟩ :=
      (Cursor.leads_cons _ _ _).trans ⟨_, (List.take_append_drop _ _).symm, rfl⟩
    exact ⟨hleads.trans (ih h).1, (ih h).2.imp_right hleads.covers_of_covers⟩
  case case6 before read x m _ _ ih =>
    have hleads := Cursor.leads_cons x before m
    exact ⟨hleads.trans (ih h).1, (ih h).2.imp_right hleads.covers_of_covers⟩

end Literal

/-- A literal that is passed over and is not closed is to blame at its start. -/
theorem Extent.blame_of_quoted (quotation : Char) (start : Nat) (before rest : List Char)
    {fault : ScanFault} {d : Cursor} (h : quoted quotation start before rest = .error fault d) :
    (Cursor.mk before rest).Leads d ∧ fault.position = start := by
  fun_induction quoted quotation start before rest
  case case1 =>
    simp only [EStateM.Result.error.injEq] at h
    obtain ⟨rfl, rfl⟩ := h
    exact ⟨.refl _, rfl⟩
  case case2 => simp at h
  case case3 =>
    simp only [EStateM.Result.error.injEq] at h
    obtain ⟨rfl, rfl⟩ := h
    exact ⟨Cursor.leads_cons _ _ _, rfl⟩
  case case4 ih =>
    exact ⟨(Cursor.leads_cons _ _ _).trans ((Cursor.leads_cons _ _ _).trans (ih h).1), (ih h).2⟩
  case case5 ih => exact ⟨(Cursor.leads_cons _ _ _).trans (ih h).1, (ih h).2⟩

namespace Scan

variable {α β : Type}

/-- From a place of the window `w`, a scan comes to a place behind `floor`, also if it fails, with a
result as told, and what it blames for a failure is a place of the window. -/
def Stays (w floor : Cursor) (m : Scan α) (c : Cursor) (Q : α → Cursor → Prop) : Prop :=
  match m c with
  | .ok a d => floor.Leads d ∧ Q a d
  | .error fault d => floor.Leads d ∧ w.Covers fault.position

variable {w floor c d : Cursor} {Q R : α → Cursor → Prop} {S : β → Cursor → Prop}

theorem stays_of_ok {m : Scan α} {a : α} (h : m c = .ok a d) (hd : floor.Leads d) (hQ : Q a d) :
    Stays w floor m c Q := by
  rw [Stays, h]
  exact ⟨hd, hQ⟩

theorem stays_of_error {m : Scan α} {fault : ScanFault} (h : m c = .error fault d)
    (hd : floor.Leads d) (hblame : w.Covers fault.position) : Stays w floor m c Q := by
  rw [Stays, h]
  exact ⟨hd, hblame⟩

namespace Stays

theorem leads {m : Scan α} (h : Stays w floor m c Q) {a : α} (hm : m c = .ok a d) :
    floor.Leads d ∧ Q a d := by
  rwa [Stays, hm] at h

theorem blame {m : Scan α} (h : Stays w floor m c Q) {fault : ScanFault}
    (hm : m c = .error fault d) : floor.Leads d ∧ w.Covers fault.position := by
  rwa [Stays, hm] at h

theorem imp {m : Scan α} (h : Stays w floor m c Q) (hQ : ∀ a d, floor.Leads d → Q a d → R a d) :
    Stays w floor m c R := by
  cases hm : m c with
  | ok a d => exact stays_of_ok hm (h.leads hm).1 (hQ a d (h.leads hm).1 (h.leads hm).2)
  | error fault d => exact stays_of_error hm (h.blame hm).1 (h.blame hm).2

/-- The result of a scan is that of its run. -/
theorem result {m : Scan α} (h : Stays w floor m c Q) :
    Stays w floor m c fun a d => m c = .ok a d := by
  cases hm : m c with
  | ok a d => exact stays_of_ok hm (h.leads hm).1 rfl
  | error fault d => exact stays_of_error hm (h.blame hm).1 (h.blame hm).2

theorem bind {m : Scan α} {f : α → Scan β} (hm : Stays w floor m c Q)
    (hf : ∀ a d, floor.Leads d → Q a d → Stays w floor (f a) d S) :
    Stays w floor (m >>= f) c S := by
  cases h : m c with
  | ok a d =>
    have hf := hf a d (hm.leads h).1 (hm.leads h).2
    rwa [Stays, bind_of_eq_ok h]
  | error fault d =>
    exact stays_of_error (bind_of_eq_error h) (hm.blame h).1 (hm.blame h).2

theorem pure {a : α} (hc : floor.Leads c) (hQ : Q a c) : Stays w floor (pure a) c Q :=
  stays_of_ok rfl hc hQ

theorem get {f : Cursor → Scan α} (hf : Stays w floor (f c) c Q) :
    Stays w floor (MonadState.get >>= f) c Q :=
  hf

theorem peek? {f : Option Char → Scan α} (hf : Stays w floor (f c.peek?) c Q) :
    Stays w floor (Scan.peek? >>= f) c Q :=
  hf

theorem refuseAt {position : Nat} {cause : Malformation} (hc : floor.Leads c)
    (h : w.Covers position) : Stays w floor (Scan.refuseAt position cause : Scan α) c Q :=
  stays_of_error rfl hc h

theorem refuse {cause : Malformation} (hw : w.Leads floor) (hc : floor.Leads c) :
    Stays w floor (Scan.refuse cause : Scan α) c Q :=
  stays_of_error rfl hc (hw.trans hc).covers

theorem ite {p : Prop} {_ : Decidable p} {m m' : Scan α} (h : Stays w floor m c Q)
    (h' : Stays w floor m' c Q) : Stays w floor (if p then m else m') c Q := by
  by_cases hp : p
  · rwa [if_pos hp]
  · rwa [if_neg hp]

/-- A refusal comes first under a condition. -/
theorem refuse_or {p : Prop} {_ : Decidable p} {cause : Malformation} {m : Scan β}
    (hw : w.Leads floor) (hc : floor.Leads c) (h : Stays w floor m c S) :
    Stays w floor (if p then (Scan.refuse cause : Scan α) >>= fun _ => m else m) c S :=
  .ite (.bind (.refuse (Q := fun _ _ => False) hw hc) fun _ _ _ h => h.elim) h

theorem next (hc : floor.Leads c) : Stays w floor Scan.next c fun _ d => d = c.next :=
  stays_of_ok rfl (hc.trans (Cursor.Leads.next c)) rfl

theorem blanks (hw : w.Leads floor) (hc : floor.Leads c) :
    Stays w floor Scan.blanks c fun _ _ => True := by
  cases h : Scan.blanks c with
  | ok broken d => exact stays_of_ok h (hc.trans (leads_of_blanks h)) trivial
  | error fault d =>
    obtain ⟨hfault, hleads⟩ := Blanks.blame_of_pass _ _ _ _ h
    have hd := hc.trans (hleads.resolve_right (by simp))
    exact stays_of_error h hd (hfault ▸ (hw.trans hd).covers)

theorem token {inKey : Bool} (hc : floor.Leads c) :
    Stays w floor (Scan.token inKey) c fun _ _ => True :=
  stays_of_ok rfl (hc.trans (Token.leads_pass rfl)) trivial

theorem raw {quotation : Char} (hw : w.Leads floor) (hc : floor.Leads c) :
    Stays w floor (Scan.raw quotation) c fun _ _ => True := by
  cases h : Scan.raw quotation c with
  | ok l d =>
    have hd := (Cursor.Leads.next c).trans ((Cursor.Leads.next _).trans (raw_leads h).1)
    exact stays_of_ok h (hc.trans hd) trivial
  | error fault d =>
    have hraw := h
    simp only [Scan.raw] at hraw
    split at hraw
    · simp at hraw
    · simp only [EStateM.Result.error.injEq] at hraw
      obtain ⟨rfl, rfl⟩ := hraw
      exact stays_of_error h hc (hw.trans hc).covers

theorem quoted {quotation : Char} (hw : w.Leads floor) (hc : floor.Leads c) :
    Stays w floor (Scan.quoted quotation) c fun _ _ => True := by
  have hnext := hc.trans (Cursor.Leads.next c)
  cases h : Scan.quoted quotation c with
  | ok l d => exact stays_of_ok h (hnext.trans (Literal.leads_of_body _ _ _ _ _ h)) trivial
  | error fault d =>
    obtain ⟨hd, hblame⟩ := Literal.blame_of_body _ _ _ _ _ h
    refine stays_of_error h (hnext.trans hd) ?_
    rcases hblame with hstart | hcovers
    · exact hstart ▸ (hw.trans hc).covers
    · exact (hw.trans hnext).covers_of_covers hcovers

theorem separatorBefore {start : Cursor} {broken : Bool} {x : Char} (hw : w.Leads floor)
    (hc : floor.Leads c) :
    Stays w floor (Scan.separatorBefore start broken x) c fun _ _ => True := by
  unfold Scan.separatorBefore
  split
  · exact .pure hc trivial
  · refine .get ?_
    split <;> exact .refuse hw hc

theorem separator {closing : Option Char} {refusal : Option ColonRefusal} (hw : w.Leads floor)
    (hc : floor.Leads c) :
    Stays w floor (Scan.separator closing refusal) c fun _ _ => True := by
  have mark : ∀ {d : Cursor} {sep : Separator}, floor.Leads d →
      Stays w floor (do Scan.next; let _ ← Scan.blanks; return sep) d fun _ _ => True := by
    intro d sep hd
    exact .bind (.next hd) fun _ e he _ => .bind (.blanks hw he) fun _ e' he' _ =>
      .pure he' trivial
  unfold Scan.separator
  refine .get (.bind (.blanks hw hc) fun broken d hd _ => .peek? ?_)
  split
  · exact .pure hd trivial
  · exact .refuse hw hd
  · exact .refuse hw hd
  · exact mark hd
  · exact mark hd
  · split
    · exact .pure hd trivial
    · split
      · exact .refuse hw hd
      · split
        · exact .refuse hw hd
        · exact separatorBefore hw hd

end Stays
end Scan

namespace Extent

/-- The functions of a scan with a given bound move on, and blame places of the window. -/
structure AllStay (n : Nat) : Prop where
  expression : ∀ {w floor c}, w.Leads floor → floor.Leads c →
    Scan.Stays w floor (expression n) c fun _ _ => True
  bracketed : ∀ {w floor c closing}, w.Leads floor → floor.Leads c →
    Scan.Stays w floor (bracketed n closing) c fun _ _ => True
  items : ∀ {w floor c closing start}, w.Leads floor → floor.Leads c → w.Covers start →
    Scan.Stays w floor (items n closing start) c fun _ d => d.peek? = some closing

theorem AllStay.zero : AllStay 0 where
  expression hw hc := by simp only [Extent.expression]; exact .refuse hw hc
  bracketed hw hc := by simp only [Extent.bracketed]; exact .refuse hw hc
  items hw hc _ := by simp only [Extent.items]; exact .refuse hw hc

section
variable {n : Nat} {w floor c : Cursor} {closing : Char}

theorem quoted_stays {quotation : Char} (hw : w.Leads floor) (hc : floor.Leads c) :
    Scan.Stays w floor (fun s => quoted quotation c.position s.next.before s.next.rest) c
      fun _ _ => True := by
  have hnext := hc.trans (Cursor.Leads.next c)
  cases h : quoted quotation c.position c.next.before c.next.rest with
  | ok _ d => exact Scan.stays_of_ok h (hnext.trans (leads_of_quoted _ _ _ _ h)) trivial
  | error fault d =>
    obtain ⟨hd, hfault⟩ := blame_of_quoted _ _ _ _ h
    exact Scan.stays_of_error h (hnext.trans hd) (hfault ▸ (hw.trans hc).covers)

/-- A bracketed listing is left behind its opening bracket at the earliest, also if that fails, and
otherwise from its closing bracket. -/
theorem bracketed_stays (ih : AllStay n) (hw : w.Leads c) (hnext : floor.Leads c.next)
    (hfloor : w.Leads floor) :
    Scan.Stays w floor (bracketed (n + 1) closing) c
      fun _ d => ∃ e, floor.Leads e ∧ e.peek? = some closing ∧ d = e.next := by
  simp only [bracketed]
  refine .get (.bind (Scan.stays_of_ok rfl hnext (Q := fun _ _ => True) trivial) fun _ d hd _ => ?_)
  refine .bind (.blanks hfloor hd) fun _ e he _ => ?_
  refine .bind (ih.items hfloor he hw.covers) fun _ d' hd' hcloses => ?_
  exact (Scan.Stays.next hd').imp fun _ _ _ h => ⟨d', hd', hcloses, h⟩

theorem expression_stays (ih : AllStay n) (hw : w.Leads floor) (hc : floor.Leads c) :
    Scan.Stays w floor (expression (n + 1)) c fun _ _ => True := by
  simp only [expression]
  refine .get ?_
  split
  · exact .refuse hw hc
  · split
    · exact ih.bracketed hw hc
    · exact .bind (.raw hw hc) fun _ d hd _ => .pure hd trivial
    · refine .ite (quoted_stays hw hc) (.bind (.token hc) fun l d hd _ => .refuse_or hw hd ?_)
      -- Without a call, the scan goes back to the end of the token.
      refine .get (.bind (.blanks hw hd) fun _ e he _ => .peek? (.ite (ih.bracketed hw he) ?_))
      exact Scan.stays_of_ok rfl hd trivial

theorem items_stays (ih : AllStay n) {start : Nat} (hw : w.Leads floor) (hc : floor.Leads c)
    (hstart : w.Covers start) :
    Scan.Stays w floor (items (n + 1) closing start) c fun _ d => d.peek? = some closing := by
  simp only [items]
  refine .peek? ?_
  cases hpeek : c.peek? with
  | none => exact .refuseAt hc hstart
  | some x =>
    by_cases hx : x = closing
    · simp only [hx, if_true]
      exact .pure hc (by rw [hpeek, hx])
    · simp only [if_neg hx]
      have more : ∀ {d : Cursor}, floor.Leads d →
          Scan.Stays w floor (Scan.blanks >>= fun _ => items n closing start) d
            fun _ d => d.peek? = some closing :=
        fun hd => .bind (.blanks hw hd) fun _ e he _ => ih.items hw he hstart
      exact .ite (.bind (.next hc) fun _ d hd _ => more hd)
        (.bind (ih.expression hw hc) fun _ d hd _ => more hd)

end

theorem allStay : ∀ n, AllStay n
  | 0 => .zero
  | n + 1 =>
    have ih := allStay n
    { expression := expression_stays ih
      bracketed := fun hw hc =>
        (bracketed_stays ih (hw.trans hc) (hc.trans (Cursor.Leads.next _)) hw).imp
          fun _ _ _ _ => trivial
      items := items_stays ih }

end Extent

namespace Scan

variable {w floor c : Cursor}

theorem extent_stays (hw : w.Leads floor) (hc : floor.Leads c) :
    Stays w floor extent c fun _ _ => True := by
  have h := (Extent.allStay (3 * c.rest.length + 3)).expression hw hc
  rwa [Stays] at h ⊢

/-- A hash that is passed over is left from its closing brace, or behind its opening one. -/
theorem extent_stays_of_brace (opens : c.peek? = some '{') (hw : w.Leads c) :
    Stays w c.next extent c fun _ d => ∃ e, c.next.Leads e ∧ e.peek? = some '}' ∧ d = e.next := by
  have hstart : extent c = Extent.bracketed (3 * c.rest.length + 1 + 1) '}' c := by
    obtain ⟨before, rest⟩ := c
    obtain ⟨rest', rfl⟩ := Cursor.rest_of_peek? opens
    rfl
  rw [Stays, hstart]
  exact Extent.bracketed_stays (Extent.allStay (3 * c.rest.length + 1)) hw (Cursor.Leads.refl _)
    (hw.trans (Cursor.Leads.next c))

end Scan
end TextualData
