import TextualData.Proofs.Skipping

/-!
# Skipping comes to an end

The functions that skip an expression take a number that bounds their recursion, and refuse the text
when it is used up. `Scan.Finishes` says of a scan that it does not come to that if the number is
enough, and what holds of its result. With three for each character that is left of the window, the
number is enough for every text, since each expression takes at least one character and so does
each mark between two.
-/

namespace TextualData

/-- Blanks are refused for one reason only. -/
theorem Blanks.cause_of_pass (mode : Mode) (broken : Bool) (before rest : List Char)
    {fault : ScanFault} {d : Cursor} (h : pass mode broken before rest = .error fault d) :
    fault.cause = .unclosedComment := by
  fun_induction pass mode broken before rest
  case case1 | case5 | case6 => simp at h
  case case9 =>
    obtain ⟨rfl, -⟩ := EStateM.Result.error.inj h
    rfl
  all_goals
    rename_i ih
    exact ih h

namespace Literal

theorem cause_of_escape {e : Char} {m : List Char} {cause : Malformation} {passed : Nat}
    (h : escape e m = .malformed cause passed) : cause ≠ .exhausted := by
  unfold escape at h
  split at h
  · simp at h
  · split at h
    · dsimp only at h
      split at h
      · simp at h
      · obtain ⟨rfl, -⟩ := Escape.malformed.inj h
        simp
    · split at h
      · split at h
        · simp at h
        · obtain ⟨rfl, -⟩ := Escape.malformed.inj h
          simp
      · obtain ⟨rfl, -⟩ := Escape.malformed.inj h
        simp

theorem cause_of_body (quotation : Char) (start : Nat) (before rest read : List Char)
    {fault : ScanFault} {d : Cursor} (h : body quotation start before rest read = .error fault d) :
    fault.cause ≠ .exhausted := by
  fun_induction body quotation start before rest read
  case case1 | case3 =>
    obtain ⟨rfl, -⟩ := EStateM.Result.error.inj h
    simp
  case case2 => simp at h
  case case4 hescape _ _ =>
    obtain ⟨rfl, -⟩ := EStateM.Result.error.inj h
    exact cause_of_escape hescape
  case case5 ih | case6 ih => exact ih h

end Literal

theorem Extent.cause_of_quoted (quotation : Char) (start : Nat) (before rest : List Char)
    {fault : ScanFault} {d : Cursor} (h : quoted quotation start before rest = .error fault d) :
    fault.cause ≠ .exhausted := by
  fun_induction quoted quotation start before rest
  case case1 | case3 =>
    obtain ⟨rfl, -⟩ := EStateM.Result.error.inj h
    simp
  case case2 => simp at h
  case case4 ih | case5 ih => exact ih h

namespace Scan

variable {α β : Type}

/-- From a place, a scan has a result as told, or refuses the text for something in it; the latter
if the bound on the recursion is enough. -/
def Finishes (enough : Prop) (m : Scan α) (c : Cursor) (Q : α → Cursor → Prop) : Prop :=
  match m c with
  | .ok a d => Q a d
  | .error fault _ => enough → fault.cause ≠ .exhausted

variable {enough enough' : Prop} {c d : Cursor} {Q R : α → Cursor → Prop} {S : β → Cursor → Prop}

theorem finishes_of_ok {m : Scan α} {a : α} (h : m c = .ok a d) (hQ : Q a d) :
    Finishes enough m c Q := by
  rwa [Finishes, h]

theorem finishes_of_error {m : Scan α} {fault : ScanFault} (h : m c = .error fault d)
    (hfault : enough → fault.cause ≠ .exhausted) : Finishes enough m c Q := by
  rwa [Finishes, h]

namespace Finishes

theorem result {m : Scan α} (h : Finishes enough m c Q) {a : α} (hm : m c = .ok a d) : Q a d := by
  rwa [Finishes, hm] at h

theorem cause {m : Scan α} (h : Finishes enough m c Q) {fault : ScanFault}
    (hm : m c = .error fault d) : enough → fault.cause ≠ .exhausted := by
  rwa [Finishes, hm] at h

theorem imp {m : Scan α} (h : Finishes enough' m c Q) (henough : enough → enough')
    (hQ : ∀ a d, Q a d → R a d) : Finishes enough m c R := by
  cases hm : m c with
  | ok a d => exact finishes_of_ok hm (hQ a d (h.result hm))
  | error fault d => exact finishes_of_error hm fun he => h.cause hm (henough he)

theorem bind {m : Scan α} {f : α → Scan β} (h : Finishes enough m c Q)
    (hf : ∀ a d, Q a d → Finishes enough (f a) d S) : Finishes enough (m >>= f) c S := by
  cases hm : m c with
  | ok a d =>
    have hf := hf a d (h.result hm)
    rwa [Finishes, bind_of_eq_ok hm]
  | error fault d => exact finishes_of_error (bind_of_eq_error hm) (h.cause hm)

theorem pure {a : α} (hQ : Q a c) : Finishes enough (pure a) c Q :=
  finishes_of_ok rfl hQ

theorem get {f : Cursor → Scan α} (hf : Finishes enough (f c) c Q) :
    Finishes enough (MonadState.get >>= f) c Q :=
  hf

theorem peek? {f : Option Char → Scan α} (hf : Finishes enough (f c.peek?) c Q) :
    Finishes enough (Scan.peek? >>= f) c Q :=
  hf

theorem refuseAt {position : Nat} {cause : Malformation} (h : cause ≠ .exhausted) :
    Finishes enough (Scan.refuseAt position cause : Scan α) c Q :=
  finishes_of_error rfl fun _ => h

theorem refuse {cause : Malformation} (h : cause ≠ .exhausted) :
    Finishes enough (Scan.refuse cause : Scan α) c Q :=
  finishes_of_error rfl fun _ => h

/-- The bound is not enough. -/
theorem exhausted (h : ¬enough) : Finishes enough (Scan.refuse .exhausted : Scan α) c Q :=
  finishes_of_error rfl fun he => absurd he h

theorem ite {p : Prop} {_ : Decidable p} {m m' : Scan α} (h : p → Finishes enough m c Q)
    (h' : ¬p → Finishes enough m' c Q) : Finishes enough (if p then m else m') c Q := by
  by_cases hp : p
  · rw [if_pos hp]
    exact h hp
  · rw [if_neg hp]
    exact h' hp

/-- A refusal comes first under a condition. -/
theorem refuse_or {p : Prop} {_ : Decidable p} {cause : Malformation} {m : Scan β}
    (hcause : cause ≠ .exhausted) (h : ¬p → Finishes enough m c S) :
    Finishes enough (if p then (Scan.refuse cause : Scan α) >>= fun _ => m else m) c S :=
  .ite (fun _ => .bind (.refuse (Q := fun _ _ => False) hcause) fun _ _ h => h.elim) h

theorem next : Finishes enough next c fun _ d => d = c.next :=
  finishes_of_ok rfl rfl

theorem blanks : Finishes enough blanks c fun _ d => d.rest.length ≤ c.rest.length := by
  cases h : Scan.blanks c with
  | ok broken d => exact finishes_of_ok h (leads_of_blanks h).length_le
  | error fault d =>
    exact finishes_of_error h fun _ => by simp [Blanks.cause_of_pass _ _ _ _ h]

theorem token {inKey : Bool} : Finishes enough (token inKey) c fun l d =>
    d.rest.length ≤ c.rest.length ∧ (l ≠ [] → d.rest.length < c.rest.length) :=
  finishes_of_ok rfl ⟨(Token.leads_pass rfl).length_le, Token.length_lt rfl⟩

theorem raw {quotation : Char} : Finishes enough (raw quotation) c fun _ d =>
    d.rest.length < c.rest.length := by
  have hnext := ((Cursor.Leads.next c).trans (.next _)).length_le
  cases h : Scan.raw quotation c with
  | ok l d => exact finishes_of_ok h (Nat.lt_of_lt_of_le (raw_leads h).2 hnext)
  | error fault d =>
    refine finishes_of_error h fun _ => ?_
    unfold Scan.raw at h
    split at h
    · simp at h
    · obtain ⟨rfl, -⟩ := EStateM.Result.error.inj h
      simp

theorem quoted {quotation : Char} (opens : c.peek? = some quotation) :
    Finishes enough (quoted quotation) c fun _ d => d.rest.length < c.rest.length := by
  cases h : Scan.quoted quotation c with
  | ok l d => exact finishes_of_ok h (quoted_length_lt opens h).2
  | error fault d => exact finishes_of_error h fun _ => Literal.cause_of_body _ _ _ _ _ h

theorem separatorBefore {start : Cursor} {broken : Bool} {x : Char} :
    Finishes enough (separatorBefore start broken x) c fun _ d => d = c := by
  refine .ite (fun _ => .pure rfl) fun _ => .get ?_
  exact .ite (fun _ => .refuse (by simp)) fun _ => .refuse (by simp)

theorem separator {closing : Option Char} {refusal : Option ColonRefusal} :
    Finishes enough (separator closing refusal) c fun _ d => d.rest.length ≤ c.rest.length := by
  have mark (sep : Separator) {d : Cursor} (hd : d.rest.length ≤ c.rest.length) :
      Finishes enough (do Scan.next; let _ ← Scan.blanks; return sep) d
        fun _ e => e.rest.length ≤ c.rest.length := by
    refine .bind .next fun _ e he => .bind .blanks fun _ e' he' => .pure ?_
    subst he
    exact Nat.le_trans he' (Nat.le_trans (Cursor.Leads.next d).length_le hd)
  unfold Scan.separator
  refine .get (.bind .blanks fun broken d hd => .peek? ?_)
  split
  · exact .pure hd
  · exact .refuse (by simp)
  · exact .refuse (by simp)
  · exact mark _ hd
  · exact mark _ hd
  · refine .ite (fun _ => .pure hd) fun _ => .ite (fun _ => .refuse (by simp)) fun _ =>
      .ite (fun _ => .refuse (by simp)) fun _ => separatorBefore.imp id fun _ e he => ?_
    rwa [he]

end Finishes
end Scan

namespace Extent

/-- The functions of a scan come to an end with a bound that is enough for what is left. -/
structure AllFinish (n : Nat) : Prop where
  expression : ∀ {c}, Scan.Finishes (3 * c.rest.length + 1 ≤ n) (expression n) c
    fun _ d => d.rest.length < c.rest.length
  bracketed : ∀ {c x closing}, c.peek? = some x →
    Scan.Finishes (3 * c.rest.length ≤ n) (bracketed n closing) c
      fun _ d => d.rest.length < c.rest.length
  items : ∀ {c closing start}, Scan.Finishes (3 * c.rest.length + 2 ≤ n) (items n closing start) c
    fun _ d => d.rest.length ≤ c.rest.length

theorem length_pos {c : Cursor} {x : Char} (h : c.peek? = some x) : 0 < c.rest.length := by
  obtain ⟨rest, hrest⟩ := Cursor.rest_of_peek? h
  simp [hrest]

theorem AllFinish.zero : AllFinish 0 where
  expression := by simp only [Extent.expression]; exact .exhausted (by omega)
  bracketed h := by
    have hpos := length_pos h
    simp only [Extent.bracketed]
    exact .exhausted (by omega)
  items := by simp only [Extent.items]; exact .exhausted (by omega)

section
variable {n start : Nat} {closing : Char} {c : Cursor}

theorem expression_finishes (ih : AllFinish n) :
    Scan.Finishes (3 * c.rest.length + 1 ≤ n + 1) (expression (n + 1)) c
      fun _ d => d.rest.length < c.rest.length := by
  simp only [Extent.expression]
  refine .get ?_
  cases hpeek : c.peek? with
  | none => exact .refuse (by simp)
  | some x =>
    dsimp only
    split
    · exact (ih.bracketed hpeek).imp (by omega) fun _ _ => id
    · exact .bind .raw fun _ _ hd => .pure hd
    · refine .ite (fun hx => ?_) fun _ => .bind .token fun l stop hstop => ?_
      · cases h : quoted x c.position c.next.before c.next.rest with
        | ok _ d =>
          refine Scan.finishes_of_ok h ?_
          exact Nat.lt_of_le_of_lt (leads_of_quoted _ _ _ _ h).length_le
            (Cursor.next_length_lt hpeek)
        | error fault d => exact Scan.finishes_of_error h fun _ => cause_of_quoted _ _ _ _ h
      · refine .refuse_or (by simp) fun hl => .get (.bind .blanks fun _ d hd => .peek? ?_)
        have hlt := hstop.2 fun h => hl (by simp [h])
        refine .ite (fun hopen => ?_) fun _ => Scan.finishes_of_ok rfl hlt
        exact (ih.bracketed hopen).imp (by omega) fun _ e he => by omega

theorem bracketed_finishes (ih : AllFinish n) {x : Char} (hpeek : c.peek? = some x) :
    Scan.Finishes (3 * c.rest.length ≤ n + 1) (bracketed (n + 1) closing) c
      fun _ d => d.rest.length < c.rest.length := by
  have hlt := Cursor.next_length_lt hpeek
  simp only [Extent.bracketed]
  refine .get (.bind .next fun _ d hd => ?_)
  subst hd
  refine .bind .blanks fun _ e he => ?_
  refine .bind (ih.items.imp (by omega) fun _ _ => id) fun _ e' he' => ?_
  refine Scan.Finishes.next.imp id fun _ e'' he'' => ?_
  have hle := (Cursor.Leads.next e').length_le
  rw [he'']
  omega

theorem items_finishes (ih : AllFinish n) :
    Scan.Finishes (3 * c.rest.length + 2 ≤ n + 1) (items (n + 1) closing start) c
      fun _ d => d.rest.length ≤ c.rest.length := by
  simp only [Extent.items]
  refine .peek? ?_
  cases hpeek : c.peek? with
  | none => exact .refuseAt (by simp)
  | some x =>
    have hlt := Cursor.next_length_lt hpeek
    refine .ite (fun _ => .pure (Nat.le_refl _)) fun _ => ?_
    have more {d : Cursor} (hd : d.rest.length < c.rest.length) :
        Scan.Finishes (3 * c.rest.length + 2 ≤ n + 1)
          (do let _ ← Scan.blanks; items n closing start) d
          fun _ e => e.rest.length ≤ c.rest.length :=
      .bind .blanks fun _ e he => ih.items.imp (by omega) fun _ e' he' => by omega
    -- A mark takes one character, and an expression at least one.
    refine .ite (fun _ => .bind .next fun _ d hd => more (by rw [hd]; exact hlt)) fun _ => ?_
    exact .bind (ih.expression.imp (by omega) fun _ _ => id) fun _ d hd => more hd

end

theorem allFinish : ∀ n, AllFinish n
  | 0 => .zero
  | n + 1 =>
    have ih := allFinish n
    { expression := expression_finishes ih
      bracketed := bracketed_finishes ih
      items := items_finishes ih }

end Extent

/-- The extent of an expression is found or refused for something in the text. -/
theorem Scan.extent_finishes {enough : Prop} {c : Cursor} :
    Finishes enough extent c fun _ d => d.rest.length < c.rest.length := by
  have h : Finishes enough (Extent.expression (3 * c.rest.length + 3)) c
      fun _ d => d.rest.length < c.rest.length :=
    (Extent.allFinish _).expression.imp (fun _ => by omega) fun _ _ => id
  rw [Finishes] at h ⊢
  exact h

theorem Scan.cause_of_extent {fault : ScanFault} {c d : Cursor}
    (h : Scan.extent c = .error fault d) : fault.cause ≠ .exhausted :=
  have hfinishes : Finishes True extent c _ := extent_finishes
  hfinishes.cause h trivial

end TextualData
