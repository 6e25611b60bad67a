import TextualData.Proofs.Gaps
import TextualData.Proofs.Runs

/-!
# Scans behind other text

A window may stand behind other text. A scan looks back only to see whether a number sign opens a
comment, so behind text that leaves its last line blank it does what it does in a window of its
own, with all places moved on by the size of that text. `Scan.Shifts` says this of two scans.
-/

namespace TextualData

/-- The place behind more text, whose characters are given nearest first. -/
def Cursor.behind (c : Cursor) (ahead : List Char) : Cursor :=
  ⟨c.before ++ ahead, c.rest⟩

/-- The fault further on in a text. -/
def ScanFault.later (fault : ScanFault) (distance : Nat) : ScanFault :=
  ⟨fault.cause, fault.position + distance⟩

namespace Cursor

variable (c : Cursor) (ahead : List Char)

@[simp] theorem rest_behind : (c.behind ahead).rest = c.rest := rfl

@[simp] theorem before_behind : (c.behind ahead).before = c.before ++ ahead := rfl

@[simp] theorem peek?_behind : (c.behind ahead).peek? = c.peek? := rfl

@[simp] theorem position_behind :
    (c.behind ahead).position = c.position + Text.byteSize ahead :=
  Text.byteSize_append c.before ahead

theorem pass_behind (passed rest : List Char) :
    (c.behind ahead).pass passed rest = (c.pass passed rest).behind ahead := by
  simp [pass, behind]

theorem next_behind : (c.behind ahead).next = c.next.behind ahead := by
  obtain ⟨before, rest⟩ := c
  cases rest <;> rfl

end Cursor

namespace Scan

variable {α β : Type} {ahead : List Char}

/-- The outcome of a scan behind more text. -/
def behind (ahead : List Char) :
    EStateM.Result ScanFault Cursor α → EStateM.Result ScanFault Cursor α
  | .ok a c => .ok a (c.behind ahead)
  | .error fault c => .error (fault.later (Text.byteSize ahead)) (c.behind ahead)

/-- Behind more text, the first scan does what the second one does without it. -/
def Shifts (ahead : List Char) (m m' : Scan α) : Prop :=
  ∀ c : Cursor, m (c.behind ahead) = behind ahead (m' c)

end Scan

namespace Blanks

/-- The mode behind more text. -/
def Mode.behind (ahead : List Char) : Mode → Mode
  | .blank => .blank
  | .lineComment => .lineComment
  | .blockComment start => .blockComment (start.behind ahead)

theorem pass_behind {ahead : List Char} (hline : Text.isLineBlankBefore ahead) (mode : Mode)
    (broken : Bool) (before rest : List Char) :
    pass (mode.behind ahead) broken (before ++ ahead) rest =
      Scan.behind ahead (pass mode broken before rest) := by
  -- Whether a number sign opens a comment is settled before the text ahead, or is blank there.
  have hsame (l : List Char) :
      Text.isLineBlankBefore (l ++ ahead) = Text.isLineBlankBefore l := by
    have h : Text.isLineBlankBefore (l ++ ahead) = Text.isLineBlankBefore (l ++ []) :=
      Text.isLineBlankBefore_append hline l
    rwa [List.append_nil] at h
  fun_induction pass mode broken before rest
  case case1 | case6 => rfl
  case case2 hblank ih =>
    rw [Mode.behind, pass, if_pos hblank]
    exact ih
  case case3 hblank hcomment ih =>
    rw [Mode.behind, pass, if_neg hblank, hsame, if_pos hcomment]
    exact ih
  case case4 hblank hcomment hopens ih =>
    rw [Mode.behind, pass, if_neg hblank, hsame, if_neg hcomment, if_pos hopens]
    exact ih
  case case5 hblank hcomment hopens =>
    rw [Mode.behind, pass, if_neg hblank, hsame, if_neg hcomment, if_neg hopens]
    rfl
  case case7 hbreak ih =>
    rw [Mode.behind, pass, if_pos hbreak]
    exact ih
  case case8 hbreak ih =>
    rw [Mode.behind, pass, if_neg hbreak]
    exact ih
  case case9 start _ _ =>
    simp [Mode.behind, pass, Scan.behind, ScanFault.later]
  case case10 ih =>
    rw [Mode.behind, pass]
    exact ih
  case case11 hno ih =>
    rw [Mode.behind, pass]
    · exact ih
    · exact hno

end Blanks

theorem Literal.body_behind (ahead : List Char) (quotation : Char) (start : Nat)
    (before rest read : List Char) :
    body quotation (start + Text.byteSize ahead) (before ++ ahead) rest read =
      Scan.behind ahead (body quotation start before rest read) := by
  fun_induction body quotation start before rest read
  case case1 =>
    rw [body]
    rfl
  case case2 =>
    rw [body.eq_def]
    simp only [if_true]
    rfl
  case case3 hne =>
    rw [body.eq_def]
    simp only [hne, if_false, if_true]
    rfl
  case case4 before read e m cause passed hescape hne here =>
    rw [body.eq_def]
    simp only [hne, if_false, if_true, hescape]
    have hpass := here.pass_behind ahead ((Text.backslash :: e :: m).take passed)
      ((Text.backslash :: e :: m).drop passed)
    have hposition := here.position_behind ahead
    simp only [Scan.behind, ScanFault.later, ← hpass, ← hposition]
    rfl
  case case5 before read e m t length hescape hne ih =>
    rw [body.eq_def]
    simp only [hne, if_false, if_true, hescape]
    rw [← ih, List.append_assoc, List.cons_append]
  case case6 hne hslash ih =>
    rw [body.eq_def]
    simp only [hne, hslash, if_false]
    exact ih

namespace Scan.Shifts

variable {α β : Type} {ahead : List Char}

theorem bind {m m' : Scan α} {f f' : α → Scan β} (h : Shifts ahead m m')
    (hf : ∀ a, Shifts ahead (f a) (f' a)) : Shifts ahead (m >>= f) (m' >>= f') := by
  intro c
  have hrun := h c
  cases hm : m' c with
  | ok a d =>
    rw [hm] at hrun
    rw [bind_of_eq_ok hrun, bind_of_eq_ok hm, hf]
  | error fault d =>
    rw [hm] at hrun
    rw [bind_of_eq_error hrun, bind_of_eq_error hm]
    rfl

theorem pure (a : α) : Shifts ahead (pure a) (pure a) :=
  fun _ => rfl

theorem get {f f' : Cursor → Scan β} (hf : ∀ c : Cursor, Shifts ahead (f (c.behind ahead)) (f' c)) :
    Shifts ahead (MonadState.get >>= f) (MonadState.get >>= f') :=
  fun c => hf c c

theorem peek? : Shifts ahead peek? peek? :=
  fun _ => rfl

theorem next : Shifts ahead next next :=
  fun c => congrArg (EStateM.Result.ok ()) (c.next_behind ahead)

theorem ite {p : Prop} {_ : Decidable p} {m m' k k' : Scan α} (h : p → Shifts ahead m m')
    (h' : ¬p → Shifts ahead k k') :
    Shifts ahead (if p then m else k) (if p then m' else k') := by
  by_cases hp : p
  · rw [if_pos hp, if_pos hp]
    exact h hp
  · rw [if_neg hp, if_neg hp]
    exact h' hp

theorem refuseAt (position : Nat) (cause : Malformation) :
    Shifts ahead (refuseAt (position + Text.byteSize ahead) cause : Scan α)
      (refuseAt position cause) :=
  fun _ => rfl

theorem refuse (cause : Malformation) : Shifts ahead (refuse cause : Scan α) (refuse cause) :=
  .get fun c => by
    rw [c.position_behind]
    exact refuseAt c.position cause

theorem blanks (hline : Text.isLineBlankBefore ahead) : Shifts ahead blanks blanks :=
  fun c => Blanks.pass_behind hline .blank false c.before c.rest

theorem token (inKey : Bool) : Shifts ahead (token inKey) (token inKey) := by
  intro c
  show EStateM.Result.ok _ ((c.behind ahead).pass _ _) = .ok _ ((c.pass _ _).behind ahead)
  rw [c.pass_behind ahead]
  rfl

theorem quoted (quotation : Char) : Shifts ahead (quoted quotation) (quoted quotation) := by
  intro c
  rw [Scan.quoted, Scan.quoted, c.position_behind, c.next_behind]
  exact Literal.body_behind ahead quotation c.position c.next.before c.next.rest []

theorem raw (quotation : Char) : Shifts ahead (raw quotation) (raw quotation) := by
  intro c
  simp only [Scan.raw, c.next_behind, c.next.next_behind, Cursor.rest_behind]
  cases Literal.rawBody? quotation c.next.next.rest with
  | none => simp [behind, ScanFault.later]
  | some body =>
    exact congrArg (EStateM.Result.ok body.1) (c.next.next.pass_behind ahead _ _)

theorem separatorBefore (start : Cursor) (broken : Bool) (x : Char) :
    Shifts ahead (separatorBefore (start.behind ahead) broken x)
      (separatorBefore start broken x) := by
  refine .ite (fun _ => .pure _) fun _ => .get fun c => ?_
  -- Two places are as far from each other behind the text ahead.
  have hiff : (c.behind ahead).position = (start.behind ahead).position ↔
      c.position = start.position := by
    rw [c.position_behind, start.position_behind, Nat.add_right_cancel_iff]
  simp only [hiff]
  exact .ite (fun _ => .refuse _) fun _ => .refuse _

theorem separator (hline : Text.isLineBlankBefore ahead) (closing : Option Char)
    (refusal : Option ColonRefusal) :
    Shifts ahead (separator closing refusal) (separator closing refusal) := by
  have mark (sep : Separator) : Shifts ahead (do Scan.next; let _ ← Scan.blanks; return sep)
      (do Scan.next; let _ ← Scan.blanks; return sep) :=
    .bind .next fun _ => .bind (.blanks hline) fun _ => .pure sep
  refine .get fun start => .bind (.blanks hline) fun broken => .bind .peek? fun x => ?_
  split
  · exact .pure _
  · exact .refuse _
  · exact .refuse _
  · exact mark .colon
  · exact mark .comma
  · exact .ite (fun _ => .pure _) fun _ => .ite (fun _ => .refuse _) fun _ =>
      .ite (fun _ => .refuse _) fun _ => .separatorBefore start broken _

end Scan.Shifts
end TextualData
