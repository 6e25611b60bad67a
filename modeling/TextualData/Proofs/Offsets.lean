import TextualData.Proofs.Spans
import TextualData.Proofs.Windows

/-!
# Reading by byte offsets

A text can be read by byte offsets, if each look at a character and each slice is checked: the
offset has to be inside of the text, and between two characters. `OffsetScan` is a scan that knows
of its place nothing but the byte offset; where a check fails, it fails without a fault.
`Offsets.Agrees` compares it with a scan that moves a cursor.
-/

namespace TextualData

/-- The characters between two byte offsets, if these are between characters and in their order. -/
def Text.slice? (l : List Char) (start stop : Nat) : Option (List Char) :=
  let (before, rest) := splitAtByte start l
  let part := (splitAtByte (stop - start) rest).1
  if byteSize before = start ∧ start + byteSize part = stop then some part.reverse else none

theorem Text.slice?_eq_some {l m : List Char} {start stop : Nat} :
    slice? l start stop = some m ↔
      ∃ k n, l = k ++ m ++ n ∧ byteSize k = start ∧ byteSize (k ++ m) = stop := by
  constructor
  · intro h
    have hstart := splitAtByte_append start l
    have hstop := splitAtByte_append (stop - start) (splitAtByte start l).2
    simp only [slice?] at h
    split at h
    · next hsizes =>
      obtain rfl := Option.some.inj h
      refine ⟨(splitAtByte start l).1.reverse,
        (splitAtByte (stop - start) (splitAtByte start l).2).2, ?_, ?_, ?_⟩
      · rw [List.append_assoc, hstop, hstart]
      · simp [hsizes.1]
      · simp [hsizes]
    · simp at h
  · rintro ⟨k, n, rfl, rfl, rfl⟩
    have hsize : byteSize (k ++ m) - byteSize k = byteSize m := by simp
    simp only [slice?, List.append_assoc, splitAtByte_byteSize, hsize]
    simp

/-- A text in which a window ends. -/
structure View where
  text : List Char
  stop : Nat

/-- The place is in the text, with its window up to the end of the view. -/
def View.IsAt (view : View) (c : Cursor) : Prop :=
  ∃ after, view.text = c.before.reverse ++ c.rest ++ after ∧
    view.stop = c.position + Text.byteSize c.rest

/-- A scan that knows its place by the byte offset. A failure without a fault means that it has
read where it must not. -/
abbrev OffsetScan := EStateM (Option ScanFault) Nat

namespace Offsets

variable {α β : Type}

/-- Takes the characters between two byte offsets. -/
def slice (view : View) (start stop : Nat) : OffsetScan (List Char) :=
  match Text.slice? view.text start stop with
  | some l => pure l
  | none => throw none

/-- The character at a byte offset, if the window does not end before it. -/
def look (view : View) (offset : Nat) : OffsetScan (Option Char) :=
  if offset < view.stop then do return (← slice view offset view.stop).head? else pure none

/-- The character at the offset, if the window does not end there. -/
def peek (view : View) : OffsetScan (Option Char) := do
  look view (← get)

/-- Moves on by so many bytes. -/
def advance (bytes : Nat) : OffsetScan Unit :=
  modify (· + bytes)

/-- Fails with the blame on a byte offset. -/
def blame (position : Nat) (cause : Malformation) : OffsetScan α :=
  throw (some ⟨cause, position⟩)

/-- Fails with the blame on the offset. -/
def refuse (cause : Malformation) : OffsetScan α := do
  blame (← get) cause

/-- The outcome of a scan, with its place told by the byte offset. -/
def located : EStateM.Result ScanFault Cursor α → EStateM.Result (Option ScanFault) Nat α
  | .ok a c => .ok a c.position
  | .error fault c => .error (some fault) c.position

/-- From the place, a scan by offsets does what a scan does. -/
def Agrees (k : OffsetScan α) (m : Scan α) (c : Cursor) : Prop :=
  k c.position = located (m c)

end Offsets

variable {view : View} {c d : Cursor}

theorem View.IsAt.leads (h : view.IsAt c) (hd : c.Leads d) : view.IsAt d := by
  obtain ⟨after, htext, hstop⟩ := h
  obtain ⟨l, hrest, hbefore⟩ := hd
  refine ⟨after, by simp [htext, hrest, hbefore], ?_⟩
  simp [hstop, hrest, hbefore, Cursor.position]
  omega

namespace Offsets

variable {α β : Type}

/-- What stands between two places is the slice between their offsets. -/
theorem slice_of_spans {l : List Char} (h : view.IsAt c) (hl : c.Spans l d) :
    slice view c.position d.position = pure l := by
  obtain ⟨after, htext, -⟩ := h
  obtain ⟨hrest, hbefore⟩ := hl
  have hslice : Text.slice? view.text c.position d.position = some l := by
    refine Text.slice?_eq_some.2 ⟨c.before.reverse, d.rest ++ after, ?_, ?_, ?_⟩
    · simp [htext, hrest]
    · simp [Cursor.position]
    · simp [Cursor.position, hbefore, Nat.add_comm]
  rw [slice, hslice]

theorem slice_rest (h : view.IsAt c) : slice view c.position view.stop = pure c.rest := by
  have hend : view.stop = Cursor.position ⟨c.rest.reverse ++ c.before, []⟩ := by
    obtain ⟨-, -, hstop⟩ := h
    simp [hstop, Cursor.position, Nat.add_comm]
  rw [hend]
  exact slice_of_spans h ⟨(List.append_nil _).symm, rfl⟩

theorem slice_before (h : view.IsAt c) : slice view 0 c.position = pure c.before.reverse := by
  obtain ⟨after, htext, -⟩ := h
  have hslice : Text.slice? view.text 0 c.position = some c.before.reverse :=
    Text.slice?_eq_some.2 ⟨[], c.rest ++ after, by simp [htext], rfl, by simp [Cursor.position]⟩
  rw [slice, hslice]

/-- The character at a place is seen at its offset. -/
theorem look_eq (h : view.IsAt c) : look view c.position = pure c.peek? := by
  unfold look
  split
  · rw [slice_rest h]
    rfl
  · next hlt =>
    obtain ⟨-, -, hstop⟩ := h
    cases hrest : c.rest with
    | nil => simp [Cursor.peek?, hrest]
    | cons x l =>
      have hx := x.utf8Size_pos
      simp [hrest] at hstop
      omega

theorem peek_run (h : view.IsAt c) : peek view c.position = .ok c.peek? c.position := by
  rw [peek, get_bind_run, look_eq h, pure_eq_ok]
  exact ⟨rfl, rfl⟩

/-- The offset behind a character is that of the next place. -/
theorem position_next {x : Char} (h : c.peek? = some x) :
    c.next.position = c.position + x.utf8Size := by
  obtain ⟨rest, hrest⟩ := Cursor.rest_of_peek? h
  simp [Cursor.next_of_rest hrest, Cursor.position, Nat.add_comm]

/-- The offset of a character of one byte, from behind it. -/
theorem position_next_sub {x : Char} (h : c.peek? = some x) (hx : x.utf8Size = 1) :
    c.next.position - 1 = c.position := by
  rw [position_next h, hx, Nat.add_sub_cancel]

namespace Agrees

theorem bind {k : OffsetScan α} {m : Scan α} {g : α → OffsetScan β} {f : α → Scan β}
    (h : Agrees k m c) (hf : ∀ a d, m c = .ok a d → Agrees (g a) (f a) d) :
    Agrees (k >>= g) (m >>= f) c := by
  unfold Agrees at h
  cases hm : m c with
  | ok a d =>
    rw [hm] at h
    rw [Agrees, bind_of_eq_ok h, bind_of_eq_ok hm]
    exact hf a d hm
  | error fault d =>
    rw [hm] at h
    rw [Agrees, bind_of_eq_error h, bind_of_eq_error hm]
    rfl

theorem pure {a : α} : Agrees (Pure.pure a) (Pure.pure a) c := rfl

theorem get {g : Nat → OffsetScan α} {f : Cursor → Scan α} (h : Agrees (g c.position) (f c) c) :
    Agrees (MonadState.get >>= g) (MonadState.get >>= f) c :=
  h

/-- The scan asks for its place. -/
theorem get_right {k : OffsetScan α} {f : Cursor → Scan α} (h : Agrees k (f c) c) :
    Agrees k (MonadState.get >>= f) c :=
  h

/-- The scan by offsets asks for its offset. -/
theorem get_left {k : Nat → OffsetScan α} {m : Scan α} (h : Agrees (k c.position) m c) :
    Agrees (MonadState.get >>= k) m c :=
  h

/-- A look or a slice whose result is known. -/
theorem pure_left {a : α} {k : OffsetScan α} {g : α → OffsetScan β} {m : Scan β}
    (hk : k = Pure.pure a) (h : Agrees (g a) m c) : Agrees (k >>= g) m c := by
  rwa [hk, pure_bind]

/-- A look at the character at the place. -/
theorem peek (h : view.IsAt c) {g : Option Char → OffsetScan α} {f : Option Char → Scan α}
    (hf : Agrees (g c.peek?) (f c.peek?) c) :
    Agrees (Offsets.peek view >>= g) (Scan.peek? >>= f) c := by
  rw [Agrees, bind_of_eq_ok (peek_run h)]
  exact hf

theorem ite {p : Prop} {_ : Decidable p} {k k' : OffsetScan α} {m m' : Scan α}
    (h : p → Agrees k m c) (h' : ¬p → Agrees k' m' c) :
    Agrees (if p then k else k') (if p then m else m') c := by
  by_cases hp : p
  · rw [if_pos hp, if_pos hp]
    exact h hp
  · rw [if_neg hp, if_neg hp]
    exact h' hp

/-- Both blame the place. -/
theorem refuse {cause : Malformation} :
    Agrees (blame c.position cause : OffsetScan α) (Scan.refuse cause) c := rfl

/-- Both blame the place under the same condition. -/
theorem refuse_or {p q : Prop} {_ : Decidable p} {_ : Decidable q} {position : Nat}
    {cause : Malformation} {k : OffsetScan β} {m : Scan β} (hiff : p ↔ q)
    (hposition : p → position = c.position) (h : ¬p → Agrees k m c) :
    Agrees (if p then (blame position cause : OffsetScan α) >>= fun _ => k else k)
      (if q then (Scan.refuse cause : Scan α) >>= fun _ => m else m) c := by
  by_cases hp : p
  · rw [if_pos hp, if_pos (hiff.1 hp), hposition hp]
    exact .bind .refuse fun _ _ hd => absurd hd Scan.refuse_ne_ok
  · rw [if_neg hp, if_neg (mt hiff.2 hp)]
    exact h hp

end Agrees

end Offsets
end TextualData
