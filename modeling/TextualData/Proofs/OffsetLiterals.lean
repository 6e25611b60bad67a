import TextualData.Proofs.Literals
import TextualData.Proofs.OffsetBlanks
import TextualData.Proofs.Tokens

/-!
# Tokens and literals by byte offsets
-/

namespace TextualData
namespace Offsets

variable (view : View)

/-- Passes over the characters of a token that begins at the offset `first`. The number bounds the
loop. -/
def tokenLoop (inKey : Bool) (first : Nat) : Nat → OffsetScan Unit
  | 0 => throw none
  | n + 1 => do
    let p ← get
    match ← look view p with
    | none => return
    | some x =>
      if Token.isTokenChar x || x == '+' && p == first || x == ':' && !inKey then
        advance x.utf8Size
        tokenLoop inKey first n
      else return

/-- Moves on over a token, which may be empty. -/
def passToken (inKey : Bool) : OffsetScan Unit := do
  let first ← get
  tokenLoop view inKey first (view.stop - first + 1)

/-- Moves on over a token, which may be empty, and gives the token. -/
def token (inKey : Bool) : OffsetScan (List Char) := do
  let first ← get
  passToken view inKey
  slice view first (← get)

/-- Adds the hexadecimal digits at the offset to a number, as many as are asked for at most. -/
def hexLoop : Nat → (code : Nat) → OffsetScan Nat
  | 0, code => return code
  | n + 1, code => do
    match (← peek view).bind Text.hexValue? with
    | some digit =>
      advance 1
      hexLoop n (16 * code + digit)
    | none => return code

/-- The character that a numeric escape stands for, which begins at the offset. -/
def hexEscape : OffsetScan Char := do
  let start ← get
  advance 2
  let code ← hexLoop view 4 0
  match Text.scalar? code with
  | some u => if start + 2 < (← get) then return u else blame start .invalidNumericEscape
  | none => blame start .invalidNumericEscape

/-- The end of the blanks from an offset on, up to a second line break, and whether there was a
first one. The first number bounds the loop. -/
def continuationLoop : Nat → (broken : Bool) → (i : Nat) → OffsetScan (Nat × Bool)
  | 0, _, _ => throw none
  | n + 1, broken, i => do
    match ← look view i with
    | none => return (i, broken)
    | some x =>
      if !Text.isBlank x || Text.isLineBreak x && broken then return (i, broken)
      else if x = '\r' then
        if (← look view (i + 1)) = some '\n' then continuationLoop n true (i + 2)
        else continuationLoop n true (i + 1)
      else continuationLoop n (broken || Text.isLineBreak x) (i + x.utf8Size)

/-- The end of an escaped line break, whose blanks begin behind the offset. -/
def lineBreakEscape : OffsetScan Nat := do
  let p ← get
  let (i, found) ← continuationLoop view (view.stop - p) false (p + 1)
  if found then return i else blame p .blankEscape

/-- The text that an escape stands for, which begins at the offset and has the character behind its
backslash. -/
def escape (e : Char) : OffsetScan (List Char) := do
  match Literal.named? e with
  | some u =>
    advance 2
    return [u]
  | none =>
    if e = 'x' ∨ e = 'u' then return [← hexEscape view]
    else if Text.isBlank e then
      set (← lineBreakEscape view)
      return []
    else blame (← get) (.unknownEscape e)

/-- Reads a quoted literal from within. What stands before the offset `first` has been read; the
number bounds the loop. -/
def quotedLoop (quotation : Char) (start : Nat) : Nat → (read : List Char) → (first : Nat) →
    OffsetScan (List Char)
  | 0, _, _ => throw none
  | n + 1, read, first => do
    let p ← get
    match ← look view p with
    | none => blame start (.unclosedString quotation)
    | some x =>
      if x = quotation then
        let part ← slice view first p
        advance 1
        return read ++ part
      else if x = Text.backslash then
        let part ← slice view first p
        match ← look view (p + 1) with
        | none => blame start (.unclosedString quotation)
        | some e =>
          let t ← escape view e
          quotedLoop quotation start n (read ++ part ++ t) (← get)
      else
        advance x.utf8Size
        quotedLoop quotation start n read first

/-- Reads the quoted literal at the offset. -/
def quoted (quotation : Char) : OffsetScan (List Char) := do
  let start ← get
  advance 1
  quotedLoop view quotation start (view.stop - start) [] (start + 1)

/-- The end of the characters of the raw literal that begins at an offset. -/
def rawEnd (quotation : Char) (start : Nat) : OffsetScan Nat := do
  match Text.find? (fun l => l.head? = some quotation) (← slice view (start + 2) view.stop) with
  | some i => return start + 2 + i
  | none => blame start (.unclosedString quotation)

/-- Reads the raw literal at the offset. -/
def raw (quotation : Char) : OffsetScan (List Char) := do
  let start ← get
  let stop ← rawEnd view quotation start
  set (stop + 1)
  slice view (start + 2) stop

/-- Moves on over the raw literal at the offset. -/
def passRaw (quotation : Char) : OffsetScan Unit := do
  let start ← get
  let stop ← rawEnd view quotation start
  set (stop + 1)

/-- The quotation character of the raw literal that begins at the offset. -/
def rawQuotation? (p : Nat) : OffsetScan (Option Char) := do
  if (← look view p) = some 'r' then
    match ← look view (p + 1) with
    | some x => return if Literal.isQuotation x then some x else none
    | none => return none
  else return none

variable {view} {c : Cursor}

/-- Behind its first character, a token goes on as long as its characters continue it. -/
theorem tokenLoop_run {inKey : Bool} {first : Nat} (n : Nat) (c : Cursor) (h : view.IsAt c)
    (hfirst : first < c.position) (hn : Text.byteSize c.rest < n) :
    tokenLoop view inKey first n c.position =
      .ok () (c.position + Text.byteSize (c.rest.takeWhile (Token.continues inKey))) := by
  induction n generalizing c with
  | zero => omega
  | succ n ih =>
    rw [tokenLoop, get_bind_run, look_eq h, pure_bind]
    obtain ⟨before, rest⟩ := c
    cases rest with
    | nil => rfl
    | cons x rest =>
      have hsign : (x == '+' && Cursor.position ⟨before, x :: rest⟩ == first) = false := by
        rw [beq_eq_false_iff_ne.2 (Nat.ne_of_gt hfirst), Bool.and_false]
      have hcontinues : (Token.isTokenChar x || false || x == ':' && !inKey) =
          Token.continues inKey x := by
        rw [Bool.or_false]
        rfl
      simp only [Cursor.peek?, List.head?_cons]
      rw [hsign, hcontinues]
      by_cases hx : Token.continues inKey x
      · have hsize : Text.byteSize (x :: rest) < n + 1 := hn
        have hpos := x.utf8Size_pos
        rw [Text.byteSize_cons] at hsize
        have hposition : Cursor.position ⟨before, x :: rest⟩ + x.utf8Size =
            Cursor.position ⟨x :: before, rest⟩ := (position_next rfl).symm
        have hnext := ih ⟨x :: before, rest⟩ (h.leads (Cursor.leads_cons x before rest))
          (by omega) (show Text.byteSize rest < n by omega)
        rw [if_pos hx, bind_of_eq_ok (advance_eq _ _), List.takeWhile_cons_of_pos hx, hposition,
          hnext, Text.byteSize_cons, ← hposition, Nat.add_assoc]
      · rw [if_neg hx, List.takeWhile_cons_of_neg hx]
        rfl

/-- The characters of a token are passed. -/
theorem passToken_run (h : view.IsAt c) (inKey : Bool) :
    passToken view inKey c.position =
      .ok () (c.position + Text.byteSize (Token.split inKey c.rest).1) := by
  rw [passToken, get_bind_run, tokenLoop,
    get_bind_run, look_eq h, pure_bind]
  obtain ⟨before, rest⟩ := c
  cases rest with
  | nil => rfl
  | cons x rest =>
    have hstarts : (Token.isTokenChar x || x == '+' && Cursor.position ⟨before, x :: rest⟩ ==
        Cursor.position ⟨before, x :: rest⟩ || x == ':' && !inKey) = Token.starts inKey x := by
      rw [beq_self_eq_true, Bool.and_true, Token.starts, Token.continues, Bool.or_right_comm,
        Bool.or_comm]
    simp only [Cursor.peek?, List.head?_cons]
    rw [hstarts, Token.split_cons]
    by_cases hx : Token.starts inKey x
    · have hpos := x.utf8Size_pos
      have hposition : Cursor.position ⟨before, x :: rest⟩ + x.utf8Size =
          Cursor.position ⟨x :: before, rest⟩ := (position_next rfl).symm
      have hfuel : Text.byteSize rest < view.stop - Cursor.position ⟨before, x :: rest⟩ := by
        obtain ⟨-, -, hstop⟩ := h
        simp at hstop
        omega
      rw [if_pos hx, if_pos hx, bind_of_eq_ok (advance_eq _ _), hposition,
        tokenLoop_run _ _ (h.leads (Cursor.leads_cons x before rest)) (by omega) hfuel,
        Text.byteSize_cons, ← hposition, Nat.add_assoc]
    · rw [if_neg hx, if_neg hx]
      rfl

theorem passToken_agrees {α : Type} {inKey : Bool} (h : view.IsAt c) {k : Unit → OffsetScan α}
    {f : List Char → Scan α} (hf : ∀ l rest, Token.split inKey c.rest = (l, rest) →
      Agrees (k ()) (f l) (c.pass l rest)) :
    Agrees (passToken view inKey >>= k) (Scan.token inKey >>= f) c := by
  obtain ⟨l, rest, hsplit⟩ : ∃ l rest, Token.split inKey c.rest = (l, rest) := ⟨_, _, rfl⟩
  have hrun := passToken_run h inKey
  rw [hsplit, ← Cursor.position_pass c l rest] at hrun
  rw [Agrees, bind_of_eq_ok hrun, bind_of_eq_ok (Scan.token_eq_ok.2 ⟨rest, hsplit, rfl⟩)]
  exact hf l rest hsplit

theorem token_agrees (h : view.IsAt c) (inKey : Bool) :
    Agrees (token view inKey) (Scan.token inKey) c := by
  have hspan : c.Spans (Token.split inKey c.rest).1
      (c.pass (Token.split inKey c.rest).1 (Token.split inKey c.rest).2) :=
    Cursor.spans_pass (Token.split_append inKey c.rest).symm
  have hend := Cursor.position_pass c (Token.split inKey c.rest).1 (Token.split inKey c.rest).2
  rw [Agrees, token, get_bind_run, bind_of_eq_ok (passToken_run h inKey),
    get_bind_run, ← hend, slice_of_spans h hspan]
  rfl

end Offsets

/-- The body of a raw literal is what stands before the first quotation. -/
theorem Literal.rawBody?_eq_splitWhere? (quotation : Char) (l : List Char) :
    rawBody? quotation l = (Text.splitWhere? (fun l => l.head? = some quotation) l).map
      fun (m, n) => (m, n.tail) := by
  induction l with
  | nil => rfl
  | cons x l ih =>
    rw [rawBody?_cons]
    by_cases hx : x = quotation
    · simp [hx, Text.splitWhere?]
    · simp [hx, Text.splitWhere?, ih, Function.comp_def]

namespace Offsets

variable {view : View} {c : Cursor}

theorem utf8Size_of_isQuotation {x : Char} (h : Literal.isQuotation x) : x.utf8Size = 1 := by
  rcases Literal.isQuotation_iff.1 h with rfl | rfl <;> rfl

section
variable {quotation : Char} (h : view.IsAt c)
  (opens : Literal.rawQuotation? c.rest = some quotation)
include opens

theorem position_rawBody : c.next.next.position = c.position + 2 := by
  obtain ⟨before, rest⟩ := c
  obtain ⟨rest, rfl, isQuotation⟩ := Literal.rawQuotation?_eq_some.1 opens
  simp [Cursor.next, Cursor.position, utf8Size_of_isQuotation isQuotation,
    show 'r'.utf8Size = 1 from rfl]
  omega

theorem position_rawEnd {d : Cursor} (hpeek : d.peek? = some quotation) :
    d.position + 1 = d.next.position := by
  obtain ⟨_, _, isQuotation⟩ := Literal.rawQuotation?_eq_some.1 opens
  rw [position_next hpeek, utf8Size_of_isQuotation isQuotation]

include h

/-- The characters of a raw literal end at the first quotation. -/
theorem rawEnd_spec :
    (∃ l d, rawEnd view quotation c.position c.position = .ok d.position c.position ∧
      c.next.next.Spans l d ∧ d.peek? = some quotation ∧
        Scan.raw quotation c = .ok l d.next) ∨
    ∃ fault, rawEnd view quotation c.position c.position = .error (some fault) c.position ∧
      Scan.raw quotation c = .error fault c := by
  have hinner := h.leads ((Cursor.Leads.next c).trans (Cursor.Leads.next _))
  rw [rawEnd, ← position_rawBody opens, slice_rest hinner, pure_bind]
  cases hfind : Text.splitWhere? (fun l => l.head? = some quotation) c.next.next.rest with
  | none =>
    refine .inr ⟨⟨.unclosedString quotation, c.position⟩, ?_, ?_⟩
    · rw [Text.find?, hfind]
      rfl
    · simp only [Scan.raw, Literal.rawBody?_eq_splitWhere?, hfind, Option.map_none]
  | some parts =>
    obtain ⟨l, rest⟩ := parts
    obtain ⟨hrest, hquotation⟩ := Text.append_of_splitWhere? hfind
    obtain ⟨rest, rfl⟩ := List.head?_eq_some_iff.1 (of_decide_eq_true hquotation)
    refine .inl ⟨l, c.next.next.pass l (quotation :: rest), ?_, Cursor.spans_pass hrest, rfl, ?_⟩
    · rw [Text.find?, hfind, Cursor.position_pass]
      rfl
    · simp only [Scan.raw, Literal.rawBody?_eq_splitWhere?, hfind, Option.map_some]
      simp [Cursor.pass, Cursor.next]

theorem raw_agrees : Agrees (raw view quotation) (Scan.raw quotation) c := by
  have hinner := h.leads ((Cursor.Leads.next c).trans (Cursor.Leads.next _))
  rw [Agrees, raw, get_bind_run]
  obtain ⟨l, d, hend, hspan, hpeek, hraw⟩ | ⟨fault, hend, hraw⟩ := rawEnd_spec h opens
  · rw [bind_of_eq_ok hend, bind_of_eq_ok (set_eq _ _), position_rawEnd opens hpeek,
      ← position_rawBody opens, slice_of_spans hinner hspan, hraw]
    rfl
  · rw [bind_of_eq_error hend, hraw]
    rfl

theorem passRaw_agrees :
    Agrees (passRaw view quotation) (do let _ ← Scan.raw quotation) c := by
  rw [Agrees, passRaw, get_bind_run]
  obtain ⟨l, d, hend, -, hpeek, hraw⟩ | ⟨fault, hend, hraw⟩ := rawEnd_spec h opens
  · rw [bind_of_eq_ok hend, bind_of_eq_ok hraw, position_rawEnd opens hpeek]
    rfl
  · rw [bind_of_eq_error hend, bind_of_eq_error hraw]
    rfl

end

theorem utf8Size_of_hexValue? {x : Char} {digit : Nat} (h : Text.hexValue? x = some digit) :
    x.utf8Size = 1 := by
  rw [Char.utf8Size_eq_one_iff]
  simp only [Text.hexValue?] at h
  split at h
  · next hx => exact UInt32.le_trans hx.2 (by decide)
  · split at h
    · next hx => exact UInt32.le_trans hx.2 (by decide)
    · split at h
      · next hx => exact UInt32.le_trans hx.2 (by decide)
      · simp at h

theorem utf8Size_of_named? {x u : Char} (h : Literal.named? x = some u) : x.utf8Size = 1 := by
  have hmem : x ∈ [Text.quotationMark, Text.apostrophe, Text.backslash, '{', 'n', 'r', 't', 'f',
      'b', 'g', 'l', 'a'] := by
    refine Decidable.byContradiction fun hx => ?_
    simp only [List.mem_cons, List.not_mem_nil, or_false, not_or] at hx
    simp [Literal.named?, hx] at h
  simp only [List.mem_cons, List.not_mem_nil, or_false] at hmem
  rcases hmem with rfl | rfl | rfl | rfl | rfl | rfl | rfl | rfl | rfl | rfl | rfl | rfl <;> rfl

/-- The hexadecimal digits at the start of a text, so many at most. -/
def hexDigits (n : Nat) (l : List Char) : List Nat :=
  ((l.take n).takeWhile fun x => (Text.hexValue? x).isSome).filterMap Text.hexValue?

theorem hexLoop_run (n code : Nat) (c : Cursor) (h : view.IsAt c) :
    hexLoop view n code c.position =
      .ok ((hexDigits n c.rest).foldl (fun n d => 16 * n + d) code)
        (c.position + (hexDigits n c.rest).length) := by
  induction n generalizing code c with
  | zero => rfl
  | succ n ih =>
    rw [hexLoop, bind_of_eq_ok (peek_run h)]
    obtain ⟨before, rest⟩ := c
    cases rest with
    | nil => rfl
    | cons x rest =>
      simp only [Cursor.peek?, List.head?_cons, Option.bind_some]
      cases hx : Text.hexValue? x with
      | none =>
        have hdigits : hexDigits (n + 1) (x :: rest) = [] := by
          simp [hexDigits, hx]
        rw [hdigits]
        rfl
      | some digit =>
        have hdigits : hexDigits (n + 1) (x :: rest) = digit :: hexDigits n rest := by
          simp [hexDigits, hx]
        have hposition : Cursor.position ⟨before, x :: rest⟩ + 1 =
            Cursor.position ⟨x :: before, rest⟩ := by
          rw [← utf8Size_of_hexValue? hx]
          exact (position_next rfl).symm
        show (advance 1 >>= fun _ => hexLoop view n (16 * code + digit)) _ = _
        rw [hdigits, bind_of_eq_ok (advance_eq _ _), hposition,
          ih _ ⟨x :: before, rest⟩ (h.leads (Cursor.leads_cons x before rest)), ← hposition,
          List.foldl_cons, List.length_cons, Nat.add_assoc, Nat.add_comm 1]

/-- The digits are as many as the characters and the bytes that they take up. -/
theorem byteSize_take_hexDigits (n : Nat) (l : List Char) :
    Text.byteSize (l.take (hexDigits n l).length) = (hexDigits n l).length := by
  induction n generalizing l with
  | zero => rfl
  | succ n ih =>
    cases l with
    | nil => rfl
    | cons x l =>
      cases hx : Text.hexValue? x with
      | none => simp [hexDigits, hx]
      | some digit =>
        have hdigits : hexDigits (n + 1) (x :: l) = digit :: hexDigits n l := by
          simp [hexDigits, hx]
        rw [hdigits, List.length_cons, List.take_succ_cons, Text.byteSize_cons, ih,
          utf8Size_of_hexValue? hx, Nat.add_comm]

variable {view : View} {c : Cursor}

/-- The outcome of an escape, with its end told by the byte offset. -/
def escaped (before : List Char) (e : Char) (m : List Char) :
    Literal.Escape → EStateM.Result (Option ScanFault) Nat (List Char)
  | .text t length =>
    .ok t (Text.byteSize before + Text.byteSize (Text.backslash :: (e :: m).take length))
  | .malformed cause passed =>
    .error (some ⟨cause, Text.byteSize before⟩)
      (Text.byteSize before + Text.byteSize ((Text.backslash :: e :: m).take passed))

section
variable {before m : List Char} {e : Char}
  (h : view.IsAt ⟨before, Text.backslash :: e :: m⟩)
include h

theorem hexEscape_run (he : e = 'x' ∨ e = 'u') (hnamed : Literal.named? e = none) :
    (do return [← hexEscape view]) (Text.byteSize before) =
      escaped before e m (Literal.escape e m) := by
  have hsize : e.utf8Size = 1 := by rcases he with rfl | rfl <;> rfl
  have hplace : view.IsAt ⟨e :: Text.backslash :: before, m⟩ :=
    h.leads ⟨[Text.backslash, e], rfl, rfl⟩
  have hposition : Text.byteSize before + 2 =
      Cursor.position ⟨e :: Text.backslash :: before, m⟩ := by
    simp [Cursor.position, hsize, show Text.backslash.utf8Size = 1 from rfl]
    omega
  have hloop : hexLoop view 4 0 (Text.byteSize before + 2) =
      .ok (Literal.hexNumber (Literal.hexRun m))
        (Text.byteSize before + 2 + (Literal.hexRun m).length) := by
    rw [hposition]
    exact hexLoop_run 4 0 _ hplace
  have htake : Text.byteSize (m.take (Literal.hexRun m).length) = (Literal.hexRun m).length :=
    byteSize_take_hexDigits 4 m
  have hmalformed : Literal.escape e m =
      .malformed .invalidNumericEscape ((Literal.hexRun m).length + 2) →
        EStateM.Result.error (some ⟨.invalidNumericEscape, Text.byteSize before⟩)
          (Text.byteSize before + 2 + (Literal.hexRun m).length) =
            escaped before e m (Literal.escape e m) := by
    intro hescape
    rw [hescape]
    simp [escaped, htake, hsize, show Text.backslash.utf8Size = 1 from rfl]
    omega
  rw [hexEscape, bind_assoc, get_bind_run, bind_assoc,
    bind_of_eq_ok (advance_eq _ _), bind_assoc, bind_of_eq_ok hloop]
  cases hscalar : Text.scalar? (Literal.hexNumber (Literal.hexRun m)) with
  | none => exact hmalformed (Literal.escape_of_no_digits he hnamed (.inr hscalar))
  | some u =>
    have hget : (get : OffsetScan Nat) (Text.byteSize before + 2 + (Literal.hexRun m).length) =
        .ok (Text.byteSize before + 2 + (Literal.hexRun m).length)
          (Text.byteSize before + 2 + (Literal.hexRun m).length) := rfl
    show (get >>= _ >>= _ : OffsetScan (List Char)) _ = _
    rw [bind_assoc, bind_of_eq_ok hget]
    by_cases hdigits : Literal.hexRun m = []
    · rw [if_neg (by simp [hdigits])]
      exact hmalformed (Literal.escape_of_no_digits he hnamed (.inl hdigits))
    · rw [if_pos (by simpa using List.length_pos_iff.2 hdigits), pure_bind,
        Literal.escape_of_digits he hnamed hdigits hscalar]
      simp [escaped, htake, hsize, show Text.backslash.utf8Size = 1 from rfl, pure_eq_ok]
      omega

end

theorem continuationLoop_run (n : Nat) (broken : Bool) (c : Cursor) (h : view.IsAt c)
    (hn : Text.byteSize c.rest < n) (q : Nat) :
    continuationLoop view n broken c.position q =
      .ok (c.position + Text.byteSize (c.rest.take (Literal.continuation broken c.rest).1),
        (Literal.continuation broken c.rest).2) q := by
  induction n generalizing broken c with
  | zero => omega
  | succ n ih =>
    rw [continuationLoop, look_eq h, pure_bind]
    obtain ⟨before, rest⟩ := c
    cases rest with
    | nil => rfl
    | cons x rest =>
      have hsize : x.utf8Size + Text.byteSize rest < n + 1 := by simpa using hn
      have hpos := x.utf8Size_pos
      have hplace := h.leads (Cursor.leads_cons x before rest)
      have hposition : Cursor.position ⟨before, x :: rest⟩ + x.utf8Size =
          Cursor.position ⟨x :: before, rest⟩ := (position_next rfl).symm
      simp only [Cursor.peek?, List.head?_cons]
      by_cases hstop : (!Text.isBlank x || Text.isLineBreak x && broken) = true
      · rw [if_pos hstop, Literal.continuation_of_stop hstop]
        rfl
      rw [if_neg hstop]
      by_cases hreturn : x ≠ '\r'
      · rw [if_neg hreturn, hposition, ih _ _ hplace (by show Text.byteSize rest < n; omega),
          Literal.continuation_of_goesOn hstop (fun h => absurd h hreturn), ← hposition]
        simp [Nat.add_assoc]
      -- A carriage return and a line feed are one line break.
      obtain rfl := Decidable.not_not.1 hreturn
      obtain rfl : broken = false := by
        cases broken with
        | true => exact absurd (by decide) hstop
        | false => rfl
      have hone : Cursor.position ⟨before, '\r' :: rest⟩ + 1 =
          Cursor.position ⟨'\r' :: before, rest⟩ := hposition
      rw [if_pos rfl, hone, look_eq hplace, pure_bind]
      by_cases hfeed : Cursor.peek? ⟨'\r' :: before, rest⟩ = some '\n'
      · obtain ⟨rest, rfl⟩ := Cursor.rest_of_peek? hfeed
        have htwo : Cursor.position ⟨before, '\r' :: '\n' :: rest⟩ + 2 =
            Cursor.position ⟨'\n' :: '\r' :: before, rest⟩ := by
          simp [Cursor.position, show '\n'.utf8Size = 1 from rfl,
            show '\r'.utf8Size = 1 from rfl]
          omega
        have hless : Text.byteSize rest < n := by
          simp at hsize
          omega
        rw [if_pos hfeed, htwo, ih _ _ (hplace.leads (Cursor.leads_cons _ _ _)) hless,
          Literal.continuation_pair, ← htwo]
        simp [Nat.add_assoc, show '\n'.utf8Size = 1 from rfl, show '\r'.utf8Size = 1 from rfl]
        omega
      · rw [if_neg hfeed, ih _ _ hplace (by show Text.byteSize rest < n; omega),
          Literal.continuation_of_goesOn hstop (fun _ => hfeed), ← hposition,
          show (false || Text.isLineBreak '\r') = true by decide]
        simp [Nat.add_assoc]

variable {before m : List Char} {e : Char}

theorem lineBreakEscape_run (h : view.IsAt ⟨before, Text.backslash :: e :: m⟩)
    (hnamed : Literal.named? e = none) (hhex : ¬(e = 'x' ∨ e = 'u')) (hblank : Text.isBlank e) :
    (do set (← lineBreakEscape view); return []) (Text.byteSize before) =
      escaped before e m (Literal.escape e m) := by
  have hplace : view.IsAt ⟨Text.backslash :: before, e :: m⟩ :=
    h.leads (Cursor.leads_cons Text.backslash before (e :: m))
  have hposition : Text.byteSize before + 1 =
      Cursor.position ⟨Text.backslash :: before, e :: m⟩ := by
    simp [Cursor.position, show Text.backslash.utf8Size = 1 from rfl, Nat.add_comm]
  have hfuel : Text.byteSize (e :: m) < view.stop - Text.byteSize before := by
    obtain ⟨-, -, hstop⟩ := h
    simp [Cursor.position, show Text.backslash.utf8Size = 1 from rfl] at hstop
    simp
    omega
  have hloop := continuationLoop_run (view.stop - Text.byteSize before) false _ hplace hfuel
    (Text.byteSize before)
  rw [← hposition] at hloop
  rw [lineBreakEscape, bind_assoc, get_bind_run, bind_assoc,
    bind_of_eq_ok hloop, Literal.escape_of_isBlank hnamed hhex hblank]
  cases hfound : (Literal.continuation false (e :: m)).2 with
  | true =>
    show EStateM.Result.ok [] (Text.byteSize before + 1 +
      Text.byteSize ((e :: m).take (Literal.continuation false (e :: m)).1)) = _
    simp only [escaped, if_true, Text.byteSize_cons, show Text.backslash.utf8Size = 1 from rfl,
      Nat.add_assoc]
  | false => rfl

theorem escape_run (h : view.IsAt ⟨before, Text.backslash :: e :: m⟩) :
    escape view e (Text.byteSize before) = escaped before e m (Literal.escape e m) := by
  rw [escape]
  cases hnamed : Literal.named? e with
  | some u =>
    have hescape : Literal.escape e m = .text [u] 1 := by simp [Literal.escape, hnamed]
    rw [hescape]
    show (advance 2 >>= fun _ => pure [u] : OffsetScan (List Char)) _ = _
    rw [bind_of_eq_ok (advance_eq _ _)]
    simp [escaped, utf8Size_of_named? hnamed, show Text.backslash.utf8Size = 1 from rfl,
      pure_eq_ok]
  | none =>
    by_cases hhex : e = 'x' ∨ e = 'u'
    · simp only [if_pos hhex]
      exact hexEscape_run h hhex hnamed
    · simp only [if_neg hhex]
      by_cases hblank : Text.isBlank e
      · simp only [if_pos hblank]
        exact lineBreakEscape_run h hnamed hhex hblank
      · have hescape : Literal.escape e m = .malformed (.unknownEscape e) 0 := by
          simp only [Literal.escape, hnamed, if_neg hhex, if_neg hblank]
        simp only [if_neg hblank, hescape]
        rfl

end Offsets

namespace Literal

variable {quotation e : Char} {start passed : Nat} {before read m : List Char}
  {cause : Malformation}

theorem body_nil : body quotation start before [] read =
    .error ⟨.unclosedString quotation, start⟩ ⟨before, []⟩ := by
  rw [body.eq_def]

theorem body_backslash (h : isQuotation quotation) :
    body quotation start before [Text.backslash] read =
      .error ⟨.unclosedString quotation, start⟩ ⟨before, [Text.backslash]⟩ := by
  rw [body.eq_def]
  simp [ne_backslash h]

theorem body_malformed (h : isQuotation quotation) (he : escape e m = .malformed cause passed) :
    body quotation start before (Text.backslash :: e :: m) read =
      .error ⟨cause, Text.byteSize before⟩ (Cursor.pass ⟨before, Text.backslash :: e :: m⟩
        ((Text.backslash :: e :: m).take passed) ((Text.backslash :: e :: m).drop passed)) := by
  rw [body.eq_def]
  simp [ne_backslash h, he, Cursor.position]

end Literal

namespace Offsets

variable {view : View} {c : Cursor}

/-- The place behind an escape sequence. -/
def escapeEnd (before : List Char) (e : Char) (m : List Char) (length : Nat) : Cursor :=
  ⟨((e :: m).take length).reverse ++ Text.backslash :: before, (e :: m).drop length⟩

section
variable (before : List Char) (e : Char) (m : List Char) (length : Nat)

theorem leads_escapeEnd :
    Cursor.Leads ⟨before, Text.backslash :: e :: m⟩ (escapeEnd before e m length) :=
  (Cursor.leads_cons _ _ _).trans ⟨_, (List.take_append_drop _ _).symm, rfl⟩

theorem position_escapeEnd : (escapeEnd before e m length).position =
    Text.byteSize before + Text.byteSize (Text.backslash :: (e :: m).take length) := by
  simp [escapeEnd, Cursor.position]
  omega

theorem byteSize_escapeEnd_lt : Text.byteSize (escapeEnd before e m length).rest <
    Text.byteSize (Text.backslash :: e :: m) := by
  refine byteSize_rest_lt (leads_escapeEnd before e m length) ?_
  show ((e :: m).drop length).length < (e :: m).length + 1
  rw [List.length_drop]
  omega

end

/-- From within a quoted literal. What has been read but is not taken over yet stands between the
place `b` and the offset. -/
theorem quotedLoop_agrees {quotation : Char} (isQuotation : Literal.isQuotation quotation)
    (start n : Nat) (b c : Cursor) (part read : List Char) (hb : view.IsAt b)
    (hpart : b.Spans part c) (hn : Text.byteSize c.rest < n) :
    quotedLoop view quotation start n read b.position c.position =
      located (Literal.body quotation start c.before c.rest (read ++ part).reverse) := by
  induction n generalizing b c part read with
  | zero => omega
  | succ n ih =>
    have hc := hb.leads hpart.leads
    have hslice := slice_of_spans hb hpart
    rw [quotedLoop, get_bind_run, look_eq hc, pure_bind]
    obtain ⟨before, rest⟩ := c
    cases rest with
    | nil =>
      rw [Literal.body_nil]
      rfl
    | cons x rest =>
      have hposition : Cursor.position ⟨before, x :: rest⟩ + x.utf8Size =
          Cursor.position ⟨x :: before, rest⟩ := (position_next rfl).symm
      simp only [Cursor.peek?, List.head?_cons]
      by_cases hquotation : x = quotation
      · subst hquotation
        rw [utf8Size_of_isQuotation isQuotation] at hposition
        rw [if_pos rfl, hslice, pure_bind, bind_of_eq_ok (advance_eq _ _), hposition,
          Literal.body_quotation, List.reverse_reverse]
        rfl
      rw [if_neg hquotation]
      by_cases hbackslash : x ≠ Text.backslash
      · have hread : x :: (read ++ part).reverse = (read ++ (part ++ [x])).reverse := by simp
        have hpart' : b.Spans (part ++ [x]) ⟨x :: before, rest⟩ :=
          ⟨by simp [hpart.1], by simp [← hpart.2]⟩
        have hless : Text.byteSize rest < n := by
          have hpos := x.utf8Size_pos
          have hsize : x.utf8Size + Text.byteSize rest < n + 1 := by simpa using hn
          omega
        rw [if_neg hbackslash, bind_of_eq_ok (advance_eq _ _), hposition,
          Literal.body_plain hquotation hbackslash, hread]
        exact ih b ⟨x :: before, rest⟩ (part ++ [x]) read hb hpart' hless
      obtain rfl := Decidable.not_not.1 hbackslash
      have hone : Cursor.position ⟨before, Text.backslash :: rest⟩ + 1 =
          Cursor.position ⟨Text.backslash :: before, rest⟩ := hposition
      rw [if_pos rfl, hslice, pure_bind, hone, look_eq (hc.leads (Cursor.leads_cons _ _ _)),
        pure_bind]
      cases rest with
      | nil =>
        rw [Literal.body_backslash isQuotation]
        rfl
      | cons e m =>
        have hrun : escape view e (Cursor.position ⟨before, Text.backslash :: e :: m⟩) =
            escaped before e m (Literal.escape e m) := escape_run hc
        simp only [Cursor.peek?, List.head?_cons]
        cases hescape : Literal.escape e m with
        | malformed cause passed =>
          rw [hescape] at hrun
          rw [Literal.body_malformed isQuotation hescape, bind_of_eq_error hrun]
          simp only [located, Cursor.position_pass]
          rfl
        | text t length =>
          -- What the escape stands for is taken over, and nothing waits behind it.
          have hless := Nat.lt_of_lt_of_le (byteSize_escapeEnd_lt before e m length)
            (Nat.le_of_lt_succ hn)
          have hread : t.reverse ++ (read ++ part).reverse =
              (read ++ part ++ t ++ []).reverse := by simp
          rw [hescape, escaped, ← position_escapeEnd] at hrun
          rw [Literal.body_text isQuotation hescape, bind_of_eq_ok hrun,
            get_bind_run, hread]
          exact ih _ _ [] (read ++ part ++ t) (hc.leads (leads_escapeEnd before e m length))
            ⟨rfl, rfl⟩ hless

theorem quoted_agrees {quotation : Char} (h : view.IsAt c) (opens : c.peek? = some quotation)
    (isQuotation : Literal.isQuotation quotation) :
    Agrees (quoted view quotation) (Scan.quoted quotation) c := by
  have hposition : c.position + 1 = c.next.position := by
    rw [position_next opens, utf8Size_of_isQuotation isQuotation]
  have hplace := h.leads (Cursor.Leads.next c)
  have hfuel : Text.byteSize c.next.rest < view.stop - c.position := by
    obtain ⟨-, -, hstop⟩ := hplace
    omega
  rw [Agrees, quoted, get_bind_run, bind_of_eq_ok (advance_eq _ _),
    hposition]
  exact quotedLoop_agrees isQuotation c.position _ c.next c.next [] [] hplace ⟨rfl, rfl⟩ hfuel

/-- Looks at two characters tell a raw literal. -/
theorem rawQuotation?_eq (h : view.IsAt c) :
    rawQuotation? view c.position = pure (Literal.rawQuotation? c.rest) := by
  rw [rawQuotation?, look_eq h, pure_bind]
  by_cases hr : c.peek? = some 'r'
  · obtain ⟨rest, hrest⟩ := Cursor.rest_of_peek? hr
    have hplace := h.leads (Cursor.Leads.next c)
    have hposition : c.position + 1 = c.next.position := (position_next hr).symm
    rw [if_pos hr, hposition, look_eq hplace, pure_bind, Cursor.next_of_rest hrest, hrest]
    cases rest with
    | nil => rfl
    | cons x rest => rfl
  · rw [if_neg hr]
    cases hquotation : Literal.rawQuotation? c.rest with
    | none => rfl
    | some x =>
      obtain ⟨rest, hrest, -⟩ := Literal.rawQuotation?_eq_some.1 hquotation
      simp [Cursor.peek?, hrest] at hr

end Offsets
end TextualData
