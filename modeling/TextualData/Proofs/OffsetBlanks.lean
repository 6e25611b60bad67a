import TextualData.Proofs.Offsets
import TextualData.Proofs.Separation

/-!
# Blanks, separators and tokens by byte offsets
-/

namespace TextualData

namespace Text

/-- The first place in a text from which on it is as asked for: the text before it, and the text
from there on. -/
def splitWhere? (p : List Char → Bool) : List Char → Option (List Char × List Char)
  | [] => if p [] then some ([], []) else none
  | x :: l =>
    if p (x :: l) then some ([], x :: l)
    else (splitWhere? p l).map fun (m, n) => (x :: m, n)

/-- The byte offset of the first place in a text from which on it is as asked for. -/
def find? (p : List Char → Bool) (l : List Char) : Option Nat :=
  (splitWhere? p l).map fun (m, _) => byteSize m

theorem append_of_splitWhere? {p : List Char → Bool} {l m n : List Char}
    (h : splitWhere? p l = some (m, n)) : l = m ++ n ∧ p n := by
  induction l generalizing m with
  | nil =>
    simp only [splitWhere?] at h
    split at h
    · simp_all
    · simp at h
  | cons x l ih =>
    simp only [splitWhere?] at h
    split at h
    · simp_all
    · obtain ⟨⟨m', n'⟩, hm, heq⟩ := Option.map_eq_some_iff.1 h
      obtain ⟨rfl, rfl⟩ := Prod.mk.inj heq
      obtain ⟨rfl, hn⟩ := ih hm
      exact ⟨rfl, hn⟩

end Text

namespace Offsets

variable (view : View)

/-- Whether a number sign at the offset opens a comment. -/
def opensLineComment (x : Char) : OffsetScan Bool := do
  if x = '#' then
    let before ← slice view 0 (← get)
    return Text.isLineBlankBefore before.reverse
  else return false

/-- The end of the line at an offset. -/
def lineEnd (p : Nat) : OffsetScan Nat := do
  match Text.find? (fun l => l.head?.any Text.isLineBreak) (← slice view p view.stop) with
  | some i => return p + i
  | none => return view.stop

/-- The end of the comment with a closing mark that begins at an offset. -/
def commentEnd (p : Nat) : OffsetScan Nat := do
  match Text.find? Blanks.closingMark.isPrefixOf (← slice view (p + 2) view.stop) with
  | some i => return p + 2 + i + 3
  | none => blame p .unclosedComment

/-- Passes over blanks and comments. The number bounds the loop. -/
def blanksLoop : Nat → (broken : Bool) → OffsetScan Bool
  | 0, _ => throw none
  | n + 1, broken => do
    let p ← get
    match ← look view p with
    | none => return broken
    | some x =>
      if Text.isBlank x then
        advance x.utf8Size
        blanksLoop n (broken || Text.isLineBreak x)
      else if ← opensLineComment view x then
        set (← lineEnd view p)
        blanksLoop n broken
      else if Blanks.opensComment (← slice view p view.stop) then
        set (← commentEnd view p)
        blanksLoop n broken
      else return broken

/-- Moves on over blanks and comments, and tells whether they held a line break. -/
def blanks : OffsetScan Bool := do
  blanksLoop view (view.stop - (← get) + 1) false

end Offsets

namespace Blanks

theorem pass_lineComment_of_none {rest : List Char}
    (h : Text.splitWhere? (fun l => l.head?.any Text.isLineBreak) rest = none) (broken : Bool)
    (before : List Char) : pass .lineComment broken before rest =
      .ok broken ⟨rest.reverse ++ before, []⟩ := by
  induction rest generalizing before with
  | nil => rfl
  | cons x rest ih =>
    simp only [Text.splitWhere?] at h
    split at h
    · simp at h
    · next hx =>
      rw [pass, if_neg (by simpa using hx), ih (by simpa using h)]
      simp

theorem pass_lineComment_of_some {rest l m : List Char}
    (h : Text.splitWhere? (fun l => l.head?.any Text.isLineBreak) rest = some (l, m))
    (broken : Bool) (before : List Char) : pass .lineComment broken before rest =
      pass .blank broken (l.reverse ++ before) m := by
  induction rest generalizing before l with
  | nil => simp [Text.splitWhere?] at h
  | cons x rest ih =>
    simp only [Text.splitWhere?] at h
    split at h
    · next hx =>
      obtain ⟨rfl, rfl⟩ := Prod.mk.inj (Option.some.inj h)
      have hx' : Text.isLineBreak x := by simpa using hx
      have hblank : pass .blank broken before (x :: rest) =
          pass .blank true (x :: before) rest := by
        rw [pass, if_pos (Text.isBlank_of_isLineBreak hx'), hx', Bool.or_true]
      rw [List.reverse_nil, List.nil_append, hblank, pass, if_pos hx']
    · next hx =>
      obtain ⟨⟨l', m'⟩, hl, heq⟩ := Option.map_eq_some_iff.1 h
      obtain ⟨rfl, rfl⟩ := Prod.mk.inj heq
      rw [pass, if_neg (by simpa using hx), ih hl]
      simp

theorem isPrefixOf_closingMark {l : List Char} :
    closingMark.isPrefixOf l ↔ ∃ m, l = '-' :: '-' :: '>' :: m := by
  rw [List.isPrefixOf_iff_prefix]
  exact exists_congr fun m => eq_comm

theorem pass_blockComment_of_none {rest : List Char}
    (h : Text.splitWhere? closingMark.isPrefixOf rest = none) (start : Cursor) (broken : Bool)
    (before : List Char) : pass (.blockComment start) broken before rest =
      .error ⟨.unclosedComment, start.position⟩ start := by
  induction rest generalizing before with
  | nil => rfl
  | cons x rest ih =>
    simp only [Text.splitWhere?] at h
    split at h
    · simp at h
    · next hx =>
      rw [pass, ih (by simpa using h)]
      rintro m rfl rfl
      exact hx (isPrefixOf_closingMark.2 ⟨m, rfl⟩)

theorem pass_blockComment_of_some {rest l m : List Char}
    (h : Text.splitWhere? closingMark.isPrefixOf rest = some (l, closingMark ++ m))
    (start : Cursor) (broken : Bool) (before : List Char) :
    pass (.blockComment start) broken before rest =
      pass .blank broken ((l ++ closingMark).reverse ++ before) m := by
  induction rest generalizing before l with
  | nil => simp [Text.splitWhere?, closingMark] at h
  | cons x rest ih =>
    simp only [Text.splitWhere?] at h
    split at h
    · next hx =>
      obtain ⟨rfl, hm⟩ := Prod.mk.inj (Option.some.inj h)
      rw [hm]
      show pass _ _ _ ('-' :: '-' :: '>' :: m) = _
      rw [pass]
      rfl
    · next hx =>
      obtain ⟨⟨l', m'⟩, hl, heq⟩ := Option.map_eq_some_iff.1 h
      obtain ⟨rfl, rfl⟩ := Prod.mk.inj heq
      rw [pass, ih hl]
      · simp
      · rintro m rfl rfl
        exact hx (isPrefixOf_closingMark.2 ⟨m, rfl⟩)

end Blanks

namespace Offsets

variable {view : View} {c : Cursor}

theorem opensLineComment_eq (h : view.IsAt c) (x : Char) :
    opensLineComment view x c.position =
      .ok (x == '#' && Text.isLineBlankBefore c.before) c.position := by
  unfold opensLineComment
  by_cases hx : x = '#'
  · rw [if_pos hx, get_bind_run, slice_before h]
    simp [hx, pure_eq_ok]
  · rw [if_neg hx]
    simp [hx, pure_eq_ok]

theorem advance_eq (bytes position : Nat) :
    advance bytes position = .ok () (position + bytes) := rfl

theorem set_eq (position position' : Nat) :
    (set position' : OffsetScan Unit) position = .ok () position' := rfl

theorem byteSize_rest_lt {d : Cursor} (h : c.Leads d) (hlt : d.rest.length < c.rest.length) :
    Text.byteSize d.rest < Text.byteSize c.rest := by
  have hposition := h.position_lt hlt
  obtain ⟨l, hrest, hbefore⟩ := h
  simp [Cursor.position, hbefore] at hposition
  simp [hrest]
  omega

/-- A line comment is passed up to the end of its line. -/
theorem lineEnd_spec {before rest : List Char} (h : view.IsAt ⟨before, '#' :: rest⟩) (q : Nat) :
    ∃ d, lineEnd view (Cursor.position ⟨before, '#' :: rest⟩) q = .ok d.position q ∧
      Cursor.Leads ⟨'#' :: before, rest⟩ d ∧ ∀ broken,
        Blanks.pass .lineComment broken ('#' :: before) rest =
          Blanks.pass .blank broken d.before d.rest := by
  rw [lineEnd, slice_rest h, pure_bind]
  cases hfind : Text.splitWhere? (fun l => l.head?.any Text.isLineBreak) rest with
  | none =>
    refine ⟨⟨rest.reverse ++ '#' :: before, []⟩, ?_, ⟨rest, (List.append_nil _).symm, rfl⟩,
      fun broken => Blanks.pass_lineComment_of_none hfind broken _⟩
    have hfind' : Text.find? (fun l => l.head?.any Text.isLineBreak) ('#' :: rest) = none := by
      simp only [Text.find?, Text.splitWhere?, hfind]
      rfl
    obtain ⟨-, -, hstop⟩ := h
    have hend : view.stop = Cursor.position ⟨rest.reverse ++ '#' :: before, []⟩ := by
      rw [hstop]
      simp [Cursor.position]
      omega
    rw [hfind', hend]
    rfl
  | some parts =>
    obtain ⟨l, m⟩ := parts
    obtain ⟨rfl, -⟩ := Text.append_of_splitWhere? hfind
    refine ⟨⟨l.reverse ++ '#' :: before, m⟩, ?_, ⟨l, rfl, rfl⟩,
      fun broken => Blanks.pass_lineComment_of_some hfind broken _⟩
    have hfind' : Text.find? (fun l => l.head?.any Text.isLineBreak) ('#' :: (l ++ m)) =
        some (Text.byteSize ('#' :: l)) := by
      simp only [Text.find?, Text.splitWhere?, hfind]
      rfl
    have hend : Cursor.position ⟨before, '#' :: (l ++ m)⟩ + Text.byteSize ('#' :: l) =
        Cursor.position ⟨l.reverse ++ '#' :: before, m⟩ := by
      simp [Cursor.position]
      omega
    rw [hfind', ← hend]
    rfl

/-- A comment with a closing mark is passed, or is to blame if it is not closed. -/
theorem commentEnd_spec {before m : List Char}
    (h : view.IsAt ⟨before, '<' :: '#' :: '-' :: '-' :: m⟩) (q : Nat) :
    (∃ d, commentEnd view (Cursor.position ⟨before, '<' :: '#' :: '-' :: '-' :: m⟩) q =
        .ok d.position q ∧ Cursor.Leads ⟨'<' :: before, '#' :: '-' :: '-' :: m⟩ d ∧
          ∀ start broken, Blanks.pass (.blockComment start) broken ('<' :: before)
            ('#' :: '-' :: '-' :: m) = Blanks.pass .blank broken d.before d.rest) ∨
    commentEnd view (Cursor.position ⟨before, '<' :: '#' :: '-' :: '-' :: m⟩) q =
        .error (some ⟨.unclosedComment,
          Cursor.position ⟨before, '<' :: '#' :: '-' :: '-' :: m⟩⟩) q ∧
      ∀ start broken, Blanks.pass (.blockComment start) broken ('<' :: before)
        ('#' :: '-' :: '-' :: m) = .error ⟨.unclosedComment, start.position⟩ start := by
  have hinner : view.IsAt ⟨'#' :: '<' :: before, '-' :: '-' :: m⟩ :=
    h.leads ⟨['<', '#'], rfl, rfl⟩
  have hposition : Cursor.position ⟨before, '<' :: '#' :: '-' :: '-' :: m⟩ + 2 =
      Cursor.position ⟨'#' :: '<' :: before, '-' :: '-' :: m⟩ := by
    simp [Cursor.position, show '#'.utf8Size = 1 from rfl, show '<'.utf8Size = 1 from rfl]
    omega
  -- The number sign is passed without a look at it.
  have hsign : ∀ start broken, Blanks.pass (.blockComment start) broken ('<' :: before)
      ('#' :: '-' :: '-' :: m) =
        Blanks.pass (.blockComment start) broken ('#' :: '<' :: before) ('-' :: '-' :: m) := by
    intro start broken
    rw [Blanks.pass]
    simp
  rw [commentEnd, hposition, slice_rest hinner, pure_bind]
  cases hfind : Text.splitWhere? Blanks.closingMark.isPrefixOf ('-' :: '-' :: m) with
  | none =>
    refine .inr ⟨by rw [Text.find?, hfind]; rfl, fun start broken => ?_⟩
    rw [hsign, Blanks.pass_blockComment_of_none hfind]
  | some parts =>
    obtain ⟨l, rest⟩ := parts
    obtain ⟨hl, hmark⟩ := Text.append_of_splitWhere? hfind
    obtain ⟨rest, rfl⟩ := Blanks.isPrefixOf_closingMark.1 hmark
    refine .inl ⟨⟨(l ++ Blanks.closingMark).reverse ++ '#' :: '<' :: before, rest⟩, ?_,
      ⟨'#' :: (l ++ Blanks.closingMark), by simp [hl, Blanks.closingMark], by simp⟩,
      fun start broken => ?_⟩
    · have hend : Cursor.position ⟨'#' :: '<' :: before, '-' :: '-' :: m⟩ + Text.byteSize l + 3 =
          Cursor.position ⟨(l ++ Blanks.closingMark).reverse ++ '#' :: '<' :: before, rest⟩ := by
        simp [Cursor.position, show Text.byteSize Blanks.closingMark = 3 from rfl]
        omega
      rw [Text.find?, hfind, ← hend]
      rfl
    · rw [hsign, Blanks.pass_blockComment_of_some hfind]

theorem blanksLoop_agrees (n : Nat) (broken : Bool) (c : Cursor) (h : view.IsAt c)
    (hn : Text.byteSize c.rest < n) :
    blanksLoop view n broken c.position = located (Blanks.pass .blank broken c.before c.rest) := by
  induction n generalizing broken c with
  | zero => omega
  | succ n ih =>
    have hmore : ∀ broken d, c.Leads d → d.rest.length < c.rest.length →
        blanksLoop view n broken d.position =
          located (Blanks.pass .blank broken d.before d.rest) := fun broken d hd hlt =>
      ih broken d (h.leads hd) (by have := byteSize_rest_lt hd hlt; omega)
    rw [blanksLoop, get_bind_run, look_eq h, pure_bind]
    obtain ⟨before, rest⟩ := c
    cases rest with
    | nil => rfl
    | cons x rest =>
      simp only [Cursor.peek?, List.head?_cons]
      rw [Blanks.pass]
      by_cases hblank : Text.isBlank x
      · have hnext := hmore (broken || Text.isLineBreak x) ⟨x :: before, rest⟩
          (Cursor.leads_cons x before rest) (by simp)
        rw [if_pos hblank, if_pos hblank, bind_of_eq_ok (advance_eq _ _), ← hnext,
          ← position_next (c := ⟨before, x :: rest⟩) rfl]
        rfl
      · rw [if_neg hblank, if_neg hblank, bind_of_eq_ok (opensLineComment_eq h x)]
        by_cases hsign : (x == '#' && Text.isLineBlankBefore before) = true
        · rw [if_pos hsign, if_pos hsign]
          obtain rfl : x = '#' := by simp_all
          obtain ⟨d, hend, hd, hpass⟩ := lineEnd_spec h (Cursor.position ⟨before, '#' :: rest⟩)
          have hlen := hd.length_le
          rw [hpass, ← hmore broken d ((Cursor.leads_cons _ _ _).trans hd)
            (Nat.lt_succ_of_le hlen), bind_of_eq_ok hend, bind_of_eq_ok (set_eq _ _)]
        · rw [if_neg hsign, if_neg hsign, slice_rest h, pure_bind]
          by_cases hopens : Blanks.opensComment (x :: rest)
          · rw [if_pos hopens, if_pos hopens]
            obtain ⟨m, hm⟩ := Blanks.opensComment_iff.1 hopens
            obtain ⟨rfl, rfl⟩ := List.cons.inj hm
            obtain ⟨d, hend, hd, hpass⟩ | ⟨hend, hpass⟩ := commentEnd_spec h
              (Cursor.position ⟨before, '<' :: '#' :: '-' :: '-' :: m⟩)
            · have hlen := hd.length_le
              rw [hpass, ← hmore broken d ((Cursor.leads_cons _ _ _).trans hd)
                (Nat.lt_succ_of_le hlen), bind_of_eq_ok hend, bind_of_eq_ok (set_eq _ _)]
            · rw [hpass, bind_of_eq_error hend]
              rfl
          · rw [if_neg hopens, if_neg hopens]
            rfl

theorem blanks_agrees (h : view.IsAt c) : Agrees (blanks view) Scan.blanks c := by
  have hfuel : Text.byteSize c.rest < view.stop - c.position + 1 := by
    obtain ⟨-, -, hstop⟩ := h
    omega
  exact blanksLoop_agrees _ false c h hfuel

/-- A character of one byte is passed with one byte. -/
theorem next_agrees {x : Char} (hpeek : c.peek? = some x) (hx : x.utf8Size = 1) :
    Agrees (advance 1) Scan.next c := by
  have hposition := position_next hpeek
  rw [hx] at hposition
  rw [Agrees, advance_eq, ← hposition]
  rfl

/-- The separator at an offset, or that the blanks before it have led to. The number is the offset
where they began. -/
def separatorAt (view : View) (closing : Option Char) (refusal : Option ColonRefusal) (start : Nat)
    (broken : Bool) : Option Char → OffsetScan Separator
  | none => return if closing.isNone then .closing else .unfinished
  | some x => do
    let p ← get
    if x = '+' then blame p .union
    else if x = ':' then
      match refusal with
      | some refusal => blame p (.colon refusal)
      | none =>
        advance 1
        let _ ← blanks view
        return .colon
    else if x = ',' then
      advance 1
      let _ ← blanks view
      return .comma
    else if closing = some x then return .closing
    else if x = ';' then blame p .semicolon
    else if x = '=' then blame p .equalsSign
    else if broken then return .comma
    else if p = start then blame p (.strayCharacter x)
    else blame p .missingSeparator

/-- Moves on over a separator and the blanks around it. -/
def separator (view : View) (closing : Option Char) (refusal : Option ColonRefusal) :
    OffsetScan Separator := do
  let start ← get
  let broken ← blanks view
  separatorAt view closing refusal start broken (← peek view)

/-- A mark of one byte and the blanks after it. -/
theorem mark_agrees (h : view.IsAt c) {x : Char} (hpeek : c.peek? = some x) (hx : x.utf8Size = 1)
    (sep : Separator) : Agrees (do advance 1; let _ ← blanks view; return sep)
      (do Scan.next; let _ ← Scan.blanks; return sep) c :=
  .bind (next_agrees hpeek hx) fun _ d hd => by
    obtain rfl := Scan.next_eq_ok.1 hd
    exact .bind (blanks_agrees (h.leads (Cursor.Leads.next c))) fun _ _ _ => .pure

theorem separatorAt_agrees (h : view.IsAt c) (closing : Option Char)
    (refusal : Option ColonRefusal) (start : Cursor) (broken : Bool) :
    Agrees (separatorAt view closing refusal start.position broken c.peek?)
      (separatorOf closing refusal start broken c.peek?) c := by
  cases hpeek : c.peek? with
  | none => exact .pure
  | some x =>
    simp only [separatorAt, separatorOf]
    refine .get_left (.ite (fun _ => .refuse) fun _ => .ite (fun hx => ?_) fun _ =>
      .ite (fun hx => ?_) fun _ => .ite (fun _ => .pure) fun _ => .ite (fun _ => .refuse) fun _ =>
        .ite (fun _ => .refuse) fun _ => .ite (fun _ => .pure) fun _ => .get_right ?_)
    · cases refusal with
      | none => exact mark_agrees h hpeek (by rw [hx]; rfl) .colon
      | some refusal => exact .refuse
    · exact mark_agrees h hpeek (by rw [hx]; rfl) .comma
    · exact .ite (fun _ => .refuse) fun _ => .refuse

theorem separator_agrees (h : view.IsAt c) (closing : Option Char)
    (refusal : Option ColonRefusal) :
    Agrees (separator view closing refusal) (Scan.separator closing refusal) c := by
  rw [separator_eq]
  refine .get (.bind (blanks_agrees h) fun broken d hd => ?_)
  have hplace := h.leads (Scan.leads_of_blanks hd)
  exact .peek hplace (separatorAt_agrees hplace closing refusal c broken)

end Offsets
end TextualData
