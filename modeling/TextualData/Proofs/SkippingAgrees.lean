import Mathlib
import TextualData.Proofs.ReadingSound
import TextualData.Proofs.SkippedKeys

/-!
# Skipping and reading

Skipping an expression leads to where reading it does, as long as no value in it is misread. After
the first misread value, skipping goes on from within a literal, and the end that it finds is the
one that the listings around that value have from there.
-/

namespace TextualData

/-- The rest of each listing is skipped, one after the other. -/
inductive Unwinds : List Char → Cursor → Cursor → Prop where
  | nil {c : Cursor} : Unwinds [] c c
  /-- The rest of the innermost listing, and then those around it. -/
  | cons {closing : Char} {closings : List Char} {c c₁ c' : Cursor}
      (first : Skips (some closing) c c₁) (more : Unwinds closings c₁ c') :
      Unwinds (closing :: closings) c c'

/-- Where skipping ends that leads to a place, unless it comes upon a misread value before. -/
def SkipEnds : Option Misread → Cursor → Cursor → Prop
  | none, c', d => d = c'
  | some m, _, d => ∃ e, Skips none m.place e ∧ Unwinds m.closings e d

theorem Unwinds.singleton_iff {closing : Char} {c d : Cursor} :
    Unwinds [closing] c d ↔ Skips (some closing) c d := by
  constructor
  · intro h
    cases h with
    | cons first more =>
      cases more
      exact first
  · exact fun h => .cons h .nil

theorem Unwinds.append_iff {closing : Char} {closings : List Char} {c d : Cursor} :
    Unwinds (closings ++ [closing]) c d ↔
      ∃ e, Unwinds closings c e ∧ Skips (some closing) e d := by
  constructor
  · intro h
    induction closings generalizing c with
    | nil =>
      cases h with
      | cons first more =>
        cases more
        exact ⟨c, .nil, first⟩
    | cons x closings ih =>
      cases h with
      | cons first more =>
        obtain ⟨e, hclosings, hlast⟩ := ih more
        exact ⟨e, .cons first hclosings, hlast⟩
  · rintro ⟨e, hclosings, hlast⟩
    induction hclosings with
    | nil => exact .cons hlast .nil
    | cons first _ ih => exact .cons first (ih hlast)

namespace SkipEnds

variable {closing : Char} {m m' : Option Misread} {c c' d : Cursor}

/-- After a phrase the rest of the listing is skipped, from where skipping the phrase ends. -/
theorem or_iff
    (hmore : ∀ d, Skips (some closing) c d ↔ SkipEnds (m'.map (·.inside closing)) c' d) :
    (∃ e, SkipEnds m c e ∧ Skips (some closing) e d) ↔
      SkipEnds ((m.or m').map (·.inside closing)) c' d := by
  cases m with
  | none => simp only [SkipEnds, exists_eq_left, Option.none_or, hmore]
  | some m =>
    simp only [SkipEnds, Option.some_or, Option.map_some, Misread.inside, Unwinds.append_iff]
    constructor
    · rintro ⟨e, ⟨e', hplace, hclosings⟩, hlast⟩
      exact ⟨e', hplace, e, hclosings, hlast⟩
    · rintro ⟨e', hplace, e, hclosings, hlast⟩
      exact ⟨e, ⟨e', hplace, hclosings⟩, hlast⟩

end SkipEnds

/-- What skipping a phrase comes to: for an expression, unless it is a key that a colon follows, and
for the rest of a listing with its closing bracket. -/
def Agrees : Shape → Cursor → Cursor → Option Misread → Prop
  | .expression inKey, c, c', m =>
    (inKey = true → ∀ e value, ¬c.KeyAtColon e value) → ∀ d, Skips none c d ↔ SkipEnds m c' d
  | .items (some closing), c, c', m | .entries (some closing), c, c', m =>
    ClosesListing closing → Scan.blanks c = .ok false c →
      ∀ d, Skips (some closing) c d ↔ SkipEnds (m.map (·.inside closing)) c'.next d
  | .items none, _, _, _ | .entries none, _, _, _ => True

namespace Agrees

variable {closing : Char} {inKey broken : Bool} {m m' m'' : Option Misread}
  {c c₁ c₂ c₃ c₄ c₅ : Cursor}

theorem listing {x : Char} (opens : c.peek? = some x) (hx : Extent.closing? x = some closing)
    (closes : ClosesListing closing) (blanks : Scan.blanks c.next = .ok broken c₁)
    (ih : Agrees (.items (some closing)) c₁ c₂ m) :
    Agrees (.expression inKey) c c₂.next (m.map (·.inside closing)) := by
  intro _ d
  rw [Skips.listing_iff opens hx, Skips.blanks_iff blanks]
  exact ih closes (Scan.blanks_again blanks) d

theorem quoted {quotation : Char} {l : List Char} (opens : c.peek? = some quotation)
    (isQuotation : Literal.isQuotation quotation)
    (literal : Scan.quoted quotation c = .ok l c₁) : Agrees (.expression inKey) c c₁ none :=
  fun _ _ => (Skips.quoted opens isQuotation
    (Extent.quoted_of_body isQuotation _ _ _ _ _ literal)).iff_eq

theorem raw {quotation : Char} {l : List Char}
    (opens : Literal.rawQuotation? c.rest = some quotation)
    (literal : Scan.raw quotation c = .ok l c₁) : Agrees (.expression inKey) c c₁ none :=
  fun _ _ => (Skips.raw opens literal).iff_eq

/-- A token that no colon follows is skipped as it is read. -/
theorem split_false {l rest : List Char} (noRaw : Literal.rawQuotation? c.rest = none)
    (split : Token.split inKey c.rest = (l, rest)) (nonempty : l ≠ [])
    (noColon : inKey = true → ∀ e value, ¬c.KeyAtColon e value) :
    Token.split false c.rest = (l, rest) := by
  cases inKey with
  | false => exact split
  | true =>
    refine Token.split_of_inKey split nonempty fun hcolon => ?_
    obtain ⟨value, rfl⟩ := List.head?_eq_some_iff.1 hcolon
    obtain ⟨x, key, rfl⟩ := List.exists_cons_of_ne_nil nonempty
    exact noColon rfl _ value ⟨noRaw, x, key, split, rfl⟩

theorem token {l rest : List Char} (noRaw : Literal.rawQuotation? c.rest = none)
    (split : Token.split inKey c.rest = (l, rest)) (nonempty : l ≠ [])
    (blanks : Scan.blanks (c.pass l rest) = .ok broken c₁) (noCall : c₁.peek? ≠ some '(') :
    Agrees (.expression inKey) c (c.pass l rest) none := by
  intro noColon d
  exact (Skips.token noRaw (split_false noRaw split nonempty noColon) nonempty blanks noCall).iff_eq

theorem call {broken' : Bool} {l rest : List Char} (noRaw : Literal.rawQuotation? c.rest = none)
    (split : Token.split inKey c.rest = (l, rest)) (nonempty : l ≠ [])
    (blanks : Scan.blanks (c.pass l rest) = .ok broken c₁) (opens : c₁.peek? = some '(')
    (blanks' : Scan.blanks c₁.next = .ok broken' c₂)
    (ih : Agrees (.items (some ')')) c₂ c₃ m) :
    Agrees (.expression inKey) c c₃.next (m.map (·.inside ')')) := by
  intro noColon d
  rw [Skips.token_iff noRaw (split_false noRaw split nonempty noColon) nonempty,
    Skips.OfCall.params_iff blanks opens, Skips.blanks_iff blanks']
  exact ih (.inr (.inr rfl)) (Scan.blanks_again blanks') d

/-- After an expression and a separator the rest of the listing is skipped. -/
theorem or {refusal : Option ColonRefusal} {sep : Separator} {c' : Cursor}
    (hfirst : ∀ d, Skips (some closing) c d ↔ ∃ e, SkipEnds m c₁ e ∧ Skips (some closing) e d)
    (closes : ClosesListing closing)
    (separated : Scan.separator (some closing) refusal c₁ = .ok sep c₂)
    (hmore : ∀ d, Skips (some closing) c₂ d ↔ SkipEnds (m'.map (·.inside closing)) c' d)
    (d : Cursor) :
    Skips (some closing) c d ↔ SkipEnds ((m.or m').map (·.inside closing)) c' d := by
  rw [hfirst]
  exact SkipEnds.or_iff fun d => (Skips.separator_iff closes separated).trans (hmore d)

theorem item {refusal : Option ColonRefusal} {sep : Separator}
    (first : Outline (.expression false) c c₁ m) (ih : Agrees (.expression false) c c₁ m)
    (separated : Scan.separator (some closing) refusal c₁ = .ok sep c₂)
    (ih' : Agrees (.items (some closing)) c₂ c₃ m') :
    Agrees (.items (some closing)) c c₃ (m.or m') := by
  intro closes stays
  refine or (fun d => ?_) closes separated (ih' closes (Scan.blanks_of_separator separated))
  rw [first.skips_iff_of_value closes stays fun x =>
    Scan.not_isQuotation_of_separator closes separated]
  simp only [ih (by simp)]

theorem bare {refusal : Option ColonRefusal} {sep : Separator}
    (first : Outline (.expression true) c c₁ m) (ih : Agrees (.expression true) c c₁ m)
    (separated : Scan.separator (some closing) refusal c₁ = .ok sep c₂) (noColon : sep ≠ .colon)
    (ih' : Agrees (.entries (some closing)) c₂ c₃ m') :
    Agrees (.entries (some closing)) c c₃ (m.or m') := by
  intro closes stays
  have hkey : ∀ e value, ¬c.KeyAtColon e value := by
    rcases first.keyAtColon_or with hkey | ⟨_, value, hkey⟩
    · exact hkey
    · exact absurd (Scan.eq_colon_of_separator closes hkey.next_eq.1 separated).1 noColon
  refine or (fun d => ?_) closes separated (ih' closes (Scan.blanks_of_separator separated))
  rw [first.skips_iff_of_key closes stays]
  simp only [ih fun _ => hkey]

/-- A misread value decides where the end of the listing is found. -/
theorem misread_value {quotation : Char} {l value : List Char} {sep : Separator}
    {refusal : Option ColonRefusal} (first : Outline (.expression true) c c₁ m)
    (key : c.KeyAtColon c₁ value) (opens : Literal.rawQuotation? c₁.next.rest = some quotation)
    (literal : Scan.raw quotation c₁.next = .ok l c₃)
    (closes : ClosesListing closing) (stays : Scan.blanks c = .ok false c)
    (separated : Scan.separator (some closing) refusal c₃ = .ok sep c₄)
    (ih'' : ∀ d, Skips (some closing) c₄ d ↔ SkipEnds (m''.map (·.inside closing)) c₅ d)
    (d : Cursor) : Skips (some closing) c d ↔
      SkipEnds ((c.misreadValue?.or m'').map (·.inside closing)) c₅ d := by
  obtain ⟨rest, hbody, _⟩ := Scan.raw_eq_ok.1 literal
  have hskip := Skips.next_iff_of_raw opens literal
  rw [key.next_eq.2.1] at opens
  rw [first.skips_iff_of_raw_after key opens closes stays, key.misreadValue?_of_raw opens hbody]
  cases hl : Literal.endsInEscape l with
  | true =>
    simp [SkipEnds, Misread.inside, Unwinds.singleton_iff]
  | false =>
    simp only [(hskip.2 hl).iff_eq, exists_eq_left, Bool.false_eq_true, if_false, Option.none_or]
    exact (Skips.separator_iff closes separated).trans (ih'' d)

theorem pair {refusal refusal' : Option ColonRefusal} {sep : Separator}
    (first : Outline (.expression true) c c₁ m) (ih : Agrees (.expression true) c c₁ m)
    (colon : Scan.separator (some closing) refusal c₁ = .ok .colon c₂)
    (second : Outline (.expression false) c₂ c₃ m') (ih' : Agrees (.expression false) c₂ c₃ m')
    (separated : Scan.separator (some closing) refusal' c₃ = .ok sep c₄)
    (ih'' : Agrees (.entries (some closing)) c₄ c₅ m'') :
    Agrees (.entries (some closing)) c c₅ (m.or (c.misreadValue?.or (m'.or m''))) := by
  intro closes stays
  have stays₂ := Scan.blanks_of_separator colon
  have hmore := ih'' closes (Scan.blanks_of_separator separated)
  have after : ∀ x, c₃.peek? = some x → ¬Literal.isQuotation x := fun x =>
    Scan.not_isQuotation_of_separator closes separated
  have hvalue : ∀ d, Skips (some closing) c₂ d ↔
      SkipEnds ((m'.or m'').map (·.inside closing)) c₅.next d := by
    refine or (fun d => ?_) closes separated hmore
    rw [second.skips_iff_of_value closes stays₂ after]
    simp only [ih' (by simp)]
  -- Without a colon directly after it, the key is an expression like any other.
  rcases first.keyAtColon_or with hkey | ⟨rfl, value, hkey⟩
  · rw [Cursor.misreadValue?_eq_none hkey, Option.none_or]
    refine or (fun d => ?_) closes colon hvalue
    rw [first.skips_iff_of_key closes stays]
    simp only [ih fun _ => hkey]
  · rw [Option.none_or]
    obtain ⟨hpeek, hrest, hbefore⟩ := hkey.next_eq
    obtain ⟨_, broken, blanks⟩ := Scan.eq_colon_of_separator closes hpeek colon
    -- Behind the colon only a raw literal is skipped in another way than it is read.
    cases opens : Literal.rawQuotation? value with
    | none =>
      intro d
      rw [hkey.misreadValue?_of_noRaw opens, Option.none_or,
        first.skips_iff_of_value_after hkey blanks second opens closes stays after,
        Skips.blanks_iff blanks]
      exact hvalue d
    | some quotation =>
      rw [← hrest] at opens
      have hr : c₁.next.peek? = some 'r' := by
        obtain ⟨tail, htail, _⟩ := Literal.rawQuotation?_eq_some.1 opens
        simp [Cursor.peek?, htail]
      obtain rfl := Scan.blanks_unique blanks (Scan.blanks_of_colon hbefore hr (by decide))
      obtain ⟨rfl, l, literal⟩ := second.eq_none_of_raw opens
      rw [Option.none_or]
      exact misread_value first hkey opens literal closes stays separated hmore

end Agrees

/-- What is outlined is skipped to the same place, up to its first misread value. -/
theorem Outline.agrees {shape : Shape} {c c' : Cursor} {m : Option Misread}
    (h : Outline shape c c' m) : Agrees shape c c' m := by
  -- The end of a window closes no listing, so that nothing is to be shown of listings without one.
  induction h with
  | hash opens blanks _ ih => exact .listing opens rfl (.inl rfl) blanks ih
  | sequence opens blanks _ ih => exact .listing opens rfl (.inr (.inl rfl)) blanks ih
  | quoted opens isQuotation literal => exact .quoted opens isQuotation literal
  | raw opens literal => exact .raw opens literal
  | token noRaw split nonempty blanks noCall => exact .token noRaw split nonempty blanks noCall
  | call noRaw split nonempty blanks opens blanks' _ ih =>
    exact .call noRaw split nonempty blanks opens blanks' ih
  | @noItems closing _ closes | @noEntries closing _ closes =>
    cases closing with
    | none => trivial
    | some closing => exact fun _ stays d => Skips.ends_iff stays closes
  | @item closing _ _ _ _ _ _ _ _ first separated _ ih ih' =>
    cases closing with
    | none => trivial
    | some closing => exact .item first ih separated ih'
  | @pair closing _ _ _ _ _ _ _ _ _ _ _ first colon second separated _ ih ih' ih'' =>
    cases closing with
    | none => trivial
    | some closing => exact .pair first ih colon second ih' separated ih''
  | @bare closing _ _ _ _ _ _ _ _ first separated noColon _ ih ih' =>
    cases closing with
    | none => trivial
    | some closing => exact .bare first ih separated noColon ih'

/-- Whether skipping on from a misread value comes back to a place. -/
def Misread.Recovers (m : Misread) (c' : Cursor) : Prop :=
  ∃ e, Scan.extent m.place = .ok () e ∧ Unwinds m.closings e c'

open Evaluation in
/-- An expression that is evaluated while the environment answers nothing is skipped to the same
place, exactly if skipping comes back there after the first value that it misreads, or misreads
none. -/
theorem extent_of_expression {σ : Type} {setting : Setting σ}
    (hsilent : setting.environment.IsSilent) {bound : Nat} {forced : Bool} {s t : State σ}
    {v : Value} (h : expression setting bound forced false s = .ok v t) :
    Scan.extent s.cursor = .ok () t.cursor ↔
      ∀ m, Outline (.expression false) s.cursor t.cursor (some m) → m.Recovers t.cursor := by
  have hfollows : FollowsReading setting (fun _ _ => True) bound :=
    followsReading hsilent (fun _ _ _ _ _ => trivial) bound
  obtain ⟨hreads, _⟩ := hfollows.expression h
  obtain ⟨m, houtline⟩ := hreads.exists_outline
  rw [extent_eq_ok]
  constructor
  · intro hskips m hm
    simpa only [Misread.Recovers, SkipEnds, extent_eq_ok] using
      (hm.agrees (by simp) t.cursor).1 hskips
  · intro hrecovers
    refine (houtline.agrees (by simp) t.cursor).2 ?_
    cases m with
    | none => rfl
    | some m => simpa only [Misread.Recovers, SkipEnds, extent_eq_ok] using hrecovers m houtline

/-- An entry whose value is misread at the start of a text, which is a hash with nothing else. -/
def escapedEntry : Cursor :=
  .ofText ['{', 'a', ':', 'r', Text.quotationMark, Text.backslash, Text.quotationMark, '}']

open Evaluation in
/-- The hash is evaluated, and skipping it finds no end of the literal. -/
theorem extent_escapedEntry :
    expression ⟨⟨"\x7ba:r\"\\\"\x7d", none⟩, .unresolving⟩ 8 false false ⟨escapedEntry, [], ()⟩ =
        .ok (.hash [("a", .string "\\")]) ⟨escapedEntry.pass escapedEntry.rest [], [], ()⟩ ∧
      Scan.extent escapedEntry ≠ .ok () (escapedEntry.pass escapedEntry.rest []) := by
  refine ⟨by cbv, ?_⟩
  rw [show Scan.extent escapedEntry = .error ⟨.unclosedString Text.quotationMark, 4⟩ _ from rfl]
  simp

/-- The same entry before one whose literal has a quotation in it. -/
def recoveredEntries : Cursor :=
  .ofText ['{', 'a', ':', 'r', Text.quotationMark, Text.backslash, Text.quotationMark, ',', 'b',
    ':', Text.quotationMark, Text.backslash, Text.quotationMark, Text.quotationMark, '}']

open Evaluation in
/-- Here skipping comes back to the end of the hash, by chance. -/
theorem recovers_recoveredEntries :
    expression ⟨⟨"\x7ba:r\"\\\",b:\"\\\"\"\x7d", none⟩, .unresolving⟩ 11 false false
          ⟨recoveredEntries, [], ()⟩ =
        .ok (.hash [("a", .string "\\"), ("b", .string "\"")])
          ⟨recoveredEntries.pass recoveredEntries.rest [], [], ()⟩ ∧
      ∀ m, Outline (.expression false) recoveredEntries
        (recoveredEntries.pass recoveredEntries.rest []) (some m) →
        m.Recovers (recoveredEntries.pass recoveredEntries.rest []) := by
  have hrun : expression ⟨⟨"\x7ba:r\"\\\",b:\"\\\"\"\x7d", none⟩, .unresolving⟩ 11 false false
          ⟨recoveredEntries, [], ()⟩ =
        .ok (.hash [("a", .string "\\"), ("b", .string "\"")])
          ⟨recoveredEntries.pass recoveredEntries.rest [], [], ()⟩ := by cbv
  exact ⟨hrun, (extent_of_expression Environment.unresolving_isSilent hrun).1 rfl⟩

end TextualData
