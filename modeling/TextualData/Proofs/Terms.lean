import TextualData.Proofs.Blanks
import TextualData.Proofs.Skipping
import TextualData.Proofs.WholeTexts

/-!
# Terms

A `Term` is what a text denotes before its tokens are classified. `Denotes` is the notation of
terms: it is `Reads` without environment, for evaluation with and without forcing at once. The value
of a token stays open in a term (`Term.value` gives it), and a stored flag differs from the token
`true`. A hash in the place of a key is read without forcing whatever is asked for, so a token that
is a value in it is loose.
-/

namespace TextualData

/-- The value is no collection and no call. -/
def Value.HasNoParts (v : Value) : Prop :=
  (∀ vs, v ≠ .sequence vs) ∧ (∀ h, v ≠ .hash h) ∧ ∀ name vs, v ≠ .call name vs

namespace Token

/-- A token that means a string means itself. -/
theorem classify_of_string {l : List Char} {s : String} (h : classify l = .string s) :
    classify l = .string (String.ofList l) := by
  obtain hl | ⟨_, hl⟩ | ⟨_, hl⟩ | ⟨_, hl⟩ := classify_cases l
  · exact hl
  all_goals simp [hl] at h

/-- A token means nothing that has parts. -/
theorem hasNoParts_tokenValue (forced inKey : Bool) (l : List Char) :
    (tokenValue forced inKey l).HasNoParts := by
  unfold tokenValue Value.HasNoParts
  split
  · simp
  · obtain h | ⟨_, h⟩ | ⟨_, h⟩ | ⟨_, h⟩ := classify_cases l <;> simp [h]

end Token

/-- What a text denotes before its tokens are classified. -/
inductive Term where
  /-- A literal in quotation marks, or a token as a key. -/
  | literal (s : String)
  /-- A token outside of keys, which is loose inside of a hash in the place of a key. -/
  | token (loose : Bool) (l : List Char)
  /-- What is stored for a key that was given without a value. -/
  | flag
  | sequence (items : List Term)
  | hash (entries : List (String × Term))
  | call (name : String) (params : List Term)

namespace Term

variable {forced : Bool}

mutual

/-- The value of a term, with its tokens forced to be strings unless they are loose, or not. -/
def value (forced : Bool) : Term → Value
  | literal s => .string s
  | token loose l => tokenValue (forced && !loose) false l
  | flag => .boolean true
  | sequence items => .sequence (values forced items)
  | hash entries => .hash (entryValues forced entries)
  | call name params => .call name (values forced params)

/-- The values of terms. -/
def values (forced : Bool) : List Term → List Value
  | [] => []
  | t :: ts => t.value forced :: values forced ts

/-- The values of terms under keys. -/
def entryValues (forced : Bool) : List (String × Term) → Hash
  | [] => []
  | (key, t) :: es => (key, t.value forced) :: entryValues forced es

end

theorem entryValues_insert (es : Entries Term) (key : String) (t : Term) :
    entryValues forced (es.insert key t) = (entryValues forced es).insert key (t.value forced) := by
  induction es with
  | nil => rfl
  | cons e es ih =>
    obtain ⟨k, u⟩ := e
    simp only [Entries.insert, entryValues]
    by_cases hk : k = key
    · rw [if_pos hk, if_pos hk, entryValues]
    · rw [if_neg hk, if_neg hk, entryValues, ih]

theorem entryValues_merge (es more : Entries Term) :
    entryValues forced (es.merge more) =
      (entryValues forced es).merge (entryValues forced more) := by
  induction more generalizing es with
  | nil => rfl
  | cons e more ih =>
    obtain ⟨key, t⟩ := e
    show entryValues forced ((es.insert key t).merge more) = _
    rw [ih, entryValues_insert]
    rfl

end Term

/-- A phrase of the notation with the terms it denotes. -/
inductive Part where
  | value (loose inKey : Bool) (t : Term)
  | items (closing : Option Char) (loose : Bool) (ts : List Term)
  | entries (closing : Option Char) (loose : Bool) (old new : Entries Term)

/-- The part stands between two places of a window. -/
inductive Denotes : Part → Cursor → Cursor → Prop where
  | hash {loose inKey : Bool} {es : Entries Term} {broken : Bool} {c c₁ c₂ : Cursor}
      (opens : c.peek? = some '{') (blanks : Scan.blanks c.next = .ok broken c₁)
      (inner : Denotes (.entries (some '}') loose [] es) c₁ c₂) :
      Denotes (.value loose inKey (.hash es)) c c₂.next
  | sequence {loose inKey : Bool} {ts : List Term} {broken : Bool} {c c₁ c₂ : Cursor}
      (opens : c.peek? = some '[') (blanks : Scan.blanks c.next = .ok broken c₁)
      (inner : Denotes (.items (some ']') loose ts) c₁ c₂) :
      Denotes (.value loose inKey (.sequence ts)) c c₂.next
  | quoted {loose inKey : Bool} {quotation : Char} {l : List Char} {c c₁ : Cursor}
      (opens : c.peek? = some quotation) (isQuotation : Literal.isQuotation quotation)
      (literal : Scan.quoted quotation c = .ok l c₁) :
      Denotes (.value loose inKey (.literal (String.ofList l))) c c₁
  | raw {loose inKey : Bool} {quotation : Char} {l : List Char} {c c₁ : Cursor}
      (opens : Literal.rawQuotation? c.rest = some quotation)
      (literal : Scan.raw quotation c = .ok l c₁) :
      Denotes (.value loose inKey (.literal (String.ofList l))) c c₁
  | token {loose : Bool} {l rest : List Char} {broken : Bool} {c c₁ : Cursor}
      (noRaw : Literal.rawQuotation? c.rest = none) (split : Token.split false c.rest = (l, rest))
      (nonempty : l ≠ []) (blanks : Scan.blanks (c.pass l rest) = .ok broken c₁)
      (noCall : c₁.peek? ≠ some '(') :
      Denotes (.value loose false (.token loose l)) c (c.pass l rest)
  | keyToken {loose : Bool} {l rest : List Char} {broken : Bool} {c c₁ : Cursor}
      (noRaw : Literal.rawQuotation? c.rest = none) (split : Token.split true c.rest = (l, rest))
      (nonempty : l ≠ []) (blanks : Scan.blanks (c.pass l rest) = .ok broken c₁)
      (noCall : c₁.peek? ≠ some '(') :
      Denotes (.value loose true (.literal (String.ofList l))) c (c.pass l rest)
  | call {loose inKey : Bool} {ts : List Term} {l rest : List Char} {broken broken' : Bool}
      {c c₁ c₂ c₃ : Cursor}
      (noRaw : Literal.rawQuotation? c.rest = none) (split : Token.split inKey c.rest = (l, rest))
      (nonempty : l ≠ []) (blanks : Scan.blanks (c.pass l rest) = .ok broken c₁)
      (opens : c₁.peek? = some '(') (blanks' : Scan.blanks c₁.next = .ok broken' c₂)
      (inner : Denotes (.items (some ')') loose ts) c₂ c₃) :
      Denotes (.value loose inKey (.call (String.ofList l) ts)) c c₃.next
  | noItems {closing : Option Char} {loose : Bool} {c : Cursor} (closes : c.peek? = closing) :
      Denotes (.items closing loose []) c c
  | item {closing : Option Char} {loose : Bool} {t : Term} {ts : List Term}
      {separator : Separator} {c c₁ c₂ c₃ : Cursor} (begins : c.BeginsItem closing)
      (first : Denotes (.value loose false t) c c₁)
      (separated : Scan.separator closing (some .inList) c₁ = .ok separator c₂)
      (more : Denotes (.items closing loose ts) c₂ c₃) :
      Denotes (.items closing loose (t :: ts)) c c₃
  | noEntries {closing : Option Char} {loose : Bool} {es : Entries Term} {c : Cursor}
      (closes : c.peek? = closing) : Denotes (.entries closing loose es es) c c
  | pair {closing : Option Char} {loose : Bool} {old new : Entries Term} {name : String} {t : Term}
      {separator : Separator} {c c₁ c₂ c₃ c₄ c₅ : Cursor} (begins : c.BeginsItem closing)
      (first : Denotes (.value true true (.literal name)) c c₁)
      (colon : Scan.separator closing none c₁ = .ok .colon c₂) (hasValue : c₂.rest ≠ [])
      (second : Denotes (.value loose false t) c₂ c₃)
      (separated : Scan.separator closing (some .valueGiven) c₃ = .ok separator c₄)
      (more : Denotes (.entries closing loose (old.insert name t) new) c₄ c₅) :
      Denotes (.entries closing loose old new) c c₅
  | flag {closing : Option Char} {loose : Bool} {old new : Entries Term} {name : String}
      {separator : Separator} {c c₁ c₂ c₃ : Cursor} (begins : c.BeginsItem closing)
      (first : Denotes (.value true true (.literal name)) c c₁)
      (separated : Scan.separator closing none c₁ = .ok separator c₂) (noColon : separator ≠ .colon)
      (more : Denotes (.entries closing loose (old.insert name .flag) new) c₂ c₃) :
      Denotes (.entries closing loose old new) c c₃
  /-- What is loose in the hash is so in the entries that are taken over. -/
  | merge {closing : Option Char} {loose : Bool} {old new es : Entries Term}
      {separator : Separator} {c c₁ c₂ c₃ : Cursor} (begins : c.BeginsItem closing)
      (first : Denotes (.value true true (.hash es)) c c₁)
      (separated : Scan.separator closing none c₁ = .ok separator c₂) (noColon : separator ≠ .colon)
      (more : Denotes (.entries closing loose (old.merge es) new) c₂ c₃) :
      Denotes (.entries closing loose old new) c c₃

/-- What the part reads as. -/
def Part.phrase (forced : Bool) : Part → Phrase
  | value loose inKey t => .value (forced && !loose) inKey (t.value forced)
  | items closing loose ts => .items closing (forced && !loose) (Term.values forced ts)
  | entries closing loose old new =>
    .entries closing (forced && !loose) (Term.entryValues forced old) (Term.entryValues forced new)

/-- A string is denoted by a literal, or outside of keys by a token. -/
theorem Denotes.of_string {loose inKey forced : Bool} {t : Term} {s : String} {c c' : Cursor}
    (h : Denotes (.value loose inKey t) c c') (hvalue : t.value forced = .string s) :
    t = .literal s ∨ inKey = false ∧ Literal.rawQuotation? c.rest = none ∧
      ∃ l rest, Token.split false c.rest = (l, rest) ∧ l ≠ [] := by
  cases h with
  | quoted | raw | keyToken =>
    simp only [Term.value, Value.string.injEq] at hvalue
    exact .inl (congrArg Term.literal hvalue)
  | token noRaw split nonempty => exact .inr ⟨rfl, noRaw, _, _, split, nonempty⟩
  | hash | sequence | call => simp [Term.value] at hvalue

/-- A string in the place of a key is a literal. -/
theorem Denotes.eq_literal {loose forced : Bool} {t : Term} {name : String} {c c' : Cursor}
    (h : Denotes (.value loose true t) c c') (hvalue : t.value forced = .string name) :
    t = .literal name :=
  (h.of_string hvalue).resolve_right (by simp)

/-- A hash in the place of a key is the hash of its entries. -/
theorem Denotes.eq_hash {loose forced : Bool} {t : Term} {h : Hash} {c c' : Cursor}
    (hd : Denotes (.value loose true t) c c') (hvalue : t.value forced = .hash h) :
    ∃ es, t = .hash es ∧ Term.entryValues forced es = h := by
  cases hd with
  | hash =>
    simp only [Term.value, Value.hash.injEq] at hvalue
    exact ⟨_, rfl, hvalue⟩
  | quoted | raw | keyToken | sequence | call => simp [Term.value] at hvalue

/-- Where calls give themselves back, a key stands for itself. -/
theorem KeyMeans.eq_of_unresolved {key v : Value} {fromCall : Bool}
    (h : KeyMeans Unresolved key v fromCall) : key = v := by
  cases h with
  | call h => exact h.symm
  | plain => rfl

/-- What is denoted is read, with or without forcing. -/
theorem Denotes.reads {part : Part} {c c' : Cursor} (h : Denotes part c c') (forced : Bool) :
    Reads Unresolved (part.phrase forced) c c' := by
  induction h with
  | hash opens blanks _ ih => exact .hash opens blanks ih
  | sequence opens blanks _ ih => exact .sequence opens blanks ih
  | quoted opens isQuotation literal => exact .quoted opens isQuotation literal
  | raw opens literal => exact .raw opens literal
  | token noRaw split nonempty blanks noCall =>
    exact .token noRaw split nonempty blanks noCall
  | @keyToken loose l _ _ _ _ noRaw split nonempty blanks noCall =>
    have h : Reads Unresolved (.value _ true (tokenValue (forced && !loose) true l)) _ _ :=
      .token noRaw split nonempty blanks noCall
    rwa [tokenValue, Bool.or_true, if_pos rfl] at h
  | @call loose inKey _ _ _ _ _ _ _ _ _ noRaw split nonempty blanks opens blanks' _ ih =>
    cases inKey with
    | false => exact .call noRaw split nonempty blanks opens blanks' ih rfl
    | true => exact .keyCall noRaw split nonempty blanks opens blanks' ih
  | noItems closes => exact .noItems closes
  | item begins _ separated _ ih ih' => exact .item begins ih separated ih'
  | noEntries closes => exact .noEntries closes
  | pair begins _ colon hasValue _ separated _ ih ih' ih'' =>
    simp only [Part.phrase, Term.entryValues_insert, Bool.not_true, Bool.and_false] at ih ih''
    exact .pair begins ih (.plain (by simp [Term.value])) colon hasValue ih' separated ih''
  | flag begins _ separated noColon _ ih ih' =>
    simp only [Part.phrase, Term.entryValues_insert, Bool.not_true, Bool.and_false] at ih ih'
    exact .flag begins ih separated noColon ih'
  | merge begins _ separated noColon _ ih ih' =>
    simp only [Part.phrase, Term.entryValues_merge, Bool.not_true, Bool.and_false] at ih ih'
    exact .merge begins ih (.plain (by simp [Term.value])) separated noColon ih'

/-- The part is the only one of its kind at a place, and ends in the other. -/
def Part.IsOnly (c c' : Cursor) : Part → Prop
  | value loose inKey t =>
    ∀ u d, Denotes (.value loose inKey u) c d → u = t ∧ d = c'
  | items closing loose ts =>
    ∀ us d, Denotes (.items closing loose us) c d → us = ts ∧ d = c'
  | entries closing loose old new =>
    ∀ other d, Denotes (.entries closing loose old other) c d → other = new ∧ d = c'

/-- Two terms at one place have the same value and end in one place. -/
theorem Denotes.value_eq {loose inKey : Bool} {t u : Term} {c c' d : Cursor}
    (h : Denotes (.value loose inKey t) c c') (h' : Denotes (.value loose inKey u) c d) :
    t.value true = u.value true ∧ c' = d :=
  (h.reads true).unique (h'.reads true)

namespace Part.IsOnly

variable {closing : Option Char} {loose inKey : Bool} {t : Term} {ts : List Term}
  {old new es : Entries Term} {name : String} {l rest : List Char} {separator : Separator}
  {broken broken' : Bool} {c c₁ c₂ c₃ c₄ c₅ : Cursor}

/-- The hash at an opening brace. -/
theorem hash (h : Denotes (.value loose inKey (.hash es)) c c₂.next)
    (blanks : Scan.blanks c.next = .ok broken c₁)
    (inner : (entries (some '}') loose [] es).IsOnly c₁ c₂) :
    (value loose inKey (.hash es)).IsOnly c c₂.next := by
  intro u d h'
  obtain ⟨hv, -⟩ := h.value_eq h'
  cases h' with
  | hash _ blanks' inner' =>
    obtain rfl := Scan.blanks_unique blanks blanks'
    obtain ⟨rfl, rfl⟩ := inner _ _ inner'
    exact ⟨rfl, rfl⟩
  | token => exact absurd hv.symm ((Token.hasNoParts_tokenValue _ _ _).2.1 _)
  | _ => simp [Term.value] at hv

/-- The sequence at an opening bracket. -/
theorem sequence (h : Denotes (.value loose inKey (.sequence ts)) c c₂.next)
    (blanks : Scan.blanks c.next = .ok broken c₁)
    (inner : (items (some ']') loose ts).IsOnly c₁ c₂) :
    (value loose inKey (.sequence ts)).IsOnly c c₂.next := by
  intro u d h'
  obtain ⟨hv, -⟩ := h.value_eq h'
  cases h' with
  | sequence _ blanks' inner' =>
    obtain rfl := Scan.blanks_unique blanks blanks'
    obtain ⟨rfl, rfl⟩ := inner _ _ inner'
    exact ⟨rfl, rfl⟩
  | token => exact absurd hv.symm ((Token.hasNoParts_tokenValue _ _ _).1 _)
  | _ => simp [Term.value] at hv

/-- The token at a place without quotation marks. -/
theorem token (h : Denotes (.value loose false (.token loose l)) c c₁)
    (noRaw : Literal.rawQuotation? c.rest = none) (split : Token.split false c.rest = (l, rest))
    (nonempty : l ≠ []) : (value loose false (.token loose l)).IsOnly c c₁ := by
  intro u d h'
  obtain ⟨hv, hd⟩ := h.value_eq h'
  cases h' with
  | token _ split' =>
    obtain ⟨rfl, -⟩ := Prod.mk.inj (split.symm.trans split')
    exact ⟨rfl, hd.symm⟩
  | quoted opens isQuotation =>
    exact absurd isQuotation (Token.not_isQuotation_of_split split nonempty opens)
  | raw opens => simp [noRaw] at opens
  | hash => exact absurd hv ((Token.hasNoParts_tokenValue _ _ _).2.1 _)
  | sequence => exact absurd hv ((Token.hasNoParts_tokenValue _ _ _).1 _)
  | call => exact absurd hv ((Token.hasNoParts_tokenValue _ _ _).2.2 _ _)

/-- The call of a name. -/
theorem call (h : Denotes (.value loose inKey (.call (String.ofList l) ts)) c c₃.next)
    (split : Token.split inKey c.rest = (l, rest))
    (blanks : Scan.blanks (c.pass l rest) = .ok broken c₁)
    (blanks' : Scan.blanks c₁.next = .ok broken' c₂)
    (inner : (items (some ')') loose ts).IsOnly c₂ c₃) :
    (value loose inKey (.call (String.ofList l) ts)).IsOnly c c₃.next := by
  intro u d h'
  obtain ⟨hv, -⟩ := h.value_eq h'
  cases h' with
  | call _ split' _ hblanks _ hblanks' inner' =>
    obtain ⟨rfl, rfl⟩ := Prod.mk.inj (split.symm.trans split')
    obtain rfl := Scan.blanks_unique blanks hblanks
    obtain rfl := Scan.blanks_unique blanks' hblanks'
    obtain ⟨rfl, rfl⟩ := inner _ _ inner'
    exact ⟨rfl, rfl⟩
  | token => exact absurd hv.symm ((Token.hasNoParts_tokenValue _ _ _).2.2 _ _)
  | _ => simp [Term.value] at hv

/-- An item with those after it. -/
theorem item (begins : c.BeginsItem closing) (first : (value loose false t).IsOnly c c₁)
    (separated : Scan.separator closing (some .inList) c₁ = .ok separator c₂)
    (more : (items closing loose ts).IsOnly c₂ c₃) :
    (items closing loose (t :: ts)).IsOnly c c₃ := by
  intro us d h'
  cases h' with
  | noItems closes => exact absurd closes begins.peek?_ne
  | item _ first' separated' more' =>
    obtain ⟨rfl, rfl⟩ := first _ _ first'
    obtain ⟨rfl, rfl⟩ := EStateM.Result.ok.inj (separated.symm.trans separated')
    obtain ⟨rfl, rfl⟩ := more _ _ more'
    exact ⟨rfl, rfl⟩

/-- A key with its value and the entries after them. -/
theorem pair (begins : c.BeginsItem closing) (first : (value true true (.literal name)).IsOnly c c₁)
    (colon : Scan.separator closing none c₁ = .ok .colon c₂)
    (second : (value loose false t).IsOnly c₂ c₃)
    (separated : Scan.separator closing (some .valueGiven) c₃ = .ok separator c₄)
    (more : (entries closing loose (old.insert name t) new).IsOnly c₄ c₅) :
    (entries closing loose old new).IsOnly c c₅ := by
  intro other d h'
  cases h' with
  | noEntries closes => exact absurd closes begins.peek?_ne
  | pair _ first' colon' _ second' separated' more' =>
    obtain ⟨hname, rfl⟩ := first _ _ first'
    obtain rfl := Term.literal.inj hname
    obtain ⟨-, rfl⟩ := EStateM.Result.ok.inj (colon.symm.trans colon')
    obtain ⟨rfl, rfl⟩ := second _ _ second'
    obtain ⟨-, rfl⟩ := EStateM.Result.ok.inj (separated.symm.trans separated')
    exact more _ _ more'
  | flag _ first' separated' noColon' | merge _ first' separated' noColon' =>
    obtain ⟨-, rfl⟩ := first _ _ first'
    exact absurd (EStateM.Result.ok.inj (colon.symm.trans separated')).1.symm noColon'

/-- A key on its own and the entries after it. -/
theorem flag (begins : c.BeginsItem closing) (first : (value true true (.literal name)).IsOnly c c₁)
    (separated : Scan.separator closing none c₁ = .ok separator c₂) (noColon : separator ≠ .colon)
    (more : (entries closing loose (old.insert name .flag) new).IsOnly c₂ c₃) :
    (entries closing loose old new).IsOnly c c₃ := by
  intro other d h'
  cases h' with
  | noEntries closes => exact absurd closes begins.peek?_ne
  | pair _ first' colon' =>
    obtain ⟨-, rfl⟩ := first _ _ first'
    exact absurd (EStateM.Result.ok.inj (separated.symm.trans colon')).1 noColon
  | flag _ first' separated' _ more' =>
    obtain ⟨hname, rfl⟩ := first _ _ first'
    obtain rfl := Term.literal.inj hname
    obtain ⟨-, rfl⟩ := EStateM.Result.ok.inj (separated.symm.trans separated')
    exact more _ _ more'
  | merge _ first' => exact absurd (first _ _ first').1 (by simp)

/-- A hash that is taken over and the entries after it. -/
theorem merge (begins : c.BeginsItem closing) (first : (value true true (.hash es)).IsOnly c c₁)
    (separated : Scan.separator closing none c₁ = .ok separator c₂)
    (more : (entries closing loose (old.merge es) new).IsOnly c₂ c₃) :
    (entries closing loose old new).IsOnly c c₃ := by
  intro other d h'
  cases h' with
  | noEntries closes => exact absurd closes begins.peek?_ne
  | pair _ first' | flag _ first' => exact absurd (first _ _ first').1 (by simp)
  | merge _ first' separated' _ more' =>
    obtain ⟨hhash, rfl⟩ := first _ _ first'
    obtain rfl := Term.hash.inj hhash
    obtain ⟨-, rfl⟩ := EStateM.Result.ok.inj (separated.symm.trans separated')
    exact more _ _ more'

end Part.IsOnly

/-- What is denoted at a place, and where it ends, is determined. -/
theorem Denotes.isOnly {part : Part} {c c' : Cursor} (h : Denotes part c c') :
    part.IsOnly c c' := by
  -- Two terms at one place have the same value, so that they are of the same form.
  induction h with
  | hash opens blanks inner ih => exact .hash (.hash opens blanks inner) blanks ih
  | sequence opens blanks inner ih => exact .sequence (.sequence opens blanks inner) blanks ih
  | quoted opens isQuotation literal =>
    intro u d h'
    obtain ⟨hv, rfl⟩ := Denotes.value_eq (.quoted opens isQuotation literal) h'
    obtain rfl | ⟨-, -, _, _, split, nonempty⟩ := h'.of_string hv.symm
    · exact ⟨rfl, rfl⟩
    · exact absurd isQuotation (Token.not_isQuotation_of_split split nonempty opens)
  | raw opens literal =>
    intro u d h'
    obtain ⟨hv, rfl⟩ := Denotes.value_eq (.raw opens literal) h'
    obtain rfl | ⟨-, noRaw, -⟩ := h'.of_string hv.symm
    · exact ⟨rfl, rfl⟩
    · simp [noRaw] at opens
  | token noRaw split nonempty blanks noCall =>
    exact .token (.token noRaw split nonempty blanks noCall) noRaw split nonempty
  | keyToken noRaw split nonempty blanks noCall =>
    intro u d h'
    obtain ⟨hv, hd⟩ := Denotes.value_eq (.keyToken noRaw split nonempty blanks noCall) h'
    exact ⟨h'.eq_literal hv.symm, hd.symm⟩
  | call noRaw split nonempty blanks opens blanks' inner ih =>
    exact .call (.call noRaw split nonempty blanks opens blanks' inner) split blanks blanks' ih
  | noItems closes =>
    intro us d h'
    cases h' with
    | noItems => exact ⟨rfl, rfl⟩
    | item begins => exact absurd closes begins.peek?_ne
  | item begins _ separated _ ih ih' => exact .item begins ih separated ih'
  | noEntries closes =>
    intro other d h'
    cases h' with
    | noEntries => exact ⟨rfl, rfl⟩
    | pair begins | flag begins | merge begins => exact absurd closes begins.peek?_ne
  | pair begins _ colon _ _ separated _ ih ih' ih'' =>
    exact .pair begins ih colon ih' separated ih''
  | flag begins _ separated noColon _ ih ih' => exact .flag begins ih separated noColon ih'
  | merge begins _ separated _ _ ih ih' => exact .merge begins ih separated ih'

/-- Some part that reads as the phrase stands between two places: wherever forcing and looseness
come to what the phrase was read with. -/
def Phrase.HasTerm (outer loose : Bool) (c c' : Cursor) : Phrase → Prop
  | .value forced inKey v => forced = (outer && !loose) →
    ∃ t, Denotes (.value loose inKey t) c c' ∧ t.value outer = v
  | .items closing forced vs => forced = (outer && !loose) →
    ∃ ts, Denotes (.items closing loose ts) c c' ∧ Term.values outer ts = vs
  | .entries closing forced old new => forced = (outer && !loose) →
    ∀ es, Term.entryValues outer es = old →
      ∃ es', Denotes (.entries closing loose es es') c c' ∧ Term.entryValues outer es' = new

/-- What is read is denoted by some term. -/
theorem Reads.hasTerm {phrase : Phrase} {c c' : Cursor} (h : Reads Unresolved phrase c c')
    (outer loose : Bool) : phrase.HasTerm outer loose c c' := by
  -- In the place of a key nothing is forced, as if it were loose.
  induction h generalizing loose with
  | hash opens blanks _ ih =>
    rintro rfl
    obtain ⟨es, hes, rfl⟩ := ih loose rfl [] rfl
    exact ⟨.hash es, .hash opens blanks hes, rfl⟩
  | sequence opens blanks _ ih =>
    rintro rfl
    obtain ⟨ts, hts, rfl⟩ := ih loose rfl
    exact ⟨.sequence ts, .sequence opens blanks hts, rfl⟩
  | quoted opens isQuotation literal =>
    exact fun _ => ⟨_, .quoted opens isQuotation literal, rfl⟩
  | raw opens literal => exact fun _ => ⟨_, .raw opens literal, rfl⟩
  | @token forced inKey _ _ _ _ _ noRaw split nonempty blanks noCall =>
    rintro rfl
    cases inKey with
    | false => exact ⟨_, .token noRaw split nonempty blanks noCall, rfl⟩
    | true =>
      refine ⟨_, .keyToken noRaw split nonempty blanks noCall, ?_⟩
      rw [tokenValue, Bool.or_true, if_pos rfl]
      rfl
  | call noRaw split nonempty blanks opens blanks' _ result ih =>
    rintro rfl
    obtain ⟨ts, hts, rfl⟩ := ih loose rfl
    exact ⟨_, .call noRaw split nonempty blanks opens blanks' hts, result.symm⟩
  | keyCall noRaw split nonempty blanks opens blanks' _ ih =>
    rintro rfl
    obtain ⟨ts, hts, rfl⟩ := ih loose rfl
    exact ⟨_, .call noRaw split nonempty blanks opens blanks' hts, rfl⟩
  | noItems closes => exact fun _ => ⟨[], .noItems closes, rfl⟩
  | item begins _ separated _ ih ih' =>
    rintro rfl
    obtain ⟨t, ht, rfl⟩ := ih loose rfl
    obtain ⟨ts, hts, rfl⟩ := ih' loose rfl
    exact ⟨t :: ts, .item begins ht separated hts, rfl⟩
  | noEntries closes => exact fun _ es hes => ⟨es, .noEntries closes, hes⟩
  | pair begins _ means colon hasValue _ separated _ ih ih' ih'' =>
    rintro rfl es rfl
    obtain ⟨t, ht, rfl⟩ := ih' loose rfl
    obtain ⟨key, hkey, rfl⟩ := ih true (Bool.and_false outer).symm
    obtain rfl := hkey.eq_literal means.eq_of_unresolved
    obtain ⟨es', hes', rfl⟩ := ih'' loose rfl _ (Term.entryValues_insert es _ t)
    exact ⟨es', .pair begins hkey colon hasValue ht separated hes', rfl⟩
  | flag begins _ separated noColon _ ih ih' =>
    rintro rfl es rfl
    obtain ⟨key, hkey, hvalue⟩ := ih true (Bool.and_false outer).symm
    obtain rfl := hkey.eq_literal hvalue
    obtain ⟨es', hes', rfl⟩ := ih' loose rfl _ (Term.entryValues_insert es _ .flag)
    exact ⟨es', .flag begins hkey separated noColon hes', rfl⟩
  | merge begins _ means separated noColon _ ih ih' =>
    rintro rfl es rfl
    obtain ⟨key, hkey, rfl⟩ := ih true (Bool.and_false outer).symm
    obtain ⟨more, rfl, rfl⟩ := hkey.eq_hash means.eq_of_unresolved
    obtain ⟨es', hes', rfl⟩ := ih' loose rfl _ (Term.entryValues_merge es more)
    exact ⟨es', .merge begins hkey separated noColon hes', rfl⟩

end TextualData
