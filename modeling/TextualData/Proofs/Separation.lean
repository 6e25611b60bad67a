import TextualData.Proofs.Runs

/-!
# Separators between items

`SeparatorAt` lists what can stand after the blanks that follow an item, and
`separator_eq_ok` says that a scan of a separator finds exactly that. A closing bracket that is
one of the marks `+`, `:` and `,` would never be seen; no listing has one.
-/

namespace TextualData

/-- The brackets that close the listings inside an expression. -/
def ClosesListing (closing : Char) : Prop :=
  closing = '}' ∨ closing = ']' ∨ closing = ')'

/-- The separator at a place up to which blanks have been passed, and where it leads. -/
inductive SeparatorAt (closing : Option Char) (refusal : Option ColonRefusal) (broken : Bool)
    (c : Cursor) : Separator → Cursor → Prop where
  | closing (closes : c.peek? = closing)
      (noMark : closing ≠ some '+' ∧ closing ≠ some ':' ∧ closing ≠ some ',') :
      SeparatorAt closing refusal broken c .closing c
  /-- The window ends, and the listing does not. -/
  | unfinished (ends : c.peek? = none) (bracketed : closing ≠ none) :
      SeparatorAt closing refusal broken c .unfinished c
  | colon {broken' : Bool} {c' : Cursor} (mark : c.peek? = some ':') (allowed : refusal = none)
      (blanks : Scan.blanks c.next = .ok broken' c') :
      SeparatorAt closing refusal broken c .colon c'
  | comma {broken' : Bool} {c' : Cursor} (mark : c.peek? = some ',')
      (blanks : Scan.blanks c.next = .ok broken' c') :
      SeparatorAt closing refusal broken c .comma c'
  /-- A line break among the blanks, before anything that has no meaning between items. -/
  | lineBreak {x : Char} (next : c.peek? = some x) (goesOn : closing ≠ some x)
      (noMark : x ∉ ['+', ':', ',', ';', '=']) (isBroken : broken = true) :
      SeparatorAt closing refusal broken c .comma c

section
variable {closing : Option Char} {refusal : Option ColonRefusal} {broken : Bool}
  {start c c' : Cursor} {sep : Separator}

theorem separatorBefore_eq_ok {x : Char} :
    Scan.separatorBefore start broken x c = .ok sep c' ↔
      broken = true ∧ .comma = sep ∧ c = c' := by
  unfold Scan.separatorBefore
  cases broken with
  | true => simp [pure_eq_ok]
  | false =>
    simp only [Bool.false_eq_true, if_false, false_and, iff_false]
    intro h
    obtain ⟨_, _, _, h⟩ := bind_eq_ok.1 h
    split at h <;> exact Scan.refuse_ne_ok h

/-- What a scan makes of the character after the blanks, one test after the other. -/
def separatorOf (closing : Option Char) (refusal : Option ColonRefusal) (start : Cursor)
    (broken : Bool) : Option Char → Scan Separator
  | none => return if closing.isNone then .closing else .unfinished
  | some x =>
    if x = '+' then Scan.refuse .union
    else if x = ':' then
      match refusal with
      | some refusal => Scan.refuse (.colon refusal)
      | none => do
        Scan.next
        let _ ← Scan.blanks
        return .colon
    else if x = ',' then do
      Scan.next
      let _ ← Scan.blanks
      return .comma
    else if closing = some x then return .closing
    else if x = ';' then Scan.refuse .semicolon
    else if x = '=' then Scan.refuse .equalsSign
    else Scan.separatorBefore start broken x

theorem separator_eq (closing : Option Char) (refusal : Option ColonRefusal) :
    Scan.separator closing refusal = (do
      let start ← get
      let broken ← Scan.blanks
      separatorOf closing refusal start broken (← Scan.peek?)) := by
  unfold Scan.separator
  congr 1
  funext start
  congr 1
  funext broken
  congr 1
  funext x
  split
  · rfl
  · rfl
  · rfl
  · rfl
  · rfl
  · next _ x hplus hcomma hcolon hcolon' =>
    have hx : x ≠ ':' := by
      cases refusal with
      | none => exact hcolon' rfl
      | some refusal => exact hcolon refusal rfl
    have hplus : x ≠ '+' := hplus
    have hcomma : x ≠ ',' := hcomma
    simp only [separatorOf, if_neg hx, if_neg hplus, if_neg hcomma]

/-- A mark is passed with the blanks behind it. -/
private theorem passMark_eq_ok {mark : Separator} :
    (do
      Scan.next
      let _ ← Scan.blanks
      return mark : Scan Separator) c = .ok sep c' ↔
      sep = mark ∧ ∃ broken', Scan.blanks c.next = .ok broken' c' := by
  constructor
  · intro h
    rw [Scan.next_bind_run] at h
    obtain ⟨broken', _, hb, h⟩ := bind_eq_ok.1 h
    obtain ⟨rfl, rfl⟩ := pure_eq_ok.1 h
    exact ⟨rfl, broken', hb⟩
  · rintro ⟨rfl, broken', hb⟩
    rw [Scan.next_bind_run, bind_of_eq_ok hb]
    rfl

/-- The tests of a character tell which separator it begins; what is refused begins none. -/
private theorem SeparatorAt.of_separatorOf {x : Char} (hp : c.peek? = some x)
    (h : separatorOf closing refusal start broken (some x) c = .ok sep c') :
    SeparatorAt closing refusal broken c sep c' := by
  simp only [separatorOf] at h
  by_cases hplus : x = '+'
  · rw [if_pos hplus] at h
    exact absurd h Scan.refuse_ne_ok
  rw [if_neg hplus] at h
  by_cases hcolon : x = ':'
  · rw [if_pos hcolon] at h
    cases refusal with
    | some refusal => exact absurd h Scan.refuse_ne_ok
    | none =>
      obtain ⟨rfl, _, hb⟩ := passMark_eq_ok.1 h
      exact .colon (hcolon ▸ hp) rfl hb
  rw [if_neg hcolon] at h
  by_cases hcomma : x = ','
  · rw [if_pos hcomma] at h
    obtain ⟨rfl, _, hb⟩ := passMark_eq_ok.1 h
    exact .comma (hcomma ▸ hp) hb
  rw [if_neg hcomma] at h
  by_cases hcloses : closing = some x
  · rw [if_pos hcloses] at h
    obtain ⟨rfl, rfl⟩ := pure_eq_ok.1 h
    exact .closing (hp.trans hcloses.symm) (by simp [hcloses, hplus, hcolon, hcomma])
  rw [if_neg hcloses] at h
  by_cases hsemicolon : x = ';'
  · rw [if_pos hsemicolon] at h
    exact absurd h Scan.refuse_ne_ok
  rw [if_neg hsemicolon] at h
  by_cases hequals : x = '='
  · rw [if_pos hequals] at h
    exact absurd h Scan.refuse_ne_ok
  rw [if_neg hequals] at h
  obtain ⟨hbroken, rfl, rfl⟩ := separatorBefore_eq_ok.1 h
  exact .lineBreak hp hcloses (by simp [hplus, hcolon, hcomma, hsemicolon, hequals]) hbroken

/-- The tests let every separator through. -/
private theorem SeparatorAt.separatorOf_eq (h : SeparatorAt closing refusal broken c sep c') :
    separatorOf closing refusal start broken c.peek? c = .ok sep c' := by
  cases h with
  | closing closes noMark =>
    obtain ⟨hplus, hcolon, hcomma⟩ := noMark
    cases closing with
    | none => rw [closes]; rfl
    | some x =>
      simp only [ne_eq, Option.some.injEq] at hplus hcolon hcomma
      simp [closes, separatorOf, hplus, hcolon, hcomma, pure_eq_ok]
  | unfinished ends bracketed =>
    cases closing with
    | none => exact absurd rfl bracketed
    | some x => rw [ends]; rfl
  | colon mark allowed blanks =>
    subst allowed
    rw [mark]
    exact passMark_eq_ok.2 ⟨rfl, _, blanks⟩
  | comma mark blanks =>
    rw [mark]
    exact passMark_eq_ok.2 ⟨rfl, _, blanks⟩
  | @lineBreak x next goesOn noMark isBroken =>
    simp only [List.mem_cons, List.not_mem_nil, or_false, not_or] at noMark
    obtain ⟨hplus, hcolon, hcomma, hsemicolon, hequals⟩ := noMark
    simp only [next, separatorOf, hplus, hcolon, hcomma, goesOn, hsemicolon, hequals, if_false]
    exact separatorBefore_eq_ok.2 ⟨isBroken, rfl, rfl⟩

private theorem separatorOf_eq_ok :
    separatorOf closing refusal start broken c.peek? c = .ok sep c' ↔
      SeparatorAt closing refusal broken c sep c' := by
  refine ⟨fun h => ?_, SeparatorAt.separatorOf_eq⟩
  cases hp : c.peek? with
  | none =>
    rw [hp] at h
    obtain ⟨rfl, rfl⟩ := pure_eq_ok.1 h
    cases closing with
    | none => exact .closing hp ⟨by simp, by simp, by simp⟩
    | some x => exact .unfinished hp (by simp)
  | some x => exact .of_separatorOf hp (hp ▸ h)

/-- A separator is found exactly where blanks lead to one. -/
theorem separator_eq_ok :
    Scan.separator closing refusal c = .ok sep c' ↔ ∃ broken c₁,
      Scan.blanks c = .ok broken c₁ ∧ SeparatorAt closing refusal broken c₁ sep c' := by
  rw [separator_eq, get_bind_run]
  constructor
  · intro h
    obtain ⟨broken, c₁, hb, h⟩ := bind_eq_ok.1 h
    rw [Scan.peek?_bind_run] at h
    exact ⟨broken, c₁, hb, separatorOf_eq_ok.1 h⟩
  · rintro ⟨broken, c₁, hb, h⟩
    rw [bind_of_eq_ok hb, Scan.peek?_bind_run]
    exact separatorOf_eq_ok.2 h

/-- A separator behind blanks. -/
theorem separator_iff_of_blanks (hblanks : Scan.blanks c = .ok broken start) :
    Scan.separator closing refusal c = .ok sep c' ↔
      SeparatorAt closing refusal broken start sep c' := by
  rw [separator_eq_ok]
  constructor
  · rintro ⟨_, _, hb, h⟩
    obtain ⟨rfl, rfl⟩ := EStateM.Result.ok.inj (hb.symm.trans hblanks)
    exact h
  · exact fun h => ⟨_, _, hblanks, h⟩

/-- A plus sign behind blanks is refused. -/
theorem separator_of_plus (hblanks : Scan.blanks c = .ok broken start)
    (hpeek : start.peek? = some '+') :
    Scan.separator closing refusal c = .error ⟨.union, start.position⟩ start := by
  rw [separator_eq, get_bind_run, bind_of_eq_ok hblanks,
    Scan.peek?_bind_run, hpeek]
  rfl

/-- A colon behind blanks is refused where no colon is taken. -/
theorem separator_of_colon {reason : ColonRefusal} (hblanks : Scan.blanks c = .ok broken start)
    (hpeek : start.peek? = some ':') :
    Scan.separator closing (some reason) c = .error ⟨.colon reason, start.position⟩ start := by
  rw [separator_eq, get_bind_run, bind_of_eq_ok hblanks,
    Scan.peek?_bind_run, hpeek]
  rfl

/-- After the separator that ends a listing the cursor is on its closing bracket. -/
theorem peek?_of_separator_closing (h : Scan.separator closing refusal c = .ok .closing c') :
    c'.peek? = closing := by
  obtain ⟨broken, c₁, _, h⟩ := separator_eq_ok.1 h
  cases h with
  | closing closes => exact closes

end
end TextualData
