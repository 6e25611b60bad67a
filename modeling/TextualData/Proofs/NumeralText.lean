import TextualData.Proofs.Tokens

/-!
# Numerals read back

The digits of an integer are a token that denotes it, and the literal of a decimal is a token that
denotes the decimal with its scale. Only decimals of the least scale of all have no literal: the
opposite of that scale does not fit in 64 bits.
-/

namespace TextualData
namespace Numeral

theorem isDigit_of_mem_ofNat {n : Nat} {x : Char} (h : x ∈ ofNat n) : x.isDigit :=
  Nat.isDigit_of_mem_toDigits (by decide) (by decide) h

theorem ofNat_ne_nil (n : Nat) : ofNat n ≠ [] :=
  Nat.toDigits_ne_nil

theorem natural?_of_digits {l : List Char} (nonempty : l ≠ []) (digits : ∀ x ∈ l, x.isDigit) :
    natural? l = some (Nat.ofDigitChars 10 l 0) := by
  simp [natural?, nonempty, List.all_eq_true.2 digits]

theorem natural?_eq_none {l : List Char} {x : Char} (hx : x ∈ l) (noDigit : x.isDigit = false) :
    natural? l = none := by
  have hall : l.all Char.isDigit = false := by
    rw [List.all_eq_false]
    exact ⟨x, hx, by simp [noDigit]⟩
  simp [natural?, hall]

/-- A sign is no digit. -/
theorem ne_of_isDigit {x y : Char} (h : x.isDigit) (hy : y.isDigit = false) : x ≠ y := by
  rintro rfl
  simp [hy] at h

theorem integer?_of_digits {l : List Char} (nonempty : l ≠ []) (digits : ∀ x ∈ l, x.isDigit) :
    integer? l = some (Nat.ofDigitChars 10 l 0 : Int) := by
  obtain ⟨x, m, rfl⟩ := List.exists_cons_of_ne_nil nonempty
  have hx := digits x (by simp)
  rw [integer?]
  · simp [natural?_of_digits nonempty digits]
  · rintro _ ⟨⟩
    exact ne_of_isDigit hx (y := '-') (by decide) rfl
  · rintro _ ⟨⟩
    exact ne_of_isDigit hx (y := '+') (by decide) rfl

theorem integer?_ofInt (n : Int) : integer? (ofInt n) = some n := by
  unfold ofInt
  split
  · rw [integer?, natural?_ofNat]
    change some (-(n.natAbs : Int)) = some n
    rw [Int.ofNat_natAbs_of_nonpos (by omega), Int.neg_neg]
  · rw [integer?_of_digits (ofNat_ne_nil _) fun x => isDigit_of_mem_ofNat]
    have hvalue : Nat.ofDigitChars 10 (ofNat n.natAbs) 0 = n.natAbs := Nat.ofDigitChars_ten_toDigits
    rw [hvalue]
    exact congrArg some (by omega)

/-- A number that has a character other than digits after its sign is no integer. -/
theorem integer?_eq_none {l : List Char} {x : Char} (hx : x ∈ l) (noDigit : x.isDigit = false)
    (hminus : x ≠ '-') (hplus : x ≠ '+') : integer? l = none := by
  unfold integer?
  split
  · rw [natural?_eq_none (by simpa [hminus] using hx) noDigit]
    rfl
  · rw [natural?_eq_none (by simpa [hplus] using hx) noDigit]
    rfl
  · rw [natural?_eq_none hx noDigit]
    rfl

theorem fit64?_toInt (n : Int64) : fit64? n.toInt = some n := by
  rw [fit64?, if_pos ⟨n.minValue_le_toInt, n.toInt_le⟩, Int64.ofInt_toInt]

theorem fit64?_eq_some_iff {n : Int} {k : Int64} : fit64? n = some k ↔ k.toInt = n := by
  constructor
  · intro h
    unfold fit64? at h
    split at h
    · next hfit =>
      obtain rfl := Option.some.inj h
      exact Int64.toInt_ofInt_of_le (by simpa using hfit.1) (by
        have hhigh := hfit.2
        rw [Int64.toInt_maxValue] at hhigh
        omega)
    · simp at h
  · rintro rfl
    exact fit64?_toInt k

/-- The least word is the only one without an opposite. -/
theorem fit64?_neg_eq_none_iff {k : Int64} : fit64? (-k.toInt) = none ↔ k = Int64.minValue := by
  have hlow := k.minValue_le_toInt
  have hhigh := k.toInt_lt
  rw [← Int64.toInt_inj, fit64?, ite_eq_right_iff]
  simp only [reduceCtorEq, imp_false, Int64.toInt_minValue, Int64.toInt_maxValue] at hlow ⊢
  omega

theorem int64?_ofInt (n : Int64) : int64? (ofInt n.toInt) = some n := by
  simp [int64?, integer?_ofInt, fit64?_toInt]

/-- What numerals consist of. -/
theorem mem_ofInt {n : Int} {x : Char} (h : x ∈ ofInt n) : x.isDigit ∨ x = '-' := by
  unfold ofInt at h
  split at h
  · rcases List.mem_cons.1 h with rfl | h
    · exact .inr rfl
    · exact .inl (isDigit_of_mem_ofNat h)
  · exact .inl (isDigit_of_mem_ofNat h)

theorem ofInt_ne_nil (n : Int) : ofInt n ≠ [] := by
  unfold ofInt
  split
  · simp
  · exact ofNat_ne_nil _

end Numeral

namespace Token

/-- A token that begins with a digit or a sign means the number that is read from it, if any. -/
theorem classify_of_startsNumeral {l : List Char} (h : startsNumeral l) :
    classify l = match Numeral.int64? (unsigned l) with
      | some n => .integer n
      | none => if isNumeralLike (unsigned l)
        then ((Decimal.ofChars? (unsigned l)).map .decimal).getD (.string (String.ofList l))
        else .string (String.ofList l) := by
  have htrue : l ≠ ['t', 'r', 'u', 'e'] := by
    rintro rfl
    exact absurd h (by decide)
  have hfalse : l ≠ ['f', 'a', 'l', 's', 'e'] := by
    rintro rfl
    exact absurd h (by decide)
  rw [classify, if_neg htrue, if_neg hfalse, number?, if_pos h]
  cases Numeral.int64? (unsigned l) with
  | some n => rfl
  | none =>
    simp only
    split <;> rfl

/-- No sign is taken off a token that begins with a digit or a minus sign. -/
theorem classify_of_numeral {x : Char} {l : List Char} (hx : x.isDigit ∨ x = '-') :
    classify (x :: l) = match Numeral.int64? (x :: l) with
      | some n => .integer n
      | none => if isNumeralLike (x :: l)
        then ((Decimal.ofChars? (x :: l)).map .decimal).getD (.string (String.ofList (x :: l)))
        else .string (String.ofList (x :: l)) := by
  have hstarts : startsNumeral (x :: l) := by
    rcases hx with hx | rfl
    · simp [startsNumeral, hx]
    · simp [startsNumeral]
  have hunsigned : unsigned (x :: l) = x :: l := by
    unfold unsigned
    split
    · next heq =>
      obtain rfl := (List.cons.inj heq).1
      exact absurd hx (by decide)
    · rfl
  rw [classify_of_startsNumeral hstarts, hunsigned]

theorem classify_ofInt (n : Int64) : classify (Numeral.ofInt n.toInt) = .integer n := by
  obtain ⟨x, l, hl⟩ := List.exists_cons_of_ne_nil (Numeral.ofInt_ne_nil n.toInt)
  have hx := Numeral.mem_ofInt (n := n.toInt) (x := x) (by simp [hl])
  have hint := Numeral.int64?_ofInt n
  rw [hl] at hint ⊢
  rw [classify_of_numeral hx, hint]

end Token

namespace Decimal

/-- The sign in front of the digits of a decimal. -/
def signText (d : Decimal) : List Char :=
  if d.unscaled < 0 then ['-'] else []

variable {d : Decimal} {l m e : List Char}

/-- A text without its underscores. -/
def withoutUnderscores (l : List Char) : List Char :=
  l.filter (· != '_')

theorem notMem_withoutUnderscores (l : List Char) : '_' ∉ withoutUnderscores l := by
  simp [withoutUnderscores]

theorem withoutUnderscores_eq_self (h : '_' ∉ l) : withoutUnderscores l = l :=
  List.filter_eq_self.2 fun _ hx => bne_iff_ne.2 fun he => h (he ▸ hx)

theorem withoutUnderscores_append (l m : List Char) :
    withoutUnderscores (l ++ m) = withoutUnderscores l ++ withoutUnderscores m :=
  List.filter_append ..

theorem withoutUnderscores_cons {x : Char} (h : x ≠ '_') :
    withoutUnderscores (x :: l) = x :: withoutUnderscores l :=
  List.filter_cons_of_pos (bne_iff_ne.2 h)

theorem ne_of_mem_sign {x : Char} (h : x.isDigit ∨ x = '-') {y : Char} (hy : y.isDigit = false)
    (hminus : y ≠ '-') : x ≠ y := by
  rintro rfl
  rcases h with h | h
  · simp [hy] at h
  · exact hminus h

theorem body?_eq (l : List Char) : digits?.body? l =
    if l.head? = some '_' then none else Numeral.natural? (withoutUnderscores l) :=
  rfl

theorem body?_eq_natural? (h : '_' ∉ l) : digits?.body? l = Numeral.natural? l := by
  rw [body?_eq, if_neg fun he => h (List.mem_of_head? he), withoutUnderscores_eq_self h]

theorem body?_of_digits (nonempty : l ≠ []) (digits : ∀ x ∈ l, x.isDigit) :
    digits?.body? l = some (Nat.ofDigitChars 10 l 0) := by
  have hno : '_' ∉ l := fun h => Numeral.ne_of_isDigit (digits '_' h) (y := '_') rfl rfl
  rw [body?_eq_natural? hno, Numeral.natural?_of_digits nonempty digits]

/-- Digits after the sign of a decimal give the number itself. -/
theorem digits?_signText (nonempty : l ≠ []) (digits : ∀ x ∈ l, x.isDigit)
    (hvalue : Nat.ofDigitChars 10 l 0 = d.unscaled.natAbs) :
    digits? (d.signText ++ l) = some d.unscaled := by
  unfold signText
  split
  · rw [List.singleton_append, digits?, body?_of_digits nonempty digits, hvalue]
    change some (-(d.unscaled.natAbs : Int)) = some d.unscaled
    rw [Int.ofNat_natAbs_of_nonpos (by omega), Int.neg_neg]
  · obtain ⟨x, m, rfl⟩ := List.exists_cons_of_ne_nil nonempty
    have hx := digits x (by simp)
    rw [List.nil_append, digits?]
    · rw [body?_of_digits nonempty digits, hvalue]
      change some (d.unscaled.natAbs : Int) = some d.unscaled
      rw [Int.natAbs_of_nonneg (by omega)]
    · rintro _ ⟨⟩
      exact Numeral.ne_of_isDigit hx (y := '-') (by decide) rfl
    · rintro _ ⟨⟩
      exact Numeral.ne_of_isDigit hx (y := '+') (by decide) rfl

theorem significand_of_notMem (hl : '.' ∉ l) : significand l = (l, 0) := by
  have hne : ∀ x ∈ l, x != '.' := fun x hx => by simpa using fun he : x = '.' => hl (he ▸ hx)
  have hspan := takeWhile_dropWhile_append hne (m := []) (by simp)
  rw [List.append_nil] at hspan
  simp [significand, hspan]

theorem significand_append_point (hl : '.' ∉ l) :
    significand (l ++ '.' :: m) = (l ++ m, (withoutUnderscores m).length) := by
  have hne : ∀ x ∈ l, x != '.' := fun x hx => by simpa using fun he : x = '.' => hl (he ▸ hx)
  obtain ⟨htake, hdrop⟩ := takeWhile_dropWhile_append hne (m := '.' :: m) (by simp)
  rw [significand, htake, hdrop]
  rfl

/-- A numeral with an exponent and no point. -/
theorem ofChars?_exponent (hl : ∀ x ∈ l, x.isDigit ∨ x = '-') {n : Int}
    (hexponent : Numeral.integer? e = some n) : ofChars? (l ++ 'e' :: e) = do
      let unscaled ← digits? l
      let scale ← Numeral.fit64? (0 - n)
      return ⟨unscaled, scale⟩ := by
  have hmark : ∀ x ∈ l, !isExponentMark x := by
    intro x hx
    simp [isExponentMark, ne_of_mem_sign (hl x hx) (y := 'e') (by decide) (by decide),
      ne_of_mem_sign (hl x hx) (y := 'E') (by decide) (by decide)]
  have hpoint : '.' ∉ l :=
    fun h => ne_of_mem_sign (hl '.' h) (y := '.') (by decide) (by decide) rfl
  obtain ⟨htake, hdrop⟩ := takeWhile_dropWhile_append hmark (m := 'e' :: e)
    (by simp [isExponentMark])
  simp [ofChars?, htake, hdrop, hexponent, significand_of_notMem hpoint]

/-- A numeral with a point and no exponent. -/
theorem ofChars?_point (hl : ∀ x ∈ l, x.isDigit ∨ x = '-') (hm : ∀ x ∈ m, x.isDigit) :
    ofChars? (l ++ '.' :: m) = do
      let unscaled ← digits? (l ++ m)
      let scale ← Numeral.fit64? m.length
      return ⟨unscaled, scale⟩ := by
  have hmark : ∀ x ∈ l ++ '.' :: m, !isExponentMark x := by
    intro x hx
    simp only [List.mem_append, List.mem_cons] at hx
    have hx : (x.isDigit ∨ x = '-') ∨ x = '.' := by
      rcases hx with hx | rfl | hx
      · exact .inl (hl x hx)
      · exact .inr rfl
      · exact .inl (.inl (hm x hx))
    rcases hx with hx | rfl
    · simp [isExponentMark, ne_of_mem_sign hx (y := 'e') (by decide) (by decide),
        ne_of_mem_sign hx (y := 'E') (by decide) (by decide)]
    · decide
  have hpoint : '.' ∉ l :=
    fun h => ne_of_mem_sign (hl '.' h) (y := '.') (by decide) (by decide) rfl
  have hunderscore : '_' ∉ m :=
    fun h => Numeral.ne_of_isDigit (hm '_' h) (y := '_') (by decide) rfl
  have hspan := takeWhile_dropWhile_append hmark (m := []) (by simp)
  rw [List.append_nil] at hspan
  simp [ofChars?, hspan, significand_append_point hpoint, withoutUnderscores_eq_self hunderscore]

theorem mem_signText {x : Char} (h : x ∈ d.signText) : x = '-' := by
  unfold signText at h
  split at h
  · exact List.mem_singleton.1 h
  · simp at h

/-- Exactly the decimals of the least scale have no literal. -/
theorem literal?_eq_none_iff : d.literal? = none ↔ d.scale = Int64.minValue := by
  unfold literal?
  simp only
  split
  · rw [Option.map_eq_none_iff, Numeral.fit64?_neg_eq_none_iff]
  · next hplaces =>
    have hscale : d.scale ≠ Int64.minValue := by
      intro h
      rw [h] at hplaces
      exact hplaces (.inl (by decide))
    split <;> simp [hscale]

/-- Zeros before the digits of a number are digits as well. -/
theorem isDigit_of_mem_padded {zeros n : Nat} {x : Char}
    (h : x ∈ '0' :: (List.replicate zeros '0' ++ Numeral.ofNat n)) : x.isDigit := by
  simp only [List.mem_cons, List.mem_append, List.mem_replicate] at h
  rcases h with rfl | ⟨_, rfl⟩ | h
  · decide
  · decide
  · exact Numeral.isDigit_of_mem_ofNat h

/-- Zeros before the digits of a number do not count. -/
theorem ofDigitChars_padded (zeros n : Nat) :
    Nat.ofDigitChars 10 ('0' :: (List.replicate zeros '0' ++ Numeral.ofNat n)) 0 = n := by
  have hvalue : Nat.ofDigitChars 10 (Numeral.ofNat n) 0 = n := Nat.ofDigitChars_ten_toDigits
  rw [Nat.ofDigitChars_cons, Nat.ofDigitChars_append]
  change Nat.ofDigitChars 10 _ (Nat.ofDigitChars 10 _ 0) = n
  rw [Nat.ofDigitChars_replicate_zero, Nat.mul_zero, hvalue]

/-- The two forms of a literal: the digits with the opposite of the scale as the exponent, or with a
point somewhere in them or in the zeros before them. -/
theorem literal?_cases (h : d.literal? = some l) :
    l = d.signText ++ Numeral.ofNat d.unscaled.natAbs ++ 'e' :: Numeral.ofInt (-d.scale.toInt) ∨
      ∃ whole fraction, l = d.signText ++ whole ++ '.' :: fraction ∧ whole ≠ [] ∧
        (∀ x ∈ whole ++ fraction, x.isDigit) ∧
        Nat.ofDigitChars 10 (whole ++ fraction) 0 = d.unscaled.natAbs ∧
        d.scale.toInt = fraction.length := by
  have hdigits : ∀ x ∈ Numeral.ofNat d.unscaled.natAbs, x.isDigit :=
    fun x => Numeral.isDigit_of_mem_ofNat
  have hvalue : Nat.ofDigitChars 10 (Numeral.ofNat d.unscaled.natAbs) 0 = d.unscaled.natAbs :=
    Nat.ofDigitChars_ten_toDigits
  unfold literal? at h
  simp only at h
  split at h
  · obtain ⟨exponent, hexponent, rfl⟩ := Option.map_eq_some_iff.1 h
    rw [Numeral.fit64?_eq_some_iff.1 hexponent]
    exact .inl rfl
  · next hplaces =>
    refine .inr ?_
    split at h
    · next hless =>
      obtain rfl := Option.some.inj h
      refine ⟨_, _, rfl, ?_, ?_, ?_, ?_⟩
      · rw [ne_eq, List.take_eq_nil_iff, not_or]
        exact ⟨by omega, Numeral.ofNat_ne_nil _⟩
      · rwa [List.take_append_drop]
      · rwa [List.take_append_drop]
      · rw [List.length_drop]
        omega
    · next hless =>
      obtain rfl := Option.some.inj h
      refine ⟨['0'], List.replicate (d.scale.toInt.toNat -
          (Numeral.ofNat d.unscaled.natAbs).length) '0' ++ Numeral.ofNat d.unscaled.natAbs,
        by simp only [signText, List.append_assoc]; rfl, by simp,
        fun x => isDigit_of_mem_padded, ofDigitChars_padded _ _, ?_⟩
      rw [List.length_append, List.length_replicate]
      omega

/-- The digits of a literal, before its exponent or without its point, give the number. -/
theorem digits?_literal :
    digits? (d.signText ++ Numeral.ofNat d.unscaled.natAbs) = some d.unscaled :=
  digits?_signText (Numeral.ofNat_ne_nil _) (fun _ => Numeral.isDigit_of_mem_ofNat)
    Nat.ofDigitChars_ten_toDigits

/-- A decimal is what its literal denotes. -/
theorem ofChars?_literal (h : d.literal? = some l) : ofChars? l = some d := by
  have hsign : ∀ m : List Char, (∀ x ∈ m, x.isDigit) →
      ∀ x ∈ d.signText ++ m, x.isDigit ∨ x = '-' := by
    intro m hm x hx
    rcases List.mem_append.1 hx with hx | hx
    · exact .inr (mem_signText hx)
    · exact .inl (hm x hx)
  obtain rfl | ⟨whole, fraction, rfl, nonempty, hdigits, hvalue, hplaces⟩ := literal?_cases h
  · rw [ofChars?_exponent (hsign _ fun _ => Numeral.isDigit_of_mem_ofNat)
      (Numeral.integer?_ofInt _), digits?_literal,
      show (0 : Int) - -d.scale.toInt = d.scale.toInt by omega, Numeral.fit64?_toInt]
    rfl
  · rw [ofChars?_point (hsign whole fun x hx => hdigits x (List.mem_append_left fraction hx))
      fun x hx => hdigits x (List.mem_append_right whole hx), List.append_assoc,
      digits?_signText (by simp [nonempty]) hdigits hvalue, ← hplaces, Numeral.fit64?_toInt]
    rfl

end Decimal

namespace Token

theorem continues_of_isDigit {x : Char} (h : x.isDigit) : continues false x := by
  have hall : ∀ n < 10, continues false (Char.ofNat (48 + n)) := by decide
  simp only [Char.isDigit, Bool.and_eq_true, decide_eq_true_eq] at h
  have hlow : 48 ≤ x.toNat := h.1
  have hhigh : x.toNat ≤ 57 := h.2
  have hx := hall (x.toNat - 48) (by omega)
  rwa [show 48 + (x.toNat - 48) = x.toNat by omega, Char.ofNat_toNat] at hx

/-- The digits of an integer are a token. -/
theorem continues_of_mem_ofInt {n : Int} {x : Char} (h : x ∈ Numeral.ofInt n) :
    continues false x := by
  rcases Numeral.mem_ofInt h with h | rfl
  · exact continues_of_isDigit h
  · decide

variable {d : Decimal} {l : List Char}

/-- What the literal of a decimal consists of. -/
theorem mem_literal (h : d.literal? = some l) {x : Char} (hx : x ∈ l) :
    x.isDigit ∨ x = '.' ∨ x = 'e' ∨ x = '-' := by
  obtain rfl | ⟨whole, fraction, rfl, _, hdigits, _⟩ := Decimal.literal?_cases h
  · simp only [List.append_assoc, List.mem_append, List.mem_cons] at hx
    rcases hx with hx | hx | rfl | hx
    · exact .inr (.inr (.inr (Decimal.mem_signText hx)))
    · exact .inl (Numeral.isDigit_of_mem_ofNat hx)
    · exact .inr (.inr (.inl rfl))
    · exact (Numeral.mem_ofInt hx).imp_right fun hx => .inr (.inr hx)
  · simp only [List.append_assoc, List.mem_append, List.mem_cons] at hx
    rcases hx with hx | hx | rfl | hx
    · exact .inr (.inr (.inr (Decimal.mem_signText hx)))
    · exact .inl (hdigits x (List.mem_append_left fraction hx))
    · exact .inr (.inl rfl)
    · exact .inl (hdigits x (List.mem_append_right whole hx))

theorem continues_of_mem_literal (h : d.literal? = some l) {x : Char} (hx : x ∈ l) :
    continues false x := by
  rcases mem_literal h hx with hx | rfl | rfl | rfl
  · exact continues_of_isDigit hx
  · decide
  · decide
  · decide

/-- The literal of a decimal begins like a number, has a digit, and has a mark that no integer
has. -/
theorem exists_literal (h : d.literal? = some l) : ∃ x m, l = x :: m ∧ (x.isDigit ∨ x = '-') ∧
    (∃ y ∈ l, y.isDigit) ∧ ∃ y ∈ l, y.isDigit = false ∧ y ≠ '-' ∧ y ≠ '+' := by
  obtain ⟨pre, hpre, y, post, mark, tail, hmark, rfl, hy⟩ :
      ∃ pre : List Char, (∀ x ∈ pre, x = '-') ∧ ∃ y post mark tail,
        (mark.isDigit = false ∧ mark ≠ '-' ∧ mark ≠ '+') ∧
          l = pre ++ y :: (post ++ mark :: tail) ∧ y.isDigit := by
    obtain rfl | ⟨whole, fraction, rfl, nonempty, hdigits, _⟩ := Decimal.literal?_cases h
    · obtain ⟨y, post, hy⟩ := List.exists_cons_of_ne_nil (Numeral.ofNat_ne_nil d.unscaled.natAbs)
      exact ⟨d.signText, fun x => Decimal.mem_signText, y, post, 'e', _, by decide,
        by rw [hy, List.append_assoc]; rfl,
        Numeral.isDigit_of_mem_ofNat (n := d.unscaled.natAbs) (by simp [hy])⟩
    · obtain ⟨y, post, rfl⟩ := List.exists_cons_of_ne_nil nonempty
      exact ⟨d.signText, fun x => Decimal.mem_signText, y, post, '.', fraction, by decide, by simp,
        hdigits y (by simp)⟩
  have hdigit : ∃ z ∈ pre ++ y :: (post ++ mark :: tail), z.isDigit := ⟨y, by simp, hy⟩
  have hother : ∃ z ∈ pre ++ y :: (post ++ mark :: tail), z.isDigit = false ∧ z ≠ '-' ∧ z ≠ '+' :=
    ⟨mark, by simp, hmark⟩
  cases pre with
  | nil => exact ⟨y, _, rfl, .inl hy, hdigit, hother⟩
  | cons x pre => exact ⟨x, _, rfl, .inr (hpre x (by simp)), hdigit, hother⟩

/-- The literal of a decimal denotes it. -/
theorem classify_literal (h : d.literal? = some l) : classify l = .decimal d := by
  obtain ⟨x, m, rfl, hx, ⟨y, hy, hdigit⟩, mark, hmark, hmark', hminus, hplus⟩ := exists_literal h
  have hint : Numeral.int64? (x :: m) = none := by
    rw [Numeral.int64?, Numeral.integer?_eq_none hmark hmark' hminus hplus]
    rfl
  have hlike : isNumeralLike (x :: m) := by
    rw [isNumeralLike, Bool.and_eq_true, List.any_eq_true, List.all_eq_true]
    refine ⟨⟨y, hy, hdigit⟩, fun z hz => ?_⟩
    rcases mem_literal h hz with hz | rfl | rfl | rfl
    · simp [hz]
    · decide
    · decide
    · decide
  rw [classify_of_numeral hx, hint]
  simp only [hlike, if_true, Decimal.ofChars?_literal h]
  rfl

end Token
end TextualData
