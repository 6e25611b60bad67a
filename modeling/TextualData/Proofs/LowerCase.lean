import Mathlib.Tactic.Common
import TextualData.Proofs.Trimming
import TextualData.Text.LowerCase

/-!
# Texts in lower case

Lower case is a normal form (`Text.lowerCase_lowerCase`): it yields only characters that are their
own lower-case form. It neither yields nor removes blanks and parentheses
(`Text.filter_lowerCase`), and leaves a trimmed text trimmed (`Text.IsTrimmed.lowerCase`).

Both rest on the table of lower-case forms: what a row of it yields lies apart from all that the
table changes, and from the blanks and the parentheses (`Text.lowerRanges_areSound`).
-/

namespace TextualData
namespace Text

variable {row other : Nat × Nat × Nat × Int} {p : Char → Bool} {c x : Char}
  {l form before : List Char} {n : Nat}

/-! ## Rows of the table -/

/-- The row of the table of lower-case forms is about the code point. -/
def Covers (row : Nat × Nat × Nat × Int) (n : Nat) : Prop :=
  row.1 ≤ n ∧ n ≤ row.2.1 ∧ (n - row.1) % row.2.2.1 = 0

instance : DecidablePred (Covers row) := fun n =>
  inferInstanceAs (Decidable (row.1 ≤ n ∧ n ≤ row.2.1 ∧ (n - row.1) % row.2.2.1 = 0))

/-- The characters that no row may change or yield, as rows that add nothing: the blanks, the
parentheses, and the letter whose lower-case form is longer than itself. -/
def fixedRows : List (Nat × Nat × Nat × Int) :=
  (whiteSpaceRanges.map fun (first, last) => ((first, last, 1, 0) : Nat × Nat × Nat × Int)) ++
    [(0x28, 0x29, 1, 0), (0x130, 0x130, 1, 0), (0xFEFF, 0xFEFF, 1, 0)]

/-- Whether the row covers none of the code points from `first` to `last` in steps of `step`: it
lies before or behind them, or takes every second code point, those between the given ones. -/
def isApart (first last step : Nat) (row : Nat × Nat × Nat × Int) : Bool :=
  Nat.blt last row.1 || Nat.blt row.2.1 first ||
    (Nat.beq step 2 || Nat.beq first last) && Nat.beq row.2.2.1 2 &&
      Nat.beq ((first - row.1) % 2) 1

/-- Whether a row yields no code point that one of the given rows covers. -/
def isSound (rows : List (Nat × Nat × Nat × Int)) : Nat × Nat × Nat × Int → Bool
  | (first, last, step, distance) =>
    decide (0 ≤ first + distance) &&
      rows.all (isApart (first + distance).toNat (last + distance).toNat step)

theorem lowerRanges_areSound : lowerRanges.all (isSound (fixedRows ++ lowerRanges)) := by
  decide +kernel

theorem fixedRows_areApart :
    ∀ row ∈ lowerRanges, ∀ other ∈ fixedRows, isApart row.1 row.2.1 row.2.2.1 other := by
  decide +kernel

theorem pos_of_mem_rows : ∀ row ∈ fixedRows ++ lowerRanges, 0 < row.1 := by
  decide +kernel

/-- The only row about ASCII letters is the first. -/
theorem eq_of_covers_ascii : ∀ row ∈ lowerRanges, row.1 < 0x80 → row = (0x41, 0x5A, 1, 32) := by
  decide +kernel

theorem not_covers_of_isApart {first last step : Nat} (hfirst : first ≤ n) (hlast : n ≤ last)
    (hstep : (n - first) % step = 0) (h : isApart first last step row) : ¬Covers row n := by
  rintro ⟨hfrom, hto, hcovered⟩
  simp only [isApart, Bool.or_eq_true, Bool.and_eq_true, Nat.blt_eq, Nat.beq_eq] at h
  obtain (hbefore | hbehind) | ⟨⟨hsteps, hrow⟩, hparity⟩ := h
  · omega
  · omega
  · -- both take every second code point, or there is a single one, and the parities differ
    rw [hrow] at hcovered
    obtain rfl | rfl := hsteps <;> omega

/-- The lower-case form that a row gives a code point is itself covered by no row. -/
theorem not_covers_shifted (hrow : row ∈ lowerRanges) (hother : other ∈ fixedRows ++ lowerRanges)
    (h : Covers row n) : ¬Covers other (n + row.2.2.2).toNat := by
  have hsound := List.all_eq_true.1 lowerRanges_areSound row hrow
  obtain ⟨first, last, step, distance⟩ := row
  obtain ⟨hfirst, hlast, hstep⟩ := h
  simp only [isSound, Bool.and_eq_true, decide_eq_true_eq] at hsound hfirst hlast hstep ⊢
  obtain ⟨hdistance, hapart⟩ := hsound
  refine not_covers_of_isApart ?_ ?_ ?_ (List.all_eq_true.1 hapart other hother)
  · omega
  · omega
  · rwa [show (n + distance).toNat - (first + distance).toNat = n - first by omega]

theorem toNat_ofNat_cases (n : Nat) : (Char.ofNat n).toNat = n ∨ (Char.ofNat n).toNat = 0 := by
  unfold Char.ofNat
  by_cases hvalid : n.isValidChar
  · rw [dif_pos hvalid]
    exact .inl rfl
  · rw [dif_neg hvalid]
    exact .inr rfl

/-- The character with that form is covered by no row either, as none is about U+0000. -/
theorem not_covers_ofNat_shifted (hrow : row ∈ lowerRanges)
    (hother : other ∈ fixedRows ++ lowerRanges) (h : Covers row n) :
    ¬Covers other (Char.ofNat (n + row.2.2.2).toNat).toNat := by
  obtain heq | hzero := toNat_ofNat_cases (n + row.2.2.2).toNat
  · rw [heq]
    exact not_covers_shifted hrow hother h
  · rintro ⟨hfirst, -⟩
    have := pos_of_mem_rows other hother
    omega

/-! ## Characters in lower case -/

theorem toLower_ofNat : ∀ n < 0x80, (Char.ofNat n).toLower =
    if 0x41 ≤ n ∧ n ≤ 0x5A then Char.ofNat (n + 32) else Char.ofNat n := by
  decide +kernel

/-- A character has the form of the row that covers it, or no row does and it stays as it is. -/
theorem lowerChar_cases (hc : c ≠ '\u0130') :
    (∃ row ∈ lowerRanges, Covers row c.toNat ∧
      lowerChar c = [Char.ofNat (c.toNat + row.2.2.2).toNat]) ∨
    (∀ row ∈ lowerRanges, ¬Covers row c.toNat) ∧ lowerChar c = [c] := by
  unfold lowerChar
  rw [if_neg hc]
  split
  next hascii =>
    have hlower := toLower_ofNat c.toNat hascii
    rw [Char.ofNat_toNat] at hlower
    by_cases hletter : 0x41 ≤ c.toNat ∧ c.toNat ≤ 0x5A
    · rw [if_pos hletter] at hlower
      refine .inl ⟨(0x41, 0x5A, 1, 32), by decide +kernel, ?_, ?_⟩
      · exact ⟨hletter.1, hletter.2, Nat.mod_one _⟩
      · rw [hlower]
        rfl
    · rw [if_neg hletter] at hlower
      refine .inr ⟨fun row hrow hcovers => hletter ?_, by rw [hlower]⟩
      obtain rfl := eq_of_covers_ascii row hrow (hcovers.1.trans_lt hascii)
      exact ⟨hcovers.1, hcovers.2.1⟩
  next =>
    split
    next first last step distance hfind =>
      have hcovers := List.find?_some hfind
      simp only [Bool.and_eq_true, decide_eq_true_eq, beq_iff_eq] at hcovers
      exact .inl ⟨_, List.mem_of_find?_eq_some hfind, ⟨hcovers.1.1, hcovers.1.2, hcovers.2⟩, rfl⟩
    next hfind =>
      refine .inr ⟨fun row hrow hcovers => List.find?_eq_none.1 hfind row hrow ?_, rfl⟩
      simpa [Covers, and_assoc] using hcovers

/-- What a character becomes in lower case. -/
inductive IsForm : Char → List Char → Prop where
  | finalSigma : IsForm '\u03A3' ['\u03C2']
  | sigma : IsForm '\u03A3' ['\u03C3']
  | other {c : Char} (noSigma : c ≠ '\u03A3') : IsForm c (lowerChar c)

/-- The character is its own lower-case form. -/
def IsLower (c : Char) : Prop :=
  c ≠ '\u03A3' ∧ lowerChar c = [c]

/-- The blanks and the parentheses. -/
def isFixed (c : Char) : Bool :=
  isBlank c || c == '(' || c == ')'

theorem exists_covers_of_isFixed (h : isFixed c) : ∃ row ∈ fixedRows, Covers row c.toNat := by
  simp only [isFixed, isBlank, Bool.or_eq_true, beq_iff_eq] at h
  obtain ((hspace | rfl) | rfl) | rfl := h
  · obtain ⟨⟨first, last⟩, hmem, hin⟩ := List.any_eq_true.1 hspace
    simp only [Bool.and_eq_true, decide_eq_true_eq] at hin
    refine ⟨(first, last, 1, 0), List.mem_append_left _ ?_, hin.1, hin.2, Nat.mod_one _⟩
    exact List.mem_map.2 ⟨_, hmem, rfl⟩
  · exact ⟨(0xFEFF, 0xFEFF, 1, 0), by decide +kernel, by decide⟩
  · exact ⟨(0x28, 0x29, 1, 0), by decide +kernel, by decide⟩
  · exact ⟨(0x28, 0x29, 1, 0), by decide +kernel, by decide⟩

theorem isLower_of_not_covers (h : ∀ row ∈ fixedRows ++ lowerRanges, ¬Covers row c.toNat) :
    IsLower c := by
  constructor
  · rintro rfl
    exact h (0x3A3, 0x3AB, 1, 32) (by decide +kernel) (by decide)
  · have hdotted : c ≠ '\u0130' := by
      rintro rfl
      exact h (0x130, 0x130, 1, 0) (by decide +kernel) (by decide)
    obtain ⟨row, hrow, hcovers, -⟩ | ⟨-, hself⟩ := lowerChar_cases hdotted
    · exact absurd hcovers (h row (List.mem_append_right _ hrow))
    · exact hself

/-- What a character becomes is itself, or characters that no row covers. -/
theorem IsForm.mem_cases (h : IsForm c form) (hx : x ∈ form) :
    x = c ∧ IsLower c ∨ ∀ row ∈ fixedRows ++ lowerRanges, ¬Covers row x.toNat := by
  cases h with
  | finalSigma =>
    obtain rfl := List.mem_singleton.1 hx
    exact .inr (by decide +kernel)
  | sigma =>
    obtain rfl := List.mem_singleton.1 hx
    exact .inr (by decide +kernel)
  | other noSigma =>
    by_cases hdotted : c = '\u0130'
    · subst hdotted
      obtain rfl | rfl : x = 'i' ∨ x = '\u0307' := by simpa [lowerChar] using hx
      · exact .inr (by decide +kernel)
      · exact .inr (by decide +kernel)
    obtain ⟨row, hrow, hcovers, hform⟩ | ⟨-, hform⟩ := lowerChar_cases hdotted
    · rw [hform] at hx
      obtain rfl := List.mem_singleton.1 hx
      exact .inr fun other hother => not_covers_ofNat_shifted hrow hother hcovers
    · rw [hform] at hx
      exact .inl ⟨List.mem_singleton.1 hx, noSigma, hform⟩

/-- What lower case yields is in lower case. -/
theorem IsForm.isLower (h : IsForm c form) (hx : x ∈ form) : IsLower x := by
  obtain ⟨rfl, hlower⟩ | hnone := h.mem_cases hx
  · exact hlower
  · exact isLower_of_not_covers hnone

/-- Only a blank or a parenthesis yields one. -/
theorem IsForm.eq_of_mem (h : IsForm c form) (hx : x ∈ form) (hfixed : isFixed x) : x = c := by
  obtain ⟨heq, -⟩ | hnone := h.mem_cases hx
  · exact heq
  · obtain ⟨row, hrow, hcovers⟩ := exists_covers_of_isFixed hfixed
    exact absurd hcovers (hnone row (List.mem_append_left _ hrow))

/-- A blank or a parenthesis stays as it is. -/
theorem IsForm.eq_of_isFixed (h : IsForm c form) (hc : isFixed c) : form = [c] := by
  cases h with
  | finalSigma => exact absurd hc (by decide)
  | sigma => exact absurd hc (by decide)
  | other noSigma =>
    have hdotted : c ≠ '\u0130' := by
      rintro rfl
      exact absurd hc (by decide)
    obtain ⟨row, hrow, hcovers, -⟩ | ⟨-, hform⟩ := lowerChar_cases hdotted
    · obtain ⟨other, hother, hfixed⟩ := exists_covers_of_isFixed hc
      obtain ⟨hfirst, hlast, hstep⟩ := hcovers
      have hapart := fixedRows_areApart row hrow other hother
      exact absurd hfixed (not_covers_of_isApart hfirst hlast hstep hapart)
    · exact hform

/-! ## Texts in lower case -/

/-- The first character of a text gives the beginning of its lower-case form. -/
theorem exists_isForm (before : List Char) (c : Char) (l : List Char) :
    ∃ form, IsForm c form ∧ lowerFrom before (c :: l) = form ++ lowerFrom (c :: before) l := by
  rw [lowerFrom]
  by_cases hsigma : c = '\u03A3'
  · subst hsigma
    refine ⟨[lowerSigma before l], ?_, rfl⟩
    unfold lowerSigma
    split
    · exact .finalSigma
    · exact .sigma
  · rw [if_neg hsigma]
    exact ⟨lowerChar c, .other hsigma, rfl⟩

theorem lowerChar_ne_nil (c : Char) : lowerChar c ≠ [] := by
  unfold lowerChar
  split
  · simp
  · split
    · simp
    · split <;> simp

theorem IsForm.ne_nil (h : IsForm c form) : form ≠ [] := by
  cases h with
  | finalSigma => nofun
  | sigma => nofun
  | other noSigma => exact lowerChar_ne_nil c

/-- A text that is not empty is not empty in lower case. -/
theorem lowerCase_eq_nil : lowerCase l = [] ↔ l = [] := by
  constructor
  · intro h
    cases l with
    | nil => rfl
    | cons c l =>
      obtain ⟨form, hform, heq⟩ := exists_isForm [] c l
      rw [lowerCase, heq, List.append_eq_nil_iff] at h
      exact absurd h.1 hform.ne_nil
  · rintro rfl
    rfl

theorem isLower_of_mem_lowerFrom (h : x ∈ lowerFrom before l) : IsLower x := by
  induction l generalizing before with
  | nil => cases h
  | cons c l ih =>
    obtain ⟨form, hform, heq⟩ := exists_isForm before c l
    rw [heq, List.mem_append] at h
    obtain h | h := h
    · exact hform.isLower h
    · exact ih h

theorem isLower_of_mem_lowerCase (h : x ∈ lowerCase l) : IsLower x :=
  isLower_of_mem_lowerFrom h

theorem lowerFrom_of_isLower (h : ∀ x ∈ l, IsLower x) : lowerFrom before l = l := by
  induction l generalizing before with
  | nil => rfl
  | cons c l ih =>
    obtain ⟨hsigma, hself⟩ := h c List.mem_cons_self
    rw [lowerFrom, if_neg hsigma, hself, ih fun x hx => h x (List.mem_cons_of_mem c hx),
      List.singleton_append]

/-- A text in lower case stays as it is. -/
theorem lowerCase_of_isLower (h : ∀ x ∈ l, IsLower x) : lowerCase l = l :=
  lowerFrom_of_isLower h

@[simp] theorem lowerCase_lowerCase (l : List Char) : lowerCase (lowerCase l) = lowerCase l :=
  lowerCase_of_isLower fun _ => isLower_of_mem_lowerCase

theorem filter_lowerFrom (hp : ∀ c, p c → isFixed c) :
    (lowerFrom before l).filter p = l.filter p := by
  induction l generalizing before with
  | nil => rfl
  | cons c l ih =>
    obtain ⟨form, hform, heq⟩ := exists_isForm before c l
    rw [heq, List.filter_append, ih, ← List.singleton_append, List.filter_append [c]]
    congr 1
    by_cases hc : p c
    · rw [hform.eq_of_isFixed (hp c hc)]
    · have hnone : ∀ x ∈ form, ¬p x := by
        intro x hx hpx
        obtain rfl := hform.eq_of_mem hx (hp x hpx)
        exact hc hpx
      rw [List.filter_eq_nil_iff.2 hnone, List.filter_cons_of_neg hc, List.filter_nil]

/-- A text and its lower-case form have the same blanks and parentheses. -/
theorem filter_lowerCase (hp : ∀ c, p c → isFixed c) : (lowerCase l).filter p = l.filter p :=
  filter_lowerFrom hp

theorem exists_of_mem_head?_lowerFrom (h : x ∈ (lowerFrom before l).head?) :
    ∃ c ∈ l.head?, ∃ form, IsForm c form ∧ x ∈ form := by
  cases l with
  | nil => cases h
  | cons c l =>
    obtain ⟨form, hform, heq⟩ := exists_isForm before c l
    rw [heq, List.head?_append_of_ne_nil _ hform.ne_nil] at h
    exact ⟨c, rfl, form, hform, List.mem_of_mem_head? h⟩

theorem exists_of_mem_getLast?_lowerFrom (h : x ∈ (lowerFrom before l).getLast?) :
    ∃ c ∈ l.getLast?, ∃ form, IsForm c form ∧ x ∈ form := by
  induction l generalizing before with
  | nil => cases h
  | cons c l ih =>
    obtain ⟨form, hform, heq⟩ := exists_isForm before c l
    rw [heq] at h
    cases l with
    | nil =>
      rw [lowerFrom, List.append_nil] at h
      exact ⟨c, rfl, form, hform, List.mem_of_mem_getLast? h⟩
    | cons d l =>
      obtain ⟨next, hnext, hrest⟩ := exists_isForm (c :: before) d l
      -- the form of `d` is not empty, so what comes last does not come from `c`
      have hne : lowerFrom (c :: before) (d :: l) ≠ [] := by
        rw [hrest]
        exact List.append_ne_nil_of_left_ne_nil hnext.ne_nil _
      rw [List.getLast?_append_of_ne_nil _ hne] at h
      rw [List.getLast?_cons_cons]
      exact ih h

/-- A text without blanks at its ends has none there in lower case. -/
theorem IsTrimmed.lowerCase (h : IsTrimmed isBlank l) : IsTrimmed isBlank (lowerCase l) := by
  have hkept : ∀ {c x form}, IsForm c form → x ∈ form → isBlank c = false → isBlank x = false := by
    intro c x form hform hx hc
    by_contra hblank
    rw [Bool.not_eq_false] at hblank
    obtain rfl := hform.eq_of_mem hx (by simp [isFixed, hblank])
    rw [hc] at hblank
    cases hblank
  constructor
  · intro x hx
    obtain ⟨c, hc, form, hform, hmem⟩ := exists_of_mem_head?_lowerFrom hx
    exact hkept hform hmem (h.head c hc)
  · intro x hx
    obtain ⟨c, hc, form, hform, hmem⟩ := exists_of_mem_getLast?_lowerFrom hx
    exact hkept hform hmem (h.last c hc)

end Text
end TextualData
