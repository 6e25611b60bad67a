import TextualData.Proofs.QuotedLines

/-!
# Tab stops

Text has one form only with its tabs expanded (`Text.Expands`), and this form has no tabs. It can be
made part by part, each part from the column where the one before it ends. Columns counted in words
of 64 bits give the same form, as long as the words can count them.
-/

namespace TextualData
namespace Text

/-- Replaces tabs as `expandTabs` does, with columns counted in words of 64 bits. -/
def expandTabsInWords (width : UInt64) : (column : UInt64) → List Char → List Char
  | _, [] => []
  | column, c :: l =>
    if c = '\t' then
      let spaces := width - column % width
      List.replicate spaces.toNat ' ' ++ expandTabsInWords width (column + spaces) l
    else c :: expandTabsInWords width (column + 1) l

variable {width column spaces : Nat} {l shown : List Char}

theorem Expands.notMem_tab (h : Expands width column l shown) : '\t' ∉ shown := by
  induction h with
  | nil => exact List.not_mem_nil
  | tab _ _ _ _ ih => simpa using ih
  | other noTab _ ih => simpa using ⟨noTab.symm, ih⟩

/-- From each column it is so many spaces to the next tab stop. -/
theorem eq_sub_mod_of_stop (least : 0 < spaces) (most : spaces ≤ width)
    (stop : width ∣ column + spaces) : spaces = width - column % width := by
  have hmod : column % width < width := Nat.mod_lt column (Nat.lt_of_lt_of_le least most)
  have hdvd : width ∣ column % width + spaces := by
    rw [Nat.dvd_iff_mod_eq_zero, Nat.mod_add_mod]
    exact Nat.mod_eq_zero_of_dvd stop
  obtain ⟨stops, hstops⟩ := hdvd
  -- The sum is positive and below twice the width.
  have hlow : width * 0 < width * stops := by omega
  have hhigh : width * stops < width * 2 := by omega
  have hpos : 0 < stops := Nat.lt_of_mul_lt_mul_left hlow
  have htwo : stops < 2 := Nat.lt_of_mul_lt_mul_left hhigh
  obtain rfl : stops = 1 := by omega
  omega

theorem Expands.eq_expandTabs (h : Expands width column l shown) :
    shown = expandTabs width column l := by
  induction h with
  | nil => rfl
  | tab least most stop _ ih =>
    rw [expandTabs, if_pos rfl, ← eq_sub_mod_of_stop least most stop, ih]
  | other noTab _ ih => rw [expandTabs, if_neg noTab, ih]

theorem expandTabsInWords_eq {width : UInt64} (h : 0 < width.toNat) (column : UInt64)
    (l : List Char)
    (counted : column.toNat + (expandTabs width.toNat column.toNat l).length < 2 ^ 64) :
    expandTabsInWords width column l = expandTabs width.toNat column.toNat l := by
  induction l generalizing column with
  | nil => rfl
  | cons c l ih =>
    by_cases hc : c = '\t'
    · have hmod : column.toNat % width.toNat < width.toNat := Nat.mod_lt _ h
      have hspaces : (width - column % width).toNat =
          width.toNat - column.toNat % width.toNat := by
        have hle : column % width ≤ width := by
          rw [UInt64.le_iff_toNat_le, UInt64.toNat_mod]
          exact hmod.le
        rw [UInt64.toNat_sub_of_le _ _ hle, UInt64.toNat_mod]
      rw [expandTabs, if_pos hc, List.length_append, List.length_replicate] at counted
      have hcolumn : (column + (width - column % width)).toNat =
          column.toNat + (width.toNat - column.toNat % width.toNat) := by
        rw [UInt64.toNat_add, hspaces]
        exact Nat.mod_eq_of_lt (by omega)
      have hmore := ih (column + (width - column % width)) (by rw [hcolumn]; omega)
      rw [hcolumn] at hmore
      simp only [expandTabsInWords, expandTabs, if_pos hc, hspaces, hmore]
    · rw [expandTabs, if_neg hc, List.length_cons] at counted
      have hcolumn : (column + 1).toNat = column.toNat + 1 := by
        rw [UInt64.toNat_add, UInt64.toNat_one]
        exact Nat.mod_eq_of_lt (by omega)
      have hmore := ih (column + 1) (by rw [hcolumn]; omega)
      rw [expandTabsInWords, expandTabs, if_neg hc, if_neg hc, hmore, hcolumn]

/-- Text in two parts is expanded part by part, the second part from the column where the first one
ends when expanded. What results has no tabs, and is the only text with the tabs expanded. Words of
64 bits give the same text if the column where it ends is within 64 bits. -/
theorem expandTabs_in_parts (h : 0 < width) (column : Nat) (l m : List Char) :
    expandTabs width column (l ++ m) = expandTabs width column l ++
        expandTabs width (column + (expandTabs width column l).length) m ∧
      '\t' ∉ expandTabs width column l ∧
      (∀ shown, Expands width column l shown ↔ shown = expandTabs width column l) ∧
      ∀ width' column' : UInt64, width'.toNat = width → column'.toNat = column →
        column + (expandTabs width column l).length < 2 ^ 64 →
          expandTabsInWords width' column' l = expandTabs width column l := by
  have hexpands := expands_expandTabs h column l
  refine ⟨expandTabs_append width column l m, hexpands.notMem_tab, fun shown => ?_, ?_⟩
  · constructor
    · exact Expands.eq_expandTabs
    · rintro rfl
      exact hexpands
  · rintro width' column' rfl rfl counted
    exact expandTabsInWords_eq h column' l counted

/-- A part that ends at a tab stop, and one that begins there, both with a tab. -/
theorem expandTabs_in_parts_at_stop :
    0 < 4 ∧ expandTabs 4 17 ("é\t".toList ++ "\tx".toList) =
        expandTabs 4 17 "é\t".toList ++ expandTabs 4 20 "\tx".toList ∧
      expandTabs 4 17 "é\t".toList = "é  ".toList ∧ expandTabs 4 20 "\tx".toList = "    x".toList ∧
      expandTabsInWords 4 17 "é\t".toList = "é  ".toList := by
  have hfour : 0 < 4 := by decide
  have hfirst : expandTabs 4 17 "é\t".toList = "é  ".toList := by with_unfolding_all rfl
  have hsecond : expandTabs 4 20 "\tx".toList = "    x".toList := by with_unfolding_all rfl
  obtain ⟨happend, -, -, hwords⟩ := expandTabs_in_parts hfour 17 "é\t".toList "\tx".toList
  rw [hfirst] at happend hwords
  refine ⟨hfour, ?_, hfirst, hsecond, ?_⟩
  · rw [happend, hfirst]
    rfl
  · exact hwords 4 17 rfl rfl (by decide)

end Text
end TextualData
