import Mathlib.Data.List.Chain
import TextualData.Proofs.LowerCase
import TextualData.Table.Column

/-!
# Normal names of columns

With the option `normalizeHeaders`, the name of a column is normal (`Column.isNormal_of_ofHeader`):
each of the steps that bring a header cell into this form keeps what those before it achieve.
A header cell with a normal name is read as a column of strings with that name
(`Column.IsNormal.ofHeader`), so that normal names are read as they are
(`Column.ofHeader_name_of_ofHeader`).
-/

namespace TextualData
namespace Table
namespace Column

variable {o : Options} {cell : String} {column : Column} {l before after name : List Char}
  {c x : Char}

/-! ## Parentheses -/

def isParenthesis (c : Char) : Bool :=
  c == '(' || c == ')'

/-- No closing parenthesis stands behind an opening one. -/
def EnclosesNothing (l : List Char) : Prop :=
  l.Pairwise fun x y => ¬(x = '(' ∧ y = ')')

theorem isFixed_of_isParenthesis (c : Char) (h : isParenthesis c) : Text.isFixed c := by
  rw [isParenthesis, Bool.or_eq_true] at h
  rw [Text.isFixed, Bool.or_assoc, Bool.or_eq_true, Bool.or_eq_true]
  exact .inr h

/-- What a text encloses depends on its parentheses only. -/
theorem enclosesNothing_filter : EnclosesNothing (l.filter isParenthesis) ↔ EnclosesNothing l := by
  rw [EnclosesNothing, List.pairwise_filter, EnclosesNothing]
  constructor
  · refine List.Pairwise.imp fun {x y} h => ?_
    rintro ⟨rfl, rfl⟩
    exact h rfl rfl ⟨rfl, rfl⟩
  · exact List.Pairwise.imp fun {x y} h _ _ => h

theorem enclosesNothing_append (hbefore : '(' ∉ before) (hafter : ')' ∉ after) :
    EnclosesNothing (before ++ after) := by
  refine List.pairwise_append.2 ⟨?_, ?_, ?_⟩
  · refine List.pairwise_of_forall_mem_list fun x hx y _ => ?_
    rintro ⟨rfl, -⟩
    exact hbefore hx
  · refine List.pairwise_of_forall_mem_list fun x _ y hy => ?_
    rintro ⟨-, rfl⟩
    exact hafter hy
  · rintro x hx y hy ⟨rfl, -⟩
    exact hbefore hx

theorem not_mem_takeWhile_bne (l : List Char) (c : Char) : c ∉ l.takeWhile (· != c) := by
  intro h
  simpa using List.mem_takeWhile_imp h

theorem enclosesNothing_withoutParentheses (l : List Char) :
    EnclosesNothing (withoutParentheses l) := by
  unfold withoutParentheses
  dsimp only
  split
  · refine enclosesNothing_append (not_mem_takeWhile_bne l '(') ?_
    rw [List.mem_reverse]
    exact not_mem_takeWhile_bne _ ')'
  next hclosed =>
    have happend := enclosesNothing_append (not_mem_takeWhile_bne l '(')
      (mt List.contains_iff_mem.2 hclosed)
    rwa [List.takeWhile_append_dropWhile] at happend

theorem EnclosesNothing.withoutParentheses_eq (h : EnclosesNothing l) :
    withoutParentheses l = l := by
  refine if_neg fun hclosed => ?_
  have hmem := List.contains_iff_mem.1 hclosed
  have hinside := h.sublist (l.dropWhile_sublist (· != '('))
  cases hdrop : l.dropWhile (· != '(') with
  | nil =>
    rw [hdrop] at hmem
    cases hmem
  | cons x rest =>
    have hx := List.head?_dropWhile_not (· != '(') l
    rw [hdrop] at hx hmem hinside
    obtain rfl : x = '(' := by simpa using hx
    obtain heq | hrest := List.mem_cons.1 hmem
    · cases heq
    · exact (List.pairwise_cons.1 hinside).1 _ hrest ⟨rfl, rfl⟩

/-! ## Types -/

theorem splitType_sublist (l : List Char) : (splitType l).1.Sublist l := by
  unfold splitType
  split
  · have hbefore := (l.reverse.dropWhile (· != ':')).tail_sublist.trans
      (l.reverse.dropWhile_sublist _)
    simpa using hbefore.reverse
  · exact .refl l

theorem splitType_of_not_mem (h : ':' ∉ l) : splitType l = (l, none) :=
  if_neg (mt List.contains_iff_mem.1 h)

/-! ## Replaced characters -/

/-- A character of a name, or the underscore that replaces it. -/
def replaced (c : Char) : Char :=
  if isReplaced c then '_' else c

theorem isReplaced_replaced (c : Char) : isReplaced (replaced c) = false := by
  unfold replaced
  split
  · rfl
  next h => simpa using h

theorem isBlank_replaced (h : Text.isBlank c = false) : Text.isBlank (replaced c) = false := by
  unfold replaced
  split
  · decide
  · exact h

theorem isLower_replaced (h : Text.IsLower c) : Text.IsLower (replaced c) := by
  unfold replaced
  split
  · exact ⟨by decide, by decide⟩
  · exact h

theorem filter_map_replaced (l : List Char) :
    (l.map replaced).filter isParenthesis = l.filter isParenthesis := by
  induction l with
  | nil => rfl
  | cons c l ih =>
    rw [List.map_cons, replaced]
    split
    next h =>
      have hc : isParenthesis c = false := by
        simp only [isReplaced, Bool.or_eq_true, beq_iff_eq] at h
        obtain (((rfl | rfl) | rfl) | rfl) | rfl := h <;> rfl
      rw [List.filter_cons_of_neg (by decide), List.filter_cons_of_neg (by simp [hc]), ih]
    · rw [List.filter_cons, List.filter_cons, ih]

/-! ## Underscores -/

/-- No two underscores stand next to each other. -/
def HasSingleUnderscores (l : List Char) : Prop :=
  l.IsChain fun x y => ¬(x = '_' ∧ y = '_')

theorem collapse_sublist (l : List Char) : (collapse l).Sublist l := by
  fun_induction collapse l with
  | case1 l ih => exact ih.cons _
  | case2 c l _ ih => exact ih.cons_cons c
  | case3 => exact .refl []

theorem head?_collapse (l : List Char) : (collapse l).head? = l.head? := by
  fun_induction collapse l with
  | case1 l ih => exact ih
  | case2 c l _ ih => rfl
  | case3 => rfl

theorem getLast?_collapse (l : List Char) : (collapse l).getLast? = l.getLast? := by
  fun_induction collapse l with
  | case1 l ih => rw [ih, List.getLast?_cons_cons]
  | case2 c l _ ih => rw [List.getLast?_cons, List.getLast?_cons, ih]
  | case3 => rfl

theorem filter_collapse (l : List Char) :
    (collapse l).filter isParenthesis = l.filter isParenthesis := by
  fun_induction collapse l with
  | case1 l ih => rw [ih, List.filter_cons_of_neg (a := '_') (l := '_' :: l) (by decide)]
  | case2 c l _ ih => rw [List.filter_cons, List.filter_cons, ih]
  | case3 => rfl

theorem hasSingleUnderscores_collapse (l : List Char) : HasSingleUnderscores (collapse l) := by
  fun_induction collapse l with
  | case1 l ih => exact ih
  | case2 c l hnext ih =>
    refine List.isChain_cons.2 ⟨?_, ih⟩
    rintro y hy ⟨rfl, rfl⟩
    rw [head?_collapse] at hy
    obtain ⟨rest, rfl⟩ := List.head?_eq_some_iff.1 hy
    exact hnext rest rfl rfl
  | case3 => exact .nil

theorem HasSingleUnderscores.collapse_eq (h : HasSingleUnderscores l) : collapse l = l := by
  fun_induction collapse l with
  | case1 l ih => exact absurd ⟨rfl, rfl⟩ ((List.isChain_cons.1 h).1 '_' rfl)
  | case2 c l _ ih => rw [ih (List.isChain_cons.1 h).2]
  | case3 => rfl

/-! ## Normal names -/

/-- The name is in the form that the names of columns are brought into. -/
structure IsNormal (name : List Char) : Prop where
  isLower : ∀ x ∈ name, Text.IsLower x
  notReplaced : ∀ x ∈ name, isReplaced x = false
  singleUnderscores : HasSingleUnderscores name
  enclosesNothing : EnclosesNothing name
  isTrimmed : Text.IsTrimmed Text.isBlank name

theorem normalName_eq (l : List Char) :
    normalName l = collapse ((Text.lowerCase l).map replaced) :=
  rfl

theorem isNormal_normalName (henclosed : EnclosesNothing l)
    (htrimmed : Text.IsTrimmed Text.isBlank l) : IsNormal (normalName l) := by
  rw [normalName_eq]
  have hfrom : ∀ x ∈ collapse ((Text.lowerCase l).map replaced),
      ∃ c ∈ Text.lowerCase l, replaced c = x :=
    fun x hx => List.mem_map.1 ((collapse_sublist _).subset hx)
  have hlower := htrimmed.lowerCase
  constructor
  case isLower =>
    intro x hx
    obtain ⟨c, hc, rfl⟩ := hfrom x hx
    exact isLower_replaced (Text.isLower_of_mem_lowerCase hc)
  case notReplaced =>
    intro x hx
    obtain ⟨c, -, rfl⟩ := hfrom x hx
    exact isReplaced_replaced c
  case singleUnderscores => exact hasSingleUnderscores_collapse _
  case enclosesNothing =>
    -- every step leaves the parentheses as they are, and in their order
    rw [← enclosesNothing_filter, filter_collapse, filter_map_replaced,
      Text.filter_lowerCase isFixed_of_isParenthesis, enclosesNothing_filter]
    exact henclosed
  case isTrimmed =>
    constructor
    · intro x hx
      rw [head?_collapse, List.head?_map] at hx
      obtain ⟨c, hc, rfl⟩ := Option.map_eq_some_iff.1 hx
      exact isBlank_replaced (hlower.head c hc)
    · intro x hx
      rw [getLast?_collapse, List.getLast?_map] at hx
      obtain ⟨c, hc, rfl⟩ := Option.map_eq_some_iff.1 hx
      exact isBlank_replaced (hlower.last c hc)

theorem IsNormal.normalName_eq (h : IsNormal name) : normalName name = name := by
  have hreplaced : name.map replaced = name := by
    refine (List.map_congr_left fun x hx => ?_).trans (List.map_id name)
    exact if_neg (by simp [h.notReplaced x hx])
  rw [Column.normalName_eq, Text.lowerCase_of_isLower h.isLower, hreplaced,
    h.singleUnderscores.collapse_eq]

/-- The name of a column comes from what stands in front of the type, whatever that is. -/
theorem name_of_ofHeader (ho : o.normalizeHeaders = true) (h : ofHeader o cell = .ok column) :
    column.name.toList = normalName (Text.trim Text.isBlank
      (splitType (withoutParentheses cell.toList)).1) := by
  rw [ofHeader, ho, if_pos rfl] at h
  generalize splitType (withoutParentheses cell.toList) = parts at h ⊢
  obtain ⟨name, type?⟩ := parts
  cases type? with
  | none =>
    cases h
    exact String.toList_ofList
  | some typeText =>
    dsimp only at h
    cases htype : typeNamed (String.ofList (Text.lowerCase (Text.trim Text.isBlank typeText))) with
    | error fault =>
      rw [htype] at h
      cases h
    | ok type =>
      rw [htype] at h
      cases h
      exact String.toList_ofList

/-- The name of a column is normal. -/
theorem isNormal_of_ofHeader (ho : o.normalizeHeaders = true)
    (h : ofHeader o cell = .ok column) : IsNormal column.name.toList := by
  rw [name_of_ofHeader ho h]
  have hsublist := (Text.trim_sublist Text.isBlank _).trans
    (splitType_sublist (withoutParentheses cell.toList))
  exact isNormal_normalName ((enclosesNothing_withoutParentheses cell.toList).sublist hsublist)
    (Text.isTrimmed_trim Text.isBlank _)

/-- A header cell that is a normal name is read as that name. -/
theorem IsNormal.ofHeader_eq (ho : o.normalizeHeaders = true) (h : IsNormal name) :
    ofHeader o (String.ofList name) = .ok ⟨String.ofList name, .string⟩ := by
  have hcolon : ':' ∉ name := fun hmem => absurd (h.notReplaced ':' hmem) (by decide)
  rw [ofHeader, ho, if_pos rfl, String.toList_ofList, h.enclosesNothing.withoutParentheses_eq,
    splitType_of_not_mem hcolon]
  dsimp only
  rw [pure_bind, if_pos rfl, h.isTrimmed.trim_eq, h.normalName_eq]
  rfl

/-- Normalizing yields a normal form. -/
theorem ofHeader_name_of_ofHeader (ho : o.normalizeHeaders = true)
    (h : ofHeader o cell = .ok column) :
    (∀ x ∈ [' ', '-', ',', ';', ':'], x ∉ column.name.toList) ∧
      ¬['_', '_'] <:+: column.name.toList ∧
      ofHeader o column.name = .ok ⟨column.name, .string⟩ := by
  have hnormal := isNormal_of_ofHeader ho h
  refine ⟨?_, ?_, ?_⟩
  · intro x hx hmem
    have hnot := hnormal.notReplaced x hmem
    simp only [List.mem_cons, List.not_mem_nil, or_false] at hx
    obtain rfl | rfl | rfl | rfl | rfl := hx <;> cases hnot
  · intro hinfix
    have hpair := hnormal.singleUnderscores.infix hinfix
    exact (List.isChain_cons.1 hpair).1 '_' rfl ⟨rfl, rfl⟩
  · have hself := hnormal.ofHeader_eq ho
    rwa [String.ofList_toList] at hself

/-- The colon in this name becomes an underscore, so that it ends no name when it is read again. -/
theorem ofHeader_of_unitPrice :
    ofHeader { normalizeHeaders := true } "Unit: Price (EUR):n" = .ok ⟨"unit_price", .number⟩ ∧
      (∀ x ∈ [' ', '-', ',', ';', ':'], x ∉ "unit_price".toList) ∧
      ¬['_', '_'] <:+: "unit_price".toList ∧
      ofHeader { normalizeHeaders := true } "unit_price" = .ok ⟨"unit_price", .string⟩ := by
  have hread : ofHeader { normalizeHeaders := true } "Unit: Price (EUR):n" =
      .ok ⟨"unit_price", .number⟩ := rfl
  exact ⟨hread, ofHeader_name_of_ofHeader rfl hread⟩

end Column
end Table
end TextualData
