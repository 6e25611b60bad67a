import Mathlib.Data.List.DropRight
import TextualData.Proofs.Divisions
import TextualData.Slices.Options

/-!
# Slices and line breaks

The slices of a text do not depend on how its line breaks are written: writing each line break as a
line feed, in the text or in its slices, gives the same slices (`Slices.cut_normalizeLineBreaks`).
No separator begins or ends between the halves of a line break.
-/

namespace TextualData

namespace Text

/-- A line break that consists of two characters has one in each text. -/
def SplitsPair (before after : List Char) : Prop :=
  before.getLast? = some '\r' ∧ after.head? = some '\n'

variable {l m before after : List Char} {c : Char}

theorem normalizeLineBreaks_cons (h : ¬SplitsPair [c] l) :
    normalizeLineBreaks (c :: l) = (if c = '\r' then '\n' else c) :: normalizeLineBreaks l := by
  rw [normalizeLineBreaks]
  rintro m rfl rfl
  exact h ⟨rfl, rfl⟩

theorem normalizeLineBreaks_of_ne (h : c ≠ '\r') (l : List Char) :
    normalizeLineBreaks (c :: l) = c :: normalizeLineBreaks l := by
  rw [normalizeLineBreaks_cons fun hsplit => h (by simpa using hsplit.1), if_neg h]

/-- A line break becomes a line feed, whatever follows it. -/
theorem exists_normalizeLineBreaks_cons (c : Char) (l : List Char) :
    ∃ m, normalizeLineBreaks (c :: l) = (if c = '\r' then '\n' else c) :: m := by
  by_cases hsplit : SplitsPair [c] l
  · obtain ⟨⟨⟩, hfeed⟩ := hsplit
    obtain ⟨m, rfl⟩ := List.head?_eq_some_iff.1 hfeed
    exact ⟨_, rfl⟩
  · exact ⟨_, normalizeLineBreaks_cons hsplit⟩

theorem SplitsPair.cons (h : SplitsPair l m) (c : Char) : SplitsPair (c :: l) m :=
  ⟨by rw [List.getLast?_cons, h.1, Option.getD_some], h.2⟩

theorem not_splitsPair_nil (l : List Char) : ¬SplitsPair [] l := by
  rintro ⟨⟨⟩, -⟩

theorem SplitsPair.append (h : SplitsPair l m) (before : List Char) : SplitsPair (before ++ l) m :=
  ⟨by rw [List.getLast?_append, h.1, Option.some_or], h.2⟩

/-- A line break that ends in a text begins at its end, in the last part of what is before. -/
theorem SplitsPair.of_append (h : SplitsPair (before ++ l) m) :
    SplitsPair l m ∨ l = [] ∧ SplitsPair before m := by
  cases l with
  | nil => exact .inr ⟨rfl, by rwa [List.append_nil] at h⟩
  | cons c l =>
    refine .inl ⟨?_, h.2⟩
    have hlast := h.1
    rwa [List.getLast?_append_cons] at hlast

theorem normalizeLineBreaks_append (h : ¬SplitsPair l m) :
    normalizeLineBreaks (l ++ m) = normalizeLineBreaks l ++ normalizeLineBreaks m := by
  fun_induction normalizeLineBreaks l with
  | case1 => rfl
  | case2 l ih =>
    rw [List.cons_append, List.cons_append, normalizeLineBreaks,
      ih fun hl => h ((hl.cons '\n').cons '\r'), List.cons_append]
  | case3 c l hpair ih =>
    have hc : ¬SplitsPair [c] (l ++ m) := by
      rintro ⟨hreturn, hfeed⟩
      cases l with
      | nil => exact h ⟨hreturn, hfeed⟩
      | cons d l => exact hpair l (by simpa using hreturn) (by simpa using hfeed)
    rw [List.cons_append, normalizeLineBreaks_cons hc, ih fun hl => h (hl.cons c), List.cons_append]

theorem normalizeLineBreaks_eq_nil : normalizeLineBreaks l = [] ↔ l = [] := by
  fun_cases normalizeLineBreaks l <;> simp

theorem notMem_normalizeLineBreaks (l : List Char) : '\r' ∉ normalizeLineBreaks l := by
  fun_induction normalizeLineBreaks l with
  | case1 => exact List.not_mem_nil
  | case2 l ih => simpa using ih
  | case3 c l _ ih =>
    by_cases hc : c = '\r'
    · simpa [hc] using ih
    · simpa [hc, Ne.symm hc] using ih

/-- A part of a normalized text comes from a part of the text. -/
theorem exists_append_of_normalizeLineBreaks (h : normalizeLineBreaks l = before ++ after) :
    ∃ x y, l = x ++ y ∧ normalizeLineBreaks x = before ∧ normalizeLineBreaks y = after := by
  fun_induction normalizeLineBreaks l generalizing before with
  | case1 =>
    obtain ⟨rfl, rfl⟩ := List.append_eq_nil_iff.1 h.symm
    exact ⟨[], [], rfl, rfl, rfl⟩
  | case2 l ih =>
    cases before with
    | nil => exact ⟨[], '\r' :: '\n' :: l, rfl, rfl, h⟩
    | cons b before =>
      obtain ⟨rfl, htail⟩ := List.cons_eq_cons.1 h
      obtain ⟨x, y, rfl, rfl, rfl⟩ := ih htail
      exact ⟨'\r' :: '\n' :: x, y, rfl, rfl, rfl⟩
  | case3 c l hpair ih =>
    cases before with
    | nil =>
      refine ⟨[], c :: l, rfl, rfl, ?_⟩
      rw [← List.nil_append after, ← h, normalizeLineBreaks]
      exact hpair
    | cons b before =>
      obtain ⟨rfl, htail⟩ := List.cons_eq_cons.1 h
      obtain ⟨x, y, rfl, rfl, rfl⟩ := ih htail
      refine ⟨c :: x, y, rfl, ?_, rfl⟩
      rw [normalizeLineBreaks]
      rintro m hc rfl
      exact hpair (m ++ y) hc rfl

theorem isBlank_normalized (c : Char) : isBlank (if c = '\r' then '\n' else c) = isBlank c := by
  split
  · next hc => rw [hc]; decide
  · rfl

theorem dropWhile_normalizeLineBreaks (l : List Char) :
    (normalizeLineBreaks l).dropWhile isBlank = normalizeLineBreaks (l.dropWhile isBlank) := by
  fun_induction normalizeLineBreaks l with
  | case1 => rfl
  | case2 l ih =>
    have hreturn : isBlank '\r' := by decide
    have hfeed : isBlank '\n' := by decide
    rw [List.dropWhile_cons_of_pos hfeed, List.dropWhile_cons_of_pos hreturn,
      List.dropWhile_cons_of_pos hfeed, ih]
  | case3 c l hpair ih =>
    by_cases hc : isBlank c
    · rw [List.dropWhile_cons_of_pos (by rwa [isBlank_normalized]),
        List.dropWhile_cons_of_pos hc, ih]
    · rw [List.dropWhile_cons_of_neg (by rwa [isBlank_normalized]),
        List.dropWhile_cons_of_neg hc, normalizeLineBreaks]
      exact hpair

theorem normalizeLineBreaks_concat_pair (l : List Char) :
    normalizeLineBreaks (l ++ ['\r'] ++ ['\n']) = normalizeLineBreaks (l ++ ['\r']) := by
  have hpair : ∀ m, ¬SplitsPair l ('\r' :: m) := by
    rintro m ⟨-, ⟨⟩⟩
  rw [List.append_assoc, List.singleton_append, normalizeLineBreaks_append (hpair _),
    normalizeLineBreaks_append (hpair _)]
  rfl

/-- What blanks at the end of a text are made of does not matter to what stands before them. -/
theorem rdropWhile_normalizeLineBreaks (l : List Char) :
    (normalizeLineBreaks l).rdropWhile isBlank = normalizeLineBreaks (l.rdropWhile isBlank) := by
  induction l using List.reverseRecOn with
  | nil => rfl
  | append_singleton l c ih =>
    by_cases hsplit : SplitsPair l [c]
    · obtain ⟨⟨l, rfl⟩, hc⟩ := hsplit.imp List.getLast?_eq_some_iff.1 id
      obtain rfl : c = '\n' := by simpa using hc
      have hfeed := List.rdropWhile_concat_pos isBlank (l ++ ['\r']) '\n' (by decide)
      rw [normalizeLineBreaks_concat_pair, ih, hfeed]
    · have hsingle : normalizeLineBreaks [c] = [if c = '\r' then '\n' else c] :=
        normalizeLineBreaks_cons fun h => by cases h.2
      have happend := normalizeLineBreaks_append hsplit
      by_cases hc : isBlank c
      · rw [happend, hsingle, List.rdropWhile_concat_pos _ _ _ (by rwa [isBlank_normalized]), ih,
          List.rdropWhile_concat_pos _ _ _ hc]
      · rw [List.rdropWhile_concat_neg _ _ _ hc, happend, hsingle,
          List.rdropWhile_concat_neg _ _ _ (by rwa [isBlank_normalized])]

theorem trim_normalizeLineBreaks (l : List Char) :
    trim isBlank (normalizeLineBreaks l) = normalizeLineBreaks (trim isBlank l) := by
  rw [trim, dropWhile_normalizeLineBreaks]
  exact rdropWhile_normalizeLineBreaks _

end Text

namespace Slices

open Text (normalizeLineBreaks SplitsPair)

variable {separator item found l rest before after last : List Char} {opening : Bool}
  {pieces : List (List Char × List Char)} {plan : Plan} {c : Char}

theorem afterLineBreak?_eq_none : afterLineBreak? (c :: l) = none ↔ Text.isLineBreak c = false := by
  unfold afterLineBreak?
  split
  · next heq =>
    obtain ⟨rfl, rfl⟩ := List.cons_eq_cons.1 heq
    simp [Text.isLineBreak]
  · next heq =>
    obtain ⟨rfl, rfl⟩ := List.cons_eq_cons.1 heq
    simp
  · next heq => cases heq

theorem ne_of_isLineBreak (h : Text.isLineBreak c = false) : c ≠ '\r' := by
  rintro rfl
  exact absurd h (by decide)

/-- A line break is one line feed when it is normalized, and it ends as a whole. -/
theorem afterLineBreak?_cases (h : afterLineBreak? l = some rest) :
    ∃ lineBreak, l = lineBreak ++ rest ∧ lineBreak ≠ [] ∧ ¬SplitsPair lineBreak rest ∧
      normalizeLineBreaks l = '\n' :: normalizeLineBreaks rest := by
  unfold afterLineBreak? at h
  split at h
  · obtain rfl := Option.some.inj h
    refine ⟨['\r', '\n'], rfl, by simp, ?_, rfl⟩
    rintro ⟨⟨⟩, -⟩
  · next c l hpair =>
    obtain ⟨hc, hl⟩ := Option.ite_none_right_eq_some.1 h
    obtain rfl := Option.some.inj hl
    have hsplit : ¬SplitsPair [c] l := by
      rintro ⟨⟨⟩, hfeed⟩
      obtain ⟨m, rfl⟩ := List.head?_eq_some_iff.1 hfeed
      exact hpair m rfl rfl
    refine ⟨[c], rfl, by simp, hsplit, ?_⟩
    rw [Text.normalizeLineBreaks_cons hsplit]
    simp only [Text.isLineBreak, Bool.or_eq_true, beq_iff_eq] at hc
    rcases hc with rfl | rfl <;> rfl
  · cases h

theorem afterSeparator?_lineBreak (h : afterLineBreak? l = some rest) :
    afterSeparator? opening ('\n' :: separator) l = afterSeparator? false separator rest := by
  cases l with
  | nil => cases h
  | cons c l =>
    rw [afterSeparator?, if_pos rfl]
    split
    · next hrest => rw [Option.some.inj (h.symm.trans hrest)]
    · next hnone => cases h.symm.trans hnone

theorem afterSeparator?_blank (h : Text.isLineBreak c = false) :
    afterSeparator? opening ('\n' :: separator) (c :: l) =
      if isPadding c && !opening then afterSeparator? opening ('\n' :: separator) l else none := by
  rw [afterSeparator?, if_pos rfl]
  split
  · next hrest => cases hrest.symm.trans (afterLineBreak?_eq_none.2 h)
  · rfl

theorem afterSeparator?_char {s : Char} (h : s ≠ '\n') :
    afterSeparator? opening (s :: separator) (c :: l) =
      if s = c then afterSeparator? false separator l else none := by
  rw [afterSeparator?, if_neg h]

/-- A separator stands in the normalized text where it stands in the text. -/
theorem afterSeparator?_normalizeLineBreaks (hsep : '\r' ∉ separator) (l : List Char) :
    afterSeparator? opening separator (normalizeLineBreaks l) =
      (afterSeparator? opening separator l).map normalizeLineBreaks := by
  fun_induction afterSeparator? opening separator l with
  | case1 => rw [afterSeparator?]; rfl
  | case2 => rw [normalizeLineBreaks, afterSeparator?]; rfl
  | case3 opening separator c m rest hrest ih =>
    obtain ⟨-, -, -, -, hnormal⟩ := afterLineBreak?_cases hrest
    have hfeed : afterLineBreak? ('\n' :: normalizeLineBreaks rest) =
        some (normalizeLineBreaks rest) := rfl
    rw [hnormal, afterSeparator?_lineBreak hfeed, ih fun h => hsep (List.mem_cons_of_mem _ h)]
  | case4 opening separator c m hnone hpadding ih =>
    have hc := afterLineBreak?_eq_none.1 hnone
    rw [Text.normalizeLineBreaks_of_ne (ne_of_isLineBreak hc), afterSeparator?_blank hc,
      if_pos hpadding, ih hsep]
  | case5 opening separator c m hnone hpadding =>
    have hc := afterLineBreak?_eq_none.1 hnone
    rw [Text.normalizeLineBreaks_of_ne (ne_of_isLineBreak hc), afterSeparator?_blank hc,
      if_neg hpadding]
    rfl
  | case6 opening separator c m hs ih =>
    have hc : c ≠ '\r' := fun h => hsep (h ▸ List.mem_cons_self)
    rw [Text.normalizeLineBreaks_of_ne hc, afterSeparator?_char hs, if_pos rfl,
      ih fun h => hsep (List.mem_cons_of_mem _ h)]
  | case7 opening s separator c m hs hc =>
    obtain ⟨l, hnormal⟩ := Text.exists_normalizeLineBreaks_cons c m
    have hne : s ≠ if c = '\r' then '\n' else c := by
      split
      · exact hs
      · exact hc
    rw [hnormal, afterSeparator?_char hs, if_neg hne]
    rfl

theorem Plan.notMem_separator_of_setSeparator {plan' : Plan} {name value : String}
    (h : plan.setSeparator name value = .ok plan') : '\r' ∉ plan'.separator := by
  unfold Plan.setSeparator at h
  split at h
  · cases h
  · next hvalue =>
    cases h
    have hnone := Text.notMem_normalizeLineBreaks value.toList
    rwa [hvalue] at hnone

/-- Other options leave the separator as it is. -/
theorem Plan.notMem_separator_of_set {plan' : Plan} {name : String} {v : Value}
    (hplan : '\r' ∉ plan.separator) (h : plan.set name v = .ok plan') : '\r' ∉ plan'.separator := by
  unfold Plan.set at h
  split at h
  · cases hvalue : LoaderOption.string "separator" v with
    | error fault => rw [hvalue] at h; cases h
    | ok value =>
      rw [hvalue] at h
      exact notMem_separator_of_setSeparator h
  · cases hvalue : LoaderOption.boolean "trim" v with
    | error fault => rw [hvalue] at h; cases h
    | ok value => rw [hvalue] at h; cases h; exact hplan
  · cases hvalue : LoaderOption.boolean "dropEmptyLastItem" v with
    | error fault => rw [hvalue] at h; cases h
    | ok value => rw [hvalue] at h; cases h; exact hplan
  · cases h

/-- The options of a call give a separator in which line breaks are written as line feeds. -/
theorem Plan.notMem_separator_of_ofHash {options : Hash} (h : Plan.ofHash options = .ok plan) :
    '\r' ∉ plan.separator := by
  have hfold : ∀ {start : Plan}, '\r' ∉ start.separator →
      options.foldlM (fun plan e => plan.set e.1 e.2) start = .ok plan → '\r' ∉ plan.separator := by
    clear h
    induction options with
    | nil =>
      rintro start hstart ⟨⟩
      exact hstart
    | cons e options ih =>
      intro start hstart hoptions
      rw [List.foldlM_cons] at hoptions
      cases hset : start.set e.1 e.2 with
      | error fault => rw [hset] at hoptions; cases hoptions
      | ok next =>
        rw [hset] at hoptions
        exact ih (notMem_separator_of_set hstart hset) hoptions
  exact hfold (by decide) h

/-- The second half of a line break begins no separator that the first half does not begin. -/
theorem afterSeparator?_pair (hsep : '\r' ∉ separator) (hne : separator ≠ []) (l : List Char) :
    afterSeparator? true separator ('\r' :: '\n' :: l) =
      afterSeparator? true separator ('\n' :: l) := by
  obtain ⟨s, separator, rfl⟩ := List.exists_cons_of_ne_nil hne
  have hreturn : s ≠ '\r' := fun h => hsep (h ▸ List.mem_cons_self)
  by_cases hfeed : s = '\n'
  · subst hfeed
    rw [afterSeparator?_lineBreak rfl, afterSeparator?_lineBreak rfl]
  · rw [afterSeparator?_char hfeed, afterSeparator?_char hfeed, if_neg hreturn, if_neg hfeed]

/-- No separator begins between the halves of a line break. -/
theorem Misses.not_splitsPair (hsep : '\r' ∉ separator) (hne : separator ≠ [])
    (misses : Misses separator item (found ++ rest))
    (hfound : afterSeparator? true separator (found ++ rest) = some rest) :
    ¬SplitsPair item (found ++ rest) := by
  rintro ⟨hreturn, hfeed⟩
  obtain ⟨front, rfl⟩ := List.getLast?_eq_some_iff.1 hreturn
  obtain ⟨m, hm⟩ := List.head?_eq_some_iff.1 hfeed
  have hmiss := misses front ['\r'] rfl (by simp)
  rw [List.singleton_append, hm, afterSeparator?_pair hsep hne, ← hm, hfound] at hmiss
  cases hmiss

/-- No separator ends between the halves of a line break. -/
theorem exists_not_splitsPair (hsep : '\r' ∉ separator)
    (h : afterSeparator? opening separator l = some rest) :
    ∃ found, l = found ++ rest ∧ ¬SplitsPair found rest := by
  have hcons : ∀ {c : Char} {found : List Char}, c ≠ '\r' → ¬SplitsPair found rest →
      ¬SplitsPair (c :: found) rest := by
    intro c found hc hfound hsplit
    rw [← List.singleton_append] at hsplit
    rcases hsplit.of_append with hsplit | ⟨rfl, hsplit⟩
    · exact hfound hsplit
    · exact hc (by simpa using hsplit.1)
  fun_induction afterSeparator? opening separator l with
  | case1 opening l => exact ⟨[], Option.some.inj h, Text.not_splitsPair_nil rest⟩
  | case2 => cases h
  | case3 opening separator c m after hbreak ih =>
    obtain ⟨lineBreak, hl, -, hsplit, -⟩ := afterLineBreak?_cases hbreak
    obtain ⟨found, rfl, hfound⟩ := ih (fun h => hsep (List.mem_cons_of_mem _ h)) h
    refine ⟨lineBreak ++ found, by rw [hl, List.append_assoc], fun hboth => ?_⟩
    rcases hboth.of_append with hlast | ⟨rfl, hlast⟩
    · exact hfound hlast
    · exact hsplit hlast
  | case4 opening separator c m hnone hpadding ih =>
    obtain ⟨found, rfl, hfound⟩ := ih hsep h
    exact ⟨c :: found, rfl, hcons (ne_of_isLineBreak (afterLineBreak?_eq_none.1 hnone)) hfound⟩
  | case5 => cases h
  | case6 opening separator c m hs ih =>
    obtain ⟨found, rfl, hfound⟩ := ih (fun h => hsep (List.mem_cons_of_mem _ h)) h
    exact ⟨c :: found, rfl, hcons (fun hc => hsep (hc ▸ List.mem_cons_self)) hfound⟩
  | case7 => cases h

theorem not_splitsPair_of_afterSeparator? (hsep : '\r' ∉ separator)
    (h : afterSeparator? opening separator (found ++ rest) = some rest) :
    ¬SplitsPair found rest := by
  obtain ⟨found', heq, hfound⟩ := exists_not_splitsPair hsep h
  rwa [List.append_cancel_right heq]

/-- An item in which no separator is found has none when it is normalized. -/
theorem Misses.normalizeLineBreaks (hsep : '\r' ∉ separator) (misses : Misses separator item after)
    (h : ¬SplitsPair item after) :
    Misses separator (Text.normalizeLineBreaks item) (Text.normalizeLineBreaks after) := by
  intro front back heq hne
  obtain ⟨x, y, rfl, rfl, rfl⟩ := Text.exists_append_of_normalizeLineBreaks heq
  have hy : y ≠ [] := hne ∘ Text.normalizeLineBreaks_eq_nil.2
  rw [← Text.normalizeLineBreaks_append fun hsplit => h (hsplit.append x),
    afterSeparator?_normalizeLineBreaks hsep, misses x y rfl hy]
  rfl

/-- A text in which line breaks are written as line feeds divides at the same separators. -/
theorem Divides.normalizeLineBreaks (hsep : '\r' ∉ separator) (hne : separator ≠ [])
    (h : Divides separator l pieces last) : Divides separator (Text.normalizeLineBreaks l)
      (pieces.map (Prod.map Text.normalizeLineBreaks Text.normalizeLineBreaks))
      (Text.normalizeLineBreaks last) := by
  induction h with
  | last misses => exact .last (misses.normalizeLineBreaks hsep (by rintro ⟨-, ⟨⟩⟩))
  | @next item found rest last pieces misses isFound more ih =>
    have hitem := misses.not_splitsPair hsep hne isFound
    have hfound := not_splitsPair_of_afterSeparator? hsep isFound
    have hmisses := misses.normalizeLineBreaks hsep hitem
    have hnext : afterSeparator? true separator (Text.normalizeLineBreaks (found ++ rest)) =
        some (Text.normalizeLineBreaks rest) := by
      rw [afterSeparator?_normalizeLineBreaks hsep, isFound, Option.map_some]
    rw [Text.normalizeLineBreaks_append hitem]
    rw [Text.normalizeLineBreaks_append hfound] at hmisses hnext ⊢
    exact .next hmisses hnext ih

/-- The text that pieces and what follows them make up. -/
def joined : List (List Char × List Char) → List Char → List Char
  | [], last => last
  | (item, found) :: pieces, last => item ++ (found ++ joined pieces last)

theorem joined_append (front back : List (List Char × List Char)) (last : List Char) :
    joined (front ++ (item, found) :: back) last =
      joined front item ++ (found ++ joined back last) := by
  induction front with
  | nil => rfl
  | cons piece front ih => rw [List.cons_append, joined, ih]; simp [joined]

theorem Divides.joined_eq (h : Divides separator l pieces last) : joined pieces last = l := by
  induction h with
  | last => rfl
  | next _ _ _ ih => rw [joined, ih]

/-- No separator begins or ends between the halves of a line break. -/
theorem Divides.not_splitsPair (hsep : '\r' ∉ separator) (hne : separator ≠ [])
    (h : Divides separator l pieces last) {front back : List (List Char × List Char)}
    (hpieces : pieces = front ++ (item, found) :: back) :
    ¬SplitsPair (joined front item) (found ++ joined back last) ∧
      ¬SplitsPair (joined front item ++ found) (joined back last) := by
  induction h generalizing front with
  | last => simp at hpieces
  | @next first sep rest last pieces misses isFound more ih =>
    have hfirst := misses.not_splitsPair hsep hne isFound
    have hsecond : ¬SplitsPair (first ++ sep) rest := by
      intro hsplit
      rcases hsplit.of_append with hlast | ⟨rfl, hlast⟩
      · exact not_splitsPair_of_afterSeparator? hsep isFound hlast
      · exact hfirst hlast
    cases front with
    | nil =>
      obtain ⟨hpiece, rfl⟩ := List.cons_eq_cons.1 hpieces
      obtain ⟨rfl, rfl⟩ := Prod.mk.inj hpiece
      rw [more.joined_eq]
      exact ⟨hfirst, hsecond⟩
    | cons piece front =>
      rw [List.cons_append] at hpieces
      obtain ⟨rfl, hmore⟩ := List.cons_eq_cons.1 hpieces
      obtain ⟨hstart, hstop⟩ := ih hmore
      -- An empty text behind the first separator leaves the place where that separator ends.
      have hlater : ∀ {x y : List Char}, x ++ y = rest → ¬SplitsPair x y →
          ¬SplitsPair (first ++ (sep ++ x)) y := by
        intro x y hrest hxy hsplit
        rw [← List.append_assoc] at hsplit
        rcases hsplit.of_append with hlast | ⟨rfl, hlast⟩
        · exact hxy hlast
        · exact hsecond (hrest ▸ hlast)
      have hrest : joined front item ++ (found ++ joined back last) = rest := by
        rw [← joined_append, ← hmore, more.joined_eq]
      refine ⟨hlater hrest hstart, ?_⟩
      have hstopped := hlater (by rw [List.append_assoc, hrest]) hstop
      simpa [joined] using hstopped

theorem shown_normalizeLineBreaks (plan : Plan) (item : List Char) :
    shown plan (normalizeLineBreaks item) = normalizeLineBreaks (shown plan item) := by
  unfold shown
  split
  · exact Text.trim_normalizeLineBreaks item
  · rfl

/-- The slices of a text in which line breaks are written as line feeds are the slices of the text
with their line breaks written so. Texts that differ in their line breaks only have the same slices
up to line breaks, and no separator begins or ends between the halves of a line break. -/
theorem cut_normalizeLineBreaks (plan : Plan) (hsep : '\r' ∉ plan.separator) (l : List Char) :
    cut plan (normalizeLineBreaks l) = (cut plan l).map normalizeLineBreaks ∧
      (∀ l', normalizeLineBreaks l' = normalizeLineBreaks l →
        (cut plan l').map normalizeLineBreaks = (cut plan l).map normalizeLineBreaks) ∧
      ∀ pieces last, Divides plan.separator l pieces last →
        ∀ front item found back, pieces = front ++ (item, found) :: back →
          ¬SplitsPair (joined front item) (found ++ joined back last) ∧
            ¬SplitsPair (joined front item ++ found) (joined back last) := by
  have hcut : ∀ l, cut plan (normalizeLineBreaks l) = (cut plan l).map normalizeLineBreaks := by
    intro l
    have hne := plan.separator_ne_nil
    obtain ⟨pieces, last, hdivides, hitems⟩ := exists_divides_cut plan l
    obtain ⟨pieces', last', hdivides', hitems'⟩ := exists_divides_cut plan (normalizeLineBreaks l)
    obtain ⟨rfl, rfl⟩ := hdivides'.unique hne (hdivides.normalizeLineBreaks hsep hne)
    rw [hitems, hitems']
    simp only [shown_normalizeLineBreaks, Text.normalizeLineBreaks_eq_nil, List.map_append,
      List.map_map, Function.comp_def, Prod.map_fst, apply_ite (List.map normalizeLineBreaks),
      List.map_nil, List.map_singleton]
  refine ⟨hcut l, fun l' h => ?_, fun pieces last hdivides front item found back hpieces => ?_⟩
  · rw [← hcut, ← hcut, h]
  · exact hdivides.not_splitsPair hsep plan.separator_ne_nil hpieces

/-- An empty line with blanks separates two slices, of which the first holds a line break. -/
theorem cut_normalizeLineBreaks_emptyLine :
    '\r' ∉ ['\n', '\n'] ∧
      cut { separator := ['\n', '\n'] } "a\r\nb\r\t\r\nc".toList = ["a\r\nb".toList, "c".toList] ∧
      cut { separator := ['\n', '\n'] } "a\nb\n\t\nc".toList = ["a\nb".toList, "c".toList] := by
  have hcut : cut { separator := ['\n', '\n'] } "a\r\nb\r\t\r\nc".toList =
      ["a\r\nb".toList, "c".toList] := by
    decide +kernel
  refine ⟨by decide, hcut, ?_⟩
  have hnormal := (cut_normalizeLineBreaks { separator := ['\n', '\n'] } (by decide)
    "a\r\nb\r\t\r\nc".toList).1
  rw [hcut] at hnormal
  exact hnormal

end Slices
end TextualData
