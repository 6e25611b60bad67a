import Mathlib.Data.List.TakeWhile
import TextualData.Proofs.WrittenProperties

/-!
# Folded lines of properties files

A line of a properties file that carries an entry can be folded: wherever no odd number of
backslashes stands before it, a part of the line can be moved to the next line, after a backslash
and with blanks in front (`Properties.Folds`). However often that is done, the file is read as
before (`Properties.parse_of_folds`).
-/

namespace TextualData

namespace Text

variable {before after text line : List Char}

/-- A character that ends a line begins a line break, with its other half if that follows. -/
theorem exists_lineBreak_append {c : Char} (h : isLineBreak c) (l : List Char) :
    ∃ lineBreak rest, c :: l = lineBreak ++ rest ∧ Literal.IsLineBreak lineBreak ∧
      (lineBreak = ['\r'] → rest.head? ≠ some '\n') := by
  simp only [isLineBreak, Bool.or_eq_true, beq_iff_eq] at h
  rcases h with rfl | rfl
  · exact ⟨['\n'], l, rfl, .lineFeed, by simp⟩
  · by_cases hpair : l.head? = some '\n'
    · obtain ⟨rest, rfl⟩ := List.head?_eq_some_iff.1 hpair
      exact ⟨['\r', '\n'], rest, rfl, .pair, by simp⟩
    · exact ⟨['\r'], l, rfl, .carriageReturn, fun _ => hpair⟩

/-- A text with a line break begins with a whole line. -/
theorem exists_line_append (h : ∃ c ∈ text, isLineBreak c) :
    ∃ line lineBreak rest, text = line ++ (lineBreak ++ rest) ∧
      (∀ c ∈ line, isLineBreak c = false) ∧ Literal.IsLineBreak lineBreak ∧
      (lineBreak = ['\r'] → rest.head? ≠ some '\n') := by
  obtain ⟨c, hfind⟩ := Option.isSome_iff_exists.1 (List.find?_isSome.2 h)
  obtain ⟨hc, line, l, rfl, hline⟩ := List.find?_eq_some_iff_append.1 hfind
  obtain ⟨lineBreak, rest, hrest, hbreak, noPair⟩ := exists_lineBreak_append hc l
  exact ⟨line, lineBreak, rest, by rw [hrest], by simpa using hline, hbreak, noPair⟩

/-- The lines of a text that ends with a line break come before those of what follows. -/
theorem lines_append_text {before text : List Char} (hlast : ∀ c ∈ before.getLast?, isLineBreak c)
    (noPair : text.head? ≠ some '\n') : lines (before ++ text) = lines before ++ lines text := by
  by_cases hbefore : before = []
  · subst hbefore
    rfl
  · have hbreak : ∃ c ∈ before, isLineBreak c :=
      ⟨_, List.getLast_mem hbefore, hlast _ (List.getLast?_eq_some_getLast hbefore)⟩
    obtain ⟨line, lineBreak, rest, rfl, hline, hbreak, hpair⟩ := exists_line_append hbreak
    have hpairText : lineBreak = ['\r'] → (rest ++ text).head? ≠ some '\n' := by
      intro hreturn
      cases rest with
      | nil => exact noPair
      | cons c rest => exact hpair hreturn
    have hlastRest : ∀ c ∈ rest.getLast?, isLineBreak c := by
      intro c hc
      refine hlast c ?_
      rw [Option.mem_def] at hc
      simp [List.getLast?_append, hc]
    have : 0 < lineBreak.length := by cases hbreak <;> simp
    rw [List.append_assoc, List.append_assoc, lines_append hline hbreak hpairText,
      lines_append hline hbreak hpair, lines_append_text hlastRest noPair, List.cons_append]
termination_by before.length
decreasing_by
  subst_vars
  simp only [List.length_append]
  omega

/-- A line is the first one of a text if the text ends after it, or a line break follows. -/
theorem exists_lines_eq_cons (hafter : ∀ c ∈ after.head?, isLineBreak c) :
    ∃ more, ∀ {line : List Char}, (∀ c ∈ line, isLineBreak c = false) → line ≠ [] →
      lines (line ++ after) = line :: more := by
  cases after with
  | nil =>
    refine ⟨[], fun {line} hline hne => ?_⟩
    rw [lines, lines_go_append hline, lines.go, List.append_nil, if_neg (by simpa using hne),
      List.reverse_reverse]
  | cons c l =>
    obtain ⟨lineBreak, rest, hrest, hbreak, noPair⟩ := exists_lineBreak_append (hafter c rfl) l
    exact ⟨lines rest, fun hline _ => hrest ▸ lines_append hline hbreak noPair⟩

end Text

namespace Properties

/-- A line that carries an entry and does not go on in the next one. -/
structure IsEntryLine (line : List Char) : Prop where
  noLineBreak : ∀ c ∈ line, Text.isLineBreak c = false
  notBlank : ∃ c ∈ line, isSpace c = false
  notComment : isComment (line.dropWhile isSpace) = false
  complete : Even (trailingBackslashes line)

/-- What follows the lines continues the last of them: it ends in an odd number of backslashes, and
it is no comment, or it continues a line itself. -/
inductive LeaveOpen : List (List Char) → Prop where
  | entry {lines : List (List Char)} {line : List Char} (odd : Odd (trailingBackslashes line))
      (notComment : isComment (line.dropWhile isSpace) = false) : LeaveOpen (lines ++ [line])
  | continuation {lines : List (List Char)} {line : List Char}
      (odd : Odd (trailingBackslashes line)) (isOpen : LeaveOpen lines) :
      LeaveOpen (lines ++ [line])

/-- The rest of a line, whose beginning is given, in one or more lines: parts of it are moved to
the next line, after a backslash and with blanks in front. No line is cut after an odd number of
backslashes or before a blank. -/
inductive Folds : List Char → List Char → List Char → Prop where
  | whole {start line : List Char} : Folds start line line
  | fold {start line rest lineBreak blanks folded : List Char}
      (even : Even (trailingBackslashes (start ++ line))) (nonempty : rest ≠ [])
      (noBlank : ∀ c ∈ rest.head?, isSpace c = false) (isLineBreak : Literal.IsLineBreak lineBreak)
      (areBlanks : ∀ c ∈ blanks, isSpace c) (more : Folds (start ++ line) rest folded) :
      Folds start (line ++ rest) (line ++ '\\' :: (lineBreak ++ (blanks ++ folded)))

variable {start kept line written lead before after : List Char} {lines more : List (List Char)}

theorem continues_iff : continues line ↔ Odd (trailingBackslashes line) := by
  rw [Nat.odd_iff, continues, beq_iff_eq, trailingBackslashes]

theorem even_trailingBackslashes_of_blanks (h : ∀ c ∈ lead, isSpace c) :
    Even (trailingBackslashes lead) := by
  induction lead with
  | nil => exact Even.zero
  | cons c lead ih =>
    have hc : c ≠ '\\' := by
      rintro rfl
      exact absurd (h _ List.mem_cons_self) (by decide)
    exact (even_trailingBackslashes_cons hc).2 (ih fun d hd => h d (List.mem_cons_of_mem _ hd))

/-- Blanks in front do not count. -/
theorem even_trailingBackslashes_dropWhile (line : List Char) :
    Even (trailingBackslashes (line.dropWhile isSpace)) ↔ Even (trailingBackslashes line) := by
  have hlead : Even (trailingBackslashes (line.takeWhile isSpace)) :=
    even_trailingBackslashes_of_blanks (List.all_eq_true.1 List.all_takeWhile)
  rw [← even_trailingBackslashes_append hlead, List.takeWhile_append_dropWhile]

/-- A backslash at the end of a line makes it go on. -/
theorem odd_trailingBackslashes_concat :
    Odd (trailingBackslashes (line ++ ['\\'])) ↔ Even (trailingBackslashes line) := by
  rw [trailingBackslashes_append, if_pos (by rfl), List.length_singleton, Nat.odd_add,
    iff_true_left odd_one]

theorem not_leaveOpen_nil : ¬LeaveOpen [] := by
  generalize hnil : [] = lines
  rintro (_ | _) <;> simp at hnil

theorem leaveOpen_concat : LeaveOpen (lines ++ [line]) ↔ Odd (trailingBackslashes line) ∧
    (isComment (line.dropWhile isSpace) = false ∨ LeaveOpen lines) := by
  constructor
  · generalize hall : lines ++ [line] = all
    rintro (⟨odd, notComment⟩ | ⟨odd, isOpen⟩) <;>
      obtain ⟨rfl, rfl⟩ := List.append_inj' hall rfl |>.imp_right List.singleton_inj.1
    · exact ⟨odd, .inl notComment⟩
    · exact ⟨odd, .inr isOpen⟩
  · rintro ⟨odd, notComment | isOpen⟩
    · exact .entry odd notComment
    · exact .continuation odd isOpen

theorem logicalLines_comment (h : isComment (line.dropWhile isSpace))
    (lines : List (List Char)) : logicalLines none (line :: lines) = logicalLines none lines := by
  simp only [logicalLines, h, Bool.or_true, if_true]

theorem logicalLines_blank (h : ∀ c ∈ line, isSpace c) (lines : List (List Char)) :
    logicalLines none (line :: lines) = logicalLines none lines := by
  have hnil : line.dropWhile isSpace = [] := List.dropWhile_eq_nil_iff.2 h
  simp only [logicalLines, hnil, List.isEmpty_nil, Bool.true_or, if_true]

/-- A line that carries an entry is read as if it continued an empty one. -/
theorem logicalLines_entry (notBlank : ∃ c ∈ line, isSpace c = false)
    (notComment : isComment (line.dropWhile isSpace) = false) (lines : List (List Char)) :
    logicalLines none (line :: lines) = logicalLines (some []) (line :: lines) := by
  have hne : (line.dropWhile isSpace).isEmpty = false := by
    rw [List.isEmpty_eq_false_iff, ne_eq, List.dropWhile_eq_nil_iff]
    obtain ⟨c, hc, hspace⟩ := notBlank
    exact fun hall => by simp [hall c hc] at hspace
  simp only [logicalLines, hne, notComment, Bool.or_self, Bool.false_eq_true, if_false,
    List.nil_append]

/-- A line that goes on in the next one. -/
theorem logicalLines_odd (hkept : Even (trailingBackslashes kept))
    (hline : Odd (trailingBackslashes line)) (lines : List (List Char)) :
    logicalLines (some kept) (line :: lines) =
      logicalLines (some (kept ++ line.dropWhile isSpace).dropLast) lines := by
  have hgoes : continues (kept ++ line.dropWhile isSpace) := by
    rwa [continues_iff, ← Nat.not_even_iff_odd, even_trailingBackslashes_append hkept,
      even_trailingBackslashes_dropWhile, Nat.not_even_iff_odd]
  simp only [logicalLines, hgoes, if_true]

/-- The last line of an entry. -/
theorem logicalLines_even (hkept : Even (trailingBackslashes kept))
    (hline : Even (trailingBackslashes line)) (lines : List (List Char)) :
    logicalLines (some kept) (line :: lines) =
      (kept ++ line.dropWhile isSpace) :: logicalLines none lines := by
  have hends : continues (kept ++ line.dropWhile isSpace) = false := by
    rwa [Bool.eq_false_iff, ne_eq, continues_iff, Nat.not_odd_iff_even,
      even_trailingBackslashes_append hkept, even_trailingBackslashes_dropWhile]
  simp only [logicalLines, hends, Bool.false_eq_true, if_false]

/-- Without the backslash that makes it go on, a line ends in an even number of them. -/
theorem even_trailingBackslashes_dropLast (h : Odd (trailingBackslashes line)) :
    Even (trailingBackslashes line.dropLast) := by
  obtain rfl | ⟨line, c, rfl⟩ := List.eq_nil_or_concat' line
  · exact absurd h (by decide)
  · rw [List.dropLast_concat]
    by_cases hc : c = '\\'
    · subst hc
      exact odd_trailingBackslashes_concat.1 h
    · rw [trailingBackslashes_concat hc] at h
      exact absurd h (by decide)

/-- What a file with an open entry, or without one, makes of a line. -/
theorem exists_logicalLines_cons {kept? : Option (List Char)}
    (hkept : ∀ kept ∈ kept?, Even (trailingBackslashes kept)) (line : List Char) :
    ∃ done next?, (next?.isSome ↔ Odd (trailingBackslashes line) ∧
        (isComment (line.dropWhile isSpace) = false ∨ kept?.isSome)) ∧
      (∀ next ∈ next?, Even (trailingBackslashes next)) ∧
      ∀ lines, logicalLines kept? (line :: lines) = done ++ logicalLines next? lines := by
  have hsome : ∀ {kept : List Char}, Even (trailingBackslashes kept) → ∃ done next?,
      (next?.isSome ↔ Odd (trailingBackslashes line)) ∧
        (∀ next ∈ next?, Even (trailingBackslashes next)) ∧
        ∀ lines, logicalLines (some kept) (line :: lines) = done ++ logicalLines next? lines := by
    intro kept heven
    by_cases hodd : Odd (trailingBackslashes line)
    · refine ⟨[], some (kept ++ line.dropWhile isSpace).dropLast, by simp [hodd], ?_,
        logicalLines_odd heven hodd⟩
      simp only [Option.mem_def, Option.some.injEq, forall_eq']
      refine even_trailingBackslashes_dropLast ?_
      rwa [← Nat.not_even_iff_odd, even_trailingBackslashes_append heven,
        even_trailingBackslashes_dropWhile, Nat.not_even_iff_odd]
    · exact ⟨[_], none, by simp [hodd], by simp,
        logicalLines_even heven (Nat.not_odd_iff_even.1 hodd)⟩
  cases kept? with
  | some kept => simpa using hsome (hkept kept rfl)
  | none =>
    by_cases hcomment : isComment (line.dropWhile isSpace)
    · exact ⟨[], none, by simp [hcomment], by simp, logicalLines_comment hcomment⟩
    by_cases hblank : ∀ c ∈ line, isSpace c
    · have heven := even_trailingBackslashes_of_blanks hblank
      exact ⟨[], none, by simp [heven], by simp, logicalLines_blank hblank⟩
    · rw [Bool.not_eq_true] at hcomment
      simp only [not_forall, Bool.not_eq_true, exists_prop] at hblank
      simpa [logicalLines_entry hblank hcomment, hcomment] using @hsome [] Even.zero

/-- Lines are read in order, and what they leave open is all that later ones depend on. -/
theorem exists_logicalLines_append (lines : List (List Char)) :
    ∃ done kept?, (kept?.isSome ↔ LeaveOpen lines) ∧
      (∀ kept ∈ kept?, Even (trailingBackslashes kept)) ∧
      ∀ more, logicalLines none (lines ++ more) = done ++ logicalLines kept? more := by
  induction lines using List.reverseRecOn with
  | nil =>
    exact ⟨[], none, by simp [not_leaveOpen_nil], by simp, fun _ => rfl⟩
  | append_singleton lines line ih =>
    obtain ⟨done, kept?, hopen, heven, hlines⟩ := ih
    obtain ⟨done', next?, hopen', heven', hline⟩ := exists_logicalLines_cons heven line
    refine ⟨done ++ done', next?, by rw [leaveOpen_concat, ← hopen, hopen'], heven', fun more => ?_⟩
    rw [List.append_assoc, List.singleton_append, hlines, hline, List.append_assoc]

theorem dropWhile_append_of_head? {l m : List Char} (h : ∀ c ∈ m.head?, isSpace c = false) :
    (l ++ m).dropWhile isSpace = l.dropWhile isSpace ++ m := by
  rw [List.dropWhile_append]
  split
  · next hl => rw [dropWhile_isSpace h, List.isEmpty_iff.1 hl, List.nil_append]
  · rfl

theorem Folds.head?_eq (h : Folds start line written) (hne : line ≠ []) :
    written.head? = line.head? ∨ written.head? = some '\\' := by
  cases h with
  | whole => exact .inl rfl
  | @fold _ front => cases front <;> simp

/-- A folded line does not begin with the second half of a line break. -/
theorem Folds.head?_append_ne (h : Folds start line written) (hne : line ≠ [])
    (noLineBreak : ∀ c ∈ line, Text.isLineBreak c = false) (hlead : ∀ c ∈ lead, isSpace c) :
    (lead ++ (written ++ after)).head? ≠ some '\n' := by
  obtain ⟨c, l, rfl⟩ := List.exists_cons_of_ne_nil hne
  have hc := noLineBreak c List.mem_cons_self
  cases lead with
  | cons d lead =>
    rintro ⟨⟩
    exact absurd (hlead _ List.mem_cons_self) (by decide)
  | nil =>
    rcases h.head?_eq hne with hhead | hhead <;>
      obtain ⟨m, rfl⟩ := List.head?_eq_some_iff.1 hhead <;> rintro ⟨⟩
    exact absurd hc (by decide)

theorem isLineBreak_of_isSpace {c : Char} (h : isSpace c) : Text.isLineBreak c = false := by
  simp only [isSpace, Bool.or_eq_true, beq_iff_eq] at h
  rcases h with (rfl | rfl) | rfl <;> decide

/-- A fold ends a line. -/
theorem Folds.lines_fold {front lineBreak : List Char} (more : Folds start line written)
    (hne : line ≠ []) (noLineBreak : ∀ c ∈ line, Text.isLineBreak c = false)
    (hfront : ∀ c ∈ front, Text.isLineBreak c = false) (hbreak : Literal.IsLineBreak lineBreak)
    (hlead : ∀ c ∈ lead, isSpace c) :
    Text.lines (front ++ '\\' :: (lineBreak ++ (lead ++ written)) ++ after) =
      (front ++ ['\\']) :: Text.lines (lead ++ (written ++ after)) := by
  have hline : ∀ c ∈ front ++ ['\\'], Text.isLineBreak c = false := by
    simp only [List.forall_mem_append, List.forall_mem_singleton]
    exact ⟨hfront, by decide⟩
  rw [← Text.lines_append hline hbreak fun _ => more.head?_append_ne hne noLineBreak hlead]
  simp

/-- A folded line is put together again, whatever stands before it in its entry. -/
theorem Folds.logicalLines_some (h : Folds start line written) (hne : line ≠ [])
    (noLineBreak : ∀ c ∈ line, Text.isLineBreak c = false)
    (hstart : Even (trailingBackslashes start))
    (complete : Even (trailingBackslashes (start ++ line)))
    (hkept : Even (trailingBackslashes kept)) (hlead : ∀ c ∈ lead, isSpace c)
    (hafter : ∀ {line : List Char}, (∀ c ∈ line, Text.isLineBreak c = false) → line ≠ [] →
      Text.lines (line ++ after) = line :: more) :
    logicalLines (some kept) (Text.lines (lead ++ (written ++ after))) =
      (kept ++ line.dropWhile isSpace) :: logicalLines none more := by
  -- What is kept need not be `start`, of which the blanks in front are left out.
  induction h generalizing kept lead with
  | @whole start line =>
    have hline : ∀ c ∈ lead ++ line, Text.isLineBreak c = false :=
      List.forall_mem_append.2 ⟨fun c hc => isLineBreak_of_isSpace (hlead c hc), noLineBreak⟩
    have heven : Even (trailingBackslashes (lead ++ line)) := by
      rwa [even_trailingBackslashes_append (even_trailingBackslashes_of_blanks hlead),
        ← even_trailingBackslashes_append hstart]
    rw [← List.append_assoc, hafter hline (by simp [hne]), logicalLines_even hkept heven,
      List.dropWhile_append_of_pos hlead]
  | @fold start front rest _ blanks folded even nonempty noBlank isBreak areBlanks more ih =>
    obtain ⟨hfront, hrest⟩ := List.forall_mem_append.1 noLineBreak
    have hline : ∀ c ∈ lead ++ front, Text.isLineBreak c = false :=
      List.forall_mem_append.2 ⟨fun c hc => isLineBreak_of_isSpace (hlead c hc), hfront⟩
    have heven : Even (trailingBackslashes front) := (even_trailingBackslashes_append hstart).1 even
    have hodd : Odd (trailingBackslashes (lead ++ front ++ ['\\'])) := by
      rwa [odd_trailingBackslashes_concat,
        even_trailingBackslashes_append (even_trailingBackslashes_of_blanks hlead)]
    have hdrop : (kept ++ (lead ++ front ++ ['\\']).dropWhile isSpace).dropLast =
        kept ++ front.dropWhile isSpace := by
      rw [List.append_assoc, List.dropWhile_append_of_pos hlead,
        dropWhile_append_of_head? (by rintro c ⟨⟩; rfl), ← List.append_assoc, List.dropLast_concat]
    have hnext : Even (trailingBackslashes (kept ++ front.dropWhile isSpace)) := by
      rwa [even_trailingBackslashes_append hkept, even_trailingBackslashes_dropWhile]
    rw [← List.append_assoc, ← List.append_assoc,
      more.lines_fold nonempty hrest hline isBreak areBlanks, logicalLines_odd hkept hodd, hdrop,
      ih nonempty hrest even (by rwa [List.append_assoc]) hnext areBlanks, List.append_assoc,
      dropWhile_append_of_head? noBlank, dropWhile_isSpace noBlank]

/-- An entry does not become a comment where it is folded. -/
theorem isComment_append_backslash {front rest : List Char}
    (noBlank : ∀ c ∈ rest.head?, isSpace c = false)
    (notComment : isComment ((front ++ rest).dropWhile isSpace) = false) :
    isComment ((front ++ ['\\']).dropWhile isSpace) = false := by
  rw [dropWhile_append_of_head? noBlank] at notComment
  rw [dropWhile_append_of_head? (by rintro c ⟨⟩; rfl)]
  cases hfront : front.dropWhile isSpace with
  | nil => rfl
  | cons c l => simpa only [hfront, List.cons_append, isComment] using notComment

theorem IsEntryLine.ne_nil (h : IsEntryLine line) : line ≠ [] := by
  rintro rfl
  simpa using h.notBlank

/-- A folded line is read as one logical line, in which the folds are not seen. -/
theorem Folds.logicalLines_none (h : Folds [] line written) (entry : IsEntryLine line)
    (hafter : ∀ {line : List Char}, (∀ c ∈ line, Text.isLineBreak c = false) → line ≠ [] →
      Text.lines (line ++ after) = line :: more) :
    logicalLines none (Text.lines (written ++ after)) =
      line.dropWhile isSpace :: logicalLines none more := by
  have hbegin : logicalLines none (Text.lines (written ++ after)) =
      logicalLines (some []) (Text.lines (written ++ after)) := by
    cases h with
    | whole =>
      rw [hafter entry.noLineBreak entry.ne_nil, logicalLines_entry entry.notBlank entry.notComment]
    | fold _ nonempty noBlank isBreak areBlanks folds =>
      obtain ⟨hfront, hrest⟩ := List.forall_mem_append.1 entry.noLineBreak
      rw [folds.lines_fold nonempty hrest hfront isBreak areBlanks]
      exact logicalLines_entry ⟨'\\', by simp, by decide⟩
        (isComment_append_backslash noBlank entry.notComment) _
  rw [hbegin]
  exact h.logicalLines_some entry.ne_nil entry.noLineBreak Even.zero entry.complete Even.zero
    (List.forall_mem_nil _) hafter

/-- A file is read the same however the line of an entry is folded: any number of times, with line
breaks of any kind, and whatever the first character after the blanks is. -/
theorem parse_of_folds (begins : ∀ c ∈ before.getLast?, Text.isLineBreak c)
    (closed : ¬LeaveOpen (Text.lines before)) (entry : IsEntryLine line)
    (ends : ∀ c ∈ after.head?, Text.isLineBreak c) (folds : Folds [] line written) :
    parse (String.ofList (before ++ (written ++ after))) =
      parse (String.ofList (before ++ (line ++ after))) := by
  obtain ⟨more, hafter⟩ := Text.exists_lines_eq_cons ends
  obtain ⟨done, kept?, hopen, -, hbefore⟩ := exists_logicalLines_append (Text.lines before)
  obtain rfl : kept? = none := by simpa [closed] using hopen
  have hlogical : ∀ {written : List Char}, Folds [] line written →
      logicalLines none (Text.lines (before ++ (written ++ after))) =
        done ++ line.dropWhile isSpace :: logicalLines none more := by
    intro written h
    have hhead : (written ++ after).head? ≠ some '\n' :=
      h.head?_append_ne entry.ne_nil entry.noLineBreak (List.forall_mem_nil _)
    rw [Text.lines_append_text begins hhead, hbefore, h.logicalLines_none entry hafter]
  rw [parse, parse, String.toList_ofList, String.toList_ofList, hlogical folds, hlogical .whole]

/-- A fold inside the number of an escape, and one between backslashes and a number sign. -/
theorem parse_of_folds_escape :
    parse "! x\\\r k=\\u00\\\n\t41\\\\\\\r\n#b\ne" = parse "! x\\\r k=\\u0041\\\\#b\ne" := by
  have hmark : ∀ c ∈ "#b".toList.head?, isSpace c = false := by
    rintro c ⟨⟩
    rfl
  have hdigit : ∀ c ∈ ("41\\\\".toList ++ "#b".toList).head?, isSpace c = false := by
    rintro c ⟨⟩
    rfl
  have hsecond : Folds " k=\\u00".toList ("41\\\\".toList ++ "#b".toList)
      ("41\\\\".toList ++ '\\' :: (['\r', '\n'] ++ ([] ++ "#b".toList))) :=
    .fold (by decide) (by decide) hmark .pair (List.forall_mem_nil _) .whole
  have hfolds : Folds [] (" k=\\u00".toList ++ ("41\\\\".toList ++ "#b".toList))
      (" k=\\u00".toList ++ '\\' :: (['\n'] ++ (['\t'] ++
        ("41\\\\".toList ++ '\\' :: (['\r', '\n'] ++ ([] ++ "#b".toList)))))) :=
    .fold (by decide) (by decide) hdigit .lineFeed (List.forall_mem_singleton.2 rfl) hsecond
  have hclosed : ¬LeaveOpen (Text.lines "! x\\\r".toList) := by
    have hline : Text.lines "! x\\\r".toList = [] ++ ["! x\\".toList] := rfl
    rw [hline, leaveOpen_concat]
    rintro ⟨-, hcomment | hopen⟩
    · exact absurd hcomment (by decide)
    · exact not_leaveOpen_nil hopen
  have hentry : IsEntryLine (" k=\\u00".toList ++ ("41\\\\".toList ++ "#b".toList)) :=
    ⟨by simp [Text.isLineBreak], ⟨'k', by decide, by decide⟩, by decide, by decide⟩
  have hbegins : ∀ c ∈ "! x\\\r".toList.getLast?, Text.isLineBreak c := by
    rintro c ⟨⟩
    rfl
  have hends : ∀ c ∈ "\ne".toList.head?, Text.isLineBreak c := by
    rintro c ⟨⟩
    rfl
  have hparse := parse_of_folds hbegins hclosed hentry hends hfolds
  exact hparse

end Properties
end TextualData
