import Mathlib.Data.List.Induction
import TextualData.Proofs.PropertyEscapes

/-!
# Writing properties files

Any list of pairs can be written as a properties file: each pair on a line of its own, with a
backslash before what would mean something else (`Properties.Writes`). Reading the file gives the
hash of the pairs, inserted in order (`Properties.parse_of_writes`).
-/

namespace TextualData

namespace Text

variable {line lineBreak text : List Char}

theorem lines_go_append (h : ∀ c ∈ line, isLineBreak c = false) (acc : List Char) :
    lines.go acc (line ++ text) = lines.go (line.reverse ++ acc) text := by
  induction line generalizing acc with
  | nil => rfl
  | cons c line ih =>
    have hc : isLineBreak c = false := h c List.mem_cons_self
    rw [List.cons_append, lines.go, hc, if_neg Bool.false_ne_true,
      ih fun d hd => h d (List.mem_cons_of_mem _ hd), List.reverse_cons, List.append_assoc]
    · rfl
    · rintro l rfl -
      exact absurd hc (by decide)

/-- A line feed that follows a carriage return belongs to the same line break. -/
theorem lines_go_lineBreak (h : Literal.IsLineBreak lineBreak)
    (noPair : lineBreak = ['\r'] → text.head? ≠ some '\n') (acc : List Char) :
    lines.go acc (lineBreak ++ text) = acc.reverse :: lines text := by
  cases h with
  | lineFeed => rfl
  | carriageReturn =>
    rw [List.singleton_append, lines.go]
    · rfl
    · rintro l - rfl
      exact noPair rfl rfl
  | pair => rfl

theorem lines_append (hline : ∀ c ∈ line, isLineBreak c = false)
    (hbreak : Literal.IsLineBreak lineBreak)
    (noPair : lineBreak = ['\r'] → text.head? ≠ some '\n') :
    lines (line ++ (lineBreak ++ text)) = line :: lines text := by
  rw [lines, lines_go_append hline, lines_go_lineBreak hbreak noPair, List.append_nil,
    List.reverse_reverse]

end Text

namespace Entries

universe u

variable {α : Type u}

theorem ofList_concat (l : List (String × α)) (e : String × α) :
    ofList (l ++ [e]) = (ofList l).insert e.1 e.2 := by
  rw [ofList, merge, List.foldl_concat, ofList, merge]

/-- A repeated key keeps its first place. -/
theorem keys_ofList (l : List (String × α)) :
    (ofList l).keys = (l.map Prod.fst).eraseDups := by
  induction l using List.reverseRecOn with
  | nil => rfl
  | append_singleton l e ih =>
    rw [ofList_concat, keys_insert, ih, List.map_append, List.eraseDups_append]
    by_cases h : e.1 ∈ l.map Prod.fst
    · rw [if_pos (List.mem_eraseDups.2 h)]
      simp [List.removeAll, h]
    · rw [if_neg (h ∘ List.mem_eraseDups.1)]
      simp [List.removeAll, h, List.eraseDups_cons]

/-- A repeated key takes its last value. -/
theorem get?_ofList (l : List (String × α)) (key : String) :
    (ofList l).get? key = l.reverse.lookup key := by
  induction l using List.reverseRecOn with
  | nil => rfl
  | append_singleton l e ih =>
    rw [ofList_concat, get?_insert, ih, List.reverse_concat, List.lookup_cons]
    by_cases h : e.1 = key
    · rw [if_pos h, h, beq_self_eq_true]
    · rw [if_neg h, beq_false_of_ne (Ne.symm h)]

end Entries

namespace Properties

/-- How a character is written in a key or a value. -/
def escapeChar (c : Char) : List Char :=
  if c = '\t' then ['\\', 't']
  else if c = '\n' then ['\\', 'n']
  else if c = '\r' then ['\\', 'r']
  else if c = Text.formFeed then ['\\', 'f']
  else if c ∈ ['\\', ' ', '=', ':', '#', '!'] then ['\\', c]
  else [c]

/-- How a text is written as a key or a value. -/
def escape (text : List Char) : List Char :=
  text.flatMap escapeChar

/-- How a pair is written as a line. -/
def written (pair : String × String) : List Char :=
  escape pair.1.toList ++ '=' :: escape pair.2.toList

/-- The characters list the pairs, each on a line with a line break. -/
inductive Writes : List (String × String) → List Char → Prop where
  | nil : Writes [] []
  | cons {pair : String × String} {pairs : List (String × String)} {lineBreak text : List Char}
      (isLineBreak : Literal.IsLineBreak lineBreak) (more : Writes pairs text) :
      Writes (pair :: pairs) (written pair ++ (lineBreak ++ text))

variable {text rest : List Char} {c : Char} {pair : String × String}
  {pairs : List (String × String)}

/-- A character is written with a backslash, or it is one that means itself everywhere. -/
theorem escapeChar_cases (c : Char) :
    (∃ e, escapeChar c = ['\\', e] ∧ e ≠ 'u' ∧ Text.isLineBreak e = false ∧ escapedLetter e = c) ∨
      escapeChar c = [c] ∧ c ≠ '\\' ∧ Text.isLineBreak c = false ∧ separates c = false ∧
        c ≠ '#' ∧ c ≠ '!' := by
  unfold escapeChar
  split_ifs with ht hn hr hf hc
  · exact .inl ⟨'t', rfl, by decide, by decide, ht ▸ rfl⟩
  · exact .inl ⟨'n', rfl, by decide, by decide, hn ▸ rfl⟩
  · exact .inl ⟨'r', rfl, by decide, by decide, hr ▸ rfl⟩
  · exact .inl ⟨'f', rfl, by decide, by decide, hf ▸ rfl⟩
  · simp only [List.mem_cons, List.not_mem_nil, or_false] at hc
    rcases hc with rfl | rfl | rfl | rfl | rfl | rfl <;>
      exact .inl ⟨_, rfl, by decide, by decide, rfl⟩
  · refine .inr ⟨rfl, ?_⟩
    simp_all [Text.isLineBreak, separates, isSpace]

theorem isLineBreak_of_mem_escape (h : c ∈ escape text) : Text.isLineBreak c = false := by
  obtain ⟨d, -, hc⟩ := List.mem_flatMap.1 h
  rcases escapeChar_cases d with ⟨e, hd, -, he, -⟩ | ⟨hd, -, hplain, -⟩
  · rw [hd, List.mem_pair] at hc
    rcases hc with rfl | rfl
    · decide
    · exact he
  · rw [hd, List.mem_singleton] at hc
    exact hc ▸ hplain

theorem even_trailingBackslashes_escaped (text : List Char) :
    Even (trailingBackslashes (escape text)) := by
  induction text with
  | nil => exact Even.zero
  | cons c text ih =>
    rw [escape, List.flatMap_cons]
    rcases escapeChar_cases c with ⟨e, hc, -⟩ | ⟨hc, hbackslash, -⟩ <;> rw [hc]
    · exact (even_trailingBackslashes_escape _ _).2 ih
    · exact (even_trailingBackslashes_cons hbackslash).2 ih

theorem decodes_escape (text : List Char) : Decodes IsAccepted (escape text) text := by
  induction text with
  | nil => exact .nil
  | cons c text ih =>
    rw [escape, List.flatMap_cons]
    rcases escapeChar_cases c with ⟨e, hc, hletter, -, rfl⟩ | ⟨hc, hbackslash, -⟩ <;> rw [hc]
    · exact .letter hletter ih
    · exact .itself hbackslash ih

/-- No separator is left in a written key. -/
theorem splitKey_escape (text rest : List Char) :
    splitKey (escape text ++ '=' :: rest) = (escape text, '=' :: rest) := by
  induction text with
  | nil => rfl
  | cons c text ih =>
    rw [escape, List.flatMap_cons, List.append_assoc]
    rcases escapeChar_cases c with ⟨e, hc, -⟩ | ⟨hc, hbackslash, -, hplain, -⟩ <;> rw [hc]
    · simp only [List.cons_append, List.nil_append, splitKey]
      rw [← escape, ih]
    · rw [List.singleton_append, splitKey, ← escape, ih, hplain]
      · rfl
      · simp [hbackslash]

/-- The first character of a written key or value is neither a blank nor the mark of a comment. -/
theorem head_escape (h : c ∈ (escape text).head?) :
    isSpace c = false ∧ isComment [c] = false ∧ c ≠ '\n' := by
  cases text with
  | nil => cases h
  | cons d text =>
    rw [escape, List.flatMap_cons] at h
    rcases escapeChar_cases d with ⟨e, hd, -⟩ | ⟨hd, -, hbreak, hplain, hhash, hmark⟩ <;>
      rw [hd] at h <;> cases h
    · decide
    · simp_all [separates, isComment, Text.isLineBreak]

theorem dropWhile_isSpace {l : List Char} (h : ∀ c ∈ l.head?, isSpace c = false) :
    l.dropWhile isSpace = l := by
  cases l with
  | nil => rfl
  | cons c l => rw [List.dropWhile_cons_of_neg (by simp [h c rfl])]

theorem head_written (h : c ∈ (written pair).head?) :
    isSpace c = false ∧ isComment [c] = false ∧ c ≠ '\n' := by
  rw [written, List.head?_append, Option.mem_def, Option.or_eq_some_iff] at h
  rcases h with h | ⟨-, h⟩
  · exact head_escape h
  · cases h
    decide

/-- An even number of backslashes stands at the end of a written line. -/
theorem continues_written (pair : String × String) : continues (written pair) = false := by
  have heven : Even (trailingBackslashes (written pair)) := by
    rw [written, even_trailingBackslashes_append (even_trailingBackslashes_escaped _),
      even_trailingBackslashes_cons (by decide)]
    exact even_trailingBackslashes_escaped _
  have hmod : trailingBackslashes (written pair) % 2 = 0 := Nat.even_iff.1 heven
  rw [trailingBackslashes] at hmod
  rw [continues, hmod]
  rfl

theorem isLineBreak_of_mem_written (h : c ∈ written pair) : Text.isLineBreak c = false := by
  rw [written, List.mem_append, List.mem_cons] at h
  rcases h with h | rfl | h
  · exact isLineBreak_of_mem_escape h
  · decide
  · exact isLineBreak_of_mem_escape h

/-- A written line is neither empty nor a comment, and it ends where it was written to end. -/
theorem logicalLines_written (pair : String × String) (lines : List (List Char)) :
    logicalLines none (written pair :: lines) = written pair :: logicalLines none lines := by
  have hdrop : (written pair).dropWhile isSpace = written pair :=
    dropWhile_isSpace fun c h => (head_written h).1
  have hnonempty : (written pair).isEmpty = false := by
    simp [written]
  have hcomment : isComment (written pair) = false := by
    cases hwritten : written pair with
    | nil => rfl
    | cons c l =>
      have hhead : c ∈ (written pair).head? := by
        rw [hwritten]
        rfl
      exact (head_written hhead).2.1
  simp only [logicalLines, hdrop, hnonempty, hcomment, continues_written, Bool.or_self,
    Bool.false_eq_true, if_false]

theorem splitEntry_written (pair : String × String) :
    splitEntry (written pair) = (escape pair.1.toList, escape pair.2.toList) := by
  have hvalue : valueAfter ('=' :: escape pair.2.toList) = escape pair.2.toList :=
    dropWhile_isSpace fun c h => (head_escape h).1
  simp only [splitEntry, written, splitKey_escape, hvalue]

/-- A written file does not go on with the second half of a line break. -/
theorem Writes.head_ne (h : Writes pairs text) : text.head? ≠ some '\n' := by
  intro hhead
  cases h with
  | nil => cases hhead
  | @cons pair =>
    rw [List.head?_append, Option.or_eq_some_iff] at hhead
    rcases hhead with hhead | ⟨hnil, -⟩
    · exact (head_written hhead).2.2 rfl
    · simp [written] at hnil

/-- The entries of a written file are the written keys and values. -/
theorem Writes.entries_eq (h : Writes pairs text) : entries (String.ofList text) =
    pairs.map fun pair => (escape pair.1.toList, escape pair.2.toList) := by
  rw [entries, String.toList_ofList]
  induction h with
  | nil => rfl
  | cons hbreak more ih =>
    rw [Text.lines_append (fun c => isLineBreak_of_mem_written) hbreak fun _ => more.head_ne,
      logicalLines_written, List.map_cons, splitEntry_written, ih, List.map_cons]

theorem Writes.decodes (h : Writes pairs text) :
    List.Forall₂ (EntryDecodes IsAccepted) (entries (String.ofList text)) pairs := by
  rw [h.entries_eq, List.forall₂_map_left_iff, List.forall₂_same]
  exact fun pair _ => ⟨decodes_escape _, decodes_escape _⟩

theorem keys_ofPairs (pairs : List (String × String)) :
    (ofPairs pairs).keys = (pairs.map Prod.fst).eraseDups := by
  rw [ofPairs, Entries.keys_ofList, List.map_map]
  rfl

theorem get?_ofPairs (pairs : List (String × String)) (key : String) :
    (ofPairs pairs).get? key = (pairs.reverse.lookup key).map .string := by
  rw [ofPairs, Entries.get?_ofList, ← List.map_reverse]
  induction pairs.reverse with
  | nil => rfl
  | cons pair l ih =>
    rw [List.map_cons, List.lookup_cons, List.lookup_cons, ih]
    cases key == pair.1 <;> rfl

/-- Reading a written file gives its pairs. A key that is repeated keeps its first place and takes
its last value. -/
theorem parse_of_writes (h : Writes pairs text) :
    parse (String.ofList text) = .ok (ofPairs pairs) ∧
      (ofPairs pairs).keys = (pairs.map Prod.fst).eraseDups ∧
      ∀ key, (ofPairs pairs).get? key = (pairs.reverse.lookup key).map .string :=
  ⟨parse_of_decodes h.decodes, keys_ofPairs pairs, get?_ofPairs pairs⟩

/-- The line breaks may differ from line to line. -/
theorem parse_of_writes_repeated_key :
    Writes [("a b", "\\"), ("", "#=\n"), ("a b", " ")]
        "a\\ b=\\\\\r=\\#\\=\\n\r\na\\ b=\\ \n".toList ∧
      parse "a\\ b=\\\\\r=\\#\\=\\n\r\na\\ b=\\ \n" =
        .ok [("a b", .string " "), ("", .string "#=\n")] := by
  have hwrites : Writes [("a b", "\\"), ("", "#=\n"), ("a b", " ")]
      "a\\ b=\\\\\r=\\#\\=\\n\r\na\\ b=\\ \n".toList :=
    .cons .carriageReturn (.cons .pair (.cons .lineFeed .nil))
  exact ⟨hwrites, (parse_of_writes hwrites).1⟩

end Properties
end TextualData
