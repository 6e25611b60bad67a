import Mathlib.Data.List.TakeWhile
import TextualData.Charset.Decode
import TextualData.Proofs.LeadingGaps
import TextualData.Proofs.Utf8Text

/-!
# Charset headers as comments

The header that declares the encoding of a text is a comment to evaluation too, so the text denotes
the same hash without it. The exception are the control characters from U+001C to U+001F in front of
the number sign: they are blanks of a header, but not blanks of a text.
-/

namespace TextualData

theorem Text.trim_of_forall {p : Char → Bool} {l : List Char} (h : ∀ x ∈ l, p x = false) :
    trim p l = l := by
  have hdrop : ∀ m : List Char, (∀ x ∈ m, p x = false) → m.dropWhile p = m := by
    intro m hm
    cases m with
    | nil => rfl
    | cons x m => simp [hm x (by simp)]
  rw [trim, hdrop l h, hdrop _ fun x hx => h x (List.mem_reverse.1 hx), List.reverse_reverse]

namespace Charset

open Utf8

/-- Whether the character is a blank of a header. -/
def isBlankOfHeader (c : Char) : Bool :=
  '\t' ≤ c && c ≤ '\r' || '\x1c' ≤ c && c ≤ ' '

/-- A text up to the end of the line of its header. -/
def headerLine (l : List Char) : List Char :=
  l.takeWhile isBlankOfHeader ++
    (l.dropWhile isBlankOfHeader).takeWhile fun c => !Text.isLineBreak c

/-- A text from the end of the line of its header on. -/
def beyondHeader (l : List Char) : List Char :=
  (l.dropWhile isBlankOfHeader).dropWhile fun c => !Text.isLineBreak c

/-- The bytes of a text in UTF-8. -/
def utf8Bytes (t : String) : List UInt8 :=
  t.toUTF8.data.toList

/-- Whatever the default encoding is, the text that is read from the bytes denotes the same hash as
the text without its header, or both denote none. -/
def HeaderIsInvisible (t : String) : Prop :=
  ∀ (default : String) (file : Option String) (forced : Bool), ∃ text : String,
    decodeSource (utf8Bytes t) default = .ok text ∧ ∀ h : Hash,
      ((Source.mk text file).evaluateHash .unresolving forced ()).1 = .ok h ↔
        ((Source.mk (String.ofList (beyondHeader t.toList)) file).evaluateHash .unresolving
          forced ()).1 = .ok h

section
variable {l : List Char} {x : Char}

theorem headerLine_append_beyondHeader (l : List Char) : headerLine l ++ beyondHeader l = l := by
  rw [headerLine, beyondHeader, List.append_assoc, List.takeWhile_append_dropWhile,
    List.takeWhile_append_dropWhile]

theorem head?_beyondHeader (l : List Char) : ∀ x ∈ (beyondHeader l).head?, Text.isLineBreak x := by
  intro x hx
  simpa using head?_dropWhile_eq_false (fun c => !Text.isLineBreak c) _ x hx

/-- The line of a header has no other header line. -/
theorem headerLine_headerLine (l : List Char) :
    headerLine (headerLine l) = headerLine l ∧ beyondHeader (headerLine l) = [] := by
  have hfront : ∀ x ∈ l.takeWhile isBlankOfHeader, isBlankOfHeader x :=
    List.all_eq_true.1 List.all_takeWhile
  have hline : ∀ x ∈ (l.dropWhile isBlankOfHeader).takeWhile (fun c => !Text.isLineBreak c),
      !Text.isLineBreak x := List.all_eq_true.1 List.all_takeWhile
  have hback : ∀ x ∈ ((l.dropWhile isBlankOfHeader).takeWhile
      (fun c => !Text.isLineBreak c)).head?, isBlankOfHeader x = false := by
    intro x hx
    have hnot := head?_dropWhile_eq_false isBlankOfHeader l
    cases hl : l.dropWhile isBlankOfHeader with
    | nil => simp [hl] at hx
    | cons y m =>
      rw [hl] at hx hnot
      rw [List.takeWhile_cons] at hx
      split at hx
      · exact hnot x hx
      · simp at hx
  obtain ⟨htake, hdrop⟩ := takeWhile_dropWhile_append hfront hback
  constructor
  · rw [headerLine, headerLine, htake, hdrop, List.takeWhile_eq_self_iff.2 hline]
  · rw [beyondHeader, headerLine, hdrop, List.dropWhile_eq_nil_iff.2 hline]

/-- The bytes of a character are blanks of a header if the character is. -/
theorem isHeaderBlank_eq (c : Char) :
    ∀ b ∈ String.utf8EncodeChar c, isHeaderBlank b = isBlankOfHeader c := by
  intro b hb
  have hbyte := mem_encodeChar hb
  rw [Bool.eq_iff_iff]
  simp only [isHeaderBlank, isBlankOfHeader, Bool.or_eq_true, Bool.and_eq_true, decide_eq_true_eq,
    UInt8.le_iff_toNat_le, Char.le_def, UInt32.le_iff_toNat_le]
  have hcode : c.val.toNat = c.toNat := rfl
  simp
  omega

end

/-- Nothing, or a line break: what may follow a line. -/
def FollowsLine (r : List UInt8) : Prop :=
  ∀ b ∈ r.head?, b = 0x0A ∨ b = 0x0D

section
variable {l r : List UInt8} {p : UInt8 → Bool}

theorem takeWhile_append_line (hr : FollowsLine r) (hp : p 0x0A = false ∧ p 0x0D = false) :
    (l ++ r).takeWhile p = l.takeWhile p := by
  have hnone : r.takeWhile p = [] := by
    cases r with
    | nil => rfl
    | cons b r =>
      rcases hr b rfl with rfl | rfl
      · simp [hp.1]
      · simp [hp.2]
  rw [List.takeWhile_append, hnone, List.append_nil]
  split
  · next h => exact ((List.takeWhile_sublist p).eq_of_length h).symm
  · rfl

theorem dropWhile_append_line (hr : FollowsLine r) (hp : p 0x0A = false ∧ p 0x0D = false) :
    (l ++ r).dropWhile p = l.dropWhile p ++ r := by
  have hall : r.dropWhile p = r := by
    cases r with
    | nil => rfl
    | cons b r =>
      rcases hr b rfl with rfl | rfl
      · simp [hp.1]
      · simp [hp.2]
  rw [List.dropWhile_append, hall]
  split
  · next h => rw [List.isEmpty_iff.1 h, List.nil_append]
  · rfl

/-- What follows a line is not looked at. -/
theorem afterWord?_append (hr : FollowsLine r) :
    afterWord? (l ++ r) = (afterWord? l).map (· ++ r) := by
  rw [afterWord?, afterWord?, takeWhile_append_line hr (by decide),
    dropWhile_append_line hr (by decide)]
  split <;> rfl

/-- A mark without a line break stands all before the end of a line. -/
theorem append_eq_append_line {mark m : List UInt8} (hr : FollowsLine r)
    (hmark : ∀ b ∈ mark, b ≠ 0x0A ∧ b ≠ 0x0D) :
    l ++ r = mark ++ m ↔ ∃ k, l = mark ++ k ∧ k ++ r = m := by
  constructor
  · intro h
    rcases List.append_eq_append_iff.1 h with ⟨a, rfl, rfl⟩ | ⟨k, rfl, rfl⟩
    · cases a with
      | nil => exact ⟨[], by simp, rfl⟩
      | cons b a =>
        have hb := hmark b (by simp)
        rcases hr b rfl with rfl | rfl
        · exact absurd rfl hb.1
        · exact absurd rfl hb.2
    · exact ⟨k, rfl, rfl⟩
  · rintro ⟨k, rfl, rfl⟩
    rw [List.append_assoc]

theorem afterColon?_eq_some {m : List UInt8} : afterColon? l = some m ↔ l = [0x3A] ++ m := by
  constructor
  · intro h
    unfold afterColon? at h
    split at h
    · obtain rfl := Option.some.inj h
      rfl
    · simp at h
  · rintro rfl
    rfl

theorem afterColon?_append (hr : FollowsLine r) :
    afterColon? (l ++ r) = (afterColon? l).map (· ++ r) := by
  have hmark : ∀ b ∈ [(0x3A : UInt8)], b ≠ 0x0A ∧ b ≠ 0x0D := by simp
  ext m
  simp only [Option.map_eq_some_iff, afterColon?_eq_some, append_eq_append_line hr hmark]

theorem afterNumberSign?_eq_some {m : List UInt8} : afterNumberSign? l = some m ↔
    l = [0x23] ++ m ∨ l = [0xEF, 0xBB, 0xBF, 0x23] ++ m := by
  constructor
  · intro h
    unfold afterNumberSign? at h
    split at h
    · obtain rfl := Option.some.inj h
      exact .inl rfl
    · obtain rfl := Option.some.inj h
      exact .inr rfl
    · simp at h
  · rintro (rfl | rfl) <;> rfl

theorem afterNumberSign?_append (hr : FollowsLine r) :
    afterNumberSign? (l ++ r) = (afterNumberSign? l).map (· ++ r) := by
  have hmark : ∀ b ∈ [(0x23 : UInt8)], b ≠ 0x0A ∧ b ≠ 0x0D := by simp
  have hmark' : ∀ b ∈ [(0xEF : UInt8), 0xBB, 0xBF, 0x23], b ≠ 0x0A ∧ b ≠ 0x0D := by simp
  ext m
  simp only [Option.map_eq_some_iff, afterNumberSign?_eq_some, append_eq_append_line hr hmark,
    append_eq_append_line hr hmark', ← exists_or, ← or_and_right]

/-- A header does not depend on what follows its line. -/
theorem declared?_append (nonempty : l.dropWhile isHeaderBlank ≠ []) (hr : FollowsLine r) :
    declared? (l ++ r) = declared? l := by
  have hfront : (l ++ r).dropWhile isHeaderBlank = l.dropWhile isHeaderBlank ++ r := by
    rw [List.dropWhile_append, if_neg (by simpa using nonempty)]
  rw [declared?, declared?, hfront, afterNumberSign?_append hr]
  cases afterNumberSign? (l.dropWhile isHeaderBlank) with
  | none => rfl
  | some m =>
    simp only [Option.map_some, Option.bind_eq_bind, Option.bind_some]
    rw [dropWhile_append_line hr (by decide), afterWord?_append hr]
    cases afterWord? (m.dropWhile isInlineBlank) with
    | none => rfl
    | some m =>
      simp only [Option.map_some, Option.bind_some]
      rw [dropWhile_append_line hr (by decide), afterColon?_append hr]
      cases afterColon? (m.dropWhile isInlineBlank) with
      | none => rfl
      | some m =>
        simp only [Option.map_some, Option.bind_some]
        rw [dropWhile_append_line hr (by decide), takeWhile_append_line hr (by decide)]

end

section
variable {l : List Char} {t : String} {label : String}

theorem followsLine_encode (h : ∀ x ∈ l.head?, Text.isLineBreak x) : FollowsLine (encode l) := by
  cases l with
  | nil => simp [FollowsLine]
  | cons x l =>
    have hx := h x rfl
    simp only [Text.isLineBreak, Bool.or_eq_true, beq_iff_eq] at hx
    rcases hx with rfl | rfl
    · rintro b ⟨⟩
      exact .inl rfl
    · rintro b ⟨⟩
      exact .inr rfl

/-- A header begins with a number sign, which a byte order mark may precede. -/
theorem exists_numberSign (h : declared? (encode l) = some label) : ∃ mark m,
    l.dropWhile isBlankOfHeader = mark ++ '#' :: m ∧ (mark = [] ∨ mark = [Text.byteOrderMark]) := by
  rw [declared?, dropWhile_encode isHeaderBlank_eq] at h
  obtain ⟨bytes, hbytes, -⟩ := Option.bind_eq_some_iff.1 h
  have hdecode := decode_encode (l.dropWhile isBlankOfHeader)
  rcases afterNumberSign?_eq_some.1 hbytes with hsign | hsign
  · rw [hsign, show [0x23] ++ bytes = String.utf8EncodeChar '#' ++ bytes from rfl, Utf8.decode,
      decodeFrom_encodeChar] at hdecode
    exact ⟨[], _, hdecode.symm, .inl rfl⟩
  · rw [hsign, show [0xEF, 0xBB, 0xBF, 0x23] ++ bytes = String.utf8EncodeChar Text.byteOrderMark ++
      (String.utf8EncodeChar '#' ++ bytes) from rfl, Utf8.decode, decodeFrom_encodeChar,
      decodeFrom_encodeChar] at hdecode
    exact ⟨[Text.byteOrderMark], _, hdecode.symm, .inr rfl⟩

/-- A label of UTF-8 is no label of UTF-16 whose order of bytes is open. -/
theorem isOpenUtf16_of_utf8 (h : ofLabel? label = some utf8) : isOpenUtf16 label = false := by
  rw [← Bool.not_eq_true]
  intro hopen
  rw [isOpenUtf16, beq_iff_eq] at hopen
  generalize htrimmed : Text.trim Text.isWhiteSpace label.toList = name at hopen
  have hpadding : ∀ x ∈ name, isLabelPadding x = false := by
    intro x hx
    have hlower : x.toLower ∈ ['u', 't', 'f', '-', '1', '6'] := hopen ▸ List.mem_map_of_mem hx
    rw [← Bool.not_eq_true]
    intro hpad
    simp only [isLabelPadding, Bool.or_eq_true, beq_iff_eq] at hpad
    rcases hpad with (((rfl | rfl) | rfl) | rfl) | rfl <;> exact absurd hlower (by decide)
  have hnormal : normalizeLabel label = "utf-16" := by
    rw [normalizeLabel, htrimmed, Text.trim_of_forall hpadding, hopen]
  have hother : all.find? (fun c => c.labels.contains "utf-16") = some utf16le := by decide
  rw [ofLabel?, hnormal, hother] at h
  exact absurd h (by decide)

/-- The bytes of a text are read back under each label of UTF-8. -/
theorem decode_utf8Bytes (hutf8 : ofLabel? label = some utf8) :
    Charset.decode (utf8Bytes t) label = .ok t := by
  have hdecode : characters utf8 (utf8Bytes t) = t.toList := by
    rw [characters, utf8Bytes, toList_toUTF8, decode_encode]
  rw [Charset.decode, isOpenUtf16_of_utf8 hutf8, if_neg Bool.false_ne_true, lookup, hutf8]
  simp [Except.map, hdecode]

theorem decodeSource_utf8 (h : declared? (utf8Bytes t) = some label)
    (hutf8 : ofLabel? label = some utf8) (default : String) :
    decodeSource (utf8Bytes t) default = .ok t := by
  rw [decodeSource, h, Option.getD_some, decode_utf8Bytes hutf8]

/-- The blanks of a header that are no blanks of a text. -/
theorem isBlank_of_isBlankOfHeader {x : Char} (h : isBlankOfHeader x) :
    Text.isBlank x = false ↔ '\x1c' ≤ x ∧ x ≤ '\x1f' := by
  have hall : ∀ n < 33, isBlankOfHeader (Char.ofNat n) →
      (Text.isBlank (Char.ofNat n) = false ↔ '\x1c' ≤ Char.ofNat n ∧ Char.ofNat n ≤ '\x1f') := by
    decide
  have hcode : x.toNat < 33 := by
    simp only [isBlankOfHeader, Bool.or_eq_true, Bool.and_eq_true, decide_eq_true_eq, Char.le_def,
      UInt32.le_iff_toNat_le] at h
    have hval : x.val.toNat = x.toNat := rfl
    simp at h
    omega
  have hx := hall x.toNat hcode
  rw [Char.ofNat_toNat] at hx
  exact hx h

/-- The line of a header is a comment, with blanks of a header and perhaps a byte order mark in
front of it. -/
theorem exists_comment (h : declared? (encode l) = some label) : ∃ mark m,
    headerLine l = l.takeWhile isBlankOfHeader ++ mark ++ '#' :: m ∧
      (∀ x ∈ mark, Text.isBlank x) ∧ ∀ x ∈ m, Text.isLineBreak x = false := by
  obtain ⟨mark, m, hsign, hmark⟩ := exists_numberSign h
  refine ⟨mark, m.takeWhile fun c => !Text.isLineBreak c, ?_, ?_, ?_⟩
  · have hline : ∀ x ∈ mark ++ ['#'], !Text.isLineBreak x := by
      rcases hmark with rfl | rfl <;> exact List.all_eq_true.1 (by decide)
    rw [headerLine, hsign, ← List.singleton_append, ← List.append_assoc,
      List.takeWhile_append_of_pos hline]
    simp
  · rcases hmark with rfl | rfl <;> exact List.all_eq_true.1 (by decide)
  · intro x hx
    simpa using List.mem_takeWhile_imp hx

/-- A header declares its encoding whatever follows its line. -/
theorem declared?_eq (h : declared? (utf8Bytes t) = some label) {t' : String}
    (hline : headerLine t'.toList = headerLine t.toList) :
    declared? (utf8Bytes t') = some label := by
  rw [utf8Bytes, toList_toUTF8] at h ⊢
  obtain ⟨mark, m, hheader, -⟩ := exists_comment h
  have hnonempty : (encode (headerLine t.toList)).dropWhile isHeaderBlank ≠ [] := by
    rw [ne_eq, List.dropWhile_eq_nil_iff]
    intro hall
    have hsign : 0x23 ∈ encode (headerLine t.toList) :=
      List.mem_flatMap.2 ⟨'#', by simp [hheader], by decide⟩
    exact absurd (hall 0x23 hsign) (by decide)
  have hfollows : ∀ l : List Char, FollowsLine (encode (beyondHeader l)) :=
    fun l => followsLine_encode (head?_beyondHeader l)
  calc declared? (encode t'.toList)
      = declared? (encode (headerLine t.toList) ++ encode (beyondHeader t'.toList)) := by
        rw [← hline, ← encode_append, headerLine_append_beyondHeader]
    _ = declared? (encode (headerLine t.toList) ++ encode (beyondHeader t.toList)) := by
        rw [declared?_append hnonempty (hfollows _), declared?_append hnonempty (hfollows _)]
    _ = some label := by
        rw [← encode_append, headerLine_append_beyondHeader, h]

/-- A header with a control character in front is no comment. -/
theorem not_isComment {x : Char} (hx : x ∈ l.takeWhile isBlankOfHeader)
    (hcontrol : '\x1c' ≤ x ∧ x ≤ '\x1f') {file : Option String} {forced : Bool} :
    ((Source.mk (String.ofList (headerLine l)) file).evaluateHash .unresolving forced ()).1 ≠
      .ok [] := by
  have hx' := (isBlank_of_isBlankOfHeader (List.mem_takeWhile_imp hx)).2 hcontrol
  -- The first character that is no blank of a text is a control character too.
  have hparts := List.takeWhile_append_dropWhile (p := Text.isBlank)
    (l := l.takeWhile isBlankOfHeader)
  have hnot := head?_dropWhile_eq_false Text.isBlank (l.takeWhile isBlankOfHeader)
  cases hrest : (l.takeWhile isBlankOfHeader).dropWhile Text.isBlank with
  | nil =>
    have hblank := List.dropWhile_eq_nil_iff.1 hrest x hx
    simp [hx'] at hblank
  | cons y m =>
    rw [hrest] at hparts hnot
    have hy : y ∈ l.takeWhile isBlankOfHeader := by
      rw [← hparts]
      simp
    have hblank : Text.isBlank y = false := hnot y rfl
    have hbetween := (isBlank_of_isBlankOfHeader (List.mem_takeWhile_imp hy)).1 hblank
    have hmark : y ≠ '<' ∧ y ≠ '#' ∧ y ≠ '{' := by
      refine ⟨?_, ?_, ?_⟩ <;>
      · rintro rfl
        exact absurd hbetween (by decide)
    rw [headerLine, ← hparts, List.append_assoc, List.cons_append]
    exact Source.evaluateHash_ne_nil (List.all_eq_true.1 List.all_takeWhile) hblank hmark

/-- The header of a text is invisible whatever follows it, exactly if no control character from
U+001C to U+001F stands among the blanks in front of it. -/
theorem headerIsInvisible_iff (h : declared? (utf8Bytes t) = some label)
    (hutf8 : ofLabel? label = some utf8) :
    (∀ t' : String, headerLine t'.toList = headerLine t.toList → HeaderIsInvisible t') ↔
      ∀ x ∈ t.toList.takeWhile isBlankOfHeader, ¬('\x1c' ≤ x ∧ x ≤ '\x1f') := by
  constructor
  · intro hinvisible x hx hcontrol
    -- With nothing after it, the header would have to denote the empty hash.
    obtain ⟨hline, hbeyond⟩ := headerLine_headerLine t.toList
    have htext : (String.ofList (headerLine t.toList)).toList = headerLine t.toList :=
      String.toList_ofList
    have hdeclared : declared? (utf8Bytes (String.ofList (headerLine t.toList))) = some label :=
      declared?_eq h (by rw [htext, hline])
    obtain ⟨text, hread, hsame⟩ := hinvisible _ (by rw [htext, hline]) "" none false
    rw [decodeSource_utf8 hdeclared hutf8] at hread
    obtain rfl := Except.ok.inj hread
    refine not_isComment hx hcontrol ((hsame []).2 ?_)
    rw [htext, hbeyond]
    exact Source.evaluateHash_nil.2 rfl
  · intro hclean t' hline default file forced
    refine ⟨t', decodeSource_utf8 (declared?_eq h hline) hutf8 default, fun r => ?_⟩
    rw [utf8Bytes, toList_toUTF8] at h
    obtain ⟨mark, m, hheader, hmark, hm⟩ := exists_comment h
    have hblank : ∀ x ∈ t.toList.takeWhile isBlankOfHeader ++ mark, Text.isBlank x := by
      intro x hx
      rcases List.mem_append.1 hx with hx | hx
      · have hblank := isBlank_of_isBlankOfHeader (List.mem_takeWhile_imp hx)
        simpa using hblank.not.2 (hclean x hx)
      · exact hmark x hx
    have htext : t' = String.ofList (t.toList.takeWhile isBlankOfHeader ++ mark ++ '#' :: m ++
        beyondHeader t'.toList) := by
      rw [← hheader, ← hline, headerLine_append_beyondHeader, String.ofList_toList]
    conv_lhs => rw [htext]
    exact Source.evaluateHash_leading_comment hblank hm (head?_beyondHeader _)

/-- A header behind a line break and a byte order mark. -/
theorem headerIsInvisible_behind_mark :
    declared? (utf8Bytes "\n\uFEFF# charset: utf8\na: 1") = some "utf8" ∧
      ofLabel? "utf8" = some utf8 ∧ HeaderIsInvisible "\n\uFEFF# charset: utf8\na: 1" := by
  have hdeclared : declared? (utf8Bytes "\n\uFEFF# charset: utf8\na: 1") = some "utf8" := by
    with_unfolding_all rfl
  have hutf8 : ofLabel? "utf8" = some utf8 := by with_unfolding_all rfl
  have hblanks : "\n\uFEFF# charset: utf8\na: 1".toList.takeWhile isBlankOfHeader = ['\n'] := by
    with_unfolding_all rfl
  refine ⟨hdeclared, hutf8, (headerIsInvisible_iff hdeclared hutf8).2 ?_ _ rfl⟩
  rw [hblanks]
  intro x hx
  obtain rfl := List.mem_singleton.1 hx
  decide

/-- A header behind a control character declares its encoding, but is no comment: the text with it
lacks a separator, and the text without it has an entry. -/
theorem header_behind_control_character :
    declared? (utf8Bytes "\x1c# encoding: UTF-8\na: 1") = some "UTF-8" ∧
      ofLabel? "UTF-8" = some utf8 ∧
      ((Source.mk "\x1c# encoding: UTF-8\na: 1" none).evaluateHash .unresolving false ()).1 =
        .error (.malformed .missingSeparator ⟨"\x1c# encoding: UTF-8\na: 1", 3, none⟩) ∧
      beyondHeader "\x1c# encoding: UTF-8\na: 1".toList = "\na: 1".toList ∧
      ((Source.mk "\na: 1" none).evaluateHash .unresolving false ()).1 = .ok [("a", .integer 1)] ∧
      ¬HeaderIsInvisible "\x1c# encoding: UTF-8\na: 1" := by
  have hdeclared : declared? (utf8Bytes "\x1c# encoding: UTF-8\na: 1") = some "UTF-8" := by
    with_unfolding_all rfl
  have hutf8 : ofLabel? "UTF-8" = some utf8 := by with_unfolding_all rfl
  have hwith :
      ((Source.mk "\x1c# encoding: UTF-8\na: 1" none).evaluateHash .unresolving false ()).1 =
        .error (.malformed .missingSeparator ⟨"\x1c# encoding: UTF-8\na: 1", 3, none⟩) := by
    with_unfolding_all rfl
  have hbeyond : beyondHeader "\x1c# encoding: UTF-8\na: 1".toList = "\na: 1".toList := by
    with_unfolding_all rfl
  have hwithout :
      ((Source.mk "\na: 1" none).evaluateHash .unresolving false ()).1 =
        .ok [("a", .integer 1)] := by
    with_unfolding_all rfl
  refine ⟨hdeclared, hutf8, hwith, hbeyond, hwithout, fun hinvisible => ?_⟩
  obtain ⟨text, hread, hsame⟩ := hinvisible "" none false
  rw [decodeSource_utf8 hdeclared hutf8] at hread
  obtain rfl := Except.ok.inj hread
  rw [hbeyond, String.ofList_toList] at hsame
  have hok := (hsame _).2 hwithout
  rw [hwith] at hok
  cases hok

end

end Charset
end TextualData
