import TextualData.Proofs.LineNumbers
import TextualData.Proofs.OffsetExtent
import TextualData.Proofs.Utf8Text
import TextualData.Proofs.WindowBounds

/-!
# Locations in the bytes of a text

The line of a location can be found in the bytes of its text and cut out by byte offsets, with each
look at a byte, each slice and each subtraction checked (`Location.renderByBytes?`). For a place
between two characters no check fails, and the rendered location is the same.
-/

namespace TextualData

/-- The difference of two numbers, if the first is not the smaller one. -/
def minus? (m n : Nat) : Option Nat :=
  if n ≤ m then some (m - n) else none

namespace Text

/-- The rest of a list behind its first characters, if it has so many. -/
def drop? (n : Nat) (l : List Char) : Option (List Char) :=
  if n ≤ l.length then some (l.drop n) else none

/-- Replaces tabs as `expandTabs` does, if that divides by nothing but positive numbers. -/
def expandTabs? (width : Nat) : (column : Nat) → List Char → Option (List Char)
  | _, [] => some []
  | column, c :: l =>
    if c = '\t' then do
      let spaces ← if width = 0 then none else minus? width (column % width)
      return List.replicate spaces ' ' ++ (← expandTabs? width (column + spaces) l)
    else do return c :: (← expandTabs? width (column + 1) l)

end Text

namespace Location

/-- The byte of a line feed. -/
def lineFeed : UInt8 := 10

/-- The byte of a carriage return. -/
def carriageReturn : UInt8 := 13

/-- What is known behind some bytes of a text: the number of the line, the offset where it begins
and the last byte, zero at the beginning of the text. -/
structure ByteState where
  number : Nat
  start : Nat
  last : UInt8

/-- Passes a byte at its offset. -/
def ByteState.pass (s : ByteState) (b : UInt8 × Nat) : ByteState :=
  if s.last = lineFeed ∨ s.last = carriageReturn ∧ b.1 ≠ lineFeed then ⟨s.number + 1, b.2, b.1⟩
  else ⟨s.number, s.start, b.1⟩

/-- The offset of the line break that ends the line of an offset, or the end of the text. An offset
between the halves of a line break belongs to the line that the line break ends. -/
def lineStop? (bytes : List UInt8) (offset : Nat) : Option Nat :=
  if offset < bytes.length then do
    let b ← bytes[offset]?
    if b = lineFeed ∨ b = carriageReturn then
      if b = lineFeed ∧ 0 < offset then
        let last ← bytes[← minus? offset 1]?
        if last = carriageReturn then minus? offset 1 else some offset
      else some offset
    else lineStop? bytes (offset + 1)
  else some offset
termination_by bytes.length - offset

/-- A line in the bytes of a text: its number, the offsets of its ends, and an offset in it. -/
structure Bounds where
  number : Nat
  start : Nat
  stop : Nat
  position : Nat

/-- The line of an offset. -/
def bounds? (bytes : List UInt8) (position : Nat) : Option Bounds := do
  let position := min position bytes.length
  let s := (bytes.take (position + 1)).zipIdx.foldl ByteState.pass ⟨1, 0, 0⟩
  let stop ← lineStop? bytes position
  return ⟨s.number, s.start, stop, if stop < position then stop else position⟩

/-- Shortens the part of a quoted line from the place to so many columns. -/
def clipRight? (kept : Nat) (right : List Char) : Option (List Char) :=
  if kept < right.length then do return right.take (← minus? kept 3) ++ ellipsis
  else some right

/-- Shortens the part of a quoted line before the place, if the other part has so many columns. -/
def clipLeft? (width : Nat) (left : List Char) : Option (List Char) :=
  if quotedWidth < left.length + width then do
    let excess ← minus? (left.length + width) quotedWidth
    return ellipsis ++ (← Text.drop? (min (excess + 3) left.length) left)
  else some left

/-- Shortens the parts of a quoted line as `clip` does. -/
def clip? (left right : List Char) : Option (List Char × List Char) :=
  if quotedWidth < left.length + right.length then do
    let excess ← minus? (left.length + right.length) quotedWidth
    let right ← clipRight? (max (right.length - excess) 6) right
    return (← clipLeft? right.length left, right)
  else some (left, right)

/-- The quoted line within its bounds, with a caret under the place. -/
def quoteBounds? (text : List Char) (bounds : Bounds) : Option (List Char) := do
  let left ← Text.expandTabs? tabWidth 0 (← Text.slice? text bounds.start bounds.position)
  let right ← Text.expandTabs? tabWidth left.length (← Text.slice? text bounds.position bounds.stop)
  let (left, right) ← clip? left right
  return left ++ right ++ '\n' :: (List.replicate left.length ' ' ++ ['^'])

/-- Renders the location by the bytes of its text. -/
def renderByBytes? (l : Location) : Option String :=
  let subject := l.file.getD "the text"
  let size := l.text.utf8ByteSize
  if size ≤ l.position then
    if l.position = size then some s!"\nError location: The very end of {subject}."
    else some s!"\nError location: ??? (after the end of {subject})"
  else do
    let text := l.text.toList
    let bounds ← bounds? (Utf8.encode text) l.position
    let column := (← Text.slice? text bounds.start bounds.position).length + 1
    let place := match l.file with
      | some file => s!" in {file}"
      | none => ""
    let quoted ←
      if bounds.stop ≤ bounds.start then some "(Can't show the line because it is empty.)"
      else (quoteBounds? text bounds).map String.ofList
    return s!"\nError location: line {bounds.number}, column {column}{place}:\n{quoted}"

theorem minus?_of_le {m n : Nat} (h : n ≤ m) : minus? m n = some (m - n) :=
  if_pos h

theorem expandTabs?_eq {width : Nat} (h : 0 < width) (column : Nat) (l : List Char) :
    Text.expandTabs? width column l = some (Text.expandTabs width column l) := by
  induction l generalizing column with
  | nil => rfl
  | cons c l ih =>
    have hcolumn : column % width ≤ width := (Nat.mod_lt column h).le
    by_cases hc : c = '\t'
    · simp [Text.expandTabs?, Text.expandTabs, hc, h.ne', minus?_of_le hcolumn, ih]
    · simp [Text.expandTabs?, Text.expandTabs, hc, ih]

theorem clipRight?_eq {kept : Nat} (h : 3 ≤ kept) (right : List Char) : clipRight? kept right =
    some (if kept < right.length then right.take (kept - 3) ++ ellipsis else right) := by
  unfold clipRight?
  split <;> simp [minus?_of_le h]

theorem clipLeft?_eq (width : Nat) (left : List Char) : clipLeft? width left =
    some (if left.length + width ≤ quotedWidth then left
      else ellipsis ++ left.drop (left.length + width - quotedWidth + 3)) := by
  unfold clipLeft?
  split
  · next hwide =>
    have hdrop (n : Nat) : left.drop (min n left.length) = left.drop n := by
      rcases Nat.le_total n left.length with h | h
      · rw [min_eq_left h]
      · rw [min_eq_right h, List.drop_length, List.drop_eq_nil_of_le h]
    rw [if_neg (Nat.not_le.2 hwide), minus?_of_le hwide.le]
    simp [Text.drop?, hdrop]
  · next hfits => rw [if_pos (Nat.le_of_not_lt hfits)]

theorem clip?_eq (left right : List Char) : clip? left right = some (clip left right) := by
  unfold clip? clip
  split
  · next hwide =>
    have hkept (n : Nat) : 3 ≤ max n 6 := Nat.le_trans (by decide) (Nat.le_max_right n 6)
    rw [if_neg (Nat.not_le.2 hwide), minus?_of_le hwide.le, Nat.max_comm 6]
    simp only [Option.bind_eq_bind, Option.bind_some, clipRight?_eq (hkept _), clipLeft?_eq]
    generalize (if _ < right.length then _ else right) = shortened
    split <;> rfl
  · next hfits => rw [if_pos (Nat.le_of_not_lt hfits)]

/-- Behind the same part of a text, what is known from its bytes and what is known from its
characters. -/
structure Follows (s : ByteState) (t : Nat × List Char × Option Char) (offset : Nat) : Prop where
  number_eq : s.number = t.1
  start_add : s.start + Text.byteSize t.2.1 = offset
  lineFeed_iff : s.last = lineFeed ↔ t.2.2 = some '\n'
  carriageReturn_iff : s.last = carriageReturn ↔ t.2.2 = some '\r'

variable {before after : List Char} {c : Char} {b : UInt8} {s : ByteState}
  {t : Nat × List Char × Option Char} {offset : Nat} {rest : List UInt8}

/-- A byte of a character is a line feed or a carriage return if the character is. -/
theorem eq_byte_iff {k : UInt8} {x : Char} (hk : k.toNat = x.toNat) (hx : x.toNat < 0x80)
    (hb : b ∈ String.utf8EncodeChar c) : b = k ↔ c = x := by
  have hcode := Utf8.mem_encodeChar hb
  rw [← UInt8.toNat_inj, hk, ← Char.toNat_inj]
  omega

theorem eq_lineFeed_iff (hb : b ∈ String.utf8EncodeChar c) : b = lineFeed ↔ c = '\n' :=
  eq_byte_iff rfl (by decide) hb

theorem eq_carriageReturn_iff (hb : b ∈ String.utf8EncodeChar c) :
    b = carriageReturn ↔ c = '\r' :=
  eq_byte_iff rfl (by decide) hb

theorem Follows.begins_iff (h : Follows s t offset) (hb : b ∈ String.utf8EncodeChar c) :
    (s.last = lineFeed ∨ s.last = carriageReturn ∧ b ≠ lineFeed) ↔ beginsLine t.2.2 c := by
  rw [h.lineFeed_iff, h.carriageReturn_iff, Ne, eq_lineFeed_iff hb]
  simp [beginsLine]

theorem Follows.pass_first (h : Follows s t offset) (hb : b ∈ String.utf8EncodeChar c) :
    (s.pass (b, offset)).number = (walk t c).1 ∧
      (s.pass (b, offset)).start + Text.byteSize (walk t c).2.1 = offset + c.utf8Size ∧
      (s.pass (b, offset)).last = b := by
  obtain ⟨number, line, last⟩ := t
  have hstart : s.start + Text.byteSize line = offset := h.start_add
  by_cases hbegins : beginsLine last c
  · rw [ByteState.pass, if_pos ((h.begins_iff hb).2 hbegins), walk, if_pos hbegins, h.number_eq]
    simp
  · rw [ByteState.pass, if_neg (mt (h.begins_iff hb).1 hbegins), walk, if_neg hbegins, h.number_eq]
    simp only [Text.byteSize_cons, and_true, true_and]
    omega

/-- No line begins within bytes that are no part of a line break. -/
theorem foldl_pass_of_noBreak {bytes : List UInt8}
    (hbytes : ∀ b ∈ bytes, b ≠ lineFeed ∧ b ≠ carriageReturn)
    (hlast : s.last ≠ lineFeed ∧ s.last ≠ carriageReturn) (offset : Nat) :
    ∃ last, (bytes.zipIdx offset).foldl ByteState.pass s = ⟨s.number, s.start, last⟩ ∧
      last ≠ lineFeed ∧ last ≠ carriageReturn := by
  induction bytes generalizing s offset with
  | nil => exact ⟨s.last, rfl, hlast⟩
  | cons b bytes ih =>
    have hb := hbytes b (by simp)
    have hpass : s.pass (b, offset) = ⟨s.number, s.start, b⟩ := if_neg (by simp [hlast])
    rw [List.zipIdx_cons, List.foldl_cons, hpass]
    exact ih (fun b' hb' => hbytes b' (List.mem_cons_of_mem _ hb')) hb _

/-- Passing the bytes of a character follows the walk over the character. -/
theorem Follows.walk (h : Follows s t offset) (c : Char) :
    Follows (((String.utf8EncodeChar c).zipIdx offset).foldl ByteState.pass s) (walk t c)
      (offset + c.utf8Size) := by
  have hlast : (Location.walk t c).2.2 = some c := by
    rw [Location.walk]
    split <;> rfl
  by_cases hc : c = '\n' ∨ c = '\r'
  · obtain ⟨b, hb⟩ : ∃ b, String.utf8EncodeChar c = [b] := by
      rcases hc with rfl | rfl <;> exact ⟨_, rfl⟩
    have hmem : b ∈ String.utf8EncodeChar c := by simp [hb]
    obtain ⟨hnumber, hstart, hlast'⟩ := h.pass_first hmem
    rw [hb, List.zipIdx_singleton, List.foldl_cons, List.foldl_nil]
    refine ⟨hnumber, hstart, ?_, ?_⟩
    · rw [hlast, hlast', eq_lineFeed_iff hmem, Option.some.injEq]
    · rw [hlast, hlast', eq_carriageReturn_iff hmem, Option.some.injEq]
  · -- The bytes are no line breaks, so that a line can begin only at the first of them.
    obtain ⟨b, bytes, hbytes⟩ := List.exists_cons_of_ne_nil
      (String.utf8EncodeChar_ne_nil (c := c))
    have hnoBreak : ∀ b ∈ String.utf8EncodeChar c, b ≠ lineFeed ∧ b ≠ carriageReturn := by
      intro b hb
      rw [Ne, Ne, eq_lineFeed_iff hb, eq_carriageReturn_iff hb]
      exact not_or.1 hc
    rw [hbytes] at hnoBreak
    obtain ⟨hnumber, hstart, hb⟩ := h.pass_first (b := b) (c := c) (by simp [hbytes])
    obtain ⟨last, hfold, hfeed, hreturn⟩ := foldl_pass_of_noBreak
      (fun b' hb' => hnoBreak b' (List.mem_cons_of_mem _ hb')) (hb ▸ hnoBreak b (by simp))
      (offset + 1)
    rw [hbytes, List.zipIdx_cons, List.foldl_cons, hfold]
    refine ⟨hnumber, hstart, ?_, ?_⟩ <;> simp_all

theorem Follows.foldl (h : Follows s t offset) (l : List Char) :
    Follows (((Utf8.encode l).zipIdx offset).foldl ByteState.pass s) (l.foldl Location.walk t)
      (offset + Text.byteSize l) := by
  induction l generalizing s t offset with
  | nil => exact h
  | cons c l ih =>
    rw [Utf8.encode_cons, List.zipIdx_append, List.foldl_append, String.length_utf8EncodeChar,
      List.foldl_cons, Text.byteSize_cons, ← Nat.add_assoc]
    exact ih (h.walk c)

theorem length_encode (l : List Char) : (Utf8.encode l).length = Text.byteSize l := by
  induction l with
  | nil => rfl
  | cons c l ih => simp [ih, String.length_utf8EncodeChar]

/-- The line of a place goes on where there is no byte of a line break. -/
theorem lineStop?_of_noBreak {front bytes back : List UInt8}
    (hbytes : ∀ b ∈ bytes, b ≠ lineFeed ∧ b ≠ carriageReturn) :
    lineStop? (front ++ bytes ++ back) front.length =
      lineStop? (front ++ bytes ++ back) (front.length + bytes.length) := by
  induction bytes generalizing front with
  | nil => rfl
  | cons b bytes ih =>
    have hb := hbytes b (by simp)
    have hmore := @ih (front ++ [b]) fun b' hb' => hbytes b' (List.mem_cons_of_mem _ hb')
    have htext : front ++ b :: bytes ++ back = front ++ [b] ++ bytes ++ back := by simp
    have hlook : (front ++ [b] ++ bytes ++ back)[front.length]? = some b := by simp
    rw [List.length_append, List.length_singleton] at hmore
    rw [htext, lineStop?, if_pos (by simp), hlook, List.length_cons, Nat.add_comm bytes.length,
      ← Nat.add_assoc, ← hmore]
    exact if_neg (not_or.2 hb)

/-- The byte before a place is a carriage return if the character before it is. -/
theorem exists_byteBefore (hbefore : before ≠ []) (rest : List UInt8) :
    ∃ b, (Utf8.encode before ++ rest)[Text.byteSize before - 1]? = some b ∧
      (b = carriageReturn ↔ before.getLast? = some '\r') := by
  obtain ⟨front, x, rfl⟩ := (List.eq_nil_or_concat' before).resolve_left hbefore
  obtain ⟨bytes, b, hbytes⟩ := (List.eq_nil_or_concat' (String.utf8EncodeChar x)).resolve_left
    String.utf8EncodeChar_ne_nil
  have hencode : Utf8.encode (front ++ [x]) = Utf8.encode front ++ bytes ++ [b] := by
    simp [Utf8.encode_append, hbytes]
  refine ⟨b, ?_, ?_⟩
  · rw [← length_encode, hencode]
    simp
  · rw [eq_carriageReturn_iff (c := x) (by simp [hbytes]), List.getLast?_concat, Option.some.injEq]

/-- The line break at a line feed begins with the carriage return before it, if there is one. -/
theorem lineStop?_lineFeed (before after : List Char) :
    lineStop? (Utf8.encode (before ++ '\n' :: after)) (Text.byteSize before) =
      some (if before.getLast? = some '\r' then Text.byteSize before - 1
        else Text.byteSize before) := by
  have hencode : Utf8.encode (before ++ '\n' :: after) =
      Utf8.encode before ++ lineFeed :: Utf8.encode after := by
    rw [Utf8.encode_append, Utf8.encode_cons]
    rfl
  have hlook : (Utf8.encode before ++ lineFeed :: Utf8.encode after)[Text.byteSize before]? =
      some lineFeed := by simp [← length_encode]
  rw [hencode, lineStop?, if_pos (by simp [length_encode]), hlook, Option.bind_eq_bind,
    Option.bind_some, if_pos (.inl rfl)]
  by_cases hbefore : before = []
  · simp [hbefore]
  · have hpos : 0 < Text.byteSize before :=
      Nat.pos_of_ne_zero (mt Offsets.byteSize_eq_zero.1 hbefore)
    obtain ⟨b, hb, hiff⟩ := exists_byteBefore hbefore (lineFeed :: Utf8.encode after)
    rw [if_pos ⟨rfl, hpos⟩, minus?_of_le hpos]
    simp only [Option.bind_eq_bind, Option.bind_some, hb, hiff]
    split <;> rfl

/-- The line of a place that is not between the halves of a line break ends before the next one. -/
theorem lineStop?_eq (noPair : ¬(before.getLast? = some '\r' ∧ after.head? = some '\n')) :
    lineStop? (Utf8.encode (before ++ after)) (Text.byteSize before) =
      some (Text.byteSize (before ++ after.takeWhile fun c => !Text.isLineBreak c)) := by
  induction after generalizing before with
  | nil =>
    rw [lineStop?, if_neg (by simp [length_encode])]
    simp
  | cons c after ih =>
    by_cases hfeed : c = '\n'
    · subst hfeed
      have hreturn : before.getLast? ≠ some '\r' := fun h => noPair ⟨h, rfl⟩
      simp [lineStop?_lineFeed, hreturn, Text.isLineBreak]
    by_cases hreturn : c = '\r'
    · subst hreturn
      have hlook : (Utf8.encode before ++
          carriageReturn :: Utf8.encode after)[Text.byteSize before]? = some carriageReturn := by
        simp [← length_encode]
      have hencode : Utf8.encode (before ++ '\r' :: after) =
          Utf8.encode before ++ carriageReturn :: Utf8.encode after := by
        rw [Utf8.encode_append, Utf8.encode_cons]
        rfl
      rw [hencode, lineStop?, if_pos (by simp [length_encode]), hlook, Option.bind_eq_bind,
        Option.bind_some, if_pos (.inr rfl), if_neg (by simp [carriageReturn, lineFeed])]
      simp [Text.isLineBreak]
    · have hbytes : ∀ b ∈ String.utf8EncodeChar c, b ≠ lineFeed ∧ b ≠ carriageReturn := by
        intro b hb
        rw [Ne, Ne, eq_lineFeed_iff hb, eq_carriageReturn_iff hb]
        exact ⟨hfeed, hreturn⟩
      have hmore := @ih (before ++ [c]) (by simp [hreturn])
      have hpass : lineStop? (Utf8.encode before ++ String.utf8EncodeChar c ++ Utf8.encode after)
          (Utf8.encode before).length = _ := lineStop?_of_noBreak hbytes
      have hencode : Utf8.encode before ++ String.utf8EncodeChar c ++ Utf8.encode after =
          Utf8.encode (before ++ [c] ++ after) := by simp [Utf8.encode_append]
      have hsize : (Utf8.encode before).length + (String.utf8EncodeChar c).length =
          Text.byteSize (before ++ [c]) := by
        simp [length_encode, String.length_utf8EncodeChar]
      rw [hencode, hsize, hmore, length_encode] at hpass
      rw [List.append_cons, hpass]
      simp [Text.isLineBreak, hfeed, hreturn]

/-- The number of the line and its beginning are found by the byte at the place. -/
theorem foldl_pass_take (before after : List Char) (c : Char) :
    let breaks := Text.lineBreaksUpTo before (c :: after)
    let s := ((Utf8.encode (before ++ c :: after)).take (Text.byteSize before + 1)).zipIdx.foldl
      ByteState.pass ⟨1, 0, 0⟩
    s.number = 1 + breaks.card ∧
      s.start = Text.byteSize ((before ++ [c]).take (breaks.sup id)) := by
  intro breaks
  have hbegin : Follows ⟨1, 0, 0⟩ (1, [], none) 0 := ⟨rfl, rfl, by decide, by decide⟩
  have hfollows := hbegin.foldl before
  obtain ⟨b, bytes, hbytes⟩ := List.exists_cons_of_ne_nil (String.utf8EncodeChar_ne_nil (c := c))
  have htake : (Utf8.encode (before ++ c :: after)).take (Text.byteSize before + 1) =
      Utf8.encode before ++ [b] := by
    rw [Utf8.encode_append, Utf8.encode_cons, hbytes, ← length_encode, List.take_length_add_append]
    rfl
  have hwalk : Location.walk (before.foldl Location.walk (1, [], none)) c =
      (1 + breaks.card, ((before ++ [c]).drop (breaks.sup id)).reverse, some c) := by
    have h := foldl_walk (before ++ [c]) after
    rwa [List.foldl_append, List.append_assoc, List.length_append, List.getLast?_concat,
      List.singleton_append, List.length_singleton, ← Text.lineBreaksUpTo_eq] at h
  obtain ⟨hnumber, hstart, -⟩ := hfollows.pass_first (b := b) (c := c) (by simp [hbytes])
  rw [hwalk] at hnumber hstart
  rw [htake, List.zipIdx_append, List.foldl_append, length_encode]
  refine ⟨hnumber, ?_⟩
  have hsize : Text.byteSize ((before ++ [c]).take (breaks.sup id)) +
      Text.byteSize ((before ++ [c]).drop (breaks.sup id)) = Text.byteSize before + c.utf8Size := by
    rw [← Text.byteSize_append, List.take_append_drop]
    simp
  simp only [Text.byteSize_reverse, Nat.zero_add] at hstart
  simp only [List.zipIdx_singleton, Nat.zero_add, List.foldl_cons, List.foldl_nil]
  omega

theorem lineStop?_outsidePair (before after : List Char) :
    lineStop? (Utf8.encode (before ++ after)) (Text.byteSize before) =
      some (Text.byteSize ((Text.outsidePair before after).1 ++
        (Text.outsidePair before after).2.takeWhile fun c => !Text.isLineBreak c)) := by
  rcases Text.outsidePair_cases before after with ⟨houtside, noPair⟩ |
    ⟨front, back, rfl, rfl, houtside⟩
  · rw [houtside, lineStop?_eq noPair]
  · have hsize : '\r'.utf8Size = 1 := rfl
    rw [houtside, lineStop?_lineFeed]
    simp [Text.isLineBreak, hsize]

/-- The bounds of the line of a place that is not at the end of the text are those of its row. -/
theorem exists_bounds (before after : List Char) (c : Char) : ∃ front back,
    before ++ c :: after = front ++ (rowAt before (c :: after)).before ++
      (rowAt before (c :: after)).after ++ back ∧
    bounds? (Utf8.encode (before ++ c :: after)) (Text.byteSize before) = some
      { number := (rowAt before (c :: after)).number
        start := Text.byteSize front
        stop := Text.byteSize (front ++ (rowAt before (c :: after)).before ++
          (rowAt before (c :: after)).after)
        position := Text.byteSize (front ++ (rowAt before (c :: after)).before) } := by
  obtain ⟨hnumber, hstart⟩ := foldl_pass_take before after c
  have hmin : min (Text.byteSize before) (Utf8.encode (before ++ c :: after)).length =
      Text.byteSize before := by
    rw [length_encode, Text.byteSize_append]
    omega
  have hle := Text.sup_lineBreaksUpTo_le before (c :: after)
  simp only [bounds?, hmin, hnumber, hstart, lineStop?_outsidePair, rowAt_cons]
  generalize (Text.lineBreaksUpTo before (c :: after)).sup id = start at hle
  refine ⟨(Text.outsidePair before (c :: after)).1.take start,
    (Text.outsidePair before (c :: after)).2.dropWhile fun c => !Text.isLineBreak c, ?_, ?_⟩
  · rw [List.take_append_drop, List.append_assoc, List.takeWhile_append_dropWhile,
      Text.outsidePair_append]
  · rw [List.take_append_drop]
    rcases Text.outsidePair_cases before (c :: after) with ⟨houtside, -⟩ |
      ⟨front, back, rfl, hpair, houtside⟩
    · rw [houtside] at hle ⊢
      have htake : (before ++ [c]).take start = before.take start :=
        List.take_append_of_le_length hle
      simp [htake]
    · obtain ⟨rfl, rfl⟩ := List.cons.inj hpair
      rw [houtside] at hle ⊢
      have hsize : '\r'.utf8Size = 1 := rfl
      have htake : (front ++ ['\r'] ++ ['\n']).take start = front.take start := by
        rw [List.append_assoc]
        exact List.take_append_of_le_length hle
      simp only [htake]
      simp [Text.isLineBreak, hsize]

theorem quoteBounds?_eq {text : List Char} {bounds : Bounds} {r : Row}
    (hleft : Text.slice? text bounds.start bounds.position = some r.before)
    (hright : Text.slice? text bounds.position bounds.stop = some r.after) :
    quoteBounds? text bounds = some (quoteRow r) := by
  have hwidth : 0 < tabWidth := by decide
  simp [quoteBounds?, quoteRow, hleft, hright, expandTabs?_eq hwidth, clip?_eq]

theorem size_between (before after : List Char) (file : Option String) :
    (between before after file).text.utf8ByteSize =
      (between before after file).position + Text.byteSize after := by
  rw [between, Text.utf8ByteSize_ofList, Text.byteSize_append]

theorem position_lt_size (before after : List Char) (c : Char) (file : Option String) :
    (between before (c :: after) file).position <
      (between before (c :: after) file).text.utf8ByteSize := by
  have hc := c.utf8Size_pos
  rw [size_between, Text.byteSize_cons]
  omega

/-- A place between two characters of a text is rendered by the bytes as it is by the characters,
and no check fails. -/
theorem renderByBytes?_eq (before after : List Char) (file : Option String) :
    (between before after file).renderByBytes? = some (between before after file).render := by
  cases after with
  | nil =>
    have hsize := size_between before [] file
    rw [Text.byteSize_nil, Nat.add_zero] at hsize
    simp only [renderByBytes?, render, hsize]
    simp
  | cons c after =>
    have hinside := position_lt_size before after c file
    obtain ⟨front, back, htext, hbounds⟩ := exists_bounds before after c
    have hrow := row_between before (c :: after) file
    generalize rowAt before (c :: after) = r at htext hbounds hrow
    have hleft : Text.slice? (before ++ c :: after) (Text.byteSize front)
        (Text.byteSize (front ++ r.before)) = some r.before :=
      Text.slice?_eq_some.2 ⟨front, r.after ++ back, by simp [htext], rfl, rfl⟩
    have hright : Text.slice? (before ++ c :: after) (Text.byteSize (front ++ r.before))
        (Text.byteSize (front ++ r.before ++ r.after)) = some r.after :=
      Text.slice?_eq_some.2 ⟨front ++ r.before, back, htext, rfl, rfl⟩
    have hquote : quoteBounds? (before ++ c :: after)
        ⟨r.number, Text.byteSize front, Text.byteSize (front ++ r.before ++ r.after),
          Text.byteSize (front ++ r.before)⟩ = some (quoteRow r) :=
      quoteBounds?_eq hleft hright
    have hempty : Text.byteSize (front ++ r.before ++ r.after) ≤ Text.byteSize front ↔
        r.before.isEmpty && r.after.isEmpty := by
      simp only [Text.byteSize_append, Bool.and_eq_true, List.isEmpty_iff,
        ← Offsets.byteSize_eq_zero]
      omega
    have htext' : (between before (c :: after) file).text.toList = before ++ c :: after :=
      String.toList_ofList
    have hposition : (between before (c :: after) file).position = Text.byteSize before := rfl
    rw [hposition] at hinside
    simp only [renderByBytes?, render, if_neg hinside.not_ge, if_neg hinside.ne,
      if_neg hinside.not_gt, htext', hposition, hbounds, Option.bind_eq_bind, Option.bind_some,
      hleft, hquote, lineAndColumn, hrow, hempty]
    split <;> rfl

end Location
end TextualData
