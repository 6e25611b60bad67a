import TextualData.Proofs.HeaderForms

/-!
# Looking for charset headers by offsets

The header of a text can be looked for by offsets, with each look at a byte and each slice checked
(`Charset.Search`). Whatever the bytes are, no check fails, and the name that is found is the one of
the only header of the text.
-/

namespace TextualData
namespace Charset

/-- A search in bytes by offsets. If a check fails, there is no result at all. -/
abbrev Search := OptionT Option

namespace Search

/-- The byte at an offset, which has to be before the end. -/
def look (bytes : List UInt8) (offset : Nat) : Search UInt8 :=
  OptionT.lift bytes[offset]?

/-- The bytes between two offsets, which have to be in their order and not beyond the end. -/
def slice (bytes : List UInt8) (start stop : Nat) : Search (List UInt8) :=
  OptionT.lift <|
    if start ≤ stop ∧ stop ≤ bytes.length then some ((bytes.take stop).drop start) else none

/-- The offset after the bytes of a kind that stand from an offset on. -/
def pass (p : UInt8 → Bool) (bytes : List UInt8) (offset : Nat) : Search Nat :=
  if offset < bytes.length then do
    let b ← look bytes offset
    if p b then pass p bytes (offset + 1) else pure offset
  else pure offset
termination_by bytes.length - offset

/-- The offset after the number sign that opens a header; a byte order mark may precede it. -/
def numberSign (bytes : List UInt8) (offset : Nat) : Search Nat := do
  let offset ← pass isHeaderBlank bytes offset
  guard (offset ≠ bytes.length)
  let b ← look bytes offset
  if b = 0x23 then pure (offset + 1)
  else do
    let rest ← slice bytes offset bytes.length
    guard ((utf8Mark ++ [0x23]).isPrefixOf rest)
    pure (offset + 4)

/-- The offset after one of the header words, in any letter case. -/
def word (bytes : List UInt8) (offset : Nat) : Search Nat := do
  let start ← pass isInlineBlank bytes offset
  let stop ← pass isLetter bytes start
  let letters ← slice bytes start stop
  guard (headerWords.contains (letters.map fun b => (latin1Char b).toLower))
  pure stop

/-- The offset after the colon. -/
def colon (bytes : List UInt8) (offset : Nat) : Search Nat := do
  let offset ← pass isInlineBlank bytes offset
  guard (offset ≠ bytes.length)
  let b ← look bytes offset
  guard (b = 0x3A)
  pure (offset + 1)

/-- The name of the encoding. -/
def label (bytes : List UInt8) (offset : Nat) : Search String := do
  let start ← pass isInlineBlank bytes offset
  let stop ← pass (fun b => !isHeaderBlank b) bytes start
  guard (start ≠ stop)
  let name ← slice bytes start stop
  pure (String.ofList (name.map latin1Char))

/-- The name of the encoding that the header of a text declares, if it has a header. -/
def declared (bytes : List UInt8) : Search String := do
  let offset ← numberSign bytes 0
  let offset ← word bytes offset
  let offset ← colon bytes offset
  label bytes offset

/-- A search ends behind a part of the bytes, before the given rest; or there is no such rest, and
it finds nothing. -/
inductive Finds (bytes : List UInt8) : Search Nat → Option (List UInt8) → Prop where
  | nothing : Finds bytes failure none
  | behind {before rest : List UInt8} (parts : bytes = before ++ rest) :
      Finds bytes (pure before.length) (some rest)

variable {bytes before l rest : List UInt8} {b : UInt8}

theorem Finds.run_bind {α : Type} {s : Search Nat} {found : Option (List UInt8)}
    (h : Finds bytes s found) {t : Nat → Search α} {f : List UInt8 → Option α}
    (ht : ∀ before rest, bytes = before ++ rest → (t before.length).run = some (f rest)) :
    (s >>= t).run = some (found >>= f) := by
  cases h with
  | nothing => rfl
  | behind parts => exact ht _ _ parts

theorem Finds.of_length {offset : Nat} (parts : bytes = before ++ rest)
    (h : before.length = offset) : Finds bytes (pure offset) (some rest) :=
  h ▸ .behind parts

theorem guard_bind_of_true {α : Type} {p : Prop} [Decidable p] (h : p) (s : Search α) :
    (guard p >>= fun _ => s) = s := by
  rw [guard, if_pos h]
  rfl

theorem guard_bind_of_false {α : Type} {p : Prop} [Decidable p] (h : ¬p) (s : Search α) :
    (guard p >>= fun _ => s) = failure := by
  rw [guard, if_neg h]
  rfl

theorem look_eq (parts : bytes = before ++ b :: rest) : look bytes before.length = pure b := by
  rw [look, parts, List.getElem?_append_right (Nat.le_refl _), Nat.sub_self]
  rfl

theorem slice_eq (parts : bytes = before ++ l ++ rest) :
    slice bytes before.length (before ++ l).length = pure l := by
  have hinside : before.length ≤ (before ++ l).length ∧ (before ++ l).length ≤ bytes.length := by
    simp [parts]
  rw [slice, if_pos hinside, parts, List.take_left, List.drop_left]
  rfl

/-- The bytes of a kind are passed up to the first of another kind. -/
theorem pass_eq (p : UInt8 → Bool) (parts : bytes = before ++ l) :
    pass p bytes before.length = pure (before ++ l.takeWhile p).length := by
  induction l generalizing before with
  | nil =>
    have hend : ¬before.length < bytes.length := by simp [parts]
    rw [pass, if_neg hend, List.takeWhile_nil, List.append_nil]
  | cons b l ih =>
    have hinside : before.length < bytes.length := by simp [parts]
    rw [pass, if_pos hinside, look_eq parts, pure_bind]
    by_cases hb : p b
    · have hmore := @ih (before ++ [b]) (by simp [parts])
      rw [List.length_append, List.length_singleton] at hmore
      rw [if_pos hb, List.takeWhile_cons_of_pos hb, hmore, List.append_assoc,
        List.singleton_append]
    · rw [if_neg hb, List.takeWhile_cons_of_neg hb, List.append_nil]

theorem parts_of_pass (p : UInt8 → Bool) (parts : bytes = before ++ l) :
    bytes = before ++ l.takeWhile p ++ l.dropWhile p := by
  rw [List.append_assoc, List.takeWhile_append_dropWhile, parts]

theorem ne_length_iff (parts : bytes = before ++ l) : before.length ≠ bytes.length ↔ l ≠ [] := by
  simp [parts]

theorem afterNumberSign?_eq_none (hb : b ≠ 0x23) (hmark : ¬utf8Mark ++ [0x23] <+: b :: l) :
    afterNumberSign? (b :: l) = none := by
  rw [Option.eq_none_iff_forall_ne_some]
  intro m hm
  rcases afterNumberSign?_eq_some.1 hm with hm | hm
  · exact hb (List.cons.inj hm).1
  · exact hmark ⟨m, hm.symm⟩

theorem numberSign_finds (parts : bytes = before ++ l) :
    Finds bytes (numberSign bytes before.length)
      (afterNumberSign? (l.dropWhile isHeaderBlank)) := by
  have hblanks := parts_of_pass isHeaderBlank parts
  rw [numberSign, pass_eq _ parts, pure_bind]
  generalize before ++ l.takeWhile isHeaderBlank = before at hblanks
  generalize l.dropWhile isHeaderBlank = l at hblanks
  cases l with
  | nil =>
    rw [guard_bind_of_false (by simp [hblanks])]
    exact .nothing
  | cons b l =>
    rw [guard_bind_of_true ((ne_length_iff hblanks).2 (by simp)), look_eq hblanks, pure_bind]
    by_cases hb : b = 0x23
    · subst hb
      have hrest : bytes = (before ++ [0x23]) ++ l := by simp [hblanks]
      rw [if_pos rfl]
      exact .of_length hrest (by simp)
    · have hall : bytes.length = (before ++ b :: l).length := by rw [hblanks]
      have hslice := slice_eq (hblanks.trans (List.append_nil _).symm)
      rw [if_neg hb, hall, hslice, pure_bind]
      by_cases hmark : (utf8Mark ++ [0x23]).isPrefixOf (b :: l)
      · obtain ⟨m, hm⟩ := List.isPrefixOf_iff_prefix.1 hmark
        have hrest : bytes = (before ++ (utf8Mark ++ [0x23])) ++ m := by simp [hblanks, ← hm]
        rw [guard_bind_of_true hmark, afterNumberSign?_eq_some.2 (.inr hm.symm)]
        exact .of_length hrest (by simp [utf8Mark])
      · have hafter := afterNumberSign?_eq_none hb (mt List.isPrefixOf_iff_prefix.2 hmark)
        rw [guard_bind_of_false hmark, hafter]
        exact .nothing

theorem word_finds (parts : bytes = before ++ l) :
    Finds bytes (word bytes before.length) (afterWord? (l.dropWhile isInlineBlank)) := by
  have hstart := parts_of_pass isInlineBlank parts
  have hstop := parts_of_pass isLetter hstart
  rw [word, pass_eq _ parts, pure_bind, pass_eq _ hstart, pure_bind, slice_eq hstop, pure_bind,
    afterWord?]
  by_cases hword : headerWords.contains
      (((l.dropWhile isInlineBlank).takeWhile isLetter).map fun b => (latin1Char b).toLower)
  · rw [guard_bind_of_true hword, if_pos hword]
    exact .behind hstop
  · rw [guard_bind_of_false hword, if_neg hword]
    exact .nothing

theorem colon_finds (parts : bytes = before ++ l) :
    Finds bytes (colon bytes before.length) (afterColon? (l.dropWhile isInlineBlank)) := by
  have hblanks := parts_of_pass isInlineBlank parts
  rw [colon, pass_eq _ parts, pure_bind]
  generalize before ++ l.takeWhile isInlineBlank = before at hblanks
  generalize l.dropWhile isInlineBlank = l at hblanks
  cases l with
  | nil =>
    rw [guard_bind_of_false (by simp [hblanks])]
    exact .nothing
  | cons b l =>
    rw [guard_bind_of_true ((ne_length_iff hblanks).2 (by simp)), look_eq hblanks, pure_bind]
    by_cases hb : b = 0x3A
    · subst hb
      have hrest : bytes = (before ++ [0x3A]) ++ l := by simp [hblanks]
      rw [guard_bind_of_true rfl]
      exact .of_length hrest (by simp)
    · have hafter : afterColon? (b :: l) = none := by
        rw [Option.eq_none_iff_forall_ne_some]
        intro m hm
        exact hb (List.cons.inj (afterColon?_eq_some.1 hm)).1
      rw [guard_bind_of_false hb, hafter]
      exact .nothing

theorem run_label (parts : bytes = before ++ l) :
    (label bytes before.length).run = some
      (let name := (l.dropWhile isInlineBlank).takeWhile fun b => !isHeaderBlank b
      if name.isEmpty then none else some (String.ofList (name.map latin1Char))) := by
  have hstart := parts_of_pass isInlineBlank parts
  have hstop := parts_of_pass (fun b => !isHeaderBlank b) hstart
  rw [label, pass_eq _ parts, pure_bind, pass_eq _ hstart, pure_bind, slice_eq hstop]
  by_cases hname : ((l.dropWhile isInlineBlank).takeWhile fun b => !isHeaderBlank b).isEmpty
  · rw [guard_bind_of_false (by simpa using hname)]
    exact congrArg some (if_pos hname).symm
  · rw [guard_bind_of_true (by simpa using hname)]
    exact congrArg some (if_neg hname).symm

/-- The search by offsets finds what is declared. -/
theorem run_declared (bytes : List UInt8) : (declared bytes).run = some (declared? bytes) := by
  refine (numberSign_finds (List.nil_append bytes).symm).run_bind fun _ _ hsign => ?_
  refine (word_finds hsign).run_bind fun _ _ hword => ?_
  refine (colon_finds hword).run_bind fun _ _ hcolon => ?_
  exact run_label hcolon

end Search

/-- The search for a header never looks outside of the bytes. It finds a name exactly if the bytes
are those of a header with this name, and each list of bytes is that of one header at most. -/
theorem declares_iff_header (bytes : List UInt8) :
    (Search.declared bytes).run = some (declared? bytes) ∧
      (∀ name, declared? bytes = some name ↔ ∃ h : Header, h.bytes = bytes ∧ h.label = name) ∧
      Function.Injective Header.bytes := by
  refine ⟨Search.run_declared bytes, fun name => ⟨exists_header, ?_⟩, Header.bytes_injective⟩
  rintro ⟨h, rfl, rfl⟩
  exact h.declared?_bytes

end Charset
end TextualData
