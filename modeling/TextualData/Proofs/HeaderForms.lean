import Mathlib.Data.List.Forall2
import TextualData.Proofs.Headers

/-!
# The form of charset headers

The bytes of a text with a header fall into the parts of a `Charset.Header`, in one way only
(`Charset.Header.bytes_injective`). A name is declared by the texts of this form, and by no others.
-/

namespace TextualData
namespace Charset

/-- The byte order mark in UTF-8. -/
def utf8Mark : List UInt8 := [0xEF, 0xBB, 0xBF]

/-- Whether the bytes spell a word, each letter small or capital. -/
def SpellsWord (l : List UInt8) (word : List Char) : Prop :=
  List.Forall₂ (fun b c => latin1Char b = c ∨ latin1Char b = c.toUpper) l word

/-- A text with a header, in its parts. Between the parts stand the number sign, before the blanks
in front of the word, and the colon, before the blanks in front of the name. -/
@[ext]
structure Header where
  /-- The blanks at the beginning. -/
  front : List UInt8
  mark : List UInt8
  /-- The blanks in front of the word. -/
  beforeWord : List UInt8
  word : List UInt8
  /-- The blanks in front of the colon. -/
  beforeColon : List UInt8
  /-- The blanks in front of the name. -/
  beforeName : List UInt8
  name : List UInt8
  /-- What follows the name. -/
  rest : List UInt8
  front_blank : ∀ b ∈ front, isHeaderBlank b
  mark_eq : mark = [] ∨ mark = utf8Mark
  beforeWord_blank : ∀ b ∈ beforeWord, isInlineBlank b
  word_spelled : ∃ w ∈ headerWords, SpellsWord word w
  beforeColon_blank : ∀ b ∈ beforeColon, isInlineBlank b
  beforeName_blank : ∀ b ∈ beforeName, isInlineBlank b
  name_ne_nil : name ≠ []
  name_not_blank : ∀ b ∈ name, isHeaderBlank b = false
  rest_blank : ∀ b ∈ rest.head?, isHeaderBlank b

namespace Header

/-- The bytes from the name on. -/
def fromName (h : Header) : List UInt8 :=
  h.name ++ h.rest

/-- The bytes from the colon on. -/
def fromColon (h : Header) : List UInt8 :=
  0x3A :: (h.beforeName ++ h.fromName)

/-- The bytes from the word on. -/
def fromWord (h : Header) : List UInt8 :=
  h.word ++ (h.beforeColon ++ h.fromColon)

/-- The bytes from the number sign on. -/
def fromSign (h : Header) : List UInt8 :=
  0x23 :: (h.beforeWord ++ h.fromWord)

/-- All bytes of the text. -/
def bytes (h : Header) : List UInt8 :=
  h.front ++ (h.mark ++ h.fromSign)

/-- The name that is declared. -/
def label (h : Header) : String :=
  String.ofList (h.name.map latin1Char)

end Header

section
variable {l l' m m' : List UInt8} {p : UInt8 → Bool} {b : UInt8} {c : Char}

/-- Where the bytes of one kind end, a list of bytes falls apart in one way only. -/
theorem append_inj_of_ends (hl : ∀ x ∈ l, p x) (hm : ∀ x ∈ m.head?, p x = false)
    (hl' : ∀ x ∈ l', p x) (hm' : ∀ x ∈ m'.head?, p x = false) (h : l ++ m = l' ++ m') :
    l = l' ∧ m = m' := by
  obtain ⟨htake, hdrop⟩ := takeWhile_dropWhile_append hl hm
  obtain ⟨htake', hdrop'⟩ := takeWhile_dropWhile_append hl' hm'
  rw [h] at htake hdrop
  exact ⟨htake.symm.trans htake', hdrop.symm.trans hdrop'⟩

theorem isInlineBlank_of_isLetter (h : isLetter b) : isInlineBlank b = false := by
  simp only [isLetter, isInlineBlank, isHeaderBlank, Bool.or_eq_true, Bool.and_eq_true,
    decide_eq_true_eq, UInt8.le_iff_toNat_le, ← Bool.not_eq_true] at h ⊢
  simp at h ⊢
  omega

/-! ### Words -/

/-- The header words have small letters. -/
theorem isSmall_of_mem : ∀ word ∈ headerWords, ∀ c ∈ word, 'a' ≤ c ∧ c ≤ 'z' := by
  simp [headerWords]

theorem toLower_eq_iff {x : Char} (hc : 'a' ≤ c ∧ c ≤ 'z') :
    x.toLower = c ↔ x = c ∨ x = c.toUpper := by
  simp only [Char.le_def, UInt32.le_iff_toNat_le] at hc
  unfold Char.toLower Char.toUpper
  simp only [Char.ext_iff, ge_iff_le, UInt32.le_iff_toNat_le, ← UInt32.toNat_inj]
  rw [dif_pos hc]
  simp at hc ⊢
  split <;> simp [UInt32.toNat_add] <;> omega

theorem toNat_latin1Char (b : UInt8) : (latin1Char b).toNat = b.toNat := by
  have hvalid : b.toNat.isValidChar := .inl (b.toNat_lt.trans (by decide))
  rw [latin1Char, Char.ofNat, dif_pos hvalid]
  rfl

theorem isLetter_of_toLower (hc : 'a' ≤ c ∧ c ≤ 'z') (h : (latin1Char b).toLower = c) :
    isLetter b := by
  have hcode := toNat_latin1Char b
  simp only [← h, Char.le_def, UInt32.le_iff_toNat_le] at hc
  unfold Char.toLower at hc
  simp only [isLetter, Bool.or_eq_true, Bool.and_eq_true, decide_eq_true_eq,
    UInt8.le_iff_toNat_le]
  split at hc
  · next hupper =>
    simp only [ge_iff_le, UInt32.le_iff_toNat_le] at hupper
    simp at hupper ⊢
    omega
  · simp at hc ⊢
    omega

theorem spellsWord_iff {word : List Char} (hword : ∀ c ∈ word, 'a' ≤ c ∧ c ≤ 'z') :
    SpellsWord l word ↔ (l.map fun b => (latin1Char b).toLower) = word := by
  induction word generalizing l with
  | nil => simp [SpellsWord]
  | cons c word ih =>
    cases l with
    | nil => simp [SpellsWord]
    | cons b l =>
      have hmore : SpellsWord l word ↔ (l.map fun b => (latin1Char b).toLower) = word :=
        ih fun c hc => hword c (List.mem_cons_of_mem _ hc)
      rw [SpellsWord, List.forall₂_cons, List.map_cons, List.cons.injEq,
        toLower_eq_iff (hword c (by simp)), ← hmore, SpellsWord]

theorem isLetter_of_spellsWord {word : List Char} (hword : word ∈ headerWords)
    (h : SpellsWord l word) : ∀ b ∈ l, isLetter b := by
  intro b hb
  have hmap := (spellsWord_iff (isSmall_of_mem _ hword)).1 h
  have hlower : (latin1Char b).toLower ∈ word := hmap ▸ List.mem_map_of_mem hb
  exact isLetter_of_toLower (isSmall_of_mem _ hword _ hlower) rfl

theorem ne_nil_of_spellsWord {word : List Char} (hword : word ∈ headerWords)
    (h : SpellsWord l word) : l ≠ [] := by
  rintro rfl
  obtain rfl := List.forall₂_nil_left_iff.1 h
  exact absurd hword (by decide)

theorem afterWord?_eq_some : afterWord? l = some m ↔ ∃ word, l = word ++ m ∧
    (∃ w ∈ headerWords, SpellsWord word w) ∧ ∀ b ∈ m.head?, isLetter b = false := by
  constructor
  · intro h
    unfold afterWord? at h
    split at h
    · next hword =>
      obtain rfl := Option.some.inj h
      have hmem := List.contains_iff_mem.1 hword
      exact ⟨l.takeWhile isLetter, List.takeWhile_append_dropWhile.symm,
        ⟨_, hmem, (spellsWord_iff (isSmall_of_mem _ hmem)).2 rfl⟩,
        head?_dropWhile_eq_false isLetter l⟩
    · simp at h
  · rintro ⟨word, rfl, ⟨w, hw, hword⟩, hm⟩
    obtain ⟨htake, hdrop⟩ := takeWhile_dropWhile_append (isLetter_of_spellsWord hw hword) hm
    rw [afterWord?, htake, hdrop, (spellsWord_iff (isSmall_of_mem _ hw)).1 hword,
      if_pos (List.contains_iff_mem.2 hw)]

end

/-! ### Texts with a header -/

namespace Header

variable (h : Header)

theorem head?_mark : ∀ b ∈ (h.mark ++ h.fromSign).head?, isHeaderBlank b = false := by
  rcases h.mark_eq with hmark | hmark <;>
  · rw [hmark]
    rintro b ⟨⟩
    decide

theorem head?_fromWord : ∀ b ∈ h.fromWord.head?, isInlineBlank b = false := by
  obtain ⟨w, hw, hword⟩ := h.word_spelled
  obtain ⟨b, l, hl⟩ := List.exists_cons_of_ne_nil (ne_nil_of_spellsWord hw hword)
  have hb : isLetter b := isLetter_of_spellsWord hw hword b (by simp [hl])
  rw [fromWord, hl]
  rintro _ ⟨⟩
  exact isInlineBlank_of_isLetter hb

theorem head?_beforeColon : ∀ b ∈ (h.beforeColon ++ h.fromColon).head?, isLetter b = false := by
  have hblank := h.beforeColon_blank
  cases hl : h.beforeColon with
  | nil =>
    rintro b ⟨⟩
    decide
  | cons b l =>
    have hb : isInlineBlank b := hblank b (by simp [hl])
    rintro _ ⟨⟩
    rw [← Bool.not_eq_true]
    intro hletter
    rw [isInlineBlank_of_isLetter hletter] at hb
    exact absurd hb Bool.false_ne_true

theorem head?_fromColon : ∀ b ∈ h.fromColon.head?, isInlineBlank b = false := by
  rintro b ⟨⟩
  decide

theorem head?_fromName : ∀ b ∈ h.fromName.head?, isInlineBlank b = false := by
  obtain ⟨b, l, hl⟩ := List.exists_cons_of_ne_nil h.name_ne_nil
  have hb : isHeaderBlank b = false := h.name_not_blank b (by simp [hl])
  rw [fromName, hl]
  rintro _ ⟨⟩
  simp [isInlineBlank, hb]

theorem name_ends : (∀ b ∈ h.name, !isHeaderBlank b) ∧
    ∀ b ∈ h.rest.head?, (!isHeaderBlank b) = false :=
  ⟨fun b hb => by simp [h.name_not_blank b hb], fun b hb => by simp [h.rest_blank b hb]⟩

theorem declared?_bytes : declared? h.bytes = some h.label := by
  obtain ⟨-, hfront⟩ := takeWhile_dropWhile_append h.front_blank h.head?_mark
  obtain ⟨-, hbeforeWord⟩ := takeWhile_dropWhile_append h.beforeWord_blank h.head?_fromWord
  obtain ⟨-, hbeforeColon⟩ := takeWhile_dropWhile_append h.beforeColon_blank h.head?_fromColon
  obtain ⟨-, hbeforeName⟩ := takeWhile_dropWhile_append h.beforeName_blank h.head?_fromName
  obtain ⟨hname, -⟩ := takeWhile_dropWhile_append h.name_ends.1 h.name_ends.2
  have hsign : afterNumberSign? (h.mark ++ h.fromSign) = some (h.beforeWord ++ h.fromWord) := by
    refine afterNumberSign?_eq_some.2 (h.mark_eq.imp ?_ ?_) <;>
    · intro hmark
      rw [hmark]
      rfl
  have hword : afterWord? h.fromWord = some (h.beforeColon ++ h.fromColon) :=
    afterWord?_eq_some.2 ⟨h.word, rfl, h.word_spelled, h.head?_beforeColon⟩
  have hcolon : afterColon? h.fromColon = some (h.beforeName ++ h.fromName) :=
    afterColon?_eq_some.2 rfl
  have hnonempty : h.name.isEmpty = false := by simp [h.name_ne_nil]
  rw [declared?, bytes, hfront, hsign]
  simp only [Option.bind_eq_bind, Option.bind_some]
  rw [hbeforeWord, hword, Option.bind_some, hbeforeColon, hcolon, Option.bind_some, hbeforeName,
    fromName, hname, hnonempty]
  rfl

/-- A text has at most one header. -/
theorem bytes_injective : Function.Injective bytes := by
  intro h h' same
  obtain ⟨hfront, same⟩ := append_inj_of_ends h.front_blank h.head?_mark h'.front_blank
    h'.head?_mark same
  have hmark : h.mark = h'.mark := by
    rcases h.mark_eq with hm | hm <;> rcases h'.mark_eq with hm' | hm' <;>
      simp [hm, hm', fromSign, utf8Mark] at same ⊢
  rw [hmark, List.append_cancel_left_eq, fromSign, fromSign, List.cons.injEq] at same
  obtain ⟨hbeforeWord, same⟩ := append_inj_of_ends h.beforeWord_blank h.head?_fromWord
    h'.beforeWord_blank h'.head?_fromWord same.2
  obtain ⟨w, hw, hspelled⟩ := h.word_spelled
  obtain ⟨w', hw', hspelled'⟩ := h'.word_spelled
  obtain ⟨hword, same⟩ := append_inj_of_ends (isLetter_of_spellsWord hw hspelled)
    h.head?_beforeColon (isLetter_of_spellsWord hw' hspelled') h'.head?_beforeColon same
  obtain ⟨hbeforeColon, same⟩ := append_inj_of_ends h.beforeColon_blank h.head?_fromColon
    h'.beforeColon_blank h'.head?_fromColon same
  rw [fromColon, fromColon, List.cons.injEq] at same
  obtain ⟨hbeforeName, same⟩ := append_inj_of_ends h.beforeName_blank h.head?_fromName
    h'.beforeName_blank h'.head?_fromName same.2
  obtain ⟨hname, hrest⟩ := append_inj_of_ends h.name_ends.1 h.name_ends.2 h'.name_ends.1
    h'.name_ends.2 same
  exact Header.ext hfront hmark hbeforeWord hword hbeforeColon hbeforeName hname hrest

end Header

variable {bytes : List UInt8} {name : String}

/-- A text that declares a name falls into the parts of a header. -/
theorem exists_header (h : declared? bytes = some name) :
    ∃ header : Header, header.bytes = bytes ∧ header.label = name := by
  obtain ⟨l₁, hsign, h⟩ := Option.bind_eq_some_iff.1 h
  obtain ⟨l₂, hword, h⟩ := Option.bind_eq_some_iff.1 h
  obtain ⟨l₃, hcolon, h⟩ := Option.bind_eq_some_iff.1 h
  have hmark : ∃ mark, (mark = [] ∨ mark = utf8Mark) ∧
      bytes.dropWhile isHeaderBlank = mark ++ 0x23 :: l₁ := by
    rcases afterNumberSign?_eq_some.1 hsign with hl | hl
    · exact ⟨[], .inl rfl, hl⟩
    · exact ⟨utf8Mark, .inr rfl, hl⟩
  obtain ⟨mark, hmark, hmarked⟩ := hmark
  obtain ⟨word, hspelled, hword, -⟩ := afterWord?_eq_some.1 hword
  have hcolon := afterColon?_eq_some.1 hcolon
  dsimp only at h
  split at h
  · simp at h
  · next hname =>
    obtain rfl := Option.some.inj h
    let header : Header :=
      { front := bytes.takeWhile isHeaderBlank
        mark := mark
        beforeWord := l₁.takeWhile isInlineBlank
        word := word
        beforeColon := l₂.takeWhile isInlineBlank
        beforeName := l₃.takeWhile isInlineBlank
        name := (l₃.dropWhile isInlineBlank).takeWhile fun b => !isHeaderBlank b
        rest := (l₃.dropWhile isInlineBlank).dropWhile fun b => !isHeaderBlank b
        front_blank := fun _ => List.mem_takeWhile_imp
        mark_eq := hmark
        beforeWord_blank := fun _ => List.mem_takeWhile_imp
        word_spelled := hword
        beforeColon_blank := fun _ => List.mem_takeWhile_imp
        beforeName_blank := fun _ => List.mem_takeWhile_imp
        name_ne_nil := by simpa using hname
        name_not_blank := fun b hb => by simpa using List.mem_takeWhile_imp hb
        rest_blank := fun b hb => by
          simpa using head?_dropWhile_eq_false (fun b => !isHeaderBlank b) _ b hb }
    refine ⟨header, ?_, rfl⟩
    have hfromName : header.fromName = l₃.dropWhile isInlineBlank :=
      List.takeWhile_append_dropWhile
    have hfromColon : header.fromColon = l₂.dropWhile isInlineBlank := by
      rw [hcolon, Header.fromColon, hfromName, List.takeWhile_append_dropWhile]
      rfl
    have hfromWord : header.fromWord = l₁.dropWhile isInlineBlank := by
      rw [hspelled, Header.fromWord, hfromColon, List.takeWhile_append_dropWhile]
    rw [Header.bytes, Header.fromSign, hfromWord, List.takeWhile_append_dropWhile, ← hmarked,
      List.takeWhile_append_dropWhile]

end Charset
end TextualData
