import TextualData.Charset.Unicode
import TextualData.Proofs.QuotedText
import TextualData.Proofs.Tokens

/-!
# Texts in UTF-8

The bytes of a text in UTF-8 decode to the text (`Utf8.decode_encode`). A class of bytes that holds
all the bytes of a character or none of them is a class of characters, and ends in the bytes where
it ends in the text (`Utf8.dropWhile_encode`).
-/

namespace TextualData
namespace Utf8

/-- The bytes of characters. -/
def encode (l : List Char) : List UInt8 :=
  l.flatMap String.utf8EncodeChar

variable {l m : List Char} {c : Char} {rest : List UInt8}

@[simp] theorem encode_nil : encode [] = [] := rfl

@[simp] theorem encode_cons : encode (c :: l) = String.utf8EncodeChar c ++ encode l := rfl

theorem encode_append : encode (l ++ m) = encode l ++ encode m :=
  List.flatMap_append

/-- The bytes of a string. -/
theorem toList_toUTF8 (s : String) : s.toUTF8.data.toList = encode s.toList := by
  rw [String.toUTF8_eq_toByteArray, ← String.utf8Encode_toList, List.utf8Encode, encode,
    List.toList_data_toByteArray]

theorem start_one : ∀ k < 128, start (UInt8.ofNat k) = ([Char.ofNat k], none) := by
  decide

theorem start_two : ∀ k < 32, 2 ≤ k →
    start (UInt8.ofNat (k + 0xC0)) = ([], some { needed := 1, code := k }) := by
  decide

theorem start_three : ∀ k < 16, start (UInt8.ofNat (k + 0xE0)) =
    ([], some { needed := 2, code := k, lower := if k = 0 then 0xA0 else 0x80,
                upper := if k = 13 then 0x9F else 0xBF }) := by
  decide

theorem start_four : ∀ k < 5, start (UInt8.ofNat (k + 0xF0)) =
    ([], some { needed := 3, code := k, lower := if k = 0 then 0x90 else 0x80,
                upper := if k = 4 then 0x8F else 0xBF }) := by
  decide

theorem decodeFrom_start {b : UInt8} {chars : List Char} {state : Option Partial}
    (h : start b = (chars, state)) :
    decodeFrom none (b :: rest) = chars ++ decodeFrom state rest := by
  simp [decodeFrom, step, h]

/-- A byte that goes on with a character. -/
theorem decodeFrom_trail {p : Partial} {k : Nat} (hk : k < 64) (lower : p.lower.toNat ≤ k + 0x80)
    (upper : k + 0x80 ≤ p.upper.toNat) :
    decodeFrom (some p) (UInt8.ofNat (k + 0x80) :: rest) =
      if p.needed ≤ 1 then charOfCode (p.code * 64 + k) :: decodeFrom none rest
      else decodeFrom (some { needed := p.needed - 1, code := p.code * 64 + k }) rest := by
  have hbyte : (UInt8.ofNat (k + 0x80)).toNat = k + 0x80 := by
    rw [UInt8.toNat_ofNat']
    omega
  have hrange : p.lower ≤ UInt8.ofNat (k + 0x80) ∧ UInt8.ofNat (k + 0x80) ≤ p.upper := by
    rw [UInt8.le_iff_toNat_le, UInt8.le_iff_toNat_le, hbyte]
    exact ⟨lower, upper⟩
  rw [decodeFrom, step]
  simp only [hrange, hbyte, decide_true, Bool.and_self, if_true, Nat.add_sub_cancel]
  split <;> rfl

theorem decodeFrom_two {a b : Nat} (ha : a < 32) (hb : b < 64) (shortest : 2 ≤ a) :
    decodeFrom none (UInt8.ofNat (a + 0xC0) :: UInt8.ofNat (b + 0x80) :: rest) =
      charOfCode (a * 64 + b) :: decodeFrom none rest := by
  rw [decodeFrom_start (start_two a ha shortest), List.nil_append,
    decodeFrom_trail hb (by simp) (by simp; omega), if_pos (by simp)]

theorem decodeFrom_three {a b d : Nat} (ha : a < 16) (hb : b < 64) (hd : d < 64)
    (shortest : a = 0 → 0x20 ≤ b) (noSurrogate : a = 13 → b < 0x20) :
    decodeFrom none (UInt8.ofNat (a + 0xE0) :: UInt8.ofNat (b + 0x80) :: UInt8.ofNat (d + 0x80) ::
      rest) = charOfCode ((a * 64 + b) * 64 + d) :: decodeFrom none rest := by
  have hlower : (if a = 0 then 0xA0 else 0x80 : UInt8).toNat ≤ b + 0x80 := by
    split
    · next h => simpa using shortest h
    · simp
  have hupper : b + 0x80 ≤ (if a = 13 then 0x9F else 0xBF : UInt8).toNat := by
    split
    · next h => simpa using Nat.le_of_lt_succ (noSurrogate h)
    · simpa using Nat.le_of_lt_succ hb
  rw [decodeFrom_start (start_three a ha), List.nil_append, decodeFrom_trail hb hlower hupper,
    if_neg (by simp), decodeFrom_trail hd (by simp) (by simp; omega), if_pos (by simp)]

theorem decodeFrom_four {a b d e : Nat} (ha : a < 5) (hb : b < 64) (hd : d < 64) (he : e < 64)
    (shortest : a = 0 → 0x10 ≤ b) (inRange : a = 4 → b < 0x10) :
    decodeFrom none (UInt8.ofNat (a + 0xF0) :: UInt8.ofNat (b + 0x80) :: UInt8.ofNat (d + 0x80) ::
      UInt8.ofNat (e + 0x80) :: rest) =
        charOfCode (((a * 64 + b) * 64 + d) * 64 + e) :: decodeFrom none rest := by
  have hlower : (if a = 0 then 0x90 else 0x80 : UInt8).toNat ≤ b + 0x80 := by
    split
    · next h => simpa using shortest h
    · simp
  have hupper : b + 0x80 ≤ (if a = 4 then 0x8F else 0xBF : UInt8).toNat := by
    split
    · next h => simpa using Nat.le_of_lt_succ (inRange h)
    · simpa using Nat.le_of_lt_succ hb
  rw [decodeFrom_start (start_four a ha), List.nil_append, decodeFrom_trail hb hlower hupper,
    if_neg (by simp), decodeFrom_trail hd (by simp) (by simp; omega), if_neg (by simp),
    decodeFrom_trail he (by simp) (by simp; omega), if_pos (by simp)]

theorem charOfCode_toNat (c : Char) : charOfCode c.toNat = c := by
  rw [charOfCode, Text.scalar?_toNat]
  rfl

/-- The bytes of a character decode to the character, whatever follows. -/
theorem decodeFrom_encodeChar (c : Char) :
    decodeFrom none (String.utf8EncodeChar c ++ rest) = c :: decodeFrom none rest := by
  have hvalid : c.toNat < 0xD800 ∨ 0xDFFF < c.toNat ∧ c.toNat < 0x110000 := c.valid
  have hchar := charOfCode_toNat c
  generalize hn : c.toNat = n at hvalid hchar
  have hval : c.val.toNat = n := hn
  simp only [String.utf8EncodeChar, hval]
  split
  · next h =>
    rw [List.singleton_append, decodeFrom_start (start_one n (by omega)), ← hn, Char.ofNat_toNat]
    rfl
  split
  · next h =>
    simp only [List.cons_append, List.nil_append]
    rw [decodeFrom_two (by omega) (by omega) (by omega),
      show n / 64 % 32 * 64 + n % 64 = n by omega, hchar]
  split
  · next h =>
    simp only [List.cons_append, List.nil_append]
    rw [decodeFrom_three (by omega) (by omega) (by omega) (by omega) (by omega),
      show (n / 4096 % 16 * 64 + n / 64 % 64) * 64 + n % 64 = n by omega, hchar]
  · next h =>
    simp only [List.cons_append, List.nil_append]
    rw [decodeFrom_four (by omega) (by omega) (by omega) (by omega) (by omega) (by omega),
      show ((n / 262144 % 8 * 64 + n / 4096 % 64) * 64 + n / 64 % 64) * 64 + n % 64 = n by omega,
      hchar]

/-- The bytes of a text decode to the text. -/
theorem decode_encode (l : List Char) : decode (encode l) = l := by
  induction l with
  | nil => rfl
  | cons c l ih =>
    rw [decode] at ih ⊢
    rw [encode_cons, decodeFrom_encodeChar, ih]

/-- The byte of an ASCII character is its code; other characters have no such bytes. -/
theorem mem_encodeChar {b : UInt8} (h : b ∈ String.utf8EncodeChar c) :
    c.toNat < 0x80 ∧ b.toNat = c.toNat ∨ 0x80 ≤ c.toNat ∧ 0x80 ≤ b.toNat := by
  generalize hn : c.toNat = n
  have hval : c.val.toNat = n := hn
  simp only [String.utf8EncodeChar, hval] at h
  split at h
  · obtain rfl := List.mem_singleton.1 h
    rw [UInt8.toNat_ofNat']
    omega
  · refine .inr ⟨by omega, ?_⟩
    have hhigh : ∀ k, 0x80 ≤ k → k < 0x100 → 0x80 ≤ (UInt8.ofNat k).toNat := by
      intro k hlow hk
      rw [UInt8.toNat_ofNat']
      omega
    split at h
    · simp only [List.mem_cons, List.not_mem_nil, or_false] at h
      rcases h with rfl | rfl <;> exact hhigh _ (by omega) (by omega)
    split at h
    · simp only [List.mem_cons, List.not_mem_nil, or_false] at h
      rcases h with rfl | rfl | rfl <;> exact hhigh _ (by omega) (by omega)
    · simp only [List.mem_cons, List.not_mem_nil, or_false] at h
      rcases h with rfl | rfl | rfl | rfl <;> exact hhigh _ (by omega) (by omega)

/-- A class that holds of all bytes of a character if it holds of the character ends at the same
place in the bytes as in the text. -/
theorem dropWhile_encode {p : UInt8 → Bool} {q : Char → Bool}
    (h : ∀ c, ∀ b ∈ String.utf8EncodeChar c, p b = q c) :
    (encode l).dropWhile p = encode (l.dropWhile q) := by
  have hfront : ∀ b ∈ encode (l.takeWhile q), p b := by
    intro b hb
    obtain ⟨c, hc, hb⟩ := List.mem_flatMap.1 hb
    rw [h c b hb]
    exact List.all_eq_true.1 List.all_takeWhile c hc
  have hback : ∀ b ∈ (encode (l.dropWhile q)).head?, p b = false := by
    intro b hb
    have hnot := head?_dropWhile_eq_false q l
    cases hm : l.dropWhile q with
    | nil => simp [hm] at hb
    | cons c m =>
      have hne : String.utf8EncodeChar c ≠ [] := String.utf8EncodeChar_ne_nil
      obtain ⟨b', bytes, hbytes⟩ := List.exists_cons_of_ne_nil hne
      rw [hm, encode_cons, hbytes] at hb
      obtain rfl := Option.some.inj hb
      rw [hm] at hnot
      rw [h c b' (by simp [hbytes])]
      exact hnot c rfl
  calc (encode l).dropWhile p
      = (encode (l.takeWhile q) ++ encode (l.dropWhile q)).dropWhile p := by
        rw [← encode_append, List.takeWhile_append_dropWhile]
    _ = encode (l.dropWhile q) := (takeWhile_dropWhile_append hfront hback).2

end Utf8
end TextualData
