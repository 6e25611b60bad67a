import Mathlib
import TextualData.Proofs.InlineText

/-!
# Tokens in the place of a value

Wherever a token stands in the place of a value, and no parameters follow it, evaluation gives what
the token means and nothing else (`Token.isReadAs_iff`). So the literal of a decimal gives the
decimal back, with its digits and its scale. Decimals of the least scale have no literal: the
opposite of that scale does not fit in 64 bits.
-/

namespace TextualData

open Evaluation

/-- Wherever the characters stand as a token in the place of a value and no parameters follow,
evaluation gives the value and passes the characters, whatever the environment. -/
def Token.IsReadAs (l : List Char) (v : Value) : Prop :=
  ∀ {σ : Type} (setting : Setting σ) (c : Cursor) (rest : List Char), c.rest = l ++ rest →
    Literal.rawQuotation? c.rest = none → (c.pass l rest).EndsToken →
      Yields setting (.value false false v) c (c.pass l rest)

namespace Token

variable {l : List Char} {v w : Value}

/-- A token that ends where no token goes on. -/
theorem IsName.split_append (h : IsName l) {rest : List Char} (ends : Ends rest) :
    split false (l ++ rest) = (l, rest) := by
  obtain ⟨x, m, rfl, hx, hm⟩ := h
  exact split_of_ends hx hm ends

theorem IsName.ne_nil (h : IsName l) : l ≠ [] := by
  obtain ⟨x, m, rfl, _⟩ := h
  simp

/-- A token on its own is no raw literal. -/
theorem IsName.rawQuotation? (h : IsName l) : Literal.rawQuotation? l = none := by
  obtain ⟨x, m, rfl, _, hm⟩ := h
  have hraw : Literal.rawQuotation? (x :: (m ++ [])) = none :=
    rawQuotation?_eq_none hm (by simp)
  rwa [List.append_nil] at hraw

theorem IsName.isReadAs_classify (h : IsName l) : IsReadAs l (classify l) := by
  intro σ setting c rest hrest noRaw ends
  obtain ⟨hends, broken, c₁, blanks, noCall⟩ := ends
  have hsplit : split false c.rest = (l, rest) := by
    rw [hrest]
    exact h.split_append hends
  exact token_yields noRaw hsplit h.ne_nil blanks noCall

/-- A token is read as one value only. -/
theorem IsReadAs.unique (h : IsReadAs l v) (h' : IsReadAs l w) (isName : IsName l) : v = w := by
  have hrest : (Cursor.ofText l).rest = l ++ [] := (List.append_nil l).symm
  have hraw : Literal.rawQuotation? (Cursor.ofText l).rest = none := isName.rawQuotation?
  have hends := Cursor.endsToken_of_rest_eq_nil (c := (Cursor.ofText l).pass l []) rfl
  let setting : Setting Unit := ⟨⟨"", none⟩, .unresolving⟩
  obtain ⟨_, hrun⟩ := h setting _ _ hrest hraw hends _ [] (Nat.le_refl _) ()
  obtain ⟨_, hrun'⟩ := h' setting _ _ hrest hraw hends _ [] (Nat.le_refl _) ()
  exact (EStateM.Result.ok.inj (hrun.symm.trans hrun')).1

/-- A token is read as what it means. -/
theorem isReadAs_iff (h : IsName l) : IsReadAs l v ↔ classify l = v :=
  ⟨fun hv => IsReadAs.unique h.isReadAs_classify hv h, fun hv => hv ▸ h.isReadAs_classify⟩

/-- The literal of a decimal is a token. -/
theorem isName_literal {d : Decimal} (h : d.literal? = some l) : IsName l := by
  obtain ⟨x, m, rfl, -⟩ := exists_literal h
  refine ⟨x, m, rfl, ?_, fun y hy => continues_of_mem_literal h (List.mem_cons_of_mem x hy)⟩
  simp [starts, continues_of_mem_literal h List.mem_cons_self]

end Token

namespace Decimal

/-- Making the literal of a decimal overflows exactly if the scale is the least of 64 bits. The
literal is made, and is read as that decimal, for every other scale. -/
theorem literal_isReadAs_iff (d : Decimal) :
    (d.literal? = none ↔ d.scale = Int64.minValue) ∧
      ((∃ l, d.literal? = some l ∧ Token.IsReadAs l (.decimal d)) ↔ d.scale ≠ Int64.minValue) := by
  refine ⟨literal?_eq_none_iff, ?_⟩
  rw [ne_eq, ← literal?_eq_none_iff, ← ne_eq, Option.ne_none_iff_exists']
  refine exists_congr fun l => and_iff_left_of_imp fun h => ?_
  exact (Token.isReadAs_iff (Token.isName_literal h)).2 (Token.classify_literal h)

/-- A decimal of the least scale can be written by hand, but making its literal overflows, and so
does making its dump. -/
theorem literal_of_least_scale :
    (Source.evaluate ⟨"1e9223372036854775808", none⟩ .unresolving false ()).1 =
        .ok (.decimal ⟨1, Int64.minValue⟩) ∧
      (Decimal.mk 1 Int64.minValue).literal? = none ∧
      (Value.decimal ⟨1, Int64.minValue⟩).dump? = none := by
  refine ⟨by cbv, by cbv, by cbv⟩

end Decimal
end TextualData
