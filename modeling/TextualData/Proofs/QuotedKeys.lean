import TextualData.Proofs.Blanks
import TextualData.Proofs.QuotedText
import TextualData.Proofs.WholeTexts

/-!
# Entries under quoted keys

An entry that begins with a quoted key and a colon gives the value after the colon to that key, and
to nothing else. Entries under new keys are put at the end.
-/

namespace TextualData

namespace Entries

variable {α : Type} {es : Entries α} {key : String}

theorem insert_eq_append (h : key ∉ es.keys) (v : α) : es.insert key v = es ++ [(key, v)] := by
  induction es with
  | nil => rfl
  | cons e es ih =>
    obtain ⟨k, w⟩ := e
    simp only [keys, List.map_cons, List.mem_cons, not_or] at h
    rw [insert, if_neg (Ne.symm h.1), ih h.2, List.cons_append]

/-- Whether keys are distinct does not depend on what is under them. -/
theorem hasDistinctKeys_append_cons {more : Entries α} {v w : α} :
    HasDistinctKeys (es ++ (key, v) :: more) ↔ HasDistinctKeys ((es ++ [(key, w)]) ++ more) := by
  simp [HasDistinctKeys, keys]

theorem notMem_keys {more : Entries α} {v : α}
    (h : HasDistinctKeys (es ++ (key, v) :: more)) : key ∉ es.keys := by
  simp only [HasDistinctKeys, keys, List.map_append, List.map_cons] at h
  intro hmem
  exact (List.nodup_append.1 h).2.2 key hmem key (by simp) rfl

end Entries

namespace Reads

variable {k : String} {rest : List Char} {c : Cursor}

/-- A quoted key is read up to its quotation mark. -/
theorem quotedKey (hrest : c.rest = (Text.quote k).toList ++ rest) :
    Reads Unresolved (.value false true (.string k)) c (c.pass (Text.quote k).toList rest) := by
  have hpeek : c.peek? = some Text.quotationMark := by
    simp [Cursor.peek?, hrest, Text.toList_quote]
  have h : Reads Unresolved (.value false true (.string (String.ofList k.toList))) c
      (c.pass (Text.quote k).toList rest) :=
    .quoted hpeek (by decide) (Scan.quoted_quote k hrest)
  rwa [String.ofList_toList] at h

/-- What an entry under a quoted key is. -/
theorem quotedEntry_iff {forced broken : Bool} {old new : Hash} {c₁ c' : Cursor}
    (hrest : c.rest = (Text.quote k).toList ++ ':' :: rest)
    (hblanks : Scan.blanks (c.pass ((Text.quote k).toList ++ [':']) rest) = .ok broken c₁)
    (hasValue : c₁.rest ≠ []) :
    Reads Unresolved (.entries (some '}') forced old new) c c' ↔
      ∃ v separator c₂ c₃, Reads Unresolved (.value forced false v) c₁ c₂ ∧
        Scan.separator (some '}') (some .valueGiven) c₂ = .ok separator c₃ ∧
        Reads Unresolved (.entries (some '}') forced (old.insert k v) new) c₃ c' := by
  have hpeek : c.peek? = some Text.quotationMark := by
    simp [Cursor.peek?, hrest, Text.toList_quote]
  have hkey := quotedKey hrest
  have hmark : (c.pass (Text.quote k).toList (':' :: rest)).peek? = some ':' := rfl
  have hnext : (c.pass (Text.quote k).toList (':' :: rest)).next =
      c.pass ((Text.quote k).toList ++ [':']) rest := by
    simp [Cursor.pass, Cursor.next]
  rw [← hnext] at hblanks
  have hcolon : Scan.separator (some '}') none (c.pass (Text.quote k).toList (':' :: rest)) =
      .ok .colon c₁ :=
    separator_eq_ok.2 ⟨_, _, Scan.blanks_of_delimiter hmark (by decide) (by decide),
      .colon hmark rfl hblanks⟩
  constructor
  · intro h
    cases h with
    | noEntries closes => exact absurd (hpeek.symm.trans closes) (by decide)
    | pair _ first means colon _ second separated more =>
      obtain ⟨rfl, rfl⟩ := first.unique hkey
      obtain ⟨_, rfl⟩ := EStateM.Result.ok.inj (colon.symm.trans hcolon)
      cases means with
      | plain => exact ⟨_, _, _, _, second, separated, more⟩
    -- A colon follows the key, so it is neither on its own nor a hash to take over.
    | flag _ first separated noColon =>
      obtain ⟨_, rfl⟩ := first.unique hkey
      exact absurd (EStateM.Result.ok.inj (separated.symm.trans hcolon)).1 noColon
    | merge _ first _ separated noColon =>
      obtain ⟨_, rfl⟩ := first.unique hkey
      exact absurd (EStateM.Result.ok.inj (separated.symm.trans hcolon)).1 noColon
  · rintro ⟨v, separator, c₂, c₃, second, separated, more⟩
    refine .pair ⟨_, hpeek, by decide, by decide⟩ hkey (.plain ?_) hcolon hasValue second separated
      more
    simp

end Reads
end TextualData
