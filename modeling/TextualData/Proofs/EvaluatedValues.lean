import TextualData.Mode
import TextualData.Proofs.Tokens
import TextualData.Proofs.WholeTexts

/-!
# Values of texts

Without an environment, a text denotes values of a certain form only: the keys of each hash are
distinct, the name of each call is a token, and nothing is put off as a fragment. Each value of this
form equals itself.
-/

namespace TextualData

/-- Whether a text is a token outside of keys. -/
def Token.IsName (l : List Char) : Prop :=
  ∃ x m, l = x :: m ∧ starts false x ∧ ∀ y ∈ m, continues false y

/-- The form of a value that a text denotes without an environment. -/
inductive Value.IsEvaluated : Value → Prop where
  | string (s : String) : IsEvaluated (.string s)
  | integer (n : Int64) : IsEvaluated (.integer n)
  | decimal (d : Decimal) : IsEvaluated (.decimal d)
  | boolean (b : Bool) : IsEvaluated (.boolean b)
  | sequence {items : List Value} (inner : ∀ v ∈ items, IsEvaluated v) :
      IsEvaluated (.sequence items)
  | hash {entries : Hash} (distinct : entries.HasDistinctKeys)
      (inner : ∀ e ∈ entries, IsEvaluated e.2) : IsEvaluated (.hash entries)
  | call {name : String} {params : List Value} (isName : Token.IsName name.toList)
      (inner : ∀ v ∈ params, IsEvaluated v) : IsEvaluated (.call name params)

namespace Entries

variable {p : Value → Prop} {es : Hash}

theorem mem_insert {key : String} {v : Value} {e : String × Value} (h : e ∈ es.insert key v) :
    e = (key, v) ∨ e ∈ es := by
  induction es with
  | nil => simpa [insert] using h
  | cons e' es ih =>
    obtain ⟨k, w⟩ := e'
    unfold insert at h
    split at h
    · next hk =>
      subst hk
      exact (List.mem_cons.1 h).imp_right (List.mem_cons_of_mem _)
    · rcases List.mem_cons.1 h with rfl | h
      · exact .inr (by simp)
      · exact (ih h).imp_right (List.mem_cons_of_mem _)

end Entries

namespace Value

/-- Entries of a hash under construction. -/
def AreEvaluated (es : Hash) : Prop :=
  es.HasDistinctKeys ∧ ∀ e ∈ es, e.2.IsEvaluated

theorem AreEvaluated.insert {es : Hash} (h : AreEvaluated es) (key : String) {v : Value}
    (hv : v.IsEvaluated) : AreEvaluated (es.insert key v) := by
  refine ⟨h.1.insert key v, fun e he => ?_⟩
  rcases Entries.mem_insert he with rfl | he
  · exact hv
  · exact h.2 e he

theorem AreEvaluated.merge {es more : Hash} (h : AreEvaluated es)
    (hmore : ∀ e ∈ more, e.2.IsEvaluated) : AreEvaluated (es.merge more) := by
  unfold Entries.merge
  induction more generalizing es with
  | nil => exact h
  | cons e more ih =>
    exact ih (h.insert e.1 (hmore e (by simp))) fun e' he' => hmore e' (List.mem_cons_of_mem _ he')

theorem IsEvaluated.classify (l : List Char) : (Token.classify l).IsEvaluated := by
  obtain h | ⟨b, h⟩ | ⟨n, h⟩ | ⟨d, h⟩ := Token.classify_cases l
  · exact h ▸ .string _
  · exact h ▸ .boolean b
  · exact h ▸ .integer n
  · exact h ▸ .decimal d

theorem IsEvaluated.tokenValue (forced inKey : Bool) (l : List Char) :
    (tokenValue forced inKey l).IsEvaluated := by
  unfold TextualData.tokenValue
  split
  · exact .string _
  · exact .classify l

end Value

/-- A token is a name. -/
theorem Token.isName_of_split {inKey : Bool} {m l rest : List Char}
    (split : Token.split inKey m = (l, rest)) (nonempty : l ≠ []) : IsName l := by
  obtain ⟨x, l, rfl⟩ := List.exists_cons_of_ne_nil nonempty
  obtain ⟨hx, m, rfl, rfl, rfl⟩ := split_eq_cons.1 split
  cases inKey with
  | false => exact ⟨x, _, rfl, hx, List.all_eq_true.1 List.all_takeWhile⟩
  | true =>
    exact ⟨x, _, rfl, starts_of_inKey hx,
      fun y hy => continues_of_inKey (List.all_eq_true.1 List.all_takeWhile y hy)⟩

/-- What a phrase denotes has the form of evaluated values. -/
def Phrase.IsEvaluated : Phrase → Prop
  | value _ _ v => v.IsEvaluated
  | items _ _ vs => ∀ v ∈ vs, v.IsEvaluated
  | entries _ _ old new => Value.AreEvaluated old → Value.AreEvaluated new

theorem Reads.isEvaluated {phrase : Phrase} {c c' : Cursor} (h : Reads Unresolved phrase c c') :
    phrase.IsEvaluated := by
  -- Entries keep the keys of the hash before them distinct, which is empty at the brace.
  induction h with
  | hash _ _ _ ih =>
    obtain ⟨hdistinct, hinner⟩ := ih ⟨List.nodup_nil, by simp⟩
    exact .hash hdistinct hinner
  | sequence _ _ _ ih => exact .sequence ih
  | quoted | raw => exact .string _
  | token => exact .tokenValue _ _ _
  | call _ split nonempty _ _ _ _ result ih =>
    subst result
    exact .call (by simpa using Token.isName_of_split split nonempty) ih
  | keyCall _ split nonempty _ _ _ _ ih =>
    exact .call (by simpa using Token.isName_of_split split nonempty) ih
  | noItems => simp [Phrase.IsEvaluated]
  | item _ _ _ _ ih ih' => exact List.forall_mem_cons.2 ⟨ih, ih'⟩
  | noEntries => exact id
  | pair _ _ _ _ _ _ _ _ _ ih' ih'' => exact fun hold => ih'' (hold.insert _ ih')
  | flag _ _ _ _ _ _ ih' => exact fun hold => ih' (hold.insert _ (.boolean true))
  | merge _ _ means _ _ _ ih ih' =>
    refine fun hold => ih' (hold.merge ?_)
    cases means with
    | call h => cases h
    | plain =>
      cases ih with
      | hash _ inner => exact inner

/-- A text denotes evaluated values, whichever way it is read. -/
theorem Source.isEvaluated_of_evaluateAs {source : Source} {mode : Mode} {forced : Bool} {v : Value}
    (h : (source.evaluateAs mode .unresolving forced ()).1 = .ok v) : v.IsEvaluated := by
  cases mode with
  | expression =>
    obtain ⟨_, _, _, _, _, _, hread, _⟩ := Source.evaluate_eq_ok.1 h
    exact hread.isEvaluated
  | hash =>
    cases hentries : (source.evaluateHash .unresolving forced ()).1 with
    | error e => simp [evaluateAs, hentries, Except.map] at h
    | ok entries =>
      obtain rfl : .hash entries = v := by simpa [evaluateAs, hentries, Except.map] using h
      obtain ⟨_, _, _, _, hread⟩ := Source.evaluateHash_eq_ok.1 hentries
      obtain ⟨hdistinct, hinner⟩ := hread.isEvaluated ⟨List.nodup_nil, by simp⟩
      exact .hash hdistinct hinner
  | sequence =>
    cases hitems : (source.evaluateSequence .unresolving forced ()).1 with
    | error e => simp [evaluateAs, hitems, Except.map] at h
    | ok items =>
      obtain rfl : .sequence items = v := by simpa [evaluateAs, hitems, Except.map] using h
      obtain ⟨_, _, _, _, hread⟩ := Source.evaluateSequence_eq_ok.1 hitems
      exact .sequence hread.isEvaluated

/-- Under distinct keys each entry is found. -/
theorem Entries.get?_of_mem {α : Type} {es : Entries α} (distinct : es.HasDistinctKeys)
    {e : String × α} (h : e ∈ es) : es.get? e.1 = some e.2 := by
  induction es with
  | nil => simp at h
  | cons e' es ih =>
    obtain ⟨k, w⟩ := e'
    obtain ⟨hk, hdistinct⟩ := List.nodup_cons.1 distinct
    rcases List.mem_cons.1 h with rfl | hmem
    · simp [get?]
    · have hne : k ≠ e.1 := by
        rintro rfl
        exact hk (List.mem_map.2 ⟨e, hmem, rfl⟩)
      rw [get?, if_neg hne]
      exact ih hdistinct hmem

namespace Value

mutual

/-- An evaluated value equals itself. -/
theorem equal_self : ∀ v : Value, v.IsEvaluated → v.equal v = true
  | .string s, _ => by simp [equal]
  | .integer n, _ => by simp [equal]
  | .decimal d, _ => by simp [equal, Decimal.sameValue]
  | .boolean b, _ => by simp [equal]
  | .sequence items, h => by
    cases h with
    | sequence inner => exact equalItems_self items inner
  | .hash entries, h => by
    cases h with
    | hash distinct inner =>
      simp only [equal, beq_self_eq_true, Bool.true_and]
      exact equalEntries_self entries entries inner fun e he => Entries.get?_of_mem distinct he
  | .call name params, h => by
    cases h with
    | call _ inner =>
      simp only [equal, beq_self_eq_true, Bool.true_and]
      exact equalItems_self params inner
  | .fragment f, h => by simp [equal]

theorem equalItems_self : ∀ vs : List Value, (∀ v ∈ vs, v.IsEvaluated) → equalItems vs vs = true
  | [], _ => rfl
  | v :: vs, h => by
    simp only [equalItems, Bool.and_eq_true]
    exact ⟨equal_self v (h v (by simp)),
      equalItems_self vs fun w hw => h w (List.mem_cons_of_mem v hw)⟩

theorem equalEntries_self : ∀ (es all : Hash), (∀ e ∈ es, e.2.IsEvaluated) →
    (∀ e ∈ es, all.get? e.1 = some e.2) → equalEntries es all = true
  | [], _, _, _ => rfl
  | (k, v) :: es, all, h, hall => by
    simp only [equalEntries, hall (k, v) (by simp), Bool.and_eq_true]
    exact ⟨equal_self v (h (k, v) (by simp)),
      equalEntries_self es all (fun e he => h e (List.mem_cons_of_mem _ he))
        fun e he => hall e (List.mem_cons_of_mem _ he)⟩

end

end Value
end TextualData
