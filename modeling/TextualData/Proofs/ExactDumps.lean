import TextualData.Proofs.Dumps

/-!
# Dumps that keep everything

A representable value is read from its dump as it was: each decimal with its scale, and the keys of
each hash in their order. So it is from its text on a single line, which is how the parameters of
calls are written.
-/

namespace TextualData

/-- The name of a call that means nothing else at the beginning of a line. -/
def Token.IsPlainName (l : List Char) : Prop :=
  l ≠ [] ∧ (∀ x ∈ l, continues false x) ∧ ∀ x ∈ l.head?, x ∉ ['#', '+', ':']

theorem Token.IsPlainName.isName {l : List Char} (h : IsPlainName l) : IsName l := by
  obtain ⟨nonempty, hl, _⟩ := h
  obtain ⟨x, m, rfl⟩ := List.exists_cons_of_ne_nil nonempty
  refine ⟨x, m, rfl, ?_, fun y hy => hl y (List.mem_cons_of_mem x hy)⟩
  simp [starts, hl x (by simp)]

namespace Value

/-- Values without fragments whose calls have plain names and whose decimals are written in full. -/
inductive IsRepresentable : Value → Prop where
  | string (s : String) : IsRepresentable (.string s)
  | integer (n : Int64) : IsRepresentable (.integer n)
  | decimal {d : Decimal} (scale : Int64.minValue < d.scale) : IsRepresentable (.decimal d)
  | boolean (b : Bool) : IsRepresentable (.boolean b)
  | sequence {items : List Value} (inner : ∀ v ∈ items, IsRepresentable v) :
      IsRepresentable (.sequence items)
  | hash {entries : Hash} (distinct : entries.HasDistinctKeys)
      (inner : ∀ e ∈ entries, IsRepresentable e.2) : IsRepresentable (.hash entries)
  | call {name : String} {params : List Value} (isPlain : Token.IsPlainName name.toList)
      (inner : ∀ v ∈ params, IsRepresentable v) : IsRepresentable (.call name params)

namespace IsRepresentable

variable {v : Value}

theorem isEvaluated (h : v.IsRepresentable) : v.IsEvaluated := by
  induction h with
  | string s => exact .string s
  | integer n => exact .integer n
  | decimal => exact .decimal _
  | boolean b => exact .boolean b
  | sequence _ ih => exact .sequence ih
  | hash distinct _ ih => exact .hash distinct ih
  | call isPlain _ ih => exact .call isPlain.isName ih

theorem hasPlainDecimals (h : v.IsRepresentable) : v.HasPlainDecimals := by
  induction h with
  | string s => exact .string s
  | integer n => exact .integer n
  | decimal scale => exact .decimal (Int64.ne_of_lt scale).symm
  | boolean b => exact .boolean b
  | sequence _ ih => exact .sequence ih
  | hash _ _ ih => exact .hash ih
  | call _ _ ih => exact .call ih

/-- No line begins with a sign that has a meaning there. -/
theorem notMem_of_callSign? (h : v.IsRepresentable) {x : Char} (hx : v.callSign? = some x) :
    x ∉ ['#', '+', ':'] := by
  cases h with
  | call isPlain => exact isPlain.2.2 x hx
  | _ => simp [callSign?] at hx

theorem opensComment_eq_false (h : v.IsRepresentable) : v.opensComment = false := by
  rw [opensComment, beq_eq_false_iff_ne]
  intro hx
  exact h.notMem_of_callSign? hx (by simp)

theorem joins_eq_false (h : v.IsRepresentable) : v.joins = false := by
  rw [joins, Bool.or_eq_false_iff, beq_eq_false_iff_ne, beq_eq_false_iff_ne]
  constructor
  · intro hx
    exact h.notMem_of_callSign? hx (by simp)
  · intro hx
    exact h.notMem_of_callSign? hx (by simp)

theorem isLegible (h : v.IsRepresentable) : v.IsLegible := by
  induction h with
  | string s => exact .string s
  | integer n => exact .integer n
  | decimal scale => exact .decimal (Int64.ne_of_lt scale).symm
  | boolean b => exact .boolean b
  | sequence inner ih =>
    exact .sequence ih (fun v hv => (inner v hv).opensComment_eq_false)
      fun v hv => (inner v (List.mem_of_mem_tail hv)).joins_eq_false
  | hash _ _ ih => exact .hash ih
  | call _ inner => exact .call fun v hv => (inner v hv).hasPlainDecimals

end IsRepresentable

/-- What a value on a single line denotes, if it is no comment. -/
theorem evaluate_inline {v : Value} {l : List Char} {file : Option String} (h : v.IsEvaluated)
    (hcomment : v.opensComment = false) (hl : v.inline? = some l) :
    (Source.evaluate ⟨String.ofList l, file⟩ .unresolving false ()).1 = .ok v := by
  obtain ⟨x, m, hm, hx⟩ := exists_inline h hl
  have htext : Cursor.ofText (String.ofList l).toList = ⟨[], l⟩ := by
    rw [String.toList_ofList]
    rfl
  have hblanks : Scan.blanks ⟨[], l⟩ = .ok false ⟨[], l⟩ :=
    Cursor.blanks_of_beginsWith hm hx hcomment
  have hend := Scan.blanks_of_rest_eq_nil (c := Cursor.pass ⟨[], l⟩ l []) rfl
  have hread := readsInline v h l hl ⟨[], l⟩ [] (List.append_nil _).symm
    (Cursor.endsToken_of_rest_eq_nil rfl)
  rw [Source.evaluate_eq_ok, htext]
  exact ⟨_, _, _, _, _, hblanks, hread, hend, rfl⟩

end Value

/-- A representable value has a dump, and is what its dump denotes, so dumping the value that was
read gives the same text again. It has a text on a single line, and is what that denotes too. -/
theorem Value.evaluate_dump {v : Value} (h : v.IsRepresentable) (file : Option String) :
    (∃ text, v.dump? = some text ∧
      (Source.evaluate ⟨text, file⟩ .unresolving false ()).1 = .ok v ∧
      (Source.evaluate ⟨text, file⟩ .unresolving false ()).1.map Value.dump? = .ok (some text)) ∧
    ∃ l, v.inline? = some l ∧
      (Source.evaluate ⟨String.ofList l, file⟩ .unresolving false ()).1 = .ok v := by
  have plain := h.hasPlainDecimals
  obtain ⟨text, hdump⟩ := (exists_dump?_iff h.isEvaluated).2 plain
  obtain ⟨l, hl⟩ := Option.isSome_iff_exists.1 ((isSome_inline?_iff h.isEvaluated).2 plain)
  have hread : (Source.evaluate ⟨text, file⟩ .unresolving false ()).1 = .ok v :=
    (evaluate_dump_eq_ok h.isEvaluated hdump).2
      ⟨h.opensComment_eq_false, reread_eq_self v h.isLegible⟩
  refine ⟨⟨text, hdump, hread, ?_⟩, l, hl, evaluate_inline h.isEvaluated h.opensComment_eq_false hl⟩
  rw [hread, ← hdump]
  rfl

/-- Scales and the order of keys are kept inside of the parameters of a call and outside. -/
theorem evaluate_dump_nested :
    (Value.sequence [.call "a:b" [.hash [("y", .decimal ⟨150, 2⟩), ("x", .string "#\n")]],
        .decimal ⟨-7, -3⟩]).IsRepresentable ∧
      ∃ text, (Value.sequence [.call "a:b" [.hash [("y", .decimal ⟨150, 2⟩),
        ("x", .string "#\n")]], .decimal ⟨-7, -3⟩]).dump? = some text ∧
          (Source.evaluate ⟨text, none⟩ .unresolving false ()).1 =
            .ok (.sequence [.call "a:b" [.hash [("y", .decimal ⟨150, 2⟩), ("x", .string "#\n")]],
              .decimal ⟨-7, -3⟩]) := by
  have hhash : (Value.hash [("y", .decimal ⟨150, 2⟩), ("x", .string "#\n")]).IsRepresentable := by
    refine .hash (by simp [Entries.HasDistinctKeys, Entries.keys]) fun e he => ?_
    simp only [List.mem_cons, List.not_mem_nil, or_false] at he
    rcases he with rfl | rfl
    · exact .decimal (by decide)
    · exact .string _
  have hname : Token.IsPlainName "a:b".toList := by
    rw [show "a:b".toList = ['a', ':', 'b'] from rfl]
    exact ⟨by simp, List.all_eq_true.1 (by decide), by simp⟩
  have h : (Value.sequence [.call "a:b" [.hash [("y", .decimal ⟨150, 2⟩), ("x", .string "#\n")]],
      .decimal ⟨-7, -3⟩]).IsRepresentable := by
    refine .sequence fun v hv => ?_
    simp only [List.mem_cons, List.not_mem_nil, or_false] at hv
    rcases hv with rfl | rfl
    · exact .call hname fun v hv => List.mem_singleton.1 hv ▸ hhash
    · exact .decimal (by decide)
  obtain ⟨⟨text, hdump, hread, -⟩, -⟩ := Value.evaluate_dump h none
  exact ⟨h, text, hdump, hread⟩

end TextualData
