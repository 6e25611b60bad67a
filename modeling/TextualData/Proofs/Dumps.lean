import Mathlib
import TextualData.Proofs.BlockText
import TextualData.Proofs.Legibility

/-!
# Dumps read back

A value that a text denotes has a dump that is read as an equal value exactly if the value is
legible and is not taken for a comment. A call whose name begins with a number sign is written as a
comment.
-/

namespace TextualData
namespace Value

variable {v : Value}

/-- What the dump of an evaluated value denotes. -/
theorem evaluate_dump_eq_ok {w : Value} {text : String} {file : Option String} (h : v.IsEvaluated)
    (hdump : v.dump? = some text) :
    (Source.evaluate ⟨text, file⟩ .unresolving false ()).1 = .ok w ↔
      v.opensComment = false ∧ v.reread = some w := by
  obtain ⟨l, hl, rfl⟩ := Option.map_eq_some_iff.1 hdump
  have htext : Cursor.ofText (String.ofList l).toList = ⟨[], l⟩ := by
    rw [String.toList_ofList]
    rfl
  rw [Source.evaluate_eq_ok, htext]
  cases hcomment : v.opensComment with
  | true =>
    -- The whole text is a comment, and no expression is left.
    obtain ⟨m, rfl, hlines⟩ := exists_block_of_opensComment h hcomment hl
    have hblanks := Scan.blanks_lastComment (c := ⟨[], '#' :: m⟩) rfl hlines rfl
    simp only [Bool.true_eq_false, false_and, iff_false]
    rintro ⟨_, c₁, _, _, _, hb, hread, _⟩
    obtain ⟨_, rfl⟩ := EStateM.Result.ok.inj (hb.symm.trans hblanks)
    obtain ⟨x, hx, _⟩ := hread.begins
    simp [Cursor.peek?, Cursor.pass] at hx
  | false =>
    obtain ⟨x, m, hm, hx⟩ := exists_block h hl
    -- No blanks stand before the value or after it.
    have hblanks : Scan.blanks ⟨[], l⟩ = .ok false ⟨[], l⟩ :=
      Cursor.blanks_of_beginsWith hm hx hcomment
    have hend := Scan.blanks_of_rest_eq_nil (c := Cursor.pass ⟨[], l⟩ l []) rfl
    have hread := readsBlock v h [] l hl ⟨[], l⟩ [] Text.areSpaces_nil (List.append_nil _).symm
      (Cursor.endsToken_of_rest_eq_nil rfl)
    simp only [true_and]
    constructor
    · rintro ⟨_, c₁, _, _, _, hb, hw, _⟩
      obtain ⟨_, rfl⟩ := EStateM.Result.ok.inj (hb.symm.trans hblanks)
      exact ((hread _ _).1 hw).1
    · intro hw
      exact ⟨_, _, _, _, _, hblanks, (hread _ _).2 ⟨hw, rfl⟩, hend, rfl⟩

end Value

/-- The value of a text has a dump, and the dump denotes an equal value, exactly if the value is
legible and is no call whose name begins with a number sign. -/
theorem Source.reads_back_dump_iff {source : Source} {mode : Mode} {forced : Bool} {v : Value}
    (h : (source.evaluateAs mode .unresolving forced ()).1 = .ok v) :
    (∃ text w, v.dump? = some text ∧
      (Source.evaluate ⟨text, none⟩ .unresolving false ()).1 = .ok w ∧ w.equal v = true) ↔
        v.opensComment = false ∧ v.IsLegible := by
  have hv := isEvaluated_of_evaluateAs h
  constructor
  · rintro ⟨text, w, hdump, hw, hequal⟩
    have plain := (Value.exists_dump?_iff hv).1 ⟨text, hdump⟩
    obtain ⟨hcomment, hread⟩ := (Value.evaluate_dump_eq_ok hv hdump).1 hw
    exact ⟨hcomment, (Value.exists_reread_equal_iff hv plain).1 ⟨w, hread, hequal⟩⟩
  · rintro ⟨hcomment, hlegible⟩
    obtain ⟨text, hdump⟩ := (Value.exists_dump?_iff hv).2 hlegible.hasPlainDecimals
    exact ⟨text, v, hdump, (Value.evaluate_dump_eq_ok hv hdump).2
      ⟨hcomment, Value.reread_eq_self v hlegible⟩, Value.equal_self v hv⟩

/-- An item that begins with a number sign is lost. -/
theorem dump_loses_comment :
    (Source.evaluateAs ⟨"[1, #f(1)]", none⟩ .expression .unresolving false ()).1 =
        .ok (.sequence [.integer 1, .call "#f" [.integer 1]]) ∧
      ¬∃ text w, (Value.sequence [.integer 1, .call "#f" [.integer 1]]).dump? = some text ∧
        (Source.evaluate ⟨text, none⟩ .unresolving false ()).1 = .ok w ∧
          w.equal (.sequence [.integer 1, .call "#f" [.integer 1]]) = true := by
  refine ⟨by cbv, ?_⟩
  have hdump : (Value.sequence [.integer 1, .call "#f" [.integer 1]]).dump? =
      some "[\n    1\n    #f(1)\n]" := rfl
  have hread : (Source.evaluate ⟨"[\n    1\n    #f(1)\n]", none⟩ .unresolving false ()).1 =
      .ok (.sequence [.integer 1]) := by cbv
  rintro ⟨text, w, htext, hw, hequal⟩
  obtain rfl := Option.some.inj (hdump.symm.trans htext)
  obtain rfl := Except.ok.inj (hread.symm.trans hw)
  simp [Value.equal, Value.equalItems] at hequal

/-- The first item may begin with a plus sign. -/
theorem reads_back_leading_sign :
    (Source.evaluateAs ⟨"[+f(), 1]", none⟩ .expression .unresolving false ()).1 =
        .ok (.sequence [.call "+f" [], .integer 1]) ∧
      ∃ text w, (Value.sequence [.call "+f" [], .integer 1]).dump? = some text ∧
        (Source.evaluate ⟨text, none⟩ .unresolving false ()).1 = .ok w ∧
          w.equal (.sequence [.call "+f" [], .integer 1]) = true := by
  have hvalue : (Source.evaluateAs ⟨"[+f(), 1]", none⟩ .expression .unresolving false ()).1 =
      .ok (.sequence [.call "+f" [], .integer 1]) := by cbv
  refine ⟨hvalue, (Source.reads_back_dump_iff hvalue).2 ⟨rfl, .sequence ?_ ?_ ?_⟩⟩
  · intro v hv
    simp only [List.mem_cons, List.not_mem_nil, or_false] at hv
    rcases hv with rfl | rfl
    · exact .call (by simp)
    · exact .integer 1
  · simp [Value.opensComment, Value.callSign?]
  · simp [Value.joins, Value.callSign?]

end TextualData
