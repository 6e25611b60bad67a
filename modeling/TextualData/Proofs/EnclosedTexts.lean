import TextualData.Proofs.EnclosedListings
import TextualData.Proofs.WholeTexts

/-!
# Listings with and without brackets

The entries of a hash, or the items of a sequence, can be a whole text of their own, or stand in
brackets. Both read the same: enclosing a text in brackets makes the listing without brackets one
with brackets, and no text closes an outer bracket early or has it closed inside of something else.
-/

namespace TextualData

variable {b : Brackets} {broken : Bool} {c d : Cursor}

/-- The enclosed text. -/
def Brackets.enclose (b : Brackets) (text : List Char) : List Char :=
  b.opening :: '\n' :: (text ++ ['\n', b.closing])

/-- The rest of a listing that is the whole of a text. -/
def Cursor.ReadsAsRest (resolves : FunctionCall → Value → Prop) (rest : Option Char → Phrase)
    (c : Cursor) : Prop :=
  ∃ broken c₁ c₂, Scan.blanks c = .ok broken c₁ ∧ Reads resolves (rest none) c₁ c₂

section
variable {resolves : FunctionCall → Value → Prop} {rest : Option Char → Phrase} {text : List Char}

theorem Brackets.blanks_enclose (b : Brackets) (text : List Char) :
    Scan.blanks (.ofText (b.enclose text)) = .ok false (.ofText (b.enclose text)) := by
  cases b <;> rfl

/-- Behind the opening bracket blanks lead where they lead at the start of the text. -/
theorem Brackets.blanks_enclose_next (b : Brackets) (text : List Char) :
    Scan.blanks (Cursor.ofText (b.enclose text)).next =
      match Scan.blanks ((Cursor.ofText text).enclosed b) with
      | .ok broken c => .ok (true || broken) c
      | .error fault c => .error fault c := by
  have hpass := Blanks.pass_or true .blank false ['\n', b.opening] (text ++ ['\n', b.closing])
  cases b <;> exact hpass

theorem Brackets.of_blanks_enclose_next
    (h : Scan.blanks (Cursor.ofText (b.enclose text)).next = .ok broken d) :
    ∃ broken' c, Scan.blanks (.ofText text) = .ok broken' c ∧ d = c.reached b := by
  rw [b.blanks_enclose_next] at h
  cases hb : Scan.blanks ((Cursor.ofText text).enclosed b) with
  | ok broken' d' =>
    simp only [hb, EStateM.Result.ok.injEq] at h
    obtain ⟨_, rfl⟩ := h
    obtain ⟨broken', c, hc, _, rfl⟩ := Scan.of_blanks_enclosed hb
    exact ⟨broken', c, hc, rfl⟩
  | error fault d' => simp [hb] at h

/-- A listing in brackets that takes up the enclosed text is the whole text without them. -/
theorem Brackets.readsAsRest_of_enclose {c₁ c₂ c₃ : Cursor} {broken' : Bool}
    (blanks : Scan.blanks (Cursor.ofText (b.enclose text)).next = .ok broken c₁)
    (inner : ∀ c, c₁ = c.reached b → EndsIn resolves b rest b.closing c c₂)
    (ends : ∀ {c c'}, Reads resolves (rest (some b.closing)) c c' → c'.peek? = some b.closing)
    (hend : Scan.blanks c₂.next = .ok broken' c₃) (hall : c₃.rest = []) :
    (Cursor.ofText text).ReadsAsRest resolves rest := by
  obtain ⟨broken₁, c, hc, rfl⟩ := Brackets.of_blanks_enclose_next blanks
  rcases inner c rfl with ⟨c', rfl, hread⟩ | ⟨_, c', _, _, hread⟩
  · -- The listing would be closed inside the text, and the new bracket would be left.
    rw [Cursor.enclosed_next (Cursor.rest_ne_of_peek? (ends hread))] at hend
    obtain ⟨_, c₄, _, _, rfl⟩ := Scan.of_blanks_enclosed hend
    exact absurd (List.head?_eq_none_iff.2 hall) Cursor.peek?_reached_ne_none
  · exact ⟨broken₁, c, c', hc, hread⟩

/-- A listing that is a whole text stands between the brackets of the enclosed one. -/
theorem Brackets.enclose_of_readsAsRest (rest : Option Char → Phrase)
    (hread : ∀ {c c'}, Reads resolves (rest none) c c' → c'.rest = [] ∧
      Reads resolves (rest (some b.closing)) (c.reached b) (c'.reached b))
    (h : (Cursor.ofText text).ReadsAsRest resolves rest) : ∃ broken c₁ c₂,
      Scan.blanks (Cursor.ofText (b.enclose text)).next = .ok broken c₁ ∧
      Reads resolves (rest (some b.closing)) c₁ c₂ ∧ c₂.next.rest = [] := by
  obtain ⟨broken, c₁, c₂, hb, hr⟩ := h
  obtain ⟨hend, hr⟩ := hread hr
  have hb' := b.blanks_enclose_next text
  rw [Scan.blanks_enclosed hb] at hb'
  exact ⟨_, _, _, hb', hr, by simp [Cursor.reached, hend, Cursor.next]⟩

variable {forced : Bool}

/-- The entries of a hash, in braces or as a whole text. -/
theorem readsAsHash_iff_enclose {h : Hash} : (Cursor.ofText text).ReadsAsHash resolves forced h ↔
    (Cursor.ofText (Brackets.curly.enclose text)).ReadsAsValue resolves forced (.hash h) := by
  constructor
  · intro hwhole
    obtain ⟨broken, c₁, c₂, hb, hread, hend⟩ := Brackets.enclose_of_readsAsRest (b := .curly)
      (fun closing => .entries closing forced [] h)
      (fun hr => ⟨List.head?_eq_none_iff.1 hr.entries_end, hr.enclosed .curly⟩) hwhole
    exact ⟨_, _, _, _, _, Brackets.blanks_enclose .curly text, .hash rfl hb hread,
      Scan.blanks_of_rest_eq_nil hend, hend⟩
  · rintro ⟨_, c₁, _, _, c₃, hb, hread, hend, hall⟩
    obtain ⟨_, rfl⟩ := by simpa [Brackets.blanks_enclose] using hb
    obtain ⟨entries, _, c₁, c₂, he, hb, hr, rfl⟩ := hread.of_brace rfl
    obtain rfl := Value.hash.inj he
    exact Brackets.readsAsRest_of_enclose (b := .curly) hb (fun c => hr.standsIn _ c rfl)
      Reads.entries_end hend hall

/-- The items of a sequence, in brackets or as a whole text. -/
theorem readsAsSequence_iff_enclose {vs : List Value} :
    (Cursor.ofText text).ReadsAsSequence resolves forced vs ↔
      (Cursor.ofText (Brackets.square.enclose text)).ReadsAsValue resolves forced
        (.sequence vs) := by
  constructor
  · intro hwhole
    obtain ⟨broken, c₁, c₂, hb, hread, hend⟩ := Brackets.enclose_of_readsAsRest (b := .square)
      (fun closing => .items closing forced vs)
      (fun hr => ⟨List.head?_eq_none_iff.1 hr.items_end, hr.enclosed .square⟩) hwhole
    exact ⟨_, _, _, _, _, Brackets.blanks_enclose .square text, .sequence rfl hb hread,
      Scan.blanks_of_rest_eq_nil hend, hend⟩
  · rintro ⟨_, c₁, _, _, c₃, hb, hread, hend, hall⟩
    obtain ⟨_, rfl⟩ := by simpa [Brackets.blanks_enclose] using hb
    obtain ⟨items, _, c₁, c₂, he, hb, hr, rfl⟩ := hread.of_bracket rfl
    obtain rfl := Value.sequence.inj he
    exact Brackets.readsAsRest_of_enclose (b := .square) hb (fun c => hr.standsIn _ c rfl)
      Reads.items_end hend hall

end

/-- The three ways to evaluate a text define the same notation: the entries of a hash and the items
of a sequence are what they are in brackets on lines of their own. -/
theorem evaluate_enclosed (text : String) (file file' : Option String) (forced : Bool) :
    (∀ h, (Source.evaluateHash ⟨text, file⟩ .unresolving forced ()).1 = .ok h ↔
      (Source.evaluate ⟨"\x7b\n" ++ text ++ "\n\x7d", file'⟩ .unresolving forced ()).1 =
        .ok (.hash h)) ∧
    ∀ vs, (Source.evaluateSequence ⟨text, file⟩ .unresolving forced ()).1 = .ok vs ↔
      (Source.evaluate ⟨"[\n" ++ text ++ "\n]", file'⟩ .unresolving forced ()).1 =
        .ok (.sequence vs) := by
  have hcurly : ("\x7b\n" ++ text ++ "\n\x7d").toList = Brackets.curly.enclose text.toList := by
    simp [Brackets.enclose, Brackets.opening, Brackets.closing]
  have hsquare : ("[\n" ++ text ++ "\n]").toList = Brackets.square.enclose text.toList := by
    simp [Brackets.enclose, Brackets.opening, Brackets.closing]
  refine ⟨fun h => ?_, fun vs => ?_⟩
  · rw [Source.evaluateHash_eq_ok, Source.evaluate_eq_ok, hcurly]
    exact readsAsHash_iff_enclose
  · rw [Source.evaluateSequence_eq_ok, Source.evaluate_eq_ok, hsquare]
    exact readsAsSequence_iff_enclose

end TextualData
