import TextualData.Proofs.QuotedKeys
import TextualData.Proofs.Rereading

/-!
# Values on a single line read back

A value that is written on a single line is read as itself, whatever comes before it in the line, if
what follows ends a token. Inside brackets a comma or the closing bracket follows.
-/

namespace TextualData

/-- Whether a token may end at a place: nothing goes on with it, and no parameters follow. -/
def Cursor.EndsToken (c : Cursor) : Prop :=
  Token.Ends c.rest ∧ ∃ broken c₁, Scan.blanks c = .ok broken c₁ ∧ c₁.peek? ≠ some '('

namespace Cursor

variable {c : Cursor} {x : Char} {l rest : List Char}

theorem endsToken_of_peek? (hpeek : c.peek? = some x) (hx : x ∈ [',', ')', ']', '}']) :
    c.EndsToken := by
  have hmark : x ∈ Token.delimiters ∧ x ≠ '<' ∧ x ≠ '(' ∧ x ≠ ':' := by
    simp only [List.mem_cons, List.not_mem_nil, or_false] at hx
    rcases hx with rfl | rfl | rfl | rfl <;> decide
  obtain ⟨hdelimiter, hangle, hopens, hcolon⟩ := hmark
  refine ⟨fun y hy => ?_, false, c, Scan.blanks_of_delimiter hpeek hdelimiter hangle, ?_⟩
  · obtain rfl := Option.some.inj (hpeek.symm.trans hy)
    exact Token.continues_eq_false (.inr hdelimiter) hcolon
  · rw [hpeek]
    exact fun h => hopens (Option.some.inj h)

theorem endsToken_of_rest_eq_nil (h : c.rest = []) : c.EndsToken :=
  ⟨fun y hy => by simp [h] at hy, false, c, Scan.blanks_of_rest_eq_nil h, by simp [peek?, h]⟩

theorem isInLine_space_cons (h : Text.isBlank x = false) (before rest : List Char) :
    IsInLine ⟨' ' :: x :: before, rest⟩ := by
  have hline := isInLine_cons h before rest
  simp only [IsInLine, Text.isLineBlankBefore] at hline ⊢
  rw [List.takeWhile_cons_of_pos (by decide), List.all_cons, hline, Bool.and_false]

/-- No blanks begin where a value begins that is no comment. -/
theorem blanks_of_beginsWith {v : Value} (hrest : c.rest = x :: l) (hx : v.BeginsWith x)
    (hcomment : v.opensComment = false) : Scan.blanks c = .ok false c := by
  refine Scan.blanks_of_peek? (by simp [peek?, hrest]) hx.mayBegin.1 (hx.mayBegin.ne (by decide))
    fun hsign => ?_
  simp [hx.opensComment_iff.2 hsign] at hcomment

end Cursor

/-- A closing bracket ends a token, and no blanks begin at it. -/
theorem ClosesListing.mem {closing : Char} (closes : ClosesListing closing) :
    closing ∈ [',', ')', ']', '}'] := by
  rcases closes with rfl | rfl | rfl <;> decide

theorem ClosesListing.blanks {closing : Char} {c : Cursor} (closes : ClosesListing closing)
    (hpeek : c.peek? = some closing) : Scan.blanks c = .ok false c := by
  rcases closes with rfl | rfl | rfl <;>
    exact Scan.blanks_of_delimiter hpeek (by decide) (by decide)

section
variable {closing : Char} {refusal : Option ColonRefusal}

/-- The bracket that closes a listing, right after an item. -/
theorem separator_closing {c : Cursor} (closes : ClosesListing closing)
    (hpeek : c.peek? = some closing) :
    Scan.separator (some closing) refusal c = .ok .closing c := by
  refine separator_eq_ok.2 ⟨_, _, closes.blanks hpeek, .closing hpeek ?_⟩
  rcases closes with rfl | rfl | rfl <;> decide

/-- A comma and a space, right after an item. -/
theorem separator_comma {before rest : List Char} {broken : Bool} {c : Cursor}
    (hblanks : Scan.blanks ⟨' ' :: ',' :: before, rest⟩ = .ok broken c) :
    Scan.separator (some closing) refusal ⟨before, ',' :: ' ' :: rest⟩ = .ok .comma c := by
  have hpeek : (Cursor.mk before (',' :: ' ' :: rest)).peek? = some ',' := rfl
  rw [← Scan.blanks_space] at hblanks
  exact separator_eq_ok.2 ⟨_, _, Scan.blanks_of_delimiter hpeek (by decide) (by decide),
    .comma hpeek hblanks⟩

end

open Value

/-- A token is read as what it denotes. -/
theorem Reads.of_token {resolves : FunctionCall → Value → Prop} {c : Cursor} {x : Char}
    {l rest : List Char} (hrest : c.rest = x :: (l ++ rest)) (hx : Token.starts false x)
    (hl : ∀ y ∈ l, Token.continues false y) (noRaw : x ≠ 'r')
    (ends : (c.pass (x :: l) rest).EndsToken) :
    Reads resolves (.value false false (Token.classify (x :: l))) c (c.pass (x :: l) rest) := by
  obtain ⟨hends, broken, c₁, blanks, noCall⟩ := ends
  have hraw : Literal.rawQuotation? c.rest = none := by
    rw [Option.eq_none_iff_forall_not_mem]
    intro quotation hq
    obtain ⟨m, hm, _⟩ := Literal.rawQuotation?_eq_some.1 hq
    rw [hrest] at hm
    exact noRaw (List.cons.inj hm).1
  have hsplit : Token.split false c.rest = (x :: l, rest) := by
    rw [hrest]
    exact Token.split_of_ends hx hl hends
  exact .token hraw hsplit (by simp) blanks noCall

namespace Value

/-- The value reads back from its text on a single line. -/
def ReadsInline (v : Value) : Prop :=
  ∀ (l : List Char), v.inline? = some l → ∀ (c : Cursor) (rest : List Char), c.rest = l ++ rest →
    (c.pass l rest).EndsToken → Reads Unresolved (.value false false v) c (c.pass l rest)

/-- The values read back from their list on a single line. -/
def ReadInline (vs : List Value) : Prop :=
  ∀ (l : List Char), inlineItems? vs = some l →
    ∀ (closing : Char) (c : Cursor) (rest : List Char), ClosesListing closing →
      c.rest = l ++ closing :: rest → c.IsInLine →
      Scan.blanks c = .ok false c ∧
        Reads Unresolved (.items (some closing) false vs) c (c.pass l (closing :: rest))

/-- The entries read back from their list on a single line, after others. -/
def EntriesReadInline (es : Hash) : Prop :=
  ∀ (l : List Char), inlineEntries? es = some l →
    ∀ (old : Hash) (c : Cursor) (rest : List Char), Entries.HasDistinctKeys (old ++ es) →
      c.rest = l ++ '}' :: rest →
      Scan.blanks c = .ok false c ∧
        Reads Unresolved (.entries (some '}') false old (old ++ es)) c (c.pass l ('}' :: rest))

theorem readsInline_string (s : String) : (Value.string s).ReadsInline := by
  intro l hl c rest hrest _
  obtain rfl := Option.some.inj ((inline?_string s).symm.trans hl)
  have hpeek : c.peek? = some Text.quotationMark := by
    simp [Cursor.peek?, hrest, Text.toList_quote]
  have h : Reads Unresolved (.value false false (.string (String.ofList s.toList))) c
      (c.pass (Text.quote s).toList rest) :=
    .quoted hpeek (by decide) (Scan.quoted_quote s hrest)
  rwa [String.ofList_toList] at h

/-- A value that is written as a token. -/
theorem ReadsInline.of_token {v : Value} (h : ∀ l, v.inline? = some l → ∃ x m, l = x :: m ∧
    (∀ y ∈ l, Token.continues false y) ∧ x ≠ 'r' ∧ Token.classify l = v) : v.ReadsInline := by
  intro l hl c rest hrest ends
  obtain ⟨x, m, rfl, hm, noRaw, hclassify⟩ := h l hl
  have hread : Reads Unresolved (.value false false (Token.classify (x :: m))) c
      (c.pass (x :: m) rest) := .of_token hrest (by simp [Token.starts, hm x])
    (fun y hy => hm y (List.mem_cons_of_mem _ hy)) noRaw ends
  rwa [hclassify] at hread

theorem readsInline_integer (n : Int64) : (Value.integer n).ReadsInline := by
  refine .of_token fun l hl => ?_
  obtain rfl := Option.some.inj ((inline?_integer n).symm.trans hl)
  obtain ⟨x, m, hm⟩ := List.exists_cons_of_ne_nil (Numeral.ofInt_ne_nil n.toInt)
  have hx := Numeral.mem_ofInt (n := n.toInt) (x := x) (by simp [hm])
  refine ⟨x, m, hm, fun y hy => Token.continues_of_mem_ofInt hy, ?_, Token.classify_ofInt n⟩
  rintro rfl
  exact absurd hx (by decide)

theorem readsInline_decimal (d : Decimal) : (Value.decimal d).ReadsInline := by
  refine .of_token fun l (hl : d.literal? = some l) => ?_
  obtain ⟨x, m, hm, hx, _⟩ := Token.exists_literal hl
  refine ⟨x, m, hm, fun y hy => Token.continues_of_mem_literal hl hy, ?_, Token.classify_literal hl⟩
  rintro rfl
  exact absurd hx (by decide)

theorem continues_of_mem_boolean {b : Bool} {x : Char}
    (h : x ∈ (if b then "true" else "false").toList) : Token.continues false x := by
  cases b <;> exact List.all_eq_true.1 (by decide) x h

theorem readsInline_boolean (b : Bool) : (Value.boolean b).ReadsInline := by
  refine .of_token fun l hl => ?_
  obtain rfl := Option.some.inj ((inline?_boolean b).symm.trans hl)
  cases b
  · exact ⟨'f', _, rfl, fun y hy => continues_of_mem_boolean hy, by decide, rfl⟩
  · exact ⟨'t', _, rfl, fun y hy => continues_of_mem_boolean hy, by decide, rfl⟩

theorem readInline_nil : ReadInline [] := by
  intro l hl closing c rest closes hrest _
  obtain rfl := Option.some.inj hl
  have hrest : c.rest = closing :: rest := hrest
  have hpeek : c.peek? = some closing := by simp [Cursor.peek?, hrest]
  have hc : c.pass [] (closing :: rest) = c := by
    rw [← hrest]
    rfl
  refine ⟨closes.blanks hpeek, ?_⟩
  rw [hc]
  exact .noItems hpeek

/-- A value and the values after it. -/
theorem ReadInline.cons {v : Value} {vs : List Value} (hv : v.IsEvaluated) (ih : v.ReadsInline)
    (ih' : ReadInline vs) : ReadInline (v :: vs) := by
  intro l hl closing c rest closes hrest hline
  -- Where the value begins no blanks stand, and an item begins.
  have begins : ∀ {l tail : List Char}, v.inline? = some l → c.rest = l ++ tail →
      c.BeginsItem (some closing) ∧ Scan.blanks c = .ok false c := by
    intro l tail hl hrest
    obtain ⟨x, m, rfl, hx, _⟩ := exists_inline hv hl
    have hclosing : x ≠ closing := by
      rcases closes with rfl | rfl | rfl <;> exact hx.ne (by decide)
    exact ⟨⟨x, by simp [Cursor.peek?, hrest], fun h => hclosing (Option.some.inj h).symm,
      hx.ne (by decide)⟩, Cursor.blanks_of_mayBegin hrest hx hline⟩
  -- After the last item comes the closing bracket, after any other a comma and a space.
  cases vs with
  | nil =>
    rw [inlineItems?_singleton] at hl
    obtain ⟨hbegins, hblanks⟩ := begins hl hrest
    have hpeek : (c.pass l (closing :: rest)).peek? = some closing := rfl
    have ends := Cursor.endsToken_of_peek? hpeek closes.mem
    exact ⟨hblanks,
      .item hbegins (ih l hl c _ hrest ends) (separator_closing closes hpeek) (.noItems hpeek)⟩
  | cons w vs =>
    obtain ⟨m, hm, n, hn, rfl⟩ := inlineItems?_cons_cons_eq_some.1 hl
    rw [List.append_assoc, List.cons_append, List.cons_append] at hrest
    obtain ⟨hbegins, hblanks⟩ := begins hm hrest
    have hpeek : (c.pass m (',' :: ' ' :: (n ++ closing :: rest))).peek? = some ',' := rfl
    have ends := Cursor.endsToken_of_peek? hpeek (by decide)
    obtain ⟨hspace, hmore⟩ := ih' n hn closing
      ⟨' ' :: ',' :: (m.reverse ++ c.before), n ++ closing :: rest⟩ rest
      closes rfl (Cursor.isInLine_space_cons (by decide) _ _)
    have h := Reads.item hbegins (ih m hm c _ hrest ends) (separator_comma hspace) hmore
    have hpass : c.pass (m ++ ',' :: ' ' :: n) (closing :: rest) =
        Cursor.pass ⟨' ' :: ',' :: (m.reverse ++ c.before), n ++ closing :: rest⟩ n
          (closing :: rest) := by
      simp [Cursor.pass]
    rw [hpass]
    exact ⟨hblanks, h⟩

/-- A call with its parameters. -/
theorem readsInline_call {name : String} {params : List Value} (isName : Token.IsName name.toList)
    (ih : ReadInline params) : (Value.call name params).ReadsInline := by
  intro l hl c rest hrest _
  obtain ⟨inner, hparams, rfl⟩ := inline?_call_eq_some.1 hl
  -- The parenthesis ends the name, and is passed before the parameters are read.
  obtain ⟨x, m, hname, hx, hm⟩ := isName
  have hrest : c.rest = x :: (m ++ '(' :: (inner ++ ')' :: rest)) := by
    rw [hrest, hname]
    simp
  have hraw : Literal.rawQuotation? c.rest = none := by
    rw [hrest]
    refine Token.rawQuotation?_eq_none hm fun y hy => ?_
    obtain rfl := Option.some.inj hy
    decide
  have hsplit : Token.split false c.rest = (name.toList, '(' :: (inner ++ ')' :: rest)) := by
    rw [hrest, hname]
    refine Token.split_of_ends hx hm fun y hy => ?_
    obtain rfl := Option.some.inj hy
    decide
  have hopens : (c.pass name.toList ('(' :: (inner ++ ')' :: rest))).peek? = some '(' := rfl
  obtain ⟨hblanks, hinner⟩ := ih inner hparams ')' ⟨'(' :: (name.toList.reverse ++ c.before), _⟩
    rest (.inr (.inr rfl)) rfl (Cursor.isInLine_cons (by decide) _ _)
  have h : Reads Unresolved (.value false false (.call name params)) c _ :=
    .call hraw hsplit (by simp [hname]) (Scan.blanks_of_delimiter hopens (by decide) (by decide))
      hopens hblanks hinner (by simp [Unresolved, FunctionCall.toValue])
  have hpass : c.pass (name.toList ++ '(' :: (inner ++ [')'])) rest =
      (Cursor.pass ⟨'(' :: (name.toList.reverse ++ c.before), inner ++ ')' :: rest⟩
        inner (')' :: rest)).next := by
    simp [Cursor.pass, Cursor.next]
  rw [hpass]
  exact h

/-- A sequence in brackets. -/
theorem readsInline_sequence {items : List Value} (ih : ReadInline items) :
    (Value.sequence items).ReadsInline := by
  intro l hl c rest hrest _
  obtain ⟨inner, hitems, rfl⟩ := inline?_sequence_eq_some.1 hl
  have hrest : c.rest = '[' :: (inner ++ ']' :: rest) := by
    rw [hrest]
    simp
  have hnext : c.next = ⟨'[' :: c.before, inner ++ ']' :: rest⟩ := by
    simp [Cursor.next, hrest]
  obtain ⟨hblanks, hinner⟩ := ih inner hitems ']' c.next rest (.inr (.inl rfl)) (by rw [hnext])
    (by rw [hnext]; exact Cursor.isInLine_cons (by decide) _ _)
  have h : Reads Unresolved (.value false false (.sequence items)) c _ :=
    .sequence (by simp [Cursor.peek?, hrest]) hblanks hinner
  have hpass : c.pass ('[' :: (inner ++ [']'])) rest =
      (c.next.pass inner (']' :: rest)).next := by
    simp [Cursor.pass, Cursor.next, hrest]
  rw [hpass]
  exact h

/-- A hash in braces. -/
theorem readsInline_hash {entries : Hash} (distinct : entries.HasDistinctKeys)
    (ih : EntriesReadInline entries) : (Value.hash entries).ReadsInline := by
  intro l hl c rest hrest _
  obtain ⟨inner, hentries, rfl⟩ := inline?_hash_eq_some.1 hl
  have hrest : c.rest = '{' :: (inner ++ '}' :: rest) := by
    rw [hrest]
    simp
  have hnext : c.next = ⟨'{' :: c.before, inner ++ '}' :: rest⟩ := by
    simp [Cursor.next, hrest]
  obtain ⟨hblanks, hinner⟩ := ih inner hentries [] c.next rest distinct (by rw [hnext])
  have h : Reads Unresolved (.value false false (.hash entries)) c _ :=
    .hash (by simp [Cursor.peek?, hrest]) hblanks hinner
  have hpass : c.pass ('{' :: (inner ++ ['}'])) rest =
      (c.next.pass inner ('}' :: rest)).next := by
    simp [Cursor.pass, Cursor.next, hrest]
  rw [hpass]
  exact h

theorem entriesReadInline_nil : EntriesReadInline [] := by
  intro l hl old c rest _ hrest
  obtain rfl := Option.some.inj hl
  have hrest : c.rest = '}' :: rest := hrest
  have hpeek : c.peek? = some '}' := by simp [Cursor.peek?, hrest]
  have hc : c.pass [] ('}' :: rest) = c := by
    rw [← hrest]
    rfl
  rw [hc, List.append_nil]
  exact ⟨Scan.blanks_of_delimiter hpeek (by decide) (by decide), .noEntries hpeek⟩

/-- An entry and the entries after it. -/
theorem EntriesReadInline.cons {k : String} {v : Value} {es : Hash} (hv : v.IsEvaluated)
    (ih : v.ReadsInline) (ih' : EntriesReadInline es) : EntriesReadInline ((k, v) :: es) := by
  intro l hl old c rest distinct hrest
  have hquote : ∀ {tail : List Char}, c.rest = (Text.quote k).toList ++ tail →
      Scan.blanks c = .ok false c := by
    intro tail hrest
    have hpeek : c.peek? = some Text.quotationMark := by
      simp [Cursor.peek?, hrest, Text.toList_quote]
    exact Scan.blanks_of_delimiter hpeek (by decide) (by decide)
  -- No blanks stand between the colon and the value.
  have begins : ∀ {m : List Char} (tail : List Char), v.inline? = some m →
      Scan.blanks (c.pass ((Text.quote k).toList ++ [':']) (m ++ tail)) =
          .ok false (c.pass ((Text.quote k).toList ++ [':']) (m ++ tail)) ∧
        (c.pass ((Text.quote k).toList ++ [':']) (m ++ tail)).rest ≠ [] := by
    intro m tail hm
    obtain ⟨x, m, rfl, hx, _⟩ := exists_inline hv hm
    refine ⟨Cursor.blanks_of_mayBegin (l := m ++ tail) rfl hx ?_, by simp [Cursor.pass]⟩
    simpa [Cursor.pass] using Cursor.isInLine_cons (by decide) _ _
  have hinsert := Entries.insert_eq_append (Entries.notMem_keys distinct) v
  cases es with
  | nil =>
    obtain ⟨m, hm, rfl⟩ := inlineEntries?_singleton_eq_some.1 hl
    rw [List.append_assoc, List.cons_append] at hrest
    obtain ⟨hblanks, hvalue⟩ := begins ('}' :: rest) hm
    have hpeek : (Cursor.pass (c.pass ((Text.quote k).toList ++ [':']) (m ++ '}' :: rest))
        m ('}' :: rest)).peek? = some '}' := rfl
    have h := ih m hm _ ('}' :: rest) rfl (Cursor.endsToken_of_peek? hpeek (by decide))
    refine ⟨hquote hrest, (Reads.quotedEntry_iff hrest hblanks hvalue).2
      ⟨_, _, _, _, h, separator_closing (.inl rfl) hpeek, ?_⟩⟩
    have hpass : c.pass ((Text.quote k).toList ++ ':' :: m) ('}' :: rest) =
        Cursor.pass (c.pass ((Text.quote k).toList ++ [':']) (m ++ '}' :: rest))
          m ('}' :: rest) := by
      simp [Cursor.pass]
    rw [hinsert, hpass]
    exact .noEntries hpeek
  | cons e es =>
    obtain ⟨m, hm, n, hn, rfl⟩ := inlineEntries?_cons_cons_eq_some.1 hl
    have hrest : c.rest = (Text.quote k).toList ++ ':' :: (m ++
        ',' :: ' ' :: (n ++ '}' :: rest)) := by
      rw [hrest]
      simp
    obtain ⟨hblanks, hvalue⟩ := begins (',' :: ' ' :: (n ++ '}' :: rest)) hm
    have hpeek : (Cursor.pass (c.pass ((Text.quote k).toList ++ [':']) (m ++
        ',' :: ' ' :: (n ++ '}' :: rest))) m
          (',' :: ' ' :: (n ++ '}' :: rest))).peek? = some ',' := rfl
    have h := ih m hm _ _ rfl (Cursor.endsToken_of_peek? hpeek (by decide))
    obtain ⟨hspace, hmore⟩ := ih' n hn (old ++ [(k, v)])
      ⟨' ' :: ',' :: (m.reverse ++ (((Text.quote k).toList ++ [':']).reverse ++ c.before)),
        n ++ '}' :: rest⟩ rest (Entries.hasDistinctKeys_append_cons.1 distinct) rfl
    refine ⟨hquote hrest, (Reads.quotedEntry_iff hrest hblanks hvalue).2
      ⟨_, _, _, _, h, separator_comma hspace, ?_⟩⟩
    have hpass : c.pass ((Text.quote k).toList ++ ':' :: (m ++ ',' :: ' ' :: n)) ('}' :: rest) =
        Cursor.pass ⟨' ' :: ',' :: (m.reverse ++ (((Text.quote k).toList ++ [':']).reverse ++
          c.before)), n ++ '}' :: rest⟩ n ('}' :: rest) := by
      simp [Cursor.pass]
    rw [hinsert, hpass]
    simpa using hmore

mutual

/-- An evaluated value reads back on a single line. -/
theorem readsInline : ∀ v : Value, v.IsEvaluated → v.ReadsInline
  | .string s, _ => readsInline_string s
  | .integer n, _ => readsInline_integer n
  | .decimal d, _ => readsInline_decimal d
  | .boolean b, _ => readsInline_boolean b
  | .sequence items, h => by
    cases h with
    | sequence inner => exact readsInline_sequence (readInline items inner)
  | .hash entries, h => by
    cases h with
    | hash distinct inner => exact readsInline_hash distinct (entriesReadInline entries inner)
  | .call name params, h => by
    cases h with
    | call isName inner => exact readsInline_call isName (readInline params inner)
  | .fragment f, h => by cases h

theorem readInline : ∀ vs : List Value, (∀ v ∈ vs, v.IsEvaluated) → ReadInline vs
  | [], _ => readInline_nil
  | v :: vs, h =>
    .cons (h v (by simp)) (readsInline v (h v (by simp)))
      (readInline vs fun w hw => h w (List.mem_cons_of_mem v hw))

theorem entriesReadInline : ∀ es : Hash, (∀ e ∈ es, e.2.IsEvaluated) → EntriesReadInline es
  | [], _ => entriesReadInline_nil
  | (k, v) :: es, h =>
    .cons (h (k, v) (by simp)) (readsInline v (h (k, v) (by simp)))
      (entriesReadInline es fun e he => h e (List.mem_cons_of_mem _ he))

end

end Value
end TextualData
