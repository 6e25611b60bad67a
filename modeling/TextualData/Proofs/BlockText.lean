import TextualData.Proofs.FirstCharacters
import TextualData.Proofs.Lines

/-!
# Values over several lines read back

A value over several lines is read as `Value.reread` says, and not at all where that is nothing. In
a sequence, what an item is read as depends on whether another item was read before it.
-/

namespace TextualData
namespace Value

/-- The text of the value over several lines is read as `reread` says, and not at all where that is
nothing. -/
def ReadsBlock (v : Value) : Prop :=
  ∀ (indent l : List Char), v.block? indent = some l → ∀ (c : Cursor) (rest : List Char),
    Text.AreSpaces indent → c.rest = l ++ rest → (c.pass l rest).EndsToken →
    ∀ w c', Reads Unresolved (.value false false w) c c' ↔ v.reread = some w ∧ c' = c.pass l rest

/-- Where items go on: at once, or where a separator leads after a line break. -/
def Follows (follows : Bool) (c c' : Cursor) : Prop :=
  if follows then ∃ separator, SeparatorAt (some ']') (some .inList) true c separator c'
  else c' = c

theorem follows_iff {follows : Bool} {c c' : Cursor} {x : Char} (hpeek : c.peek? = some x)
    (hx : x ∉ [',', ';', '=']) :
    Follows follows c c' ↔ (follows = true → x ≠ '+' ∧ x ≠ ':') ∧ c' = c := by
  cases follows with
  | false => simp [Follows]
  | true =>
    rw [Follows, if_pos rfl, separatorAt_lineBreak_iff (.inr (.inl rfl)) hpeek hx]
    simp

/-- After a line break items go on where a separator leads. -/
theorem follows_iff_separator {c c₁ c₂ : Cursor} (hbreak : Scan.blanks c = .ok true c₁) :
    Follows true c₁ c₂ ↔
      ∃ separator, Scan.separator (some ']') (some .inList) c = .ok separator c₂ := by
  simp only [Follows, if_pos, separator_iff_of_blanks hbreak]

/-- The values on lines of their own are read as `rereadItems` says, up to the bracket after
them. -/
def ReadBlock (vs : List Value) : Prop :=
  ∀ (indent l : List Char), blockItems? indent vs = some l →
    ∀ (outer : List Char) (c : Cursor) (rest : List Char), Text.AreSpaces indent →
    Text.AreSpaces outer → c.BeginsLine → c.rest = l ++ (outer ++ ']' :: rest) →
    ∃ broken c₁, Scan.blanks c = .ok broken c₁ ∧ c₁.peek? ≠ some '(' ∧ ∀ follows us c',
      (∃ c₂, Follows follows c₁ c₂ ∧ Reads Unresolved (.items (some ']') false us) c₂ c') ↔
        rereadItems follows vs = some us ∧ c' = c.pass (l ++ outer) (']' :: rest)

/-- The entries on lines of their own are read as `rereadEntries` says, up to the brace after
them. -/
def EntriesReadBlock (es : Hash) : Prop :=
  ∀ (indent l : List Char), blockEntries? indent es = some l →
    ∀ (outer : List Char) (c : Cursor) (rest : List Char), Text.AreSpaces indent →
    Text.AreSpaces outer → c.rest = l ++ (outer ++ '}' :: rest) →
    ∃ x broken c₁, c₁.peek? = some x ∧ (x = Text.quotationMark ∨ x = '}') ∧
      Scan.blanks c = .ok broken c₁ ∧ ∀ old new c', Entries.HasDistinctKeys (old ++ es) →
      (Reads Unresolved (.entries (some '}') false old new) c₁ c' ↔
        (∃ fs, rereadEntries es = some fs ∧ old ++ fs = new) ∧
          c' = c.pass (l ++ outer) ('}' :: rest))

/-- A value that is written on a single line anyway. -/
theorem ReadsInline.readsBlock {v : Value} (h : v.ReadsInline) (hblock : ∀ indent, v.block? indent =
    v.inline?) (hreread : v.reread = some v) : v.ReadsBlock := by
  intro indent l hl c rest _ hrest ends w c'
  rw [hblock] at hl
  have hread := h l hl c rest hrest ends
  rw [hreread, Option.some.injEq]
  constructor
  · intro hw
    obtain ⟨rfl, rfl⟩ := hw.unique hread
    exact ⟨rfl, rfl⟩
  · rintro ⟨rfl, rfl⟩
    exact hread

theorem readBlock_nil : ReadBlock [] := by
  intro indent l hl outer c rest _ houter _ hrest
  obtain rfl := Option.some.inj hl
  have hrest : c.rest = outer ++ ']' :: rest := hrest
  have hpeek : (c.pass outer (']' :: rest)).peek? = some ']' := rfl
  refine ⟨false, _, Scan.blanks_of_line houter hrest (by decide) (by decide) (by decide),
    by rw [hpeek]; decide, fun follows us c' => ?_⟩
  rw [List.nil_append, rereadItems, Option.some.injEq]
  constructor
  · rintro ⟨c₂, hfollows, hread⟩
    obtain ⟨_, rfl⟩ := (follows_iff hpeek (by decide)).1 hfollows
    obtain ⟨rfl, rfl⟩ := hread.items_eq_nil hpeek
    exact ⟨rfl, rfl⟩
  · rintro ⟨rfl, rfl⟩
    exact ⟨_, (follows_iff hpeek (by decide)).2 ⟨fun _ => by decide, rfl⟩, .noItems hpeek⟩

/-- A value that is taken for a comment takes one line, after the number sign. -/
theorem exists_block_of_opensComment {v : Value} (h : v.IsEvaluated)
    (hcomment : v.opensComment = true) {indent l : List Char} (hl : v.block? indent = some l) :
    ∃ m, l = '#' :: m ∧ ∀ x ∈ m, Text.isLineBreak x = false := by
  obtain ⟨x, m, rfl, hx⟩ := exists_block h hl
  obtain rfl := hx.opensComment_iff.1 hcomment
  have hblock : v.block? indent = v.inline? := by
    cases v with
    | call => rfl
    | _ => simp [opensComment, callSign?] at hcomment
  have hlines := not_isLineBreak_of_mem_inline v h _ (hblock ▸ hl)
  exact ⟨m, rfl, fun y hy => hlines y (List.mem_cons_of_mem _ hy)⟩

/-- A line that is taken for a comment. -/
theorem ReadBlock.comment {v : Value} {vs : List Value} (hv : v.IsEvaluated)
    (hcomment : v.opensComment = true) (ih : ReadBlock vs) : ReadBlock (v :: vs) := by
  intro indent l hl outer c rest hindent houter hline hrest
  obtain ⟨m, hm, n, hn, rfl⟩ := blockItems?_cons_eq_some.1 hl
  obtain ⟨m, rfl, hlines⟩ := exists_block_of_opensComment hv hcomment hm
  rw [List.append_assoc, List.append_assoc, List.cons_append, List.cons_append] at hrest
  generalize htail : n ++ (outer ++ ']' :: rest) = tail at hrest
  -- Blanks go on behind the line as they do from the line after it.
  obtain ⟨broken, c₁, hblanks, hopens, hmore⟩ := ih indent n hn outer
    ⟨'\n' :: (m.reverse ++ '#' :: (indent.reverse ++ c.before)), tail⟩ rest hindent houter
    (Cursor.beginsLine_lineBreak _ _) htail.symm
  refine ⟨true, c₁, ?_, hopens, fun follows us c' => ?_⟩
  · have hnext : Scan.blanks (Cursor.pass (c.pass indent ('#' :: (m ++ '\n' :: tail)))
        ('#' :: (m ++ ['\n'])) tail) = .ok broken c₁ := by
      simpa [Cursor.pass] using hblanks
    rw [Scan.blanks_spaces hindent hrest]
    exact Scan.blanks_lineComment (hline.pass hindent _) hlines rfl hnext
  · rw [rereadItems_of_opensComment hcomment, hmore]
    simp [Cursor.pass]

/-- A value that ends where a line break follows it. -/
theorem endsToken_of_lineBreak {before rest : List Char} {broken : Bool} {c₁ : Cursor}
    (hblanks : Scan.blanks ⟨before, '\n' :: rest⟩ = .ok broken c₁) (hopens : c₁.peek? ≠ some '(') :
    Cursor.EndsToken ⟨before, '\n' :: rest⟩ := by
  refine ⟨fun y hy => ?_, broken, c₁, hblanks, hopens⟩
  obtain rfl := Option.some.inj hy
  decide

/-- An item that is no comment begins behind the indentation of its line. -/
theorem exists_peek?_of_item {v : Value} (hv : v.IsEvaluated) (hcomment : v.opensComment = false)
    {indent l tail : List Char} {c : Cursor} (hindent : Text.AreSpaces indent)
    (hl : v.block? indent = some l) (hrest : c.rest = indent ++ (l ++ tail)) :
    ∃ x, v.BeginsWith x ∧ (c.pass indent (l ++ tail)).peek? = some x ∧
      Scan.blanks c = .ok false (c.pass indent (l ++ tail)) := by
  obtain ⟨x, m, rfl, hx⟩ := exists_block hv hl
  have hsign : x ≠ '#' := by
    rintro rfl
    simp [hx.opensComment_iff.2 rfl] at hcomment
  exact ⟨x, hx, rfl,
    Scan.blanks_of_line hindent hrest hx.mayBegin.1 (hx.mayBegin.ne (by decide)) hsign⟩

/-- Items are a value and, after a separator, the items left. -/
theorem ReadsBlock.items_iff {v : Value} (ih : v.ReadsBlock) {indent l tail : List Char}
    {c : Cursor} {x : Char} (hindent : Text.AreSpaces indent) (hl : v.block? indent = some l)
    (hrest : c.rest = l ++ tail) (ends : (c.pass l tail).EndsToken)
    (hx : MayBegin x) (hpeek : c.peek? = some x) (us : List Value) (c' : Cursor) :
    Reads Unresolved (.items (some ']') false us) c c' ↔
      ∃ w ws separator c₂, v.reread = some w ∧ w :: ws = us ∧
        Scan.separator (some ']') (some .inList) (c.pass l tail) = .ok separator c₂ ∧
          Reads Unresolved (.items (some ']') false ws) c₂ c' := by
  have hfirst := ih indent l hl c tail hindent hrest ends
  have hclosing : x ≠ ']' := hx.ne (by decide)
  constructor
  · intro h
    cases h with
    | noItems closes => exact absurd (Option.some.inj (hpeek.symm.trans closes)) hclosing
    | item _ first separated more =>
      obtain ⟨hw, rfl⟩ := (hfirst _ _).1 first
      exact ⟨_, _, _, _, hw, rfl, separated, more⟩
  · rintro ⟨w, ws, separator, c₂, hw, rfl, separated, more⟩
    have begins : c.BeginsItem (some ']') :=
      ⟨x, hpeek, fun h => hclosing (Option.some.inj h).symm, hx.ne (by decide)⟩
    exact .item begins ((hfirst _ _).2 ⟨hw, rfl⟩) separated more

/-- An item on lines of its own, and the items after it. -/
theorem ReadBlock.cons {v : Value} {vs : List Value} (hv : v.IsEvaluated)
    (hcomment : v.opensComment = false) (ih : v.ReadsBlock) (ih' : ReadBlock vs) :
    ReadBlock (v :: vs) := by
  intro indent l hl outer c rest hindent houter hline hrest
  obtain ⟨m, hm, n, hn, rfl⟩ := blockItems?_cons_eq_some.1 hl
  rw [List.append_assoc, List.append_assoc, List.cons_append] at hrest
  generalize htail : n ++ (outer ++ ']' :: rest) = tail at hrest
  obtain ⟨x, hx, hpeek, hblanks⟩ := exists_peek?_of_item hv hcomment hindent hm hrest
  generalize hstart : c.pass indent (m ++ '\n' :: tail) = start at hpeek hblanks
  -- The line break after the item leads to the items left.
  obtain ⟨broken, c₁, hblanks', hopens, hmore⟩ := ih' indent n hn outer
    ⟨'\n' :: (m.reverse ++ start.before), tail⟩ rest hindent houter
    (Cursor.beginsLine_lineBreak _ _) htail.symm
  have hbreak := Scan.blanks_lineBreak hblanks'
  have hpass : c.pass (indent ++ m ++ '\n' :: n ++ outer) (']' :: rest) =
      Cursor.pass ⟨'\n' :: (m.reverse ++ start.before), tail⟩ (n ++ outer) (']' :: rest) := by
    simp [← hstart, Cursor.pass]
  refine ⟨false, start, hblanks, ?_, fun follows us c' => ?_⟩
  · rw [hpeek, ne_eq, Option.some.injEq]
    exact hx.mayBegin.ne (by decide)
  have hitems := ih.items_iff hindent hm (by rw [← hstart]; rfl)
    (endsToken_of_lineBreak hbreak hopens) hx.mayBegin hpeek us c'
  have hjoins : v.joins = false ↔ x ≠ '+' ∧ x ≠ ':' := by
    rw [← Bool.not_eq_true, hx.joins_iff, not_or]
  have hfollows : ∀ c₂, Follows follows start c₂ ↔
      (follows = true → v.joins = false) ∧ c₂ = start := by
    intro c₂
    rw [hjoins, follows_iff hpeek (hx.mayBegin.notMem (by simp))]
  rw [rereadItems_cons_eq_some hcomment, hpass]
  constructor
  · rintro ⟨c₂, h, hread⟩
    obtain ⟨hplace, rfl⟩ := (hfollows c₂).1 h
    obtain ⟨w, ws, separator, c₃, hw, rfl, hsep, more⟩ := hitems.1 hread
    obtain ⟨hws, rfl⟩ := (hmore true _ _).1 ⟨c₃, (follows_iff_separator hbreak).2 ⟨_, hsep⟩, more⟩
    exact ⟨⟨hplace, w, ws, hw, hws, rfl⟩, rfl⟩
  · rintro ⟨⟨hplace, w, ws, hw, hws, rfl⟩, rfl⟩
    obtain ⟨c₃, h, more⟩ := (hmore true ws _).2 ⟨hws, rfl⟩
    obtain ⟨separator, hsep⟩ := (follows_iff_separator hbreak).1 h
    exact ⟨start, (hfollows start).2 ⟨hplace, rfl⟩,
      hitems.2 ⟨w, ws, separator, c₃, hw, rfl, hsep, more⟩⟩

/-- A sequence in brackets. -/
theorem readsBlock_sequence {items : List Value} (ih : ReadBlock items) :
    (Value.sequence items).ReadsBlock := by
  intro indent l hl c rest hindent hrest _ w c'
  obtain ⟨m, hm, rfl⟩ := block?_sequence_eq_some.1 hl
  have hrest : c.rest = '[' :: '\n' :: (m ++ (indent ++ ']' :: rest)) := by
    rw [hrest]
    simp
  have hpeek : c.peek? = some '[' := by simp [Cursor.peek?, hrest]
  obtain ⟨broken, c₁, hblanks, _, hmore⟩ := ih (indent ++ indentStep) m hm indent
    ⟨'\n' :: '[' :: c.before, _⟩ rest (hindent.append Text.areSpaces_indentStep) hindent
    (Cursor.beginsLine_lineBreak _ _) rfl
  have hbreak : Scan.blanks c.next = .ok true c₁ := by
    rw [Cursor.next, hrest]
    exact Scan.blanks_lineBreak hblanks
  have hpass : c.pass ('[' :: '\n' :: (m ++ indent ++ [']'])) rest =
      (Cursor.pass ⟨'\n' :: '[' :: c.before, m ++ (indent ++ ']' :: rest)⟩ (m ++ indent)
        (']' :: rest)).next := by
    simp [Cursor.pass, Cursor.next]
  rw [reread_sequence_eq_some, hpass]
  constructor
  · intro h
    obtain ⟨ws, broken', c₂, c₃, rfl, hb, hread, rfl⟩ := h.of_bracket hpeek
    obtain ⟨_, rfl⟩ := EStateM.Result.ok.inj (hb.symm.trans hbreak)
    obtain ⟨hws, rfl⟩ := (hmore false _ _).1 ⟨_, rfl, hread⟩
    exact ⟨⟨ws, hws, rfl⟩, rfl⟩
  · rintro ⟨⟨ws, hws, rfl⟩, rfl⟩
    obtain ⟨_, rfl, hread⟩ := (hmore false ws _).2 ⟨hws, rfl⟩
    exact .sequence hpeek hbreak hread

theorem entriesReadBlock_nil : EntriesReadBlock [] := by
  intro indent l hl outer c rest _ houter hrest
  obtain rfl := Option.some.inj hl
  have hrest : c.rest = outer ++ '}' :: rest := hrest
  have hpeek : (c.pass outer ('}' :: rest)).peek? = some '}' := rfl
  refine ⟨'}', false, _, hpeek, .inr rfl,
    Scan.blanks_of_line houter hrest (by decide) (by decide) (by decide), fun old new c' _ => ?_⟩
  rw [List.nil_append]
  constructor
  · intro h
    obtain ⟨rfl, rfl⟩ := h.entries_eq hpeek
    exact ⟨⟨[], rfl, List.append_nil _⟩, rfl⟩
  · rintro ⟨⟨fs, hfs, rfl⟩, rfl⟩
    obtain rfl := Option.some.inj hfs
    rw [List.append_nil]
    exact .noEntries hpeek

/-- Entries are a quoted key with a value and, after a separator, the entries left. -/
theorem ReadsBlock.entries_iff {v : Value} (hv : v.IsEvaluated) (ih : v.ReadsBlock) {k : String}
    {indent l tail : List Char} {c c' : Cursor} {old new : Hash} (hindent : Text.AreSpaces indent)
    (hl : v.block? indent = some l)
    (hrest : c.rest = (Text.quote k).toList ++ ':' :: ' ' :: (l ++ tail))
    (ends : (c.pass ((Text.quote k).toList ++ ':' :: ' ' :: l) tail).EndsToken) :
    Reads Unresolved (.entries (some '}') false old new) c c' ↔
      ∃ w separator c₂, v.reread = some w ∧ Scan.separator (some '}') (some .valueGiven)
        (c.pass ((Text.quote k).toList ++ ':' :: ' ' :: l) tail) = .ok separator c₂ ∧
          Reads Unresolved (.entries (some '}') false (old.insert k w) new) c₂ c' := by
  obtain ⟨x, m, hm, hx⟩ := exists_block hv hl
  -- The value begins behind the space, which does not begin a line.
  have hspace : Scan.blanks (c.pass ((Text.quote k).toList ++ [':']) (' ' :: (l ++ tail))) =
      .ok false (c.pass ((Text.quote k).toList ++ [':', ' ']) (l ++ tail)) := by
    rw [Cursor.pass, Scan.blanks_space]
    have hmay := Cursor.blanks_of_mayBegin (c := c.pass ((Text.quote k).toList ++ [':', ' '])
      (l ++ tail)) (l := m ++ tail) (by simp [hm, Cursor.pass]) hx.mayBegin
        (by simpa [Cursor.pass] using Cursor.isInLine_space_cons (by decide) _ _)
    simpa [Cursor.pass] using hmay
  have hpass : c.pass ((Text.quote k).toList ++ ':' :: ' ' :: l) tail =
      Cursor.pass (c.pass ((Text.quote k).toList ++ [':', ' ']) (l ++ tail)) l tail := by
    simp [Cursor.pass]
  rw [Reads.quotedEntry_iff hrest hspace (by simp [hm, Cursor.pass]), hpass]
  rw [hpass] at ends
  have hfirst := ih indent l hl _ tail hindent rfl ends
  constructor
  · rintro ⟨w, separator, c₂, c₃, hread, separated, more⟩
    obtain ⟨hw, rfl⟩ := (hfirst _ _).1 hread
    exact ⟨w, separator, c₃, hw, separated, more⟩
  · rintro ⟨w, separator, c₃, hw, separated, more⟩
    exact ⟨w, separator, _, c₃, (hfirst _ _).2 ⟨hw, rfl⟩, separated, more⟩

/-- An entry on lines of its own, and the entries after it. -/
theorem EntriesReadBlock.cons {k : String} {v : Value} {es : Hash} (hv : v.IsEvaluated)
    (ih : v.ReadsBlock) (ih' : EntriesReadBlock es) : EntriesReadBlock ((k, v) :: es) := by
  intro indent l hl outer c rest hindent houter hrest
  obtain ⟨m, hm, n, hn, rfl⟩ := blockEntries?_cons_eq_some.1 hl
  generalize htail : n ++ (outer ++ '}' :: rest) = tail
  have hrest : c.rest = indent ++ ((Text.quote k).toList ++ ':' :: ' ' :: (m ++ '\n' :: tail)) := by
    rw [hrest, ← htail]
    simp
  generalize hstart : c.pass indent ((Text.quote k).toList ++ ':' :: ' ' :: (m ++ '\n' :: tail)) =
    start
  have hquoted : start.rest = (Text.quote k).toList ++ ':' :: ' ' :: (m ++ '\n' :: tail) := by
    rw [← hstart]
    rfl
  have hpeek : start.peek? = some Text.quotationMark := by
    simp [Cursor.peek?, hquoted, Text.toList_quote]
  have hblanks : Scan.blanks c = .ok false start := by
    rw [Scan.blanks_spaces hindent hrest, hstart]
    exact Scan.blanks_of_delimiter hpeek (by decide) (by decide)
  -- The line break after the value leads to the entries left, which begin with a quotation mark.
  obtain ⟨x, broken, c₁, hpeek', hx, hblanks', hmore⟩ := ih' indent n hn outer ⟨'\n' ::
    (((Text.quote k).toList ++ ':' :: ' ' :: m).reverse ++ start.before), tail⟩ rest
      hindent houter htail.symm
  have hbreak := Scan.blanks_lineBreak hblanks'
  have hopens : c₁.peek? ≠ some '(' := by
    rw [hpeek']
    rcases hx with rfl | rfl <;> decide
  have hsep := separator_lineBreak_iff .valueGiven (.inl rfl) hbreak hpeek'
    (by rcases hx with rfl | rfl <;> decide) (by rcases hx with rfl | rfl <;> decide)
  have hpass : c.pass (indent ++ (Text.quote k).toList ++ ':' :: ' ' :: (m ++ '\n' :: n) ++ outer)
      ('}' :: rest) = Cursor.pass ⟨'\n' :: (((Text.quote k).toList ++ ':' :: ' ' :: m).reverse ++
        start.before), tail⟩ (n ++ outer) ('}' :: rest) := by
    simp [← hstart, Cursor.pass]
  refine ⟨_, false, start, hpeek, .inl rfl, hblanks, fun old new c' distinct => ?_⟩
  rw [ih.entries_iff hv hindent hm hquoted (endsToken_of_lineBreak hbreak hopens), hpass]
  have hinsert := Entries.insert_eq_append (Entries.notMem_keys distinct)
  have hmore := fun w =>
    hmore (old ++ [(k, w)]) new c' (Entries.hasDistinctKeys_append_cons.1 distinct)
  constructor
  · rintro ⟨w, separator, c₂, hw, separated, more⟩
    obtain rfl := (hsep _).1 ⟨_, separated⟩
    rw [hinsert] at more
    obtain ⟨⟨fs, hfs, rfl⟩, rfl⟩ := (hmore w).1 more
    exact ⟨⟨(k, w) :: fs, rereadEntries_cons_eq_some.2 ⟨w, fs, hw, hfs, rfl⟩, by simp⟩, rfl⟩
  · rintro ⟨⟨gs, hgs, rfl⟩, rfl⟩
    obtain ⟨w, fs, hw, hfs, rfl⟩ := rereadEntries_cons_eq_some.1 hgs
    obtain ⟨separator, separated⟩ := (hsep c₁).2 rfl
    refine ⟨w, separator, c₁, hw, separated, ?_⟩
    rw [hinsert]
    exact (hmore w).2 ⟨⟨fs, hfs, by simp⟩, rfl⟩

/-- A hash in braces. -/
theorem readsBlock_hash {entries : Hash} (distinct : entries.HasDistinctKeys)
    (ih : EntriesReadBlock entries) : (Value.hash entries).ReadsBlock := by
  intro indent l hl c rest hindent hrest _ w c'
  obtain ⟨m, hm, rfl⟩ := block?_hash_eq_some.1 hl
  have hrest : c.rest = '{' :: '\n' :: (m ++ (indent ++ '}' :: rest)) := by
    rw [hrest]
    simp
  have hpeek : c.peek? = some '{' := by simp [Cursor.peek?, hrest]
  obtain ⟨_, broken, c₁, _, _, hblanks, hmore⟩ := ih (indent ++ indentStep) m hm indent
    ⟨'\n' :: '{' :: c.before, _⟩ rest (hindent.append Text.areSpaces_indentStep) hindent rfl
  have hbreak : Scan.blanks c.next = .ok true c₁ := by
    rw [Cursor.next, hrest]
    exact Scan.blanks_lineBreak hblanks
  have hpass : c.pass ('{' :: '\n' :: (m ++ indent ++ ['}'])) rest =
      (Cursor.pass ⟨'\n' :: '{' :: c.before, m ++ (indent ++ '}' :: rest)⟩ (m ++ indent)
        ('}' :: rest)).next := by
    simp [Cursor.pass, Cursor.next]
  rw [reread_hash_eq_some, hpass]
  constructor
  · intro h
    obtain ⟨new, broken', c₂, c₃, rfl, hb, hread, rfl⟩ := h.of_brace hpeek
    obtain ⟨_, rfl⟩ := EStateM.Result.ok.inj (hb.symm.trans hbreak)
    obtain ⟨⟨fs, hfs, rfl⟩, rfl⟩ := (hmore [] _ _ distinct).1 hread
    exact ⟨⟨fs, hfs, rfl⟩, rfl⟩
  · rintro ⟨⟨fs, hfs, rfl⟩, rfl⟩
    exact .hash hpeek hbreak ((hmore [] _ _ distinct).2 ⟨⟨fs, hfs, rfl⟩, rfl⟩)

mutual

/-- What an evaluated value over several lines is read as. -/
theorem readsBlock : ∀ v : Value, v.IsEvaluated → v.ReadsBlock
  | .sequence items, h => by
    cases h with
    | sequence inner => exact readsBlock_sequence (readBlock items inner)
  | .hash entries, h => by
    cases h with
    | hash distinct inner => exact readsBlock_hash distinct (entriesReadBlock entries inner)
  | .string s, h => (readsInline _ h).readsBlock (fun _ => rfl) rfl
  | .integer n, h => (readsInline _ h).readsBlock (fun _ => rfl) rfl
  | .decimal d, h => (readsInline _ h).readsBlock (fun _ => rfl) rfl
  | .boolean b, h => (readsInline _ h).readsBlock (fun _ => rfl) rfl
  | .call name params, h => (readsInline _ h).readsBlock (fun _ => rfl) rfl
  | .fragment f, h => by cases h

theorem readBlock : ∀ vs : List Value, (∀ v ∈ vs, v.IsEvaluated) → ReadBlock vs
  | [], _ => readBlock_nil
  | v :: vs, h => by
    have hvs := readBlock vs fun w hw => h w (List.mem_cons_of_mem v hw)
    cases hcomment : v.opensComment with
    | true => exact .comment (h v (by simp)) hcomment hvs
    | false => exact .cons (h v (by simp)) hcomment (readsBlock v (h v (by simp))) hvs

theorem entriesReadBlock : ∀ es : Hash, (∀ e ∈ es, e.2.IsEvaluated) → EntriesReadBlock es
  | [], _ => entriesReadBlock_nil
  | (k, v) :: es, h =>
    .cons (h (k, v) (by simp)) (readsBlock v (h (k, v) (by simp)))
      (entriesReadBlock es fun e he => h e (List.mem_cons_of_mem _ he))

end

end Value
end TextualData
