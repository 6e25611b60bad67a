import TextualData.Proofs.Rereading

/-!
# Legible values

`Value.IsLegible` is the condition under which a value has a dump that denotes an equal value. A
value has a dump if the opposite of each scale in it fits in 64 bits. A legible value is read as
itself; any other evaluated value with a dump is read as one that differs from it, or not at all.
-/

namespace TextualData
namespace Value

/-- No decimal in the value has the least scale. -/
inductive HasPlainDecimals : Value → Prop where
  | string (s : String) : HasPlainDecimals (.string s)
  | integer (n : Int64) : HasPlainDecimals (.integer n)
  | decimal {d : Decimal} (scale : d.scale ≠ Int64.minValue) : HasPlainDecimals (.decimal d)
  | boolean (b : Bool) : HasPlainDecimals (.boolean b)
  | sequence {items : List Value} (inner : ∀ v ∈ items, HasPlainDecimals v) :
      HasPlainDecimals (.sequence items)
  | hash {entries : Hash} (inner : ∀ e ∈ entries, HasPlainDecimals e.2) :
      HasPlainDecimals (.hash entries)
  | call {name : String} {params : List Value} (inner : ∀ v ∈ params, HasPlainDecimals v) :
      HasPlainDecimals (.call name params)

/-- No decimal in the value has the least scale, and no call in it, other than in the parameters of
a call, begins a line with a sign that has a meaning there. -/
inductive IsLegible : Value → Prop where
  | string (s : String) : IsLegible (.string s)
  | integer (n : Int64) : IsLegible (.integer n)
  | decimal {d : Decimal} (scale : d.scale ≠ Int64.minValue) : IsLegible (.decimal d)
  | boolean (b : Bool) : IsLegible (.boolean b)
  /-- Values in order. No item is taken for a comment, and none but the first for what goes on with
  the item before it. -/
  | sequence {items : List Value} (inner : ∀ v ∈ items, IsLegible v)
      (noComment : ∀ v ∈ items, v.opensComment = false)
      (noSign : ∀ v ∈ items.tail, v.joins = false) : IsLegible (.sequence items)
  | hash {entries : Hash} (inner : ∀ e ∈ entries, IsLegible e.2) : IsLegible (.hash entries)
  /-- A call, whose parameters are all on one line. -/
  | call {name : String} {params : List Value} (inner : ∀ v ∈ params, v.HasPlainDecimals) :
      IsLegible (.call name params)

section
variable {v : Value}

theorem IsLegible.hasPlainDecimals (h : v.IsLegible) : v.HasPlainDecimals := by
  induction h with
  | string s => exact .string s
  | integer n => exact .integer n
  | decimal scale => exact .decimal scale
  | boolean b => exact .boolean b
  | sequence _ _ _ ih => exact .sequence ih
  | hash _ ih => exact .hash ih
  | call inner => exact .call inner

theorem hasPlainDecimals_sequence {items : List Value} :
    (sequence items).HasPlainDecimals ↔ ∀ v ∈ items, v.HasPlainDecimals :=
  ⟨fun | .sequence inner => inner, .sequence⟩

theorem hasPlainDecimals_hash {entries : Hash} :
    (hash entries).HasPlainDecimals ↔ ∀ e ∈ entries, e.2.HasPlainDecimals :=
  ⟨fun | .hash inner => inner, .hash⟩

theorem hasPlainDecimals_call {name : String} {params : List Value} :
    (call name params).HasPlainDecimals ↔ ∀ v ∈ params, v.HasPlainDecimals :=
  ⟨fun | .call inner => inner, .call⟩

theorem isSome_inlineItems? (vs : List Value) :
    (inlineItems? vs).isSome ↔ ∀ v ∈ vs, v.inline?.isSome := by
  induction vs with
  | nil => simp [inlineItems?]
  | cons v vs ih =>
    cases vs with
    | nil => simp [inlineItems?_singleton]
    | cons w vs =>
      rw [List.forall_mem_cons, ← ih, inlineItems?]
      · cases inline? v <;> cases inlineItems? (w :: vs) <;> simp
      · simp

theorem isSome_inlineEntries? (es : Hash) :
    (inlineEntries? es).isSome ↔ ∀ e ∈ es, e.2.inline?.isSome := by
  induction es with
  | nil => simp [inlineEntries?]
  | cons e es ih =>
    obtain ⟨k, v⟩ := e
    cases es with
    | nil =>
      simp only [inlineEntries?, List.forall_mem_singleton]
      cases inline? v <;> simp
    | cons e es =>
      rw [List.forall_mem_cons, ← ih, inlineEntries?]
      · cases inline? v <;> cases inlineEntries? (e :: es) <;> simp
      · simp

theorem isSome_blockItems? (indent : List Char) (vs : List Value) :
    (blockItems? indent vs).isSome ↔ ∀ v ∈ vs, (v.block? indent).isSome := by
  induction vs with
  | nil => simp [blockItems?]
  | cons v vs ih =>
    rw [List.forall_mem_cons, ← ih, blockItems?]
    cases block? indent v <;> cases blockItems? indent vs <;> simp

theorem isSome_blockEntries? (indent : List Char) (es : Hash) :
    (blockEntries? indent es).isSome ↔ ∀ e ∈ es, (e.2.block? indent).isSome := by
  induction es with
  | nil => simp [blockEntries?]
  | cons e es ih =>
    obtain ⟨k, v⟩ := e
    rw [List.forall_mem_cons, ← ih, blockEntries?]
    cases block? indent v <;> cases blockEntries? indent es <;> simp

theorem isSome_decimal_iff {d : Decimal} :
    (decimal d).inline?.isSome ↔ (decimal d).HasPlainDecimals := by
  rw [inline?_decimal, Option.isSome_iff_ne_none, ne_eq, Decimal.literal?_eq_none_iff]
  exact ⟨.decimal, fun | .decimal scale => scale⟩

/-- A value has a text on a single line if each of its decimals has a literal. -/
theorem isSome_inline?_iff (h : v.IsEvaluated) : v.inline?.isSome ↔ v.HasPlainDecimals := by
  induction h with
  | string s => exact iff_of_true rfl (.string s)
  | integer n => exact iff_of_true rfl (.integer n)
  | decimal d => exact isSome_decimal_iff
  | boolean b => exact iff_of_true rfl (.boolean b)
  | @sequence items _ ih =>
    have hitems : (sequence items).inline?.isSome = (inlineItems? items).isSome := by
      rw [inline?]
      cases inlineItems? items <;> rfl
    rw [hitems, isSome_inlineItems?, hasPlainDecimals_sequence]
    exact forall₂_congr ih
  | @hash entries _ _ ih =>
    have hentries : (hash entries).inline?.isSome = (inlineEntries? entries).isSome := by
      rw [inline?]
      cases inlineEntries? entries <;> rfl
    rw [hentries, isSome_inlineEntries?, hasPlainDecimals_hash]
    exact forall₂_congr ih
  | @call name params _ _ ih =>
    have hparams : (call name params).inline?.isSome = (inlineItems? params).isSome := by
      rw [inline?]
      cases inlineItems? params <;> rfl
    rw [hparams, isSome_inlineItems?, hasPlainDecimals_call]
    exact forall₂_congr ih

/-- So it has one over several lines. -/
theorem isSome_block?_iff (h : v.IsEvaluated) (indent : List Char) :
    (v.block? indent).isSome ↔ v.HasPlainDecimals := by
  induction h generalizing indent with
  | string s => exact iff_of_true rfl (.string s)
  | integer n => exact iff_of_true rfl (.integer n)
  | decimal d => exact isSome_decimal_iff
  | boolean b => exact iff_of_true rfl (.boolean b)
  | @sequence items _ ih =>
    have hitems : ((sequence items).block? indent).isSome =
        (blockItems? (indent ++ indentStep) items).isSome := by
      rw [block?]
      cases blockItems? (indent ++ indentStep) items <;> rfl
    rw [hitems, isSome_blockItems?, hasPlainDecimals_sequence]
    exact forall₂_congr fun v hv => ih v hv _
  | @hash entries _ _ ih =>
    have hentries : ((hash entries).block? indent).isSome =
        (blockEntries? (indent ++ indentStep) entries).isSome := by
      rw [block?]
      cases blockEntries? (indent ++ indentStep) entries <;> rfl
    rw [hentries, isSome_blockEntries?, hasPlainDecimals_hash]
    exact forall₂_congr fun e he => ih e he _
  | call isName inner => exact isSome_inline?_iff (.call isName inner)

/-- A value that a text denotes has a dump exactly if each of its decimals has a literal. -/
theorem exists_dump?_iff (h : v.IsEvaluated) :
    (∃ text, v.dump? = some text) ↔ v.HasPlainDecimals := by
  rw [← Option.isSome_iff_exists, dump?, Option.isSome_map]
  exact isSome_block?_iff h []

end

mutual

/-- A legible value is read as itself. -/
theorem reread_eq_self : ∀ v : Value, v.IsLegible → v.reread = some v
  | .string _, _ | .integer _, _ | .decimal _, _ | .boolean _, _ | .call _ _, _ => rfl
  | .sequence items, h => by
    cases h with
    | sequence inner noComment noSign =>
      exact reread_sequence_eq_some.2
        ⟨items, rereadItems_eq_self items inner noComment false (by simp) noSign, rfl⟩
  | .hash entries, h => by
    cases h with
    | hash inner => exact reread_hash_eq_some.2 ⟨entries, rereadEntries_eq_self entries inner, rfl⟩
  | .fragment f, h => by cases h

theorem rereadItems_eq_self : ∀ vs : List Value, (∀ v ∈ vs, v.IsLegible) →
    (∀ v ∈ vs, v.opensComment = false) → ∀ follows, (follows = true → ∀ v ∈ vs, v.joins = false) →
    (∀ v ∈ vs.tail, v.joins = false) → rereadItems follows vs = some vs
  | [], _, _, _, _, _ => rfl
  | v :: vs, h, noComment, follows, joined, noSign => by
    refine (rereadItems_cons_eq_some (noComment v (by simp))).2
      ⟨fun hfollows => joined hfollows v (by simp), v, vs, reread_eq_self v (h v (by simp)), ?_,
        rfl⟩
    exact rereadItems_eq_self vs (fun w hw => h w (List.mem_cons_of_mem v hw))
      (fun w hw => noComment w (List.mem_cons_of_mem v hw)) true (fun _ => noSign)
      fun w hw => noSign w (List.mem_of_mem_tail hw)

theorem rereadEntries_eq_self : ∀ es : Hash, (∀ e ∈ es, e.2.IsLegible) → rereadEntries es = some es
  | [], _ => rfl
  | (k, v) :: es, h =>
    rereadEntries_cons_eq_some.2 ⟨v, es, reread_eq_self v (h (k, v) (by simp)),
      rereadEntries_eq_self es fun e he => h e (List.mem_cons_of_mem _ he), rfl⟩

end

theorem length_eq_of_equalItems {vs ws : List Value} (h : equalItems ws vs = true) :
    ws.length = vs.length := by
  induction ws generalizing vs with
  | nil =>
    cases vs with
    | nil => rfl
    | cons => simp [equalItems] at h
  | cons w ws ih =>
    cases vs with
    | nil => simp [equalItems] at h
    | cons v vs =>
      rw [equalItems, Bool.and_eq_true] at h
      rw [List.length_cons, List.length_cons, ih h.2]

/-- No more items are read than were written. -/
theorem length_rereadItems_le {vs ws : List Value} {follows : Bool}
    (h : rereadItems follows vs = some ws) : ws.length ≤ vs.length := by
  induction vs generalizing follows ws with
  | nil =>
    obtain rfl := Option.some.inj h
    simp
  | cons v vs ih =>
    cases hcomment : v.opensComment with
    | true =>
      rw [rereadItems_of_opensComment hcomment] at h
      have := ih h
      simp only [List.length_cons]
      omega
    | false =>
      obtain ⟨_, w, us, _, hus, rfl⟩ := (rereadItems_cons_eq_some hcomment).1 h
      have := ih hus
      simp only [List.length_cons]
      omega

mutual

/-- A value with a dump that is read as an equal one is legible. -/
theorem isLegible_of_equal : ∀ v : Value, v.IsEvaluated → v.HasPlainDecimals →
    ∀ w, v.reread = some w → w.equal v = true → v.IsLegible
  | .string s, _, _, _, _, _ => .string s
  | .integer n, _, _, _, _, _ => .integer n
  | .boolean b, _, _, _, _, _ => .boolean b
  | .decimal d, _, .decimal scale, _, _, _ => .decimal scale
  | .sequence items, h, .sequence plain, w, hread, hequal => by
    cases h with
    | sequence inner =>
      obtain ⟨ws, hws, rfl⟩ := reread_sequence_eq_some.1 hread
      obtain ⟨hlegible, noComment, _, noSign⟩ :=
        isLegible_of_equalItems items inner plain false ws hws (by rwa [equal] at hequal)
      exact .sequence hlegible noComment noSign
  | .hash entries, h, .hash plain, w, hread, hequal => by
    cases h with
    | hash distinct inner =>
      obtain ⟨fs, hfs, rfl⟩ := reread_hash_eq_some.1 hread
      rw [equal, Bool.and_eq_true] at hequal
      exact .hash (isLegible_of_equalEntries entries entries inner plain
        (fun e he => Entries.get?_of_mem distinct he) fs hfs hequal.2)
  | .call name params, _, .call inner, _, _, _ => .call inner

theorem isLegible_of_equalItems : ∀ vs : List Value, (∀ v ∈ vs, v.IsEvaluated) →
    (∀ v ∈ vs, v.HasPlainDecimals) → ∀ follows ws, rereadItems follows vs = some ws →
    equalItems ws vs = true → (∀ v ∈ vs, v.IsLegible) ∧ (∀ v ∈ vs, v.opensComment = false) ∧
      (follows = true → ∀ v ∈ vs, v.joins = false) ∧ ∀ v ∈ vs.tail, v.joins = false
  | [], _, _, _, _, _, _ => by simp
  | v :: vs, h, plain, follows, ws, hread, hequal => by
    -- An item that is left out leaves fewer than there were.
    have hlength := length_eq_of_equalItems hequal
    cases hcomment : v.opensComment with
    | true =>
      rw [rereadItems_of_opensComment hcomment] at hread
      have hle := length_rereadItems_le hread
      rw [List.length_cons] at hlength
      omega
    | false =>
      obtain ⟨hjoins, w, us, hw, hus, rfl⟩ := (rereadItems_cons_eq_some hcomment).1 hread
      rw [equalItems, Bool.and_eq_true] at hequal
      obtain ⟨hlegible, noComment, noSign, _⟩ := isLegible_of_equalItems vs
        (fun w hw => h w (List.mem_cons_of_mem v hw))
        (fun w hw => plain w (List.mem_cons_of_mem v hw)) true us hus hequal.2
      have hv := isLegible_of_equal v (h v (by simp)) (plain v (by simp)) w hw hequal.1
      exact ⟨List.forall_mem_cons.2 ⟨hv, hlegible⟩, List.forall_mem_cons.2 ⟨hcomment, noComment⟩,
        fun hfollows => List.forall_mem_cons.2 ⟨hjoins hfollows, noSign rfl⟩, noSign rfl⟩

theorem isLegible_of_equalEntries : ∀ es all : Hash, (∀ e ∈ es, e.2.IsEvaluated) →
    (∀ e ∈ es, e.2.HasPlainDecimals) → (∀ e ∈ es, all.get? e.1 = some e.2) →
    ∀ fs, rereadEntries es = some fs → equalEntries fs all = true → ∀ e ∈ es, e.2.IsLegible
  | [], _, _, _, _, _, _, _ => by simp
  | (k, v) :: es, all, h, plain, hall, fs, hread, hequal => by
    obtain ⟨w, gs, hw, hgs, rfl⟩ := rereadEntries_cons_eq_some.1 hread
    rw [equalEntries, hall (k, v) (by simp), Bool.and_eq_true] at hequal
    have hv := isLegible_of_equal v (h (k, v) (by simp)) (plain (k, v) (by simp)) w hw hequal.1
    exact List.forall_mem_cons.2 ⟨hv, isLegible_of_equalEntries es all
      (fun e he => h e (List.mem_cons_of_mem _ he))
      (fun e he => plain e (List.mem_cons_of_mem _ he))
      (fun e he => hall e (List.mem_cons_of_mem _ he)) gs hgs hequal.2⟩

end

/-- A value with a dump is read as an equal one exactly if it is legible. -/
theorem exists_reread_equal_iff {v : Value} (h : v.IsEvaluated) (plain : v.HasPlainDecimals) :
    (∃ w, v.reread = some w ∧ w.equal v = true) ↔ v.IsLegible := by
  constructor
  · rintro ⟨w, hw, hequal⟩
    exact isLegible_of_equal v h plain w hw hequal
  · intro hlegible
    exact ⟨v, reread_eq_self v hlegible, equal_self v h⟩

end Value
end TextualData
