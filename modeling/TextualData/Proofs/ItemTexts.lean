import TextualData.Proofs.Failing
import TextualData.Proofs.Joints

/-!
# Items one after the other

The items of a sequence, written one after the other with a joint before each but the first, are
evaluated to what each of them is evaluated to on its own. A line break is as good as a comma,
except before an item that begins with a plus sign or a colon: there the text is refused.
-/

namespace TextualData

/-- The text is evaluated to the value, and the expression in it takes up all of it: there are no
blanks and no comments before it or after it. -/
structure Environment.IsItem {σ : Type} (env : Environment σ) (forced : Bool) (l : List Char)
    (v : Value) : Prop where
  evaluates : ∃ inner, ((Source.mk (String.ofList l) none).evaluate env forced inner).1 = .ok v
  begins : Scan.blanks (.ofText l) = .ok false (.ofText l)
  covers : ∃ w, env.ReadsAll forced false l w

/-- An item of a sequence as it is written after another, and its value. -/
structure Item where
  /-- What stands between the item before it and the item. -/
  joint : List Char
  /-- Whether that has a comma. -/
  comma : Bool
  text : List Char
  value : Value

namespace Item

/-- The text of items one after the other. What stands before the first is left out. -/
def join : List Item → List Char
  | [] => []
  | e :: es => e.text ++ es.flatMap fun e => e.joint ++ e.text

/-- What stands before the item separates it from the one before: a comma does, and a line break
does if the item begins with neither a plus sign nor a colon. -/
def IsSeparated (e : Item) : Prop :=
  e.comma = false → e.text.head? ≠ some '+' ∧ e.text.head? ≠ some ':'

end Item

section
variable {σ : Type} {env : Environment σ} {f : FunctionCall → Except Error Value}
  (hsilent : env.IsSilent) (hcalls : env.ResolvesBy f) {forced : Bool} {l : List Char} {v : Value}
include hsilent hcalls

/-- Reading an item as an expression gives the value that it is evaluated to. -/
theorem Environment.IsItem.readsAll (h : env.IsItem forced l v) :
    env.ReadsAll forced false l v := by
  obtain ⟨⟨inner, hvalue⟩, hbegins, w, hw⟩ := h
  obtain ⟨broken, c₁, c₂, -, -, hblanks, hread, -⟩ :=
    (Evaluation.single_eq_ok hsilent hcalls.resolvesWithin hcalls.resolves).1 hvalue
  rw [String.toList_ofList] at hblanks
  obtain ⟨-, rfl⟩ := EStateM.Result.ok.inj (hbegins.symm.trans hblanks)
  have hend : Cursor.EndsExpression ⟨l.reverse ++ [], []⟩ false :=
    Cursor.endsExpression_of_rest_eq_nil rfl
  have hread' := hw.reads hsilent hcalls hend
  rw [List.append_nil] at hread'
  obtain ⟨rfl, -⟩ := hread.unique_of_resolves (Environment.ofFunction_isSilent f)
    (Environment.ofFunction_resolvesBy f).resolves hread'
  exact hw

/-- The first character of an item. -/
theorem Environment.IsItem.exists_mayBegin (h : env.IsItem forced l v) :
    ∃ x m, l = x :: m ∧ Value.MayBegin x ∧ x ≠ '#' := by
  obtain ⟨x, m, rfl, hx⟩ := (h.readsAll hsilent hcalls).exists_mayBegin hsilent hcalls
  refine ⟨x, m, rfl, hx, fun hsign => ?_⟩
  have hline := (Scan.stops_of_blanks h.begins rfl).2 hsign
  simp [Cursor.ofText] at hline

end

/-- What stands behind the last item: nothing in a text of its own, or the closing bracket. -/
inductive EndsItems : Option Char → List Char → Prop where
  | text : EndsItems none []
  | bracket : EndsItems (some ']') [']']

namespace EndsItems

variable {closing : Option Char} {tail : List Char} (h : EndsItems closing tail)
include h

theorem endsExpression (before : List Char) : Cursor.EndsExpression ⟨before, tail⟩ false := by
  cases h with
  | text => exact Cursor.endsExpression_of_rest_eq_nil rfl
  | bracket => exact Cursor.endsExpression_of_mark rfl (.inr (.inl (.inr (.inl rfl))))

theorem peek? (before : List Char) : Cursor.peek? ⟨before, tail⟩ = closing := by
  cases h <;> rfl

theorem blanks (before : List Char) :
    Scan.blanks ⟨before, tail⟩ = .ok false ⟨before, tail⟩ := by
  cases h with
  | text => exact Scan.blanks_of_rest_eq_nil rfl
  | bracket => exact Scan.blanks_of_delimiter rfl (by decide) (by decide)

theorem separator (before : List Char) (refusal : Option ColonRefusal) :
    Scan.separator closing refusal ⟨before, tail⟩ = .ok .closing ⟨before, tail⟩ := by
  refine (separator_iff_of_blanks (h.blanks before)).2 (.closing (h.peek? before) ?_)
  cases h <;> decide

theorem ne {x : Char} (hx : Value.MayBegin x) : closing ≠ some x := by
  cases h with
  | text => simp
  | bracket =>
    intro hclosing
    exact hx.ne (y := ']') (by decide) (Option.some.inj hclosing).symm

end EndsItems

theorem Item.join_cons_cons (e e' : Item) (es : List Item) :
    join (e :: e' :: es) = e.text ++ (e'.joint ++ join (e' :: es)) := by
  simp [join]

/-- Items one after the other begin like the first of them. -/
theorem Item.exists_join {e : Item} {x : Char} {m : List Char} (hx : e.text = x :: m)
    (es : List Item) (tail : List Char) : ∃ m', join (e :: es) ++ tail = x :: m' := by
  simp [join, hx]

section
variable {σ : Type} {env : Environment σ} {f : FunctionCall → Except Error Value}
  {closing : Option Char} {forced : Bool} {tail : List Char}

/-- An item reads as its value before a joint and another item. -/
theorem Environment.IsItem.reads {l joint rest : List Char} {v : Value} {comma : Bool} {x : Char}
    (h : env.IsItem forced l v) (hsilent : env.IsSilent) (hcalls : env.ResolvesBy f)
    (hjoint : IsJoint joint comma) (hx : Value.MayBegin x) (hsign : x ≠ '#') (before : List Char) :
    Reads (Environment.Gives f) (.value forced false v) ⟨before, l ++ (joint ++ x :: rest)⟩
      ⟨l.reverse ++ before, joint ++ x :: rest⟩ :=
  have hread := h.readsAll hsilent hcalls
  hread.reads hsilent hcalls
    (hjoint.endsExpression (hread.isInLine hsilent hcalls _ _) hx hsign)

/-- What stands at the beginning of an item after another. -/
theorem Item.exists_junction (hsilent : env.IsSilent) (hcalls : env.ResolvesBy f) (e e' : Item)
    (es : List Item) (hitem : env.IsItem forced e'.text e'.value) (tail : List Char) :
    ∃ x rest, Value.MayBegin x ∧ x ≠ '#' ∧ e'.text.head? = some x ∧
      join (e' :: es) ++ tail = x :: rest ∧
        join (e :: e' :: es) ++ tail = e.text ++ (e'.joint ++ x :: rest) := by
  obtain ⟨x, m, hx, hbegins, hsign⟩ := hitem.exists_mayBegin hsilent hcalls
  obtain ⟨rest, hrest⟩ := Item.exists_join hx es tail
  refine ⟨x, rest, hbegins, hsign, by simp [hx], hrest, ?_⟩
  rw [Item.join_cons_cons, List.append_assoc, List.append_assoc, hrest]

/-- Items that are separated from those before them read as what they are evaluated to. -/
theorem reads_items (hsilent : env.IsSilent) (hcalls : env.ResolvesBy f)
    (hend : EndsItems closing tail) (e : Item) (es : List Item)
    (hitems : ∀ e' ∈ e :: es, env.IsItem forced e'.text e'.value)
    (hjoints : ∀ e' ∈ es, IsJoint e'.joint e'.comma) (hseparated : ∀ e' ∈ es, e'.IsSeparated)
    (before : List Char) :
    Reads (Environment.Gives f) (.items closing forced ((e :: es).map Item.value))
      ⟨before, Item.join (e :: es) ++ tail⟩ ⟨(Item.join (e :: es)).reverse ++ before, tail⟩ := by
  have hitem := hitems e (by simp)
  have hread := hitem.readsAll hsilent hcalls
  obtain ⟨x, m, hx, hbegins, -⟩ := hitem.exists_mayBegin hsilent hcalls
  cases es with
  | nil =>
    simp only [Item.join, List.flatMap_nil, List.append_nil, List.map_cons, List.map_nil]
    refine .item ⟨x, by simp [hx, Cursor.peek?], hend.ne hbegins, hbegins.ne (by decide)⟩
      (hread.reads hsilent hcalls (hend.endsExpression _)) (hend.separator _ _) ?_
    exact .noItems (hend.peek? _)
  | cons e' es =>
    obtain ⟨x', rest, hbegins', hsign', hhead, hrest, hcursor⟩ :=
      Item.exists_junction hsilent hcalls e e' es (hitems e' (by simp)) tail
    have hjoint := hjoints e' (by simp)
    have hmark : e'.comma = false → x' ≠ '+' ∧ x' ≠ ':' := fun hcomma => by
      simpa [hhead] using hseparated e' (by simp) hcomma
    have hmore := reads_items hsilent hcalls hend e' es (fun e'' he => hitems e'' (by simp [he]))
      (fun e'' he => hjoints e'' (by simp [he])) (fun e'' he => hseparated e'' (by simp [he]))
      (e'.joint.reverse ++ (e.text.reverse ++ before))
    have hlast : (Item.join (e :: e' :: es)).reverse ++ before = (Item.join (e' :: es)).reverse ++
        (e'.joint.reverse ++ (e.text.reverse ++ before)) := by
      simp [Item.join_cons_cons]
    rw [hrest] at hmore
    rw [hcursor, hlast]
    exact .item ⟨x, by simp [hx, Cursor.peek?], hend.ne hbegins, hbegins.ne (by decide)⟩
      (hitem.reads hsilent hcalls hjoint hbegins' hsign' before)
      (hjoint.separates (hread.isInLine hsilent hcalls _ _) hbegins' hsign' (hend.ne hbegins')
        hmark) hmore

end

/-- What is wrong with an item that is not separated from the one before: it begins with a plus sign
or a colon. -/
def Item.fault (e : Item) : Malformation :=
  if e.text.head? = some '+' then .union else .colon .inList

namespace Evaluation

variable {σ : Type} {setting : Setting σ} {f : FunctionCall → Except Error Value}
  {closing : Option Char} {forced : Bool} {tail : List Char} {hs : List Hash} {opening : Nat}

/-- After an item that another follows, the items fail as what comes after it does. -/
theorem items_fail_of_more (hsilent : setting.environment.IsSilent)
    (hcalls : setting.environment.ResolvesBy f) (hend : EndsItems closing tail) (e e' : Item)
    (es : List Item) (hitem : setting.environment.IsItem forced e.text e.value)
    (hnext : setting.environment.IsItem forced e'.text e'.value)
    (hjoint : IsJoint e'.joint e'.comma) {before : List Char} {n : Nat} {err : Error}
    (hn : 5 * (Item.join (e :: e' :: es) ++ tail).length + 1 ≤ n)
    (hmore : Fails (do
        let separator ← scan setting (Scan.separator closing (some .inList))
        if separator = .closing then return [e.value]
        else return e.value :: (← items setting n closing forced opening))
      ⟨e.text.reverse ++ before, e'.joint ++ (Item.join (e' :: es) ++ tail)⟩ hs err) :
    Fails (items setting (n + 1) closing forced opening)
      ⟨before, Item.join (e :: e' :: es) ++ tail⟩ hs err := by
  obtain ⟨x, m, hx, hbegins, -⟩ := hitem.exists_mayBegin hsilent hcalls
  obtain ⟨x', rest, hbegins', hsign', -, hrest, hcursor⟩ :=
    Item.exists_junction hsilent hcalls e e' es hnext tail
  have hfirst : Yields setting (.value forced false e.value)
      ⟨before, e.text ++ (e'.joint ++ x' :: rest)⟩
      ⟨e.text.reverse ++ before, e'.joint ++ x' :: rest⟩ :=
    yields_of_reads hsilent hcalls.resolves
      (hitem.reads hsilent hcalls hjoint hbegins' hsign' before)
  rw [hrest] at hmore
  rw [hcursor] at hn ⊢
  have hpeek : Cursor.peek? ⟨before, e.text ++ (e'.joint ++ x' :: rest)⟩ = some x := by
    simp [hx, Cursor.peek?]
  rw [Evaluation.items]
  refine .get fun _ => ?_
  simp only [hpeek]
  exact .ite_false (hend.ne hbegins) (.ite_false (hbegins.ne (by decide))
    (Gives.bind_fails (hfirst n hs hn) hmore))

/-- The first item that is not separated from the one before is refused where it begins. -/
theorem items_fail (hsilent : setting.environment.IsSilent)
    (hcalls : setting.environment.ResolvesBy f) (hend : EndsItems closing tail) (e : Item)
    (done : List Item) (e' : Item) (es : List Item)
    (hitems : ∀ e'' ∈ e :: (done ++ e' :: es),
      setting.environment.IsItem forced e''.text e''.value)
    (hjoints : ∀ e'' ∈ done ++ e' :: es, IsJoint e''.joint e''.comma)
    (hdone : ∀ e'' ∈ done, e''.IsSeparated) (hjoined : ¬e'.IsSeparated) (before : List Char)
    (n : Nat) (hn : 5 * (Item.join (e :: (done ++ e' :: es)) ++ tail).length + 2 ≤ n) :
    Fails (items setting n closing forced opening)
      ⟨before, Item.join (e :: (done ++ e' :: es)) ++ tail⟩ hs (.malformed e'.fault
        (setting.source.locate (Text.byteSize before +
          Text.byteSize (Item.join (e :: done) ++ e'.joint)))) := by
  have hitem := hitems e (by simp)
  have hread := hitem.readsAll hsilent hcalls
  obtain ⟨x, m, hx, -⟩ := hitem.exists_mayBegin hsilent hcalls
  obtain ⟨n, rfl⟩ : ∃ k, n = k + 1 := ⟨n - 1, by omega⟩
  cases done with
  | nil =>
    have hnext := hitems e' (by simp)
    have hjoint := hjoints e' (by simp)
    refine items_fail_of_more hsilent hcalls hend e e' es hitem hnext hjoint (by simpa using hn) ?_
    obtain ⟨x', rest, hbegins, hsign, hhead, hrest, -⟩ :=
      Item.exists_junction hsilent hcalls e e' es hnext tail
    rw [hrest]
    have hline := hread.isInLine hsilent hcalls before (e'.joint ++ x' :: rest)
    obtain ⟨hcomma, hmark⟩ : e'.comma = false ∧ (x' = '+' ∨ x' = ':') := by
      simpa [Item.IsSeparated, hhead, Decidable.or_iff_not_imp_left] using hjoined
    rw [hcomma] at hjoint
    have hfault : e'.fault = if x' = '+' then .union else .colon .inList := by
      simp [Item.fault, hhead]
    have hposition : Text.byteSize before + Text.byteSize (Item.join [e] ++ e'.joint) =
        Text.byteSize (e'.joint.reverse ++ (e.text.reverse ++ before)) := by
      simp [Item.join]
      omega
    rw [hfault, hposition]
    exact .bind (.scan (hjoint.refuses hline hbegins hsign hmark))
  | cons d done =>
    have hnext := hitems d (by simp)
    have hjoint := hjoints d (by simp)
    obtain ⟨x', rest, hbegins, hsign, hhead, hrest, hcursor⟩ :=
      Item.exists_junction hsilent hcalls e d (done ++ e' :: es) hnext tail
    have hlen : 5 * (Item.join (d :: (done ++ e' :: es)) ++ tail).length + 2 ≤ n := by
      rw [List.cons_append, hcursor, hx] at hn
      rw [hrest]
      simp only [List.length_append, List.length_cons] at hn ⊢
      omega
    have ih := items_fail hsilent hcalls hend d done e' es
      (fun e'' he => hitems e'' (List.mem_cons_of_mem _ he))
      (fun e'' he => hjoints e'' (List.mem_cons_of_mem _ he))
      (fun e'' he => hdone e'' (List.mem_cons_of_mem _ he)) hjoined
      (d.joint.reverse ++ (e.text.reverse ++ before)) n hlen
    refine items_fail_of_more hsilent hcalls hend e d (done ++ e' :: es) hitem hnext hjoint
      (by simpa using Nat.le_of_succ_le_succ hn) ?_
    have hmark : d.comma = false → x' ≠ '+' ∧ x' ≠ ':' := fun hcomma => by
      simpa [hhead] using hdone d (by simp) hcomma
    have hline := hread.isInLine hsilent hcalls before (d.joint ++ x' :: rest)
    have hseparator := hjoint.separates hline hbegins hsign (hend.ne hbegins) hmark
    rw [hrest] at ih ⊢
    refine Gives.bind_fails (.scan hseparator) (.ite_false (by simp) (Fails.bind ?_))
    have hposition : Text.byteSize (d.joint.reverse ++ (e.text.reverse ++ before)) +
        Text.byteSize (Item.join (d :: done) ++ e'.joint) =
          Text.byteSize before + Text.byteSize (Item.join (e :: d :: done) ++ e'.joint) := by
      simp [Item.join_cons_cons]
      omega
    rw [← hposition]
    exact ih

/-- A sequence in brackets fails as its items do. -/
theorem single_bracketed_fail (hsilent : setting.environment.IsSilent) {l : List Char} {err : Error}
    (h : ∀ n, 5 * l.length + 4 ≤ n →
      Fails (itemsUpTo setting n (some ']') forced 0) ⟨['['], l⟩ [] err) :
    Fails (single setting forced) ⟨[], '[' :: l⟩ [] err := by
  have hblanks : Scan.blanks ⟨[], '[' :: l⟩ = .ok false ⟨[], '[' :: l⟩ :=
    Scan.blanks_of_peek? rfl (by decide) (by decide) fun h => absurd h (by decide)
  refine .get fun _ => Gives.bind_fails (.scan hblanks) (.get fun _ => .ite_false (by simp) ?_)
  refine Fails.bind ?_
  rw [bound, Evaluation.expression]
  refine .get fun _ => ?_
  simp only [if_neg (show ¬ '[' = '{' by decide), if_true]
  rw [Evaluation.sequence]
  refine Gives.bind_fails .position (Gives.bind_fails .next (Gives.bind_fails .position ?_))
  exact .bind (.within hsilent (h _ (by simp only [List.length_cons]; omega)))

end Evaluation

open Evaluation

/-- Among items that are not all separated there is a first one that is not. -/
theorem Item.exists_first_joined {es : List Item} (h : ¬∀ e ∈ es, e.IsSeparated) :
    ∃ done e more, es = done ++ e :: more ∧ (∀ d ∈ done, d.IsSeparated) ∧ ¬e.IsSeparated := by
  induction es with
  | nil => simp at h
  | cons e es ih =>
    by_cases he : e.IsSeparated
    · obtain ⟨done, e', more, rfl, hdone, hjoined⟩ := ih (by simpa [he] using h)
      exact ⟨e :: done, e', more, rfl, by simpa [he] using hdone, hjoined⟩
    · exact ⟨[], e, es, rfl, by simp, he⟩

section
variable {σ : Type} {env : Environment σ} {f : FunctionCall → Except Error Value}
  (hsilent : env.IsSilent) (hcalls : env.ResolvesBy f) {forced : Bool} {items : List Item}
  (hitems : ∀ e ∈ items, env.IsItem forced e.text e.value)
include hsilent hcalls hitems

/-- No blanks begin in front of items that do not begin with blanks. -/
theorem blanks_join {closing : Option Char} {tail : List Char} (hend : EndsItems closing tail)
    (before : List Char) : Scan.blanks ⟨before, Item.join items ++ tail⟩ =
      .ok false ⟨before, Item.join items ++ tail⟩ := by
  cases items with
  | nil => exact hend.blanks before
  | cons e es =>
    obtain ⟨x, m, hx, hbegins, hsign⟩ := (hitems e (by simp)).exists_mayBegin hsilent hcalls
    obtain ⟨rest, hrest⟩ := Item.exists_join hx es tail
    rw [hrest]
    exact Scan.blanks_of_begins hbegins hsign before rest

/-- Separated items up to the end of the text or the closing bracket read as their values. -/
theorem reads_join (hjoints : ∀ e ∈ items.tail, IsJoint e.joint e.comma)
    (hseparated : ∀ e ∈ items.tail, e.IsSeparated) {closing : Option Char} {tail : List Char}
    (hend : EndsItems closing tail) (before : List Char) :
    Reads (Environment.Gives f) (.items closing forced (items.map Item.value))
      ⟨before, Item.join items ++ tail⟩ ⟨(Item.join items).reverse ++ before, tail⟩ := by
  cases items with
  | nil => exact .noItems (hend.peek? before)
  | cons e es => exact reads_items hsilent hcalls hend e es hitems hjoints hseparated before

/-- Separated items are evaluated to their values. -/
theorem Source.evaluateSequence_join (hjoints : ∀ e ∈ items.tail, IsJoint e.joint e.comma)
    (hseparated : ∀ e ∈ items.tail, e.IsSeparated) {source : Source}
    (htext : source.text = String.ofList (Item.join items)) (inner : σ) :
    (source.evaluateSequence env forced inner).1 = .ok (items.map Item.value) := by
  refine (topSequence_eq_ok hsilent hcalls.resolvesWithin hcalls.resolves).2 ?_
  rw [htext, String.toList_ofList]
  have hblanks := blanks_join hsilent hcalls hitems .text []
  have hread := reads_join hsilent hcalls hitems hjoints hseparated .text []
  rw [List.append_nil] at hblanks hread
  exact ⟨false, _, _, hblanks, hread⟩

/-- Separated items in brackets are evaluated to the sequence of their values. -/
theorem Source.evaluate_bracketed_join (hjoints : ∀ e ∈ items.tail, IsJoint e.joint e.comma)
    (hseparated : ∀ e ∈ items.tail, e.IsSeparated) {source : Source}
    (htext : source.text = String.ofList ('[' :: (Item.join items ++ [']']))) (inner : σ) :
    (source.evaluate env forced inner).1 = .ok (.sequence (items.map Item.value)) := by
  refine (single_eq_ok hsilent hcalls.resolvesWithin hcalls.resolves).2 ?_
  rw [htext, String.toList_ofList]
  have hblanks := blanks_join hsilent hcalls hitems .bracket ['[']
  have hread := reads_join hsilent hcalls hitems hjoints hseparated .bracket ['[']
  have hopening : Scan.blanks (.ofText ('[' :: (Item.join items ++ [']']))) =
      .ok false (.ofText ('[' :: (Item.join items ++ [']']))) :=
    Scan.blanks_of_peek? rfl (by decide) (by decide) fun h => absurd h (by decide)
  exact ⟨false, _, _, false, _, hopening, .sequence rfl hblanks hread,
    Scan.blanks_of_rest_eq_nil rfl, rfl⟩

end

section
variable {σ : Type} {env : Environment σ} {f : FunctionCall → Except Error Value}
  (hsilent : env.IsSilent) (hcalls : env.ResolvesBy f) {forced : Bool} {e e' : Item}
  {done more : List Item}
  (hitems : ∀ d ∈ e :: (done ++ e' :: more), env.IsItem forced d.text d.value)
  (hjoints : ∀ d ∈ done ++ e' :: more, IsJoint d.joint d.comma)
  (hdone : ∀ d ∈ done, d.IsSeparated) (hjoined : ¬e'.IsSeparated) {source : Source}
include hsilent hcalls hitems hjoints hdone hjoined

/-- The items fail from the beginning of the listing on. -/
theorem itemsUpTo_join_fails {closing : Option Char} {tail : List Char}
    (hend : EndsItems closing tail) (before : List Char) {n opening : Nat} {hs : List Hash}
    (hn : 5 * (Item.join (e :: (done ++ e' :: more)) ++ tail).length + 3 ≤ n) :
    Fails (itemsUpTo ⟨source, env⟩ n closing forced opening)
      ⟨before, Item.join (e :: (done ++ e' :: more)) ++ tail⟩ hs (.malformed e'.fault
        (source.locate (Text.byteSize before +
          Text.byteSize (Item.join (e :: done) ++ e'.joint)))) := by
  obtain ⟨n, rfl⟩ : ∃ k, n = k + 1 := ⟨n - 1, by omega⟩
  rw [Evaluation.itemsUpTo]
  exact Gives.bind_fails (.scan (blanks_join hsilent hcalls hitems hend before))
    (items_fail hsilent hcalls hend e done e' more hitems hjoints hdone hjoined before n
      (by omega))

theorem Source.evaluateSequence_join_error
    (htext : source.text = String.ofList (Item.join (e :: (done ++ e' :: more)))) (inner : σ) :
    (source.evaluateSequence env forced inner).1 = .error (.malformed e'.fault
      (source.locate (Text.byteSize (Item.join (e :: done) ++ e'.joint)))) := by
  refine run_eq_error_of_fails (.get fun _ => .within hsilent ?_)
  rw [htext, String.toList_ofList]
  have hfail : Fails (itemsUpTo ⟨source, env⟩ _ none forced 0)
      ⟨[], Item.join (e :: (done ++ e' :: more)) ++ []⟩ [] _ :=
    itemsUpTo_join_fails hsilent hcalls hitems hjoints hdone hjoined .text []
      (Nat.le_add_right _ 2)
  rw [List.append_nil, Text.byteSize_nil, Nat.zero_add] at hfail
  exact hfail

theorem Source.evaluate_bracketed_join_error (htext : source.text =
      String.ofList ('[' :: (Item.join (e :: (done ++ e' :: more)) ++ [']']))) (inner : σ) :
    (source.evaluate env forced inner).1 = .error (.malformed e'.fault
      (source.locate (1 + Text.byteSize (Item.join (e :: done) ++ e'.joint)))) := by
  refine run_eq_error_of_fails ?_
  rw [htext, String.toList_ofList]
  exact single_bracketed_fail hsilent fun n hn =>
    itemsUpTo_join_fails hsilent hcalls hitems hjoints hdone hjoined .bracket ['['] (by omega)

end

/-- Items with joints between them are evaluated to what each of them is evaluated to on its own,
both as a text of their own and in brackets, if and only if each of them is separated from the one
before. The first that is not is refused where it begins. -/
theorem Source.evaluateSequence_items {σ : Type} {env : Environment σ}
    {f : FunctionCall → Except Error Value} (hsilent : env.IsSilent) (hcalls : env.ResolvesBy f)
    {forced : Bool} {items : List Item} (hitems : ∀ e ∈ items, env.IsItem forced e.text e.value)
    (hjoints : ∀ e ∈ items.tail, IsJoint e.joint e.comma) (plain bracketed : Source)
    (hplain : plain.text = String.ofList (Item.join items))
    (hbracketed : bracketed.text = String.ofList ('[' :: (Item.join items ++ [']']))) (inner : σ) :
    ((plain.evaluateSequence env forced inner).1 = .ok (items.map Item.value) ↔
      ∀ e ∈ items.tail, e.IsSeparated) ∧
    ((bracketed.evaluate env forced inner).1 = .ok (.sequence (items.map Item.value)) ↔
      ∀ e ∈ items.tail, e.IsSeparated) ∧
    ∀ e done e' more, items = e :: (done ++ e' :: more) → (∀ d ∈ done, d.IsSeparated) →
      ¬e'.IsSeparated →
        (plain.evaluateSequence env forced inner).1 = .error (.malformed e'.fault
          (plain.locate (Text.byteSize (Item.join (e :: done) ++ e'.joint)))) ∧
        (bracketed.evaluate env forced inner).1 = .error (.malformed e'.fault
          (bracketed.locate (1 + Text.byteSize (Item.join (e :: done) ++ e'.joint)))) := by
  refine and_assoc.1 ⟨?_, ?_⟩
  · by_cases hseparated : ∀ e ∈ items.tail, e.IsSeparated
    · have hvalue := evaluateSequence_join hsilent hcalls hitems hjoints hseparated hplain inner
      have hvalue' :=
        evaluate_bracketed_join hsilent hcalls hitems hjoints hseparated hbracketed inner
      exact ⟨iff_of_true hvalue hseparated, iff_of_true hvalue' hseparated⟩
    · obtain ⟨done, e', more, htail, hdone, hjoined⟩ := Item.exists_first_joined hseparated
      cases items with
      | nil => simp at htail
      | cons e es =>
        obtain rfl : es = done ++ e' :: more := htail
        have herror := evaluateSequence_join_error hsilent hcalls hitems hjoints hdone hjoined
          hplain inner
        have herror' := evaluate_bracketed_join_error hsilent hcalls hitems hjoints hdone hjoined
          hbracketed inner
        exact ⟨iff_of_false (by simp [herror]) hseparated,
          iff_of_false (by simp [herror']) hseparated⟩
  · rintro e done e' more rfl hdone hjoined
    exact ⟨evaluateSequence_join_error hsilent hcalls hitems hjoints hdone hjoined hplain inner,
      evaluate_bracketed_join_error hsilent hcalls hitems hjoints hdone hjoined hbracketed inner⟩

/-- A line break with a comment behind it separates two items, and a comma does so before a plus
sign. -/
theorem Source.evaluateSequence_items_plus :
    ((Source.mk "a\n#x\nb ,+1" none).evaluateSequence .unresolving false ()).1 =
        .ok [.string "a", .string "b", .integer 1] ∧
      ((Source.mk "[a\n#x\nb ,+1]" none).evaluate .unresolving false ()).1 =
        .ok (.sequence [.string "a", .string "b", .integer 1]) := by
  let items : List Item :=
    [⟨[], false, ['a'], .string "a"⟩, ⟨['\n', '#', 'x', '\n'], false, ['b'], .string "b"⟩,
      ⟨[' ', ','], true, ['+', '1'], .integer 1⟩]
  have hfirst : Environment.unresolving.IsItem false ['a'] (.string "a") :=
    { evaluates := ⟨(), by with_unfolding_all rfl⟩
      begins := rfl
      covers := ⟨_, 9, (), ⟨⟨['a'], []⟩, [], ()⟩, by with_unfolding_all rfl, rfl⟩ }
  have hsecond : Environment.unresolving.IsItem false ['b'] (.string "b") :=
    { evaluates := ⟨(), by with_unfolding_all rfl⟩
      begins := rfl
      covers := ⟨_, 9, (), ⟨⟨['b'], []⟩, [], ()⟩, by with_unfolding_all rfl, rfl⟩ }
  have hthird : Environment.unresolving.IsItem false ['+', '1'] (.integer 1) :=
    { evaluates := ⟨(), by with_unfolding_all rfl⟩
      begins := rfl
      covers := ⟨_, 9, (), ⟨⟨['1', '+'], []⟩, [], ()⟩, by with_unfolding_all rfl, rfl⟩ }
  have hitems : ∀ e ∈ items, Environment.unresolving.IsItem false e.text e.value := by
    simp only [items, List.forall_mem_cons]
    exact ⟨hfirst, hsecond, hthird, by simp⟩
  have hjoints : ∀ e ∈ items.tail, IsJoint e.joint e.comma := by
    simp only [items, List.tail_cons, List.forall_mem_cons]
    have hcomment : ∀ y ∈ ['x'], Text.isLineBreak y = false := List.forall_mem_singleton.2 rfl
    exact ⟨.lineBreak (.blank (by decide) (.lineComment hcomment (by decide) .nil)),
      .comma (.blank (by decide) .nil) .nil, by simp⟩
  have hseparated : ∀ e ∈ items.tail, e.IsSeparated := by
    simp only [items, List.tail_cons, List.forall_mem_cons]
    exact ⟨fun _ => by decide, fun h => by simp at h, by simp⟩
  obtain ⟨hplain, hbracketed, -⟩ := evaluateSequence_items Environment.unresolving_isSilent
    Environment.unresolving_resolvesBy hitems hjoints ⟨"a\n#x\nb ,+1", none⟩
    ⟨"[a\n#x\nb ,+1]", none⟩ rfl rfl ()
  exact ⟨hplain.2 hseparated, hbracketed.2 hseparated⟩

end TextualData
