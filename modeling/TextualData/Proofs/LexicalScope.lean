import Mathlib
import TextualData.Loader.Environment
import TextualData.Proofs.Observations

/-!
# The scope of variables

The environment of loaders keeps track of the visible hashes by the events that it is told. At every
callback this is what the scopes that are open at that moment say: a hash is visible if no sequence
and no parameter list around it is open. So `get` reads a variable from the innermost visible hash
that has it.
-/

namespace TextualData

namespace Scope

/-- Whether hashes inside of the scope are hidden. -/
def isBarrier : Scope → Bool
  | params _ => true
  | sequence => true
  | _ => false

/-- The number of hashes that scopes put under construction. -/
def hashCount (scopes : List Scope) : Nat :=
  (scopes.map hashes).sum

/-- The visible hashes of open scopes, each as the number of hashes around it. The scopes go from
the innermost outward. -/
def visibleDepths : List Scope → List Nat
  | [] => []
  | hash :: outer =>
    if outer.any isBarrier then visibleDepths outer else hashCount outer :: visibleDepths outer
  | _ :: outer => visibleDepths outer

/-- The visible ones of the hashes under construction, each of which belongs to an open scope. Both
lists go from the innermost outward. -/
def visibleHashes : List Scope → List Hash → List Hash
  | hash :: outer, h :: hs =>
    if outer.any isBarrier then visibleHashes outer hs else h :: visibleHashes outer hs
  | hash :: _, [] => []
  | _ :: outer, hs => visibleHashes outer hs
  | [], _ => []

@[simp] theorem hashCount_cons (scope : Scope) (scopes : List Scope) :
    hashCount (scope :: scopes) = scope.hashes + hashCount scopes :=
  rfl

theorem countP_isBarrier_eq_zero {scopes : List Scope} :
    scopes.countP isBarrier = 0 ↔ scopes.any isBarrier = false := by
  rw [List.countP_eq_zero, List.any_eq_false]

theorem lt_of_mem_visibleDepths {scopes : List Scope} {depth : Nat}
    (h : depth ∈ visibleDepths scopes) : depth < hashCount scopes := by
  induction scopes with
  | nil => simp [visibleDepths] at h
  | cons scope outer ih =>
    cases scope with
    | hash =>
      simp only [visibleDepths] at h
      split at h
      · exact Nat.lt_of_lt_of_le (ih h) (Nat.le_add_left _ 1)
      · rcases List.mem_cons.1 h with rfl | h
        · exact Nat.lt_add_of_pos_left Nat.one_pos
        · exact Nat.lt_of_lt_of_le (ih h) (Nat.le_add_left _ 1)
    | _ => exact Nat.lt_of_lt_of_le (ih h) (Nat.le_add_left _ 0)

/-- Outward, the depths go down. -/
theorem pairwise_visibleDepths (scopes : List Scope) :
    (visibleDepths scopes).Pairwise (· > ·) := by
  induction scopes with
  | nil => exact .nil
  | cons scope outer ih =>
    cases scope with
    | hash =>
      simp only [visibleDepths]
      split
      · exact ih
      · exact .cons (fun depth h => lt_of_mem_visibleDepths h) ih
    | _ => exact ih

/-- The hashes at the visible depths. -/
theorem filterMap_visibleDepths {scopes : List Scope} {hs : List Hash}
    (h : hs.length = hashCount scopes) :
    (visibleDepths scopes).filterMap (fun depth => hs.reverse[depth]?) =
      visibleHashes scopes hs := by
  induction scopes generalizing hs with
  | nil => rfl
  | cons scope outer ih =>
    cases scope with
    | hash =>
      rw [hashCount_cons, Nat.add_comm] at h
      obtain ⟨x, hs, rfl⟩ := List.exists_cons_of_length_eq_add_one h
      have hlength : hs.length = hashCount outer := Nat.succ.inj h
      -- The hash inside of them has no part in the depths of those outside.
      have houter : (visibleDepths outer).filterMap (fun depth => (x :: hs).reverse[depth]?) =
          visibleHashes outer hs := by
        rw [← ih hlength]
        refine List.filterMap_congr fun depth hdepth => ?_
        have hlt : depth < hs.reverse.length := by
          rw [List.length_reverse, hlength]
          exact lt_of_mem_visibleDepths hdepth
        rw [List.reverse_cons, List.getElem?_append_left hlt]
      simp only [visibleDepths, visibleHashes]
      by_cases hb : outer.any isBarrier
      · rw [if_pos hb, if_pos hb, houter]
      · rw [if_neg hb, if_neg hb, List.filterMap_cons, houter, ← hlength, List.reverse_cons,
          List.getElem?_append_right (by simp)]
        simp
    | _ => exact ih (h.trans (Nat.zero_add _))

end Scope

/-- A callback with a record fits the scopes that are open at it: its number of hashes is theirs,
with the hash that is entered, and the scope that is left is the innermost. -/
def CallbackRecord.Fits (scopes : List Scope) (r : CallbackRecord) : Prop :=
  match r.callback with
  | .event (.enter scope) _ => r.openHashes = Scope.hashCount (scope :: scopes)
  | .event (.leave scope) _ =>
    (∃ outer, scopes = scope :: outer) ∧ r.openHashes = Scope.hashCount scopes
  | .call _ _ => r.openHashes = Scope.hashCount scopes

theorem CallbackRecord.Fits.hashCount_le {scopes : List Scope} {r : CallbackRecord}
    (h : r.Fits scopes) : Scope.hashCount scopes ≤ r.openHashes := by
  obtain ⟨callback, position, openHashes⟩ := r
  cases callback with
  | call call answer => exact Nat.le_of_eq h.symm
  | event event answer =>
    cases event with
    | enter scope =>
      have hcount : openHashes = scope.hashes + Scope.hashCount scopes := h
      exact hcount ▸ Nat.le_add_left _ _
    | leave scope => exact Nat.le_of_eq h.2.symm

/-- Callbacks fit the scopes that are open at them, one after another. -/
def FitScopes : List Scope → List CallbackRecord → Prop
  | _, [] => True
  | scopes, r :: log => r.Fits scopes ∧ FitScopes (r.callback.scopes scopes) log

theorem fitScopes_append {scopes : List Scope} {log log' : List CallbackRecord} :
    FitScopes scopes (log ++ log') ↔
      FitScopes scopes log ∧ FitScopes (openScopes scopes log) log' := by
  induction log generalizing scopes with
  | nil => exact (and_iff_right trivial).symm
  | cons r log ih => exact (and_congr_right fun _ => ih).trans and_assoc.symm

/-- After bracketed callbacks, the same scopes are open as before. -/
theorem Bracketed.openScopes_eq {braced : Bool} {hashes : Nat} {log : List CallbackRecord}
    (h : Bracketed braced hashes log) (scopes : List Scope) : openScopes scopes log = scopes := by
  induction h generalizing scopes with
  | nil => rfl
  | call _ ih => exact ih scopes
  | failed _ ih => exact ih scopes
  | @scope _ _ _ _ scope _ _ inside later _ _ _ ihInside ihLater =>
    show openScopes (scope :: scopes) (inside ++ _ :: later) = scopes
    rw [openScopes_append, ihInside]
    exact ihLater scopes

theorem Bracketed.fitScopes {braced : Bool} {hashes : Nat} {log : List CallbackRecord}
    (h : Bracketed braced hashes log) {scopes : List Scope}
    (hscopes : hashes = Scope.hashCount scopes) :
    FitScopes scopes log := by
  induction h generalizing scopes with
  | nil => trivial
  | call _ ih => exact ⟨hscopes, ih hscopes⟩
  | failed _ ih => exact ⟨by simp [CallbackRecord.Fits, hscopes, Nat.add_comm], ih hscopes⟩
  | @scope _ hashes _ _ scope _ _ _ _ inner _ _ ihInside ihLater =>
    have hcount : hashes + scope.hashes = Scope.hashCount (scope :: scopes) := by
      rw [hscopes, Scope.hashCount_cons, Nat.add_comm]
    refine ⟨hcount, fitScopes_append.2 ⟨ihInside hcount, ?_⟩⟩
    rw [inner.openScopes_eq]
    exact ⟨⟨⟨scopes, rfl⟩, hcount⟩, ihLater hscopes⟩

/-- A callback to an environment that accepts all events and asks for nothing. -/
def Callback.IsPassive : Callback → Prop
  | event _ answer => answer = .ok none
  | call _ _ => True

namespace Visibility

/-- The visibility that belongs to open scopes. -/
def ofScopes (scopes : List Scope) : Visibility :=
  ⟨Scope.visibleDepths scopes, scopes.countP Scope.isBarrier⟩

/-- The visibility after a callback. -/
def follow (v : Visibility) (r : CallbackRecord) : Visibility :=
  match r.callback with
  | .event event _ => v.update event r.openHashes
  | .call _ _ => v

/-- The visibility after callbacks. -/
def after (v : Visibility) (log : List CallbackRecord) : Visibility :=
  log.foldl follow v

theorem after_concat (v : Visibility) (log : List CallbackRecord) (r : CallbackRecord) :
    v.after (log ++ [r]) = (v.after log).follow r :=
  List.foldl_append

/-- A scope that begins. -/
theorem update_enter (scopes : List Scope) (scope : Scope) :
    (ofScopes scopes).update (.enter scope) (Scope.hashCount (scope :: scopes)) =
      ofScopes (scope :: scopes) := by
  cases scope with
  | hash =>
    cases hb : scopes.any Scope.isBarrier with
    | false =>
      have hcount := Scope.countP_isBarrier_eq_zero.2 hb
      simp [ofScopes, update, hcount, hb, Scope.visibleDepths, Scope.isBarrier, Scope.hashes]
    | true =>
      have hcount : scopes.countP Scope.isBarrier ≠ 0 := fun h => by
        simp [Scope.countP_isBarrier_eq_zero.1 h] at hb
      simp [ofScopes, update, hcount, hb, Scope.visibleDepths, Scope.isBarrier]
  | _ => simp [ofScopes, update, Scope.visibleDepths, Scope.isBarrier, List.countP_cons]

/-- A scope that ends brings back what was visible before it. -/
theorem update_leave (v : Visibility) (scope : Scope) (openHashes openHashes' : Nat) :
    (v.update (.enter scope) openHashes).update (.leave scope) openHashes' = v := by
  obtain ⟨depths, barriers⟩ := v
  cases scope with
  | hash =>
    by_cases hb : barriers = 0
    · simp [update, hb]
    · simp [update, hb]
  | _ => simp [update]

/-- What one callback does to the visibility, it does to the open scopes. -/
theorem follow_ofScopes {scopes : List Scope} {r : CallbackRecord} (hfits : r.Fits scopes)
    (hpassive : r.callback.IsPassive) :
    (ofScopes scopes).follow r = ofScopes (r.callback.scopes scopes) := by
  obtain ⟨callback, position, openHashes⟩ := r
  cases callback with
  | call call answer => rfl
  | event event answer =>
    obtain rfl : answer = .ok none := hpassive
    cases event with
    | enter scope =>
      obtain rfl : openHashes = Scope.hashCount (scope :: scopes) := hfits
      exact update_enter scopes scope
    | leave scope =>
      obtain ⟨outer, rfl⟩ := hfits.1
      show (ofScopes (scope :: outer)).update (.leave scope) openHashes = ofScopes outer
      rw [← update_enter, update_leave]

theorem after_ofScopes {scopes : List Scope} {log : List CallbackRecord}
    (hfits : FitScopes scopes log) (hpassive : ∀ r ∈ log, r.callback.IsPassive) :
    (ofScopes scopes).after log = ofScopes (openScopes scopes log) := by
  induction log generalizing scopes with
  | nil => rfl
  | cons r log ih =>
    obtain ⟨hr, hlog⟩ := List.forall_mem_cons.1 hpassive
    show ((ofScopes scopes).follow r).after log = _
    rw [follow_ofScopes hfits.1 hr, ih hfits.2 hlog]
    rfl

end Visibility

namespace Loader

variable {setting : Setting} {nested : Nested}

theorem visibility_resolve (call : FunctionCall) (context : Context) (state : State) :
    (resolve setting nested call context state).2.visibility = state.visibility := by
  unfold resolve
  split <;> rfl

/-- The visibility follows the callbacks, which are passive. -/
theorem visibility_of_reaches {first state : State} {past : List (Observation State)}
    (h : (environmentWith setting nested).Reaches first past state) :
    state.visibility = first.visibility.after (past.reverse.map Observation.record) ∧
      ∀ o ∈ past, o.callback.IsPassive := by
  induction h with
  | refl => exact ⟨rfl, fun _ h => nomatch h⟩
  | call _ call context ih =>
    obtain ⟨hvisibility, hpassive⟩ := ih
    refine ⟨?_, List.forall_mem_cons.2 ⟨trivial, hpassive⟩⟩
    rw [List.reverse_cons, List.map_append, List.map_singleton, Visibility.after_concat,
      ← hvisibility]
    exact visibility_resolve call context _
  | event _ event context ih =>
    obtain ⟨hvisibility, hpassive⟩ := ih
    refine ⟨?_, List.forall_mem_cons.2 ⟨rfl, hpassive⟩⟩
    rw [List.reverse_cons, List.map_append, List.map_singleton, Visibility.after_concat,
      ← hvisibility]
    rfl

/-- What a call of `get` gives is decided by the visible hashes and the data. -/
theorem resolve_get (setting : Setting) (nested : Nested) (name : String) (params : List Value)
    (context : Context) (state : State) :
    (resolve setting nested ⟨variableFunction, .string name :: params⟩ context state).1 =
      (match ((state.visibility.hashes context.openHashes).findSome?
          (fun h : Hash => h.get? name)).or (setting.data.get? name) with
        | some v => Variable.follow 2 v params
        | none => .error (.noVariable name)).mapError .loading := by
  have hlookup : Variable.lookup? (state.visibility.hashes context.openHashes) setting.data name =
      ((state.visibility.hashes context.openHashes).findSome?
        (fun h : Hash => h.get? name)).or (setting.data.get? name) := by
    rw [Variable.lookup?, List.findSome?_append]
    simp
  rw [← hlookup]
  rfl

/-- At every callback, what the environment keeps track of is given by the open scopes; and `get`
reads the first variable of its name in the visible hashes, from the innermost outward, or else in
the data. -/
theorem get_reads_visible (task : Task) (reports : List LoadReport)
    {earlier later : List (Observation State)} {o : Observation State}
    (h : task.observations (environmentWith setting nested) ⟨{}, reports⟩ =
      earlier ++ o :: later) :
    let scopes := openScopes [] (earlier.map Observation.record)
    o.before.visibility.depths = Scope.visibleDepths scopes ∧
      o.before.visibility.depths.Pairwise (· > ·) ∧
      (∀ depth ∈ o.before.visibility.depths, depth < o.context.openHashes.length) ∧
      o.before.visibility.barriers = scopes.countP Scope.isBarrier ∧
      ∀ name params answer, o.callback = .call ⟨variableFunction, .string name :: params⟩ answer →
        o.context.openHashes.length = Scope.hashCount scopes ∧
          answer = (match ((Scope.visibleHashes scopes o.context.openHashes).findSome?
              (fun h : Hash => h.get? name)).or (setting.data.get? name) with
            | some v => Variable.follow 2 v params
            | none => .error (.noVariable name)).mapError .loading := by
  intro scopes
  have hreaches := task.reaches_observations (environmentWith setting nested) ⟨{}, reports⟩
  rw [h, List.reverse_append, List.reverse_cons, List.append_assoc, List.singleton_append]
    at hreaches
  obtain ⟨t, hreaches⟩ := hreaches.exists_upTo
  obtain ⟨hvisibility, hpassive⟩ := visibility_of_reaches hreaches.before
  rw [List.reverse_reverse] at hvisibility
  have hfits : FitScopes [] (task.callbacks (environmentWith setting nested) ⟨{}, reports⟩) :=
    (task.callbacks_bracketed _ _).fitScopes rfl
  rw [← task.map_record_observations, h, List.map_append, fitScopes_append] at hfits
  obtain ⟨hbefore, hhere, -⟩ := hfits
  have hscopes : o.before.visibility = .ofScopes scopes := by
    rw [hvisibility]
    refine Visibility.after_ofScopes hbefore fun r hr => ?_
    obtain ⟨o', ho', rfl⟩ := List.mem_map.1 hr
    exact hpassive o' (List.mem_reverse.2 ho')
  have hlt : ∀ depth ∈ Scope.visibleDepths scopes, depth < o.context.openHashes.length :=
    fun depth hdepth =>
      Nat.lt_of_lt_of_le (Scope.lt_of_mem_visibleDepths hdepth) hhere.hashCount_le
  rw [hscopes]
  refine ⟨rfl, Scope.pairwise_visibleDepths scopes, hlt, rfl, fun name params answer ho => ?_⟩
  have hlength : o.context.openHashes.length = Scope.hashCount scopes := by
    simpa only [CallbackRecord.Fits, Observation.record, ho] using hhere
  refine ⟨hlength, ?_⟩
  rw [hreaches.answer ho, ← Scope.filterMap_visibleDepths hlength]
  refine (resolve_get setting nested name params o.context o.before).trans ?_
  rw [hscopes]
  rfl

/-- What is observed of a text with a hash inside of a sequence. -/
def hiddenHash : List (Observation State) :=
  (Task.text ⟨"a:x,b:[\x7ba:y,c:get(a)\x7d]", none⟩ .hash false).observations
    (environmentWith ⟨⟨fun _ => .error .notFound, id⟩, {}, [], []⟩ .refusing) ⟨{}, []⟩

/-- The call in that hash. -/
def readsOuter : Observation State where
  callback := .call ⟨variableFunction, [.string "a"]⟩ (.ok (.string "x"))
  context := ⟨⟨"a:x,b:[\x7ba:y,c:get(a)\x7d]", none⟩, 20,
    [[("a", .string "y")], [("a", .string "x")]]⟩
  before := ⟨⟨[0], 1⟩, []⟩

/-- The hash that the call stands in is passed over. -/
theorem get_reads_outer :
    hiddenHash = hiddenHash.take 11 ++ readsOuter :: hiddenHash.drop 12 ∧
      readsOuter.before.visibility.depths =
        Scope.visibleDepths (openScopes [] ((hiddenHash.take 11).map Observation.record)) ∧
      Scope.visibleHashes (openScopes [] ((hiddenHash.take 11).map Observation.record))
        readsOuter.context.openHashes = [[("a", .string "x")]] := by
  have hdrop : hiddenHash.drop 11 = readsOuter :: hiddenHash.drop 12 := by cbv
  have h : hiddenHash = hiddenHash.take 11 ++ readsOuter :: hiddenHash.drop 12 := by
    rw [← hdrop, List.take_append_drop]
  exact ⟨h, (get_reads_visible _ [] h).1, by cbv⟩

end Loader

end TextualData
