import TextualData.Proofs.Reading
import TextualData.Proofs.Separation

/-!
# Evaluation follows the reading relation

With a silent environment every evaluation that gives a value reads the phrase that denotes it, and
leaves the hashes under construction as the phrase says. The proof goes by the bound on the
recursion: `FollowsReading` collects what holds of all functions at one bound, and each function at
the next bound is a lemma.
-/

namespace TextualData
namespace Evaluation

variable {σ : Type} {setting : Setting σ} {resolves : FunctionCall → Value → Prop} {n : Nat}

/-- What evaluation with a given bound reads. -/
structure FollowsReading (setting : Setting σ) (resolves : FunctionCall → Value → Prop)
    (n : Nat) : Prop where
  expression : ∀ {forced inKey s v t}, expression setting n forced inKey s = .ok v t →
    Reads resolves (.value forced inKey v) s.cursor t.cursor ∧ t.openHashes = s.openHashes
  hash : ∀ {forced inKey s v t}, hash setting n forced s = .ok v t →
    s.cursor.peek? = some '{' →
    Reads resolves (.value forced inKey v) s.cursor t.cursor ∧ t.openHashes = s.openHashes
  sequence : ∀ {forced inKey s v t}, sequence setting n forced s = .ok v t →
    s.cursor.peek? = some '[' →
    Reads resolves (.value forced inKey v) s.cursor t.cursor ∧ t.openHashes = s.openHashes
  unquoted : ∀ {forced inKey s v t}, unquoted setting n forced inKey s = .ok v t →
    Literal.rawQuotation? s.cursor.rest = none →
    Reads resolves (.value forced inKey v) s.cursor t.cursor ∧ t.openHashes = s.openHashes
  itemsUpTo : ∀ {closing forced opening s vs t},
    itemsUpTo setting n closing forced opening s = .ok vs t → ∃ broken c,
      Scan.blanks s.cursor = .ok broken c ∧ Reads resolves (.items closing forced vs) c t.cursor ∧
      t.openHashes = s.openHashes
  items : ∀ {closing forced opening s vs t},
    items setting n closing forced opening s = .ok vs t →
    Reads resolves (.items closing forced vs) s.cursor t.cursor ∧ t.openHashes = s.openHashes
  entriesUpTo : ∀ {closing forced opening s u t old hs},
    entriesUpTo setting n closing forced opening s = .ok u t → s.openHashes = old :: hs →
    ∃ broken c new, Scan.blanks s.cursor = .ok broken c ∧
      Reads resolves (.entries closing forced old new) c t.cursor ∧ t.openHashes = new :: hs
  entries : ∀ {closing forced opening s u t old hs},
    entries setting n closing forced opening s = .ok u t → s.openHashes = old :: hs →
    ∃ new, Reads resolves (.entries closing forced old new) s.cursor t.cursor ∧
      t.openHashes = new :: hs
  entry : ∀ {closing forced s separator t old hs},
    entry setting n closing forced s = .ok separator t → s.openHashes = old :: hs →
    s.cursor.BeginsItem closing →
    ∃ mid, t.openHashes = mid :: hs ∧ (separator = .closing → t.cursor.peek? = closing) ∧
      ∀ {new c}, Reads resolves (.entries closing forced mid new) t.cursor c →
        Reads resolves (.entries closing forced old new) s.cursor c
  keyValue : ∀ {name start forced s u t old hs},
    keyValue setting n name start forced s = .ok u t → s.openHashes = old :: hs →
    s.cursor.rest ≠ [] ∧ ∃ v, Reads resolves (.value forced false v) s.cursor t.cursor ∧
      t.openHashes = old.insert name v :: hs

theorem FollowsReading.zero : FollowsReading setting resolves 0 where
  expression h := by simp [Evaluation.expression, refuse_ne_ok] at h
  hash h := by simp [Evaluation.hash, refuse_ne_ok] at h
  sequence h := by simp [Evaluation.sequence, refuse_ne_ok] at h
  unquoted h := by simp [Evaluation.unquoted, refuse_ne_ok] at h
  itemsUpTo h := by simp [Evaluation.itemsUpTo, refuse_ne_ok] at h
  items h := by simp [Evaluation.items, refuse_ne_ok] at h
  entriesUpTo h := by simp [Evaluation.entriesUpTo, refuse_ne_ok] at h
  entries h := by simp [Evaluation.entries, refuse_ne_ok] at h
  entry h := by simp [Evaluation.entry, refuse_ne_ok] at h
  keyValue h := by simp [Evaluation.keyValue, refuse_ne_ok] at h

theorem expression_succ (ih : FollowsReading setting resolves n) {forced inKey : Bool}
    {s t : State σ} {v : Value} (h : expression setting (n + 1) forced inKey s = .ok v t) :
    Reads resolves (.value forced inKey v) s.cursor t.cursor ∧ t.openHashes = s.openHashes := by
  rw [Evaluation.expression, get_bind_run] at h
  cases hrest : s.cursor.rest with
  | nil =>
    rw [hrest] at h
    exact absurd h refuse_ne_ok
  | cons x rest =>
    rw [hrest] at h
    have hpeek : s.cursor.peek? = some x := by simp [Cursor.peek?, hrest]
    simp only [ite_run] at h
    split at h
    · next hx => exact ih.hash h (hpeek.trans (congrArg some hx))
    · split at h
      · next hx => exact ih.sequence h (hpeek.trans (congrArg some hx))
      · split at h
        · next hq =>
          obtain ⟨l, c, hl, h⟩ := scan_bind_eq_ok.1 h
          obtain ⟨rfl, rfl⟩ := pure_eq_ok.1 h
          exact ⟨.quoted hpeek hq hl, rfl⟩
        · rcases hraw : Literal.rawQuotation? (x :: rest) with _ | quotation
          · rw [hraw] at h
            exact ih.unquoted h (hrest ▸ hraw)
          · rw [hraw] at h
            obtain ⟨l, c, hl, h⟩ := scan_bind_eq_ok.1 h
            obtain ⟨rfl, rfl⟩ := pure_eq_ok.1 h
            exact ⟨.raw (hrest ▸ hraw) hl, rfl⟩

theorem hash_succ (hsilent : setting.environment.IsSilent)
    (ih : FollowsReading setting resolves n) {forced inKey : Bool} {s t : State σ} {v : Value}
    (h : hash setting (n + 1) forced s = .ok v t) (hpeek : s.cursor.peek? = some '{') :
    Reads resolves (.value forced inKey v) s.cursor t.cursor ∧ t.openHashes = s.openHashes := by
  rw [Evaluation.hash, get_bind_run, next_bind_run] at h
  obtain ⟨⟨kept, es⟩, u, hbuild, h⟩ := bind_eq_ok.1 h
  obtain ⟨w, hbody, hes, rfl⟩ := buildHash_eq_ok.1 hbuild
  rw [position_bind_run] at hbody
  obtain ⟨inner, w, inner', hinside, rfl⟩ := within_of_isSilent hsilent hbody
  simp only [Option.isNone_none, if_true] at hinside
  obtain ⟨_, _, hentries, hinside⟩ := bind_eq_ok.1 hinside
  obtain ⟨rfl, rfl⟩ := pure_eq_ok.1 hinside
  obtain ⟨broken, c, new, hb, hr, ho⟩ := ih.entriesUpTo hentries rfl
  simp only [next_bind_run] at h
  obtain ⟨rfl, rfl⟩ := pure_eq_ok.1 h
  simp only [ho, List.headD_cons] at hes
  subst hes
  exact ⟨.hash hpeek hb hr, by simp [ho]⟩

theorem sequence_succ (hsilent : setting.environment.IsSilent)
    (ih : FollowsReading setting resolves n) {forced inKey : Bool} {s t : State σ} {v : Value}
    (h : sequence setting (n + 1) forced s = .ok v t) (hpeek : s.cursor.peek? = some '[') :
    Reads resolves (.value forced inKey v) s.cursor t.cursor ∧ t.openHashes = s.openHashes := by
  rw [Evaluation.sequence, position_bind_run, next_bind_run, position_bind_run] at h
  obtain ⟨items, _, hw, h⟩ := bind_eq_ok.1 h
  obtain ⟨inner, u, inner', hitems, rfl⟩ := within_of_isSilent hsilent hw
  obtain ⟨broken, c, hb, hr, ho⟩ := ih.itemsUpTo hitems
  rw [next_bind_run] at h
  obtain ⟨rfl, rfl⟩ := pure_eq_ok.1 h
  exact ⟨.sequence hpeek hb hr, ho⟩

theorem unquoted_succ (hsilent : setting.environment.IsSilent)
    (hresolves : setting.environment.ResolvesWithin resolves)
    (ih : FollowsReading setting resolves n) {forced inKey : Bool} {s t : State σ} {v : Value}
    (h : unquoted setting (n + 1) forced inKey s = .ok v t)
    (noRaw : Literal.rawQuotation? s.cursor.rest = none) :
    Reads resolves (.value forced inKey v) s.cursor t.cursor ∧ t.openHashes = s.openHashes := by
  rw [Evaluation.unquoted, position_bind_run] at h
  obtain ⟨l, _, htoken, h⟩ := scan_bind_eq_ok.1 h
  obtain ⟨rest, hsplit, rfl⟩ := Scan.token_eq_ok.1 htoken
  obtain ⟨nonempty, h⟩ := ite_refuse_eq_ok.1 h
  simp only [get_bind_run] at h
  obtain ⟨broken, c, hb, h⟩ := scan_bind_eq_ok.1 h
  rw [get_bind_run] at h
  simp only [ite_run] at h
  split at h
  · next hopens =>
    rw [position_bind_run, next_bind_run] at h
    obtain ⟨params, _, hw, h⟩ := bind_eq_ok.1 h
    obtain ⟨inner, u, inner', hitems, rfl⟩ := within_of_isSilent hsilent hw
    obtain ⟨broken', c', hb', hr, ho⟩ := ih.itemsUpTo hitems
    rw [next_bind_run] at h
    cases inKey with
    | true =>
      obtain ⟨rfl, rfl⟩ := pure_eq_ok.1 h
      exact ⟨.keyCall noRaw hsplit (by simpa using nonempty) hb hopens hb' hr, ho⟩
    | false =>
      obtain ⟨hv, rfl⟩ := resolve_eq_ok.1 h
      exact ⟨.call noRaw hsplit (by simpa using nonempty) hb hopens hb' hr (hresolves _ _ _ _ hv),
        ho⟩
  · next hno =>
    obtain ⟨_, _, hm, h⟩ := bind_eq_ok.1 h
    obtain rfl := modify_eq_ok.1 hm
    obtain ⟨rfl, rfl⟩ := pure_eq_ok.1 h
    exact ⟨.token noRaw hsplit (by simpa using nonempty) hb hno, rfl⟩

theorem itemsUpTo_succ (ih : FollowsReading setting resolves n) {closing : Option Char}
    {forced : Bool} {opening : Nat} {s t : State σ} {vs : List Value}
    (h : itemsUpTo setting (n + 1) closing forced opening s = .ok vs t) :
    ∃ broken c, Scan.blanks s.cursor = .ok broken c ∧
      Reads resolves (.items closing forced vs) c t.cursor ∧ t.openHashes = s.openHashes := by
  rw [Evaluation.itemsUpTo] at h
  obtain ⟨broken, c, hb, h⟩ := scan_bind_eq_ok.1 h
  obtain ⟨hr, ho⟩ := ih.items h
  exact ⟨broken, c, hb, hr, ho⟩

theorem items_succ (ih : FollowsReading setting resolves n) {closing : Option Char}
    {forced : Bool} {opening : Nat} {s t : State σ} {vs : List Value}
    (h : items setting (n + 1) closing forced opening s = .ok vs t) :
    Reads resolves (.items closing forced vs) s.cursor t.cursor ∧
      t.openHashes = s.openHashes := by
  rw [Evaluation.items, get_bind_run] at h
  rcases hpeek : s.cursor.peek? with _ | x
  · rw [hpeek] at h
    rcases closing with _ | closing
    · obtain ⟨rfl, rfl⟩ := pure_eq_ok.1 h
      exact ⟨.noItems hpeek, rfl⟩
    · exact absurd h refuseAt_ne_ok
  · rw [hpeek] at h
    simp only [ite_run] at h
    split at h
    · next hc =>
      obtain ⟨rfl, rfl⟩ := pure_eq_ok.1 h
      exact ⟨.noItems (hpeek.trans hc.symm), rfl⟩
    · next hc =>
      split at h
      · exact absurd h refuse_ne_ok
      · next hcomma =>
        obtain ⟨v, u, hv, h⟩ := bind_eq_ok.1 h
        obtain ⟨hfirst, hopen⟩ := ih.expression hv
        obtain ⟨separator, c, hsep, h⟩ := scan_bind_eq_ok.1 h
        have begins : s.cursor.BeginsItem closing := ⟨x, hpeek, hc, hcomma⟩
        simp only [ite_run] at h
        split at h
        · next hclosing =>
          subst hclosing
          obtain ⟨rfl, rfl⟩ := pure_eq_ok.1 h
          exact ⟨.item begins hfirst hsep (.noItems (peek?_of_separator_closing hsep)), hopen⟩
        · obtain ⟨vs, w, hvs, h⟩ := bind_eq_ok.1 h
          obtain ⟨rfl, rfl⟩ := pure_eq_ok.1 h
          obtain ⟨hmore, ho⟩ := ih.items hvs
          exact ⟨.item begins hfirst hsep hmore, ho.trans hopen⟩

theorem entriesUpTo_succ (ih : FollowsReading setting resolves n) {closing : Option Char}
    {forced : Bool} {opening : Nat} {s t : State σ} {u : Unit} {old : Hash} {hs : List Hash}
    (h : entriesUpTo setting (n + 1) closing forced opening s = .ok u t)
    (hopen : s.openHashes = old :: hs) :
    ∃ broken c new, Scan.blanks s.cursor = .ok broken c ∧
      Reads resolves (.entries closing forced old new) c t.cursor ∧ t.openHashes = new :: hs := by
  rw [Evaluation.entriesUpTo] at h
  obtain ⟨broken, c, hb, h⟩ := scan_bind_eq_ok.1 h
  obtain ⟨new, hr, ho⟩ := ih.entries h hopen
  exact ⟨broken, c, new, hb, hr, ho⟩

theorem entries_succ (ih : FollowsReading setting resolves n) {closing : Option Char}
    {forced : Bool} {opening : Nat} {s t : State σ} {u : Unit} {old : Hash} {hs : List Hash}
    (h : entries setting (n + 1) closing forced opening s = .ok u t)
    (hopen : s.openHashes = old :: hs) :
    ∃ new, Reads resolves (.entries closing forced old new) s.cursor t.cursor ∧
      t.openHashes = new :: hs := by
  rw [Evaluation.entries, get_bind_run] at h
  rcases hpeek : s.cursor.peek? with _ | x
  · rw [hpeek] at h
    rcases closing with _ | closing
    · obtain ⟨_, rfl⟩ := pure_eq_ok.1 h
      exact ⟨old, .noEntries hpeek, hopen⟩
    · exact absurd h refuseAt_ne_ok
  · rw [hpeek] at h
    simp only [ite_run] at h
    split at h
    · next hc =>
      obtain ⟨_, rfl⟩ := pure_eq_ok.1 h
      exact ⟨old, .noEntries (hpeek.trans hc.symm), hopen⟩
    · next hc =>
      split at h
      · exact absurd h refuse_ne_ok
      · next hcomma =>
        obtain ⟨separator, w, he, h⟩ := bind_eq_ok.1 h
        obtain ⟨mid, hmid, hcloses, continuing⟩ := ih.entry he hopen ⟨x, hpeek, hc, hcomma⟩
        simp only [ite_run] at h
        split at h
        · next hclosing =>
          obtain ⟨_, rfl⟩ := pure_eq_ok.1 h
          exact ⟨mid, continuing (.noEntries (hcloses hclosing)), hmid⟩
        · obtain ⟨new, hmore, ho⟩ := ih.entries h hmid
          exact ⟨new, continuing hmore, ho⟩

/-- What the key of an entry means, after its call has been resolved. -/
theorem resolveKey_eq_ok (hresolves : setting.environment.ResolvesWithin resolves)
    {key key' : Value} {start : Nat} {fromCall unresolved : Bool} {s t : State σ}
    (h : resolveKey setting key start s = .ok (key', fromCall, unresolved) t) :
    KeyMeans resolves key key' fromCall ∧ t.cursor = s.cursor ∧ t.openHashes = s.openHashes := by
  unfold resolveKey at h
  split at h
  · obtain ⟨v, _, hr, h⟩ := bind_eq_ok.1 h
    obtain ⟨hv, rfl⟩ := resolve_eq_ok.1 hr
    obtain ⟨he, rfl⟩ := pure_eq_ok.1 h
    simp only [Prod.mk.injEq] at he
    obtain ⟨rfl, rfl, _⟩ := he
    exact ⟨.call (hresolves _ _ _ _ hv), rfl, rfl⟩
  · next hplain =>
    obtain ⟨he, rfl⟩ := pure_eq_ok.1 h
    simp only [Prod.mk.injEq] at he
    obtain ⟨rfl, rfl, _⟩ := he
    exact ⟨.plain fun name params hkey => hplain name params hkey, rfl, rfl⟩

theorem keyName_eq_ok {key : Value} {unresolved : Bool} {start : Nat} {s t : State σ}
    {name : String} (h : keyName setting key unresolved start s = .ok name t) :
    key = .string name ∧ s = t := by
  unfold keyName at h
  split at h
  · obtain ⟨rfl, rfl⟩ := pure_eq_ok.1 h
    exact ⟨rfl, rfl⟩
  · simp only [ite_run] at h
    split at h <;> exact absurd h fail_ne_ok

/-- The store of an entry without a colon changes the innermost hash, and that only. -/
theorem storeBare_eq_ok (hsilent : setting.environment.IsSilent) {key : Value}
    {fromCall unresolved : Bool} {start : Nat} {s t : State σ} {u : Unit} {old : Hash}
    {hs : List Hash} (h : storeBare setting key fromCall unresolved start s = .ok u t)
    (hopen : s.openHashes = old :: hs) : t.cursor = s.cursor ∧
      ((∃ name, key = .string name ∧ fromCall = false ∧
        t.openHashes = old.insert name (.boolean true) :: hs) ∨
      ∃ es, key = .hash es ∧ t.openHashes = old.merge es :: hs) := by
  unfold storeBare at h
  split at h
  · next name =>
    obtain ⟨inner, w, inner', hput, rfl⟩ := within_of_isSilent hsilent h
    simp only [reduceCtorEq, if_false] at hput
    have hopen' : ({ s with inner := inner } : State σ).openHashes = old :: hs := hopen
    obtain rfl := (put_eq_ok hopen').1 hput
    exact ⟨rfl, .inl ⟨name, rfl, rfl, rfl⟩⟩
  · next es =>
    obtain rfl := modify_eq_ok.1 h
    rw [hopen]
    exact ⟨rfl, .inr ⟨es, rfl, rfl⟩⟩
  · exact absurd h fail_ne_ok
  · simp only [ite_run] at h
    split at h <;> exact absurd h fail_ne_ok

theorem entry_succ (hsilent : setting.environment.IsSilent)
    (hresolves : setting.environment.ResolvesWithin resolves)
    (ih : FollowsReading setting resolves n) {closing : Option Char} {forced : Bool}
    {s t : State σ} {separator : Separator} {old : Hash} {hs : List Hash}
    (h : entry setting (n + 1) closing forced s = .ok separator t)
    (hopen : s.openHashes = old :: hs) (begins : s.cursor.BeginsItem closing) :
    ∃ mid, t.openHashes = mid :: hs ∧ (separator = .closing → t.cursor.peek? = closing) ∧
      ∀ {new c}, Reads resolves (.entries closing forced mid new) t.cursor c →
        Reads resolves (.entries closing forced old new) s.cursor c := by
  rw [Evaluation.entry, position_bind_run] at h
  obtain ⟨key, s₁, hkey, h⟩ := bind_eq_ok.1 h
  obtain ⟨hfirst, ho₁⟩ := ih.expression hkey
  obtain ⟨⟨key', fromCall, unresolved⟩, s₂, hres, h⟩ := bind_eq_ok.1 h
  obtain ⟨hmeans, hc₂, ho₂⟩ := resolveKey_eq_ok hresolves hres
  obtain ⟨sep, c, hsep, h⟩ := scan_bind_eq_ok.1 h
  have hopen₂ : s₂.openHashes = old :: hs := ho₂.trans (ho₁.trans hopen)
  rw [hc₂] at hsep
  simp only [ite_run] at h
  split at h
  · next hcolon =>
    subst hcolon
    obtain ⟨name, _, hname, h⟩ := bind_eq_ok.1 h
    obtain ⟨rfl, rfl⟩ := keyName_eq_ok hname
    obtain ⟨_, s₃, hvalue, h⟩ := bind_eq_ok.1 h
    obtain ⟨hasValue, v, hsecond, ho₃⟩ := ih.keyValue hvalue hopen₂
    obtain ⟨c', hsep', rfl⟩ := scan_eq_ok.1 h
    refine ⟨old.insert name v, ho₃, ?_, ?_⟩
    · rintro rfl
      exact peek?_of_separator_closing hsep'
    · exact fun hmore => .pair begins hfirst hmeans hsep hasValue hsecond hsep' hmore
  · next hcolon =>
    obtain ⟨_, s₃, hstore, h⟩ := bind_eq_ok.1 h
    obtain ⟨rfl, rfl⟩ := pure_eq_ok.1 h
    obtain ⟨hc₃, hstored⟩ := storeBare_eq_ok hsilent hstore hopen₂
    have hcloses : sep = .closing → s₃.cursor.peek? = closing := by
      rintro rfl
      rw [hc₃]
      exact peek?_of_separator_closing hsep
    rcases hstored with ⟨name, rfl, rfl, ho₃⟩ | ⟨es, rfl, ho₃⟩
    · refine ⟨_, ho₃, hcloses, fun hmore => ?_⟩
      obtain rfl := hmeans.eq_of_plain
      rw [hc₃] at hmore
      exact .flag begins hfirst hsep hcolon hmore
    · refine ⟨_, ho₃, hcloses, fun hmore => ?_⟩
      rw [hc₃] at hmore
      exact .merge begins hfirst hmeans hsep hcolon hmore

theorem keyValue_succ (hsilent : setting.environment.IsSilent)
    (ih : FollowsReading setting resolves n) {name : String} {start : Nat} {forced : Bool}
    {s t : State σ} {u : Unit} {old : Hash} {hs : List Hash}
    (h : keyValue setting (n + 1) name start forced s = .ok u t)
    (hopen : s.openHashes = old :: hs) :
    s.cursor.rest ≠ [] ∧ ∃ v, Reads resolves (.value forced false v) s.cursor t.cursor ∧
      t.openHashes = old.insert name v :: hs := by
  rw [Evaluation.keyValue, get_bind_run] at h
  obtain ⟨hrest, h⟩ := ite_refuseAt_eq_ok.1 h
  obtain ⟨inner, w, inner', hinside, rfl⟩ := within_of_isSilent hsilent h
  obtain ⟨v, s₁, hv, hput⟩ := bind_eq_ok.1 hinside
  obtain ⟨hread, ho⟩ := ih.expression hv
  obtain rfl := (put_eq_ok (ho.trans hopen)).1 hput
  exact ⟨by simpa using hrest, v, hread, rfl⟩

/-- Evaluation with a silent environment follows the reading relation, whatever the bound. -/
theorem followsReading (hsilent : setting.environment.IsSilent)
    (hresolves : setting.environment.ResolvesWithin resolves) :
    ∀ n, FollowsReading setting resolves n
  | 0 => .zero
  | n + 1 =>
    have ih := followsReading hsilent hresolves n
    { expression := expression_succ ih
      hash := hash_succ hsilent ih
      sequence := sequence_succ hsilent ih
      unquoted := unquoted_succ hsilent hresolves ih
      itemsUpTo := itemsUpTo_succ ih
      items := items_succ ih
      entriesUpTo := entriesUpTo_succ ih
      entries := entries_succ ih
      entry := entry_succ hsilent hresolves ih
      keyValue := keyValue_succ hsilent ih }

end Evaluation
end TextualData
