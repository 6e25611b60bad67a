import TextualData.Proofs.ReadingComplete

/-!
# Whole texts

What a window denotes as one expression, as the entries of a hash and as the items of a sequence,
and that evaluation with a silent environment gives exactly that. `Unresolved` says what calls give
in the environment that leaves them unresolved.
-/

namespace TextualData

namespace Cursor

variable (resolves : FunctionCall → Value → Prop) (forced : Bool)

/-- What is left of the window is one expression, which blanks may surround. -/
def ReadsAsValue (c : Cursor) (v : Value) : Prop :=
  ∃ broken c₁ c₂ broken' c₃, Scan.blanks c = .ok broken c₁ ∧
    Reads resolves (.value forced false v) c₁ c₂ ∧ Scan.blanks c₂ = .ok broken' c₃ ∧ c₃.rest = []

/-- What is left of the window are the entries of a hash, without braces. -/
def ReadsAsHash (c : Cursor) (h : Hash) : Prop :=
  ∃ broken c₁ c₂, Scan.blanks c = .ok broken c₁ ∧
    Reads resolves (.entries none forced [] h) c₁ c₂

/-- What is left of the window are the items of a sequence, without brackets. -/
def ReadsAsSequence (c : Cursor) (vs : List Value) : Prop :=
  ∃ broken c₁ c₂, Scan.blanks c = .ok broken c₁ ∧ Reads resolves (.items none forced vs) c₁ c₂

end Cursor

/-- A call gives itself back. -/
def Unresolved (call : FunctionCall) (v : Value) : Prop :=
  v = call.toValue

theorem Environment.unresolving_resolvesWithin :
    Environment.unresolving.ResolvesWithin Unresolved := by
  intro call _ _ v h
  exact (Except.ok.inj h).symm

theorem Environment.unresolving_resolves : Environment.unresolving.Resolves Unresolved := by
  rintro call _ rfl _ _
  rfl

open Evaluation in
/-- Where an environment gives each call one result, an expression reads in one way only. -/
theorem Reads.unique_of_resolves {resolves : FunctionCall → Value → Prop} {env : Environment Unit}
    (hsilent : env.IsSilent) (hresolves : env.Resolves resolves) {forced inKey : Bool} {v w : Value}
    {c c' d : Cursor} (h : Reads resolves (.value forced inKey v) c c')
    (h' : Reads resolves (.value forced inKey w) c d) : v = w ∧ c' = d := by
  let setting : Setting Unit := ⟨⟨"", none⟩, env⟩
  have hgives : Yields setting (.value forced inKey v) c c' := yields_of_reads hsilent hresolves h
  have hgives' : Yields setting (.value forced inKey w) c d := yields_of_reads hsilent hresolves h'
  obtain ⟨_, hrun⟩ := hgives _ [] (Nat.le_refl _) ()
  obtain ⟨_, hrun'⟩ := hgives' _ [] (Nat.le_refl _) ()
  obtain ⟨rfl, hstate⟩ := EStateM.Result.ok.inj (hrun.symm.trans hrun')
  exact ⟨rfl, congrArg StateAt.cursor hstate⟩

/-- An expression with calls that are left unresolved reads in one way only. -/
theorem Reads.unique {forced inKey : Bool} {v w : Value} {c c' d : Cursor}
    (h : Reads Unresolved (.value forced inKey v) c c')
    (h' : Reads Unresolved (.value forced inKey w) c d) : v = w ∧ c' = d :=
  h.unique_of_resolves Environment.unresolving_isSilent Environment.unresolving_resolves h'

namespace Evaluation

variable {σ α : Type} {setting : Setting σ} {resolves : FunctionCall → Value → Prop}
  {forced : Bool} {c : Cursor} {inner : σ}

theorem run_eq_ok {m : EvalM σ α} {a : α} :
    (run m c inner).1 = .ok a ↔ ∃ t, m ⟨c, [], inner⟩ = .ok a t := by
  unfold run
  cases m ⟨c, [], inner⟩ <;> simp

theorem run_eq_ok_of_gives {m : EvalM σ α} {a : α} {d : Cursor} (h : Gives m c [] a d []) :
    (run m c inner).1 = .ok a := by
  obtain ⟨inner', hrun⟩ := h inner
  exact run_eq_ok.2 ⟨_, hrun⟩

/-- One expression between blanks, and nothing after it. -/
theorem single_of_yields {v : Value} {c₁ c₂ c₃ : Cursor} {broken broken' : Bool}
    (hb : Scan.blanks c = .ok broken c₁) (hv : Yields setting (.value forced false v) c₁ c₂)
    (hless : c₂.rest.length < c₁.rest.length) (hb' : Scan.blanks c₂ = .ok broken' c₃)
    (hend : c₃.rest = []) : (run (single setting forced) c inner).1 = .ok v := by
  have hlen := (Scan.leads_of_blanks hb).length_le
  have hrest : ¬c₁.rest.isEmpty := by
    rw [List.isEmpty_iff]
    intro h
    simp [h] at hless
  refine run_eq_ok_of_gives (d := c₃) (.get fun _ => .bind (.scan hb) (.get fun _ => ?_))
  refine .ite_false hrest (.bind (hv _ _ ?_) ?_)
  · simp only [bound]
    omega
  · refine .bind (.scan hb') (.get fun _ => ?_)
    exact .ite_true (by simp [hend]) .pure

section
variable (hsilent : setting.environment.IsSilent)
  (hwithin : setting.environment.ResolvesWithin resolves)
  (hresolves : setting.environment.Resolves resolves)
include hsilent hwithin hresolves

theorem single_eq_ok {v : Value} :
    (run (single setting forced) c inner).1 = .ok v ↔ c.ReadsAsValue resolves forced v := by
  constructor
  · intro h
    obtain ⟨_, h⟩ := run_eq_ok.1 h
    rw [single, get_bind_run] at h
    obtain ⟨broken, c₁, hb, h⟩ := scan_bind_eq_ok.1 h
    rw [get_bind_run] at h
    obtain ⟨_, h⟩ := ite_refuse_eq_ok.1 h
    obtain ⟨v, s₂, hv, h⟩ := bind_eq_ok.1 h
    obtain ⟨hread, _⟩ := (followsReading hsilent hwithin _).expression hv
    obtain ⟨broken', c₃, hb', h⟩ := scan_bind_eq_ok.1 h
    rw [get_bind_run] at h
    simp only [ite_run] at h
    split at h
    · next hend =>
      obtain ⟨rfl, rfl⟩ := pure_eq_ok.1 h
      exact ⟨broken, c₁, _, broken', c₃, hb, hread, hb', List.isEmpty_iff.1 hend⟩
    · obtain ⟨_, _, h, _⟩ := bind_eq_ok.1 h
      exact absurd h refuse_ne_ok
  · rintro ⟨broken, c₁, c₂, broken', c₃, hb, hread, hb', hend⟩
    exact single_of_yields hb (yields_of_reads hsilent hresolves hread) hread.length_lt hb' hend

theorem topHash_eq_ok {h : Hash} :
    (run (topHash setting forced) c inner).1 = .ok h ↔ c.ReadsAsHash resolves forced h := by
  constructor
  · intro hrun
    obtain ⟨_, hrun⟩ := run_eq_ok.1 hrun
    rw [topHash, get_bind_run] at hrun
    obtain ⟨⟨_, h⟩, _, hbuild, hrun⟩ := bind_eq_ok.1 hrun
    obtain ⟨rfl, _⟩ := pure_eq_ok.1 hrun
    obtain ⟨_, hw, hhead, _⟩ := buildHash_eq_ok.1 hbuild
    obtain ⟨_, _, _, hentries, rfl⟩ := within_of_isSilent hsilent hw
    obtain ⟨broken, c₁, new, hb, hread, ho⟩ :=
      (followsReading hsilent hwithin _).entriesUpTo hentries rfl
    simp only [ho, List.headD_cons] at hhead
    subst hhead
    exact ⟨broken, c₁, _, hb, hread⟩
  · rintro ⟨broken, c₁, c₂, hb, hread⟩
    refine run_eq_ok_of_gives (d := c₂) (.get fun _ => .bind (a := ((), h)) ?_ .pure)
    refine .buildHash (.within hsilent ?_)
    exact .entriesUpTo hb (yields_of_reads hsilent hresolves hread) (by simp only [bound]; omega)

theorem topSequence_eq_ok {vs : List Value} :
    (run (topSequence setting forced) c inner).1 = .ok vs ↔
      c.ReadsAsSequence resolves forced vs := by
  constructor
  · intro hrun
    obtain ⟨_, hrun⟩ := run_eq_ok.1 hrun
    rw [topSequence, get_bind_run] at hrun
    obtain ⟨_, _, _, hitems, rfl⟩ := within_of_isSilent hsilent hrun
    obtain ⟨broken, c₁, hb, hread, _⟩ := (followsReading hsilent hwithin _).itemsUpTo hitems
    exact ⟨broken, c₁, _, hb, hread⟩
  · rintro ⟨broken, c₁, c₂, hb, hread⟩
    refine run_eq_ok_of_gives (d := c₂) (.get fun _ => .within hsilent ?_)
    exact .itemsUpTo hb (yields_of_reads hsilent hresolves hread) (by simp only [bound]; omega)

end
end Evaluation

variable {forced : Bool} {source : Source}

/-- The value of a text without an environment. -/
theorem Source.evaluate_eq_ok {v : Value} :
    (source.evaluate .unresolving forced ()).1 = .ok v ↔
      (Cursor.ofText source.text.toList).ReadsAsValue Unresolved forced v :=
  Evaluation.single_eq_ok Environment.unresolving_isSilent Environment.unresolving_resolvesWithin
    Environment.unresolving_resolves

/-- The hash that a text denotes without an environment. -/
theorem Source.evaluateHash_eq_ok {h : Hash} :
    (source.evaluateHash .unresolving forced ()).1 = .ok h ↔
      (Cursor.ofText source.text.toList).ReadsAsHash Unresolved forced h :=
  Evaluation.topHash_eq_ok Environment.unresolving_isSilent Environment.unresolving_resolvesWithin
    Environment.unresolving_resolves

/-- The sequence that a text denotes without an environment. -/
theorem Source.evaluateSequence_eq_ok {vs : List Value} :
    (source.evaluateSequence .unresolving forced ()).1 = .ok vs ↔
      (Cursor.ofText source.text.toList).ReadsAsSequence Unresolved forced vs :=
  Evaluation.topSequence_eq_ok Environment.unresolving_isSilent
    Environment.unresolving_resolvesWithin Environment.unresolving_resolves

end TextualData
