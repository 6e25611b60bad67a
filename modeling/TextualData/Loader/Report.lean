import TextualData.Error.Basic

/-!
# Reports of loaders

Loaders report what they do. `LoadM` is the outcome of a computation that may fail, with what was
reported up to then. A computation cannot see earlier reports.
-/

namespace TextualData

/-- A step of a loader. -/
inductive LoadReport where
  | file (path : String)
  /-- The header of a text names an encoding in place of the given one. -/
  | header (declared given : String)
  | table (rows columns : Nat)
deriving DecidableEq, Repr

/-- The outcome of a computation that may fail, with its reports, the latest first. -/
structure LoadM (α : Type) where
  result : Except Error α
  reports : List LoadReport := []

namespace LoadM

instance : Monad LoadM where
  pure a := ⟨.ok a, []⟩
  bind m f :=
    match m.result with
    | .ok a => ⟨(f a).result, (f a).reports ++ m.reports⟩
    | .error e => ⟨.error e, m.reports⟩

instance : MonadExceptOf Error LoadM where
  throw e := ⟨.error e, []⟩
  tryCatch m handle :=
    match m.result with
    | .ok _ => m
    | .error e => ⟨(handle e).result, (handle e).reports ++ m.reports⟩

variable {α : Type}

/-- Adds a report. -/
def report (r : LoadReport) : LoadM Unit :=
  ⟨.ok (), [r]⟩

/-- A computation that may fail and reports nothing. -/
def ofExcept (result : Except Error α) : LoadM α :=
  ⟨result, []⟩

/-- A computation that may refuse its data and reports nothing. -/
def ofFault (result : Except LoadFault α) : LoadM α :=
  ⟨result.mapError .loading, []⟩

end LoadM
end TextualData
