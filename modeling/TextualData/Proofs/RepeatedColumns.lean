import TextualData.Proofs.TableRecords

/-!
# Columns of the same name

Two columns may have the same name, and normal names make this more likely. A row is a hash, so the
cells of such columns go to the same place in it, and what is found there is the last value that one
of them gives (`Builtin.load_keeps_last`). The values of the others are lost
(`Builtin.load_loses_cell`).
-/

namespace TextualData
namespace Table

/-- What a cell gives in its column: a value, or nothing. -/
def IsRead (o : Options) (entry : Column × String) (value? : Option Value) : Prop :=
  ∀ row, cellValue o entry.1 row entry.2 = .ok value?

/-- The cells of columns with the name give nothing. -/
def NoneUnder (o : Options) (name : String) (entries : List (Column × String)) : Prop :=
  ∀ entry ∈ entries, entry.1.name = name → IsRead o entry none

/-- Of the cells of columns with the name, the last one that gives a value gives this one. -/
def LastUnder (o : Options) (name : String) (entries : List (Column × String)) (v : Value) : Prop :=
  ∃ before entry after, entries = before ++ entry :: after ∧ entry.1.name = name ∧
    IsRead o entry (some v) ∧ NoneUnder o name after

/-- Whatever a cell of the record gives is found in the row, under the name of its column. -/
def KeepsCells (o : Options) (columns : List Column) (cells : List String) (row : Hash) : Prop :=
  ∀ entry ∈ columns.zip cells, ∀ v, IsRead o entry (some v) → row.get? entry.1.name = some v

variable {o : Options} {column : Column} {columns : List Column} {cell name : String}
  {cells : List String} {data : List (List String)} {rows : List Hash} {row : Nat} {l : List Char}
  {v : Value} {value? value?' : Option Value} {entry : Column × String}
  {entries : List (Column × String)} {old new : Hash}

theorem number_of_ok (h : number o column row l = .ok value?) (row' : Nat) :
    number o column row' l = .ok value? := by
  unfold number at h ⊢
  dsimp only at h ⊢
  generalize Numeral.int64? (numeralOf o l) = integer? at h ⊢
  generalize Decimal.ofChars? (numeralOf o l) = decimal? at h ⊢
  split_ifs at h ⊢
  · exact h
  · cases integer? with
    | some n => exact h
    | none =>
      cases decimal? with
      | some d => exact h
      | none => cases h

theorem boolean_of_ok (h : boolean o column row l = .ok value?) (row' : Nat) :
    boolean o column row' l = .ok value? := by
  unfold boolean at h ⊢
  dsimp only at h ⊢
  split_ifs at h ⊢ <;> simpa using h

/-- The number of the row only matters to cells that are refused. -/
theorem isRead_of_ok (h : cellValue o column row cell = .ok value?) :
    IsRead o (column, cell) value? := by
  intro row'
  dsimp only [cellValue] at h ⊢
  cases hc : column.type with
  | string => rwa [hc] at h
  | number =>
    rw [hc] at h
    exact number_of_ok h row'
  | boolean =>
    rw [hc] at h
    exact boolean_of_ok h row'

theorem IsRead.unique (h : IsRead o entry value?) (h' : IsRead o entry value?') :
    value? = value?' :=
  Except.ok.inj ((h 0).symm.trans (h' 0))

theorem noneUnder_cons : NoneUnder o name (entry :: entries) ↔
    (entry.1.name = name → IsRead o entry none) ∧ NoneUnder o name entries :=
  List.forall_mem_cons

theorem not_lastUnder_nil : ¬LastUnder o name [] v := by
  rintro ⟨before, entry, after, h, -⟩
  cases before <;> cases h

theorem lastUnder_cons : LastUnder o name (entry :: entries) v ↔
    LastUnder o name entries v ∨
      entry.1.name = name ∧ IsRead o entry (some v) ∧ NoneUnder o name entries := by
  constructor
  · rintro ⟨before, last, after, h, hname, hread, hnone⟩
    cases before with
    | nil =>
      obtain ⟨rfl, rfl⟩ := List.cons_eq_cons.1 h
      exact .inr ⟨hname, hread, hnone⟩
    | cons first before =>
      obtain ⟨-, rfl⟩ := List.cons_eq_cons.1 h
      exact .inl ⟨before, last, after, rfl, hname, hread, hnone⟩
  · rintro (⟨before, last, after, rfl, hlast⟩ | hlast)
    · exact ⟨entry :: before, last, after, rfl, hlast⟩
    · exact ⟨[], entry, entries, rfl, hlast⟩

/-- What a cell gives is put under the name of its column before the cells after it are added. -/
theorem addCells_cons_eq_ok (h : addCells o row old (entry :: entries) = .ok new) :
    ∃ value?, IsRead o entry value? ∧ addCells o row
      (match value? with
        | some v => old.insert entry.1.name v
        | none => old) entries = .ok new := by
  rw [addCells] at h
  cases hvalue : cellValue o entry.1 row entry.2 with
  | error fault =>
    rw [hvalue] at h
    cases h
  | ok value? =>
    rw [hvalue] at h
    refine ⟨value?, isRead_of_ok hvalue, ?_⟩
    cases value? with
    | none => exact h
    | some v => exact h

/-- A value is found under a name if the last cell for it gives the value, or if the value was there
before and no cell for the name gives any. -/
theorem get?_addCells (h : addCells o row old entries = .ok new) :
    new.get? name = some v ↔
      LastUnder o name entries v ∨ NoneUnder o name entries ∧ old.get? name = some v := by
  induction entries generalizing old with
  | nil =>
    obtain rfl : old = new := Except.ok.inj h
    simp [not_lastUnder_nil, NoneUnder]
  | cons entry entries ih =>
    obtain ⟨value?, hread, hmore⟩ := addCells_cons_eq_ok h
    rw [ih hmore, lastUnder_cons, noneUnder_cons, or_assoc]
    refine or_congr_right ?_
    cases value? with
    | none =>
      have hsome : ¬IsRead o entry (some v) := fun h => by cases hread.unique h
      simp [hread, hsome]
    | some w =>
      have hnone : ¬IsRead o entry none := fun h => by cases hread.unique h
      have hsome : IsRead o entry (some v) ↔ w = v :=
        ⟨fun h => Option.some.inj (hread.unique h), fun h => h ▸ hread⟩
      rw [Entries.get?_insert, hsome]
      by_cases hname : entry.1.name = name
      · simp [hname, hnone, and_comm]
      · simp [hname]

theorem rowOf_eq_ok (h : rowOf o columns row cells = .ok new) :
    cells.length ≤ columns.length ∧ addCells o row [] (columns.zip cells) = .ok new := by
  rw [rowOf] at h
  split at h
  · cases h
  · next hwide => exact ⟨Nat.le_of_not_lt hwide, h⟩

/-- Under a name a row has the value of the last cell that gives one. -/
theorem get?_rowOf (h : rowOf o columns row cells = .ok new) :
    new.get? name = some v ↔ LastUnder o name (columns.zip cells) v := by
  have hnil : Entries.get? ([] : Hash) name ≠ some v := nofun
  rw [get?_addCells (rowOf_eq_ok h).2, or_iff_left fun hold => hnil hold.2]

theorem rowsFrom_eq_ok (h : rowsFrom o columns row data = .ok rows) :
    List.Forall₂ (fun cells new => ∃ row, rowOf o columns row cells = .ok new) data rows := by
  induction data generalizing row rows with
  | nil =>
    obtain rfl : [] = rows := Except.ok.inj h
    exact .nil
  | cons cells data ih =>
    rw [rowsFrom] at h
    cases hrow : rowOf o columns row cells with
    | error fault =>
      rw [hrow] at h
      cases h
    | ok new =>
      cases hrows : rowsFrom o columns (row + 1) data with
      | error fault =>
        rw [hrow, hrows] at h
        cases h
      | ok more =>
        rw [hrow, hrows] at h
        obtain rfl : new :: more = rows := Except.ok.inj h
        exact .cons ⟨row, hrow⟩ (ih hrows)

end Table

namespace Loader
namespace Builtin

open Table (Column KeepsCells LastUnder)

variable {files : Files} {call : Call} {v : Value}

/-- A table that is loaded has one row for each record. Under the name of a column, the row has the
value of the last cell that gives one in a column of this name, and no other value. -/
theorem load_keeps_last (h : (csv.load files call).result = .ok v) :
    ∃ o columns data rows, ReadsTable files call o columns data ∧ v = .sequence (rows.map .hash) ∧
      List.Forall₂ (fun cells row => cells.length ≤ columns.length ∧ ∀ name w,
        Entries.get? row name = some w ↔ LastUnder o name (columns.zip cells) w) data rows := by
  obtain ⟨o, columns, records, rows, hreads, hrows, rfl⟩ := exists_readsRecords h
  refine ⟨o, columns, _, rows, hreads.readsTable, rfl, (Table.rowsFrom_eq_ok hrows).imp ?_⟩
  rintro cells row ⟨n, hrow⟩
  exact ⟨(Table.rowOf_eq_ok hrow).1, fun name w => Table.get?_rowOf hrow⟩

/-- A table whose header cells have the same normal form. -/
def netPrices : Files :=
  pricesFile "Net Price:n;net-price:n\n1;2\n3;\n"

/-- A call that normalizes header cells. -/
def normalizingCall : Call :=
  pricesCallWith [("normalizeHeaders", .boolean true)]

theorem readsTable_netPrices :
    ReadsTable netPrices normalizingCall { normalizeHeaders := true }
      [⟨"net_price", .number⟩, ⟨"net_price", .number⟩] [["1", "2"], ["3", ""]] := by
  have hreads : ReadsRecords netPrices normalizingCall { normalizeHeaders := true }
      [⟨"net_price", .number⟩, ⟨"net_price", .number⟩]
      [["Net Price:n", "net-price:n"], ["1", "2"], ["3", ""]] :=
    readsRecords_prices rfl rfl rfl rfl
  exact hreads.readsTable

theorem result_load_netPrices :
    (csv.load netPrices normalizingCall).result =
      .ok (.sequence [.hash [("net_price", .integer 2)], .hash [("net_price", .integer 3)]]) :=
  readsTable_netPrices.result_load

/-- Of two prices in a record the first is lost, and a single one is kept. -/
theorem load_keeps_last_price :
    (csv.load netPrices normalizingCall).result =
      .ok (.sequence [.hash [("net_price", .integer 2)], .hash [("net_price", .integer 3)]]) ∧
    ∃ o columns data rows, ReadsTable netPrices normalizingCall o columns data ∧
      Value.sequence [.hash [("net_price", .integer 2)], .hash [("net_price", .integer 3)]] =
        .sequence (rows.map .hash) ∧
      List.Forall₂ (fun cells row => cells.length ≤ columns.length ∧ ∀ name w,
        Entries.get? row name = some w ↔ LastUnder o name (columns.zip cells) w) data rows :=
  ⟨result_load_netPrices, load_keeps_last result_load_netPrices⟩

/-- A table can be loaded although the value of a cell is not in its row. -/
theorem load_loses_cell :
    ∃ o columns data rows, ReadsTable netPrices normalizingCall o columns data ∧
      (csv.load netPrices normalizingCall).result = .ok (.sequence (rows.map .hash)) ∧
      ¬List.Forall₂ (KeepsCells o columns) data rows := by
  refine ⟨_, _, _, [[("net_price", .integer 2)], [("net_price", .integer 3)]],
    readsTable_netPrices, result_load_netPrices, fun hkeeps => ?_⟩
  obtain ⟨hfirst, -⟩ := List.forall₂_cons.1 hkeeps
  have hone := hfirst (⟨"net_price", .number⟩, "1") (.head _) (.integer 1) fun _ => rfl
  cases hone

end Builtin
end Loader
end TextualData
