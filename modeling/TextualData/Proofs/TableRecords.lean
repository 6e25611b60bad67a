import TextualData.Proofs.LoadedTables

/-!
# Records of a loaded table

`Builtin.ReadsRecords` says which records the file has that a call of the loader `csv` reads, those
of the header included. A call that succeeds has read some (`Builtin.exists_readsRecords`).
-/

namespace TextualData

namespace LoadM

variable {α β : Type} {m : LoadM α} {f : α → LoadM β} {a : α} {b : β} {e : Error}

theorem result_bind_eq_ok (h : (m >>= f).result = .ok b) :
    ∃ a, m.result = .ok a ∧ (f a).result = .ok b := by
  cases hm : m.result with
  | error e => cases h.symm.trans (result_bind_of_error hm)
  | ok a => exact ⟨a, rfl, (result_bind_of_ok hm).symm.trans h⟩

theorem result_bind_eq_error (h : (m >>= f).result = .error e) :
    m.result = .error e ∨ ∃ a, m.result = .ok a ∧ (f a).result = .error e := by
  cases hm : m.result with
  | error first =>
    obtain rfl := Except.error.inj ((result_bind_of_error (f := f) hm).symm.trans h)
    exact .inl rfl
  | ok a => exact .inr ⟨a, rfl, (result_bind_of_ok hm).symm.trans h⟩

theorem result_ofFault_eq_ok {r : Except LoadFault α} (h : (ofFault r).result = .ok a) :
    r = .ok a := by
  cases r with
  | error fault => cases h
  | ok b => exact congrArg Except.ok (Except.ok.inj h)

theorem result_ofFault_eq_error {r : Except LoadFault α} {fault : LoadFault}
    (h : (ofFault r).result = .error (.loading fault)) : r = .error fault := by
  cases r with
  | error first => exact congrArg Except.error (Error.loading.inj (Except.error.inj h))
  | ok b => cases h

end LoadM

namespace Table

variable {o : Options} {l : List Char} {table : Loaded}

/-- A table that is read has rows under its columns. -/
theorem load_eq_ok (h : load o l = .ok table) :
    (splitHeaders o.headers (records o.separator l)).1.mapM (Column.ofHeader o) =
        .ok table.columns ∧
      rowsFrom o table.columns 2 (splitHeaders o.headers (records o.separator l)).2 =
        .ok table.rows := by
  obtain ⟨header, data, split⟩ : ∃ header data,
    splitHeaders o.headers (records o.separator l) = (header, data) := ⟨_, _, rfl⟩
  rw [split]
  cases hcolumns : header.mapM (Column.ofHeader o) with
  | error fault =>
    rw [load, split] at h
    dsimp only at h
    rw [hcolumns] at h
    cases h
  | ok columns =>
    rw [load_eq split hcolumns] at h
    cases hrows : rowsFrom o columns 2 data with
    | error fault =>
      rw [hrows] at h
      cases h
    | ok rows =>
      rw [hrows] at h
      obtain rfl : ⟨columns, rows⟩ = table := Except.ok.inj h
      exact ⟨rfl, hrows⟩

end Table

namespace Loader
namespace Builtin

open Table (Column)

variable {files : Files} {call : Call} {o : Table.Options} {columns : List Column}
  {records : List (List String)} {v : Value} {options : Hash} {text : String}

/-- A call of the loader `csv` that finds a file with these records, under these columns: its
arguments and options are accepted, its file is there and holds text, and each header cell names a
column. -/
inductive ReadsRecords (files : Files) (call : Call) (o : Table.Options) (columns : List Column)
    (records : List (List String)) : Prop where
  | intro {arguments : Arguments} {l : List Char}
      (arguments_eq : Arguments.ofList csv.usage call.arguments = .ok arguments)
      (options_eq : Table.Options.ofHash arguments.options = .ok o)
      (text_eq : (readText files (call.config.resolve arguments.file)
        (arguments.encoding?.getD call.config.encoding)).result = .ok l)
      (records_eq : Table.records o.separator l = records)
      (columns_eq : (Table.splitHeaders o.headers records).1.mapM (Column.ofHeader o) =
        .ok columns)

theorem ReadsRecords.readsTable (h : ReadsRecords files call o columns records) :
    ReadsTable files call o columns (Table.splitHeaders o.headers records).2 := by
  obtain ⟨arguments_eq, options_eq, text_eq, rfl, columns_eq⟩ := h
  exact .intro arguments_eq options_eq text_eq (Table.heads_iff.2 rfl) columns_eq

/-- What a call reads is determined. -/
theorem ReadsRecords.unique {o' : Table.Options} {columns' : List Column}
    {records' : List (List String)} (h : ReadsRecords files call o columns records)
    (h' : ReadsRecords files call o' columns' records') :
    o = o' ∧ columns = columns' ∧ records = records' := by
  obtain ⟨arguments_eq, options_eq, text_eq, records_eq, columns_eq⟩ := h
  obtain ⟨arguments_eq', options_eq', text_eq', records_eq', columns_eq'⟩ := h'
  obtain rfl := Except.ok.inj (arguments_eq.symm.trans arguments_eq')
  obtain rfl := Except.ok.inj (options_eq.symm.trans options_eq')
  obtain rfl := Except.ok.inj (text_eq.symm.trans text_eq')
  obtain rfl := records_eq.symm.trans records_eq'
  exact ⟨rfl, Except.ok.inj (columns_eq.symm.trans columns_eq'), rfl⟩

/-- A call that succeeds has found records, and gives the rows of those behind the header. -/
theorem exists_readsRecords (h : (csv.load files call).result = .ok v) :
    ∃ o columns records rows, ReadsRecords files call o columns records ∧
      Table.rowsFrom o columns 2 (Table.splitHeaders o.headers records).2 = .ok rows ∧
      v = .sequence (rows.map .hash) := by
  rw [load] at h
  obtain ⟨arguments, harguments, h⟩ := LoadM.result_bind_eq_ok h
  obtain ⟨o, hoptions, h⟩ := LoadM.result_bind_eq_ok h
  obtain ⟨l, htext, h⟩ := LoadM.result_bind_eq_ok h
  obtain ⟨table, htable, h⟩ := LoadM.result_bind_eq_ok h
  obtain ⟨hcolumns, hrows⟩ := Table.load_eq_ok (LoadM.result_ofFault_eq_ok htable)
  exact ⟨o, table.columns, _, table.rows, .intro (LoadM.result_ofFault_eq_ok harguments)
    (LoadM.result_ofFault_eq_ok hoptions) htext rfl hcolumns, hrows, (Except.ok.inj h).symm⟩

/-- A call of a loader for the file `prices.csv`, with options. -/
def pricesCallWith (options : Hash) : Call :=
  ⟨[.string "prices.csv", .hash options], {}, [], .refusing⟩

theorem readsRecords_prices (noEncoding : options.get? "encoding" = none)
    (options_eq : Table.Options.ofHash options = .ok o)
    (records_eq :
      Table.records o.separator (Text.withoutByteOrderMark text.toList) = records)
    (columns_eq : (Table.splitHeaders o.headers records).1.mapM (Column.ofHeader o) =
      .ok columns) :
    ReadsRecords (pricesFile text) (pricesCallWith options) o columns records := by
  have harguments : Arguments.ofList csv.usage (pricesCallWith options).arguments =
      .ok ⟨"prices.csv", none, options⟩ := by
    change Arguments.ofOptions "prices.csv" options = _
    rw [Arguments.ofOptions, noEncoding]
  have hconfig : (pricesCallWith options).config = pricesCall.config := rfl
  have hread : (pricesFile text).read ((pricesCallWith options).config.resolve "prices.csv") =
      .ok (Charset.utf8Bytes text) := by
    rw [hconfig]
    rfl
  exact .intro harguments options_eq (result_readText_utf8 hread) records_eq columns_eq

end Builtin
end Loader
end TextualData
