import TextualData.Files.Known
import TextualData.Loader.Builtin
import TextualData.Proofs.Headers
import TextualData.Proofs.TableRows

/-!
# Loading tables

`Builtin.ReadsTable` says which columns and records a call of the loader `csv` reads. The loader
then gives one hash for each record, or it fails with the first fault of the records.
-/

namespace TextualData

namespace LoadM

variable {α β : Type} {m : LoadM α} {f : α → LoadM β} {a : α} {e : Error}

theorem result_bind_of_ok (h : m.result = .ok a) : (m >>= f).result = (f a).result := by
  obtain ⟨result, reports⟩ := m
  obtain rfl : result = .ok a := h
  rfl

theorem result_bind_of_error (h : m.result = .error e) : (m >>= f).result = .error e := by
  obtain ⟨result, reports⟩ := m
  obtain rfl : result = .error e := h
  rfl

theorem result_ofFault_of_ok {r : Except LoadFault α} (h : r = .ok a) :
    (ofFault r).result = .ok a := by
  rw [h]
  rfl

theorem result_ofFault_of_error {r : Except LoadFault α} {fault : LoadFault}
    (h : r = .error fault) : (ofFault r).result = .error (.loading fault) := by
  rw [h]
  rfl

end LoadM

namespace Table

/-- The cells that name the columns of a file, and its records with data. If the options give the
cells, the file has no header; otherwise its first record is one, and may be replaced. -/
inductive Heads : Headers → List (List String) → List String → List (List String) → Prop where
  | given {header : List String} {data : List (List String)} :
      Heads (.given header) data header data
  | replaced {header first : List String} {data : List (List String)} :
      Heads (.replaced header) (first :: data) header data
  | firstRecord {header : List String} {data : List (List String)} :
      Heads .firstRecord (header :: data) header data
  | replacedNone {header : List String} : Heads (.replaced header) [] header []
  | noRecord : Heads .firstRecord [] [] []

variable {o : Options} {columns : List Column} {headers : Headers} {header : List String}
  {all data : List (List String)} {l : List Char}

theorem heads_iff : Heads headers all header data ↔
    splitHeaders headers all = (header, data) := by
  constructor
  · rintro (_ | _ | _ | _ | _) <;> rfl
  · intro h
    cases headers with
    | given cells =>
      obtain ⟨rfl, rfl⟩ := Prod.mk.inj h
      exact .given
    | replaced cells =>
      obtain ⟨rfl, rfl⟩ := Prod.mk.inj h
      cases all with
      | nil => exact .replacedNone
      | cons first data => exact .replaced
    | firstRecord =>
      obtain ⟨rfl, rfl⟩ := Prod.mk.inj h
      cases all with
      | nil => exact .noRecord
      | cons header data => exact .firstRecord

/-- What a table gives depends on its columns and on its records alone. -/
theorem load_eq (split : splitHeaders o.headers (records o.separator l) = (header, data))
    (columns_eq : header.mapM (Column.ofHeader o) = .ok columns) :
    load o l = (rowsFrom o columns 2 data).map fun rows => ⟨columns, rows⟩ := by
  rw [load, split]
  dsimp only
  rw [columns_eq]
  change (rowsFrom o columns 2 data >>= fun rows => .ok (Loaded.mk columns rows)) = _
  cases rowsFrom o columns 2 data with
  | error fault => rfl
  | ok rows => rfl

end Table

namespace Loader
namespace Builtin

open Table (Column FirstFault Fills IsRefused IsSound isRefused_iff)

variable {files : Files} {call : Call} {o : Table.Options} {columns : List Column}
  {data : List (List String)}

/-- A call of the loader `csv` that finds a table under these columns: its arguments and options are
accepted, its file is there and holds text, and each header cell names a column. -/
inductive ReadsTable (files : Files) (call : Call) (o : Table.Options) (columns : List Column)
    (data : List (List String)) : Prop where
  | intro {arguments : Arguments} {l : List Char} {header : List String}
      (arguments_eq : Arguments.ofList csv.usage call.arguments = .ok arguments)
      (options_eq : Table.Options.ofHash arguments.options = .ok o)
      (text_eq : (readText files (call.config.resolve arguments.file)
        (arguments.encoding?.getD call.config.encoding)).result = .ok l)
      (heads : Table.Heads o.headers (Table.records o.separator l) header data)
      (columns_eq : header.mapM (Column.ofHeader o) = .ok columns)

/-- A file in UTF-8 is read as the text it holds. -/
theorem result_readText_utf8 {path text : String}
    (h : files.read path = .ok (Charset.utf8Bytes text)) :
    (readText files path "UTF-8").result = .ok (Text.withoutByteOrderMark text.toList) := by
  have hread : (readFile files path).result = .ok (Charset.utf8Bytes text) := by
    rw [readFile, LoadM.result_bind_of_ok (a := ()) rfl, h]
    rfl
  have hlabel : Charset.ofLabel? "UTF-8" = some .utf8 := rfl
  rw [readText, LoadM.result_bind_of_ok hread, Charset.decode_utf8Bytes hlabel]
  rfl

/-- The result of the loader is that of the records. -/
theorem ReadsTable.result_load (h : ReadsTable files call o columns data) :
    (csv.load files call).result = ((Table.rowsFrom o columns 2 data).mapError .loading).map
      fun rows => .sequence (rows.map .hash) := by
  obtain ⟨arguments_eq, options_eq, text_eq, heads, columns_eq⟩ := h
  have hload := Table.load_eq (Table.heads_iff.1 heads) columns_eq
  rw [load, LoadM.result_bind_of_ok (LoadM.result_ofFault_of_ok arguments_eq)]
  dsimp only
  rw [LoadM.result_bind_of_ok (LoadM.result_ofFault_of_ok options_eq),
    LoadM.result_bind_of_ok text_eq]
  cases hrows : Table.rowsFrom o columns 2 data with
  | error fault =>
    rw [hrows] at hload
    rw [LoadM.result_bind_of_error (LoadM.result_ofFault_of_error hload)]
    rfl
  | ok rows =>
    rw [hrows] at hload
    rw [LoadM.result_bind_of_ok (LoadM.result_ofFault_of_ok hload)]
    rfl

/-- Sound records are loaded into one hash each, and otherwise their first fault is reported. -/
theorem load_table (h : ReadsTable files call o columns data)
    (distinct : (columns.map Column.name).Nodup) (htrue : o.altTrue ≠ some "")
    (hfalse : o.altFalse ≠ some "") :
    ((∀ cells ∈ data, IsSound o columns cells) → ∃ rows,
      (csv.load files call).result = .ok (.sequence (rows.map .hash)) ∧
        List.Forall₂ (Fills o columns) data rows) ∧
    ((∃ cells ∈ data, ¬IsSound o columns cells) → ∃ fault,
      FirstFault o columns data fault ∧
        (csv.load files call).result = .error (.loading fault)) := by
  rw [h.result_load]
  constructor
  · intro sound
    obtain ⟨rows, hrows, hfills⟩ := Table.rowsFrom_of_sound htrue hfalse distinct sound
    exact ⟨rows, by rw [hrows]; rfl, hfills⟩
  · intro unsound
    obtain ⟨fault, hfirst⟩ := Table.exists_firstFault unsound
    obtain ⟨before, cells, after, rfl, sound, hfault⟩ := id hfirst
    have hrows : Table.rowsFrom o columns 2 (before ++ cells :: after) = .error fault :=
      Table.rowsFrom_of_hasFault htrue hfalse distinct sound hfault
    exact ⟨fault, hfirst, by rw [hrows]; rfl⟩

/-- The only file is `prices.csv`, which holds the text in UTF-8. -/
def pricesFile (text : String) : Files :=
  KnownFiles.files [("./prices.csv", ⟨.ok (Charset.utf8Bytes text), "/prices.csv"⟩)]

/-- A call of a loader for this file, without options. -/
def pricesCall : Call :=
  ⟨[.string "prices.csv"], {}, [], .refusing⟩

theorem readsTable_prices {text : String}
    (records_eq : Table.records ';' (Text.withoutByteOrderMark text.toList) =
      ["name", "price:n"] :: data) :
    ReadsTable (pricesFile text) pricesCall {} [⟨"name", .string⟩, ⟨"price", .number⟩] data := by
  have harguments : Arguments.ofList csv.usage pricesCall.arguments =
      .ok ⟨"prices.csv", none, []⟩ := rfl
  have hread : (pricesFile text).read (pricesCall.config.resolve "prices.csv") =
      .ok (Charset.utf8Bytes text) := rfl
  have heads : Table.Heads .firstRecord
      (Table.records ';' (Text.withoutByteOrderMark text.toList)) ["name", "price:n"] data := by
    rw [records_eq]
    exact .firstRecord
  exact .intro harguments rfl (result_readText_utf8 hread) heads rfl

/-- A table with a record that ends early, and one with a price that is no number. -/
theorem load_table_prices :
    (∃ rows, (csv.load (pricesFile "name;price:n\npear;2\nplum\n") pricesCall).result =
        .ok (.sequence (rows.map .hash)) ∧
      List.Forall₂ (Fills {} [⟨"name", .string⟩, ⟨"price", .number⟩]) [["pear", "2"], ["plum"]]
        rows) ∧
    ∃ fault, FirstFault {} [⟨"name", .string⟩, ⟨"price", .number⟩] [["pear", "2"], ["plum", "?"]]
        fault ∧
      (csv.load (pricesFile "name;price:n\npear;2\nplum;?\n") pricesCall).result =
        .error (.loading fault) := by
  have hrefused : ∀ column cell, IsRefused {} (column, cell) ↔
      ∃ fault, Table.cellValue {} column 2 cell = .error fault :=
    fun _ _ => isRefused_iff (by decide) (by decide) 2
  constructor
  · refine (load_table (readsTable_prices rfl) (by decide) (by decide) (by decide)).1 ?_
    simp only [List.forall_mem_cons, List.not_mem_nil, false_imp_iff, implies_true, and_true]
    refine ⟨⟨by decide, ?_⟩, ⟨by decide, ?_⟩⟩
    all_goals simp only [List.zip_cons_cons, List.zip_nil_right, List.forall_mem_cons, hrefused]
    · refine ⟨?_, ?_, List.forall_mem_nil _⟩ <;> rintro ⟨fault, ⟨⟩⟩
    · refine ⟨?_, List.forall_mem_nil _⟩
      rintro ⟨fault, ⟨⟩⟩
  · refine (load_table (readsTable_prices rfl) (by decide) (by decide) (by decide)).2
      ⟨["plum", "?"], .tail _ (.head _), fun sound => ?_⟩
    exact sound.accepted (⟨"price", .number⟩, "?") (.tail _ (.head _)) ((hrefused _ _).2 ⟨_, rfl⟩)

end Builtin
end Loader
end TextualData
