import Mathlib.Data.List.Forall2
import TextualData.Proofs.QuotedKeys
import TextualData.Proofs.TableCells

/-!
# Rows of a table

A record is sound if it is no longer than the header and none of its cells is refused
(`Table.IsSound`). A sound record fills a row with what its cells give (`Table.Fills`), and records
that are sound throughout give one row each. Otherwise the first fault of the first record that is
not sound is reported (`Table.FirstFault`).
-/

namespace TextualData
namespace Table

/-- The row has what the cells of the record give, in the order of the columns. A column has no
entry if the record ends before it, or if its cell gives nothing. -/
inductive Fills (o : Options) : List Column → List String → Hash → Prop where
  | done {columns : List Column} : Fills o columns [] []
  | value {column : Column} {columns : List Column} {cell : String} {cells : List String}
      {v : Value} {row : Hash} (gives : Gives o cell column.type (some v))
      (more : Fills o columns cells row) :
      Fills o (column :: columns) (cell :: cells) ((column.name, v) :: row)
  | absent {column : Column} {columns : List Column} {cell : String} {cells : List String}
      {row : Hash} (gives : Gives o cell column.type none)
      (more : Fills o columns cells row) : Fills o (column :: columns) (cell :: cells) row

/-- The cell is refused in its column. -/
def IsRefused (o : Options) (entry : Column × String) : Prop :=
  ∃ shown kind, Refuses o entry.2 entry.1.type shown kind

/-- The record has no more cells than there are columns, and none of its cells is refused. -/
structure IsSound (o : Options) (columns : List Column) (cells : List String) : Prop where
  narrow : cells.length ≤ columns.length
  accepted : ∀ entry ∈ columns.zip cells, ¬IsRefused o entry

/-- The first fault of a record. Its length goes before its cells, and these go from left to
right. -/
inductive HasFault (o : Options) (columns : List Column) (row : Nat) :
    List String → LoadFault → Prop where
  | wide {cells : List String} (isWide : columns.length < cells.length) :
      HasFault o columns row cells (.wideRow row)
  | cell {cells : List String} {before after : List (Column × String)} {column : Column}
      {cell shown kind : String} (narrow : cells.length ≤ columns.length)
      (zip_eq : columns.zip cells = before ++ (column, cell) :: after)
      (accepted : ∀ entry ∈ before, ¬IsRefused o entry)
      (refused : Refuses o cell column.type shown kind) :
      HasFault o columns row cells (.invalidCell shown kind row column.name)

/-- The first fault of the records. Row 1 is the header. -/
def FirstFault (o : Options) (columns : List Column) (data : List (List String))
    (fault : LoadFault) : Prop :=
  ∃ before cells after, data = before ++ cells :: after ∧
    (∀ sound ∈ before, IsSound o columns sound) ∧
    HasFault o columns (before.length + 2) cells fault

variable {o : Options} {column : Column} {columns : List Column} {cell : String}
  {cells : List String} {data before after : List (List String)} {row : Nat} {old new : Hash}
  {fault : LoadFault}

theorem exists_gives (h : ¬IsRefused o (column, cell)) :
    ∃ value?, Gives o cell column.type value? :=
  (gives_or_refuses o cell column.type).resolve_right h

theorem Fills.length_le (h : Fills o columns cells new) : cells.length ≤ columns.length := by
  induction h with
  | done => exact Nat.zero_le _
  | value _ _ ih | absent _ _ ih => exact Nat.succ_le_succ ih

theorem IsSound.of_cons (h : IsSound o (column :: columns) (cell :: cells)) :
    IsSound o columns cells :=
  ⟨Nat.le_of_succ_le_succ h.narrow, fun entry hentry => h.accepted entry (.tail _ hentry)⟩

/-- A sound record fills some row. -/
theorem IsSound.exists_fills (h : IsSound o columns cells) : ∃ new, Fills o columns cells new := by
  induction cells generalizing columns with
  | nil => exact ⟨[], .done⟩
  | cons cell cells ih =>
    cases columns with
    | nil => exact absurd h.narrow (Nat.not_succ_le_zero _)
    | cons column columns =>
      obtain ⟨new, more⟩ := ih h.of_cons
      obtain ⟨value?, gives⟩ := exists_gives (h.accepted (column, cell) (.head _))
      cases value? with
      | none => exact ⟨new, .absent gives more⟩
      | some v => exact ⟨(column.name, v) :: new, .value gives more⟩

/-- The first element with a property. -/
theorem exists_first {α : Type} {P : α → Prop} {l : List α} (h : ∃ x ∈ l, P x) :
    ∃ before x after, l = before ++ x :: after ∧ (∀ y ∈ before, ¬P y) ∧ P x := by
  classical
  obtain ⟨x, hx, hP⟩ := h
  have hfound : (l.find? fun y => decide (P y)).isSome :=
    List.find?_isSome.2 ⟨x, hx, decide_eq_true hP⟩
  obtain ⟨y, hy⟩ := Option.isSome_iff_exists.1 hfound
  obtain ⟨hPy, before, after, rfl, hbefore⟩ := List.find?_eq_some_iff_append.1 hy
  exact ⟨before, y, after, rfl, fun z hz => by simpa using hbefore z hz, of_decide_eq_true hPy⟩

/-- A record that is not sound has a first fault. -/
theorem exists_hasFault (h : ¬IsSound o columns cells) (row : Nat) :
    ∃ fault, HasFault o columns row cells fault := by
  by_cases narrow : cells.length ≤ columns.length
  · have hrefused : ∃ entry ∈ columns.zip cells, IsRefused o entry := by
      by_contra hno
      exact h ⟨narrow, fun entry hentry hrefused => hno ⟨entry, hentry, hrefused⟩⟩
    obtain ⟨before, ⟨column, cell⟩, after, zip_eq, accepted, shown, kind, refused⟩ :=
      exists_first hrefused
    exact ⟨_, .cell narrow zip_eq accepted refused⟩
  · exact ⟨_, .wide (Nat.lt_of_not_le narrow)⟩

/-- Records that are not sound throughout have a first fault. -/
theorem exists_firstFault (h : ∃ cells ∈ data, ¬IsSound o columns cells) :
    ∃ fault, FirstFault o columns data fault := by
  obtain ⟨before, cells, after, rfl, hbefore, hcells⟩ := exists_first h
  obtain ⟨fault, hfault⟩ := exists_hasFault hcells (before.length + 2)
  exact ⟨fault, before, cells, after, rfl, fun sound hsound => not_not.1 (hbefore sound hsound),
    hfault⟩

section Reading

variable (htrue : o.altTrue ≠ some "") (hfalse : o.altFalse ≠ some "")

include htrue hfalse

/-- The reader of cells fails at exactly those that are refused. -/
theorem isRefused_iff (row : Nat) :
    IsRefused o (column, cell) ↔ ∃ fault, cellValue o column row cell = .error fault := by
  constructor
  · rintro ⟨shown, kind, refused⟩
    exact ⟨_, cellValue_of_refuses refused⟩
  · rintro ⟨fault, hfault⟩
    by_contra hno
    obtain ⟨value?, gives⟩ := exists_gives hno
    cases hfault.symm.trans (cellValue_of_gives htrue hfalse gives)

/-- Cells are added behind what is there, provided the columns have names of their own. -/
theorem addCells_of_fills (h : Fills o columns cells new)
    (distinct : (old.keys ++ columns.map Column.name).Nodup) :
    addCells o row old (columns.zip cells) = .ok (old ++ new) := by
  induction h generalizing old with
  | done => rw [List.zip_nil_right, addCells, List.append_nil]
  | @value column columns cell cells v new gives _ ih =>
    have hnew : column.name ∉ old.keys := fun hmem =>
      (List.nodup_append.1 distinct).2.2 _ hmem _ (.head _) rfl
    have hdistinct : ((old ++ [(column.name, v)]).keys ++ columns.map Column.name).Nodup := by
      simpa [Entries.keys] using distinct
    rw [List.zip_cons_cons, addCells, cellValue_of_gives htrue hfalse gives]
    change addCells o row (old.insert column.name v) (columns.zip cells) = _
    rw [Entries.insert_eq_append hnew, ih hdistinct, List.append_assoc, List.singleton_append]
  | @absent column columns cell cells new gives _ ih =>
    have hdistinct : (old.keys ++ columns.map Column.name).Nodup :=
      distinct.sublist ((List.sublist_cons_self _ _).append_left _)
    rw [List.zip_cons_cons, addCells, cellValue_of_gives htrue hfalse gives]
    exact ih hdistinct

/-- Whatever was read before it, the first cell that is refused is reported. -/
theorem addCells_of_refuses {before after : List (Column × String)} {shown kind : String}
    (accepted : ∀ entry ∈ before, ¬IsRefused o entry)
    (refused : Refuses o cell column.type shown kind) :
    addCells o row old (before ++ (column, cell) :: after) =
      .error (.invalidCell shown kind row column.name) := by
  induction before generalizing old with
  | nil =>
    rw [List.nil_append, addCells, cellValue_of_refuses refused]
    rfl
  | cons entry before ih =>
    obtain ⟨value?, gives⟩ := exists_gives (accepted entry (.head _))
    have hbefore : ∀ old, addCells o row old (before ++ (column, cell) :: after) =
        .error (.invalidCell shown kind row column.name) :=
      fun _ => ih fun entry hentry => accepted entry (.tail _ hentry)
    rw [List.cons_append, addCells, cellValue_of_gives htrue hfalse gives]
    cases value? with
    | none => exact hbefore old
    | some v => exact hbefore (old.insert entry.1.name v)

/-- The row of a record holds what the record fills it with. -/
theorem rowOf_of_fills (h : Fills o columns cells new)
    (distinct : (columns.map Column.name).Nodup) : rowOf o columns row cells = .ok new := by
  rw [rowOf, if_neg (Nat.not_lt.2 h.length_le)]
  exact addCells_of_fills htrue hfalse h distinct

theorem rowOf_of_hasFault (h : HasFault o columns row cells fault) :
    rowOf o columns row cells = .error fault := by
  cases h with
  | wide isWide => rw [rowOf, if_pos isWide]
  | cell narrow zip_eq accepted refused =>
    rw [rowOf, if_neg (Nat.not_lt.2 narrow), zip_eq]
    exact addCells_of_refuses htrue hfalse accepted refused

/-- Sound records give one row each. -/
theorem rowsFrom_of_sound (distinct : (columns.map Column.name).Nodup)
    (h : ∀ cells ∈ data, IsSound o columns cells) :
    ∃ rows, rowsFrom o columns row data = .ok rows ∧ List.Forall₂ (Fills o columns) data rows := by
  induction data generalizing row with
  | nil => exact ⟨[], rfl, .nil⟩
  | cons cells data ih =>
    obtain ⟨new, hnew⟩ := (h cells (.head _)).exists_fills
    obtain ⟨rows, hrows, hfills⟩ :=
      @ih (row + 1) fun cells hcells => h cells (.tail _ hcells)
    refine ⟨new :: rows, ?_, .cons hnew hfills⟩
    rw [rowsFrom, rowOf_of_fills htrue hfalse hnew distinct, hrows]
    rfl

/-- The fault of a record is reported if those before it are sound. -/
theorem rowsFrom_of_hasFault (distinct : (columns.map Column.name).Nodup)
    (sound : ∀ cells ∈ before, IsSound o columns cells)
    (h : HasFault o columns (before.length + row) cells fault) :
    rowsFrom o columns row (before ++ cells :: after) = .error fault := by
  induction before generalizing row with
  | nil =>
    rw [List.length_nil, Nat.zero_add] at h
    rw [List.nil_append, rowsFrom, rowOf_of_hasFault htrue hfalse h]
    rfl
  | cons first before ih =>
    obtain ⟨new, hnew⟩ := (sound first (.head _)).exists_fills
    rw [List.length_cons, Nat.add_right_comm, Nat.add_assoc] at h
    rw [List.cons_append, rowsFrom, rowOf_of_fills htrue hfalse hnew distinct,
      ih (fun cells hcells => sound cells (.tail _ hcells)) h]
    rfl

end Reading

end Table
end TextualData
