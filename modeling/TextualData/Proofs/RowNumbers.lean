import TextualData.Proofs.RepeatedColumns
import TextualData.Proofs.RowFaults

/-!
# Row numbers in messages

The message about a record that is not sound shows the number of its row. `Table.FirstUnsound` is
the position that the record has in its file. The two agree if the file has a header
(`Builtin.numbersByFile_iff`); without one the number is too great by one, because the first record
is row 2 in any case.
-/

namespace TextualData

namespace Table

/-- How many records of a file its header takes. -/
def Headers.size : Headers → Nat
  | given _ => 0
  | replaced _ => 1
  | firstRecord => 1

/-- The position, counted from one, of the first record behind the header that is not sound. -/
def FirstUnsound (o : Options) (columns : List Column) (records : List (List String))
    (position : Nat) : Prop :=
  ∃ before cells after, records = before ++ cells :: after ∧ o.headers.size ≤ before.length ∧
    (∀ sound ∈ before.drop o.headers.size, IsSound o columns sound) ∧
    ¬IsSound o columns cells ∧ position = before.length + 1

variable {o : Options} {columns : List Column} {cells : List String}
  {records data : List (List String)} {row p q : Nat} {value? : Option Value}
  {entry : Column × String} {entries : List (Column × String)} {old new : Hash}
  {rows : List Hash} {fault : LoadFault}

theorem splitHeaders_snd (headers : Headers) (records : List (List String)) :
    (splitHeaders headers records).2 = records.drop headers.size := by
  cases headers with
  | given _ => rfl
  | replaced _ | firstRecord => exact List.drop_one.symm

theorem Headers.size_of_ne {headers : Headers} (h : ∀ cells, headers ≠ .given cells) :
    headers.size = 1 := by
  cases headers with
  | given cells => exact absurd rfl (h cells)
  | replaced _ | firstRecord => rfl

theorem FirstUnsound.le (hp : FirstUnsound o columns records p)
    (hq : FirstUnsound o columns records q) : p ≤ q := by
  obtain ⟨before, cells, after, hrecords, -, sound, -, rfl⟩ := hp
  obtain ⟨before', cells', after', rfl, hheader, -, unsound, rfl⟩ := hq
  by_contra hlt
  -- otherwise the second record stands among those before the first
  rcases List.append_eq_append_iff.1 hrecords with ⟨more, rfl, hmore⟩ | ⟨more, rfl, -⟩
  · cases more with
    | nil => simp at hlt
    | cons _ more =>
      obtain ⟨rfl, -⟩ := List.cons_eq_cons.1 hmore
      refine unsound (sound _ ?_)
      rw [List.drop_append_of_le_length hheader]
      simp
  · simp at hlt

theorem FirstUnsound.unique (hp : FirstUnsound o columns records p)
    (hq : FirstUnsound o columns records q) : p = q :=
  Nat.le_antisymm (hp.le hq) (hq.le hp)

theorem exists_boolean_of_empty {column : Column} {l : List Char}
    (hempty : Text.trim Text.isBlank l = []) : ∃ value?, boolean o column row l = .ok value? := by
  rw [boolean, ← wordOf, wordOf_eq_empty.2 hempty]
  by_cases htrue : o.altTrue = some ""
  · exact ⟨some (.boolean true), by rw [if_pos htrue]; rfl⟩
  · by_cases hfalse : o.altFalse = some ""
    · exact ⟨some (.boolean false), by rw [if_neg htrue, if_pos hfalse]; rfl⟩
    · exact ⟨none, by rw [if_neg htrue, if_neg hfalse]; rfl⟩

/-- A cell that is not refused is read, also if a further word is empty. -/
theorem exists_cellValue (h : ¬IsRefused o entry) (row : Nat) :
    ∃ value?, cellValue o entry.1 row entry.2 = .ok value? := by
  obtain ⟨value?, gives⟩ := exists_gives h
  rw [cellValue]
  generalize entry.1.type = type at gives
  cases gives with
  | string => exact ⟨_, rfl⟩
  | noNumber holds unformats => exact ⟨none, by simp [number, holds.numeralOf_eq unformats]⟩
  | number holds unformats means =>
    rw [← holds.numeralOf_eq unformats] at means
    exact ⟨_, number_of_means means⟩
  | noBoolean holds => exact exists_boolean_of_empty (holds_iff.1 holds)
  | boolean holds _ means =>
    rw [← holds_iff.1 holds] at means
    exact ⟨_, boolean_of_means means⟩

/-- The fault of a cell is about the row of the cell. -/
theorem cellValue_eq_error (h : cellValue o entry.1 row entry.2 = .error fault) :
    IsRefused o entry ∧ fault.row? = some row := by
  by_cases hrefused : IsRefused o entry
  · obtain ⟨shown, kind, refused⟩ := hrefused
    obtain rfl := Except.error.inj (h.symm.trans (cellValue_of_refuses refused))
    exact ⟨⟨shown, kind, refused⟩, rfl⟩
  · obtain ⟨value?, hvalue⟩ := exists_cellValue hrefused row
    cases h.symm.trans hvalue

theorem IsRead.not_isRefused (h : IsRead o entry value?) : ¬IsRefused o entry := by
  rintro ⟨shown, kind, refused⟩
  cases (h 0).symm.trans (cellValue_of_refuses refused)

theorem not_isRefused_of_addCells (h : addCells o row old entries = .ok new) :
    ∀ entry ∈ entries, ¬IsRefused o entry := by
  induction entries generalizing old with
  | nil => nofun
  | cons entry entries ih =>
    obtain ⟨value?, hread, hmore⟩ := addCells_cons_eq_ok h
    exact List.forall_mem_cons.2 ⟨hread.not_isRefused, ih hmore⟩

theorem addCells_eq_error (h : addCells o row old entries = .error fault) :
    (∃ entry ∈ entries, IsRefused o entry) ∧ fault.row? = some row := by
  induction entries generalizing old with
  | nil => cases h
  | cons entry entries ih =>
    rw [addCells] at h
    cases hvalue : cellValue o entry.1 row entry.2 with
    | error first =>
      rw [hvalue] at h
      obtain rfl : first = fault := Except.error.inj h
      obtain ⟨hrefused, hrow⟩ := cellValue_eq_error hvalue
      exact ⟨⟨entry, .head _, hrefused⟩, hrow⟩
    | ok value? =>
      rw [hvalue] at h
      obtain ⟨⟨later, hlater, hrefused⟩, hrow⟩ : (∃ entry ∈ entries, IsRefused o entry) ∧
          fault.row? = some row := by
        cases value? with
        | none => exact ih h
        | some v => exact ih h
      exact ⟨⟨later, .tail _ hlater, hrefused⟩, hrow⟩

theorem isSound_of_rowOf (h : rowOf o columns row cells = .ok new) : IsSound o columns cells :=
  ⟨(rowOf_eq_ok h).1, not_isRefused_of_addCells (rowOf_eq_ok h).2⟩

/-- A record fails with the number that it was given. -/
theorem rowOf_eq_error (h : rowOf o columns row cells = .error fault) :
    ¬IsSound o columns cells ∧ fault.row? = some row := by
  rw [rowOf] at h
  split at h
  · next hwide =>
    obtain rfl := Except.error.inj h
    exact ⟨fun sound => Nat.not_lt.2 sound.narrow hwide, rfl⟩
  · obtain ⟨⟨entry, hentry, hrefused⟩, hrow⟩ := addCells_eq_error h
    exact ⟨fun sound => sound.accepted entry hentry hrefused, hrow⟩

theorem isSound_of_rowsFrom (h : rowsFrom o columns row data = .ok rows) :
    ∀ cells ∈ data, IsSound o columns cells := by
  have hrows := rowsFrom_eq_ok h
  clear h
  induction hrows with
  | nil => nofun
  | cons hrow _ ih =>
    obtain ⟨n, hrow⟩ := hrow
    exact List.forall_mem_cons.2 ⟨isSound_of_rowOf hrow, ih⟩

/-- The rows of the records are numbered one after the other. -/
theorem rowsFrom_eq_error (h : rowsFrom o columns row data = .error fault) :
    ∃ before cells after, data = before ++ cells :: after ∧
      (∀ sound ∈ before, IsSound o columns sound) ∧ ¬IsSound o columns cells ∧
      fault.row? = some (before.length + row) := by
  induction data generalizing row with
  | nil => cases h
  | cons cells data ih =>
    rw [rowsFrom] at h
    cases hrow : rowOf o columns row cells with
    | error first =>
      rw [hrow] at h
      obtain rfl : first = fault := Except.error.inj h
      obtain ⟨unsound, hnumber⟩ := rowOf_eq_error hrow
      refine ⟨[], cells, data, rfl, List.forall_mem_nil _, unsound, ?_⟩
      rw [hnumber, List.length_nil, Nat.zero_add]
    | ok new =>
      rw [hrow] at h
      have hmore : rowsFrom o columns (row + 1) data = .error fault := by
        cases hrows : rowsFrom o columns (row + 1) data with
        | error later =>
          rw [hrows] at h
          exact h
        | ok rows =>
          rw [hrows] at h
          cases h
      obtain ⟨before, first, after, rfl, sound, unsound, hnumber⟩ := ih hmore
      refine ⟨cells :: before, first, after, rfl, ?_, unsound, ?_⟩
      · exact List.forall_mem_cons.2 ⟨isSound_of_rowOf hrow, sound⟩
      · rw [hnumber, List.length_cons, Nat.add_right_comm, Nat.add_assoc]

/-- The records behind the header are numbered from 2. -/
theorem firstUnsound_of_rowsFrom
    (h : rowsFrom o columns 2 (splitHeaders o.headers records).2 = .error fault) :
    ∃ position, FirstUnsound o columns records position ∧
      fault.row? = some (position + 1 - o.headers.size) := by
  obtain ⟨before, cells, after, hdata, sound, unsound, hnumber⟩ := rowsFrom_eq_error h
  rw [splitHeaders_snd] at hdata
  have hheader : (records.take o.headers.size).length = o.headers.size := by
    have hlength := congrArg List.length hdata
    rw [List.length_drop, List.length_append, List.length_cons] at hlength
    rw [List.length_take]
    omega
  refine ⟨_, ⟨records.take o.headers.size ++ before, cells, after, ?_, ?_, ?_, unsound, rfl⟩, ?_⟩
  · rw [List.append_assoc, ← hdata, List.take_append_drop]
  · rw [List.length_append, hheader]
    exact Nat.le_add_right _ _
  · rwa [List.drop_left' hheader]
  · rw [hnumber, List.length_append, hheader]
    congr 1
    omega

end Table

namespace Loader
namespace Builtin

open Table (Column FirstUnsound IsSound)

variable {files : Files} {call : Call} {o : Table.Options} {columns : List Column}
  {records : List (List String)}

/-- If the call fails because of a record, the number in the message is the position that the record
has in the file. -/
def NumbersByFile (files : Files) (call : Call) : Prop :=
  ∀ fault number, (csv.load files call).result = .error (.loading fault) →
    fault.row? = some number → ∃ o columns records, ReadsRecords files call o columns records ∧
      FirstUnsound o columns records number

/-- In a file that has been read, the number is the position, unless the file has no header and one
of its records is not sound. -/
theorem firstUnsound_iff_of_readsRecords (h : ReadsRecords files call o columns records) :
    (∀ fault number, (csv.load files call).result = .error (.loading fault) →
        fault.row? = some number → FirstUnsound o columns records number) ↔
      (∀ header, o.headers ≠ .given header) ∨ ∀ cells ∈ records, IsSound o columns cells := by
  have hresult := h.readsTable.result_load
  cases hrows : Table.rowsFrom o columns 2 (Table.splitHeaders o.headers records).2 with
  | error fault =>
    rw [hrows] at hresult
    obtain ⟨position, hfirst, hnumber⟩ := Table.firstUnsound_of_rowsFrom hrows
    constructor
    · intro hnumbers
      refine .inl fun header hgiven => ?_
      rw [hgiven] at hnumber
      exact absurd ((hnumbers fault _ hresult hnumber).unique hfirst) (Nat.succ_ne_self position)
    · rintro (hheader | hsound) fault' number hresult' hnumber'
      · obtain rfl : fault = fault' := Error.loading.inj (Except.error.inj
          (hresult.symm.trans hresult'))
        rw [Table.Headers.size_of_ne hheader, hnumber'] at hnumber
        exact Option.some.inj hnumber ▸ hfirst
      · obtain ⟨before, cells, after, rfl, -, -, unsound, -⟩ := hfirst
        exact absurd (hsound cells (by simp)) unsound
  | ok rows =>
    rw [hrows] at hresult
    refine iff_of_true (fun fault number hfailed => ?_) ?_
    · cases hresult.symm.trans hfailed
    · have hsound := Table.isSound_of_rowsFrom hrows
      cases hheaders : o.headers with
      | given header =>
        rw [hheaders] at hsound
        exact .inr hsound
      | replaced _ | firstRecord => exact .inl nofun

/-- The number is the position, unless the file has no header and one of its records is not
sound. -/
theorem numbersByFile_iff (files : Files) (call : Call) : NumbersByFile files call ↔
    ∀ o columns records, ReadsRecords files call o columns records →
      (∀ header, o.headers ≠ .given header) ∨ ∀ cells ∈ records, IsSound o columns cells := by
  constructor
  · intro hnumbers o columns records hreads
    refine (firstUnsound_iff_of_readsRecords hreads).1 fun fault number hresult hnumber => ?_
    obtain ⟨o', columns', records', hreads', hfirst⟩ := hnumbers fault number hresult hnumber
    obtain ⟨rfl, rfl, rfl⟩ := hreads.unique hreads'
    exact hfirst
  · intro hreading fault number hresult hnumber
    obtain ⟨o, columns, records, hreads⟩ := exists_readsRecords_of_row hresult hnumber
    have hfirst := (firstUnsound_iff_of_readsRecords hreads).2 (hreading o columns records hreads)
    exact ⟨o, columns, records, hreads, hfirst fault number hresult hnumber⟩

/-- A call with an option for header cells, which gives a single one. -/
def namingCall : Call :=
  pricesCallWith [("headers", .sequence [.string "name"])]

/-- The first record of a file without a header is row 2 in the message about it. -/
theorem first_record_is_row_two :
    ReadsRecords (pricesFile "pear;2\n") namingCall { headers := .given ["name"] }
        [⟨"name", .string⟩] [["pear", "2"]] ∧
      (csv.load (pricesFile "pear;2\n") namingCall).result = .error (.loading (.wideRow 2)) ∧
      FirstUnsound { headers := .given ["name"] } [⟨"name", .string⟩] [["pear", "2"]] 1 ∧
      ¬NumbersByFile (pricesFile "pear;2\n") namingCall := by
  have hreads : ReadsRecords (pricesFile "pear;2\n") namingCall { headers := .given ["name"] }
      [⟨"name", .string⟩] [["pear", "2"]] := readsRecords_prices rfl rfl rfl rfl
  have hresult := hreads.readsTable.result_load
  have hwide : ¬IsSound { headers := .given ["name"] } [⟨"name", .string⟩] ["pear", "2"] :=
    fun sound => absurd sound.narrow (by decide)
  have hfirst : FirstUnsound { headers := .given ["name"] } [⟨"name", .string⟩] [["pear", "2"]]
      1 := ⟨[], _, [], rfl, Nat.le_refl 0, by simp, hwide, rfl⟩
  refine ⟨hreads, hresult, hfirst, fun hnumbers => ?_⟩
  obtain ⟨o, columns, records, hreads', hsecond⟩ := hnumbers _ 2 hresult rfl
  obtain ⟨rfl, rfl, rfl⟩ := hreads.unique hreads'
  cases hsecond.unique hfirst

end Builtin
end Loader
end TextualData
