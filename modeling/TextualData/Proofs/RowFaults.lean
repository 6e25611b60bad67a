import TextualData.Proofs.TableRecords

/-!
# Faults that are about a row

A fault may be about a row of a table (`LoadFault.row?`). Arguments, options and header cells are
refused without naming a row (`NamesNoRow`), so that a call of the loader `csv` that fails because
of a row has read the records of its file (`Loader.Builtin.exists_readsRecords_of_row`).
-/

namespace TextualData

/-- The number of the row that a fault is about. -/
def LoadFault.row? : LoadFault → Option Nat
  | wideRow row => some row
  | invalidCell _ _ row _ => some row
  | _ => none

/-- If the computation fails, the fault is about no row. -/
def NamesNoRow {α : Type} (r : Except LoadFault α) : Prop :=
  ∀ fault, r = .error fault → fault.row? = none

namespace NamesNoRow

variable {α β : Type} {r : Except LoadFault α} {f : α → Except LoadFault β} {a : α}
  {fault : LoadFault}

theorem ok (a : α) : NamesNoRow (.ok a) := by
  intro fault h
  cases h

theorem error (h : fault.row? = none) : NamesNoRow (.error fault : Except LoadFault α) := by
  intro fault' h'
  obtain rfl := Except.error.inj h'
  exact h

theorem bind (h : NamesNoRow r) (hf : ∀ a, NamesNoRow (f a)) : NamesNoRow (r >>= f) := by
  cases r with
  | error fault => exact error (h fault rfl)
  | ok a => exact hf a

theorem map (h : NamesNoRow r) (g : α → β) : NamesNoRow (r.map g) := by
  cases r with
  | error fault => exact error (h fault rfl)
  | ok a => exact ok (g a)

theorem mapM (hf : ∀ a, NamesNoRow (f a)) (l : List α) : NamesNoRow (l.mapM f) := by
  induction l with
  | nil => exact ok []
  | cons a l ih =>
    rw [List.mapM_cons]
    exact (hf a).bind fun _ => ih.bind fun _ => ok _

theorem foldlM {step : β → α → Except LoadFault β} (hstep : ∀ b a, NamesNoRow (step b a))
    (b : β) (l : List α) : NamesNoRow (l.foldlM step b) := by
  induction l generalizing b with
  | nil => exact ok b
  | cons a l ih =>
    rw [List.foldlM_cons]
    exact (hstep b a).bind ih

end NamesNoRow

/-! ## Options -/

namespace LoaderOption

variable (name : String) (v : Value)

theorem string_namesNoRow : NamesNoRow (string name v) := by
  cases v with
  | string s => exact .ok s
  | _ => exact .error rfl

theorem boolean_namesNoRow : NamesNoRow (boolean name v) := by
  cases v with
  | boolean b => exact .ok b
  | _ => exact .error rfl

theorem character_namesNoRow : NamesNoRow (character name v) := by
  cases v with
  | string s =>
    rw [character]
    split
    · exact .ok '\t'
    · split
      · exact .ok _
      · exact .error rfl
  | _ => exact .error rfl

theorem stringsFrom_namesNoRow (index : Nat) (items : List Value) :
    NamesNoRow (stringsFrom name index items) := by
  induction items generalizing index with
  | nil => exact .ok []
  | cons item items ih =>
    cases item with
    | string s => exact (ih (index + 1)).bind fun _ => .ok _
    | _ => exact .error rfl

theorem strings_namesNoRow : NamesNoRow (strings name v) := by
  cases v with
  | sequence items => exact stringsFrom_namesNoRow name 0 items
  | _ => exact .error rfl

theorem stringsOrString_namesNoRow : NamesNoRow (stringsOrString name v) := by
  cases v with
  | sequence items => exact stringsFrom_namesNoRow name 0 items
  | string s => exact .ok [s]
  | _ => exact .error rfl

end LoaderOption

namespace Table

open LoaderOption

variable (o : Options)

theorem Options.setHeaders_namesNoRow {headers : Except LoadFault Headers}
    (h : NamesNoRow headers) : NamesNoRow (o.setHeaders headers) := by
  unfold Options.setHeaders
  split
  · exact h.map _
  · exact .error rfl

theorem Options.separatorOf_namesNoRow (c : Char) : NamesNoRow (Options.separatorOf c) := by
  unfold Options.separatorOf
  split
  · exact .ok c
  · exact .error rfl

theorem Options.set_namesNoRow (name : String) (v : Value) : NamesNoRow (o.set name v) := by
  unfold Options.set
  split
  · exact o.setHeaders_namesNoRow ((strings_namesNoRow _ v).map _)
  · exact o.setHeaders_namesNoRow ((strings_namesNoRow _ v).map _)
  · exact (boolean_namesNoRow _ v).bind fun _ => .ok _
  · exact (boolean_namesNoRow _ v).bind fun _ => .ok _
  · exact (stringsOrString_namesNoRow _ v).bind fun _ => .ok _
  · exact (character_namesNoRow _ v).bind fun c =>
      (Options.separatorOf_namesNoRow c).bind fun _ => .ok _
  · exact (character_namesNoRow _ v).bind fun _ => .ok _
  · exact (character_namesNoRow _ v).bind fun _ => .ok _
  · exact ((string_namesNoRow _ v).bind fun _ => .ok _).bind fun _ => .ok _
  · exact ((string_namesNoRow _ v).bind fun _ => .ok _).bind fun _ => .ok _
  · exact .error rfl

theorem Options.ofHash_namesNoRow (h : Hash) : NamesNoRow (Options.ofHash h) :=
  .foldlM (fun o entry => o.set_namesNoRow entry.1 entry.2) _ h

/-! ## Header cells -/

theorem Column.typeNamed_namesNoRow (name : String) : NamesNoRow (Column.typeNamed name) := by
  unfold Column.typeNamed
  split
  · exact .ok _
  · split
    · exact .ok _
    · split
      · exact .ok _
      · split <;> exact .error rfl

theorem Column.ofHeader_namesNoRow (cell : String) : NamesNoRow (Column.ofHeader o cell) := by
  rw [Column.ofHeader]
  generalize Column.splitType _ = parts
  obtain ⟨name, type?⟩ := parts
  cases type? with
  | none => exact .ok _
  | some type => exact (Column.typeNamed_namesNoRow _).bind fun _ => .ok _

/-- A table that cannot be read because of a row has columns. -/
theorem exists_columns_of_row {l : List Char} {fault : LoadFault} {n : Nat}
    (h : load o l = .error fault) (hrow : fault.row? = some n) :
    ∃ columns, (splitHeaders o.headers (records o.separator l)).1.mapM (Column.ofHeader o) =
      .ok columns := by
  obtain ⟨header, data, split⟩ : ∃ header data,
    splitHeaders o.headers (records o.separator l) = (header, data) := ⟨_, _, rfl⟩
  rw [split]
  cases hcolumns : header.mapM (Column.ofHeader o) with
  | ok columns => exact ⟨columns, rfl⟩
  | error first =>
    rw [load, split] at h
    dsimp only at h
    rw [hcolumns] at h
    obtain rfl : first = fault := Except.error.inj h
    rw [NamesNoRow.mapM (Column.ofHeader_namesNoRow o) header first hcolumns] at hrow
    cases hrow

end Table

namespace Loader

/-! ## Arguments -/

theorem Arguments.fileName_namesNoRow (usage : Usage) (v : Value) :
    NamesNoRow (Arguments.fileName usage v) := by
  cases v with
  | string s => exact .ok s
  | _ => exact .error rfl

theorem Arguments.ofOptions_namesNoRow (file : String) (options : Hash) :
    NamesNoRow (Arguments.ofOptions file options) := by
  unfold Arguments.ofOptions
  split
  · exact .ok _
  · exact (LoaderOption.string_namesNoRow _ _).bind fun _ => .ok _

theorem Arguments.readSecond_namesNoRow (usage : Usage) (file : String) (v : Value) :
    NamesNoRow (Arguments.readSecond usage file v) := by
  unfold Arguments.readSecond
  split
  · exact Arguments.ofOptions_namesNoRow file _
  · exact .error rfl
  · exact .ok _
  · exact .error rfl

theorem Arguments.ofList_namesNoRow (usage : Usage) (args : List Value) :
    NamesNoRow (Arguments.ofList usage args) := by
  unfold Arguments.ofList
  split
  · exact .error rfl
  · cases args with
    | nil => exact .error rfl
    | cons first more =>
      refine (Arguments.fileName_namesNoRow usage first).bind fun file => ?_
      cases more with
      | nil => exact .ok _
      | cons second _ => exact Arguments.readSecond_namesNoRow usage file second

namespace Builtin

variable {files : Files} {call : Call} {fault : LoadFault} {n : Nat}

/-- A file that cannot be read as text is no fault of the loader. -/
theorem readText_ne_loading (files : Files) (path encoding : String) :
    (readText files path encoding).result ≠ .error (.loading fault) := by
  intro h
  rw [readText] at h
  obtain h | ⟨bytes, -, h⟩ := LoadM.result_bind_eq_error h
  · change (files.read path).mapError Error.file = _ at h
    cases hread : files.read path with
    | error first =>
      rw [hread] at h
      cases h
    | ok bytes =>
      rw [hread] at h
      cases h
  obtain h | ⟨text, -, h⟩ := LoadM.result_bind_eq_error h
  · change Charset.decode bytes encoding = _ at h
    unfold Charset.decode Charset.lookup at h
    split at h
    · cases h
    · split at h
      · cases h
      · cases h
  · cases h

/-- A call that fails because of a row has read the records of its file. -/
theorem exists_readsRecords_of_row (h : (csv.load files call).result = .error (.loading fault))
    (hrow : fault.row? = some n) :
    ∃ o columns records, ReadsRecords files call o columns records := by
  rw [load] at h
  obtain h | ⟨arguments, harguments, h⟩ := LoadM.result_bind_eq_error h
  · rw [Arguments.ofList_namesNoRow _ _ fault (LoadM.result_ofFault_eq_error h)] at hrow
    cases hrow
  obtain h | ⟨o, hoptions, h⟩ := LoadM.result_bind_eq_error h
  · rw [Table.Options.ofHash_namesNoRow _ fault (LoadM.result_ofFault_eq_error h)] at hrow
    cases hrow
  obtain h | ⟨l, htext, h⟩ := LoadM.result_bind_eq_error h
  · exact absurd h (readText_ne_loading files _ _)
  obtain h | ⟨table, -, h⟩ := LoadM.result_bind_eq_error h
  · obtain ⟨columns, hcolumns⟩ :=
      Table.exists_columns_of_row o (LoadM.result_ofFault_eq_error h) hrow
    exact ⟨o, columns, _, .intro (LoadM.result_ofFault_eq_ok harguments)
      (LoadM.result_ofFault_eq_ok hoptions) htext rfl hcolumns⟩
  · cases h

end Builtin
end Loader

end TextualData
