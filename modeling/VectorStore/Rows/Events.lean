import Mathlib.Data.List.TakeWhile
import VectorStore.Rows.World

/-!
# What a call writes

A call whose values suit their columns writes the target of its row once and some of its columns,
each with a stamp of its own.  `Row.call_of_wellFormed` describes the row after the call by these
writes alone.  In a run, the events of a row are the calls that are looked up by its key.
-/

namespace VectorStore

/-! ## The writes of a call -/

/-- The value that an index stores of a database value. -/
def DbIndexedValue.indexed : DbIndexedValue → Option SplittingValues
  | vector value => some (.vector value)
  | document value => some (.document value)
  | filtering _ => none

/-- The value that a column stores of a database value. -/
def DbIndexedValue.column : DbIndexedValue → Option CqlValue
  | filtering value => some value
  | vector _ | document _ => none

namespace Call

/-- What a call writes to the target of its row. -/
def target : Call → Stamped Timestamp (Option SplittingValues)
  | upsert _ _ values => ⟨values.first.timestamp, values.first.value.bind DbIndexedValue.indexed⟩
  | delete _ _ timestamp => ⟨timestamp, none⟩

/-- What a call writes to the columns of its row, in order. -/
def columnWrites (schema : Schema) : Call → List (Cell × ColumnName)
  | upsert _ _ values =>
    (values.rest.map fun value => ⟨value.timestamp, value.value.bind DbIndexedValue.column⟩).zip
      (schema.nonpkPartitionKeyColumns ++ schema.filteringColumns)
  | delete _ _ timestamp => schema.filteringColumns.map fun name => (⟨timestamp, none⟩, name)

/-- What a call writes to one column of its row. -/
def cells (schema : Schema) (call : Call) (name : ColumnName) : List Cell :=
  ((call.columnWrites schema).filter fun write => write.2 = name).map Prod.fst

end Call

theorem Call.mem_cells {schema : Schema} {call : Call} {name : ColumnName} {cell : Cell}
    (h : cell ∈ call.cells schema name) : ∃ write ∈ call.columnWrites schema, write.1 = cell := by
  obtain ⟨write, hwrite, rfl⟩ := List.mem_map.mp h
  exact ⟨write, List.mem_of_mem_filter hwrite, rfl⟩

namespace Table

/-- A value that could be split for a column. -/
theorem splitFiltering_eq {value : Timestamped DbIndexedValue} {write : ColumnWrite}
    (h : splitFiltering value = .ok write) :
    write = (value.timestamp, value.value.bind DbIndexedValue.column) := by
  unfold splitFiltering at h
  cases hvalue : value.value with
  | none =>
    rw [hvalue] at h
    exact (Except.ok.inj h).symm
  | some v =>
    rw [hvalue] at h
    cases v with
    | filtering v => exact (Except.ok.inj h).symm
    | vector v => cases h
    | document v => cases h

/-- The values that could be split for columns. -/
theorem mapM_splitFiltering_eq {values : List (Timestamped DbIndexedValue)}
    {writes : List ColumnWrite} (h : values.mapM splitFiltering = .ok writes) :
    writes = values.map fun value =>
      (value.timestamp, value.value.bind DbIndexedValue.column) := by
  induction values generalizing writes with
  | nil => exact (Except.ok.inj h).symm
  | cons value values ih =>
    rw [List.mapM_cons] at h
    obtain ⟨write, hwrite, h⟩ := bind_eq_ok h
    obtain ⟨rest, hrest, h⟩ := bind_eq_ok h
    obtain rfl := Except.ok.inj h
    rw [List.map_cons, splitFiltering_eq hwrite, ih hrest]

/-- A value that could be split for the index. -/
theorem splitValue_eq {value : Option DbIndexedValue} {split : Option SplittingValues}
    (h : splitValue value = .ok split) : split = value.bind DbIndexedValue.indexed := by
  cases value with
  | none => exact (Except.ok.inj h).symm
  | some v =>
    cases v with
    | vector v => exact (Except.ok.inj h).symm
    | document v => exact (Except.ok.inj h).symm
    | filtering v => cases h

end Table

namespace Call

/-- The split values of a call are what it writes. -/
theorem split_eq (schema : Schema) {call : Call} {split : Table.SplitValuesFiltering}
    (h : call.split = .ok split) :
    split.timestamps.first.timestamp = call.target.stamp ∧ split.values = call.target.content ∧
      (call.writes schema split).map (fun write => (⟨write.1.1, write.1.2⟩, write.2)) =
        call.columnWrites schema := by
  cases call with
  | delete indexKey primaryKey timestamp =>
    obtain rfl := Except.ok.inj h
    refine ⟨Timestamped.timestamp_new _ _, rfl, ?_⟩
    unfold writes columnWrites
    dsimp only
    induction schema.filteringColumns with
    | nil => rfl
    | cons name names ih => rw [List.map_cons, List.zip_cons_cons, List.map_cons, ih, List.map_cons]
  | upsert indexKey primaryKey values =>
    have h' : Table.splitValuesFiltering values = .ok split := h
    unfold Table.splitValuesFiltering at h'
    obtain ⟨value, hvalue, h'⟩ := bind_eq_ok h'
    obtain ⟨filtering, hfiltering, h'⟩ := bind_eq_ok h'
    obtain rfl := Except.ok.inj h'
    refine ⟨?_, Table.splitValue_eq hvalue, ?_⟩
    · dsimp only
      split <;> exact Timestamped.timestamp_new _ _
    · unfold writes columnWrites
      dsimp only
      rw [Table.mapM_splitFiltering_eq hfiltering, List.zip_map_left, List.zip_map_left,
        List.map_map]
      rfl

end Call

/-! ## A row after a call -/

/-- A column after writes to some columns is its register after the writes to it. -/
theorem Cells.foldl_write (cells : Cells) (writes : List (ColumnWrite × ColumnName))
    (name : ColumnName) :
    writes.foldl Cells.write cells name =
      (cells name).absorbAll ((writes.filter fun write => write.2 = name).map fun write =>
        ⟨write.1.1, write.1.2⟩) := by
  induction writes generalizing cells with
  | nil => rfl
  | cons write writes ih =>
    rw [List.foldl_cons, ih]
    unfold Cells.write
    by_cases hname : write.2 = name
    · rw [List.filter_cons_of_pos (by simp [hname]), List.map_cons, Stamped.absorbAll_cons, hname,
        Function.update_self]
    · rw [List.filter_cons_of_neg (by simp [hname]), Function.update_of_ne (Ne.symm hname)]

namespace Row

/-- The row with its key and its columns as they are after a call. -/
def absorb (schema : Schema) (call : Call) (row : Row) : Row :=
  { row.touch call.primaryKey with
    cells := fun name => (row.cells name).absorbAll (call.cells schema name) }

variable {schema : Schema} {present : PartitionKey → Bool} {call : Call} {row : Row}

/-- Preparing a row with a call that suits its columns. -/
theorem prepare_of_all {split : Table.SplitValuesFiltering} (hsplit : call.split = .ok split)
    (hall : (call.writes schema split).all (accepts schema.shape) = true) :
    row.prepare schema call split = row.absorb schema call := by
  have htake : (call.writes schema split).takeWhile (accepts schema.shape) =
      call.writes schema split :=
    List.takeWhile_eq_self_iff.mpr (List.all_eq_true.mp hall)
  refine Row.ext rfl (funext fun name => ?_) rfl
  change row.cells.writeAll schema.shape (call.writes schema split) name =
    (row.cells name).absorbAll (call.cells schema name)
  unfold Cells.writeAll Call.cells
  rw [htake, Cells.foldl_write, ← (Call.split_eq schema hsplit).2.2, List.filter_map, List.map_map]
  rfl

/-- A call whose values suit their columns writes the columns and processes the target. -/
theorem call_of_wellFormed (h : call.WellFormed schema) :
    row.call schema present call =
      (row.absorb schema call).process schema present call.target.stamp call.target.content := by
  obtain ⟨split, hsplit, hall⟩ := h
  obtain ⟨hstamp, hvalues, -⟩ := Call.split_eq schema hsplit
  unfold Row.call
  rw [hsplit]
  dsimp only
  rw [if_pos hall, prepare_of_all hsplit hall, hstamp, hvalues]

@[simp] theorem key_absorb : (row.absorb schema call).key = row.key.or (some call.primaryKey) := rfl

@[simp] theorem cells_absorb (name : ColumnName) :
    (row.absorb schema call).cells name = (row.cells name).absorbAll (call.cells schema name) := rfl

@[simp] theorem target_absorb : (row.absorb schema call).target = row.target := rfl

/-- Processing the target changes nothing else. -/
@[simp] theorem key_process (timestamp : Timestamp) (value : Option SplittingValues) :
    (row.process schema present timestamp value).key = row.key := rfl

@[simp] theorem cells_process (timestamp : Timestamp) (value : Option SplittingValues) :
    (row.process schema present timestamp value).cells = row.cells := rfl

/-- The stamp of a target never goes back. -/
theorem stamp_le_call : row.target.stamp ≤ (row.call schema present call).target.stamp := by
  unfold Row.call
  split
  · exact le_rfl
  · dsimp only
    split
    · exact Target.stamp_le_process
    · exact le_rfl

/-- A call that is older than the target leaves it alone. -/
theorem target_call_of_gt (h : call.target.stamp < row.target.stamp) :
    (row.call schema present call).target = row.target := by
  unfold Row.call
  cases hsplit : call.split with
  | error e => rfl
  | ok split =>
    dsimp only
    split
    · have hstamp := (Call.split_eq schema hsplit).1
      unfold process
      dsimp only
      rw [hstamp]
      exact Target.process_of_gt h
    · rfl

/-- A call that is older than the target adds nothing. -/
theorem adds_of_gt (h : call.target.stamp < row.target.stamp) :
    row.adds schema present call = false := by
  unfold Row.adds
  cases hsplit : call.split with
  | error e => rfl
  | ok split =>
    dsimp only
    rw [(Call.split_eq schema hsplit).1]
    unfold Target.adds Target.admits
    have htarget : (row.prepare schema call split).target = row.target := rfl
    rw [htarget]
    simp [h.not_gt, h.ne']

end Row

namespace World

/-- The partition a row is due in after a call. -/
def due (w : World) (key : PrimaryKey) (call : Call) : Option PartitionKey :=
  ((w.row key).absorb w.schema call).destination w.schema

/-- The target of a row after a call that succeeds. -/
theorem target_step [DecimalNormalizer] {w : World} {call : Call} {key : PrimaryKey}
    (hw : w.Consistent) (hok : w.Succeeds call) (hkey : w.keyOf call = .ok key) :
    ((w.step call).row key).target =
      (w.row key).target.process w.present (w.due key call) call.target.stamp
        call.target.content := by
  have hwf := (step_stepped hw (hok.reaches_of_keyOf hw hkey)).succeeds_iff.mp hok
  rw [step_row_of_succeeds hw hok hkey, Row.call_of_wellFormed hwf]
  rfl

end World

/-! ## The events of a row -/

namespace World

variable [DecimalNormalizer] {w : World} {key : PrimaryKey} {call : Call} {calls : List Call}

/-- The events that are delivered for a key. -/
def eventsOf (w : World) (key : PrimaryKey) (calls : List Call) : List Call :=
  calls.filter fun call => w.keyOf call = .ok key

theorem mem_eventsOf : call ∈ w.eventsOf key calls ↔ call ∈ calls ∧ w.keyOf call = .ok key := by
  unfold eventsOf
  rw [List.mem_filter, decide_eq_true_iff]

theorem eventsOf_cons_of_eq (h : w.keyOf call = .ok key) :
    w.eventsOf key (call :: calls) = call :: w.eventsOf key calls :=
  List.filter_cons_of_pos (by simpa using h)

theorem eventsOf_cons_of_ne (h : w.keyOf call ≠ .ok key) :
    w.eventsOf key (call :: calls) = w.eventsOf key calls :=
  List.filter_cons_of_neg (by simpa using h)

theorem eventsOf_append_of_eq (h : w.keyOf call = .ok key) :
    w.eventsOf key (calls ++ [call]) = w.eventsOf key calls ++ [call] := by
  unfold eventsOf
  rw [List.filter_append, List.filter_cons_of_pos (by simpa using h), List.filter_nil]

theorem eventsOf_append_of_ne (h : w.keyOf call ≠ .ok key) :
    w.eventsOf key (calls ++ [call]) = w.eventsOf key calls := by
  unfold eventsOf
  rw [List.filter_append, List.filter_cons_of_neg (by simpa using h), List.filter_nil,
    List.append_nil]

/-- No call changes which events are for a key. -/
theorem eventsOf_step (h : w.Consistent) :
    (w.step call).eventsOf key calls = w.eventsOf key calls := by
  unfold eventsOf
  simp only [step_keyOf h]

end World

end VectorStore
