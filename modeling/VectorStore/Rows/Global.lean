import VectorStore.Rows.Events

/-!
# Rows of a global index

A global index has one partition, which always exists, so that a row never changes partitions:
its target is a last-write-wins register.
-/

namespace VectorStore

/-- The value of a target, with its stamp. -/
def Target.value (target : Target) : Stamped Timestamp (Option SplittingValues) :=
  ⟨target.stamp, target.held.map Prod.snd⟩

/-- The target of a row that does not change partitions is a register. -/
theorem Target.value_process {present : PartitionKey → Bool} {pkey : PartitionKey}
    {write : Stamped Timestamp (Option SplittingValues)} {target : Target}
    (h : changesPartition present target.key (some pkey) = false) :
    (target.process present (some pkey) write.stamp write.content).value =
      target.value.absorb write := by
  rcases lt_trichotomy target.stamp write.stamp with hlt | heq | hgt
  · have hskips : target.skips (some pkey) = false := by simp [skips]
    rw [process_of_lt hlt, hskips, Stamped.absorb_of_lt hlt, Option.bind_some]
    refine Stamped.ext rfl ?_
    change (write.content.map fun v => (pkey, v)).map Prod.snd = write.content
    rw [Option.map_map]
    exact Option.map_id'
  · rw [process_of_eq heq, h, Stamped.absorb_of_le heq.ge]
    rfl
  · rw [process_of_gt hgt, Stamped.absorb_of_le hgt.le]

/-- A global index has no partition columns. -/
theorem Schema.nonpk_of_global {schema : Schema} (h : schema.partitionColumns = none) :
    schema.nonpkPartitionKeyColumns = [] := by
  unfold Schema.nonpkPartitionKeyColumns
  rw [h]
  rfl

namespace World

/-- A global index has one partition. -/
theorem present_of_global {w : World} (h : w.schema.partitionColumns = none)
    (pkey : PartitionKey) : w.present pkey = decide (pkey = .whole) := by
  unfold present Index.present IndexData.locate
  have hdata : w.table.index.data.partitionColumns = none := h
  cases hindex : w.table.index.data with
  | globalIndex =>
    dsimp only
    by_cases hkey : pkey = .whole <;> simp [hkey]
  | localIndex data =>
    rw [hindex] at hdata
    cases hdata

/-- The row is in the index. -/
def IsLive (w : World) (key : PrimaryKey) : Prop := (w.row key).target.held.isSome

/-- A row of a global index is due in the only partition, or in the one it is held in. -/
theorem exists_due_of_global {w : World} (h : w.schema.partitionColumns = none) (key : PrimaryKey)
    (call : Call) :
    ∃ pkey, w.due key call = some pkey ∧
      changesPartition w.present (w.row key).target.key (some pkey) = false := by
  have hnonpk := Schema.nonpk_of_global h
  unfold due Row.destination Row.partitionKey Target.key
  rw [hnonpk, h, Row.target_absorb]
  cases hheld : (w.row key).target.held with
  | none =>
    refine ⟨.whole, rfl, ?_⟩
    simp [changesPartition, present_of_global h]
  | some held =>
    refine ⟨held.1, rfl, ?_⟩
    simp [changesPartition]

variable [DecimalNormalizer] {w : World} {key : PrimaryKey} {call : Call} {calls : List Call}

/-- A call on a row of a global index writes its register. -/
theorem value_step_of_global (hw : w.Consistent) (h : w.schema.partitionColumns = none)
    (hok : w.Succeeds call) (hkey : w.keyOf call = .ok key) :
    ((w.step call).row key).target.value = (w.row key).target.value.absorb call.target := by
  obtain ⟨pkey, hdue, hchanges⟩ := exists_due_of_global h key call
  rw [target_step hw hok hkey, hdue]
  exact Target.value_process hchanges

/-- A call on a row writes the registers of its columns. -/
theorem cells_step (hw : w.Consistent) (hok : w.Succeeds call) (hkey : w.keyOf call = .ok key)
    (name : ColumnName) :
    ((w.step call).row key).cells name =
      ((w.row key).cells name).absorbAll (call.cells w.schema name) := by
  have hwf := (step_stepped hw (hok.reaches_of_keyOf hw hkey)).succeeds_iff.mp hok
  rw [step_row_of_succeeds hw hok hkey, Row.call_of_wellFormed hwf, Row.cells_process,
    Row.cells_absorb]

/-- The calls on a row succeed; those on other rows may fail. -/
def SucceedsAt (key : PrimaryKey) (w : World) (call : Call) : Prop :=
  w.keyOf call = .ok key → w.Succeeds call

instance : Decidable (SucceedsAt key w call) :=
  inferInstanceAs (Decidable (w.keyOf call = .ok key → w.Succeeds call))

/-- After a run the register of a row holds what its events left there. -/
theorem value_run_of_global (hw : w.Consistent) (h : w.schema.partitionColumns = none)
    (hok : Machine.Along step (SucceedsAt key) w calls) :
    ((Machine.run step w calls).row key).target.value =
      (w.row key).target.value.absorbAll ((w.eventsOf key calls).map Call.target) := by
  induction calls generalizing w with
  | nil => rfl
  | cons call calls ih =>
    obtain ⟨hcall, hcalls⟩ := hok
    have hstep := ih (step_consistent hw call) ((congrArg Schema.partitionColumns
      (step_schema hw call)).trans h) hcalls
    rw [eventsOf_step hw] at hstep
    rw [Machine.run_cons, hstep]
    by_cases hkey : w.keyOf call = .ok key
    · rw [eventsOf_cons_of_eq hkey, value_step_of_global hw h (hcall hkey) hkey]
      rfl
    · rw [eventsOf_cons_of_ne hkey, step_row_of_ne hw hkey]

end World

end VectorStore
