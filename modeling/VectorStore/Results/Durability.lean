import VectorStore.Rows.Events

/-!
# Deletes are durable

A delete that is recorded keeps every older upsert of its row out of the index, for good.  It is
recorded unless the row is in no partition and its columns give it none: then the index forgets the
timestamp of the delete, and an older upsert that is delivered later brings the row back.
-/

namespace VectorStore

/-- An update is recorded unless it is newer and the row neither is nor belongs anywhere. -/
theorem Target.le_stamp_process_iff {present : PartitionKey → Bool} {dest : Option PartitionKey}
    {timestamp : Timestamp} {value : Option SplittingValues} {target : Target} :
    timestamp ≤ (target.process present dest timestamp value).stamp ↔
      ¬(target.held = none ∧ dest = none ∧ target.stamp < timestamp) := by
  rcases lt_or_ge target.stamp timestamp with hlt | hge
  · rw [process_of_lt hlt]
    split
    · next hskips =>
      unfold skips at hskips
      rw [Bool.and_eq_true, Option.isNone_iff_eq_none, Option.isNone_iff_eq_none] at hskips
      exact iff_of_false hlt.not_ge (not_not.mpr ⟨hskips.1, hskips.2, hlt⟩)
    · next hskips =>
      refine iff_of_true le_rfl fun ⟨hheld, hdest, _⟩ => hskips ?_
      unfold skips
      rw [hheld, hdest]
      rfl
  · exact iff_of_true (hge.trans stamp_le_process) fun hnew => hnew.2.2.not_ge hge

namespace World

/-- The call is forgotten: it is newer than what is stored, the row is in no partition and its
columns give it none. -/
def Forgets (w : World) (key : PrimaryKey) (call : Call) : Prop :=
  (w.row key).target.held = none ∧ w.due key call = none ∧
    (w.row key).target.stamp < call.target.stamp

variable [DecimalNormalizer] {w : World} {call : Call} {key : PrimaryKey}

/-- The timestamp of a call is recorded unless the call is forgotten. -/
theorem le_stamp_step_iff (hw : w.Consistent) (hok : w.Succeeds call)
    (hkey : w.keyOf call = .ok key) :
    call.target.stamp ≤ ((w.step call).row key).target.stamp ↔ ¬w.Forgets key call := by
  rw [target_step hw hok hkey]
  exact Target.le_stamp_process_iff

/-- No call takes the stamp of a row back. -/
theorem stamp_le_step (hw : w.Consistent) (call : Call) (key : PrimaryKey) :
    (w.row key).target.stamp ≤ ((w.step call).row key).target.stamp := by
  by_cases hreach : w.Reaches call key
  · rw [(step_stepped hw hreach).row, Function.update_self]
    exact Row.stamp_le_call
  · by_cases hother : ∃ key', w.Reaches call key'
    · obtain ⟨key', hreach'⟩ := hother
      have hne : key ≠ key' := fun heq => hreach (heq ▸ hreach')
      rw [(step_stepped hw hreach').row, Function.update_of_ne hne]
    · push Not at hother
      rw [(step_refused hw hother).row]

theorem stamp_le_run (hw : w.Consistent) (calls : List Call) (key : PrimaryKey) :
    (w.row key).target.stamp ≤ ((Machine.run step w calls).row key).target.stamp :=
  run_keeps (P := fun w' => (w.row key).target.stamp ≤ (w'.row key).target.stamp)
    (fun _ call hw' hle => hle.trans (stamp_le_step hw' call key)) hw le_rfl calls

/-- A call that is older than what is stored of its row adds nothing and leaves the target of the
row as it is. -/
theorem step_of_gt (hw : w.Consistent) (hkey : w.keyOf call = .ok key)
    (hlt : call.target.stamp < (w.row key).target.stamp) :
    (w.emitted call).any Operation.isAdd = false ∧
      ((w.step call).row key).target = (w.row key).target := by
  by_cases hreach : ∃ key', w.Reaches call key'
  · obtain ⟨key', hreach⟩ := hreach
    obtain rfl : key' = key := Except.ok.inj (hreach.keyOf_eq.symm.trans hkey)
    have hstep := step_stepped hw hreach
    refine ⟨hstep.adds_eq.trans (Row.adds_of_gt hlt), ?_⟩
    rw [hstep.row, Function.update_self]
    exact Row.target_call_of_gt hlt
  · push Not at hreach
    have hstep := step_refused hw hreach
    rw [hstep.emitted, hstep.row]
    exact ⟨rfl, rfl⟩

/-- After a delete that succeeds and is not forgotten, whatever is called in between, no older call
on its row adds a value or makes the row live. -/
theorem delete_durable (hw : w.Reachable) {indexKey : IndexKey} {raw : PrimaryKey}
    {timestamp : Timestamp} (hkey : w.keyOf (.delete indexKey raw timestamp) = .ok key)
    (hok : w.Succeeds (.delete indexKey raw timestamp))
    (hrecorded : ¬w.Forgets key (.delete indexKey raw timestamp)) (calls : List Call)
    {call : Call} (hcall : w.keyOf call = .ok key) (hlt : call.target.stamp < timestamp) :
    let w' := Machine.run step (w.step (.delete indexKey raw timestamp)) calls
    (w'.emitted call).any Operation.isAdd = false ∧
      ((w'.step call).row key).target = (w'.row key).target := by
  have hw' := hw.consistent
  have hstep := step_consistent hw' (.delete indexKey raw timestamp)
  have hrun := run_consistent hstep calls
  have hkeyOf : (Machine.run step (w.step (.delete indexKey raw timestamp)) calls).keyOf call =
      .ok key := by
    rw [keyOf_congr ((run_schema hstep calls).trans (step_schema hw' _)) call, hcall]
  have hstamp : timestamp ≤
      ((w.step (.delete indexKey raw timestamp)).row key).target.stamp :=
    (le_stamp_step_iff hw' hok hkey).mpr hrecorded
  exact step_of_gt hrun hkeyOf (hlt.trans_le (hstamp.trans (stamp_le_run hstep calls key)))

end World

namespace Sample

/-- An upsert that is older than a delete of its row. -/
def late : Call := upsert 0 1 (some (vector 1)) 1 (some 1)

end Sample

attribute [local instance] Sample.decimals

theorem delete_durable_global :
    let w := Machine.run World.step ((World.init Sample.globalTable).step (.delete (.new "ks" "idx")
      (Sample.key 0) (Sample.time 5))) []
    (w.emitted Sample.late).any Operation.isAdd = false ∧
      ((w.step Sample.late).row (Sample.key 0)).target = (w.row (Sample.key 0)).target :=
  World.delete_durable ⟨Sample.globalTable, [], Sample.isNew_globalTable, rfl⟩ (by decide +kernel)
    (by decide +kernel) (fun hforgets => absurd hforgets.2.1 (by decide +kernel)) []
    (by decide +kernel) (by decide)

/-- Not every delete is durable: one that is the first event of its row is forgotten. -/
theorem delete_not_always_durable :
    ¬∀ (w : World) (key : PrimaryKey) (indexKey : IndexKey) (raw : PrimaryKey)
      (timestamp : Timestamp) (calls : List Call) (call : Call), w.Reachable →
      w.keyOf (.delete indexKey raw timestamp) = .ok key →
      w.Succeeds (.delete indexKey raw timestamp) → w.keyOf call = .ok key →
      call.target.stamp < timestamp →
      let w' := Machine.run World.step (w.step (.delete indexKey raw timestamp)) calls
      (w'.emitted call).any Operation.isAdd = false ∧
        ((w'.step call).row key).target = (w'.row key).target := by
  intro h
  have hlate := h (World.init Sample.columnTable) (Sample.key 0) (.new "ks" "idx") (Sample.key 0)
    (Sample.time 5) [] Sample.late ⟨Sample.columnTable, [], Sample.isNew_columnTable, rfl⟩
    (by decide +kernel) (by decide +kernel) (by decide +kernel) (by decide)
  have hadds := hlate.1
  revert hadds
  decide +kernel

end VectorStore
