import VectorStore.Rows.World

/-!
# The stored keys

A row keeps the primary key of the first call that reached it, as this call had it: a key is known
when it is stored, and what is stored normalizes to the key that it is looked up by.
-/

namespace VectorStore

/-- A call gives its key to a row that has none. -/
theorem Row.key_call (schema : Schema) (present : PartitionKey → Bool) (call : Call) (row : Row) :
    (row.call schema present call).key = row.key.or (some call.primaryKey) := by
  unfold Row.call
  split
  · rfl
  · dsimp only
    split
    · rfl
    · rfl

namespace World

variable [DecimalNormalizer] {w : World} {call : Call} {key : PrimaryKey}

/-- Every known key has a stored one that normalizes to it. -/
def StoresKeys (w : World) : Prop :=
  ∀ key, w.Knows key → ∃ raw, (w.row key).key = some raw ∧ w.table.normalizePrimaryKey raw = .ok key

/-- A call that reaches a row gives it a key, unless it has one. -/
theorem key_of_reaches (h : w.Consistent) (hreach : w.Reaches call key) :
    ((w.step call).row key).key = (w.row key).key.or (some call.primaryKey) := by
  rw [(step_stepped h hreach).row, Function.update_self, Row.key_call]

/-- A stored key stays. -/
theorem step_key (h : w.Consistent) (call : Call) {raw : PrimaryKey}
    (hraw : (w.row key).key = some raw) : ((w.step call).row key).key = some raw := by
  by_cases hreach : ∃ key', w.Reaches call key'
  · obtain ⟨key', hreach⟩ := hreach
    by_cases hkey : key = key'
    · subst hkey
      rw [key_of_reaches h hreach, hraw, Option.some_or]
    · rw [(step_stepped h hreach).row, Function.update_of_ne hkey, hraw]
  · push Not at hreach
    rw [(step_refused h hreach).row, hraw]

theorem run_key (h : w.Consistent) (calls : List Call) {raw : PrimaryKey}
    (hraw : (w.row key).key = some raw) :
    ((Machine.run step w calls).row key).key = some raw :=
  run_keeps (P := fun w' => (w'.row key).key = some raw)
    (fun _ call hw' hraw' => step_key hw' call hraw') h hraw calls

theorem step_storesKeys (h : w.Consistent) (hstores : w.StoresKeys) (call : Call) :
    (w.step call).StoresKeys := by
  have hnormalize : ∀ raw, (w.step call).table.normalizePrimaryKey raw =
      w.table.normalizePrimaryKey raw := fun raw =>
    Table.normalizePrimaryKey_congr (step_schema h call) raw
  intro key hknown
  by_cases hbefore : w.Knows key
  · obtain ⟨raw, hraw, hkey⟩ := hstores key hbefore
    exact ⟨raw, step_key h call hraw, (hnormalize raw).trans hkey⟩
  · by_cases hreach : ∃ key', w.Reaches call key'
    · obtain ⟨key', hreach⟩ := hreach
      obtain rfl := (((step_stepped h hreach).knows key).mp hknown).resolve_left hbefore
      refine ⟨call.primaryKey, ?_, (hnormalize _).trans hreach.keyOf_eq⟩
      rw [key_of_reaches h hreach, row_of_not_knows hbefore]
      rfl
    · push Not at hreach
      exact absurd (((step_refused h hreach).knows key).mp hknown) hbefore

omit [DecimalNormalizer] in
/-- The key that the table stores for an identifier is that of its row. -/
theorem primaryKeys_get {id : PrimaryId} (hid : w.table.primaryIds.lookup key = some id) :
    (w.table.primaryKeys.get id).join = (w.row key).key :=
  congrArg Row.key (Table.Consistent.rows_eq hid).symm

/-- In a reachable world, every known key has a stored one. -/
theorem Reachable.storesKeys (h : w.Reachable) : w.StoresKeys := by
  obtain ⟨table, calls, hnew, rfl⟩ := h
  exact run_keeps (fun _ call hw hstores => step_storesKeys hw hstores call)
    (consistent_init hnew) (fun key hknown => absurd hknown (not_knows_init hnew key)) calls

end World

end VectorStore
