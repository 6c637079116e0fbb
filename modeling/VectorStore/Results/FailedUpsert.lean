import VectorStore.Rows.Identity

/-!
# What a failed upsert leaves behind

An `upsert` that fails has not reached the index of its row: no epoch, partition, target or target
timestamp changes.  It keeps what it did before the error: the primary key is introduced, and the
columns before the one that is rejected are written.
-/

namespace VectorStore

namespace Row

variable {schema : Schema} {present : PartitionKey → Bool} {call : Call} {row : Row}

/-- The row after a call that fails: it has a key, and the columns up to the rejected one. -/
def leftBy (schema : Schema) (call : Call) (row : Row) : Row :=
  { row with
    key := row.key.or (some call.primaryKey)
    cells :=
      match call.split with
      | .error _ => row.cells
      | .ok split => row.cells.writeAll schema.shape (call.writes schema split) }

/-- A call whose values do not suit the columns does not process the target. -/
theorem call_of_not_wellFormed (h : ¬call.WellFormed schema) :
    row.call schema present call = row.leftBy schema call := by
  unfold Row.call leftBy
  cases hsplit : call.split with
  | error e => rfl
  | ok split =>
    have hall : ¬(call.writes schema split).all (accepts schema.shape) = true :=
      fun hall => h ⟨split, hsplit, hall⟩
    dsimp only
    rw [if_neg hall]
    rfl

end Row

/-! ## The index -/

namespace Table

variable {table : Table} {store : Store} {shelf : Shelf} {key : PrimaryKey} {id : PrimaryId}

/-- When the last steps of a call fail, they have not changed the index. -/
theorem index_of_finish_fails (h : table.Consistent store shelf)
    (hid : table.primaryIds.lookup key = some id) (writes : List (ColumnWrite × ColumnName))
    {split : SplitValuesFiltering} {t : Timestamped Unit} (ht : split.timestamps = ⟨t, []⟩)
    (hvalue : t.value.isSome = split.values.isSome)
    (hfree : split.values.isSome → table.index.data.HasFree)
    (hfails : ¬∃ operations, (table.finish id writes split).1 = .ok operations) :
    (table.finish id writes split).2.index = table.index := by
  obtain ⟨shelf', hcalled⟩ := finish_spec h hid writes ht hvalue hfree rfl
  have hall : ¬writes.all (accepts table.schema.shape) = true := fun hall =>
    hfails (hcalled.ok_iff.mpr hall)
  have hup := updateColumnsLoop_updated h.columns (h.lt_size hid) writes
  unfold finish
  generalize updateColumnsLoop id table.columns writes = outcome at hup
  obtain ⟨result, columns⟩ := outcome
  cases result with
  | ok _ => exact absurd (hup.ok_iff.mp rfl) hall
  | error e => rfl

/-- An `upsert` that fails changes no epoch, no assignment and no partition. -/
theorem sameIds_of_upsert_fails [DecimalNormalizer] (h : table.Consistent store shelf)
    {indexKey : IndexKey} {raw : PrimaryKey} {values : NonemptyBox (Timestamped DbIndexedValue)}
    (hfails : ¬∃ operations, (table.upsert indexKey raw values).1 = .ok operations) :
    table.index.SameIds (table.upsert indexKey raw values).2.index := by
  obtain ⟨hindex, -⟩ := sameIds_reservePrimaryIds h
  rcases upsert_eq h indexKey raw values with
    ⟨e, -, heq⟩ | ⟨-, reserved, hreserved, hcons, hsame, hfree, hhas, heq⟩
  · rw [heq]
    exact hindex
  · obtain ⟨hindex', -⟩ := sameIds_reservePartitionIds table.reservePrimaryIds.2
    rw [← hreserved] at hindex'
    refine (hindex.trans hindex').trans ?_
    rw [heq] at hfails ⊢
    split
    · exact Index.SameIds.refl _
    · next hkind =>
      rw [if_neg hkind] at hfails
      cases hkey : reserved.normalizePrimaryKey raw with
      | error e =>
        have hadd : reserved.addPrimaryKey raw = (.error e, reserved) := by
          unfold addPrimaryKey
          simp only [hkey]
        rw [hadd]
        exact Index.SameIds.refl _
      | ok key =>
        obtain ⟨id, table', hadd, hfound⟩ := addPrimaryKey_spec hcons hkey (Or.inr hfree)
        rw [hadd] at hfails ⊢
        dsimp only at hfails ⊢
        rw [← hfound.index] at hhas ⊢
        cases hsplit : splitValuesFiltering values with
        | error e => exact Index.SameIds.refl _
        | ok split =>
          rw [hsplit] at hfails
          obtain ⟨t, ht, hvalue⟩ := @Call.split_spec (.upsert indexKey raw values) _ hsplit
          dsimp only at hfails ⊢
          rw [index_of_finish_fails hfound.consistent hfound.lookup _ ht hvalue (fun _ => hhas)
            hfails]
          exact Index.SameIds.refl _

end Table

namespace World

variable [DecimalNormalizer]

/-- What a call leaves behind that fails. -/
structure LeavesBehind (w : World) (call : Call) : Prop where
  /-- The external index gets no operation. -/
  store : (w.step call).store = w.store
  /-- No epoch, no assignment and no partition changes. -/
  sameIds : w.table.index.SameIds (w.step call).table.index
  /-- No target and no target timestamp changes. -/
  target : ∀ key, ((w.step call).row key).target = (w.row key).target
  /-- Only the key that the call reaches becomes known. -/
  knows : ∀ key, (w.step call).Knows key ↔ w.Knows key ∨ w.Reaches call key
  /-- A row that the call does not reach stays as it is. -/
  others : ∀ key, ¬w.Reaches call key → (w.step call).row key = w.row key
  /-- The row that the call reaches has a key, and the columns up to the rejected one. -/
  reached : ∀ key, w.Reaches call key →
    (w.step call).row key = (w.row key).leftBy w.schema call

variable {w : World}

/-- An upsert that fails changes nothing but the primary key and some columns of its row. -/
theorem failed_upsert_leaves (hw : w.Reachable) {indexKey : IndexKey} {raw : PrimaryKey}
    {values : NonemptyBox (Timestamped DbIndexedValue)}
    (hfails : ¬w.Succeeds (.upsert indexKey raw values)) :
    w.LeavesBehind (.upsert indexKey raw values) := by
  have hcons := hw.consistent
  generalize hcall : Call.upsert indexKey raw values = call at hfails
  have hemitted : w.emitted call = [] := by
    cases hresult : w.result call with
    | ok operations => exact absurd ⟨operations, hresult⟩ hfails
    | error e =>
      unfold emitted
      rw [hresult]
      rfl
  have hleft : ∀ key, w.Reaches call key →
      (w.step call).row = Function.update w.row key ((w.row key).leftBy w.schema call) := by
    intro key hreach
    have hstep := step_stepped hcons hreach
    rw [hstep.row, Row.call_of_not_wellFormed fun h => hfails (hstep.succeeds_iff.mpr h)]
  have hunique : ∀ key key', w.Reaches call key → w.Reaches call key' → key = key' :=
    fun key key' h h' => Except.ok.inj (h.keyOf_eq.symm.trans h'.keyOf_eq)
  constructor
  case store =>
    unfold World.step
    rw [hemitted]
    rfl
  case sameIds =>
    subst hcall
    exact Table.sameIds_of_upsert_fails hcons hfails
  case target =>
    intro key
    by_cases hreach : ∃ key', w.Reaches call key'
    · obtain ⟨key', hreach⟩ := hreach
      rw [hleft key' hreach]
      by_cases hkey : key = key'
      · rw [hkey, Function.update_self]
        rfl
      · rw [Function.update_of_ne hkey]
    · push Not at hreach
      rw [(step_refused hcons hreach).row]
  case knows =>
    intro key
    by_cases hreach : ∃ key', w.Reaches call key'
    · obtain ⟨key', hreach⟩ := hreach
      rw [(step_stepped hcons hreach).knows key]
      exact or_congr_right ⟨fun heq => heq ▸ hreach, fun h => hunique key key' h hreach⟩
    · push Not at hreach
      rw [(step_refused hcons hreach).knows key]
      exact (or_iff_left (hreach key)).symm
  case others =>
    intro key hnot
    by_cases hreach : ∃ key', w.Reaches call key'
    · obtain ⟨key', hreach⟩ := hreach
      rw [hleft key' hreach, Function.update_of_ne]
      rintro rfl
      exact hnot hreach
    · push Not at hreach
      rw [(step_refused hcons hreach).row]
  case reached =>
    intro key hreach
    rw [hleft key hreach, Function.update_self]

end World

namespace Sample

/-- An upsert whose first value is not a vector. -/
def badUpsert : Call :=
  .upsert (.new "ks" "idx") (key 0) ⟨.new (time 0) (some (.filtering (.int 0))), []⟩

end Sample

attribute [local instance] Sample.decimals

theorem World.failed_upsert_leaves_badUpsert :
    ¬(World.init Sample.globalTable).Succeeds Sample.badUpsert ∧
      (World.init Sample.globalTable).LeavesBehind Sample.badUpsert := by
  have hfails : ¬(World.init Sample.globalTable).Succeeds Sample.badUpsert := by decide +kernel
  exact ⟨hfails, World.failed_upsert_leaves
    ⟨Sample.globalTable, [], Sample.isNew_globalTable, rfl⟩ hfails⟩

/-- The primary key of an upsert that fails can be known afterwards. -/
theorem failed_upsert_changes :
    ¬∀ (w : World) (indexKey : IndexKey) (raw : PrimaryKey)
      (values : NonemptyBox (Timestamped DbIndexedValue)), w.Reachable →
      ¬w.Succeeds (.upsert indexKey raw values) →
      (∀ key, (w.step (.upsert indexKey raw values)).Knows key ↔ w.Knows key) ∧
        (w.step (.upsert indexKey raw values)).row = w.row ∧
        w.table.index.SameIds (w.step (.upsert indexKey raw values)).table.index := by
  intro h
  have hreach : (World.init Sample.globalTable).Reachable :=
    ⟨Sample.globalTable, [], Sample.isNew_globalTable, rfl⟩
  have hfails : ¬(World.init Sample.globalTable).Succeeds Sample.badUpsert := by decide +kernel
  obtain ⟨hknows, -⟩ := h _ _ _ _ hreach hfails
  have hknown : ((World.init Sample.globalTable).step Sample.badUpsert).Knows (Sample.key 0) := by
    unfold World.Knows
    decide +kernel
  exact World.not_knows_init Sample.isNew_globalTable _ ((hknows _).mp hknown)

end VectorStore
