import VectorStore.Foundation.Run
import VectorStore.Table.Table

/-!
# The external index

The operations a table returns are replayed, in order, into a store that maps partitions and row
identifiers to values.  A `World` is a table with the store its operations led to; an `upsert` or
a `delete` that fails emits nothing, but keeps what it changed in the table.
-/

namespace VectorStore

/-- The external index: the value of every entry, by partition and row identifier. -/
abbrev Store := AList fun _ : PartitionId × PrimaryId => SplittingValues

namespace Store

/-! ## Replay of operations -/

/-- The number of entries of a partition. -/
def count (store : Store) (partitionId : PartitionId) : Nat :=
  FiniteMap.countKeys (fun entry => entry.1 = partitionId) store

/-- The store after an operation. -/
def apply (store : Store) : Operation → Store
  | .addVector primaryId partitionId vector _ =>
    store.insert (partitionId, primaryId) (.vector vector)
  | .addDocument primaryId partitionId document _ =>
    store.insert (partitionId, primaryId) (.document document)
  | .removeBeforeAddValue primaryId partitionId => store.erase (partitionId, primaryId)
  | .removeValue primaryId partitionId => store.erase (partitionId, primaryId)
  | .removePartition partitionId =>
    FiniteMap.filterKeys (fun entry => entry.1 ≠ partitionId) store

/-- What an operation requires.  `start` is the store at the beginning of the call that emits the
operation, `store` the one it is applied to. -/
def Accepts (start store : Store) : Operation → Prop
  | .addVector primaryId _ _ _ | .addDocument primaryId _ _ _ =>
    ∀ partitionId, store.lookup (partitionId, primaryId) = none
  | .removeBeforeAddValue primaryId partitionId | .removeValue primaryId partitionId =>
    (store.lookup (partitionId, primaryId)).isSome
  | .removePartition partitionId => 0 < start.count partitionId ∧ store.count partitionId = 0

/-- The store after a list of operations. -/
abbrev replay (store : Store) (operations : List Operation) : Store :=
  Machine.run apply store operations

/-- Every operation of a call finds what it requires. -/
abbrev AcceptsAll (start store : Store) (operations : List Operation) : Prop :=
  Machine.Along apply (Accepts start) store operations

@[simp] theorem apply_addOperation (store : Store) (primaryId : PrimaryId)
    (partitionId : PartitionId) (isUpdate : Bool) (values : SplittingValues) :
    store.apply (UpdateWork.addOperation primaryId partitionId isUpdate values) =
      store.insert (partitionId, primaryId) values := by
  cases values <;> rfl

@[simp] theorem accepts_addOperation (start store : Store) (primaryId : PrimaryId)
    (partitionId : PartitionId) (isUpdate : Bool) (values : SplittingValues) :
    Accepts start store (UpdateWork.addOperation primaryId partitionId isUpdate values) ↔
      ∀ partitionId, store.lookup (partitionId, primaryId) = none := by
  cases values <;> rfl

theorem count_eq_zero_iff {store : Store} {p : PartitionId} :
    store.count p = 0 ↔ ∀ id, store.lookup (p, id) = none := by
  rw [count, FiniteMap.countKeys_eq_zero_iff]
  constructor
  · intro h id
    cases hv : store.lookup (p, id) with
    | none => rfl
    | some v => simpa using h (p, id) v hv
  · rintro h ⟨q, id⟩ v hv
    refine decide_eq_false ?_
    rintro rfl
    simp [h id] at hv

theorem count_insert {store : Store} {p : PartitionId} {id : PrimaryId}
    (h : store.lookup (p, id) = none) (v : SplittingValues) (q : PartitionId) :
    Store.count (store.insert (p, id) v) q = store.count q + if p = q then 1 else 0 := by
  rw [count, FiniteMap.countKeys_insert h]
  simp [count]

theorem count_erase {store : Store} {p : PartitionId} {id : PrimaryId} {v : SplittingValues}
    (h : store.lookup (p, id) = some v) (q : PartitionId) :
    Store.count (store.erase (p, id)) q + (if p = q then 1 else 0) = store.count q := by
  have := FiniteMap.countKeys_erase h fun entry => entry.1 = q
  simpa [count] using this

/-- Ending a partition without entries changes nothing. -/
theorem apply_removePartition_of_count {store : Store} {p : PartitionId}
    (h : store.count p = 0) : store.apply (.removePartition p) = store := by
  unfold apply
  refine FiniteMap.filterKeys_eq_self ?_
  rintro ⟨q, id⟩ hmem
  obtain ⟨v, hv⟩ := FiniteMap.mem_keys_iff.mp hmem
  refine decide_eq_true ?_
  rintro rfl
  simp [count_eq_zero_iff.mp h id] at hv

/-! ## The rows in a store -/

/-- The store holds exactly the given entry of every row, under the given epoch. -/
def Holds (store : Store) (epochs : Nat → Epoch)
    (rows : Nat → Option (PartitionId × SplittingValues)) : Prop :=
  ∀ p id v, store.lookup (p, id) = some v ↔
    rows (Idx.idx id) = some (p, v) ∧ id.epoch = epochs (Idx.idx id)

namespace Holds

variable {store : Store} {epochs : Nat → Epoch}
  {rows : Nat → Option (PartitionId × SplittingValues)} {p : PartitionId} {id : PrimaryId}
  {v : SplittingValues}

/-- The empty store holds no row. -/
theorem empty (epochs : Nat → Epoch) : Holds ∅ epochs fun _ => none := by
  intro p id v
  simp

/-- A row without an entry has none under any epoch and in any partition. -/
theorem lookup_eq_none (h : Holds store epochs rows) (hrow : rows (Idx.idx id) = none)
    (p : PartitionId) : store.lookup (p, id) = none := by
  cases hv : store.lookup (p, id) with
  | none => rfl
  | some v =>
    rw [h p id v, hrow] at hv
    simp at hv

/-- The epoch of a row without an entry is free to change. -/
theorem setEpoch (h : Holds store epochs rows) {i : Nat} (hrow : rows i = none) (e : Epoch) :
    Holds store (Function.update epochs i e) rows := by
  intro q jd w
  rw [h q jd w]
  by_cases hj : Idx.idx jd = i
  · simp [hj, hrow]
  · rw [Function.update_of_ne hj]

/-- Taking the entry of a row out of the store. -/
theorem erase (h : Holds store epochs rows) (hrow : rows (Idx.idx id) = some (p, v))
    (hepoch : id.epoch = epochs (Idx.idx id)) :
    Holds (store.erase (p, id)) epochs (Function.update rows (Idx.idx id) none) := by
  intro q jd w
  rw [FiniteMap.lookup_erase_eq]
  by_cases hj : Idx.idx jd = Idx.idx id
  · rw [hj, Function.update_self]
    simp only [reduceCtorEq, false_and, iff_false]
    split_ifs with hkey
    · simp
    · intro hw
      obtain ⟨hq, he⟩ := (h q jd w).mp hw
      rw [hj, hrow] at hq
      rw [hj] at he
      have hjd : jd = id := PrimaryId.ext_idx hj (he.trans hepoch.symm)
      obtain ⟨rfl, -⟩ := Prod.mk.inj (Option.some.inj hq)
      exact hkey (by rw [hjd])
  · have hkey : (q, jd) ≠ (p, id) := fun he => hj (by rw [(Prod.mk.inj he).2])
    rw [if_neg hkey, Function.update_of_ne hj]
    exact h q jd w

/-- Putting an entry into the store for a row that has none. -/
theorem insert (h : Holds store epochs rows) (hrow : rows (Idx.idx id) = none)
    (hepoch : id.epoch = epochs (Idx.idx id)) (p : PartitionId) (v : SplittingValues) :
    Holds (store.insert (p, id) v) epochs (Function.update rows (Idx.idx id) (some (p, v))) := by
  intro q jd w
  rw [FiniteMap.lookup_insert_eq]
  by_cases hj : Idx.idx jd = Idx.idx id
  · rw [hj, Function.update_self]
    by_cases hkey : (q, jd) = (p, id)
    · obtain ⟨rfl, rfl⟩ := Prod.mk.inj hkey
      simp [hepoch]
    · rw [if_neg hkey]
      have hnone : store.lookup (q, jd) = none := h.lookup_eq_none (by rw [hj, hrow]) q
      simp only [hnone, reduceCtorEq, Option.some.injEq, Prod.mk.injEq, false_iff, not_and]
      rintro ⟨rfl, -⟩ he
      exact hkey (by rw [PrimaryId.ext_idx hj (he.trans hepoch.symm)])
  · have hkey : (q, jd) ≠ (p, id) := fun he => hj (by rw [(Prod.mk.inj he).2])
    rw [if_neg hkey, Function.update_of_ne hj]
    exact h q jd w

/-- Replacing the value of a row, under a new epoch. -/
theorem replace (h : Holds store epochs rows) (hrow : rows (Idx.idx id) = some (p, v))
    (hepoch : id.epoch = epochs (Idx.idx id)) (epoch : Epoch) (v' : SplittingValues) :
    Holds (AList.insert (p, id.newEpoch epoch) v' (store.erase (p, id)))
      (Function.update epochs (Idx.idx id) epoch)
      (Function.update rows (Idx.idx id) (some (p, v'))) := by
  have hself : Function.update rows (Idx.idx id) none (Idx.idx (id.newEpoch epoch)) = none := by
    rw [PrimaryId.idx_newEpoch, Function.update_self]
  have herase := (h.erase hrow hepoch).setEpoch (Function.update_self ..) epoch
  have hinsert := herase.insert hself (by simp) p v'
  rwa [PrimaryId.idx_newEpoch, Function.update_idem] at hinsert

/-- A row with an entry finds it under its epoch. -/
theorem lookup_eq (h : Holds store epochs rows) (hrow : rows (Idx.idx id) = some (p, v))
    (hepoch : id.epoch = epochs (Idx.idx id)) : store.lookup (p, id) = some v :=
  (h p id v).mpr ⟨hrow, hepoch⟩

/-- A row finds its entry under the identifier with its index and its epoch. -/
theorem lookup_mk' (h : Holds store epochs rows) {i : Nat} (hrow : rows i = some (p, v))
    (hi : i < PrimaryId.reserved) :
    store.lookup (p, PrimaryId.mk' i (epochs i)) = some v := by
  have hidx : Idx.idx (PrimaryId.mk' i (epochs i)) = i := PrimaryId.idx_mk' hi _
  refine h.lookup_eq ?_ ?_
  · rw [hidx, hrow]
  · rw [hidx, PrimaryId.epoch_mk' hi]

/-- A partition without a row has no entries. -/
theorem count_eq_zero (h : Holds store epochs rows) (hp : ∀ i v, rows i ≠ some (p, v)) :
    store.count p = 0 := by
  refine count_eq_zero_iff.mpr fun jd => ?_
  cases hv : store.lookup (p, jd) with
  | none => rfl
  | some w => exact absurd ((h p jd w).mp hv).1 (hp _ w)

/-- A partition with entries has a row. -/
theorem exists_of_count_pos (h : Holds store epochs rows) (hp : 0 < store.count p) :
    ∃ i v, rows i = some (p, v) := by
  by_contra hno
  push Not at hno
  rw [h.count_eq_zero hno] at hp
  exact lt_irrefl 0 hp

end Holds

end Store

/-! ## Calls -/

/-- A call of the two functions that modify a table. -/
inductive Call where
  | upsert (indexKey : IndexKey) (primaryKey : PrimaryKey)
      (values : NonemptyBox (Timestamped DbIndexedValue))
  | delete (indexKey : IndexKey) (primaryKey : PrimaryKey) (timestamp : Timestamp)
deriving DecidableEq

/-- The primary key of a call. -/
def Call.primaryKey : Call → PrimaryKey
  | upsert _ primaryKey _ => primaryKey
  | delete _ primaryKey _ => primaryKey

/-- The operations a result hands to the external index: none after an error. -/
def emittedBy : Except Failure (List Operation) → List Operation
  | .ok operations => operations
  | .error _ => []

/-- The table is one that `Table::new` made. -/
def Table.IsNew (table : Table) : Prop :=
  ∃ indexKey primaryKeyColumns partitionPrimaryKeyCount partitionKeyColumns targetColumns
    filteringColumns tableColumns,
    Table.new indexKey primaryKeyColumns partitionPrimaryKeyCount partitionKeyColumns targetColumns
      filteringColumns tableColumns = .ok table

/-- A table and the store its operations led to. -/
structure World where
  table : Table
  store : Store

/-- A new table with an empty store. -/
def World.init (table : Table) : World := ⟨table, ∅⟩

variable [DecimalNormalizer]

/-- A call on a table. -/
def Table.call (table : Table) : Call → Except Failure (List Operation) × Table
  | .upsert indexKey primaryKey values => table.upsert indexKey primaryKey values
  | .delete indexKey primaryKey timestamp => table.delete indexKey primaryKey timestamp

namespace World

/-- The result of a call. -/
def result (w : World) (call : Call) : Except Failure (List Operation) := (w.table.call call).1

/-- The call succeeds. -/
def Succeeds (w : World) (call : Call) : Prop := ∃ operations, w.result call = .ok operations

instance (w : World) (call : Call) : Decidable (w.Succeeds call) :=
  decidable_of_iff ((w.result call).isOk = true) <| by
    unfold Succeeds
    cases w.result call with
    | error e => simp [Except.isOk, Except.toBool]
    | ok operations => simp [Except.isOk, Except.toBool]

/-- The operations a call emits. -/
def emitted (w : World) (call : Call) : List Operation := emittedBy (w.result call)

/-- The world after a call. -/
def step (w : World) (call : Call) : World :=
  ⟨(w.table.call call).2, w.store.replay (w.emitted call)⟩

/-- The world after a sequence of calls on a new table. -/
def Reachable (w : World) : Prop :=
  ∃ table calls, table.IsNew ∧ w = Machine.run step (init table) calls

end World

end VectorStore
