import VectorStore.Rows.World

/-!
# Identifiers over calls

A known key keeps its identifier.  A call changes the epoch of at most one row, that of its key, to
the next one; a value that it adds goes under the new epoch, as the last operation of the call.  A
call that does not reach the update of the index leaves epochs and partitions as they are.
-/

namespace VectorStore

/-- The value that an operation adds, with the identifier and the partition it goes to. -/
def Operation.added : Operation → Option (PrimaryId × PartitionId × SplittingValues)
  | addVector primaryId partitionId vector _ => some (primaryId, partitionId, .vector vector)
  | addDocument primaryId partitionId document _ =>
    some (primaryId, partitionId, .document document)
  | removeBeforeAddValue _ _ | removeValue _ _ | removePartition _ => none

/-- The store after a value was added. -/
theorem Store.apply_of_added (store : Store) {operation : Operation} {id : PrimaryId}
    {p : PartitionId} {value : SplittingValues} (h : operation.added = some (id, p, value)) :
    store.apply operation = store.insert (p, id) value := by
  cases operation with
  | addVector primaryId partitionId vector isUpdate =>
    obtain ⟨rfl, rfl, rfl⟩ : primaryId = id ∧ partitionId = p ∧ .vector vector = value := by
      simpa [Operation.added] using h
    rfl
  | addDocument primaryId partitionId document isUpdate =>
    obtain ⟨rfl, rfl, rfl⟩ : primaryId = id ∧ partitionId = p ∧ .document document = value := by
      simpa [Operation.added] using h
    rfl
  | removeBeforeAddValue primaryId partitionId => cases h
  | removeValue primaryId partitionId => cases h
  | removePartition partitionId => cases h

/-! ## What stays of an index -/

/-- The partition that a local index assigned a row to. -/
def IndexData.assigned : IndexData → PrimaryId → Option PartitionId
  | globalIndex, _ => none
  | localIndex data, id => (data.ids.get id).join

namespace Index

/-- The indexes have the same epochs, assignments and partitions. -/
structure SameIds (index index' : Index) : Prop where
  indexId : index'.indexId = index.indexId
  epochs : index'.epochs = index.epochs
  assigned : index'.data.assigned = index.data.assigned
  locate : index'.data.locate index'.indexId = index.data.locate index.indexId

namespace SameIds

theorem refl (index : Index) : index.SameIds index := ⟨rfl, rfl, rfl, rfl⟩

theorem trans {i i' i'' : Index} (h : i.SameIds i') (h' : i'.SameIds i'') : i.SameIds i'' :=
  ⟨h'.indexId.trans h.indexId, h'.epochs.trans h.epochs, h'.assigned.trans h.assigned,
    h'.locate.trans h.locate⟩

end SameIds

/-- Making room for rows assigns none of them. -/
theorem sameIds_resizePrimaryIdsWith {index : Index} {n : Nat}
    (hn : index.valuesTimestamps.size ≤ n)
    (hids : ∀ data, index.data = .localIndex data → data.ids.size ≤ n) :
    index.SameIds (index.resizePrimaryIdsWith n) := by
  refine ⟨rfl, epochs_resizePrimaryIdsWith hn, ?_, ?_⟩
  · funext id
    unfold resizePrimaryIdsWith
    cases hdata : index.data with
    | globalIndex => rfl
    | localIndex data =>
      have hle := hids data hdata
      unfold IndexData.assigned
      dsimp only
      rw [ColumnVec.get_resizeWith hle]
      by_cases hlt : Idx.idx id < data.ids.size
      · rw [if_pos hlt]
      · have hnone : data.ids.get id = none := ColumnVec.getElem?_of_size_le (not_lt.mp hlt)
        rw [if_neg hlt, hnone]
        split <;> rfl
  · unfold resizePrimaryIdsWith
    cases index.data <;> rfl

/-- Reserving partitions assigns no row. -/
theorem sameIds_resizePartitionIds (index : Index) : index.SameIds index.resizePartitionIds.2 := by
  unfold resizePartitionIds
  cases hdata : index.data with
  | globalIndex => exact SameIds.refl index
  | localIndex data =>
    dsimp only
    split
    · exact SameIds.refl index
    · split <;> exact ⟨rfl, rfl, by rw [hdata]; rfl, by rw [hdata]; rfl⟩

end Index

namespace Table

variable {table : Table} {store : Store} {shelf : Shelf}

/-- The reservations of a call change no identifier. -/
theorem sameIds_reservePrimaryIds (h : table.Consistent store shelf) :
    table.index.SameIds table.reservePrimaryIds.2.index ∧
      table.reservePrimaryIds.2.primaryIds = table.primaryIds := by
  unfold reservePrimaryIds
  split
  · exact ⟨Index.SameIds.refl _, rfl⟩
  · next hfree =>
    have hnil : table.freePrimaryIds = [] := by simpa using hfree
    have hcount : table.rowCount = table.primaryKeys.size := h.free_eq_nil_iff.mp hnil
    dsimp only
    split
    · exact ⟨Index.SameIds.refl _, rfl⟩
    · refine ⟨Index.sameIds_resizePrimaryIdsWith ?_ fun data hdata => ?_, rfl⟩
      · rw [h.index.size_timestamps, hcount]
        exact Nat.le_add_right _ _
      · have htracks := h.index.data
        have hdata' : table.index.data = .localIndex data := hdata
        rw [hdata'] at htracks
        rw [htracks.2, hcount]
        exact Nat.le_add_right _ _

theorem sameIds_reservePartitionIds (table : Table) :
    table.index.SameIds table.reservePartitionIds.2.index ∧
      table.reservePartitionIds.2.primaryIds = table.primaryIds :=
  ⟨table.index.sameIds_resizePartitionIds, rfl⟩

/-- Finding the identifier of a key changes no index and no other identifier. -/
theorem addPrimaryKey_kept [DecimalNormalizer] (table : Table) (raw : PrimaryKey) :
    (table.addPrimaryKey raw).2.index = table.index ∧
      ∀ key id, table.primaryIds.lookup key = some id →
        (table.addPrimaryKey raw).2.primaryIds.lookup key = some id := by
  unfold addPrimaryKey
  split
  · exact ⟨rfl, fun _ _ h => h⟩
  · next normalized _ =>
    split
    · exact ⟨rfl, fun _ _ h => h⟩
    · exact ⟨rfl, fun _ _ h => h⟩
    · next hnone _ =>
      have hinsert : ∀ key id id', table.primaryIds.lookup key = some id →
          (table.primaryIds.insert normalized id').lookup key = some id := by
        intro key id id' hid
        rw [FiniteMap.lookup_insert_eq, if_neg]
        · exact hid
        · rintro rfl
          rw [hnone] at hid
          cases hid
      dsimp only
      split
      · exact ⟨rfl, fun key id hid => hinsert key id _ hid⟩
      · exact ⟨rfl, fun key id hid => hinsert key id _ hid⟩

end Table

/-! ## What an update adds -/

/-- The value that a work adds goes under the new identifier and comes last. -/
theorem UpdateWork.perform_added (work : UpdateWork) (data : IndexData) (cur new : PrimaryId)
    (values : Option SplittingValues) {operation : Operation} {id : PrimaryId} {p : PartitionId}
    {value : SplittingValues} (hmem : operation ∈ (work.perform data cur new values).1)
    (hadded : operation.added = some (id, p, value)) :
    id = new ∧ ∃ before, (work.perform data cur new values).1 = before ++ [operation] := by
  have hempty : ∀ partitionId isEmpty, operation ∉ removeIfEmpty partitionId isEmpty := by
    intro partitionId isEmpty hmem
    unfold removeIfEmpty at hmem
    split at hmem
    · obtain rfl := List.mem_singleton.mp hmem
      cases hadded
    · cases hmem
  have hremoval : ∀ partitionId rest, operation ∈ .removeBeforeAddValue cur partitionId :: rest →
      operation ∈ rest := by
    intro partitionId rest hmem
    rcases List.mem_cons.mp hmem with rfl | hmem
    · cases hadded
    · exact hmem
  have hlast : ∀ q isUpdate v, operation = addOperation new q isUpdate v → id = new := by
    intro q isUpdate v heq
    rw [heq] at hadded
    cases v <;> simpa [addOperation, Operation.added, eq_comm] using congrArg (·.map Prod.fst) hadded
  unfold perform removeBeforeAdd addValue removeEntry at hmem ⊢
  cases work with
  | none =>
    cases values <;> cases hmem
  | removeFromPartition q =>
    have hmem' : operation ∈ .removeValue cur q ::
        removeIfEmpty q (data.removeRowFromPartition cur q).1 := by
      cases values <;> simpa [addTarget] using hmem
    rcases List.mem_cons.mp hmem' with rfl | hmem'
    · cases hadded
    · exact absurd hmem' (hempty _ _)
  | moveInsidePartition q =>
    cases values with
    | none => exact absurd (hremoval q [] (by simpa [addTarget] using hmem)) (by simp)
    | some v =>
      have hmem' := hremoval q [addOperation new q true v] (by simpa [addTarget] using hmem)
      obtain rfl := List.mem_singleton.mp hmem'
      exact ⟨hlast _ _ _ rfl, [.removeBeforeAddValue cur q], by simp [addTarget]⟩
  | addToPartition q =>
    cases values with
    | none => simp at hmem
    | some v =>
      obtain rfl : operation = addOperation new q false v := by simpa [addTarget] using hmem
      exact ⟨hlast _ _ _ rfl, [], by simp [addTarget]⟩
  | moveBetweenPartitions q q' =>
    cases values with
    | none =>
      have hmem' := hremoval q (removeIfEmpty q (data.removeRowFromPartition cur q).1)
        (by simpa [addTarget] using hmem)
      exact absurd hmem' (hempty _ _)
    | some v =>
      have hmem' := hremoval q (removeIfEmpty q (data.removeRowFromPartition cur q).1 ++
        [addOperation new q' true v]) (by simpa [addTarget] using hmem)
      rcases List.mem_append.mp hmem' with hmem' | hmem'
      · exact absurd hmem' (hempty _ _)
      · obtain rfl := List.mem_singleton.mp hmem'
        exact ⟨hlast _ _ _ rfl, .removeBeforeAddValue cur q ::
          removeIfEmpty q (data.removeRowFromPartition cur q).1, by simp [addTarget]⟩

/-- What an update of the index of a row does to the epochs. -/
structure EpochStep (index : Index) (i : ℕ) (outcome : Except Failure (List Operation) × Index) :
    Prop where
  indexId : outcome.2.indexId = index.indexId
  epochs : outcome.2.epochs = index.epochs ∨
    outcome.2.epochs = Function.update index.epochs i (index.epochs i).next
  /-- A value is added under the epoch of its row, and by the last operation. -/
  added : ∀ operation ∈ emittedBy outcome.1, ∀ id p value,
    operation.added = some (id, p, value) → Idx.idx id = i ∧ id.epoch = outcome.2.epochs i ∧
      ∃ before, emittedBy outcome.1 = before ++ [operation]

/-- An update that adds nothing and leaves the epochs alone. -/
theorem EpochStep.of_same {index : Index} {i : ℕ} {result : Except Failure (List Operation)}
    (data : IndexData) (hemitted : emittedBy result = []) :
    EpochStep index i (result, { index with data }) := by
  refine ⟨rfl, Or.inl rfl, fun operation hmem => ?_⟩
  rw [hemitted] at hmem
  cases hmem

/-- `update_timestamps` does not touch the epoch. -/
theorem epoch_updateTimestampsFrom (chunk : ChunkTimestamps) (idx : ℕ)
    (timestamps : List (Timestamped Unit)) :
    (updateTimestampsFrom chunk idx timestamps).2.epoch = chunk.epoch := by
  induction timestamps generalizing chunk idx with
  | nil => rfl
  | cons timestamped rest ih =>
    rw [updateTimestampsFrom]
    split
    · rw [ih]
    · rfl

/-- `update_index` bumps the epoch of its row, or changes no epoch and adds nothing. -/
theorem updateIndex_epochStep (id : PrimaryId) (pp : ProcessingPartition) (index : Index)
    (values : Option SplittingValues) (timestamps : NonemptyBox (Timestamped Unit)) :
    EpochStep index (Idx.idx id) (updateIndex id pp index values timestamps) := by
  unfold updateIndex
  split
  · exact EpochStep.of_same index.data rfl
  · next chunk hget =>
    have hlt := ColumnVec.lt_size_of_get hget
    have hepoch : index.epochs (Idx.idx id) = chunk.epoch := by
      have hvec : index.valuesTimestamps.vec[Idx.idx id]? = some chunk := hget
      rw [Index.epochs, hvec, Option.elim_some]
    dsimp only
    split
    · exact EpochStep.of_same index.data rfl
    · split
      · exact EpochStep.of_same index.data rfl
      · split
        · exact EpochStep.of_same _ rfl
        · exact EpochStep.of_same _ rfl
        · next planned data hnew =>
          generalize hcur : id.newEpoch chunk.epoch = cur
          have hidx : Idx.idx cur = Idx.idx id := by rw [← hcur, PrimaryId.idx_newEpoch]
          have hset : Idx.idx cur < index.valuesTimestamps.size := hidx ▸ hlt
          have hchunk : (updateTimestamps { chunk with epoch := chunk.epoch.next }
              planned.timestamps.toList).2.epoch = chunk.epoch.next :=
            epoch_updateTimestampsFrom _ _ _
          generalize updateTimestamps { chunk with epoch := chunk.epoch.next }
            planned.timestamps.toList = updated at hchunk
          obtain ⟨result, chunk'⟩ := updated
          dsimp only at hchunk ⊢
          have hepochs : ∀ data : IndexData, ({ index with
              data, valuesTimestamps := index.valuesTimestamps.set cur chunk' } : Index).epochs =
              Function.update index.epochs (Idx.idx id) (index.epochs (Idx.idx id)).next := by
            intro data
            rw [Index.epochs_set data hset, hidx, hchunk, hepoch]
          split
          · refine ⟨rfl, Or.inr (hepochs _), fun operation hmem => ?_⟩
            cases hmem
          · refine ⟨rfl, Or.inr (hepochs _), fun operation hmem jd p value hadded => ?_⟩
            obtain ⟨rfl, hlast⟩ := UpdateWork.perform_added _ _ _ _ _ hmem hadded
            refine ⟨by rw [PrimaryId.idx_newEpoch, hidx], ?_, hlast⟩
            rw [PrimaryId.epoch_newEpoch]
            dsimp only
            rw [hepochs, Function.update_self, hepoch]

/-! ## Calls -/

namespace Table

variable {table : Table} {store : Store} {shelf : Shelf} {key : PrimaryKey}

/-- What a call for a key does to identifiers and epochs. -/
structure IdStep (table : Table) (key : PrimaryKey)
    (outcome : Except Failure (List Operation) × Table) : Prop where
  kept : ∀ key' id, table.primaryIds.lookup key' = some id →
    outcome.2.primaryIds.lookup key' = some id
  indexId : outcome.2.index.indexId = table.index.indexId
  epochs : outcome.2.index.epochs = table.index.epochs ∨ ∃ id,
    outcome.2.primaryIds.lookup key = some id ∧ outcome.2.index.epochs =
      Function.update table.index.epochs (Idx.idx id) (table.index.epochs (Idx.idx id)).next
  added : ∀ operation ∈ emittedBy outcome.1, ∀ id p value,
    operation.added = some (id, p, value) → ∃ id', outcome.2.primaryIds.lookup key = some id' ∧
      Idx.idx id = Idx.idx id' ∧ id.epoch = outcome.2.index.epochs (Idx.idx id) ∧
      ∃ before, emittedBy outcome.1 = before ++ [operation]

/-- A call that fails before it reaches the index. -/
theorem IdStep.of_error {table' : Table} (e : Failure)
    (hkept : ∀ key' id, table.primaryIds.lookup key' = some id →
      table'.primaryIds.lookup key' = some id) (hindex : table.index.SameIds table'.index) :
    table.IdStep key (.error e, table') := by
  refine ⟨hkept, hindex.indexId, Or.inl hindex.epochs, fun operation hmem => ?_⟩
  cases hmem

/-- A call on a table with the same identifiers. -/
theorem IdStep.of_sameIds {table' : Table} {outcome : Except Failure (List Operation) × Table}
    (hkept : ∀ key' id, table.primaryIds.lookup key' = some id →
      table'.primaryIds.lookup key' = some id) (hindex : table.index.SameIds table'.index)
    (h : table'.IdStep key outcome) : table.IdStep key outcome := by
  obtain ⟨hkept', hid, hepochs, hadded⟩ := h
  rw [hindex.epochs] at hepochs
  exact ⟨fun key' id hid => hkept' key' id (hkept key' id hid), hid.trans hindex.indexId, hepochs,
    hadded⟩

/-- The last steps of a call, for an identifier that was found. -/
theorem finish_idStep {id : PrimaryId} (hid : table.primaryIds.lookup key = some id)
    (writes : List (ColumnWrite × ColumnName)) (split : SplitValuesFiltering) :
    table.IdStep key (table.finish id writes split) := by
  unfold finish
  split
  · exact IdStep.of_error _ (fun _ _ h => h) (Index.SameIds.refl _)
  · unfold processRow
    split
    · exact IdStep.of_error _ (fun _ _ h => h) (Index.SameIds.refl _)
    · next pp _ =>
      obtain ⟨hindexId, hepochs, hadded⟩ :=
        updateIndex_epochStep id pp table.index split.values split.timestamps
      refine ⟨fun _ _ h => h, hindexId, hepochs.imp_right fun h => ⟨id, hid, h⟩,
        fun operation hmem jd p value hop => ?_⟩
      obtain ⟨hidx, hepoch, hlast⟩ := hadded operation hmem jd p value hop
      refine ⟨id, hid, hidx, ?_, hlast⟩
      rw [hidx]
      exact hepoch

variable [DecimalNormalizer]

/-- The identifier that is found for a key is the one that it has afterwards. -/
theorem lookup_addPrimaryKey {raw : PrimaryKey} {id : PrimaryId} {table' : Table}
    (hkey : ∀ key', table.normalizePrimaryKey raw = .ok key' → key' = key)
    (h : table.addPrimaryKey raw = (.ok id, table')) : table'.primaryIds.lookup key = some id := by
  unfold addPrimaryKey at h
  split at h
  · cases h
  · next normalized hnormalized =>
    obtain rfl := hkey normalized hnormalized
    split at h
    · next hknown =>
      obtain ⟨hid, rfl⟩ := Prod.mk.inj h
      obtain rfl := Except.ok.inj hid
      exact hknown
    · cases h
    · dsimp only at h
      split at h
      · cases h
      · obtain ⟨hid, rfl⟩ := Prod.mk.inj h
        obtain rfl := Except.ok.inj hid
        exact AList.lookup_insert _

/-- What a call does to identifiers and epochs. -/
theorem call_idStep (h : table.Consistent store shelf) {call : Call}
    (hkey : ∀ key', table.normalizePrimaryKey call.primaryKey = .ok key' → key' = key) :
    table.IdStep key (table.call call) := by
  cases call with
  | delete indexKey raw timestamp =>
    change table.IdStep key (table.delete indexKey raw timestamp)
    obtain ⟨hindex, hkept⟩ := addPrimaryKey_kept table raw
    unfold delete
    split
    · exact IdStep.of_error _ (fun _ _ h => h) (Index.SameIds.refl _)
    · split
      · next e table' hadd =>
        rw [hadd] at hindex hkept
        exact IdStep.of_error e hkept (hindex ▸ Index.SameIds.refl _)
      · next id table' hadd =>
        rw [hadd] at hindex hkept
        refine IdStep.of_sameIds hkept (hindex ▸ Index.SameIds.refl _) ?_
        exact finish_idStep (lookup_addPrimaryKey hkey hadd)
          ((table'.index.filteringColumns.map fun _ => (timestamp, none)).zip
            table'.index.filteringColumns) ⟨none, ⟨.newTombstone timestamp, []⟩, []⟩
  | upsert indexKey raw values =>
    change table.IdStep key (table.upsert indexKey raw values)
    obtain ⟨hindex, hids⟩ := sameIds_reservePrimaryIds h
    rcases upsert_eq h indexKey raw values with
      ⟨e, -, heq⟩ | ⟨-, reserved, hreserved, hcons, hsame, -, -, heq⟩
    · rw [heq]
      exact IdStep.of_error e (fun _ _ hid => by rw [hids]; exact hid) hindex
    · rw [heq]
      obtain ⟨hindex', hids'⟩ := sameIds_reservePartitionIds table.reservePrimaryIds.2
      rw [← hreserved] at hindex' hids'
      refine IdStep.of_sameIds (fun _ _ hid => by rw [hids', hids]; exact hid)
        (hindex.trans hindex') ?_
      have hkey' : ∀ key', reserved.normalizePrimaryKey raw = .ok key' → key' = key := by
        intro key' hnormalized
        rw [normalizePrimaryKey_congr hsame.schema] at hnormalized
        exact hkey key' hnormalized
      obtain ⟨hadded, hkept⟩ := addPrimaryKey_kept reserved raw
      split
      · exact IdStep.of_error _ (fun _ _ h => h) (Index.SameIds.refl _)
      · split
        · next e table' hadd =>
          rw [hadd] at hadded hkept
          exact IdStep.of_error e hkept (hadded ▸ Index.SameIds.refl _)
        · next id table' hadd =>
          rw [hadd] at hadded hkept
          refine IdStep.of_sameIds hkept (hadded ▸ Index.SameIds.refl _) ?_
          split
          · exact IdStep.of_error _ (fun _ _ h => h) (Index.SameIds.refl _)
          · exact finish_idStep (lookup_addPrimaryKey hkey' hadd) _ _

end Table

/-! ## Epochs over runs -/

namespace Epoch

/-- The number of the next epoch. -/
theorem toNat_next (epoch : Epoch) :
    epoch.next.val.toNat = (epoch.val.toNat + 1) % 2 ^ 16 := by
  unfold next
  split
  · next hlast =>
    rw [hlast]
    rfl
  · exact BitVec.toNat_add _ _

/-- The number of an epoch after some successors. -/
theorem toNat_iterate_next (epoch : Epoch) (n : ℕ) :
    (next^[n] epoch).val.toNat = (epoch.val.toNat + n) % 2 ^ 16 := by
  induction n with
  | zero =>
    have := epoch.val.isLt
    rw [Function.iterate_zero_apply]
    omega
  | succ n ih =>
    rw [Function.iterate_succ_apply', toNat_next, ih]
    omega

/-- An epoch comes back after 65536 successors, and not before. -/
theorem iterate_next_ne {n : ℕ} (hpos : 0 < n) (hle : n ≤ 65535) (epoch : Epoch) :
    next^[n] epoch ≠ epoch := by
  intro heq
  have hnum := toNat_iterate_next epoch n
  rw [heq] at hnum
  have := epoch.val.isLt
  omega

end Epoch

namespace World

variable [DecimalNormalizer] {w : World} {call : Call} {key : PrimaryKey}

/-- The epoch of a row. -/
def epoch (w : World) (i : ℕ) : Epoch := w.table.index.epochs i

/-- The number of times the epoch of a row is bumped in a run. -/
def bumps (i : ℕ) : World → List Call → ℕ
  | _, [] => 0
  | w, call :: calls =>
    (if (w.step call).epoch i = w.epoch i then 0 else 1) + bumps i (w.step call) calls

/-- What a call does to identifiers and epochs. -/
theorem step_idStep (h : w.Consistent) (hkey : ∀ key', w.keyOf call = .ok key' → key' = key) :
    w.table.IdStep key (w.table.call call) :=
  Table.call_idStep h hkey

/-- Every call is for one key at most. -/
theorem exists_key (w : World) (call : Call) :
    ∃ key, ∀ key', w.keyOf call = .ok key' → key' = key := by
  cases hkey : w.keyOf call with
  | error e => exact ⟨call.primaryKey, fun key' h => by cases h⟩
  | ok key => exact ⟨key, fun key' h => (Except.ok.inj h).symm⟩

/-- A call keeps the identifiers. -/
theorem step_kept (h : w.Consistent) (call : Call) {id : PrimaryId}
    (hid : w.table.primaryIds.lookup key = some id) :
    (w.step call).table.primaryIds.lookup key = some id := by
  obtain ⟨key', hkey⟩ := w.exists_key call
  exact (step_idStep h hkey).kept key id hid

theorem step_indexId (h : w.Consistent) (call : Call) :
    (w.step call).table.index.indexId = w.table.index.indexId := by
  obtain ⟨key', hkey⟩ := w.exists_key call
  exact (step_idStep h hkey).indexId

/-- A call keeps the epoch of a row or bumps it. -/
theorem step_epoch (h : w.Consistent) (call : Call) (i : ℕ) :
    (w.step call).epoch i = w.epoch i ∨ (w.step call).epoch i = (w.epoch i).next := by
  obtain ⟨key', hkey⟩ := w.exists_key call
  rcases (step_idStep h hkey).epochs with heq | ⟨id, -, heq⟩
  · exact Or.inl (congrFun heq i)
  · have hi := congrFun heq i
    by_cases hidx : i = Idx.idx id
    · rw [hidx, Function.update_self] at hi
      right
      rw [hidx]
      exact hi
    · rw [Function.update_of_ne hidx] at hi
      exact Or.inl hi

/-- A run keeps the identifiers. -/
theorem run_kept (h : w.Consistent) (calls : List Call) {id : PrimaryId}
    (hid : w.table.primaryIds.lookup key = some id) :
    (Machine.run step w calls).table.primaryIds.lookup key = some id :=
  run_keeps (P := fun w' => w'.table.primaryIds.lookup key = some id)
    (fun _ call hw' hid' => step_kept hw' call hid') h hid calls

theorem run_indexId (h : w.Consistent) (calls : List Call) :
    (Machine.run step w calls).table.index.indexId = w.table.index.indexId :=
  run_keeps (P := fun w' => w'.table.index.indexId = w.table.index.indexId)
    (fun _ call hw' heq => (step_indexId hw' call).trans heq) h rfl calls

/-- In a run, the epoch of a row advances by the number of its bumps. -/
theorem run_epoch (h : w.Consistent) (calls : List Call) (i : ℕ) :
    (Machine.run step w calls).epoch i = Epoch.next^[w.bumps i calls] (w.epoch i) := by
  induction calls generalizing w with
  | nil => rfl
  | cons call calls ih =>
    rw [Machine.run_cons, ih (step_consistent h call), bumps]
    rcases step_epoch h call i with heq | heq
    · rw [if_pos heq, Nat.zero_add, heq]
    · have hne : (w.step call).epoch i ≠ w.epoch i := by
        rw [heq]
        exact Epoch.next_ne _
      rw [if_neg hne, Nat.add_comm, Function.iterate_succ_apply, heq]

end World

end VectorStore
