import VectorStore.Results.Identifiers
import VectorStore.Pipeline.Served

/-!
# The partitions of a table over its calls

Identifiers of partitions are used again: a partition that loses its last row gives up its key, and
the next one may be another partition with the same identifier.  The end of a partition is announced
by an operation, in the call that ends it and in no other.  A call that announces anything bumps the
epoch of its row; hence a row whose epoch is not bumped stays as it is, and so does its partition.
-/

namespace VectorStore

/-! ## What an update announces -/

namespace LocalData.Tracks

variable {data : LocalData} {indexId : IndexId} {store : Store} {epochs : ℕ → Epoch}
  {shelf : Shelf} {opened : Option PartitionKey} {key key' : PartitionKey} {p q : PartitionId}
  {id : PrimaryId}

/-- Taking a row out of a partition ends no other partition, and this one if it says so. -/
theorem lookup_removeRow (h : data.Tracks indexId store epochs shelf opened)
    (hp : data.map.lookup key = some p) (hq : data.map.lookup key' = some q) :
    (data.removeRowFromPartition id p).2.map.lookup key' = some q ↔
      ¬(q = p ∧ (data.removeRowFromPartition id p).1 = true) := by
  by_cases hcount : store.count p - 1 = 0
  · rw [h.removeRow_eq_of_zero hp hcount]
    dsimp only
    rw [FiniteMap.lookup_erase_eq, and_iff_left rfl]
    by_cases hkey : key' = key
    · rw [if_pos hkey]
      subst hkey
      obtain rfl := Option.some.inj (hp.symm.trans hq)
      exact iff_of_false (by simp) (not_not.mpr rfl)
    · rw [if_neg hkey, hq, iff_true_left rfl]
      rintro rfl
      exact hkey (h.key_inj hq hp)
  · rw [h.removeRow_eq_of_ne_zero hp hcount]
    exact iff_of_true hq fun hand => Bool.false_ne_true hand.2

end LocalData.Tracks

namespace IndexData

/-- Existing partitions stay when one is created. -/
theorem locate_createPartition {data : IndexData} {indexId : IndexId} {key' : PartitionKey}
    {q : PartitionId} (key : PartitionKey) (hq : data.locate indexId key' = some q) :
    (data.createPartition key).2.locate indexId key' = some q := by
  cases data with
  | globalIndex => exact hq
  | localIndex data =>
    change (data.createPartition key).2.map.lookup key' = some q
    have hq : data.map.lookup key' = some q := hq
    unfold LocalData.createPartition
    cases hkey : data.map.lookup key with
    | some p => exact hq
    | none =>
      have hinsert : ∀ p, (data.map.insert key p).lookup key' = some q := by
        intro p
        rw [FiniteMap.lookup_insert_eq, if_neg, hq]
        rintro rfl
        rw [hkey] at hq
        cases hq
      dsimp only
      split
      · exact hq
      · split
        · exact hinsert _
        · exact hinsert _

namespace Tracks

variable {data : IndexData} {indexId : IndexId} {store : Store} {epochs : ℕ → Epoch}
  {shelf : Shelf} {size : ℕ} {opened : Option PartitionKey} {key key' : PartitionKey}
  {p q : PartitionId} {id : PrimaryId}

/-- Taking a row out of a partition ends no other partition, and this one if it says so. -/
theorem locate_removeRow (h : data.Tracks indexId store epochs shelf size opened)
    (hp : data.locate indexId key = some p) (hq : data.locate indexId key' = some q) :
    (data.removeRowFromPartition id p).2.locate indexId key' = some q ↔
      .removePartition q ∉
        UpdateWork.removeIfEmpty p (data.removeRowFromPartition id p).1 := by
  have hmem : ∀ isEmpty, Operation.removePartition q ∈ UpdateWork.removeIfEmpty p isEmpty ↔
      q = p ∧ isEmpty = true := by
    intro isEmpty
    cases isEmpty <;> simp [UpdateWork.removeIfEmpty]
  rw [hmem]
  cases data with
  | globalIndex => exact iff_of_true hq fun hand => Bool.false_ne_true hand.2
  | localIndex data => exact h.1.lookup_removeRow hp hq

end Tracks

theorem locate_insertRow (data : IndexData) (indexId : IndexId) (id : PrimaryId) (p : PartitionId) :
    (data.insertRowIntoPartition id p).locate indexId = data.locate indexId := by
  cases data <;> rfl

end IndexData

namespace UpdateWork

/-- Planning an update ends no partition. -/
theorem locate_new {pp : ProcessingPartition} {comparison : CompareTimestamps} {data : IndexData}
    {values : Option SplittingValues} {timestamps : NonemptyBox (Timestamped Unit)}
    {indexId : IndexId} {key : PartitionKey} {p : PartitionId}
    (hp : data.locate indexId key = some p) :
    (UpdateWork.new pp comparison data values timestamps).2.locate indexId key = some p := by
  have hcreate := fun new => IndexData.locate_createPartition new hp
  unfold UpdateWork.new
  cases pp with
  | existing q =>
    dsimp only
    split <;> split <;> exact hp
  | new new =>
    dsimp only
    split
    · exact hp
    · have hnew := hcreate new
      cases hresult : data.createPartition new with
      | mk result data' =>
        rw [hresult] at hnew
        cases result <;> exact hnew
  | addToExisting q =>
    dsimp only
    split <;> exact hp
  | moveToNew q new =>
    dsimp only
    split
    · split <;> exact hp
    · have hnew := hcreate new
      cases hresult : data.createPartition new with
      | mk result data' =>
        rw [hresult] at hnew
        cases result with
        | error e => exact hnew
        | ok r =>
          dsimp only
          split <;> exact hnew
  | moveToExisting q r =>
    dsimp only
    split <;> split <;> exact hp
  | missingKey q => exact hp
  | missing => exact hp

variable {data : IndexData} {indexId : IndexId} {store : Store} {epochs : ℕ → Epoch}
  {shelf : Shelf} {size : ℕ} {opened : Option PartitionKey} {id : PrimaryId}

/-- The operations of a work announce the end of a partition if and only if it ends. -/
theorem locate_perform {work : UpdateWork} {cur new : Option (PartitionKey × SplittingValues)}
    (h : data.Tracks indexId store epochs shelf size opened)
    (hwork : work.Realizes (data.locate indexId) cur new) (newId : PrimaryId) {key : PartitionKey}
    {p : PartitionId} (hp : data.locate indexId key = some p) :
    (work.perform data id newId (new.map Prod.snd)).2.locate indexId key = some p ↔
      .removePartition p ∉ (work.perform data id newId (new.map Prod.snd)).1 := by
  have hadd : ∀ q isUpdate (value : SplittingValues),
      Operation.removePartition p ≠ addOperation newId q isUpdate value := by
    intro q isUpdate value
    cases value <;> simp [addOperation]
  cases work with
  | none =>
    obtain ⟨-, rfl⟩ := hwork
    exact iff_of_true hp (by simp [perform, removeBeforeAdd, addValue, removeEntry])
  | moveInsidePartition q =>
    obtain ⟨key, value, value', -, rfl, -⟩ := hwork
    refine iff_of_true hp ?_
    simp [perform, removeBeforeAdd, addValue, addTarget, removeEntry, hadd]
  | moveBetweenPartitions q r =>
    obtain ⟨key', value, key'', value', -, rfl, -, hq, -⟩ := hwork
    have hdata : (perform (.moveBetweenPartitions q r) data id newId (some value')).2 =
        (data.removeRowFromPartition id q).2.insertRowIntoPartition newId r := rfl
    have hops : (perform (.moveBetweenPartitions q r) data id newId (some value')).1 =
        .removeBeforeAddValue id q :: (removeIfEmpty q (data.removeRowFromPartition id q).1 ++
          [addOperation newId r true value']) := by
      simp [perform, removeBeforeAdd, addValue, addTarget, removeEntry]
    rw [Option.map_some, hdata, hops, IndexData.locate_insertRow, h.locate_removeRow hq hp]
    simp [hadd]
  | addToPartition q =>
    obtain ⟨key, value, -, rfl, -⟩ := hwork
    rw [Option.map_some]
    have hdata : (perform (.addToPartition q) data id newId (some value)).2 =
        data.insertRowIntoPartition newId q := rfl
    rw [hdata, IndexData.locate_insertRow]
    refine iff_of_true hp ?_
    simp [perform, removeBeforeAdd, addValue, addTarget, removeEntry, hadd]
  | removeFromPartition q =>
    obtain ⟨key, value, -, rfl, hq⟩ := hwork
    have hdata : (perform (.removeFromPartition q) data id newId .none).2 =
        (data.removeRowFromPartition id q).2 := rfl
    have hops : (perform (.removeFromPartition q) data id newId .none).1 =
        .removeValue id q :: removeIfEmpty q (data.removeRowFromPartition id q).1 := rfl
    rw [Option.map_none, hdata, hops, h.locate_removeRow hq hp]
    simp

end UpdateWork

/-! ## What a call announces -/

/-- An update of the index of a row announces the partitions that it ends, and anything that it
announces goes with the next epoch of the row. -/
structure Index.Announces (index : Index) (i : ℕ)
    (outcome : Except Failure (List Operation) × Index) : Prop where
  located : ∀ key p, index.data.locate index.indexId key = some p →
    (outcome.2.data.locate outcome.2.indexId key = some p ↔
      .removePartition p ∉ emittedBy outcome.1)
  bumped : emittedBy outcome.1 = [] ∨
    outcome.2.epochs = Function.update index.epochs i (index.epochs i).next

/-- An update that announces nothing, and ends nothing. -/
theorem Index.Announces.of_quiet {index : Index} {i : ℕ} {data : IndexData}
    (hdata : ∀ key p, index.data.locate index.indexId key = some p →
      data.locate index.indexId key = some p) :
    index.Announces i (.ok [], { index with data }) :=
  ⟨fun key p hp => iff_of_true (hdata key p hp) List.not_mem_nil, Or.inl rfl⟩

/-- `update_index` announces what it does. -/
theorem updateIndex_announces {index : Index} {store : Store} {shelf : Shelf} {size : ℕ}
    {id : PrimaryId} (h : index.Tracks store shelf size) (hrange : Idx.idx id < size)
    {pp : ProcessingPartition} {dest : Option PartitionKey}
    (hfits : pp.Fits (index.data.locate index.indexId) ((shelf (Idx.idx id)).map Prod.fst) dest)
    (hkind : index.data.partitionColumns = none → dest = some .whole)
    {values : Option SplittingValues} {t : Timestamped Unit}
    (ht : t.value.isSome = values.isSome) (hfree : values.isSome → index.data.HasFree) :
    index.Announces (Idx.idx id) (updateIndex id pp index values ⟨t, []⟩) := by
  have hlt : Idx.idx id < index.valuesTimestamps.size := by
    rw [h.size_timestamps]
    exact hrange
  obtain ⟨chunk, hget⟩ := Option.isSome_iff_exists.mp (ColumnVec.get_isSome_iff.mpr hlt)
  have hvec : index.valuesTimestamps.vec[Idx.idx id]? = some chunk := hget
  obtain ⟨cur, rest, hchunk, hcur⟩ := h.chunks _ _ hvec
  have hepoch : index.epochs (Idx.idx id) = chunk.epoch := by
    rw [Index.epochs, hvec, Option.elim_some]
  have hcurNone : cur.value.isNone = (shelf (Idx.idx id)).isNone := by
    rw [← Option.not_isSome, hcur, Option.not_isSome]
  have htNone : t.value.isNone = values.isNone := by
    rw [← Option.not_isSome, ht, Option.not_isSome]
  have hmissing : (values.isNone && !t.value.isNone) = false := by
    rw [htNone, Bool.and_not_self]
  unfold updateIndex
  simp only [hget, NonemptyBox.toList, compareTimestamps_singleton hchunk]
  split
  · exact .of_quiet fun _ _ hp => hp
  · simp only [hmissing, Bool.false_eq_true, if_false]
    by_cases hskip : ((shelf (Idx.idx id)).isNone && dest.isNone) = true
    · obtain ⟨hnone, hdest⟩ := Bool.and_eq_true_iff.mp hskip
      rw [Option.isNone_iff_eq_none] at hnone hdest
      rw [hnone, hdest] at hfits
      rw [hfits.eq_missing]
      exact .of_quiet fun _ _ hp => hp
    · -- the row goes from where it is to where it is due
      have hplans : UpdateWork.Plans index.data index.indexId store index.epochs shelf size
          (Idx.idx id) t.timestamp (dest.bind fun key => values.map fun v => (key, v))
          (UpdateWork.new pp ⟨cur.value.isNone, t.value.isNone, cur.timestamp < t.timestamp,
            cur.timestamp = t.timestamp⟩ index.data values ⟨t, []⟩) :=
        UpdateWork.new_plans h.data hfits hkind hcurNone htNone ht hfree
          (Bool.not_eq_true _ ▸ hskip)
      have hstays := fun key p => @UpdateWork.locate_new pp ⟨cur.value.isNone, t.value.isNone,
        cur.timestamp < t.timestamp, cur.timestamp = t.timestamp⟩ index.data values ⟨t, []⟩
        index.indexId key p
      generalize UpdateWork.new pp ⟨cur.value.isNone, t.value.isNone, cur.timestamp < t.timestamp,
        cur.timestamp = t.timestamp⟩ index.data values ⟨t, []⟩ = outcome at hplans hstays ⊢
      obtain ⟨result, data'⟩ := outcome
      obtain ⟨work, t', opened, hok, -, -, htracks, hwork, -, -⟩ := hplans
      obtain rfl : result = _ := hok
      simp only [updateTimestamps_singleton hchunk]
      have hidx : Idx.idx (id.newEpoch chunk.epoch) = Idx.idx id := PrimaryId.idx_newEpoch _ _
      refine ⟨fun key p hp => UpdateWork.locate_perform htracks hwork _ (hstays key p hp),
        Or.inr ?_⟩
      rw [Index.epochs_set _ (hidx ▸ hlt), hidx, hepoch]

namespace Table

variable {table : Table} {store : Store} {shelf : Shelf} {key : PrimaryKey} {id : PrimaryId}

/-- A call for a key announces the partitions that it ends, and anything that it announces goes with
the next epoch of the row of the key. -/
structure Announces (table : Table) (key : PrimaryKey)
    (outcome : Except Failure (List Operation) × Table) : Prop where
  located : ∀ pkey p, table.index.data.locate table.index.indexId pkey = some p →
    (outcome.2.index.data.locate outcome.2.index.indexId pkey = some p ↔
      .removePartition p ∉ emittedBy outcome.1)
  bumped : emittedBy outcome.1 = [] ∨ ∃ id, outcome.2.primaryIds.lookup key = some id ∧
    outcome.2.index.epochs =
      Function.update table.index.epochs (Idx.idx id) (table.index.epochs (Idx.idx id)).next

/-- A call that fails before it reaches the index. -/
theorem Announces.of_error {table' : Table} (e : Failure)
    (hindex : table.index.SameIds table'.index) : table.Announces key (.error e, table') := by
  refine ⟨fun pkey p hp => iff_of_true ?_ List.not_mem_nil, Or.inl rfl⟩
  rw [hindex.locate]
  exact hp

/-- A call on a table with the same identifiers. -/
theorem Announces.of_sameIds {table' : Table} {outcome : Except Failure (List Operation) × Table}
    (hindex : table.index.SameIds table'.index) (h : table'.Announces key outcome) :
    table.Announces key outcome := by
  obtain ⟨hlocated, hbumped⟩ := h
  rw [hindex.epochs] at hbumped
  refine ⟨fun pkey p hp => hlocated pkey p ?_, hbumped⟩
  rw [hindex.locate]
  exact hp

/-- The last steps of a call announce what they do. -/
theorem finish_announces (h : table.Consistent store shelf)
    (hid : table.primaryIds.lookup key = some id) (writes : List (ColumnWrite × ColumnName))
    {split : SplitValuesFiltering} {t : Timestamped Unit} (ht : split.timestamps = ⟨t, []⟩)
    (hvalue : t.value.isSome = split.values.isSome)
    (hfree : split.values.isSome → table.index.data.HasFree) :
    table.Announces key (table.finish id writes split) := by
  have hup := updateColumnsLoop_updated h.columns (h.lt_size hid) writes
  obtain ⟨hcons, -, -⟩ := setColumns_spec h hid hup
  unfold finish
  generalize updateColumnsLoop id table.columns writes = outcome at hup hcons
  obtain ⟨result, columns⟩ := outcome
  cases result with
  | error e => exact .of_error e (Index.SameIds.refl _)
  | ok _ =>
    dsimp only at hcons ⊢
    have hrange := hcons.lt_size hid
    obtain ⟨pp, hpp, hfits⟩ := hcons.index.data.getPartitionKey hrange table.primaryKeys columns
    have hkind : table.index.data.partitionColumns = none →
        table.index.data.destination ((shelf (Idx.idx id)).map Prod.fst) id table.primaryKeys
          columns = some .whole := by
      intro hnone
      unfold IndexData.destination
      rw [hnone]
    unfold processRow
    have hpp' : table.index.data.getPartitionKey table.index.indexId id table.primaryKeys columns =
      .ok pp := hpp
    rw [ht]
    dsimp only
    rw [hpp']
    obtain ⟨hlocated, hbumped⟩ :=
      updateIndex_announces hcons.index hrange hfits hkind hvalue hfree
    exact ⟨hlocated, hbumped.imp_right fun h => ⟨id, hid, h⟩⟩

variable [DecimalNormalizer]

/-- The key that an identifier was found for. -/
theorem found_of_addPrimaryKey (h : table.Consistent store shelf) {raw : PrimaryKey}
    {table' : Table} (hadd : table.addPrimaryKey raw = (.ok id, table')) :
    ∃ key, table.normalizePrimaryKey raw = .ok key ∧ table.Found store shelf raw key id table' := by
  cases hkey : table.normalizePrimaryKey raw with
  | error e =>
    unfold addPrimaryKey at hadd
    rw [hkey] at hadd
    cases (Prod.mk.inj hadd).1
  | ok key =>
    by_cases hfind : table.CanFind key
    · obtain ⟨id', table'', hadd', hfound⟩ := addPrimaryKey_spec h hkey hfind
      obtain ⟨hid, rfl⟩ := Prod.mk.inj (hadd.symm.trans hadd')
      obtain rfl := Except.ok.inj hid
      exact ⟨key, rfl, hfound⟩
    · rw [addPrimaryKey_of_not_canFind hkey hfind] at hadd
      cases (Prod.mk.inj hadd).1

/-- A call announces what it does. -/
theorem call_announces (h : table.Consistent store shelf) {call : Call}
    (hkey : ∀ key', table.normalizePrimaryKey call.primaryKey = .ok key' → key' = key) :
    table.Announces key (table.call call) := by
  cases call with
  | delete indexKey raw timestamp =>
    change table.Announces key (table.delete indexKey raw timestamp)
    obtain ⟨hindex, -⟩ := addPrimaryKey_kept table raw
    unfold delete
    split
    · exact .of_error _ (Index.SameIds.refl _)
    · split
      · next e table' hadd =>
        rw [hadd] at hindex
        exact .of_error e (hindex ▸ Index.SameIds.refl _)
      · next id table' hadd =>
        obtain ⟨key', hkey', hfound⟩ := found_of_addPrimaryKey h hadd
        obtain rfl := hkey key' hkey'
        have hids : table.index.SameIds table'.index := by
          rw [hfound.index]
          exact .refl _
        refine .of_sameIds hids ?_
        have hsplit : (Call.delete indexKey raw timestamp).split =
            .ok ⟨none, ⟨.newTombstone timestamp, []⟩, []⟩ := rfl
        obtain ⟨t, ht, hvalue⟩ := Call.split_spec hsplit
        have hdone := finish_announces hfound.consistent hfound.lookup
          ((table'.index.filteringColumns.map fun _ => (timestamp, none)).zip
            table'.index.filteringColumns) ht hvalue fun hsome => by cases hsome
        exact hdone
  | upsert indexKey raw values =>
    change table.Announces key (table.upsert indexKey raw values)
    obtain ⟨hindex, -⟩ := sameIds_reservePrimaryIds h
    rcases upsert_eq h indexKey raw values with
      ⟨e, -, heq⟩ | ⟨-, reserved, hreserved, hcons, hsame, -, hfree, heq⟩
    · rw [heq]
      exact .of_error e hindex
    · rw [heq]
      obtain ⟨hindex', -⟩ := sameIds_reservePartitionIds table.reservePrimaryIds.2
      rw [← hreserved] at hindex'
      refine .of_sameIds (hindex.trans hindex') ?_
      obtain ⟨hadded, -⟩ := addPrimaryKey_kept reserved raw
      split
      · exact .of_error _ (Index.SameIds.refl _)
      · split
        · next e table' hadd =>
          rw [hadd] at hadded
          exact .of_error e (hadded ▸ Index.SameIds.refl _)
        · next id table' hadd =>
          obtain ⟨key', hkey', hfound⟩ := found_of_addPrimaryKey hcons hadd
          rw [normalizePrimaryKey_congr hsame.schema] at hkey'
          obtain rfl := hkey key' hkey'
          have hids : reserved.index.SameIds table'.index := by
            rw [hfound.index]
            exact .refl _
          refine .of_sameIds hids ?_
          split
          · exact .of_error _ (Index.SameIds.refl _)
          · next split hsplit =>
            obtain ⟨t, ht, hvalue⟩ := @Call.split_spec (.upsert indexKey raw values) split hsplit
            exact finish_announces hfound.consistent hfound.lookup _ ht hvalue
              fun _ => hfound.index.symm ▸ hfree

end Table

/-- What a store has after some operations it had before, or one of them added it. -/
theorem Store.exists_added {start store : Store} {operations : List Operation} {p : PartitionId}
    {id : PrimaryId} {value : SplittingValues} (haccepts : AcceptsAll start store operations)
    (h : (store.replay operations).lookup (p, id) = some value) :
    store.lookup (p, id) = some value ∨
      ∃ operation ∈ operations, operation.added = some (id, p, value) := by
  induction operations generalizing store with
  | nil => exact Or.inl h
  | cons operation operations ih =>
    rcases ih haccepts.2 h with hlook | ⟨operation', hmem, hadded⟩
    · have hinsert : ∀ q jd value', AList.lookup (p, id) (store.insert (q, jd) value') = some value →
          store.lookup (p, id) = some value ∨ (jd, q, value') = (id, p, value) := by
        intro q jd value' hlook
        rw [FiniteMap.lookup_insert_eq] at hlook
        split at hlook
        · next heq =>
          obtain ⟨rfl, rfl⟩ := Prod.mk.inj heq
          exact Or.inr (by rw [Option.some.inj hlook])
        · exact Or.inl hlook
      have herase : ∀ q jd, AList.lookup (p, id) (store.erase (q, jd)) = some value →
          store.lookup (p, id) = some value := by
        intro q jd hlook
        rw [FiniteMap.lookup_erase_eq] at hlook
        split at hlook
        · cases hlook
        · exact hlook
      cases operation with
      | addVector jd q vector isUpdate =>
        exact (hinsert q jd _ hlook).imp_right fun heq =>
          ⟨_, List.mem_cons_self, congrArg some heq⟩
      | addDocument jd q document isUpdate =>
        exact (hinsert q jd _ hlook).imp_right fun heq =>
          ⟨_, List.mem_cons_self, congrArg some heq⟩
      | removeBeforeAddValue jd q => exact Or.inl (herase q jd hlook)
      | removeValue jd q => exact Or.inl (herase q jd hlook)
      | removePartition q =>
        rw [apply_removePartition_of_count haccepts.1.2] at hlook
        exact Or.inl hlook
    · exact Or.inr ⟨operation', List.mem_cons_of_mem operation hmem, hadded⟩

namespace World

variable {w : World} {key : PrimaryKey} {pkey : PartitionKey} {p : PartitionId} {id : PrimaryId}
  {value : SplittingValues} {call : Call}

/-! ## Rows that stay -/

/-- The identifier is the current one of a row that has a value in a partition. -/
structure Places (w : World) (id : PrimaryId) (pkey : PartitionKey) (p : PartitionId)
    (value : SplittingValues) : Prop where
  held : w.held (Idx.idx id) = some (pkey, value)
  locate : w.locate pkey = some p
  epoch : id.epoch = w.epoch (Idx.idx id)

/-- The entries of the store are those of the rows. -/
theorem Consistent.lookup_iff (h : w.Consistent) :
    w.store.lookup (p, id) = some value ↔ ∃ pkey, w.Places id pkey p value := by
  have htracks : w.table.index.Tracks w.store w.held w.table.primaryKeys.size := h.index
  rw [htracks.data.holds p id value, Shelf.place_eq_some_iff]
  constructor
  · rintro ⟨⟨pkey, hheld, hp⟩, hepoch⟩
    exact ⟨pkey, hheld, hp, hepoch⟩
  · rintro ⟨pkey, hheld, hp, hepoch⟩
    exact ⟨⟨pkey, hheld, hp⟩, hepoch⟩

variable [DecimalNormalizer]

theorem step_announces (h : w.Consistent) (hkey : ∀ key', w.keyOf call = .ok key' → key' = key) :
    w.table.Announces key (w.table.call call) :=
  Table.call_announces h hkey

/-- A partition ends in a call if and only if the call announces it. -/
theorem locate_step_iff (h : w.Consistent) (call : Call) (hp : w.locate pkey = some p) :
    (w.step call).locate pkey = some p ↔ .removePartition p ∉ w.emitted call := by
  obtain ⟨key, hkey⟩ := w.exists_key call
  exact (step_announces h hkey).located pkey p hp

/-- A row whose epoch is not bumped by a call keeps its value. -/
theorem held_step (h : w.Consistent) (hkey : ∀ key', w.keyOf call = .ok key' → key' = key)
    {own : PrimaryId} (hown : (w.step call).table.primaryIds.lookup key = some own) {i : ℕ}
    (hi : i ≠ Idx.idx own) {entry : PartitionKey × SplittingValues} (hentry : w.held i = some entry) :
    (w.step call).held i = some entry := by
  obtain ⟨key', own', hown', rfl⟩ := Table.Consistent.exists_key h hentry
  have hne : key' ≠ key := by
    rintro rfl
    have hkept := step_kept h call hown'
    rw [hown] at hkept
    rw [Option.some.inj hkept] at hi
    exact hi rfl
  have hrow : (w.step call).row key' = w.row key' := by
    by_cases hreach : ∃ key'', w.Reaches call key''
    · obtain ⟨key'', hreach⟩ := hreach
      obtain rfl := hkey key'' hreach.keyOf_eq
      rw [(step_stepped h hreach).row, Function.update_of_ne hne]
    · push Not at hreach
      rw [(step_refused h hreach).row]
  rw [← held_row (step_kept h call hown'), hrow, held_row hown', hentry]

/-- A row whose epoch is not bumped by a call keeps its value and its partition. -/
theorem Places.step (hplaces : w.Places id pkey p value) (h : w.Consistent)
    (hepoch : (w.step call).epoch (Idx.idx id) = w.epoch (Idx.idx id)) :
    (w.step call).Places id pkey p value ∧ .removePartition p ∉ w.emitted call := by
  obtain ⟨key, hkey⟩ := w.exists_key call
  rcases (step_announces h hkey).bumped with hquiet | ⟨own, hown, hbumped⟩
  · have hemitted : w.emitted call = [] := hquiet
    have hnot : Operation.removePartition p ∉ w.emitted call := by
      rw [hemitted]
      exact List.not_mem_nil
    have hstore : (w.step call).store = w.store := by
      change w.store.replay (w.emitted call) = w.store
      rw [hemitted]
      rfl
    obtain ⟨pkey', hplaces'⟩ := (step_consistent h call).lookup_iff.mp
      (hstore ▸ h.lookup_iff.mpr ⟨pkey, hplaces⟩)
    have hlocate := (locate_step_iff h call hplaces.locate).mpr hnot
    have htracks : (w.step call).table.index.Tracks (w.step call).store (w.step call).held
      (w.step call).table.primaryKeys.size := (step_consistent h call).index
    obtain rfl := htracks.data.key_inj hlocate hplaces'.locate
    exact ⟨hplaces', hnot⟩
  · have hi : Idx.idx id ≠ Idx.idx own := by
      intro heq
      have hnext : (w.step call).epoch (Idx.idx id) = (w.epoch (Idx.idx id)).next := by
        rw [heq]
        exact (congrFun hbumped _).trans (Function.update_self ..)
      rw [hepoch] at hnext
      exact Epoch.next_ne _ hnext.symm
    have hheld := held_step h hkey hown hi hplaces.held
    have hstep := step_consistent h call
    have htracks : (w.step call).table.index.Tracks (w.step call).store (w.step call).held
      (w.step call).table.primaryKeys.size := hstep.index
    obtain ⟨q, hq⟩ := htracks.data.exists_locate hheld
    have hplaces' : (w.step call).Places id pkey q value :=
      ⟨hheld, hq, hplaces.epoch.trans hepoch.symm⟩
    -- the entry is the one it was before: what a call adds is of the row that it bumps
    rcases Store.exists_added (step_accepts h call) (hstep.lookup_iff.mpr ⟨pkey, hplaces'⟩) with
      hbefore | ⟨operation, hmem, hadded⟩
    · obtain ⟨pkey', hplaces''⟩ := h.lookup_iff.mp hbefore
      obtain ⟨rfl, -⟩ := Prod.mk.inj (Option.some.inj (hplaces.held.symm.trans hplaces''.held))
      obtain rfl : p = q := Option.some.inj (hplaces.locate.symm.trans hplaces''.locate)
      exact ⟨hplaces', (locate_step_iff h call hplaces.locate).mp hq⟩
    · obtain ⟨own', hown', hidx, -⟩ := (step_idStep h hkey).added operation hmem id q value hadded
      obtain rfl : own = own' := Option.some.inj (hown.symm.trans hown')
      exact absurd hidx hi

/-- In a run that does not bump the epoch of a row, the row keeps its value, and its partition is not
ended. -/
theorem Places.run (hplaces : w.Places id pkey p value) (h : w.Consistent) {calls : List Call}
    (hzero : w.bumps (Idx.idx id) calls = 0) :
    (Machine.run World.step w calls).Places id pkey p value ∧
      Machine.Along World.step (fun w call => .removePartition p ∉ w.emitted call) w calls := by
  induction calls generalizing w with
  | nil => exact ⟨hplaces, trivial⟩
  | cons call calls ih =>
    rw [bumps, Nat.add_eq_zero_iff] at hzero
    have hepoch : (w.step call).epoch (Idx.idx id) = w.epoch (Idx.idx id) := by
      by_contra hne
      rw [if_neg hne] at hzero
      exact one_ne_zero hzero.1
    obtain ⟨hplaces', hnot⟩ := hplaces.step h hepoch
    obtain ⟨hend, halong⟩ := ih hplaces' (step_consistent h call) hzero.2
    exact ⟨hend, hnot, halong⟩

/-- What is located in a run without the end of its partition stays there. -/
theorem locate_run (h : w.Consistent) {calls : List Call} (hp : w.locate pkey = some p)
    (halong : Machine.Along step (fun w call => .removePartition p ∉ w.emitted call) w calls) :
    (Machine.run step w calls).locate pkey = some p :=
  (Machine.run_invariant_of_along (fun (w' : World) call
    (hw' : w'.Consistent ∧ w'.locate pkey = some p) hnot =>
      ⟨step_consistent hw'.1 call, (locate_step_iff hw'.1 call hw'.2).mpr hnot⟩) ⟨h, hp⟩ halong).2

/-! ## Announcements -/

/-- What a call announces.  The end of a partition is announced when a key loses it, and the entry of
a row stays if and only if the epoch of the row does. -/
structure Announced (w : World) (call : Call) : Prop where
  ended : ∀ p, .removePartition p ∈ w.emitted call ↔
    ∃ pkey, w.locate pkey = some p ∧ (w.step call).locate pkey ≠ some p
  entries : ∀ p id value, w.store.lookup (p, id) = some value →
    ((w.step call).store.lookup (p, id) = some value ↔
      (w.step call).epoch (Idx.idx id) = w.epoch (Idx.idx id))

omit [DecimalNormalizer] in
/-- Only a partition with entries is ended. -/
theorem count_pos_of_removePartition {start store : Store} {operations : List Operation}
    (haccepts : Store.AcceptsAll start store operations)
    (hmem : .removePartition p ∈ operations) : 0 < start.count p := by
  induction operations generalizing store with
  | nil => cases hmem
  | cons operation operations ih =>
    rcases List.mem_cons.mp hmem with rfl | hmem
    · exact haccepts.1.1
    · exact ih haccepts.2 hmem

theorem Consistent.announced (h : w.Consistent) (call : Call) : w.Announced call where
  ended p := by
    constructor
    · intro hmem
      have hpos := count_pos_of_removePartition (step_accepts h call) hmem
      obtain ⟨id, hsome⟩ : ∃ id, (w.store.lookup (p, id)).isSome := by
        by_contra hno
        push Not at hno
        rw [Store.count_eq_zero_iff.mpr fun id => Option.not_isSome_iff_eq_none.mp (hno id)] at hpos
        exact lt_irrefl 0 hpos
      obtain ⟨value, hvalue⟩ := Option.isSome_iff_exists.mp hsome
      obtain ⟨pkey, hplaces⟩ := h.lookup_iff.mp hvalue
      exact ⟨pkey, hplaces.locate, fun hp =>
        (locate_step_iff h call hplaces.locate).mp hp hmem⟩
    · rintro ⟨pkey, hp, hne⟩
      by_contra hnot
      exact hne ((locate_step_iff h call hp).mpr hnot)
  entries p id value hvalue := by
    obtain ⟨pkey, hplaces⟩ := h.lookup_iff.mp hvalue
    have hstep := step_consistent h call
    constructor
    · intro hvalue'
      obtain ⟨pkey', hplaces'⟩ := hstep.lookup_iff.mp hvalue'
      exact hplaces'.epoch.symm.trans hplaces.epoch
    · exact fun hepoch => hstep.lookup_iff.mpr ⟨pkey, (hplaces.step h hepoch).1⟩

/-- In every run on a new table, whatever the calls, each call announces the end of a partition if and
only if the key of the partition loses it, and leaves an entry of the store as it is if and only if it
does not bump the epoch of the row. -/
theorem partitions_announced {table : Table} (h : table.IsNew) (calls : List Call) :
    Machine.Along step Announced (init table) calls :=
  Machine.along_of_invariant (fun (w : World) call (hw : w.Consistent) => step_consistent hw call)
    (fun _ call hw => hw.announced call) (consistent_init h) calls

end World

attribute [local instance] Sample.decimals in
/-- A row that moves between the partitions of a local index. -/
theorem World.partitions_announced_columnTable :
    Machine.Along World.step World.Announced (World.init Sample.columnTable)
      [Sample.upsert 0 0 (some (Sample.vector 1)) 0 (some 1),
        Sample.upsert 0 1 (some (Sample.vector 2)) 1 (some 2), Sample.delete 0 2] :=
  World.partitions_announced Sample.isNew_columnTable _

end VectorStore
