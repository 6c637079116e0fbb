import VectorStore.Rows.Row
import VectorStore.Table.Partitions

/-!
# The partitions of an index

`IndexData.Tracks` is the relation of a local index for an index of either kind; a global index has
one partition, whose key is `PartitionKey.whole`.  The work of an update is then a change of the
shelf at one row: `UpdateWork.Realizes` says which, and `UpdateWork.perform_tracks` that the
operations are accepted by the store and lead to it.
-/

namespace VectorStore

namespace LocalData

@[simp] theorem partitionKeyColumns_createPartition (data : LocalData) (key : PartitionKey) :
    (data.createPartition key).2.partitionKeyColumns = data.partitionKeyColumns ∧
      (data.createPartition key).2.nonpkPartitionKeyColumns = data.nonpkPartitionKeyColumns ∧
      (data.createPartition key).2.ids = data.ids := by
  unfold createPartition resetSize
  split
  · exact ⟨rfl, rfl, rfl⟩
  · split
    · exact ⟨rfl, rfl, rfl⟩
    · dsimp only
      split <;> exact ⟨rfl, rfl, rfl⟩

@[simp] theorem partitionKeyColumns_removeRow (data : LocalData) (id : PrimaryId)
    (p : PartitionId) :
    (data.removeRowFromPartition id p).2.partitionKeyColumns = data.partitionKeyColumns ∧
      (data.removeRowFromPartition id p).2.nonpkPartitionKeyColumns =
        data.nonpkPartitionKeyColumns ∧
      (data.removeRowFromPartition id p).2.ids = data.ids.set id none := by
  unfold removeRowFromPartition
  dsimp only
  split
  · exact ⟨rfl, rfl, rfl⟩
  · split
    · split <;> exact ⟨rfl, rfl, rfl⟩
    · exact ⟨rfl, rfl, rfl⟩

end LocalData

namespace IndexData

/-- The partition of a key. -/
def locate (data : IndexData) (indexId : IndexId) (key : PartitionKey) : Option PartitionId :=
  match data with
  | globalIndex => if key = .whole then some (.global indexId) else none
  | localIndex data => data.map.lookup key

/-- The key of a partition. -/
def keyOf (data : IndexData) (p : PartitionId) : Option PartitionKey :=
  match data with
  | globalIndex => some .whole
  | localIndex data => (data.keys.get p).join

/-- The columns of a local index. -/
def partitionColumns : IndexData → Option (NonemptyBox ColumnName × List ColumnName)
  | globalIndex => none
  | localIndex data => some (data.partitionKeyColumns, data.nonpkPartitionKeyColumns)

/-- Where a local index has a row. -/
def placeOf : IndexData → PrimaryId → Option (Option PartitionId)
  | globalIndex, _ => none
  | localIndex data, primaryId => data.ids.get primaryId

/-- A partition can be created. -/
def HasFree : IndexData → Prop
  | globalIndex => True
  | localIndex data => data.freeIds ≠ []

/-- The index and the store hold exactly the rows of the shelf, of which there are `size`. -/
def Tracks (data : IndexData) (indexId : IndexId) (store : Store) (epochs : Nat → Epoch)
    (shelf : Shelf) (size : Nat) (opened : Option PartitionKey) : Prop :=
  match data with
  | globalIndex =>
    store.Holds epochs (shelf.place (globalIndex.locate indexId)) ∧
      (∀ i key value, shelf i = some (key, value) → key = .whole ∧ i < size) ∧
      size ≤ PrimaryId.reserved ∧ opened = none
  | localIndex data => data.Tracks indexId store epochs shelf opened ∧ data.ids.size = size

theorem locate_globalIndex_eq_some {indexId : IndexId} {key : PartitionKey} {p : PartitionId} :
    globalIndex.locate indexId key = some p ↔ key = .whole ∧ PartitionId.global indexId = p := by
  unfold locate
  by_cases hkey : key = .whole <;> simp [hkey]

namespace Tracks

variable {data : IndexData} {indexId : IndexId} {store : Store} {epochs : Nat → Epoch}
  {shelf : Shelf} {size : Nat} {opened : Option PartitionKey} {key : PartitionKey}
  {p : PartitionId} {id : PrimaryId} {value : SplittingValues}

/-! ## Reading the relation -/

theorem holds (h : data.Tracks indexId store epochs shelf size opened) :
    store.Holds epochs (shelf.place (data.locate indexId)) := by
  cases data with
  | globalIndex => exact h.1
  | localIndex data => exact h.1.holds

theorem exists_locate (h : data.Tracks indexId store epochs shelf size opened) {i : Nat}
    (hi : shelf i = some (key, value)) : ∃ p, data.locate indexId key = some p := by
  cases data with
  | globalIndex =>
    obtain ⟨rfl, -⟩ := h.2.1 i key value hi
    exact ⟨.global indexId, locate_globalIndex_eq_some.mpr ⟨rfl, rfl⟩⟩
  | localIndex data => exact h.1.exists_lookup hi

theorem lt_size (h : data.Tracks indexId store epochs shelf size opened) {i : Nat}
    (hi : shelf i = some (key, value)) : i < size := by
  cases data with
  | globalIndex => exact (h.2.1 i key value hi).2
  | localIndex data =>
    rw [← h.2]
    exact h.1.lt_size_ids hi

theorem size_le (h : data.Tracks indexId store epochs shelf size opened) :
    size ≤ PrimaryId.reserved := by
  cases data with
  | globalIndex => exact h.2.2.1
  | localIndex data =>
    rw [← h.2]
    exact h.1.size_ids_le

/-- Different keys have different partitions. -/
theorem key_inj (h : data.Tracks indexId store epochs shelf size opened) {key' : PartitionKey}
    (hp : data.locate indexId key = some p) (hp' : data.locate indexId key' = some p) :
    key = key' := by
  cases data with
  | globalIndex =>
    rw [(locate_globalIndex_eq_some.mp hp).1, (locate_globalIndex_eq_some.mp hp').1]
  | localIndex data => exact h.1.key_inj hp hp'

theorem keyOf_locate (h : data.Tracks indexId store epochs shelf size opened)
    (hp : data.locate indexId key = some p) : data.keyOf p = some key := by
  cases data with
  | globalIndex =>
    rw [(locate_globalIndex_eq_some.mp hp).1]
    rfl
  | localIndex data =>
    unfold keyOf
    dsimp only
    rw [h.1.keys_get hp, Option.join_some]

/-! ## The three changes -/

/-- Creating a partition keeps every row and opens the partition. -/
theorem createPartition (h : data.Tracks indexId store epochs shelf size none)
    (hkey : data.locate indexId key = none) (hkind : data.partitionColumns.isSome)
    (hfree : data.HasFree) :
    ∃ p, (data.createPartition key).1 = .ok p ∧
      (data.createPartition key).2.locate indexId key = some p ∧
      (∀ key', key' ≠ key →
        (data.createPartition key).2.locate indexId key' = data.locate indexId key') ∧
      (data.createPartition key).2.Tracks indexId store epochs shelf size (some key) := by
  cases data with
  | globalIndex => simp [partitionColumns] at hkind
  | localIndex data =>
    obtain ⟨p, hok, hmap, htracks⟩ := h.1.createPartition hkey hfree
    refine ⟨p, hok, ?_, ?_, htracks, ?_⟩
    · change (data.createPartition key).2.map.lookup key = some p
      rw [hmap, AList.lookup_insert]
    · intro key' hne
      change (data.createPartition key).2.map.lookup key' = data.map.lookup key'
      rw [hmap, AList.lookup_insert_ne hne]
    · change (data.createPartition key).2.ids.size = size
      rw [(data.partitionKeyColumns_createPartition key).2.2]
      exact h.2

/-- Taking a row out of its partition. -/
theorem removeRow (h : data.Tracks indexId store epochs shelf size opened)
    (hrow : shelf (Idx.idx id) = some (key, value)) (hp : data.locate indexId key = some p)
    (hepoch : id.epoch = epochs (Idx.idx id)) (hopen : opened ≠ some key) :
    (data.removeRowFromPartition id p).2.Tracks indexId (store.erase (p, id)) epochs
        (Function.update shelf (Idx.idx id) none) size opened ∧
      ((data.removeRowFromPartition id p).1 = true → Store.count (store.erase (p, id)) p = 0) ∧
      ∀ key', key' ≠ key → (data.removeRowFromPartition id p).2.locate indexId key' =
        data.locate indexId key' := by
  cases data with
  | globalIndex =>
    refine ⟨⟨?_, ?_, h.size_le, h.2.2.2⟩, ?_, fun _ _ => rfl⟩
    · have hholds := h.holds.erase (Shelf.place_eq_some hrow hp) hepoch
      rwa [← Shelf.place_update_none] at hholds
    · intro i key' value' hi
      by_cases hii : i = Idx.idx id
      · rw [hii, Function.update_self] at hi
        simp at hi
      · rw [Function.update_of_ne hii] at hi
        exact h.2.1 i key' value' hi
    · intro hfalse
      exact absurd hfalse Bool.false_ne_true
  | localIndex data =>
    obtain ⟨htracks, hcount, hother⟩ := h.1.removeRow hrow hp hepoch hopen
    refine ⟨⟨htracks, ?_⟩, hcount, hother⟩
    change (data.removeRowFromPartition id p).2.ids.size = size
    rw [(data.partitionKeyColumns_removeRow id p).2.2, ColumnVec.size_set]
    exact h.2

/-- Putting a row into a partition. -/
theorem insertRow (h : data.Tracks indexId store epochs shelf size opened)
    (hrow : shelf (Idx.idx id) = none) (hp : data.locate indexId key = some p)
    (hepoch : id.epoch = epochs (Idx.idx id)) (hrange : Idx.idx id < size)
    (hopen : ∀ key', opened = some key' → key' = key) (value : SplittingValues) :
    (data.insertRowIntoPartition id p).Tracks indexId (store.insert (p, id) value) epochs
      (Function.update shelf (Idx.idx id) (some (key, value))) size none := by
  cases data with
  | globalIndex =>
    refine ⟨?_, ?_, h.size_le, rfl⟩
    · have hholds := h.holds.insert (Shelf.place_eq_none hrow) hepoch p value
      rwa [← Shelf.place_update_some hp] at hholds
    · intro i key' value' hi
      by_cases hii : i = Idx.idx id
      · rw [hii, Function.update_self] at hi
        obtain ⟨rfl, -⟩ := Prod.mk.inj (Option.some.inj hi)
        exact ⟨(locate_globalIndex_eq_some.mp hp).1, hii ▸ hrange⟩
      · rw [Function.update_of_ne hii] at hi
        exact h.2.1 i key' value' hi
  | localIndex data =>
    refine ⟨h.1.insertRow hrow hp hepoch ?_ hopen value, ?_⟩
    · rw [h.2]
      exact hrange
    · unfold LocalData.insertRowIntoPartition
      rw [ColumnVec.size_set]
      exact h.2

/-- The epoch of a row that is on no shelf is free to change. -/
theorem setEpoch (h : data.Tracks indexId store epochs shelf size opened) {i : Nat}
    (hrow : shelf i = none) (epoch : Epoch) :
    data.Tracks indexId store (Function.update epochs i epoch) shelf size opened := by
  cases data with
  | globalIndex => exact ⟨h.holds.setEpoch (Shelf.place_eq_none hrow) epoch, h.2⟩
  | localIndex data => exact ⟨h.1.setEpoch hrow epoch, h.2⟩

/-- Putting a row into a partition under the epoch that was just set. -/
theorem enter {epoch : Epoch}
    (h : data.Tracks indexId store (Function.update epochs (Idx.idx id) epoch) shelf size opened)
    (hrow : shelf (Idx.idx id) = none) (hp : data.locate indexId key = some p)
    (hrange : Idx.idx id < size) (hopen : ∀ key', opened = some key' → key' = key)
    (value : SplittingValues) :
    (data.insertRowIntoPartition (id.newEpoch epoch) p).Tracks indexId
      (store.insert (p, id.newEpoch epoch) value) (Function.update epochs (Idx.idx id) epoch)
      (Function.update shelf (Idx.idx id) (some (key, value))) size none := by
  have hidx : Idx.idx (id.newEpoch epoch) = Idx.idx id := PrimaryId.idx_newEpoch id epoch
  rw [← hidx] at hrow hrange ⊢
  refine insertRow ?_ hrow hp ?_ hrange hopen value
  · rw [hidx]
    exact h
  · rw [PrimaryId.epoch_newEpoch, Function.update_self]

/-- Replacing the value of a row inside its partition, under a new epoch. -/
theorem replace (h : data.Tracks indexId store epochs shelf size opened)
    (hrow : shelf (Idx.idx id) = some (key, value)) (hp : data.locate indexId key = some p)
    (hepoch : id.epoch = epochs (Idx.idx id)) (epoch : Epoch) (value' : SplittingValues) :
    data.Tracks indexId (AList.insert (p, id.newEpoch epoch) value' (store.erase (p, id)))
      (Function.update epochs (Idx.idx id) epoch)
      (Function.update shelf (Idx.idx id) (some (key, value'))) size opened := by
  cases data with
  | globalIndex =>
    have hplace : shelf.place (globalIndex.locate indexId) (Idx.idx id) = some (p, value) :=
      Shelf.place_eq_some hrow hp
    refine ⟨?_, ?_, h.size_le, h.2.2.2⟩
    · rw [Shelf.place_update_some hp]
      exact h.holds.replace hplace hepoch epoch value'
    · intro i key' v hi
      by_cases hii : i = Idx.idx id
      · rw [hii, Function.update_self] at hi
        obtain ⟨rfl, -⟩ := Prod.mk.inj (Option.some.inj hi)
        rw [hii]
        exact h.2.1 _ _ _ hrow
      · rw [Function.update_of_ne hii] at hi
        exact h.2.1 i key' v hi
  | localIndex data => exact ⟨h.1.replace hrow hp hepoch epoch value', h.2⟩

end Tracks

end IndexData

end VectorStore
