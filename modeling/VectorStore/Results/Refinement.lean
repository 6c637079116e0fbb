import VectorStore.Rows.World

/-!
# The table refines its store

In every run the operations of a call are accepted by the store that the operations before led to,
and after the call the vectors, the map and the free identifiers of the index say exactly what the
store holds.
-/

namespace VectorStore

/-! ## Agreement -/

/-- What a local index says of the store. -/
structure LocalData.Agrees (data : LocalData) (indexId : IndexId) (store : Store) : Prop where
  /-- A row is assigned to the partition in which it has an entry. -/
  ids : ∀ id p, data.ids.get id = some (some p) ↔
    ∃ epoch value, store.lookup (p, id.newEpoch epoch) = some value
  /-- The size of a partition is the number of its entries. -/
  sizes : ∀ p, p.indexId = indexId → Idx.idx p < data.sizes.size →
    data.sizes.get p = some (store.count p)
  /-- The map and the keys of the partitions are inverse to each other. -/
  map_keys : ∀ key p, data.map.lookup key = some p ↔
    p.indexId = indexId ∧ data.keys.get p = some (some key)
  /-- The partitions of the map are those with entries. -/
  map_entries : ∀ p, (∃ key, data.map.lookup key = some p) ↔ 0 < store.count p
  /-- The free identifiers are those without a key, each of them once. -/
  free : ∀ p, p ∈ data.freeIds ↔ p.indexId = indexId ∧ data.keys.get p = some none
  nodup_free : data.freeIds.Nodup

/-- What a table says of its store. -/
structure World.Agrees (w : World) : Prop where
  /-- A row has at most one entry. -/
  unique : ∀ p q id jd value value', w.store.lookup (p, id) = some value →
    w.store.lookup (q, jd) = some value' → Idx.idx id = Idx.idx jd → p = q ∧ id = jd
  /-- The entry of a row is under the epoch stored for it, and its target is not a tombstone. -/
  entry : ∀ p id value, w.store.lookup (p, id) = some value →
    ∃ chunk t rest, w.table.index.valuesTimestamps.get id = some chunk ∧
      chunk.epoch = id.epoch ∧ chunk.timestamps = t :: rest ∧ t.isValid = true
  /-- The entry of a row has a key. -/
  key : ∀ p id value, w.store.lookup (p, id) = some value →
    ∃ key id', w.table.primaryIds.lookup key = some id' ∧ Idx.idx id' = Idx.idx id
  /-- Different keys have different rows. -/
  keys_inj : ∀ key key' id id', w.table.primaryIds.lookup key = some id →
    w.table.primaryIds.lookup key' = some id' → Idx.idx id = Idx.idx id' → key = key'
  localIndex : ∀ data, w.table.index.data = .localIndex data →
    data.Agrees w.table.index.indexId w.store

namespace LocalData

variable {data : LocalData} {indexId : IndexId} {store : Store} {epochs : Nat → Epoch}
  {shelf : Shelf}

/-- The rows assigned to a partition are those with an entry in it. -/
theorem Tracks.ids_get_iff (h : data.Tracks indexId store epochs shelf none) (id : PrimaryId)
    (p : PartitionId) :
    data.ids.get id = some (some p) ↔
      ∃ epoch value, store.lookup (p, id.newEpoch epoch) = some value := by
  have hids : data.ids.get id = some (some p) ↔
      ∃ value, shelf.place data.map.lookup (Idx.idx id) = some (p, value) := by
    rw [← Option.join_eq_some_iff, ColumnVec.get, h.ids (Idx.idx id), Option.bind_eq_some_iff]
    simp only [Shelf.place_eq_some_iff]
    constructor
    · rintro ⟨⟨key, value⟩, hrow, hp⟩
      exact ⟨value, key, hrow, hp⟩
    · rintro ⟨value, key, hrow, hp⟩
      exact ⟨(key, value), hrow, hp⟩
  rw [hids]
  constructor
  · rintro ⟨value, hrow⟩
    refine ⟨epochs (Idx.idx id), value, h.holds.lookup_eq ?_ ?_⟩
    · rw [PrimaryId.idx_newEpoch, hrow]
    · rw [PrimaryId.epoch_newEpoch, PrimaryId.idx_newEpoch]
  · rintro ⟨epoch, value, hlook⟩
    have hrow := ((h.holds p _ value).mp hlook).1
    rw [PrimaryId.idx_newEpoch] at hrow
    exact ⟨value, hrow⟩

/-- The partitions of the map are those with entries. -/
theorem Tracks.map_iff_count_pos (h : data.Tracks indexId store epochs shelf none)
    (p : PartitionId) : (∃ key, data.map.lookup key = some p) ↔ 0 < store.count p := by
  constructor
  · rintro ⟨key, hp⟩
    rcases h.occupied key p hp with ⟨i, value, hi⟩ | hnone
    · have hplace : shelf.place data.map.lookup i = some (p, value) :=
        Shelf.place_eq_some hi hp
      have hlook := h.holds.lookup_mk' hplace ((h.lt_size_ids hi).trans_le h.size_ids_le)
      by_contra hzero
      have hnone := Store.count_eq_zero_iff.mp (Nat.eq_zero_of_not_pos hzero)
        (PrimaryId.mk' i (epochs i))
      rw [hlook] at hnone
      cases hnone
    · cases hnone
  · intro hpos
    obtain ⟨i, value, hrow⟩ := h.holds.exists_of_count_pos hpos
    obtain ⟨key, -, hp⟩ := Shelf.place_eq_some_iff.mp hrow
    exact ⟨key, hp⟩

/-- A local index that tracks its rows agrees with the store. -/
theorem Tracks.agrees (h : data.Tracks indexId store epochs shelf none) :
    data.Agrees indexId store where
  ids := h.ids_get_iff
  sizes := fun p hp hlt => h.sizes p hp (h.size_sizes ▸ hlt)
  map_keys := h.mapped
  map_entries := h.map_iff_count_pos
  free := h.mem_free
  nodup_free := h.nodup_free

end LocalData

namespace World

/-- A consistent world agrees with its store. -/
theorem Consistent.agrees {w : World} (h : w.Consistent) : w.Agrees := by
  have htracks : w.table.index.Tracks w.store w.held w.table.primaryKeys.size := h.index
  have hholds := htracks.data.holds
  constructor
  case unique =>
    intro p q id jd value value' hp hq hidx
    obtain ⟨hrow, hepoch⟩ := (hholds p id value).mp hp
    obtain ⟨hrow', hepoch'⟩ := (hholds q jd value').mp hq
    rw [hidx] at hrow hepoch
    obtain ⟨rfl, -⟩ := Prod.mk.inj (Option.some.inj (hrow.symm.trans hrow'))
    exact ⟨rfl, PrimaryId.ext_idx hidx (hepoch.trans hepoch'.symm)⟩
  case entry =>
    intro p id value hp
    obtain ⟨hrow, hepoch⟩ := (hholds p id value).mp hp
    obtain ⟨key, hheld, -⟩ := Shelf.place_eq_some_iff.mp hrow
    have hlt : Idx.idx id < w.table.index.valuesTimestamps.size := by
      rw [htracks.size_timestamps]
      exact htracks.data.lt_size hheld
    obtain ⟨chunk, hchunk⟩ := Option.isSome_iff_exists.mp (ColumnVec.get_isSome_iff.mpr hlt)
    obtain ⟨t, rest, hts, hvalid⟩ := htracks.chunks (Idx.idx id) chunk hchunk
    refine ⟨chunk, t, rest, hchunk, ?_, hts, ?_⟩
    · have hvec : w.table.index.valuesTimestamps.vec[Idx.idx id]? = some chunk := hchunk
      rw [hepoch, Index.epochs, hvec, Option.elim_some]
    · rw [Timestamped.isValid_eq, hvalid, hheld]
      rfl
  case key =>
    intro p id value hp
    obtain ⟨pkey, hheld, -⟩ := Shelf.place_eq_some_iff.mp ((hholds p id value).mp hp).1
    exact Table.Consistent.exists_key h hheld
  case keys_inj => exact Table.Consistent.ids_inj h
  case localIndex =>
    intro data hdata
    have hlocal := htracks.data
    rw [hdata] at hlocal
    exact hlocal.1.agrees

variable [DecimalNormalizer]

/-- In every run on a new table, whatever the calls, each operation finds in the store what it
requires, and after each call the table says exactly what the store holds. -/
theorem run_refines_store {table : Table} (h : table.IsNew) (calls : List Call) :
    Machine.Along step
      (fun w call => Store.AcceptsAll w.store w.store (w.emitted call) ∧ (w.step call).Agrees)
      (init table) calls :=
  Machine.along_of_invariant (fun (w : World) call (hw : w.Consistent) => step_consistent hw call)
    (fun _ call hw => ⟨step_accepts hw call, (step_consistent hw call).agrees⟩)
    (consistent_init h) calls

end World

attribute [local instance] Sample.decimals in
/-- A row that moves between the partitions of a local index. -/
theorem run_refines_store_column :
    Machine.Along World.step
      (fun w call => Store.AcceptsAll w.store w.store (w.emitted call) ∧ (w.step call).Agrees)
      (World.init Sample.columnTable)
      [Sample.upsert 0 0 (some (Sample.vector 1)) 0 (some 1),
        Sample.upsert 0 1 (some (Sample.vector 2)) 1 (some 2), Sample.delete 0 2] :=
  World.run_refines_store Sample.isNew_columnTable _

end VectorStore
