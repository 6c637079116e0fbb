import VectorStore.Rows.Rows

/-!
# Reserving identifiers

`reserve_primary_ids` and `reserve_partition_ids` make room and change no row.  The first fails only
when all the identifiers of rows are given out; the second never does, as there are no more
partitions than rows.
-/

namespace VectorStore

namespace Table

/-- The two tables have the same rows, whatever the store holds. -/
structure SameRows (table table' : Table) : Prop where
  schema : table'.schema = table.schema
  primaryIds : table'.primaryIds = table.primaryIds
  rowAt : ∀ shelf id, table'.rowAt shelf id = table.rowAt shelf id
  present : table'.index.present = table.index.present

namespace SameRows

theorem refl (table : Table) : table.SameRows table := ⟨rfl, rfl, fun _ _ => rfl, rfl⟩

theorem trans {t t' t'' : Table} (h : t.SameRows t') (h' : t'.SameRows t'') : t.SameRows t'' :=
  ⟨h'.schema.trans h.schema, h'.primaryIds.trans h.primaryIds,
    fun shelf id => (h'.rowAt shelf id).trans (h.rowAt shelf id), h'.present.trans h.present⟩

theorem rows {t t' : Table} (h : t.SameRows t') (shelf : Shelf) : t'.rows shelf = t.rows shelf := by
  funext key
  unfold Table.rows
  rw [h.primaryIds]
  exact congrArg _ (funext (h.rowAt shelf))

end SameRows

/-! ## Identifiers of rows -/

/-- The identifiers that follow the ones in use, as far as there are any. -/
theorem newPrimaryIds_eq (start n : Nat) :
    newPrimaryIds start n =
      (List.range' start (min n (PrimaryId.reserved - start))).map (PrimaryId.mk' · .new) := by
  have hres : PrimaryId.reserved = 2 ^ 48 - 1 := rfl
  induction n generalizing start with
  | zero => simp [newPrimaryIds]
  | succ n ih =>
    rw [newPrimaryIds]
    by_cases hlt : start < PrimaryId.reserved
    · have htry : PrimaryId.tryNew start .new = .ok (PrimaryId.mk' start .new) := if_neg (by omega)
      have hmin : min (n + 1) (PrimaryId.reserved - start) =
          min n (PrimaryId.reserved - (start + 1)) + 1 := by omega
      simp only [htry]
      rw [ih, hmin, List.range'_succ, List.map_cons]
    · have htry : ∃ e, PrimaryId.tryNew start .new = .error e := ⟨_, if_pos (by omega)⟩
      obtain ⟨e, he⟩ := htry
      have hmin : min (n + 1) (PrimaryId.reserved - start) = 0 := by omega
      simp only [he]
      rw [hmin]
      rfl

/-- New positions of a column read as nothing. -/
theorem cells_resizeWith {columns : Columns} {size n : Nat} (hsize : Columns.HasSize columns size)
    (hn : size ≤ n) (id : PrimaryId) :
    Columns.cells (FiniteMap.mapValues (·.resizeWith n) columns) id =
      Columns.cells columns id := by
  funext name
  unfold Columns.cells
  rw [FiniteMap.lookup_mapValues]
  cases hlook : columns.lookup name with
  | none => rfl
  | some column =>
    rw [Option.map_some, Option.elim_some, Option.elim_some]
    cases column with
    | primaryKey offset => rfl
    | values type vec =>
      have hvec : vec.size = size := hsize name _ hlook
      unfold Column.resizeWith Column.cell
      dsimp only
      rw [ColumnVec.get_resizeWith (by omega)]
      by_cases hlt : Idx.idx id < vec.size
      · rw [if_pos hlt]
      · have hnone : vec.get id = none := ColumnVec.getElem?_of_size_le (not_lt.mp hlt)
        rw [if_neg hlt, hnone]
        split
        · rw [Option.elim_some, Timestamped.timestamp_new, Timestamped.value_new]
          rfl
        · rfl

theorem shape_resizeWith (columns : Columns) (n : Nat) :
    Columns.shape (FiniteMap.mapValues (·.resizeWith n) columns) = Columns.shape columns := by
  funext name
  unfold Columns.shape
  rw [FiniteMap.lookup_mapValues, Option.map_map]
  congr 1
  funext column
  cases column <;> rfl

theorem hasSize_resizeWith (columns : Columns) (n : Nat) :
    Columns.HasSize (FiniteMap.mapValues (·.resizeWith n) columns) n := by
  intro name column hlook
  rw [FiniteMap.lookup_mapValues] at hlook
  obtain ⟨column', -, rfl⟩ := Option.map_eq_some_iff.mp hlook
  cases column' with
  | values type vec => exact ColumnVec.size_resizeWith vec n _
  | primaryKey offset => trivial

end Table

/-- A new row has a first timestamp, and it is the tombstone of `Timestamp::MIN`. -/
theorem ChunkTimestamps.timestamps_default (columns : NonemptyBox ColumnName) :
    ∃ rest, (ChunkTimestamps.default columns.length).timestamps =
      Timestamped.newTombstone .min :: rest :=
  ⟨_, rfl⟩

theorem ChunkTimestamps.stamp_default (columns : NonemptyBox ColumnName) :
    (ChunkTimestamps.default columns.length).stamp = .min :=
  Timestamped.timestamp_new .min none

namespace Index

variable {index : Index} {store : Store} {shelf : Shelf} {size n : Nat}

theorem epochs_resizePrimaryIdsWith (hn : index.valuesTimestamps.size ≤ n) :
    (index.resizePrimaryIdsWith n).epochs = index.epochs := by
  funext i
  unfold epochs resizePrimaryIdsWith
  dsimp only
  rw [ColumnVec.getElem?_resizeWith hn]
  by_cases hi : i < index.valuesTimestamps.size
  · rw [if_pos hi]
  · rw [if_neg hi, ColumnVec.getElem?_of_size_le (not_lt.mp hi)]
    split <;> rfl

theorem stamp_resizePrimaryIdsWith (hn : index.valuesTimestamps.size ≤ n) :
    (index.resizePrimaryIdsWith n).stamp = index.stamp := by
  funext i
  unfold stamp resizePrimaryIdsWith
  dsimp only
  rw [ColumnVec.getElem?_resizeWith hn]
  by_cases hi : i < index.valuesTimestamps.size
  · rw [if_pos hi]
  · rw [if_neg hi, ColumnVec.getElem?_of_size_le (not_lt.mp hi)]
    split
    · exact ChunkTimestamps.stamp_default index.targetColumns
    · rfl

theorem same_resizePrimaryIdsWith (index : Index) (n : Nat) :
    index.Same (index.resizePrimaryIdsWith n) := by
  refine ⟨rfl, rfl, rfl, ?_⟩
  unfold resizePrimaryIdsWith
  cases index.data <;> rfl

theorem present_resizePrimaryIdsWith (index : Index) (n : Nat) :
    (index.resizePrimaryIdsWith n).present = index.present := by
  funext key
  unfold present resizePrimaryIdsWith
  cases index.data <;> rfl

/-- Making room for rows keeps what the index tracks. -/
theorem Tracks.resizePrimaryIdsWith (h : index.Tracks store shelf size) (hn : size ≤ n)
    (hres : n ≤ PrimaryId.reserved) : (index.resizePrimaryIdsWith n).Tracks store shelf n := by
  have hsize := h.size_timestamps
  have hle : index.valuesTimestamps.size ≤ n := hsize ▸ hn
  constructor
  · rw [epochs_resizePrimaryIdsWith hle]
    have hdata := h.data
    unfold Index.resizePrimaryIdsWith
    cases hcase : index.data with
    | globalIndex =>
      rw [hcase] at hdata
      refine ⟨hdata.holds, fun i key value hi => ?_, hres, rfl⟩
      obtain ⟨hkey, hlt⟩ := hdata.2.1 i key value hi
      exact ⟨hkey, hlt.trans_le hn⟩
    | localIndex data =>
      rw [hcase] at hdata
      refine ⟨hdata.1.resizeIds (by rw [hdata.2]; exact hn) hres, ?_⟩
      exact ColumnVec.size_resizeWith _ _ _
  · exact ColumnVec.size_resizeWith _ _ _
  · intro i chunk hi
    unfold Index.resizePrimaryIdsWith at hi
    dsimp only at hi
    rw [ColumnVec.getElem?_resizeWith hle] at hi
    by_cases hlt : i < index.valuesTimestamps.size
    · rw [if_pos hlt] at hi
      exact h.chunks i chunk hi
    · rw [if_neg hlt] at hi
      split at hi
      · obtain rfl := Option.some.inj hi
        obtain ⟨rest, hrest⟩ := ChunkTimestamps.timestamps_default index.targetColumns
        refine ⟨_, rest, hrest, ?_⟩
        have hnone : shelf i = none := by
          by_contra hne
          obtain ⟨⟨key, value⟩, hrow⟩ := Option.ne_none_iff_exists'.mp hne
          exact hlt (hsize ▸ h.data.lt_size hrow)
        rw [hnone]
        rfl
      · simp at hi

end Index

namespace Table

variable {table : Table} {store : Store} {shelf : Shelf}

/-- The rows after room was made for more. -/
theorem sameRows_resizeRows (h : table.Consistent store shelf) (free : List PrimaryId) {n : Nat}
    (hn : table.primaryKeys.size ≤ n) :
    table.SameRows ({ table with freePrimaryIds := free }.resizeRows n) := by
  have hle : table.index.valuesTimestamps.size ≤ n := h.index.size_timestamps ▸ hn
  constructor
  · unfold schema resizeRows
    dsimp only
    rw [shape_resizeWith, (table.index.same_resizePrimaryIdsWith n).2.2.2]
    rfl
  · rfl
  · intro shelf' id
    unfold rowAt resizeRows
    dsimp only
    rw [cells_resizeWith h.columns hn, Index.stamp_resizePrimaryIdsWith hle,
      ColumnVec.get_resizeWith hn]
    congr 1
    by_cases hlt : Idx.idx id < table.primaryKeys.size
    · rw [if_pos hlt]
    · have hnone : table.primaryKeys.get id = none :=
        ColumnVec.getElem?_of_size_le (not_lt.mp hlt)
      rw [if_neg hlt, hnone]
      split <;> rfl
  · exact table.index.present_resizePrimaryIdsWith n

/-- Making room for more rows keeps the invariant. -/
theorem consistent_resizeRows (h : table.Consistent store shelf) {m : Nat}
    (hfree : table.freePrimaryIds = [])
    (hres : table.primaryKeys.size + m ≤ PrimaryId.reserved) :
    ({ table with freePrimaryIds :=
        (List.range' table.primaryKeys.size m).map (PrimaryId.mk' · .new) }.resizeRows
          (table.primaryKeys.size + m)).Consistent store shelf := by
  have hcount : table.rowCount = table.primaryKeys.size := h.free_eq_nil_iff.mp hfree
  have hle : table.primaryKeys.size ≤ table.primaryKeys.size + m := Nat.le_add_right _ _
  have hsame := sameRows_resizeRows h
    ((List.range' table.primaryKeys.size m).map (PrimaryId.mk' · .new)) hle
  constructor
  case index =>
    change (table.index.resizePrimaryIdsWith _).Tracks store shelf
      (table.primaryKeys.resizeWith _ _).size
    rw [ColumnVec.size_resizeWith]
    exact h.index.resizePrimaryIdsWith hle hres
  case columns =>
    change Columns.HasSize _ (table.primaryKeys.resizeWith _ _).size
    rw [ColumnVec.size_resizeWith]
    exact hasSize_resizeWith table.columns _
  case rowCount_le =>
    change table.rowCount ≤ (table.primaryKeys.resizeWith _ _).size
    rw [ColumnVec.size_resizeWith, hcount]
    exact hle
  case free =>
    change (List.range' table.primaryKeys.size m).map (PrimaryId.mk' · .new) =
      (List.range' table.rowCount ((table.primaryKeys.resizeWith _ _).size - table.rowCount)).map _
    rw [ColumnVec.size_resizeWith, hcount, Nat.add_sub_cancel_left]
  case ids_lt => exact h.ids_lt
  case ids_inj => exact h.ids_inj
  case ids_surj => exact h.ids_surj
  case keys =>
    intro key id hid
    have hrow := congrArg Row.key (hsame.rowAt shelf id)
    exact (congrArg Option.isSome hrow).trans (h.keys key id hid)
  case fresh =>
    intro id hid
    rw [hsame.rowAt shelf id]
    exact h.fresh id hid

/-- `reserve_primary_ids` changes no row; after it succeeded an identifier is free. -/
theorem reservePrimaryIds_spec (h : table.Consistent store shelf) :
    (table.reservePrimaryIds).2.Consistent store shelf ∧
      table.SameRows (table.reservePrimaryIds).2 ∧
      ((table.reservePrimaryIds).1 = .ok () → (table.reservePrimaryIds).2.freePrimaryIds ≠ []) := by
  unfold reservePrimaryIds
  by_cases hfree : table.freePrimaryIds = []
  · have hcount : table.rowCount = table.primaryKeys.size := h.free_eq_nil_iff.mp hfree
    have hcond : ¬((!table.freePrimaryIds.isEmpty) = true) := by
      rw [hfree]
      exact Bool.false_ne_true
    rw [if_neg hcond]
    dsimp only
    rw [hfree, List.nil_append, newPrimaryIds_eq, hcount]
    generalize hm : min incrementSize (PrimaryId.reserved - table.primaryKeys.size) = m
    by_cases hzero : m = 0
    · subst hzero
      rw [if_pos (by rfl)]
      exact ⟨h, SameRows.refl table, by simp⟩
    · have hne : (List.range' table.primaryKeys.size m).map (PrimaryId.mk' · .new) ≠ [] := by
        rw [Ne, List.map_eq_nil_iff, List.range'_eq_nil_iff]
        exact hzero
      have hres : table.primaryKeys.size + m ≤ PrimaryId.reserved := by
        have := h.size_le
        omega
      rw [if_neg (by rw [List.isEmpty_iff]; exact hne), List.length_map, List.length_range']
      exact ⟨consistent_resizeRows h hfree hres,
        sameRows_resizeRows h _ (Nat.le_add_right _ _), fun _ => hne⟩
  · have hcond : (!table.freePrimaryIds.isEmpty) = true := by
      rw [Bool.not_eq_true', ← Bool.not_eq_true, List.isEmpty_iff]
      exact hfree
    rw [if_pos hcond]
    exact ⟨h, SameRows.refl table, fun _ => hfree⟩

/-! ## Identifiers of partitions -/

/-- An index that differs in how its data is laid out holds the same rows. -/
theorem Consistent.setData (h : table.Consistent store shelf) {data : IndexData}
    (hdata : data.Tracks table.index.indexId store table.index.epochs shelf
      table.primaryKeys.size none) :
    ({ table with index := { table.index with data } } : Table).Consistent store shelf :=
  { h with index := ⟨hdata, h.index.size_timestamps, h.index.chunks⟩ }

/-- `reserve_partition_ids` succeeds and changes no row; then a partition can be created. -/
theorem reservePartitionIds_spec (h : table.Consistent store shelf) :
    (table.reservePartitionIds).1 = .ok () ∧
      (table.reservePartitionIds).2.Consistent store shelf ∧
      table.SameRows (table.reservePartitionIds).2 ∧
      (table.reservePartitionIds).2.freePrimaryIds = table.freePrimaryIds ∧
      (table.reservePartitionIds).2.index.data.HasFree := by
  have htracks := h.index.data
  unfold reservePartitionIds Index.resizePartitionIds
  cases hdata : table.index.data with
  | globalIndex =>
    refine ⟨rfl, h, SameRows.refl table, rfl, ?_⟩
    dsimp only
    rw [hdata]
    trivial
  | localIndex data =>
    rw [hdata] at htracks
    obtain ⟨htracks, hsize⟩ := htracks
    by_cases hfree : data.freeIds = []
    · have hlen := htracks.length_free
      rw [hfree, List.length_nil, Nat.add_zero] at hlen
      have hids := LocalData.Tracks.newPartitionIds_eq table.index.indexId
        (htracks.block_le hfree)
      simp only [hfree, List.isEmpty_nil, Bool.not_true, Bool.false_eq_true, if_false, hlen, hids,
        List.nil_append]
      refine ⟨trivial, h.setData ⟨htracks.resize hfree, hsize⟩, ?_, trivial, ?_⟩
      · refine ⟨?_, rfl, fun _ _ => rfl, ?_⟩
        · unfold schema
          dsimp only
          rw [hdata]
          rfl
        · funext key
          unfold Index.present
          dsimp only
          rw [hdata]
          rfl
      · change (List.range' _ _).map _ ≠ []
        rw [Ne, List.map_eq_nil_iff, List.range'_eq_nil_iff]
        decide
    · have hcond : (!data.freeIds.isEmpty) = true := by
        rw [Bool.not_eq_true', ← Bool.not_eq_true, List.isEmpty_iff]
        exact hfree
      simp only [hcond, if_true]
      refine ⟨trivial, h, SameRows.refl table, trivial, ?_⟩
      rw [hdata]
      exact hfree

end Table

end VectorStore
