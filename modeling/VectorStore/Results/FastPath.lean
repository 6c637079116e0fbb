import VectorStore.Results.Refinement
import VectorStore.Results.RightPartition
import VectorStore.Results.Routing
import VectorStore.Search.TableSearch

/-!
# The fast path of a query on one partition

A query with an `Eq` on every partition column looks its partition up by the encoded key and checks
the other restrictions only.  This finds the rows that plain filtering finds exactly when, for the
rows that the other restrictions leave, having the key and comparing equal to all of the `Eq`
values are the same.
-/

namespace VectorStore

/-! ## Traversals of a list -/

section Traverse

variable {α β : Type} {f g : α → Option β}

/-- Two traversals of a list agree up to a length where the functions agree on the elements. -/
theorem take_mapM_eq_iff {xs : List α} {ys zs : List β} (hys : xs.mapM f = some ys)
    (hzs : xs.mapM g = some zs) (n : ℕ) :
    ys.take n = zs.take n ↔ ∀ x ∈ xs.take n, f x = g x := by
  induction xs generalizing ys zs n with
  | nil =>
    cases hys
    cases hzs
    simp
  | cons x xs ih =>
    rw [List.mapM_cons, Option.bind_eq_bind, Option.bind_eq_some_iff] at hys hzs
    obtain ⟨y, hy, hys⟩ := hys
    obtain ⟨z, hz, hzs⟩ := hzs
    obtain ⟨ys', hys', hcons⟩ := Option.bind_eq_some_iff.mp hys
    obtain rfl := Option.some.inj hcons
    obtain ⟨zs', hzs', hcons⟩ := Option.bind_eq_some_iff.mp hzs
    obtain rfl := Option.some.inj hcons
    cases n with
    | zero => simp
    | succ n =>
      rw [List.take_succ_cons, List.take_succ_cons, List.take_succ_cons, List.cons_eq_cons,
        List.forall_mem_cons, ih hys' hzs' n, hy, hz, Option.some_inj]

end Traverse

/-- A key holds 255 values. -/
theorem PartitionKey.fromIter_eq_iff {xs ys : List CqlValue} :
    PartitionKey.fromIter xs = .fromIter ys ↔ xs.take 255 = ys.take 255 := by
  unfold PartitionKey.fromIter InvariantKey.fromIter
  rw [PartitionKey.mk.injEq, InvariantKey.mk.injEq]

namespace Table

variable [TimeuuidOrd] (table : Table)

/-- The fast path keeps a row exactly when plain filtering does. -/
def FastPathAgrees (restrictions : List Restriction) (p : PartitionId) (id : PrimaryId) : Prop :=
  match table.partitionId table.indexKey (some restrictions) with
  | some (found, residual) =>
    (p = found ∧ ∀ r ∈ residual.getD [], table.isValidFor p id r) ↔
      ∀ r ∈ restrictions, table.isValidFor p id r
  | none => ¬∀ r ∈ restrictions, table.isValidFor p id r

/-- The first `Eq` value of every partition column, as far as a key holds them, is the stored
value. -/
def HasKey (columns : List ColumnName) (restrictions : List Restriction) (id : PrimaryId) : Prop :=
  ∀ column ∈ columns.take 255,
    table.columnValue id column = restrictions.findSome? (RestrictionOf.eqValue column)

/-- The stored value of every partition column compares equal to all `Eq` values for it. -/
def ComparesEqual (columns : List ColumnName) (restrictions : List Restriction)
    (id : PrimaryId) : Prop :=
  ∀ column ∈ columns, ∀ rhs, .eq column rhs ∈ restrictions →
    ∃ value ∈ table.columnValue id column, value.CmpEq rhs

variable {table} {restrictions : List Restriction} {p : PartitionId} {id : PrimaryId}
  {columns : List ColumnName}

/-- Without a partition no row may satisfy the restrictions. -/
theorem fastPathAgrees_of_eq_none
    (h : table.partitionId table.indexKey (some restrictions) = none) :
    table.FastPathAgrees restrictions p id ↔ ¬∀ r ∈ restrictions, table.isValidFor p id r := by
  unfold FastPathAgrees
  rw [h]

theorem isValidFor_eq (hid : table.isValidPrimaryId p id) (restriction : Restriction) :
    table.isValidFor p id restriction = table.satisfies id restriction := by
  unfold isValidFor
  rw [hid]
  rfl

theorem satisfies_eq_iff {column : ColumnName} {rhs : CqlValue} :
    table.satisfies id (.eq column rhs) ↔
      ∃ value ∈ table.columnValue id column, value.CmpEq rhs := by
  have hsatisfies : table.satisfies id (.eq column rhs) =
      ((table.columnValue id column).bind fun value => value.cmp rhs).any Ordering.isEq := rfl
  rw [hsatisfies]
  unfold CqlValue.CmpEq
  cases table.columnValue id column with
  | none => simp
  | some value =>
    cases h : value.cmp rhs with
    | none => simp [h]
    | some ord => cases ord <;> simp [h]

/-- A row satisfies all restrictions when it satisfies the residual ones and compares equal to the
`Eq` values. -/
theorem forall_isValidFor_iff (hid : table.isValidPrimaryId p id) :
    (∀ r ∈ restrictions, table.isValidFor p id r) ↔
      (∀ r ∈ restrictions.filter (fun r => !r.isEqOn columns), table.isValidFor p id r) ∧
        table.ComparesEqual columns restrictions id := by
  simp only [isValidFor_eq hid]
  constructor
  · intro hall
    refine ⟨fun r hmem => hall r (List.mem_of_mem_filter hmem), fun column _ rhs hmem => ?_⟩
    exact satisfies_eq_iff.mp (hall _ hmem)
  · rintro ⟨hresidual, heq⟩ r hmem
    by_cases hr : r.isEqOn columns
    · obtain ⟨column, hcolumn, rhs, rfl⟩ := RestrictionOf.isEqOn_iff.mp hr
      exact satisfies_eq_iff.mpr (heq column hcolumn rhs hmem)
    · exact hresidual r (List.mem_filter.mpr ⟨hmem, by simpa using hr⟩)

omit [TimeuuidOrd] in
/-- The key of a query with an `Eq` on every partition column. -/
theorem partitionKeyFromRestrictions_eq {columns : List ColumnName}
    (heqs : ∀ column ∈ columns, ∃ rhs, .eq column rhs ∈ restrictions) :
    ∃ values residual,
      columns.mapM (fun column => restrictions.findSome? (RestrictionOf.eqValue column)) =
          some values ∧
        partitionKeyFromRestrictions columns restrictions =
          some (.fromIter values, residual) ∧
        residual.getD [] = restrictions.filter fun r => !r.isEqOn columns := by
  have hsome := partitionKeyFromRestrictions_isSome_iff.mpr heqs
  unfold partitionKeyFromRestrictions at hsome ⊢
  rw [Option.isSome_map, Option.isSome_iff_exists] at hsome
  obtain ⟨values, hvalues⟩ := hsome
  refine ⟨values, _, hvalues, by rw [hvalues, Option.map_some], ?_⟩
  split
  · next hempty => rw [List.isEmpty_iff.mp hempty, Option.getD_none]
  · rfl

end Table

namespace World

theorem partitioned_init {table : Table} (h : table.IsNew) :
    (World.init table).schema.Partitioned :=
  h.partitioned

variable [TimeuuidOrd] [DecimalNormalizer]

/-- In a reachable table whose rows are in the right partitions, the fast path keeps a live row
exactly when plain filtering does if and only if, provided the row satisfies the residual
restrictions, it has the key of the query exactly when it compares equal to the `Eq` values. -/
theorem fastPath_agrees_iff {w : World} (hw : w.Reachable) (hplaced : w.table.RightPartition)
    {data : LocalData} (hdata : w.table.index.data = .localIndex data)
    {restrictions : List Restriction}
    (heqs : ∀ column ∈ data.partitionKeyColumns.toList, ∃ rhs, .eq column rhs ∈ restrictions)
    {p : PartitionId} {id : PrimaryId} (hrow : data.ids.get id = some (some p))
    (hid : w.table.isValidPrimaryId p id) :
    w.table.FastPathAgrees restrictions p id ↔
      ((∀ r ∈ restrictions.filter (fun r => !r.isEqOn data.partitionKeyColumns.toList),
          w.table.isValidFor p id r) →
        (w.table.HasKey data.partitionKeyColumns.toList restrictions id ↔
          w.table.ComparesEqual data.partitionKeyColumns.toList restrictions id)) := by
  obtain ⟨pkey, hpkey, hkeys⟩ := hplaced data hdata id p hrow
  obtain ⟨stored, hstored, rfl⟩ := Option.map_eq_some_iff.mp hpkey
  have hagrees := hw.consistent.agrees.localIndex data hdata
  have hindex : p.indexId = w.table.index.indexId := by
    by_contra hne
    unfold Table.isValidPrimaryId at hid
    rw [if_pos hne] at hid
    cases hid
  have hlookup : data.map.lookup (.fromIter stored) = some p :=
    (hagrees.map_keys _ p).mpr ⟨hindex, hkeys⟩
  obtain ⟨values, residual, hvalues, hfound, hresidual⟩ :=
    Table.partitionKeyFromRestrictions_eq heqs
  -- the keys are the same when the first 255 values are
  have hkey : w.table.HasKey data.partitionKeyColumns.toList restrictions id ↔
      PartitionKey.fromIter stored = PartitionKey.fromIter values := by
    unfold Table.HasKey Table.columnValue
    rw [← take_mapM_eq_iff hstored hvalues 255, PartitionKey.fromIter_eq_iff]
  have hpartition : w.table.partitionId w.table.indexKey (some restrictions) =
      (data.map.lookup (.fromIter values)).map fun found => (found, residual) := by
    unfold Table.partitionId
    rw [if_neg (not_not.mpr rfl), hdata]
    dsimp only
    rw [Option.bind_some, hfound, Option.bind_some]
  unfold Table.FastPathAgrees
  rw [hpartition, Table.forall_isValidFor_iff hid, hkey]
  cases hother : data.map.lookup (.fromIter values) with
  | none =>
    have hne : ¬PartitionKey.fromIter stored = .fromIter values := by
      intro heq
      rw [heq, hother] at hlookup
      cases hlookup
    rw [Option.map_none]
    tauto
  | some found =>
    have hsame : p = found ↔ PartitionKey.fromIter stored = .fromIter values := by
      constructor
      · rintro rfl
        have hkeys' := ((hagrees.map_keys _ p).mp hother).2
        rw [hkeys] at hkeys'
        exact Option.some.inj (Option.some.inj hkeys')
      · intro heq
        rw [heq, hother] at hlookup
        exact (Option.some.inj hlookup).symm
    rw [Option.map_some]
    dsimp only
    rw [hresidual, hsame]
    tauto

end World

namespace Sample

attribute [local instance] decimals

/-- The row with the decimal key 1.50. -/
def decimalCall : Call :=
  .upsert (.new "ks" "idx") (.fromIter [.decimal ⟨[0, 150], 2⟩])
    ⟨.new (time 1) (some (vector 1)), [.new (time 1) (some (.filtering (.int 3)))]⟩

/-- A table with this row, partitioned by its key. -/
def decimalWorld : World := (World.init keyTable).step decimalCall

/-- The partition of the row. -/
def decimalPartition : PartitionId := ⟨0⟩

/-- The row. -/
def decimalRow : PrimaryId := .mk' 0 ⟨1⟩

theorem reachable_decimalWorld : decimalWorld.Reachable :=
  ⟨keyTable, [decimalCall], isNew_keyTable, rfl⟩

theorem rightPartition_decimalWorld : decimalWorld.table.RightPartition := by
  have hinit : (World.init keyTable).Consistent := World.consistent_init isNew_keyTable
  have hpart : (World.init keyTable).schema.Partitioned := by
    exact World.partitioned_init isNew_keyTable
  refine (reachable_decimalWorld.consistent.rightPartition_iff (by decide +kernel)).mpr ?_
  unfold decimalWorld
  rw [World.inPlace_step_iff hinit hpart fun key => ?_]
  · rintro ⟨key, -, entry, hentry, -⟩
    rw [World.row_init isNew_keyTable] at hentry
    cases hentry
  · rw [World.row_init isNew_keyTable]
    intro entry hentry
    cases hentry

/-- The local index of the table. -/
theorem local_decimalWorld :
    ∃ data, decimalWorld.table.index.data = .localIndex data ∧
      data.partitionKeyColumns = ⟨⟨"pk"⟩, []⟩ ∧
        data.ids.get decimalRow = some (some decimalPartition) := by
  have hcolumns : decimalWorld.table.index.data.partitionColumns = some (⟨⟨"pk"⟩, []⟩, []) := by
    decide +kernel
  have hids : decimalWorld.table.index.data.placeOf decimalRow = some (some decimalPartition) := by
    decide +kernel
  cases hdata : decimalWorld.table.index.data with
  | globalIndex =>
    rw [hdata] at hcolumns
    cases hcolumns
  | localIndex data =>
    rw [hdata] at hcolumns hids
    exact ⟨data, rfl, (Prod.mk.inj (Option.some.inj hcolumns)).1, hids⟩

end Sample

attribute [local instance] Sample.decimals Sample.timeuuids

/-- The row satisfies the residual restriction. -/
theorem fastPath_agrees_iff_decimal :
    let restrictions : List Restriction :=
      [.eq ⟨"pk"⟩ (.decimal ⟨[0, 150], 2⟩), .lt ⟨"f"⟩ (.int 9)]
    ∃ data, Sample.decimalWorld.table.index.data = .localIndex data ∧
      (Sample.decimalWorld.table.FastPathAgrees restrictions Sample.decimalPartition
          Sample.decimalRow ↔
        (Sample.decimalWorld.table.HasKey data.partitionKeyColumns.toList restrictions
            Sample.decimalRow ↔
          Sample.decimalWorld.table.ComparesEqual data.partitionKeyColumns.toList restrictions
            Sample.decimalRow)) := by
  obtain ⟨data, hdata, hcolumns, hrow⟩ := Sample.local_decimalWorld
  have hresidual : ∀ r ∈ ([.eq ⟨"pk"⟩ (.decimal ⟨[0, 150], 2⟩), .lt ⟨"f"⟩ (.int 9)] :
      List Restriction).filter (fun r => !r.isEqOn [⟨"pk"⟩]),
      Sample.decimalWorld.table.isValidFor Sample.decimalPartition Sample.decimalRow r := by
    decide +kernel
  refine ⟨data, hdata, (World.fastPath_agrees_iff Sample.reachable_decimalWorld
    Sample.rightPartition_decimalWorld hdata ?_ hrow (by decide +kernel)).trans
      (forall_prop_of_true ?_)⟩
  · rw [hcolumns]
    simp [NonemptyBox.toList]
  · rw [hcolumns]
    exact hresidual

/-- A query for the key 1.5 does not find the row with the key 1.50, though the two compare
equal. -/
theorem fastPath_not_always_agrees :
    ¬∀ (w : World) (data : LocalData) (restrictions : List Restriction) (p : PartitionId)
      (id : PrimaryId), w.Reachable → w.table.RightPartition →
      w.table.index.data = .localIndex data →
      (∀ column ∈ data.partitionKeyColumns.toList, ∃ rhs, .eq column rhs ∈ restrictions) →
      data.ids.get id = some (some p) → w.table.isValidPrimaryId p id →
      w.table.FastPathAgrees restrictions p id := by
  intro h
  obtain ⟨data, hdata, hcolumns, hrow⟩ := Sample.local_decimalWorld
  have hvalidId : Sample.decimalWorld.table.isValidPrimaryId Sample.decimalPartition
      Sample.decimalRow := by
    decide +kernel
  have heqs : ∀ column ∈ data.partitionKeyColumns.toList, ∃ rhs, RestrictionOf.eq column rhs ∈
      [RestrictionOf.eq (⟨"pk"⟩ : ColumnName) (CqlValue.decimal ⟨[15], 1⟩)] := by
    rw [hcolumns]
    simp [NonemptyBox.toList]
  have hnone : Sample.decimalWorld.table.partitionId Sample.decimalWorld.table.indexKey
      (some [.eq ⟨"pk"⟩ (.decimal ⟨[15], 1⟩)]) = none := by
    decide +kernel
  have hvalid : Sample.decimalWorld.table.isValidFor Sample.decimalPartition Sample.decimalRow
      (.eq ⟨"pk"⟩ (.decimal ⟨[15], 1⟩)) := by
    decide +kernel
  have hreach := Sample.reachable_decimalWorld
  have hright := Sample.rightPartition_decimalWorld
  -- from here on the table is not evaluated any more
  generalize Sample.decimalWorld = w at *
  refine (Table.fastPathAgrees_of_eq_none hnone).mp
    (h w data _ _ _ hreach hright hdata heqs hrow hvalidId) ?_
  intro r hmem
  rw [List.mem_singleton.mp hmem]
  exact hvalid

end VectorStore
