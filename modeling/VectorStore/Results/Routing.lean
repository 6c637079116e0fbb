import VectorStore.Search.Routing
import VectorStore.Search.TableSearch

/-!
# Routing and the partition of a query

The score of a local index counts `In` and tuple restrictions as equalities, and the partition of a
query is built from plain `Eq` restrictions only.  The two agree exactly when every partition
column has an `Eq`, and no restriction names no column.
-/

namespace VectorStore

/-! ## Restrictions and their columns -/

namespace RestrictionOf

variable {ν : Type}

/-- The columns of a restriction. -/
def columns : RestrictionOf ν → List ColumnName
  | eq lhs _ | isIn lhs _ | lt lhs _ | lte lhs _ | gt lhs _ | gte lhs _ => [lhs]
  | eqTuple lhs _ | inTuple lhs _ | ltTuple lhs _ | lteTuple lhs _ | gtTuple lhs _
  | gteTuple lhs _ => lhs

theorem length_columns (restriction : RestrictionOf ν) :
    restriction.equalityColumns.length + restriction.rangeColumns.length =
      restriction.columns.length := by
  cases restriction <;> simp [equalityColumns, rangeColumns, columns]

/-- A restriction counts all of its columns as equality or as range. -/
theorem sum_length_columns (restrictions : List (RestrictionOf ν)) :
    (restrictions.flatMap equalityColumns).length + (restrictions.flatMap rangeColumns).length =
      (restrictions.map fun r => r.columns.length).sum := by
  induction restrictions with
  | nil => rfl
  | cons r restrictions ih =>
    rw [List.flatMap_cons, List.flatMap_cons, List.length_append, List.length_append,
      List.map_cons, List.sum_cons, ← ih, ← length_columns r]
    omega

theorem eqValue_isSome_iff {column : ColumnName} {restriction : RestrictionOf ν} :
    (restriction.eqValue column).isSome ↔ ∃ rhs, restriction = eq column rhs := by
  cases restriction with
  | eq lhs rhs =>
    by_cases h : lhs = column
    · simp [eqValue, h]
    · simp [eqValue, h]
  | _ => simp [eqValue]

theorem isEqOn_iff {keyColumns : List ColumnName} {restriction : RestrictionOf ν} :
    restriction.isEqOn keyColumns ↔ ∃ lhs ∈ keyColumns, ∃ rhs, restriction = eq lhs rhs := by
  cases restriction <;> simp [isEqOn]

/-- An `Eq` on a column among the restrictions. -/
theorem exists_eq_iff {column : ColumnName} {restrictions : List (RestrictionOf ν)} :
    (∃ rhs, eq column rhs ∈ restrictions) ↔ ∃ r ∈ restrictions, r.isEqOn [column] := by
  simp only [isEqOn_iff, List.mem_singleton]
  constructor
  · rintro ⟨rhs, hmem⟩
    exact ⟨_, hmem, column, rfl, rhs, rfl⟩
  · rintro ⟨r, hmem, lhs, rfl, rhs, rfl⟩
    exact ⟨rhs, hmem⟩

theorem length_columns_of_isEqOn {keyColumns : List ColumnName} {restriction : RestrictionOf ν}
    (h : restriction.isEqOn keyColumns) : restriction.columns.length = 1 := by
  obtain ⟨lhs, -, rhs, rfl⟩ := isEqOn_iff.mp h
  rfl

/-- As many columns as restrictions are named when all are `Eq`. -/
theorem length_eq_sum_columns {keyColumns : List ColumnName}
    {restrictions : List (RestrictionOf ν)} (h : ∀ r ∈ restrictions, r.isEqOn keyColumns) :
    restrictions.length = (restrictions.map fun r => r.columns.length).sum := by
  induction restrictions with
  | nil => rfl
  | cons r restrictions ih =>
    obtain ⟨hr, hrest⟩ := List.forall_mem_cons.mp h
    rw [List.length_cons, List.map_cons, List.sum_cons, ih hrest, length_columns_of_isEqOn hr,
      Nat.add_comm]

/-- The `Eq` restrictions on the key columns name one column each, so they name as many columns as
all restrictions exactly when the others name none. -/
theorem countP_isEqOn_le (keyColumns : List ColumnName) (restrictions : List (RestrictionOf ν)) :
    restrictions.countP (isEqOn keyColumns) ≤ (restrictions.map fun r => r.columns.length).sum ∧
      (restrictions.countP (isEqOn keyColumns) = (restrictions.map fun r => r.columns.length).sum →
        ∀ r ∈ restrictions, r.isEqOn keyColumns ∨ r.columns = []) := by
  induction restrictions with
  | nil => simp
  | cons r restrictions ih =>
    obtain ⟨hle, heq⟩ := ih
    rw [List.map_cons, List.sum_cons, List.countP_cons]
    by_cases hr : r.isEqOn keyColumns
    · have hone : r.columns.length = 1 := length_columns_of_isEqOn hr
      rw [if_pos hr, hone]
      refine ⟨by omega, fun htotal => ?_⟩
      rintro other (_ | ⟨_, hmem⟩)
      · exact .inl hr
      · exact heq (by omega) other hmem
    · rw [if_neg hr]
      refine ⟨by omega, fun htotal => ?_⟩
      rintro other (_ | ⟨_, hmem⟩)
      · exact .inr (List.length_eq_zero_iff.mp (by omega))
      · exact heq (by omega) other hmem

end RestrictionOf

/-! ## The key of the partition -/

section PartitionKey

variable {keyColumns : List ColumnName} {restrictions : List Restriction}

/-- The key can be built exactly when every key column has an `Eq` restriction. -/
theorem partitionKeyFromRestrictions_isSome_iff :
    (partitionKeyFromRestrictions keyColumns restrictions).isSome ↔
      ∀ column ∈ keyColumns, ∃ rhs, .eq column rhs ∈ restrictions := by
  unfold partitionKeyFromRestrictions
  rw [Option.isSome_map, isSome_mapM_iff]
  refine forall₂_congr fun column _ => ?_
  rw [List.findSome?_isSome_iff]
  simp only [RestrictionOf.eqValue_isSome_iff]
  constructor
  · rintro ⟨r, hmem, rhs, rfl⟩
    exact ⟨rhs, hmem⟩
  · rintro ⟨rhs, hmem⟩
    exact ⟨_, hmem, rhs, rfl⟩

/-- Nothing remains exactly when all restrictions are `Eq` on key columns. -/
theorem residual_eq_none_iff {key : PartitionKey} {residual : Option (List Restriction)}
    (h : partitionKeyFromRestrictions keyColumns restrictions = some (key, residual)) :
    residual = none ↔ ∀ r ∈ restrictions, r.isEqOn keyColumns := by
  obtain ⟨values, -, hresult⟩ := Option.map_eq_some_iff.mp h
  obtain ⟨-, rfl⟩ := Prod.mk.inj hresult
  split
  · next hempty =>
    refine ⟨fun _ r hmem => ?_, fun _ => rfl⟩
    rw [List.isEmpty_iff, List.filter_eq_nil_iff] at hempty
    simpa using hempty r hmem
  · next hne =>
    refine ⟨fun h => (by cases h), fun hall => absurd ?_ hne⟩
    rw [List.isEmpty_iff, List.filter_eq_nil_iff]
    intro r hmem
    rw [hall r hmem]
    simp

end PartitionKey

/-! ## Conversion keeps the form of the restrictions -/

section Conversion

variable {Json : Type} {fromJson : Json → NativeType → Except String CqlValue}
  {filteringColumns : List ColumnName} {tableColumns : AList fun _ : ColumnName => NativeType}

/-- A converted restriction is of the same form on the same columns. -/
theorem convertRestriction_isEqOn {restriction : PostIndexAnnRestriction Json}
    {converted : Restriction}
    (h : convertRestriction fromJson filteringColumns tableColumns restriction = .ok converted)
    (keyColumns : List ColumnName) :
    converted.isEqOn keyColumns = restriction.isEqOn keyColumns := by
  cases restriction <;>
    · obtain ⟨rhs, -, rfl⟩ := map_eq_ok h
      rfl

/-- What holds of related elements holds of all elements of both lists or of neither. -/
theorem forall_iff_of_forall₂ {α β : Type} {R : α → β → Prop} {P : α → Prop} {Q : β → Prop}
    (hR : ∀ a b, R a b → (P a ↔ Q b)) {xs : List α} {ys : List β} (h : List.Forall₂ R xs ys) :
    (∀ x ∈ xs, P x) ↔ ∀ y ∈ ys, Q y := by
  induction h with
  | nil => simp
  | cons hab _ ih => rw [List.forall_mem_cons, List.forall_mem_cons, ih, hR _ _ hab]

/-- The restrictions of an accepted filter are `Eq` on key columns where those of the request
are. -/
theorem forall_isEqOn_of_accepted {filter : PostIndexAnnFilter Json} {accepted : Filter}
    (h : tryFromPostIndexAnnFilter fromJson filteringColumns tableColumns filter = .ok accepted)
    (keyColumns : List ColumnName) :
    (∀ r ∈ accepted.restrictions, r.isEqOn keyColumns) ↔
      ∀ r ∈ filter.restrictions, r.isEqOn keyColumns := by
  obtain ⟨restrictions, hmapM, rfl⟩ := map_eq_ok h
  refine (forall_iff_of_forall₂ (fun r converted hr => ?_) (forall₂_of_mapM hmapM)).symm
  rw [convertRestriction_isEqOn hr]

/-- The accepted filter has an `Eq` on a column where the request has one. -/
theorem exists_eq_of_accepted {filter : PostIndexAnnFilter Json} {accepted : Filter}
    (h : tryFromPostIndexAnnFilter fromJson filteringColumns tableColumns filter = .ok accepted)
    (column : ColumnName) :
    (∃ rhs, .eq column rhs ∈ accepted.restrictions) ↔
      ∃ rhs, .eq column rhs ∈ filter.restrictions := by
  obtain ⟨restrictions, hmapM, rfl⟩ := map_eq_ok h
  have hnone := forall_iff_of_forall₂ (P := fun r => ¬r.isEqOn [column])
    (Q := fun r => ¬r.isEqOn [column]) (fun r converted hr => ?_) (forall₂_of_mapM hmapM)
  · rw [← not_iff_not, RestrictionOf.exists_eq_iff, RestrictionOf.exists_eq_iff]
    push Not
    exact hnone.symm
  · rw [convertRestriction_isEqOn hr]

end Conversion

/-! ## The score -/

namespace VsIndexEntry

variable {entry : VsIndexEntry} {columns : NonemptyBox ColumnName}
  {equality range : List ColumnName} {score : NeedsFiltering}

/-- A local index that gets a score finds its partition columns among the equality columns, and
needs no filtering when the query restricts as many columns as there are partition columns. -/
theorem scoreIndex_local (hlocal : entry.partitioning = .local columns)
    (hscore : entry.scoreIndex equality range = some score)
    (hsize : equality.length + range.length < 2 ^ 64) (hcolumns : columns.length < 2 ^ 64) :
    (∀ column ∈ columns.toList, column ∈ equality) ∧
      (score = .no ↔ equality.length + range.length = columns.length) := by
  unfold scoreIndex at hscore
  rw [hlocal] at hscore
  split at hscore
  · cases hscore
  · dsimp only at hscore
    split at hscore
    · cases hscore
    · next hall =>
      refine ⟨by simpa using hall, ?_⟩
      have hzero : UInt64.ofNat equality.length - UInt64.ofNat columns.length +
          UInt64.ofNat range.length = 0 ↔ equality.length + range.length = columns.length := by
        rw [← UInt64.toNat_inj, UInt64.toNat_add, UInt64.toNat_sub, UInt64.toNat_ofNat',
          UInt64.toNat_ofNat', UInt64.toNat_ofNat', UInt64.toNat_zero]
        omega
      rw [← hzero]
      cases hscore
      split
      · next h => simp [h]
      · next h => simp [h]

end VsIndexEntry

/-! ## Routing and the key of the partition -/

section Routing

variable {Json : Type} {fromJson : Json → NativeType → Except String CqlValue}

/-- For a query that a local index is scored for, the key of the partition can be built, and nothing
remains to be checked where no filtering is needed, exactly when every partition column has an `Eq`
restriction and, where no filtering is needed, there are as many of them as partition columns and
no restriction is on an empty tuple. -/
theorem routing_agrees_iff {entry : VsIndexEntry} {columns : NonemptyBox ColumnName}
    (hlocal : entry.partitioning = .local columns) {filter : PostIndexAnnFilter Json}
    {accepted : Filter}
    (haccepted : tryFromPostIndexAnnFilter fromJson entry.filteringColumns entry.tableColumns
      filter = .ok accepted) {score : NeedsFiltering}
    (hscore : entry.scoreIndex (restrictionColumns (some filter)).1
      (restrictionColumns (some filter)).2 = some score)
    (hsize : (restrictionColumns (some filter)).1.length +
      (restrictionColumns (some filter)).2.length < 2 ^ 64) (hcolumns : columns.length < 2 ^ 64) :
    (∃ key residual, partitionKeyFromRestrictions columns.toList accepted.restrictions =
        some (key, residual) ∧ (score = .no → residual = none)) ↔
      (∀ column ∈ columns.toList, ∃ rhs, .eq column rhs ∈ filter.restrictions) ∧
        (score = .no →
          filter.restrictions.countP (RestrictionOf.isEqOn columns.toList) = columns.length ∧
            ∀ r ∈ filter.restrictions, r.columns ≠ []) := by
  obtain ⟨-, hno⟩ := VsIndexEntry.scoreIndex_local hlocal hscore hsize hcolumns
  rw [restrictionColumns, RestrictionOf.sum_length_columns] at hno
  have hkey : (∃ key residual, partitionKeyFromRestrictions columns.toList accepted.restrictions =
      some (key, residual)) ↔
        ∀ column ∈ columns.toList, ∃ rhs, .eq column rhs ∈ filter.restrictions := by
    rw [← forall₂_congr fun column _ => exists_eq_of_accepted haccepted column,
      ← partitionKeyFromRestrictions_isSome_iff, Option.isSome_iff_exists, Prod.exists]
  obtain ⟨hle, htotal⟩ := RestrictionOf.countP_isEqOn_le columns.toList filter.restrictions
  constructor
  · rintro ⟨key, residual, hfound, hresidual⟩
    refine ⟨hkey.mp ⟨key, residual, hfound⟩, fun hscore => ?_⟩
    have hall := (forall_isEqOn_of_accepted haccepted columns.toList).mp
      ((residual_eq_none_iff hfound).mp (hresidual hscore))
    refine ⟨?_, fun r hmem hnil => ?_⟩
    · rw [← hno.mp hscore, List.countP_eq_length.mpr hall]
      exact RestrictionOf.length_eq_sum_columns hall
    · have hone := RestrictionOf.length_columns_of_isEqOn (hall r hmem)
      rw [hnil] at hone
      cases hone
  · rintro ⟨heqs, hcount⟩
    obtain ⟨key, residual, hfound⟩ := hkey.mpr heqs
    refine ⟨key, residual, hfound, fun hscore => ?_⟩
    obtain ⟨hcount, hcolumns⟩ := hcount hscore
    rw [residual_eq_none_iff hfound, forall_isEqOn_of_accepted haccepted]
    intro r hmem
    exact (htotal (hcount.trans (hno.mp hscore).symm) r hmem).resolve_right (hcolumns r hmem)

end Routing

namespace Sample

/-- The conversion of numbers to values of an int column. -/
def fromJson (value : Int32) : NativeType → Except String CqlValue
  | .int => .ok (.int value)
  | type => .error s!"Cannot convert number to CqlValue::{type.debug}, unsupported type"

/-- A local index on the partition key `pk` of a table with the clustering key `ck`. -/
def entry : VsIndexEntry where
  primaryKeyColumns := ⟨⟨"pk"⟩, [⟨"ck"⟩]⟩
  partitioning := .local ⟨⟨"pk"⟩, []⟩
  filteringColumns := [⟨"pk"⟩, ⟨"ck"⟩]
  tableColumns := (AList.singleton ⟨"pk"⟩ .int).insert ⟨"ck"⟩ .int

/-- One partition, by an `Eq` on the partition key, and a range of its rows. -/
def onePartition : PostIndexAnnFilter Int32 :=
  ⟨[.eq ⟨"pk"⟩ 1, .lt ⟨"ck"⟩ 9], true⟩

/-- Two partitions, by an `In` on the partition key. -/
def twoPartitions : PostIndexAnnFilter Int32 := ⟨[.isIn ⟨"pk"⟩ [1, 2]], false⟩

end Sample

theorem routing_agrees_iff_onePartition :
    (∃ key residual, partitionKeyFromRestrictions [⟨"pk"⟩]
        [.eq ⟨"pk"⟩ (.int 1), .lt ⟨"ck"⟩ (.int 9)] = some (key, residual) ∧
          (NeedsFiltering.yes 1 = .no → residual = none)) ↔
      (∀ column ∈ [⟨"pk"⟩], ∃ rhs, .eq column rhs ∈ Sample.onePartition.restrictions) ∧
        (NeedsFiltering.yes 1 = .no →
          Sample.onePartition.restrictions.countP (RestrictionOf.isEqOn [⟨"pk"⟩]) = 1 ∧
            ∀ r ∈ Sample.onePartition.restrictions, r.columns ≠ []) :=
  @routing_agrees_iff _ Sample.fromJson Sample.entry ⟨⟨"pk"⟩, []⟩ rfl Sample.onePartition
    ⟨[.eq ⟨"pk"⟩ (.int 1), .lt ⟨"ck"⟩ (.int 9)], true⟩ (by decide +kernel) (.yes 1)
    (by decide +kernel) (by decide +kernel) (by decide)

/-- A query with an `In` on the partition key is routed to a local index, and the key of its
partition cannot be built. -/
theorem routing_not_always_agrees :
    ¬∀ (Json : Type) (fromJson : Json → NativeType → Except String CqlValue)
      (entry : VsIndexEntry) (columns : NonemptyBox ColumnName) (filter : PostIndexAnnFilter Json)
      (accepted : Filter) (score : NeedsFiltering),
      entry.partitioning = .local columns →
      tryFromPostIndexAnnFilter fromJson entry.filteringColumns entry.tableColumns filter =
        .ok accepted →
      entry.scoreIndex (restrictionColumns (some filter)).1 (restrictionColumns (some filter)).2 =
        some score →
      (partitionKeyFromRestrictions columns.toList accepted.restrictions).isSome := by
  intro h
  have hsome := h _ Sample.fromJson Sample.entry ⟨⟨"pk"⟩, []⟩ Sample.twoPartitions
    ⟨[.isIn ⟨"pk"⟩ [.int 1, .int 2]], false⟩ .no rfl (by decide +kernel) (by decide +kernel)
  revert hsome
  decide +kernel

end VectorStore
