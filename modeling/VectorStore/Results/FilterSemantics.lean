import VectorStore.Foundation.Lexicographic
import VectorStore.Foundation.Lists
import VectorStore.Rows.World
import VectorStore.Search.TableSearch

/-!
# Filters compare tuples

The forms of a restriction on tuples are the lexicographic comparisons of the columns with the
constants.  The other forms follow from the comparison of one column with one constant, and a column
without a value satisfies none of them.
-/

namespace VectorStore

/-- The tuples of a restriction have the length of its tuple of columns. -/
def RestrictionOf.LengthsMatch {ν : Type} : RestrictionOf ν → Prop
  | .eqTuple lhs rhs | .ltTuple lhs rhs | .lteTuple lhs rhs | .gtTuple lhs rhs | .gteTuple lhs rhs =>
    lhs.length = rhs.length
  | .inTuple lhs rhs => ∀ tuple ∈ rhs, lhs.length = tuple.length
  | .eq _ _ | .isIn _ _ | .lt _ _ | .lte _ _ | .gt _ _ | .gte _ _ => True

/-! ## What an ordering says -/

theorem any_isEq {ord : Option Ordering} : ord.any Ordering.isEq = true ↔ ord = some .eq := by
  rcases ord with _ | _ | _ | _ <;> decide

theorem any_isLT {ord : Option Ordering} : ord.any Ordering.isLT = true ↔ ord = some .lt := by
  rcases ord with _ | _ | _ | _ <;> decide

theorem any_isGT {ord : Option Ordering} : ord.any Ordering.isGT = true ↔ ord = some .gt := by
  rcases ord with _ | _ | _ | _ <;> decide

theorem any_isLE {ord : Option Ordering} :
    ord.any Ordering.isLE = true ↔ ord = some .lt ∨ ord = some .eq := by
  rcases ord with _ | _ | _ | _ <;> decide

theorem any_isGE {ord : Option Ordering} :
    ord.any Ordering.isGE = true ↔ ord = some .gt ∨ ord = some .eq := by
  rcases ord with _ | _ | _ | _ <;> decide

namespace Table

variable [TimeuuidOrd] (table : Table) (partitionId : PartitionId) (primaryId : PrimaryId)

/-! ## The forms by the comparison of columns with constants -/

section Satisfies

variable {table primaryId} {lhs : List ColumnName} {rhs : List CqlValue}

theorem satisfies_ltTuple : table.satisfies primaryId (.ltTuple lhs rhs) = true ↔
    Lexicographic (table.cqlCmpSingle primaryId) .lt lhs rhs :=
  any_isLT.trans (firstUnequal_eq_some_iff (by decide))

theorem satisfies_gtTuple : table.satisfies primaryId (.gtTuple lhs rhs) = true ↔
    Lexicographic (table.cqlCmpSingle primaryId) .gt lhs rhs :=
  any_isGT.trans (firstUnequal_eq_some_iff (by decide))

variable (hlen : lhs.length = rhs.length)

include hlen

theorem satisfies_lteTuple : table.satisfies primaryId (.lteTuple lhs rhs) = true ↔
    Lexicographic (table.cqlCmpSingle primaryId) .lt lhs rhs ∨
      TupleEq (table.cqlCmpSingle primaryId) lhs rhs :=
  any_isLE.trans
    (or_congr (firstUnequal_eq_some_iff (by decide)) (firstUnequal_eq_eq_iff hlen))

theorem satisfies_gteTuple : table.satisfies primaryId (.gteTuple lhs rhs) = true ↔
    Lexicographic (table.cqlCmpSingle primaryId) .gt lhs rhs ∨
      TupleEq (table.cqlCmpSingle primaryId) lhs rhs :=
  any_isGE.trans
    (or_congr (firstUnequal_eq_some_iff (by decide)) (firstUnequal_eq_eq_iff hlen))

theorem satisfies_eqTuple : table.satisfies primaryId (.eqTuple lhs rhs) = true ↔
    TupleEq (table.cqlCmpSingle primaryId) lhs rhs :=
  all_isEq_iff hlen

end Satisfies

section Values

variable {table primaryId} {lhs : List ColumnName} {rhs : List CqlValue} {values : List CqlValue}

/-- Columns with values compare as the values do. -/
theorem lexicographic_values {ord : Ordering}
    (hvalues : lhs.map (table.columnValue primaryId) = values.map some) :
    Lexicographic (table.cqlCmpSingle primaryId) ord lhs rhs ↔
      Lexicographic CqlValue.cmp ord values rhs := by
  let cmp (a : Option CqlValue) (b : CqlValue) : Option Ordering := a.bind fun value => value.cmp b
  have hcolumns : Lexicographic cmp ord (lhs.map (table.columnValue primaryId)) rhs ↔
      Lexicographic (table.cqlCmpSingle primaryId) ord lhs rhs := lexicographic_map
  have hsome : Lexicographic cmp ord (values.map some) rhs ↔
      Lexicographic CqlValue.cmp ord values rhs := lexicographic_map
  rw [← hcolumns, hvalues, hsome]

theorem tupleEq_values (hvalues : lhs.map (table.columnValue primaryId) = values.map some) :
    TupleEq (table.cqlCmpSingle primaryId) lhs rhs ↔ TupleEq CqlValue.cmp values rhs := by
  let cmp (a : Option CqlValue) (b : CqlValue) : Option Ordering := a.bind fun value => value.cmp b
  have hcolumns : TupleEq cmp (lhs.map (table.columnValue primaryId)) rhs ↔
      TupleEq (table.cqlCmpSingle primaryId) lhs rhs := tupleEq_map
  have hsome : TupleEq cmp (values.map some) rhs ↔ TupleEq CqlValue.cmp values rhs := tupleEq_map
  rw [← hcolumns, hvalues, hsome]

/-- A column that was compared has a value. -/
theorem isSome_of_cqlCmpSingle {column : ColumnName} {value : CqlValue}
    (h : (table.cqlCmpSingle primaryId column value).isSome) :
    ∃ stored, table.columnValue primaryId column = some stored := by
  unfold cqlCmpSingle at h
  cases hvalue : table.columnValue primaryId column with
  | none => rw [hvalue] at h; cases h
  | some stored => exact ⟨stored, rfl⟩

omit [TimeuuidOrd] in
/-- The values of columns that all have one. -/
theorem exists_values (h : ∀ column ∈ lhs, ∃ value, table.columnValue primaryId column = some value) :
    ∃ values : List CqlValue, lhs.map (table.columnValue primaryId) = values.map some := by
  induction lhs with
  | nil => exact ⟨[], rfl⟩
  | cons column lhs ih =>
    obtain ⟨⟨value, hvalue⟩, hrest⟩ := List.forall_mem_cons.mp h
    obtain ⟨values, hvalues⟩ := ih hrest
    exact ⟨value :: values, by rw [List.map_cons, hvalue, hvalues, List.map_cons]⟩

/-- A tuple equal to its columns needs a value in each of them. -/
theorem exists_values_of_tupleEq (h : TupleEq (table.cqlCmpSingle primaryId) lhs rhs) :
    ∃ values : List CqlValue, lhs.map (table.columnValue primaryId) = values.map some := by
  refine exists_values fun column hcolumn => ?_
  induction h with
  | nil => cases hcolumn
  | cons heq _ ih =>
    rcases List.mem_cons.mp hcolumn with rfl | hmem
    · exact isSome_of_cqlCmpSingle (by rw [heq]; rfl)
    · exact ih hmem

/-- A tuple is in a list when it is equal to one of its tuples. -/
theorem satisfies_inTuple {tuples : List (List CqlValue)}
    (hlen : ∀ tuple ∈ tuples, lhs.length = tuple.length) :
    table.satisfies primaryId (.inTuple lhs tuples) = true ↔
      ∃ tuple ∈ tuples, TupleEq (table.cqlCmpSingle primaryId) lhs tuple := by
  unfold satisfies
  rw [Option.any_eq_true]
  constructor
  · rintro ⟨values, hsome, hany⟩
    have hvalues := mapM_eq_some_iff.mp hsome
    have hlengths : lhs.length = values.length := by
      have hmap := congrArg List.length hvalues
      rwa [List.length_map, List.length_map] at hmap
    obtain ⟨tuple, hmem, hall⟩ := List.any_eq_true.mp hany
    refine ⟨tuple, hmem, (tupleEq_values hvalues).mpr ?_⟩
    exact (all_isEq_iff (hlengths.symm.trans (hlen tuple hmem))).mp hall
  · rintro ⟨tuple, hmem, heq⟩
    obtain ⟨values, hvalues⟩ := exists_values_of_tupleEq heq
    have hequal := (tupleEq_values hvalues).mp heq
    refine ⟨values, mapM_eq_some_iff.mpr hvalues, List.any_eq_true.mpr ⟨tuple, hmem, ?_⟩⟩
    exact (all_isEq_iff hequal.length_eq).mpr hequal

/-- A column is in a list when it is equal to one of its values. -/
theorem satisfies_isIn {column : ColumnName} :
    table.satisfies primaryId (.isIn column rhs) = true ↔
      ∃ value ∈ rhs, table.satisfies primaryId (.eq column value) = true := by
  simp only [satisfies, cqlCmpSingle]
  cases table.columnValue primaryId column with
  | none => simp
  | some stored =>
    rw [Option.any_some, List.any_filterMap, List.any_eq_true]
    rfl

end Values

/-! ## Tuple semantics -/

/-- The row satisfies a restriction. -/
def Holds (restriction : Restriction) : Prop :=
  table.isValidFor partitionId primaryId restriction = true

variable {table partitionId primaryId} in
theorem holds_iff (hvalid : table.isValidPrimaryId partitionId primaryId = true)
    (restriction : Restriction) : table.Holds partitionId primaryId restriction ↔
      table.satisfies primaryId restriction = true := by
  unfold Holds isValidFor
  rw [hvalid, Bool.not_true, if_neg Bool.false_ne_true]

/-- What the forms on tuples say of columns that have values. -/
structure ComparesTuples (lhs : List ColumnName) (rhs values : List CqlValue) : Prop where
  lt : table.Holds partitionId primaryId (.ltTuple lhs rhs) ↔
    Lexicographic CqlValue.cmp .lt values rhs
  gt : table.Holds partitionId primaryId (.gtTuple lhs rhs) ↔
    Lexicographic CqlValue.cmp .gt values rhs
  eq : table.Holds partitionId primaryId (.eqTuple lhs rhs) ↔ TupleEq CqlValue.cmp values rhs
  lte : table.Holds partitionId primaryId (.lteTuple lhs rhs) ↔
    table.Holds partitionId primaryId (.ltTuple lhs rhs) ∨
      table.Holds partitionId primaryId (.eqTuple lhs rhs)
  gte : table.Holds partitionId primaryId (.gteTuple lhs rhs) ↔
    table.Holds partitionId primaryId (.gtTuple lhs rhs) ∨
      table.Holds partitionId primaryId (.eqTuple lhs rhs)
  /-- One of the three holds. -/
  one : table.Holds partitionId primaryId (.ltTuple lhs rhs) ∨
    table.Holds partitionId primaryId (.eqTuple lhs rhs) ∨
      table.Holds partitionId primaryId (.gtTuple lhs rhs)
  /-- No two of them hold. -/
  lt_eq : ¬(table.Holds partitionId primaryId (.ltTuple lhs rhs) ∧
    table.Holds partitionId primaryId (.eqTuple lhs rhs))
  lt_gt : ¬(table.Holds partitionId primaryId (.ltTuple lhs rhs) ∧
    table.Holds partitionId primaryId (.gtTuple lhs rhs))
  eq_gt : ¬(table.Holds partitionId primaryId (.eqTuple lhs rhs) ∧
    table.Holds partitionId primaryId (.gtTuple lhs rhs))

/-- Some of the first columns, but not all of them, have values, which decide the comparison. -/
def DecidedBefore (ord : Ordering) (lhs : List ColumnName) (rhs : List CqlValue) : Prop :=
  ∃ n < lhs.length, ∃ values : List CqlValue,
    (lhs.take n).map (table.columnValue primaryId) = values.map some ∧
      Lexicographic CqlValue.cmp ord values (rhs.take n)

/-- The semantics of the restrictions on a row. -/
structure TupleSemantics : Prop where
  compares : ∀ lhs rhs values, lhs.length = rhs.length →
    lhs.map (table.columnValue primaryId) = values.map some →
    List.Forall₂ (fun value constant => (value.cmp constant).isSome) values rhs →
    table.ComparesTuples partitionId primaryId lhs rhs values
  isIn : ∀ column constants, table.Holds partitionId primaryId (.isIn column constants) ↔
    ∃ constant ∈ constants, table.Holds partitionId primaryId (.eq column constant)
  inTuple : ∀ lhs tuples, (∀ tuple ∈ tuples, lhs.length = tuple.length) →
    (table.Holds partitionId primaryId (.inTuple lhs tuples) ↔
      ∃ tuple ∈ tuples, table.Holds partitionId primaryId (.eqTuple lhs tuple))
  /-- A tuple of one column is the column. -/
  singletons : ∀ column constant constants,
    (table.Holds partitionId primaryId (.eqTuple [column] [constant]) ↔
      table.Holds partitionId primaryId (.eq column constant)) ∧
    (table.Holds partitionId primaryId (.ltTuple [column] [constant]) ↔
      table.Holds partitionId primaryId (.lt column constant)) ∧
    (table.Holds partitionId primaryId (.lteTuple [column] [constant]) ↔
      table.Holds partitionId primaryId (.lte column constant)) ∧
    (table.Holds partitionId primaryId (.gtTuple [column] [constant]) ↔
      table.Holds partitionId primaryId (.gt column constant)) ∧
    (table.Holds partitionId primaryId (.gteTuple [column] [constant]) ↔
      table.Holds partitionId primaryId (.gte column constant)) ∧
    (table.Holds partitionId primaryId (.inTuple [column] (constants.map fun c => [c])) ↔
      table.Holds partitionId primaryId (.isIn column constants))
  /-- A column without a value satisfies nothing. -/
  nullScalar : ∀ column, table.columnValue primaryId column = none → ∀ constant constants,
    ¬table.Holds partitionId primaryId (.eq column constant) ∧
    ¬table.Holds partitionId primaryId (.lt column constant) ∧
    ¬table.Holds partitionId primaryId (.lte column constant) ∧
    ¬table.Holds partitionId primaryId (.gt column constant) ∧
    ¬table.Holds partitionId primaryId (.gte column constant) ∧
    ¬table.Holds partitionId primaryId (.isIn column constants)
  /-- Nor does a tuple of columns with one, unless the columns before it decide. -/
  nullTuple : ∀ lhs rhs, lhs.length = rhs.length →
    (∃ column ∈ lhs, table.columnValue primaryId column = none) →
    ¬table.Holds partitionId primaryId (.eqTuple lhs rhs) ∧
    (table.Holds partitionId primaryId (.ltTuple lhs rhs) →
      table.DecidedBefore primaryId .lt lhs rhs) ∧
    (table.Holds partitionId primaryId (.lteTuple lhs rhs) →
      table.DecidedBefore primaryId .lt lhs rhs) ∧
    (table.Holds partitionId primaryId (.gtTuple lhs rhs) →
      table.DecidedBefore primaryId .gt lhs rhs) ∧
    (table.Holds partitionId primaryId (.gteTuple lhs rhs) →
      table.DecidedBefore primaryId .gt lhs rhs)
  nullInTuple : ∀ lhs tuples, (∀ tuple ∈ tuples, lhs.length = tuple.length) →
    (∃ column ∈ lhs, table.columnValue primaryId column = none) →
    ¬table.Holds partitionId primaryId (.inTuple lhs tuples)

variable {table partitionId primaryId}

theorem comparesTuples (hvalid : table.isValidPrimaryId partitionId primaryId = true)
    {lhs : List ColumnName} {rhs values : List CqlValue} (hlen : lhs.length = rhs.length)
    (hvalues : lhs.map (table.columnValue primaryId) = values.map some)
    (hcomparable : List.Forall₂ (fun value constant => (value.cmp constant).isSome) values rhs) :
    table.ComparesTuples partitionId primaryId lhs rhs values := by
  have hlt : table.Holds partitionId primaryId (.ltTuple lhs rhs) ↔
      Lexicographic CqlValue.cmp .lt values rhs := by
    rw [holds_iff hvalid, satisfies_ltTuple, lexicographic_values hvalues]
  have hgt : table.Holds partitionId primaryId (.gtTuple lhs rhs) ↔
      Lexicographic CqlValue.cmp .gt values rhs := by
    rw [holds_iff hvalid, satisfies_gtTuple, lexicographic_values hvalues]
  have heq : table.Holds partitionId primaryId (.eqTuple lhs rhs) ↔
      TupleEq CqlValue.cmp values rhs := by
    rw [holds_iff hvalid, satisfies_eqTuple hlen, tupleEq_values hvalues]
  refine ⟨hlt, hgt, heq, ?_, ?_, ?_, ?_, ?_, ?_⟩
  · rw [hlt, heq, holds_iff hvalid, satisfies_lteTuple hlen, lexicographic_values hvalues,
      tupleEq_values hvalues]
  · rw [hgt, heq, holds_iff hvalid, satisfies_gteTuple hlen, lexicographic_values hvalues,
      tupleEq_values hvalues]
  · rw [hlt, heq, hgt]
    exact lexicographic_or hcomparable
  · rw [hlt, heq]
    exact fun h => h.2.not_lexicographic (by decide) h.1
  · rw [hlt, hgt]
    exact fun h => absurd (h.1.unique h.2 (by decide) (by decide)) (by decide)
  · rw [heq, hgt]
    exact fun h => h.1.not_lexicographic (by decide) h.2

/-- A comparison with a column without a value is decided before this column. -/
theorem decidedBefore {ord : Ordering} {lhs : List ColumnName} {rhs : List CqlValue}
    (hnull : ∃ column ∈ lhs, table.columnValue primaryId column = none)
    (h : Lexicographic (table.cqlCmpSingle primaryId) ord lhs rhs) :
    table.DecidedBefore primaryId ord lhs rhs := by
  obtain ⟨n, hlex, hsome⟩ := h.exists_take
  obtain ⟨values, hvalues⟩ := exists_values fun column hcolumn =>
    (hsome column hcolumn).elim fun _ h => isSome_of_cqlCmpSingle h
  refine ⟨n, ?_, values, hvalues, (lexicographic_values hvalues).mp hlex⟩
  by_contra hge
  obtain ⟨column, hmem, hnone⟩ := hnull
  rw [List.take_of_length_le (not_lt.mp hge)] at hsome
  obtain ⟨constant, hconstant⟩ := hsome column hmem
  obtain ⟨stored, hstored⟩ := isSome_of_cqlCmpSingle hconstant
  rw [hnone] at hstored
  cases hstored

theorem not_tupleEq_of_null {lhs : List ColumnName} {rhs : List CqlValue}
    (hnull : ∃ column ∈ lhs, table.columnValue primaryId column = none) :
    ¬TupleEq (table.cqlCmpSingle primaryId) lhs rhs := by
  intro heq
  obtain ⟨column, hmem, hnone⟩ := hnull
  obtain ⟨values, hvalues⟩ := exists_values_of_tupleEq heq
  have hmem : none ∈ values.map some := hvalues ▸ List.mem_map.mpr ⟨column, hmem, hnone⟩
  obtain ⟨value, -, hvalue⟩ := List.mem_map.mp hmem
  cases hvalue

/-- The restrictions on a row that is still there have the semantics of tuples. -/
theorem filter_has_tuple_semantics
    (hvalid : table.isValidPrimaryId partitionId primaryId = true) :
    table.TupleSemantics partitionId primaryId where
  compares _ _ _ hlen hvalues hcomparable := comparesTuples hvalid hlen hvalues hcomparable
  isIn column constants := by
    rw [holds_iff hvalid, satisfies_isIn]
    exact exists_congr fun constant => and_congr_right fun _ => (holds_iff hvalid _).symm
  inTuple lhs tuples hlen := by
    rw [holds_iff hvalid, satisfies_inTuple hlen]
    refine exists_congr fun tuple => and_congr_right fun hmem => ?_
    rw [holds_iff hvalid, satisfies_eqTuple (hlen tuple hmem)]
  singletons column constant constants := by
    have hsingle : (∀ tuple ∈ constants.map fun c => [c], [column].length = tuple.length) := by
      intro tuple hmem
      obtain ⟨c, -, rfl⟩ := List.mem_map.mp hmem
      rfl
    have heq : ∀ c, TupleEq (table.cqlCmpSingle primaryId) [column] [c] ↔
        table.satisfies primaryId (.eq column c) = true := by
      intro c
      rw [TupleEq, List.forall₂_cons, and_iff_left List.Forall₂.nil]
      exact any_isEq.symm
    have hcmp : table.cqlCmpTuple primaryId [column] [constant] =
        table.cqlCmpSingle primaryId column constant := by
      change firstUnequal [table.cqlCmpSingle primaryId column constant] = _
      rw [firstUnequal_cons, firstUnequal_nil]
      split
      · next h => exact h.symm
      · rfl
    simp only [holds_iff hvalid]
    refine ⟨(satisfies_eqTuple rfl).trans (heq constant), ?_, ?_, ?_, ?_, ?_⟩
    · exact iff_of_eq (congrArg (fun ord => ord.any Ordering.isLT = true) hcmp)
    · exact iff_of_eq (congrArg (fun ord => ord.any Ordering.isLE = true) hcmp)
    · exact iff_of_eq (congrArg (fun ord => ord.any Ordering.isGT = true) hcmp)
    · exact iff_of_eq (congrArg (fun ord => ord.any Ordering.isGE = true) hcmp)
    · rw [satisfies_inTuple hsingle, satisfies_isIn]
      constructor
      · rintro ⟨tuple, hmem, hequal⟩
        obtain ⟨c, hc, rfl⟩ := List.mem_map.mp hmem
        exact ⟨c, hc, (heq c).mp hequal⟩
      · rintro ⟨c, hc, hequal⟩
        exact ⟨[c], List.mem_map.mpr ⟨c, hc, rfl⟩, (heq c).mpr hequal⟩
  nullScalar column hnone constant constants := by
    simp only [holds_iff hvalid, satisfies, cqlCmpSingle, hnone]
    exact ⟨Bool.false_ne_true, Bool.false_ne_true, Bool.false_ne_true, Bool.false_ne_true,
      Bool.false_ne_true, Bool.false_ne_true⟩
  nullTuple lhs rhs hlen hnull := by
    have hne := @not_tupleEq_of_null _ table primaryId lhs rhs hnull
    simp only [holds_iff hvalid, satisfies_eqTuple hlen, satisfies_ltTuple, satisfies_gtTuple,
      satisfies_lteTuple hlen, satisfies_gteTuple hlen, or_iff_left hne]
    exact ⟨hne, decidedBefore hnull, decidedBefore hnull, decidedBefore hnull, decidedBefore hnull⟩
  nullInTuple lhs tuples hlen hnull := by
    rw [holds_iff hvalid, satisfies_inTuple hlen]
    rintro ⟨tuple, -, heq⟩
    exact not_tupleEq_of_null hnull heq

end Table

/-! ## The restrictions of a query -/

section Query

variable {Json : Type} {fromJson : Json → NativeType → Except String CqlValue}
  {filteringColumns : List ColumnName} {tableColumns : AList fun _ : ColumnName => NativeType}

/-- A tuple is converted when it has the length of the tuple of columns, and keeps it. -/
theorem length_fromJsonTuple {columns : List ColumnName} {values : List Json}
    {tuple : List CqlValue}
    (h : fromJsonTuple fromJson filteringColumns tableColumns columns values = .ok tuple) :
    columns.length = tuple.length := by
  unfold fromJsonTuple at h
  split at h
  · cases h
  · next hlen =>
    rw [← (forall₂_of_mapM h).length_eq, List.length_zip, ← not_not.mp hlen, Nat.min_self]

/-- A restriction that was converted has tuples of the right lengths. -/
theorem lengthsMatch_convertRestriction {restriction : PostIndexAnnRestriction Json}
    {converted : Restriction}
    (h : convertRestriction fromJson filteringColumns tableColumns restriction = .ok converted) :
    converted.LengthsMatch := by
  cases restriction with
  | eq lhs rhs | isIn lhs rhs | lt lhs rhs | lte lhs rhs | gt lhs rhs | gte lhs rhs =>
    obtain ⟨_, -, rfl⟩ := map_eq_ok h
    trivial
  | eqTuple lhs rhs | ltTuple lhs rhs | lteTuple lhs rhs | gtTuple lhs rhs | gteTuple lhs rhs =>
    obtain ⟨tuple, htuple, rfl⟩ := map_eq_ok h
    exact length_fromJsonTuple htuple
  | inTuple lhs rhs =>
    obtain ⟨tuples, htuples, rfl⟩ := map_eq_ok h
    intro tuple hmem
    obtain ⟨values, -, hvalues⟩ := exists_mem_left_of_forall₂ (forall₂_of_mapM htuples) hmem
    exact length_fromJsonTuple hvalues

/-- The restrictions of a query have tuples of the right lengths. -/
theorem lengthsMatch_of_tryFrom {query : PostIndexAnnFilter Json} {filter : Filter}
    (h : tryFromPostIndexAnnFilter fromJson filteringColumns tableColumns query = .ok filter) :
    ∀ restriction ∈ filter.restrictions, restriction.LengthsMatch := by
  obtain ⟨restrictions, hrestrictions, rfl⟩ := map_eq_ok h
  intro restriction hmem
  obtain ⟨json, -, hconverted⟩ := exists_mem_left_of_forall₂ (forall₂_of_mapM hrestrictions) hmem
  exact lengthsMatch_convertRestriction hconverted

end Query

/-! ## A row with a value for the column `f` -/

namespace Sample

attribute [local instance] decimals timeuuids

/-- A table with a row that has the value 5 for `f`. -/
def filteredTable : Table :=
  ((World.init globalTable).step (upsert 1 1 (some (vector 1)) 1 (some 5))).table

theorem filter_has_tuple_semantics_filteredTable :
    filteredTable.isValidPrimaryId (.global filteredTable.index.indexId) (.mk' 0 ⟨1⟩) = true ∧
      filteredTable.TupleSemantics (.global filteredTable.index.indexId) (.mk' 0 ⟨1⟩) := by
  have hvalid : filteredTable.isValidPrimaryId (.global filteredTable.index.indexId)
      (.mk' 0 ⟨1⟩) = true := by decide +kernel
  exact ⟨hvalid, Table.filter_has_tuple_semantics hvalid⟩

end Sample

end VectorStore
