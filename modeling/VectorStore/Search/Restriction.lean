import Mathlib.Data.List.AList
import VectorStore.Metadata

/-!
# Restrictions of a query

A request restricts columns to values, one at a time or as a tuple.  The values come as JSON and
are converted to the types of the columns; the columns alone decide which index can serve the
query.
-/

namespace VectorStore

/-- The forms of a restriction, on values of some type. -/
inductive RestrictionOf (ν : Type) where
  | eq (lhs : ColumnName) (rhs : ν)
  | isIn (lhs : ColumnName) (rhs : List ν)
  | lt (lhs : ColumnName) (rhs : ν)
  | lte (lhs : ColumnName) (rhs : ν)
  | gt (lhs : ColumnName) (rhs : ν)
  | gte (lhs : ColumnName) (rhs : ν)
  | eqTuple (lhs : List ColumnName) (rhs : List ν)
  | inTuple (lhs : List ColumnName) (rhs : List (List ν))
  | ltTuple (lhs : List ColumnName) (rhs : List ν)
  | lteTuple (lhs : List ColumnName) (rhs : List ν)
  | gtTuple (lhs : List ColumnName) (rhs : List ν)
  | gteTuple (lhs : List ColumnName) (rhs : List ν)
deriving DecidableEq

/-- `Restriction`: a restriction on CQL values. -/
abbrev Restriction := RestrictionOf CqlValue

/-- `httpapi::PostIndexAnnRestriction`: a restriction on JSON values. -/
abbrev PostIndexAnnRestriction (Json : Type) := RestrictionOf Json

/-- `httpapi::PostIndexAnnFilter`. -/
structure PostIndexAnnFilter (Json : Type) where
  restrictions : List (PostIndexAnnRestriction Json)
  allowFiltering : Bool

/-- `Filter`. -/
structure Filter where
  restrictions : List Restriction
  allowFiltering : Bool
deriving DecidableEq

namespace RestrictionOf

variable {ν : Type}

/-- The columns that `restriction_columns` counts as equality. -/
def equalityColumns : RestrictionOf ν → List ColumnName
  | eq lhs _ | isIn lhs _ => [lhs]
  | eqTuple lhs _ | inTuple lhs _ => lhs
  | lt _ _ | lte _ _ | gt _ _ | gte _ _ | ltTuple _ _ | lteTuple _ _ | gtTuple _ _
  | gteTuple _ _ => []

/-- The columns that `restriction_columns` counts as range. -/
def rangeColumns : RestrictionOf ν → List ColumnName
  | lt lhs _ | lte lhs _ | gt lhs _ | gte lhs _ => [lhs]
  | ltTuple lhs _ | lteTuple lhs _ | gtTuple lhs _ | gteTuple lhs _ => lhs
  | eq _ _ | isIn _ _ | eqTuple _ _ | inTuple _ _ => []

end RestrictionOf

/-- `restriction_columns`. -/
def restrictionColumns {Json : Type} :
    Option (PostIndexAnnFilter Json) → List ColumnName × List ColumnName
  | none => ([], [])
  | some filter =>
    (filter.restrictions.flatMap RestrictionOf.equalityColumns,
      filter.restrictions.flatMap RestrictionOf.rangeColumns)

/-! ## Conversion of the values -/

section Conversion

variable {Json : Type} (fromJson : Json → NativeType → Except String CqlValue)
  (filteringColumns : List ColumnName) (tableColumns : AList fun _ : ColumnName => NativeType)

/-- How `{columns:?}` prints the names of columns. -/
def debugColumns (columns : List ColumnName) : String :=
  "[" ++ ", ".intercalate (columns.map fun column => s!"ColumnName({column.name.quote})") ++ "]"

/-- The value of a column, which must be a filtering column of a native type.  `fromJson` is
`cql_types::from_json`. -/
def fromJsonColumn (column : ColumnName) (value : Json) : Except String CqlValue :=
  if column ∉ filteringColumns then
    .error (s!"Column '{column.name}' in filter restriction is not part of the primary key or " ++
      "filtering columns, and cannot be used for filtering")
  else
    match tableColumns.lookup column with
    | none =>
      .error (s!"Column '{column.name}' in filter restriction is not part of the table or is " ++
        "not a supported native type")
    | some type => fromJson value type

/-- The values of a tuple of columns. -/
def fromJsonTuple (columns : List ColumnName) (values : List Json) :
    Except String (List CqlValue) :=
  if columns.length ≠ values.length then
    .error (s!"Length of column tuple {debugColumns columns} ({columns.length}) does not match " ++
      s!"length of values tuple ({values.length})")
  else
    (columns.zip values).mapM fun p => fromJsonColumn fromJson filteringColumns tableColumns p.1 p.2

/-- The conversion of one restriction. -/
def convertRestriction : PostIndexAnnRestriction Json → Except String Restriction
  | .eq lhs rhs =>
    (fromJsonColumn fromJson filteringColumns tableColumns lhs rhs).map (.eq lhs)
  | .isIn lhs rhs =>
    (rhs.mapM (fromJsonColumn fromJson filteringColumns tableColumns lhs)).map (.isIn lhs)
  | .lt lhs rhs =>
    (fromJsonColumn fromJson filteringColumns tableColumns lhs rhs).map (.lt lhs)
  | .lte lhs rhs =>
    (fromJsonColumn fromJson filteringColumns tableColumns lhs rhs).map (.lte lhs)
  | .gt lhs rhs =>
    (fromJsonColumn fromJson filteringColumns tableColumns lhs rhs).map (.gt lhs)
  | .gte lhs rhs =>
    (fromJsonColumn fromJson filteringColumns tableColumns lhs rhs).map (.gte lhs)
  | .eqTuple lhs rhs =>
    (fromJsonTuple fromJson filteringColumns tableColumns lhs rhs).map (.eqTuple lhs)
  | .inTuple lhs rhs =>
    (rhs.mapM (fromJsonTuple fromJson filteringColumns tableColumns lhs)).map (.inTuple lhs)
  | .ltTuple lhs rhs =>
    (fromJsonTuple fromJson filteringColumns tableColumns lhs rhs).map (.ltTuple lhs)
  | .lteTuple lhs rhs =>
    (fromJsonTuple fromJson filteringColumns tableColumns lhs rhs).map (.lteTuple lhs)
  | .gtTuple lhs rhs =>
    (fromJsonTuple fromJson filteringColumns tableColumns lhs rhs).map (.gtTuple lhs)
  | .gteTuple lhs rhs =>
    (fromJsonTuple fromJson filteringColumns tableColumns lhs rhs).map (.gteTuple lhs)

/-- `try_from_post_index_ann_filter`. -/
def tryFromPostIndexAnnFilter (filter : PostIndexAnnFilter Json) : Except String Filter :=
  (filter.restrictions.mapM (convertRestriction fromJson filteringColumns tableColumns)).map
    fun restrictions => ⟨restrictions, filter.allowFiltering⟩

end Conversion

end VectorStore
