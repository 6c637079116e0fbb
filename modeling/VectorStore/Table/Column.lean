import Mathlib.Data.List.AList
import VectorStore.Timestamp
import VectorStore.Table.Ids

/-!
# Column vectors and typed columns

`ColumnVec` is a vector indexed by identifiers.  A table keeps one `Column` for every primary key,
partition key and filtering column.  A primary key column reads the stored primary keys; any other
column stores, for every row, the latest value of one native type.
-/

namespace VectorStore

/-- `ColumnVec`: a vector whose positions are named by identifiers. -/
structure ColumnVec (ι : Type) (α : Type*) where
  vec : List α

namespace ColumnVec

variable {ι : Type} [Idx ι] {α : Type*}

/-- `ColumnVec::new`. -/
def new : ColumnVec ι α := ⟨[]⟩

/-- The number of positions. -/
def size (v : ColumnVec ι α) : Nat := v.vec.length

/-- `resize_with`: cuts the vector or fills it with `fill`. -/
def resizeWith (v : ColumnVec ι α) (size : Nat) (fill : α) : ColumnVec ι α :=
  ⟨v.vec.take size ++ List.replicate (size - v.vec.length) fill⟩

/-- The element of an identifier. -/
def get (v : ColumnVec ι α) (idx : ι) : Option α := v.vec[Idx.idx idx]?

/-- The vector after a write through `get_mut`; nothing happens out of bounds. -/
def set (v : ColumnVec ι α) (idx : ι) (value : α) : ColumnVec ι α :=
  ⟨v.vec.set (Idx.idx idx) value⟩

@[simp] theorem size_set (v : ColumnVec ι α) (i : ι) (a : α) : (v.set i a).size = v.size :=
  List.length_set

theorem get_isSome_iff {v : ColumnVec ι α} {i : ι} : (v.get i).isSome ↔ Idx.idx i < v.size := by
  simp [get, size]

theorem get_set_self {v : ColumnVec ι α} {i j : ι} {a : α} (hi : Idx.idx i < v.size)
    (hij : Idx.idx j = Idx.idx i) : (v.set i a).get j = some a := by
  unfold get set
  rw [hij]
  exact List.getElem?_set_self hi

theorem get_set_of_ne {v : ColumnVec ι α} {i j : ι} {a : α} (hij : Idx.idx j ≠ Idx.idx i) :
    (v.set i a).get j = v.get j :=
  List.getElem?_set_ne hij.symm

/-- The elements after a write inside the bounds. -/
theorem get_set {v : ColumnVec ι α} {i : ι} (hi : Idx.idx i < v.size) (a : α) (j : ι) :
    (v.set i a).get j = if Idx.idx j = Idx.idx i then some a else v.get j := by
  split
  · next h => exact get_set_self hi h
  · next h => exact get_set_of_ne h

/-- The positions after a write inside the bounds. -/
theorem getElem?_vec_set {v : ColumnVec ι α} {i : ι} (hi : Idx.idx i < v.size) (a : α) (j : Nat) :
    (v.set i a).vec[j]? = if j = Idx.idx i then some a else v.vec[j]? := by
  unfold set
  by_cases h : j = Idx.idx i
  · rw [if_pos h, h]
    exact List.getElem?_set_self hi
  · rw [if_neg h]
    exact List.getElem?_set_ne (Ne.symm h)

theorem lt_size_of_get {v : ColumnVec ι α} {i : ι} {a : α} (h : v.get i = some a) :
    Idx.idx i < v.size :=
  get_isSome_iff.mp (by rw [h]; rfl)

omit [Idx ι] in
/-- Enlarging a vector keeps its elements and fills the new positions. -/
theorem vec_resizeWith {v : ColumnVec ι α} {n : Nat} (h : v.size ≤ n) (a : α) :
    (v.resizeWith n a).vec = v.vec ++ List.replicate (n - v.size) a := by
  unfold resizeWith size at *
  rw [List.take_of_length_le h]

omit [Idx ι] in
@[simp] theorem size_resizeWith (v : ColumnVec ι α) (n : Nat) (a : α) :
    (v.resizeWith n a).size = n := by
  simp only [size, resizeWith, List.length_append, List.length_take, List.length_replicate]
  omega

omit [Idx ι] in
/-- The positions of an enlarged vector. -/
theorem getElem?_resizeWith {v : ColumnVec ι α} {n : Nat} (h : v.size ≤ n) (a : α) (i : Nat) :
    (v.resizeWith n a).vec[i]? =
      if i < v.size then v.vec[i]? else if i < n then some a else none := by
  rw [vec_resizeWith h]
  by_cases hi : i < v.size
  · rw [if_pos hi]
    exact List.getElem?_append_left hi
  · have hge : v.vec.length ≤ i := not_lt.mp hi
    rw [if_neg hi, List.getElem?_append_right hge]
    have hsize : v.size = v.vec.length := rfl
    split
    · exact List.getElem?_replicate_of_lt (by omega)
    · exact List.getElem?_eq_none (by rw [List.length_replicate]; omega)

/-- The elements of an enlarged vector. -/
theorem get_resizeWith {v : ColumnVec ι α} {n : Nat} (h : v.size ≤ n) (a : α) (i : ι) :
    (v.resizeWith n a).get i =
      if Idx.idx i < v.size then v.get i else if Idx.idx i < n then some a else none :=
  getElem?_resizeWith h a (Idx.idx i)

omit [Idx ι] in
/-- Outside its bounds a vector has no element. -/
theorem getElem?_of_size_le {v : ColumnVec ι α} {i : Nat} (h : v.size ≤ i) : v.vec[i]? = none :=
  List.getElem?_eq_none h

/-- `ColumnVec::update`: the element is replaced when the new timestamp is greater. -/
def update (v : ColumnVec ι (Timestamped α)) (idx : ι) (value : Timestamped α) :
    Except Failure (ColumnVec ι (Timestamped α)) :=
  match v.get idx with
  | none => .error (.error "Index out of ColumnVec bounds")
  | some it => .ok (if value.timestamp > it.timestamp then v.set idx value else v)

end ColumnVec

/-! ## Columns -/

/-- The values of a native type. -/
abbrev TypedValue (type : NativeType) := {value : CqlValue // value.nativeType = some type}

/-- A column of a table: the values of one native type, or a column of the primary key, by its
offset. -/
inductive Column where
  | values (type : NativeType) (vec : ColumnVec PrimaryId (Timestamped (TypedValue type)))
  | primaryKey (offset : Nat)

namespace Column

/-- `Column::new`. -/
def new : NativeType → Except Failure Column
  | .counter => .error (.error s!"Unsupported native type: {NativeType.counter.debug}")
  | .duration => .error (.error s!"Unsupported native type: {NativeType.duration.debug}")
  | type => .ok (values type .new)

/-- `Column::resize_with`: new rows have no value, written at `Timestamp::MIN`. -/
def resizeWith (column : Column) (size : Nat) : Column :=
  match column with
  | values type vec => values type (vec.resizeWith size (.new .min none))
  | primaryKey offset => primaryKey offset

/-- `Column::insert`. -/
def insert (column : Column) (primaryId : PrimaryId) (timestamp : Timestamp) (value : CqlValue) :
    Except Failure Column :=
  match column with
  | values type vec =>
    if h : value.nativeType = some type then
      (vec.update primaryId (.new timestamp (some ⟨value, h⟩))).map (values type)
    else .error (.error s!"Failed to convert value to {type.debug}")
  | primaryKey _ => .error (.error "Cannot insert value into PrimaryKey column")

/-- `Column::remove`. -/
def remove (column : Column) (primaryId : PrimaryId) (timestamp : Timestamp) :
    Except Failure Column :=
  match column with
  | values type vec => (vec.update primaryId (.new timestamp none)).map (values type)
  | primaryKey _ => .error (.error "Cannot remove value from PrimaryKey column")

/-- `Column::get`. -/
def get (column : Column) (primaryId : PrimaryId)
    (primaryKeys : ColumnVec PrimaryId (Option PrimaryKey)) : Option CqlValue :=
  match column with
  | values _ vec => (vec.get primaryId).bind fun timestamped => timestamped.value.map Subtype.val
  | primaryKey offset => (primaryKeys.get primaryId).join.bind fun key => key.get offset

end Column

/-- The columns of a table, by name. -/
abbrev Columns := AList fun _ : ColumnName => Column

/-- A write to a column: the timestamp and the value, `none` for a null. -/
abbrev ColumnWrite := Timestamp × Option CqlValue

/-- One write of `update_columns`. -/
def Column.write (column : Column) (primaryId : PrimaryId) (write : ColumnWrite) :
    Except Failure Column :=
  match write.2 with
  | some value => column.insert primaryId write.1 value
  | none => column.remove primaryId write.1

/-- The loop of `update_columns`.  It stops at the first error and keeps the writes made so far. -/
def updateColumnsLoop (primaryId : PrimaryId) (columns : Columns) :
    List (ColumnWrite × ColumnName) → Except Failure Unit × Columns
  | [] => (.ok (), columns)
  | (write, name) :: rest =>
    match columns.lookup name with
    | none => (.error (.error s!"Column {name.name} not found in table columns"), columns)
    | some column =>
      match column.write primaryId write with
      | .error e => (.error e, columns)
      | .ok column => updateColumnsLoop primaryId (columns.insert name column) rest

/-- `update_columns`: the values are matched with the column names in order. -/
def updateColumns (primaryId : PrimaryId) (columns : Columns) (columnNames : List ColumnName)
    (values : List ColumnWrite) : Except Failure Unit × Columns :=
  updateColumnsLoop primaryId columns (values.zip columnNames)

end VectorStore
