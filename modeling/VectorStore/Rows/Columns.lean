import VectorStore.Rows.Row

/-!
# The columns of a row

Read at one row, a column that stores values is a last-write-wins register.  A write to it is
`Stamped.absorb`, so `updateColumns` is `Cells.writeAll` at its row and changes no other row.
-/

namespace VectorStore

namespace Column

/-- The register of a row in a column. -/
def cell (column : Column) (id : PrimaryId) : Cell :=
  match column with
  | values _ vec =>
    (vec.get id).elim ⟨.min, none⟩ fun t => ⟨t.timestamp, t.value.map Subtype.val⟩
  | primaryKey _ => ⟨.min, none⟩

/-- The column has a register for each of `size` rows. -/
def HasSize (size : Nat) : Column → Prop
  | values _ vec => vec.size = size
  | primaryKey _ => True

end Column

/-- An update of one row of a vector is an absorption in its register. -/
theorem ColumnVec.update_cell {type : NativeType}
    {vec : ColumnVec PrimaryId (Timestamped (TypedValue type))} {id : PrimaryId}
    (hid : Idx.idx id < vec.size) (timestamp : Timestamp) (value : Option (TypedValue type)) :
    ∃ vec', vec.update id (.new timestamp value) = .ok vec' ∧ vec'.size = vec.size ∧
      ∀ j, (Column.values type vec').cell j =
        if Idx.idx j = Idx.idx id then
          ((Column.values type vec).cell id).absorb ⟨timestamp, value.map Subtype.val⟩
        else (Column.values type vec).cell j := by
  obtain ⟨cur, hcur⟩ := Option.isSome_iff_exists.mp (ColumnVec.get_isSome_iff.mpr hid)
  unfold ColumnVec.update
  simp only [hcur, Timestamped.timestamp_new, gt_iff_lt]
  refine ⟨_, rfl, ?_, ?_⟩
  · split
    · exact ColumnVec.size_set vec id _
    · rfl
  · intro j
    unfold Column.cell
    dsimp only
    rw [hcur, Option.elim_some]
    split
    · next hlt =>
      rw [ColumnVec.get_set hid]
      split
      · rw [Option.elim_some, Timestamped.timestamp_new, Timestamped.value_new,
          Stamped.absorb_of_lt hlt]
      · rfl
    · next hge =>
      split
      · next hj =>
        have hget : vec.get j = some cur := by
          rw [← hcur, ColumnVec.get, ColumnVec.get, hj]
        rw [hget, Option.elim_some, Stamped.absorb_of_le (not_lt.mp hge)]
      · rfl

/-- A write to a column fails exactly when the column does not take it, and is an absorption in
the register of its row otherwise. -/
theorem Column.write_cell {column : Column} {size : Nat} (hsize : column.HasSize size)
    {id : PrimaryId} (hid : Idx.idx id < size) (write : ColumnWrite) :
    if column.shape.takes write then
      ∃ column', column.write id write = .ok column' ∧ column'.shape = column.shape ∧
        column'.HasSize size ∧
        ∀ j, column'.cell j =
          if Idx.idx j = Idx.idx id then (column.cell id).absorb ⟨write.1, write.2⟩
          else column.cell j
    else ∃ e, column.write id write = .error e := by
  obtain ⟨timestamp, value⟩ := write
  cases column with
  | primaryKey offset =>
    rw [if_neg (by simp [shape, ColumnShape.takes])]
    cases value <;> exact ⟨_, rfl⟩
  | values type vec =>
    change vec.size = size at hsize
    subst hsize
    cases value with
    | none =>
      rw [if_pos (by simp [shape, ColumnShape.takes])]
      obtain ⟨vec', hok, hvec, hcell⟩ := ColumnVec.update_cell hid timestamp none
      refine ⟨.values type vec', ?_, rfl, hvec, hcell⟩
      change (vec.update id (.new timestamp none)).map (Column.values type) = _
      rw [hok]
      rfl
    | some value =>
      by_cases htype : value.nativeType = some type
      · rw [if_pos (by simp [shape, ColumnShape.takes, htype])]
        obtain ⟨vec', hok, hvec, hcell⟩ :=
          ColumnVec.update_cell hid timestamp (some ⟨value, htype⟩)
        refine ⟨.values type vec', ?_, rfl, hvec, hcell⟩
        change Column.insert (.values type vec) id timestamp value = _
        unfold Column.insert
        dsimp only
        rw [dif_pos htype, hok]
        rfl
      · rw [if_neg (by simp [shape, ColumnShape.takes, htype])]
        refine ⟨.error s!"Failed to convert value to {type.debug}", ?_⟩
        change Column.insert (.values type vec) id timestamp value = _
        unfold Column.insert
        dsimp only
        rw [dif_neg htype]

namespace Columns

/-- The shapes of the columns. -/
def shape (columns : Columns) (name : ColumnName) : Option ColumnShape :=
  (columns.lookup name).map Column.shape

/-- The registers of a row. -/
def cells (columns : Columns) (id : PrimaryId) : Cells := fun name =>
  (columns.lookup name).elim ⟨.min, none⟩ fun column => column.cell id

/-- Every column has a register for each of `size` rows. -/
def HasSize (columns : Columns) (size : Nat) : Prop :=
  ∀ name column, columns.lookup name = some column → column.HasSize size

end Columns

/-- Replacing a column by one of its shape. -/
theorem Columns.shape_insert {columns : Columns} {name : ColumnName} {column column' : Column}
    (hlook : columns.lookup name = some column) (hshape : column'.shape = column.shape) :
    Columns.shape (columns.insert name column') = Columns.shape columns := by
  funext name'
  unfold Columns.shape
  rw [FiniteMap.lookup_insert_eq]
  split
  · next h => rw [h, hlook, Option.map_some, Option.map_some, hshape]
  · rfl

/-- The registers after one column is written. -/
theorem Columns.cells_insert {columns : Columns} {name : ColumnName} {column column' : Column}
    {id : PrimaryId} (write : ColumnWrite) (hlook : columns.lookup name = some column)
    (hcell : ∀ j, column'.cell j =
      if Idx.idx j = Idx.idx id then (column.cell id).absorb ⟨write.1, write.2⟩
      else column.cell j) (j : PrimaryId)
    (hrow : Idx.idx j = Idx.idx id → Columns.cells columns j = Columns.cells columns id) :
    Columns.cells (columns.insert name column') j =
      if Idx.idx j = Idx.idx id then (Columns.cells columns id).write (write, name)
      else Columns.cells columns j := by
  funext name'
  unfold Columns.cells Cells.write
  rw [FiniteMap.lookup_insert_eq]
  by_cases hname : name' = name
  · subst hname
    rw [if_pos rfl, Option.elim_some, hcell j]
    split
    · dsimp only
      rw [Function.update_self, hlook, Option.elim_some]
    · dsimp only
      rw [hlook, Option.elim_some]
  · rw [if_neg hname]
    split
    · next hj =>
      dsimp only
      rw [Function.update_of_ne hname]
      exact congrFun (hrow hj) name'
    · rfl

/-- Identifiers with one index read the same registers. -/
theorem Columns.cells_congr (columns : Columns) {i j : PrimaryId} (h : Idx.idx i = Idx.idx j) :
    Columns.cells columns i = Columns.cells columns j := by
  funext name
  unfold Columns.cells
  cases columns.lookup name with
  | none => rfl
  | some column =>
    cases column with
    | values type vec =>
      simp only [Option.elim_some, Column.cell, ColumnVec.get, h]
    | primaryKey offset => rfl

/-- What `update_columns` does: it writes to its row what is accepted, in order, stops at the first
write that is not, and leaves the other rows alone. -/
structure ColumnsUpdated (columns : Columns) (size : Nat) (id : PrimaryId)
    (writes : List (ColumnWrite × ColumnName)) (outcome : Except Failure Unit × Columns) :
    Prop where
  ok_iff : outcome.1 = .ok () ↔ writes.all (accepts (Columns.shape columns)) = true
  shape : Columns.shape outcome.2 = Columns.shape columns
  size : Columns.HasSize outcome.2 size
  cells : ∀ j, Columns.cells outcome.2 j =
    if Idx.idx j = Idx.idx id then
      (Columns.cells columns id).writeAll (Columns.shape columns) writes
    else Columns.cells columns j

/-- A first write that is not accepted leaves everything as it is. -/
theorem ColumnsUpdated.of_not_accepts {columns : Columns} {size : Nat}
    (hsize : Columns.HasSize columns size) {id : PrimaryId} {write : ColumnWrite × ColumnName}
    {rest : List (ColumnWrite × ColumnName)} (e : Failure)
    (hacc : accepts (Columns.shape columns) write = false) :
    ColumnsUpdated columns size id (write :: rest) (.error e, columns) := by
  refine ⟨by simp [hacc], rfl, hsize, fun j => ?_⟩
  rw [Cells.writeAll, List.takeWhile_cons_of_neg (by rw [hacc]; exact Bool.false_ne_true),
    List.foldl_nil]
  split
  · next hj => exact Columns.cells_congr columns hj
  · rfl

theorem updateColumnsLoop_updated {columns : Columns} {size : Nat}
    (hsize : Columns.HasSize columns size) {id : PrimaryId} (hid : Idx.idx id < size)
    (writes : List (ColumnWrite × ColumnName)) :
    ColumnsUpdated columns size id writes (updateColumnsLoop id columns writes) := by
  induction writes generalizing columns with
  | nil =>
    refine ⟨by simp [updateColumnsLoop], rfl, hsize, fun j => ?_⟩
    split
    · next hj => exact Columns.cells_congr columns hj
    · rfl
  | cons head rest ih =>
    obtain ⟨write, name⟩ := head
    rw [updateColumnsLoop]
    cases hlook : columns.lookup name with
    | none =>
      refine ColumnsUpdated.of_not_accepts hsize _ ?_
      simp [accepts, Columns.shape, hlook]
    | some column =>
      have hacc : accepts (Columns.shape columns) (write, name) = column.shape.takes write := by
        simp [accepts, Columns.shape, hlook]
      have hwrite := Column.write_cell (hsize name column hlook) hid write
      by_cases htakes : column.shape.takes write = true
      · rw [if_pos htakes] at hwrite
        obtain ⟨column', hok, hshape, hsize', hcell⟩ := hwrite
        have hcols : Columns.shape (columns.insert name column') = Columns.shape columns :=
          Columns.shape_insert hlook hshape
        have hsizes : Columns.HasSize (columns.insert name column') size := by
          intro name' c hc
          rw [FiniteMap.lookup_insert_eq] at hc
          split at hc
          · obtain rfl := Option.some.inj hc
            exact hsize'
          · exact hsize name' c hc
        have hcells := fun j => Columns.cells_insert write hlook hcell j
          (Columns.cells_congr columns)
        obtain ⟨hres, hshapes, hsz, hcs⟩ := ih hsizes
        simp only [hok]
        refine ⟨?_, hshapes.trans hcols, hsz, fun j => ?_⟩
        · rw [hres, hcols, List.all_cons, hacc, htakes, Bool.true_and]
        · rw [hcs j, hcols, hcells id, if_pos rfl, hcells j, Cells.writeAll, Cells.writeAll,
            List.takeWhile_cons_of_pos (by rw [hacc, htakes]), List.foldl_cons]
          split <;> rfl
      · rw [if_neg htakes] at hwrite
        obtain ⟨e, he⟩ := hwrite
        simp only [he]
        refine ColumnsUpdated.of_not_accepts hsize _ ?_
        rw [hacc]
        exact Bool.not_eq_true _ ▸ htakes

end VectorStore
