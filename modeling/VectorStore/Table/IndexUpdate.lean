import VectorStore.Table.Placement

/-!
# What an update does to an index

`updateIndex` is shown to compute `Target.process` for the row it is called for, to leave the
other rows alone, and to return operations that the store accepts and that lead to the new shelf.
The seven cases of `ProcessingPartition` and the five of `UpdateWork` are described by what they say
about the row: the key it is held under and the key it is due under.
-/

namespace VectorStore

/-- The operation puts a value into the store. -/
def Operation.isAdd : Operation → Bool
  | addVector _ _ _ _ | addDocument _ _ _ _ => true
  | removeBeforeAddValue _ _ | removeValue _ _ | removePartition _ => false

@[simp] theorem UpdateWork.isAdd_addOperation (id : PrimaryId) (p : PartitionId) (isUpdate : Bool)
    (values : SplittingValues) : (UpdateWork.addOperation id p isUpdate values).isAdd = true := by
  cases values <;> rfl

/-! ## The operations of a work -/

namespace UpdateWork

/-- The work takes a row that is held as `cur` to one that is held as `new`. -/
def Realizes (locate : PartitionKey → Option PartitionId)
    (cur new : Option (PartitionKey × SplittingValues)) : UpdateWork → Prop
  | none => cur = .none ∧ new = .none
  | moveInsidePartition p =>
    ∃ key value value', cur = some (key, value) ∧ new = some (key, value') ∧ locate key = some p
  | moveBetweenPartitions p q =>
    ∃ key value key' value', cur = some (key, value) ∧ new = some (key', value') ∧
      key ≠ key' ∧ locate key = some p ∧ locate key' = some q
  | addToPartition p => ∃ key value, cur = .none ∧ new = some (key, value) ∧ locate key = some p
  | removeFromPartition p =>
    ∃ key value, cur = some (key, value) ∧ new = .none ∧ locate key = some p

variable {data : IndexData} {indexId : IndexId} {store : Store} {epochs : Nat → Epoch}
  {shelf : Shelf} {size : Nat} {opened : Option PartitionKey} {p : PartitionId} {id : PrimaryId}
  {value : SplittingValues}

/-- The operations that take a row out of a partition are accepted and take its entry out of the
store; ending the partition changes nothing more. -/
theorem removal_operations (hlook : store.lookup (p, id) = some value) {operation : Operation}
    (hop : operation = .removeBeforeAddValue id p ∨ operation = .removeValue id p) {isEmpty : Bool}
    (hempty : isEmpty = true → Store.count (store.erase (p, id)) p = 0) :
    Store.AcceptsAll store store (operation :: removeIfEmpty p isEmpty) ∧
      Machine.run Store.apply store (operation :: removeIfEmpty p isEmpty) =
        store.erase (p, id) ∧
      (operation :: removeIfEmpty p isEmpty).any Operation.isAdd = false := by
  have happly : store.apply operation = store.erase (p, id) := by
    rcases hop with rfl | rfl <;> rfl
  have haccept : Store.Accepts store store operation := by
    rcases hop with rfl | rfl <;> exact Option.isSome_iff_exists.mpr ⟨value, hlook⟩
  have hadd : operation.isAdd = false := by
    rcases hop with rfl | rfl <;> rfl
  cases isEmpty with
  | false =>
    refine ⟨⟨haccept, trivial⟩, happly, ?_⟩
    simp [removeIfEmpty, hadd]
  | true =>
    have hzero := hempty rfl
    have hcount := Store.count_erase hlook p
    rw [if_pos rfl] at hcount
    refine ⟨⟨haccept, ?_, trivial⟩, ?_, ?_⟩
    · rw [happly]
      exact ⟨by omega, hzero⟩
    · change (store.apply operation).apply (.removePartition p) = store.erase (p, id)
      rw [happly]
      exact Store.apply_removePartition_of_count hzero
    · change (operation.isAdd || (false || false)) = false
      rw [hadd]
      rfl

/-- What the operations of a work do: they are accepted, and the index and the store then hold the
row as the work says, under the new epoch. -/
structure Performed (data : IndexData) (indexId : IndexId) (store : Store) (epochs : Nat → Epoch)
    (shelf : Shelf) (size : Nat) (i : Nat) (epoch : Epoch)
    (new : Option (PartitionKey × SplittingValues)) (outcome : List Operation × IndexData) :
    Prop where
  accepts : Store.AcceptsAll store store outcome.1
  tracks : outcome.2.Tracks indexId (Machine.run Store.apply store outcome.1) (Function.update epochs i epoch)
    (Function.update shelf i new) size .none
  adds : outcome.1.any Operation.isAdd = new.isSome
  columns : outcome.2.partitionColumns = data.partitionColumns

theorem partitionColumns_removeRow (data : IndexData) (id : PrimaryId) (p : PartitionId) :
    (data.removeRowFromPartition id p).2.partitionColumns = data.partitionColumns := by
  cases data with
  | globalIndex => rfl
  | localIndex data =>
    have h := data.partitionKeyColumns_removeRow id p
    exact congrArg some (Prod.ext h.1 h.2.1)

theorem partitionColumns_insertRow (data : IndexData) (id : PrimaryId) (p : PartitionId) :
    (data.insertRowIntoPartition id p).partitionColumns = data.partitionColumns := by
  cases data <;> rfl

/-- The row stays in its partition. -/
theorem perform_moveInside (h : data.Tracks indexId store epochs shelf size .none)
    {key : PartitionKey} (hrow : shelf (Idx.idx id) = some (key, value))
    (hp : data.locate indexId key = some p) (hepoch : id.epoch = epochs (Idx.idx id))
    (epoch : Epoch) (value' : SplittingValues) :
    Performed data indexId store epochs shelf size (Idx.idx id) epoch (some (key, value'))
      ((moveInsidePartition p).perform data id (id.newEpoch epoch) (some value')) := by
  have hplace : shelf.place (data.locate indexId) (Idx.idx id) = some (p, value) :=
    Shelf.place_eq_some hrow hp
  have hlook := h.holds.lookup_eq hplace hepoch
  have hself : Function.update (shelf.place (data.locate indexId)) (Idx.idx id) Option.none
      (Idx.idx (id.newEpoch epoch)) = .none := by
    rw [PrimaryId.idx_newEpoch, Function.update_self]
  have hnone := fun q => (h.holds.erase hplace hepoch).lookup_eq_none hself q
  constructor
  · refine ⟨Option.isSome_iff_exists.mpr ⟨value, hlook⟩, ?_, trivial⟩
    rw [Store.accepts_addOperation]
    exact hnone
  · have htracks := h.replace hrow hp hepoch epoch value'
    change data.Tracks indexId (Store.apply (store.erase (p, id))
      (addOperation (id.newEpoch epoch) p true value')) _ _ size .none
    rwa [Store.apply_addOperation]
  · change (List.any [.removeBeforeAddValue id p, addOperation (id.newEpoch epoch) p true value']
      Operation.isAdd) = true
    simp
  · rfl

/-- The row leaves its partition and enters another one. -/
theorem perform_moveBetween (h : data.Tracks indexId store epochs shelf size opened)
    {key key' : PartitionKey} {q : PartitionId}
    (hrow : shelf (Idx.idx id) = some (key, value)) (hne : key ≠ key')
    (hp : data.locate indexId key = some p) (hq : data.locate indexId key' = some q)
    (hopen : ∀ k, opened = some k → k = key') (hepoch : id.epoch = epochs (Idx.idx id))
    (epoch : Epoch) (value' : SplittingValues) :
    Performed data indexId store epochs shelf size (Idx.idx id) epoch (some (key', value'))
      ((moveBetweenPartitions p q).perform data id (id.newEpoch epoch) (some value')) := by
  have hplace : shelf.place (data.locate indexId) (Idx.idx id) = some (p, value) :=
    Shelf.place_eq_some hrow hp
  have hlook := h.holds.lookup_eq hplace hepoch
  obtain ⟨hremoved, hempty, hother⟩ := h.removeRow hrow hp hepoch fun he => hne (hopen key he)
  obtain ⟨haccepts, hreplay, hnoadd⟩ := removal_operations hlook (Or.inl rfl) hempty
  have hself : Function.update shelf (Idx.idx id) Option.none (Idx.idx id) = .none :=
    Function.update_self ..
  have hset := hremoved.setEpoch hself epoch
  have hinsert := hset.enter hself ((hother key' (Ne.symm hne)).trans hq) (h.lt_size hrow) hopen
    value'
  rw [Function.update_idem] at hinsert
  have hnone : ∀ r, (store.erase (p, id)).lookup (r, id.newEpoch epoch) = .none := by
    intro r
    refine hremoved.holds.lookup_eq_none ?_ r
    rw [PrimaryId.idx_newEpoch]
    exact Shelf.place_eq_none hself
  have hops : ((moveBetweenPartitions p q).perform data id (id.newEpoch epoch) (some value')).1 =
      (.removeBeforeAddValue id p ::
        removeIfEmpty p (data.removeRowFromPartition id p).1) ++
        [addOperation (id.newEpoch epoch) q true value'] := by
    simp [perform, removeBeforeAdd, addValue, addTarget, removeEntry]
  have hdata : ((moveBetweenPartitions p q).perform data id (id.newEpoch epoch) (some value')).2 =
      (data.removeRowFromPartition id p).2.insertRowIntoPartition (id.newEpoch epoch) q := rfl
  constructor
  · rw [hops, Store.AcceptsAll, Machine.along_append]
    refine ⟨haccepts, ?_, trivial⟩
    rw [Store.accepts_addOperation, hreplay]
    exact hnone
  · rw [hdata, hops, Machine.run_append, hreplay]
    change IndexData.Tracks _ indexId (Store.apply (store.erase (p, id))
      (addOperation (id.newEpoch epoch) q true value')) _ _ size .none
    rwa [Store.apply_addOperation]
  · rw [hops, List.any_append]
    simp
  · rw [hdata, partitionColumns_insertRow, partitionColumns_removeRow]

/-- The row enters a partition. -/
theorem perform_addTo (h : data.Tracks indexId store epochs shelf size opened)
    {key : PartitionKey} (hrow : shelf (Idx.idx id) = .none) (hrange : Idx.idx id < size)
    (hp : data.locate indexId key = some p) (hopen : ∀ k, opened = some k → k = key)
    (epoch : Epoch) (value' : SplittingValues) :
    Performed data indexId store epochs shelf size (Idx.idx id) epoch (some (key, value'))
      ((addToPartition p).perform data id (id.newEpoch epoch) (some value')) := by
  have hinsert := (h.setEpoch hrow epoch).enter hrow hp hrange hopen value'
  constructor
  · refine ⟨?_, trivial⟩
    rw [Store.accepts_addOperation]
    intro r
    refine h.holds.lookup_eq_none ?_ r
    rw [PrimaryId.idx_newEpoch]
    exact Shelf.place_eq_none hrow
  · change IndexData.Tracks _ indexId (store.apply
      (addOperation (id.newEpoch epoch) p false value')) _ _ size .none
    rw [Store.apply_addOperation]
    exact hinsert
  · change (List.any [addOperation (id.newEpoch epoch) p false value'] Operation.isAdd) = true
    simp
  · exact partitionColumns_insertRow data (id.newEpoch epoch) p

/-- The row leaves its partition. -/
theorem perform_removeFrom (h : data.Tracks indexId store epochs shelf size .none)
    {key : PartitionKey} (hrow : shelf (Idx.idx id) = some (key, value))
    (hp : data.locate indexId key = some p) (hepoch : id.epoch = epochs (Idx.idx id))
    (epoch : Epoch) :
    Performed data indexId store epochs shelf size (Idx.idx id) epoch .none
      ((removeFromPartition p).perform data id (id.newEpoch epoch) .none) := by
  have hplace : shelf.place (data.locate indexId) (Idx.idx id) = some (p, value) :=
    Shelf.place_eq_some hrow hp
  have hlook := h.holds.lookup_eq hplace hepoch
  obtain ⟨hremoved, hempty, -⟩ := h.removeRow hrow hp hepoch (by simp)
  obtain ⟨haccepts, hreplay, hnoadd⟩ := removal_operations hlook (Or.inr rfl) hempty
  have hset := hremoved.setEpoch (Function.update_self ..) epoch
  constructor
  · exact haccepts
  · change IndexData.Tracks _ indexId (Machine.run Store.apply store (.removeValue id p ::
      removeIfEmpty p (data.removeRowFromPartition id p).1)) _ _ size .none
    rw [hreplay]
    exact hset
  · exact hnoadd
  · exact partitionColumns_removeRow data id p

/-- The operations of a work do what the work says. -/
theorem perform_tracks {work : UpdateWork} {new : Option (PartitionKey × SplittingValues)}
    (h : data.Tracks indexId store epochs shelf size opened)
    (hrange : Idx.idx id < size) (hepoch : id.epoch = epochs (Idx.idx id))
    (hwork : work.Realizes (data.locate indexId) (shelf (Idx.idx id)) new)
    (hopen : ∀ key, opened = some key →
      (∃ v, new = some (key, v)) ∧ ∀ v, shelf (Idx.idx id) ≠ some (key, v)) (epoch : Epoch) :
    Performed data indexId store epochs shelf size (Idx.idx id) epoch new
      (work.perform data id (id.newEpoch epoch) (new.map Prod.snd)) := by
  have hopenNone : (∀ key v, new = some (key, v) → ∃ v', shelf (Idx.idx id) = some (key, v')) →
      opened = .none := by
    intro hnew
    cases hop : opened with
    | none => rfl
    | some key =>
      obtain ⟨⟨v, hv⟩, hne⟩ := hopen key hop
      obtain ⟨v', hv'⟩ := hnew key v hv
      exact absurd hv' (hne v')
  cases work with
  | none =>
    obtain ⟨hcur, rfl⟩ := hwork
    obtain rfl := hopenNone (by simp)
    refine ⟨trivial, ?_, rfl, rfl⟩
    have hset := h.setEpoch hcur epoch
    rwa [← Function.update_eq_self (Idx.idx id) shelf, hcur] at hset
  | moveInsidePartition p =>
    obtain ⟨key, value, value', hcur, rfl, hp⟩ := hwork
    obtain rfl := hopenNone fun k v hk => by
      obtain ⟨rfl, -⟩ := Prod.mk.inj (Option.some.inj hk)
      exact ⟨value, hcur⟩
    exact perform_moveInside h hcur hp hepoch epoch value'
  | moveBetweenPartitions p q =>
    obtain ⟨key, value, key', value', hcur, rfl, hne, hp, hq⟩ := hwork
    refine perform_moveBetween h hcur hne hp hq (fun k hk => ?_) hepoch epoch value'
    obtain ⟨⟨v, hv⟩, -⟩ := hopen k hk
    exact (Prod.mk.inj (Option.some.inj hv)).1.symm
  | addToPartition p =>
    obtain ⟨key, value', hcur, rfl, hp⟩ := hwork
    refine perform_addTo h hcur hrange hp (fun k hk => ?_) epoch value'
    obtain ⟨⟨v, hv⟩, -⟩ := hopen k hk
    exact (Prod.mk.inj (Option.some.inj hv)).1.symm
  | removeFromPartition p =>
    obtain ⟨key, value, hcur, rfl, hp⟩ := hwork
    obtain rfl := hopenNone (by simp)
    exact perform_removeFrom h hcur hp hepoch epoch

end UpdateWork

/-! ## Where a row is and where it is due -/

/-- What a `ProcessingPartition` says about a row held under the key `held` and due under the key
`dest`. -/
def ProcessingPartition.Fits (locate : PartitionKey → Option PartitionId)
    (held dest : Option PartitionKey) : ProcessingPartition → Prop
  | existing p => ∃ key, dest = some key ∧ locate key = some p ∧ (held = none ∨ held = some key)
  | new key => held = none ∧ dest = some key ∧ locate key = none
  | addToExisting p => ∃ key, held = none ∧ dest = some key ∧ locate key = some p
  | moveToNew p key' =>
    ∃ key, held = some key ∧ locate key = some p ∧ dest = some key' ∧ locate key' = none
  | moveToExisting p q =>
    ∃ key key', held = some key ∧ locate key = some p ∧ dest = some key' ∧ locate key' = some q ∧
      key ≠ key'
  | missingKey p => ∃ key, held = some key ∧ locate key = some p ∧ dest = none
  | missing => held = none ∧ dest = none

/-- `is_changing_partitions` compares where the row is with where it is due. -/
theorem ProcessingPartition.Fits.changesPartition_eq {locate : PartitionKey → Option PartitionId}
    {held dest : Option PartitionKey} {pp : ProcessingPartition} (h : pp.Fits locate held dest) :
    pp.isChangingPartitions = changesPartition (fun key => (locate key).isSome) held dest := by
  cases pp with
  | existing p =>
    obtain ⟨key, rfl, hp, rfl | rfl⟩ := h <;> simp [ProcessingPartition.isChangingPartitions, changesPartition, hp]
  | new key =>
    obtain ⟨rfl, rfl, hp⟩ := h
    simp [ProcessingPartition.isChangingPartitions, changesPartition, hp]
  | addToExisting p =>
    obtain ⟨key, rfl, rfl, hp⟩ := h
    simp [ProcessingPartition.isChangingPartitions, changesPartition, hp]
  | moveToNew p key' =>
    obtain ⟨key, rfl, hp, rfl, hp'⟩ := h
    have hne : key ≠ key' := by
      rintro rfl
      simp [hp] at hp'
    simp [ProcessingPartition.isChangingPartitions, changesPartition, hne]
  | moveToExisting p q =>
    obtain ⟨key, key', rfl, -, rfl, -, hne⟩ := h
    simp [ProcessingPartition.isChangingPartitions, changesPartition, hne]
  | missingKey p =>
    obtain ⟨key, rfl, -, rfl⟩ := h
    rfl
  | missing =>
    obtain ⟨rfl, rfl⟩ := h
    rfl

namespace LocalData

variable {data : LocalData} {id : PrimaryId}
  (primaryKeys : ColumnVec PrimaryId (Option PrimaryKey)) (columns : Columns)

/-- `get_partition_key` for a row that is not assigned to a partition. -/
theorem getPartitionKey_of_none (hids : data.ids.get id = some none) :
    data.getPartitionKey id primaryKeys columns =
      match partitionKey id data.partitionKeyColumns.toList primaryKeys columns with
      | none => .ok .missing
      | some key =>
        match data.map.lookup key with
        | none => .ok (.new key)
        | some p => .ok (.addToExisting p) := by
  unfold getPartitionKey
  simp only [hids]
  cases data.nonpkPartitionKeyColumns.isEmpty <;>
    cases partitionKey id data.partitionKeyColumns.toList primaryKeys columns with
    | none => rfl
    | some key => cases hp : data.map.lookup key <;> simp only [hp]

/-- `get_partition_key` for a row that is assigned to the partition `cur`. -/
theorem getPartitionKey_of_some {cur : PartitionId} (hids : data.ids.get id = some (some cur)) :
    data.getPartitionKey id primaryKeys columns =
      if data.nonpkPartitionKeyColumns.isEmpty then .ok (.existing cur)
      else
        match partitionKey id data.partitionKeyColumns.toList primaryKeys columns with
        | none => .ok (.missingKey cur)
        | some key =>
          match data.map.lookup key with
          | none => .ok (.moveToNew cur key)
          | some p => if p = cur then .ok (.existing cur) else .ok (.moveToExisting cur p) := by
  unfold getPartitionKey
  simp only [hids]
  cases data.nonpkPartitionKeyColumns.isEmpty with
  | true => rfl
  | false =>
    simp only [Bool.false_eq_true, if_false]
    cases partitionKey id data.partitionKeyColumns.toList primaryKeys columns with
    | none => rfl
    | some key => cases hp : data.map.lookup key <;> simp only [hp]

end LocalData

namespace IndexData

/-- The key a row is due under, from the key it is held under and its columns. -/
def destination (data : IndexData) (held : Option PartitionKey) (id : PrimaryId)
    (primaryKeys : ColumnVec PrimaryId (Option PrimaryKey)) (columns : Columns) :
    Option PartitionKey :=
  match data.partitionColumns with
  | none => some .whole
  | some (keyColumns, nonpk) =>
    if nonpk.isEmpty && held.isSome then held
    else VectorStore.partitionKey id keyColumns.toList primaryKeys columns

/-- `get_partition_key` succeeds for every row of the table and says where the row is and where it
is due. -/
theorem Tracks.getPartitionKey {data : IndexData} {indexId : IndexId} {store : Store}
    {epochs : Nat → Epoch} {shelf : Shelf} {size : Nat} {id : PrimaryId}
    (h : data.Tracks indexId store epochs shelf size none)
    (hrange : Idx.idx id < size) (primaryKeys : ColumnVec PrimaryId (Option PrimaryKey))
    (columns : Columns) :
    ∃ pp, data.getPartitionKey indexId id primaryKeys columns = .ok pp ∧
      pp.Fits (data.locate indexId) ((shelf (Idx.idx id)).map Prod.fst)
        (data.destination ((shelf (Idx.idx id)).map Prod.fst) id primaryKeys columns) := by
  cases data with
  | globalIndex =>
    refine ⟨_, rfl, .whole, rfl, locate_globalIndex_eq_some.mpr ⟨rfl, rfl⟩, ?_⟩
    cases hrow : shelf (Idx.idx id) with
    | none => exact Or.inl rfl
    | some entry =>
      obtain ⟨hkey, -⟩ := h.2.1 _ entry.1 entry.2 hrow
      exact Or.inr (congrArg some hkey)
  | localIndex data =>
    obtain ⟨htracks, hsize⟩ := h
    obtain ⟨a, ha⟩ := Option.isSome_iff_exists.mp
      (ColumnVec.get_isSome_iff.mpr (by rw [hsize]; exact hrange) : (data.ids.get id).isSome)
    have hids := htracks.ids (Idx.idx id)
    rw [show data.ids.vec[Idx.idx id]? = some a from ha, Option.join_some] at hids
    change ∃ pp, data.getPartitionKey id primaryKeys columns = .ok pp ∧
      pp.Fits data.map.lookup _ _
    unfold destination partitionColumns
    dsimp only
    cases hrow : shelf (Idx.idx id) with
    | none =>
      obtain rfl : a = none := by rw [hids, hrow, Option.bind_none]
      rw [LocalData.getPartitionKey_of_none primaryKeys columns ha]
      simp only [Option.map_none, Option.isSome_none, Bool.and_false, Bool.false_eq_true, if_false]
      cases partitionKey id data.partitionKeyColumns.toList primaryKeys columns with
      | none => exact ⟨.missing, rfl, rfl, rfl⟩
      | some key =>
        cases hlook : data.map.lookup key with
        | none => exact ⟨.new key, by simp only [hlook], rfl, rfl, hlook⟩
        | some p => exact ⟨.addToExisting p, by simp only [hlook], key, rfl, rfl, hlook⟩
    | some entry =>
      obtain ⟨cur, value⟩ := entry
      obtain ⟨p, hp⟩ := htracks.exists_lookup hrow
      obtain rfl : a = some p := by rw [hids, hrow, Option.bind_some, hp]
      rw [LocalData.getPartitionKey_of_some primaryKeys columns ha]
      simp only [Option.map_some, Option.isSome_some, Bool.and_true]
      cases hnonpk : data.nonpkPartitionKeyColumns.isEmpty with
      | true => exact ⟨.existing p, rfl, cur, if_pos rfl, hp, Or.inr rfl⟩
      | false =>
        simp only [Bool.false_eq_true, if_false]
        cases partitionKey id data.partitionKeyColumns.toList primaryKeys columns with
        | none => exact ⟨.missingKey p, rfl, cur, rfl, hp, rfl⟩
        | some key =>
          cases hlook : data.map.lookup key with
          | none => exact ⟨.moveToNew p key, by simp only [hlook], cur, rfl, hp, rfl, hlook⟩
          | some q =>
            by_cases hqp : q = p
            · subst hqp
              refine ⟨.existing q, by simp only [hlook, if_pos], key, rfl, hlook, ?_⟩
              exact Or.inr (congrArg some (htracks.key_inj hp hlook))
            · refine ⟨.moveToExisting p q, by simp only [hlook, if_neg hqp], cur, key, rfl, hp,
                rfl, hlook, ?_⟩
              rintro rfl
              rw [hp] at hlook
              exact hqp (Option.some.inj hlook).symm

end IndexData

/-! ## The plan of an update -/

namespace UpdateWork

variable {data : IndexData} {indexId : IndexId} {store : Store} {epochs : Nat → Epoch}
  {shelf : Shelf} {size : Nat} {i : Nat} {p : PartitionId} {values : Option SplittingValues}
  {t t' : Timestamped Unit} {new : Option (PartitionKey × SplittingValues)}

/-- The outcome of planning an update that takes the row `i` to `new`. -/
def Plans (data : IndexData) (indexId : IndexId) (store : Store) (epochs : Nat → Epoch)
    (shelf : Shelf) (size i : Nat) (timestamp : Timestamp)
    (new : Option (PartitionKey × SplittingValues))
    (outcome : Except Failure (Option Planned) × IndexData) : Prop :=
  ∃ work t' opened,
    outcome.1 = .ok (some ⟨work, new.map Prod.snd, ⟨t', []⟩⟩) ∧
    t'.timestamp = timestamp ∧ t'.value.isSome = new.isSome ∧
    outcome.2.Tracks indexId store epochs shelf size opened ∧
    work.Realizes (outcome.2.locate indexId) (shelf i) new ∧
    (∀ key, opened = some key → (∃ v, new = some (key, v)) ∧ ∀ v, shelf i ≠ some (key, v)) ∧
    outcome.2.partitionColumns = data.partitionColumns

/-- A plan without a new partition leaves the data alone. -/
theorem plans_of_realizes (h : data.Tracks indexId store epochs shelf size .none)
    (work : UpdateWork) (t' : Timestamped Unit)
    (hwork : work.Realizes (data.locate indexId) (shelf i) new)
    (ht : t'.value.isSome = new.isSome) {outcome : Except Failure (Option Planned) × IndexData}
    (houtcome : outcome = (.ok (some ⟨work, new.map Prod.snd, ⟨t', []⟩⟩), data)) :
    Plans data indexId store epochs shelf size i t'.timestamp new outcome := by
  subst houtcome
  exact ⟨work, t', .none, rfl, rfl, ht, h, hwork, by simp, rfl⟩

theorem partitionColumns_createPartition (data : IndexData) (key : PartitionKey) :
    (data.createPartition key).2.partitionColumns = data.partitionColumns := by
  cases data with
  | globalIndex => rfl
  | localIndex data =>
    have h := data.partitionKeyColumns_createPartition key
    exact congrArg some (Prod.ext h.1 h.2.1)

/-- A plan with a new partition: the partition is the one the row goes to. -/
theorem plans_of_create (h : data.Tracks indexId store epochs shelf size .none)
    {key : PartitionKey} {value : SplittingValues} (hkey : data.locate indexId key = .none)
    (hkind : data.partitionColumns.isSome) (hfree : data.HasFree)
    (hcur : ∀ v, shelf i ≠ some (key, v)) (ht : t'.value.isSome)
    {outcome : Except Failure (Option Planned) × IndexData} (next : PartitionId → UpdateWork)
    (houtcome : ∀ p data', data.createPartition key = (.ok p, data') →
      outcome = (.ok (some ⟨next p, some value, ⟨t', []⟩⟩), data'))
    (hwork : ∀ p locate, locate key = some p →
      (∀ key', key' ≠ key → locate key' = data.locate indexId key') →
      (next p).Realizes locate (shelf i) (some (key, value))) :
    Plans data indexId store epochs shelf size i t'.timestamp (some (key, value)) outcome := by
  obtain ⟨p, hok, hp, hother, htracks⟩ := h.createPartition hkey hkind hfree
  have hout := houtcome p _ (Prod.ext hok rfl)
  subst hout
  refine ⟨next p, t', some key, rfl, rfl, ht, htracks, hwork p _ hp hother, ?_, ?_⟩
  · intro key' hkey'
    obtain rfl := Option.some.inj hkey'
    exact ⟨⟨value, rfl⟩, hcur⟩
  · exact partitionColumns_createPartition data key

/-- Unless the row is neither held nor due anywhere, `UpdateWork::new` plans its way from where it
is to where it is due. -/
theorem new_plans (h : data.Tracks indexId store epochs shelf size .none)
    {pp : ProcessingPartition} {dest : Option PartitionKey}
    (hfits : pp.Fits (data.locate indexId) ((shelf i).map Prod.fst) dest)
    (hkind : data.partitionColumns = .none → dest = some .whole)
    {comparison : CompareTimestamps} (hcur : comparison.isCurTombstone = (shelf i).isNone)
    (hnew : comparison.isNewTombstone = values.isNone) (ht : t.value.isSome = values.isSome)
    (hfree : values.isSome → data.HasFree) (hskip : ((shelf i).isNone && dest.isNone) = false) :
    Plans data indexId store epochs shelf size i t.timestamp
      (dest.bind fun key => values.map fun v => (key, v))
      (UpdateWork.new pp comparison data values ⟨t, []⟩) := by
  have hlocal : ∀ key, dest = some key → data.locate indexId key = .none →
      data.partitionColumns.isSome := by
    intro key hdest hkey
    cases data with
    | globalIndex =>
      obtain rfl := Option.some.inj (hdest.symm.trans (hkind rfl))
      have hwhole : IndexData.globalIndex.locate indexId .whole = some (.global indexId) :=
        IndexData.locate_globalIndex_eq_some.mpr ⟨rfl, rfl⟩
      rw [hwhole] at hkey
      simp at hkey
    | localIndex data => rfl
  unfold UpdateWork.new
  cases pp with
  | existing p =>
    obtain ⟨key, rfl, hp, hheld⟩ := hfits
    cases hrow : shelf i with
    | none =>
      rw [hrow, Option.isNone_none] at hcur
      cases values with
      | none =>
        refine plans_of_realizes h .none t ?_ ht ?_
        · exact ⟨hrow, rfl⟩
        · simp [hcur, hnew]
      | some value =>
        refine plans_of_realizes h (.addToPartition p) t ?_ ht ?_
        · exact ⟨key, value, hrow, rfl, hp⟩
        · simp [hcur, hnew]
    | some entry =>
      obtain ⟨cur, v⟩ := entry
      rw [hrow] at hcur hheld
      obtain rfl : cur = key := by simpa using hheld
      cases values with
      | none =>
        refine plans_of_realizes h (.removeFromPartition p) t ?_ ht ?_
        · exact ⟨cur, v, hrow, rfl, hp⟩
        · simp [hcur, hnew]
      | some value =>
        refine plans_of_realizes h (.moveInsidePartition p) t ?_ ht ?_
        · exact ⟨cur, v, value, hrow, rfl, hp⟩
        · simp [hcur, hnew]
  | new key =>
    obtain ⟨hheld, rfl, hkey⟩ := hfits
    have hrow : shelf i = .none := Option.map_eq_none_iff.mp hheld
    cases values with
    | none =>
      refine plans_of_realizes h .none t ?_ ht ?_
      · exact ⟨hrow, rfl⟩
      · simp [hnew]
    | some value =>
      refine plans_of_create h hkey (hlocal key rfl hkey) (hfree rfl) (by simp [hrow]) ht
        .addToPartition ?_ ?_
      · intro p data' hok
        simp [hnew, hok]
      · intro p locate hp _
        exact ⟨key, value, hrow, rfl, hp⟩
  | addToExisting p =>
    obtain ⟨key, hheld, rfl, hp⟩ := hfits
    have hrow : shelf i = .none := Option.map_eq_none_iff.mp hheld
    cases values with
    | none =>
      refine plans_of_realizes h .none t ?_ ht ?_
      · exact ⟨hrow, rfl⟩
      · simp [hnew]
    | some value =>
      refine plans_of_realizes h (.addToPartition p) t ?_ ht ?_
      · exact ⟨key, value, hrow, rfl, hp⟩
      · simp [hnew]
  | moveToNew p key' =>
    obtain ⟨key, hheld, hp, rfl, hkey'⟩ := hfits
    obtain ⟨⟨cur, v⟩, hrow, rfl⟩ := Option.map_eq_some_iff.mp hheld
    rw [hrow] at hcur
    have hne : cur ≠ key' := by
      rintro rfl
      simp [hp] at hkey'
    cases values with
    | none =>
      refine plans_of_realizes h (.removeFromPartition p) t ?_ ht ?_
      · exact ⟨cur, v, hrow, rfl, hp⟩
      · simp [hcur, hnew]
    | some value =>
      refine plans_of_create h hkey' (hlocal key' rfl hkey') (hfree rfl) ?_ ht
        (.moveBetweenPartitions p) ?_ ?_
      · intro w hw
        rw [hrow] at hw
        exact hne (Prod.mk.inj (Option.some.inj hw)).1
      · intro q data' hok
        simp [hcur, hnew, hok]
      · intro q locate hq hother
        exact ⟨cur, v, key', value, hrow, rfl, hne, (hother cur hne).trans hp, hq⟩
  | moveToExisting p q =>
    obtain ⟨key, key', hheld, hp, rfl, hq, hne⟩ := hfits
    obtain ⟨⟨cur, v⟩, hrow, rfl⟩ := Option.map_eq_some_iff.mp hheld
    rw [hrow] at hcur
    cases values with
    | none =>
      refine plans_of_realizes h (.removeFromPartition p) t ?_ ht ?_
      · exact ⟨cur, v, hrow, rfl, hp⟩
      · simp [hcur, hnew]
    | some value =>
      refine plans_of_realizes h (.moveBetweenPartitions p q) t ?_ ht ?_
      · exact ⟨cur, v, key', value, hrow, rfl, hne, hp, hq⟩
      · simp [hcur, hnew]
  | missingKey p =>
    obtain ⟨key, hheld, hp, rfl⟩ := hfits
    obtain ⟨⟨cur, v⟩, hrow, rfl⟩ := Option.map_eq_some_iff.mp hheld
    rw [hrow] at hcur
    have hplan := plans_of_realizes h (.removeFromPartition p) t.setTombstone
      ⟨cur, v, hrow, rfl, hp⟩ (by simp) rfl
    rw [Timestamped.setTombstone_eq, Timestamped.timestamp_new] at hplan
    simpa [hcur, NonemptyBox.modifyFirst] using hplan
  | missing =>
    obtain ⟨hheld, rfl⟩ := hfits
    rw [Option.map_eq_none_iff.mp hheld] at hskip
    simp at hskip

end UpdateWork

/-! ## `update_index` -/

/-- The timestamp of the indexed value of a row. -/
def ChunkTimestamps.stamp (chunk : ChunkTimestamps) : Timestamp :=
  chunk.timestamps.head?.elim .min Timestamped.timestamp

namespace Index

/-- The epoch of a row. -/
def epochs (index : Index) (i : Nat) : Epoch :=
  index.valuesTimestamps.vec[i]?.elim .new ChunkTimestamps.epoch

/-- The stamp of a row. -/
def stamp (index : Index) (i : Nat) : Timestamp :=
  index.valuesTimestamps.vec[i]?.elim .min ChunkTimestamps.stamp

/-- The index and the store hold exactly the rows of the shelf, and a row is held exactly when its
target timestamp is not a tombstone. -/
structure Tracks (index : Index) (store : Store) (shelf : Shelf) (size : Nat) : Prop where
  data : index.data.Tracks index.indexId store index.epochs shelf size none
  size_timestamps : index.valuesTimestamps.size = size
  chunks : ∀ i chunk, index.valuesTimestamps.vec[i]? = some chunk →
    ∃ t rest, chunk.timestamps = t :: rest ∧ t.value.isSome = (shelf i).isSome

/-- The parts of an index that no update changes. -/
def Same (index index' : Index) : Prop :=
  index'.indexId = index.indexId ∧ index'.targetColumns = index.targetColumns ∧
    index'.filteringColumns = index.filteringColumns ∧
    index'.data.partitionColumns = index.data.partitionColumns

theorem Same.refl (index : Index) : index.Same index := ⟨rfl, rfl, rfl, rfl⟩

/-- A partition with the key exists. -/
def present (index : Index) (key : PartitionKey) : Bool :=
  (index.data.locate index.indexId key).isSome

/-- The epochs after a chunk is replaced. -/
theorem epochs_set {index : Index} {id : PrimaryId} (data : IndexData)
    (hlt : Idx.idx id < index.valuesTimestamps.size) (chunk : ChunkTimestamps) :
    ({ index with data, valuesTimestamps := index.valuesTimestamps.set id chunk } : Index).epochs =
      Function.update index.epochs (Idx.idx id) chunk.epoch := by
  funext i
  unfold epochs
  rw [ColumnVec.getElem?_vec_set hlt]
  by_cases hi : i = Idx.idx id
  · rw [if_pos hi, hi, Function.update_self]
    rfl
  · rw [if_neg hi, Function.update_of_ne hi]

/-- The stamps after a chunk is replaced. -/
theorem stamp_set {index : Index} {id : PrimaryId} (data : IndexData)
    (hlt : Idx.idx id < index.valuesTimestamps.size) (chunk : ChunkTimestamps) :
    ({ index with data, valuesTimestamps := index.valuesTimestamps.set id chunk } : Index).stamp =
      Function.update index.stamp (Idx.idx id) chunk.stamp := by
  funext i
  unfold stamp
  rw [ColumnVec.getElem?_vec_set hlt]
  by_cases hi : i = Idx.idx id
  · rw [if_pos hi, hi, Function.update_self]
    rfl
  · rw [if_neg hi, Function.update_of_ne hi]

end Index

/-- The comparison of one new timestamp with a stored one. -/
theorem compareTimestamps_singleton {chunk : ChunkTimestamps} {cur : Timestamped Unit}
    {rest : List (Timestamped Unit)} (h : chunk.timestamps = cur :: rest) (t : Timestamped Unit) :
    compareTimestamps chunk [t] = .ok
      { isCurTombstone := cur.value.isNone
        isNewTombstone := t.value.isNone
        isNewerTimestamp := cur.timestamp < t.timestamp
        isSameTimestamp := cur.timestamp = t.timestamp } := by
  unfold compareTimestamps
  simp [compareTimestampsFrom, h, CompareTimestamps.add, Timestamped.isValid_eq]

/-- The update of one timestamp. -/
theorem updateTimestamps_singleton {chunk : ChunkTimestamps} {cur : Timestamped Unit}
    {rest : List (Timestamped Unit)} (h : chunk.timestamps = cur :: rest) (t : Timestamped Unit)
    (epoch : Epoch) :
    updateTimestamps { chunk with epoch } [t] = (.ok (), ⟨epoch, t :: rest⟩) := by
  unfold updateTimestamps
  simp [updateTimestampsFrom, h]

/-- What `update_index` does for one row. -/
structure Updated (index : Index) (store : Store) (shelf : Shelf) (size i : Nat)
    (dest : Option PartitionKey) (timestamp : Timestamp) (values : Option SplittingValues)
    (outcome : Except Failure (List Operation) × Index) : Prop where
  ok : ∃ operations, outcome.1 = .ok operations ∧ Store.AcceptsAll store store operations ∧
    outcome.2.Tracks (Machine.run Store.apply store operations)
      (Function.update shelf i
        (Target.process index.present dest timestamp values ⟨index.stamp i, shelf i⟩).held) size ∧
    operations.any Operation.isAdd =
      Target.adds index.present dest timestamp values ⟨index.stamp i, shelf i⟩
  stamp : outcome.2.stamp = Function.update index.stamp i
    (Target.process index.present dest timestamp values ⟨index.stamp i, shelf i⟩).stamp
  same : index.Same outcome.2

/-- Only `missing` says that a row is neither held nor due anywhere. -/
theorem ProcessingPartition.Fits.eq_missing {locate : PartitionKey → Option PartitionId}
    {pp : ProcessingPartition} (h : pp.Fits locate none none) : pp = .missing := by
  cases pp with
  | existing p =>
    obtain ⟨key, hkey, -⟩ := h
    simp at hkey
  | new key =>
    obtain ⟨-, hkey, -⟩ := h
    simp at hkey
  | addToExisting p =>
    obtain ⟨key, -, hkey, -⟩ := h
    simp at hkey
  | moveToNew p key' =>
    obtain ⟨key, hkey, -⟩ := h
    simp at hkey
  | moveToExisting p q =>
    obtain ⟨key, key', hkey, -⟩ := h
    simp at hkey
  | missingKey p =>
    obtain ⟨key, hkey, -⟩ := h
    simp at hkey
  | missing => rfl

namespace Updated

variable {index : Index} {store : Store} {shelf : Shelf} {size i : Nat}
  {dest : Option PartitionKey} {timestamp : Timestamp} {values : Option SplittingValues}

/-- An update that is not admitted or is skipped leaves everything as it was. -/
theorem of_process_eq_self (h : index.Tracks store shelf size)
    (hself : Target.process index.present dest timestamp values ⟨index.stamp i, shelf i⟩ =
      ⟨index.stamp i, shelf i⟩)
    (hadds : Target.adds index.present dest timestamp values ⟨index.stamp i, shelf i⟩ = false) :
    Updated index store shelf size i dest timestamp values (.ok [], index) := by
  constructor
  · refine ⟨[], rfl, trivial, ?_, hadds.symm⟩
    rw [hself, Function.update_eq_self]
    exact h
  · rw [hself, Function.update_eq_self]
  · exact Index.Same.refl index

end Updated

/-- `update_index` computes `Target.process` for its row. -/
theorem updateIndex_updated {index : Index} {store : Store} {shelf : Shelf} {size : Nat}
    {id : PrimaryId} (h : index.Tracks store shelf size) (hrange : Idx.idx id < size)
    {pp : ProcessingPartition} {dest : Option PartitionKey}
    (hfits : pp.Fits (index.data.locate index.indexId) ((shelf (Idx.idx id)).map Prod.fst) dest)
    (hkind : index.data.partitionColumns = none → dest = some .whole)
    {values : Option SplittingValues} {t : Timestamped Unit}
    (ht : t.value.isSome = values.isSome) (hfree : values.isSome → index.data.HasFree) :
    Updated index store shelf size (Idx.idx id) dest t.timestamp values
      (updateIndex id pp index values ⟨t, []⟩) := by
  have hlt : Idx.idx id < index.valuesTimestamps.size := by
    rw [h.size_timestamps]
    exact hrange
  obtain ⟨chunk, hget⟩ := Option.isSome_iff_exists.mp (ColumnVec.get_isSome_iff.mpr hlt)
  have hvec : index.valuesTimestamps.vec[Idx.idx id]? = some chunk := hget
  obtain ⟨cur, rest, hchunk, hcur⟩ := h.chunks _ _ hvec
  have hstamp : index.stamp (Idx.idx id) = cur.timestamp := by
    rw [Index.stamp, hvec, Option.elim_some, ChunkTimestamps.stamp, hchunk]
    rfl
  have hepoch : index.epochs (Idx.idx id) = chunk.epoch := by
    rw [Index.epochs, hvec, Option.elim_some]
  have hcurNone : cur.value.isNone = (shelf (Idx.idx id)).isNone := by
    rw [← Option.not_isSome, hcur, Option.not_isSome]
  have htNone : t.value.isNone = values.isNone := by
    rw [← Option.not_isSome, ht, Option.not_isSome]
  have hchange := hfits.changesPartition_eq
  -- The timestamps decide first, then whether there is anything to place.
  have hadmits : Target.admits index.present dest t.timestamp
      ⟨index.stamp (Idx.idx id), shelf (Idx.idx id)⟩ =
      (decide (cur.timestamp < t.timestamp) ||
        (decide (cur.timestamp = t.timestamp) && pp.isChangingPartitions)) := by
    rw [Target.admits, hchange, hstamp]
    rfl
  unfold updateIndex
  simp only [hget, NonemptyBox.toList, compareTimestamps_singleton hchunk]
  by_cases hadm : Target.admits index.present dest t.timestamp
      ⟨index.stamp (Idx.idx id), shelf (Idx.idx id)⟩ = true
  case neg =>
    rw [Bool.not_eq_true] at hadm
    have hcond : (!decide (cur.timestamp < t.timestamp) &&
        (!decide (cur.timestamp = t.timestamp) || !pp.isChangingPartitions)) = true := by
      rw [hadmits] at hadm
      revert hadm
      cases decide (cur.timestamp < t.timestamp) <;>
        cases decide (cur.timestamp = t.timestamp) <;> cases pp.isChangingPartitions <;> simp
    rw [if_pos hcond]
    refine Updated.of_process_eq_self h ?_ ?_
    · rw [Target.process, hadm]
      rfl
    · rw [Target.adds, hadm]
      rfl
  case pos =>
    have hcond : (!decide (cur.timestamp < t.timestamp) &&
        (!decide (cur.timestamp = t.timestamp) || !pp.isChangingPartitions)) ≠ true := by
      rw [hadmits] at hadm
      revert hadm
      cases decide (cur.timestamp < t.timestamp) <;>
        cases decide (cur.timestamp = t.timestamp) <;> cases pp.isChangingPartitions <;> simp
    have hmissing : (values.isNone && !t.value.isNone) = false := by
      rw [htNone, Bool.and_not_self]
    rw [if_neg hcond]
    simp only [hmissing, Bool.false_eq_true, if_false]
    by_cases hskip : ((shelf (Idx.idx id)).isNone && dest.isNone) = true
    case pos =>
      obtain ⟨hnone, hdest⟩ := Bool.and_eq_true_iff.mp hskip
      rw [Option.isNone_iff_eq_none] at hnone hdest
      subst hdest
      rw [hnone] at hfits
      rw [hfits.eq_missing]
      refine Updated.of_process_eq_self h ?_ ?_
      · rw [Target.process, Target.skips, hskip, Bool.not_true, Bool.and_false]
        rfl
      · rw [Target.adds, Option.isSome_none, Bool.and_false, Bool.false_and]
    case neg =>
      rw [Bool.not_eq_true] at hskip
      have hprocess : Target.process index.present dest t.timestamp values
          ⟨index.stamp (Idx.idx id), shelf (Idx.idx id)⟩ =
          ⟨t.timestamp, dest.bind fun key => values.map fun v => (key, v)⟩ := by
        rw [Target.process, hadm, Target.skips, hskip]
        rfl
      have hadds : Target.adds index.present dest t.timestamp values
          ⟨index.stamp (Idx.idx id), shelf (Idx.idx id)⟩ =
          (dest.bind fun key => values.map fun v => (key, v)).isSome := by
        rw [Target.adds, hadm, Bool.true_and]
        cases dest <;> cases values <;> rfl
      have hplans : UpdateWork.Plans index.data index.indexId store index.epochs shelf size
          (Idx.idx id) t.timestamp (dest.bind fun key => values.map fun v => (key, v))
          (UpdateWork.new pp ⟨cur.value.isNone, t.value.isNone, cur.timestamp < t.timestamp,
            cur.timestamp = t.timestamp⟩ index.data values ⟨t, []⟩) :=
        UpdateWork.new_plans h.data hfits hkind hcurNone htNone ht hfree hskip
      generalize UpdateWork.new pp ⟨cur.value.isNone, t.value.isNone, cur.timestamp < t.timestamp,
        cur.timestamp = t.timestamp⟩ index.data values ⟨t, []⟩ = outcome at hplans ⊢
      obtain ⟨result, data'⟩ := outcome
      obtain ⟨work, t', opened, hok, htime, hvalue, htracks, hwork, hopen, hcols⟩ := hplans
      obtain rfl : result = _ := hok
      simp only [updateTimestamps_singleton hchunk]
      have hidx : Idx.idx (id.newEpoch chunk.epoch) = Idx.idx id := PrimaryId.idx_newEpoch _ _
      rw [← hidx] at hwork hopen
      have hdone := UpdateWork.perform_tracks htracks (hidx ▸ hrange)
        (by rw [PrimaryId.epoch_newEpoch, hidx, hepoch]) hwork hopen chunk.epoch.next
      rw [hidx] at hdone
      have hset : Idx.idx (id.newEpoch chunk.epoch) < index.valuesTimestamps.size := hidx ▸ hlt
      constructor
      · refine ⟨_, rfl, hdone.accepts, ?_, ?_⟩
        · rw [hprocess]
          constructor
          · rw [Index.epochs_set _ hset, hidx]
            exact hdone.tracks
          · change (index.valuesTimestamps.set _ _).size = size
            rw [ColumnVec.size_set]
            exact h.size_timestamps
          · intro j chunk' hj
            change (index.valuesTimestamps.set _ _).vec[j]? = some chunk' at hj
            rw [ColumnVec.getElem?_vec_set hset, hidx] at hj
            by_cases hji : j = Idx.idx id
            · rw [if_pos hji] at hj
              obtain rfl := Option.some.inj hj
              refine ⟨t', rest, rfl, ?_⟩
              rw [hji, Function.update_self, hvalue]
            · rw [if_neg hji] at hj
              rw [Function.update_of_ne hji]
              exact h.chunks j chunk' hj
        · rw [hadds]
          exact hdone.adds
      · rw [hprocess, Index.stamp_set _ hset, hidx]
        exact congrArg _ htime
      · exact ⟨rfl, rfl, rfl, hdone.columns.trans hcols⟩

end VectorStore
