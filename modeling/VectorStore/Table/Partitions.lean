import VectorStore.Table.Store

/-!
# The partitions of a local index

The rows of an index are described by a `Shelf`: the partition key and the value of every row that
has an entry.  `LocalData.Tracks` says that the vectors, the map and the free identifiers of a
local index, together with the store, hold exactly a given shelf.  A partition that was created and
is still empty is `opened`; at every other moment the map has the keys of the shelf and no others.

The three changes an update makes, creating a partition, taking a row out and putting a row in,
keep the relation and change the shelf at one row.
-/

namespace VectorStore

/-- The rows of an index: the partition key and the value of every row that has an entry. -/
abbrev Shelf := Nat → Option (PartitionKey × SplittingValues)

namespace Shelf

/-- The entries of the rows, when `locate` names the partitions. -/
def place (shelf : Shelf) (locate : PartitionKey → Option PartitionId) (i : Nat) :
    Option (PartitionId × SplittingValues) :=
  (shelf i).bind fun entry => (locate entry.1).map fun p => (p, entry.2)

variable {shelf : Shelf} {locate locate' : PartitionKey → Option PartitionId} {i : Nat}
  {key : PartitionKey} {value : SplittingValues} {p : PartitionId}

theorem place_eq_none (h : shelf i = none) : shelf.place locate i = none := by
  rw [place, h, Option.bind_none]

theorem place_eq_some (h : shelf i = some (key, value)) (hp : locate key = some p) :
    shelf.place locate i = some (p, value) := by
  simp [place, h, hp]

theorem place_eq_some_iff :
    shelf.place locate i = some (p, value) ↔
      ∃ key, shelf i = some (key, value) ∧ locate key = some p := by
  simp [place, Option.bind_eq_some_iff]

/-- Only the names of the keys in use matter. -/
theorem place_congr (h : ∀ i key value, shelf i = some (key, value) → locate key = locate' key) :
    shelf.place locate = shelf.place locate' := by
  funext i
  cases hi : shelf i with
  | none => rw [place_eq_none hi, place_eq_none hi]
  | some entry => rw [place, place, hi, Option.bind_some, Option.bind_some, h i _ _ hi]

theorem place_update_none :
    place (Function.update shelf i none) locate =
      Function.update (shelf.place locate) i none := by
  funext j
  by_cases h : j = i
  · subst h
    rw [Function.update_self, place_eq_none (Function.update_self ..)]
  · rw [Function.update_of_ne h, place, Function.update_of_ne h, place]

theorem place_update_some (hp : locate key = some p) :
    place (Function.update shelf i (some (key, value))) locate =
      Function.update (shelf.place locate) i (some (p, value)) := by
  funext j
  by_cases h : j = i
  · subst h
    rw [Function.update_self, place_eq_some (Function.update_self ..) hp]
  · rw [Function.update_of_ne h, place, Function.update_of_ne h, place]

end Shelf

namespace LocalData

/-- The local index and the store hold exactly the rows of the shelf.  `opened` is the key of the
partition that may be empty. -/
structure Tracks (data : LocalData) (indexId : IndexId) (store : Store) (epochs : Nat → Epoch)
    (shelf : Shelf) (opened : Option PartitionKey) : Prop where
  /-- The map and the keys of the partitions are inverse to each other. -/
  mapped : ∀ key p, data.map.lookup key = some p ↔
    p.indexId = indexId ∧ data.keys.get p = some (some key)
  /-- Every row of the shelf is assigned to the partition of its key, and no other row is. -/
  ids : ∀ i, data.ids.vec[i]?.join = (shelf i).bind fun entry => data.map.lookup entry.1
  shelved : ∀ i key value, shelf i = some (key, value) → (data.map.lookup key).isSome
  /-- A partition of the map has a row, unless it was just created. -/
  occupied : ∀ key p, data.map.lookup key = some p →
    (∃ i value, shelf i = some (key, value)) ∨ opened = some key
  holds : store.Holds epochs (shelf.place data.map.lookup)
  /-- The size of a partition is the number of its entries. -/
  sizes : ∀ p, p.indexId = indexId → Idx.idx p < data.keys.size →
    data.sizes.get p = some (store.count p)
  nodup_free : data.freeIds.Nodup
  /-- The free identifiers are those of the partitions without a key. -/
  mem_free : ∀ p, p ∈ data.freeIds ↔ p.indexId = indexId ∧ data.keys.get p = some none
  length_free : data.map.keys.length + data.freeIds.length = data.keys.size
  size_sizes : data.sizes.size = data.keys.size
  /-- Partitions are reserved in blocks, and their identifiers fit into 48 bits. -/
  blocks : Index.incrementSize ∣ data.keys.size
  size_keys_le : data.keys.size ≤ PartitionId.max + 1
  size_ids_le : data.ids.size ≤ PrimaryId.reserved

namespace Tracks

variable {data : LocalData} {indexId : IndexId} {store : Store} {epochs : Nat → Epoch}
  {shelf : Shelf} {opened : Option PartitionKey} {key : PartitionKey} {p q : PartitionId}
  {id : PrimaryId} {value : SplittingValues}

/-! ## Reading the relation -/

/-- A key with a partition has its place among the keys. -/
theorem keys_get (h : data.Tracks indexId store epochs shelf opened)
    (hp : data.map.lookup key = some p) : data.keys.get p = some (some key) :=
  ((h.mapped key p).mp hp).2

theorem indexId_eq (h : data.Tracks indexId store epochs shelf opened)
    (hp : data.map.lookup key = some p) : p.indexId = indexId :=
  ((h.mapped key p).mp hp).1

theorem sizes_get (h : data.Tracks indexId store epochs shelf opened)
    (hp : data.map.lookup key = some p) : data.sizes.get p = some (store.count p) :=
  h.sizes p (h.indexId_eq hp) (ColumnVec.lt_size_of_get (h.keys_get hp))

/-- Different keys have different partitions. -/
theorem key_inj (h : data.Tracks indexId store epochs shelf opened) {key' : PartitionKey}
    (hp : data.map.lookup key = some p) (hp' : data.map.lookup key' = some p) : key = key' := by
  have hkeys := (h.keys_get hp).symm.trans (h.keys_get hp')
  exact Option.some.inj (Option.some.inj hkeys)

/-- A row of the shelf has its partition. -/
theorem exists_lookup (h : data.Tracks indexId store epochs shelf opened) {i : Nat}
    (hi : shelf i = some (key, value)) : ∃ p, data.map.lookup key = some p :=
  Option.isSome_iff_exists.mp (h.shelved i key value hi)

/-- A partition without rows has no entries. -/
theorem count_eq_zero (h : data.Tracks indexId store epochs shelf opened)
    (hp : ∀ key, data.map.lookup key = some p → ∀ i value, shelf i ≠ some (key, value)) :
    store.count p = 0 := by
  refine h.holds.count_eq_zero ?_
  intro i value hi
  obtain ⟨key, hkey, hloc⟩ := Shelf.place_eq_some_iff.mp hi
  exact hp key hloc i value hkey

/-! ## Creating a partition -/

/-- A free identifier names no partition. -/
theorem lookup_ne_of_mem_free (h : data.Tracks indexId store epochs shelf opened)
    (hp : p ∈ data.freeIds) (key : PartitionKey) : data.map.lookup key ≠ some p := by
  intro hkey
  have hnone := ((h.mem_free p).mp hp).2
  rw [h.keys_get hkey] at hnone
  simp at hnone

/-- What `create_partition` does for a key without a partition. -/
theorem createPartition_eq (h : data.Tracks indexId store epochs shelf opened)
    (hkey : data.map.lookup key = none) {freeIds : List PartitionId}
    (hfree : data.freeIds = p :: freeIds) :
    data.createPartition key =
      (.ok p, { data with
        freeIds
        map := data.map.insert key p
        keys := data.keys.set p (some key)
        sizes := data.sizes.set p 0 }) := by
  have hget : data.keys.get p = some none :=
    ((h.mem_free p).mp (by rw [hfree]; exact List.mem_cons_self)).2
  unfold createPartition
  rw [hkey, hfree]
  simp only [hget, resetSize]

/-- Creating a partition keeps every row and opens the partition. -/
theorem createPartition (h : data.Tracks indexId store epochs shelf none)
    (hkey : data.map.lookup key = none) (hfree : data.freeIds ≠ []) :
    ∃ p, (data.createPartition key).1 = .ok p ∧
      (data.createPartition key).2.map = data.map.insert key p ∧
      (data.createPartition key).2.Tracks indexId store epochs shelf (some key) := by
  obtain ⟨p, freeIds, hcons⟩ := List.exists_cons_of_ne_nil hfree
  have hmem : p ∈ data.freeIds := by rw [hcons]; exact List.mem_cons_self
  obtain ⟨hix, hget⟩ := (h.mem_free p).mp hmem
  have hlt : Idx.idx p < data.keys.size := ColumnVec.lt_size_of_get hget
  have heq := h.createPartition_eq hkey hcons
  have hplace : shelf.place (data.map.insert key p).lookup = shelf.place data.map.lookup := by
    refine Shelf.place_congr fun i key' value hi => ?_
    refine AList.lookup_insert_ne ?_
    rintro rfl
    simpa [hkey] using h.shelved i key' value hi
  have hcount : store.count p = 0 :=
    h.count_eq_zero fun key' hp => absurd hp (h.lookup_ne_of_mem_free hmem key')
  obtain ⟨hnotin, hnodup⟩ := List.nodup_cons.mp (hcons ▸ h.nodup_free)
  refine ⟨p, by rw [heq], by rw [heq], ?_⟩
  rw [heq]
  constructor
  case mapped =>
    intro key' q
    rw [FiniteMap.lookup_insert_eq, ColumnVec.get_set hlt]
    by_cases hq : Idx.idx q = Idx.idx p
    · rw [if_pos hq]
      split
      · next he =>
        subst he
        constructor
        · intro hpq
          obtain rfl := Option.some.inj hpq
          exact ⟨hix, rfl⟩
        · rintro ⟨hqix, -⟩
          rw [PartitionId.ext_idx hq (hqix.trans hix.symm)]
      · next he =>
        constructor
        · intro hlook
          have hqp : q = p := PartitionId.ext_idx hq ((h.indexId_eq hlook).trans hix.symm)
          subst hqp
          exact absurd hlook (h.lookup_ne_of_mem_free hmem key')
        · rintro ⟨-, hk⟩
          exact absurd (Option.some.inj (Option.some.inj hk)).symm he
    · rw [if_neg hq]
      split
      · next he =>
        subst he
        constructor
        · intro hpq
          obtain rfl := Option.some.inj hpq
          exact absurd rfl hq
        · intro hk
          have := (h.mapped key' q).mpr hk
          simp [hkey] at this
      · exact h.mapped key' q
  case ids =>
    intro i
    rw [h.ids i]
    cases hi : shelf i with
    | none => rfl
    | some entry =>
      simp only [Option.bind_some]
      rw [AList.lookup_insert_ne]
      rintro he
      have := h.shelved i entry.1 entry.2 hi
      rw [he, hkey] at this
      simp at this
  case shelved =>
    intro i key' value hi
    rw [FiniteMap.lookup_insert_eq]
    split
    · rfl
    · exact h.shelved i key' value hi
  case occupied =>
    intro key' q hq
    rw [FiniteMap.lookup_insert_eq] at hq
    split at hq
    · next he => exact Or.inr (by rw [he])
    · rcases h.occupied key' q hq with hrow | hnone
      · exact Or.inl hrow
      · simp at hnone
  case holds =>
    rw [hplace]
    exact h.holds
  case sizes =>
    intro q hqix hq
    rw [ColumnVec.size_set] at hq
    rw [ColumnVec.get_set (by rw [h.size_sizes]; exact hlt)]
    split
    · next he => rw [PartitionId.ext_idx he (hqix.trans hix.symm), hcount]
    · exact h.sizes q hqix hq
  case nodup_free => exact hnodup
  case mem_free =>
    intro q
    rw [ColumnVec.get_set hlt]
    by_cases hq : Idx.idx q = Idx.idx p
    · rw [if_pos hq]
      constructor
      · intro hfreeq
        have hqix := ((h.mem_free q).mp (by rw [hcons]; exact List.mem_cons_of_mem p hfreeq)).1
        rw [PartitionId.ext_idx hq (hqix.trans hix.symm)] at hfreeq
        exact absurd hfreeq hnotin
      · rintro ⟨-, hk⟩
        simp at hk
    · have hne : q ≠ p := fun he => hq (by rw [he])
      rw [if_neg hq, ← h.mem_free q, hcons, List.mem_cons]
      exact ⟨Or.inr, fun hor => hor.resolve_left hne⟩
  case length_free =>
    have hlen := h.length_free
    rw [hcons, List.length_cons] at hlen
    change (data.map.insert key p).keys.length + freeIds.length = (data.keys.set p (some key)).size
    rw [ColumnVec.size_set, FiniteMap.length_keys_insert hkey]
    omega
  case size_sizes =>
    rw [ColumnVec.size_set, ColumnVec.size_set, h.size_sizes]
  case blocks =>
    rw [ColumnVec.size_set]
    exact h.blocks
  case size_keys_le =>
    rw [ColumnVec.size_set]
    exact h.size_keys_le
  case size_ids_le => exact h.size_ids_le

/-! ## Taking a row out -/

/-- The entry of a row of the shelf. -/
theorem lookup_eq (h : data.Tracks indexId store epochs shelf opened)
    (hrow : shelf (Idx.idx id) = some (key, value)) (hp : data.map.lookup key = some p)
    (hepoch : id.epoch = epochs (Idx.idx id)) : store.lookup (p, id) = some value :=
  h.holds.lookup_eq (Shelf.place_eq_some hrow hp) hepoch

/-- What `remove_row_from_partition` does when the partition keeps other rows. -/
theorem removeRow_eq_of_ne_zero (h : data.Tracks indexId store epochs shelf opened)
    (hp : data.map.lookup key = some p) (hcount : store.count p - 1 ≠ 0) :
    data.removeRowFromPartition id p =
      (false, { data with
        ids := data.ids.set id none
        sizes := data.sizes.set p (store.count p - 1) }) := by
  unfold removeRowFromPartition
  simp only [h.sizes_get hp, if_neg hcount]

/-- What `remove_row_from_partition` does with the last row of a partition. -/
theorem removeRow_eq_of_zero (h : data.Tracks indexId store epochs shelf opened)
    (hp : data.map.lookup key = some p) (hcount : store.count p - 1 = 0) :
    data.removeRowFromPartition id p =
      (true, { data with
        map := data.map.erase key
        freeIds := data.freeIds ++ [p]
        keys := data.keys.set p none
        ids := data.ids.set id none
        sizes := data.sizes.set p (store.count p - 1) }) := by
  unfold removeRowFromPartition
  simp only [h.sizes_get hp, h.keys_get hp, if_pos hcount]

/-- A row that left is on no shelf, and the row numbers in the vector say so. -/
theorem ids_set (h : data.Tracks indexId store epochs shelf opened)
    (hlt : Idx.idx id < data.ids.size) (a : Option PartitionId)
    (entry : Option (PartitionKey × SplittingValues)) (locate : PartitionKey → Option PartitionId)
    (ha : a = entry.bind fun e => locate e.1)
    (hloc : ∀ i key value, i ≠ Idx.idx id → shelf i = some (key, value) →
      locate key = data.map.lookup key) (i : Nat) :
    (data.ids.set id a).vec[i]?.join =
      (Function.update shelf (Idx.idx id) entry i).bind fun e => locate e.1 := by
  rw [ColumnVec.getElem?_vec_set hlt]
  by_cases hi : i = Idx.idx id
  · rw [if_pos hi, hi, Function.update_self, Option.join_some, ha]
  · rw [if_neg hi, Function.update_of_ne hi, h.ids i]
    cases hrow : shelf i with
    | none => rfl
    | some e => exact (hloc i e.1 e.2 hi hrow).symm

/-- A row of the shelf is inside the vector of the rows. -/
theorem lt_size_ids (h : data.Tracks indexId store epochs shelf opened) {i : Nat}
    (hrow : shelf i = some (key, value)) : i < data.ids.size := by
  obtain ⟨p, hp⟩ := h.exists_lookup hrow
  have hjoin := h.ids i
  rw [hrow, Option.bind_some, hp] at hjoin
  by_contra hge
  rw [List.getElem?_eq_none (not_lt.mp hge)] at hjoin
  simp at hjoin

/-- The sizes after a change of the number of entries of one partition. -/
theorem sizes_set (h : data.Tracks indexId store epochs shelf opened) {store' : Store} {n : Nat}
    (hix : p.indexId = indexId) (hlt : Idx.idx p < data.keys.size) (hn : store'.count p = n)
    (hother : ∀ q, q ≠ p → store'.count q = store.count q) (q : PartitionId)
    (hqix : q.indexId = indexId) (hq : Idx.idx q < data.keys.size) :
    (data.sizes.set p n).get q = some (store'.count q) := by
  rw [ColumnVec.get_set (by rw [h.size_sizes]; exact hlt)]
  split
  · next he => rw [PartitionId.ext_idx he (hqix.trans hix.symm), hn]
  · next he => rw [hother q (fun hqp => he (by rw [hqp])), h.sizes q hqix hq]

/-- Taking a row out of its partition, in the data and in the store. -/
theorem removeRow (h : data.Tracks indexId store epochs shelf opened)
    (hrow : shelf (Idx.idx id) = some (key, value)) (hp : data.map.lookup key = some p)
    (hepoch : id.epoch = epochs (Idx.idx id)) (hopen : opened ≠ some key) :
    (data.removeRowFromPartition id p).2.Tracks indexId (store.erase (p, id)) epochs
        (Function.update shelf (Idx.idx id) none) opened ∧
      ((data.removeRowFromPartition id p).1 = true → Store.count (store.erase (p, id)) p = 0) ∧
      ∀ key', key' ≠ key →
        (data.removeRowFromPartition id p).2.map.lookup key' = data.map.lookup key' := by
  have hix := h.indexId_eq hp
  have hkeys := h.keys_get hp
  have hlt := ColumnVec.lt_size_of_get hkeys
  have hrange := h.lt_size_ids hrow
  have hlook := h.lookup_eq hrow hp hepoch
  have hholds := h.holds.erase (Shelf.place_eq_some hrow hp) hepoch
  rw [← Shelf.place_update_none] at hholds
  have hcount : ∀ q, Store.count (store.erase (p, id)) q + (if p = q then 1 else 0) =
      store.count q := fun q => Store.count_erase hlook q
  have hcountp := hcount p
  rw [if_pos rfl] at hcountp
  have hother : ∀ q, q ≠ p → Store.count (store.erase (p, id)) q = store.count q := by
    intro q hq
    have := hcount q
    rwa [if_neg (Ne.symm hq), Nat.add_zero] at this
  have hsub : ∀ i key' value', Function.update shelf (Idx.idx id) none i = some (key', value') →
      i ≠ Idx.idx id ∧ shelf i = some (key', value') := by
    intro i key' value' hi
    by_cases hii : i = Idx.idx id
    · rw [hii, Function.update_self] at hi
      exact absurd hi (by simp)
    · rw [Function.update_of_ne hii] at hi
      exact ⟨hii, hi⟩
  by_cases hzero : store.count p - 1 = 0
  · -- The row was the last one: the partition ends.
    have hnokey : ∀ i key' value', i ≠ Idx.idx id → shelf i = some (key', value') →
        key' ≠ key := by
      rintro i key' value' hne hi rfl
      have hplace : Shelf.place (Function.update shelf (Idx.idx id) none) data.map.lookup i =
          some (p, value') := by
        refine Shelf.place_eq_some ?_ hp
        rw [Function.update_of_ne hne, hi]
      have hentry := hholds.lookup_mk' hplace ((h.lt_size_ids hi).trans_le h.size_ids_le)
      have hnone := Store.count_eq_zero_iff.mp
        (by omega : Store.count (store.erase (p, id)) p = 0) (PrimaryId.mk' i (epochs i))
      rw [hentry] at hnone
      simp at hnone
    have hloc : ∀ i key' value', i ≠ Idx.idx id → shelf i = some (key', value') →
        (data.map.erase key).lookup key' = data.map.lookup key' :=
      fun i key' value' hne hi => AList.lookup_erase_ne (hnokey i key' value' hne hi)
    rw [h.removeRow_eq_of_zero hp hzero]
    refine ⟨?_, fun _ => by omega, fun key' hne => AList.lookup_erase_ne hne⟩
    constructor
    case mapped =>
      intro key' q
      rw [FiniteMap.lookup_erase_eq, ColumnVec.get_set hlt]
      by_cases hq : Idx.idx q = Idx.idx p
      · rw [if_pos hq]
        split
        · simp
        · next hne =>
          constructor
          · intro hlook'
            have hqp : q = p := PartitionId.ext_idx hq ((h.indexId_eq hlook').trans hix.symm)
            subst hqp
            exact absurd (h.key_inj hlook' hp) hne
          · rintro ⟨-, hk⟩
            simp at hk
      · rw [if_neg hq, ← h.mapped key' q]
        split
        · next heq =>
          subst heq
          constructor
          · intro hk
            simp at hk
          · intro hlook'
            rw [hp] at hlook'
            exact absurd (congrArg Idx.idx (Option.some.inj hlook').symm) hq
        · exact Iff.rfl
    case ids => exact h.ids_set hrange none none _ rfl hloc
    case shelved =>
      intro i key' value' hi
      obtain ⟨hne, hi⟩ := hsub i key' value' hi
      rw [hloc i key' value' hne hi]
      exact h.shelved i key' value' hi
    case occupied =>
      intro key' q hq
      rw [FiniteMap.lookup_erase_eq] at hq
      split at hq
      · simp at hq
      · next hne =>
        refine (h.occupied key' q hq).imp_left ?_
        rintro ⟨i, v, hi⟩
        refine ⟨i, v, ?_⟩
        rw [Function.update_of_ne]
        · exact hi
        · rintro rfl
          rw [hrow] at hi
          exact hne (Prod.mk.inj (Option.some.inj hi)).1.symm
    case holds =>
      have hcongr : Shelf.place (Function.update shelf (Idx.idx id) none)
            (data.map.erase key).lookup =
          Shelf.place (Function.update shelf (Idx.idx id) none) data.map.lookup :=
        Shelf.place_congr fun i key' value' hi =>
          hloc i key' value' (hsub i key' value' hi).1 (hsub i key' value' hi).2
      rw [hcongr]
      exact hholds
    case sizes =>
      intro q hqix hq
      rw [ColumnVec.size_set] at hq
      exact h.sizes_set hix hlt (by omega) hother q hqix hq
    case nodup_free =>
      refine List.nodup_append.mpr ⟨h.nodup_free, List.nodup_singleton p, ?_⟩
      rintro q hq _ hmem rfl
      obtain rfl := List.mem_singleton.mp hmem
      exact h.lookup_ne_of_mem_free hq key hp
    case mem_free =>
      intro q
      rw [List.mem_append, List.mem_singleton, h.mem_free q, ColumnVec.get_set hlt]
      by_cases hq : Idx.idx q = Idx.idx p
      · rw [if_pos hq]
        constructor
        · rintro (⟨hqix, -⟩ | rfl)
          · exact ⟨hqix, rfl⟩
          · exact ⟨hix, rfl⟩
        · rintro ⟨hqix, -⟩
          exact Or.inr (PartitionId.ext_idx hq (hqix.trans hix.symm))
      · rw [if_neg hq]
        exact or_iff_left fun hqp => hq (by rw [hqp])
    case length_free =>
      have hlen := h.length_free
      have hkeysLen := FiniteMap.length_keys_erase hp
      change (data.map.erase key).keys.length + (data.freeIds ++ [p]).length =
        (data.keys.set p none).size
      rw [ColumnVec.size_set, List.length_append, List.length_singleton]
      omega
    case size_sizes => rw [ColumnVec.size_set, ColumnVec.size_set, h.size_sizes]
    case blocks =>
      rw [ColumnVec.size_set]
      exact h.blocks
    case size_keys_le =>
      rw [ColumnVec.size_set]
      exact h.size_keys_le
    case size_ids_le =>
      rw [ColumnVec.size_set]
      exact h.size_ids_le
  · rw [h.removeRow_eq_of_ne_zero hp hzero]
    refine ⟨?_, fun hfalse => absurd hfalse Bool.false_ne_true, fun key' _ => rfl⟩
    constructor
    case mapped => exact h.mapped
    case ids =>
      exact h.ids_set hrange none none _ rfl fun _ _ _ _ _ => rfl
    case shelved =>
      intro i key' value' hi
      exact h.shelved i key' value' (hsub i key' value' hi).2
    case occupied =>
      intro key' q hq
      by_cases hkk : key' = key
      · subst hkk
        obtain rfl := Option.some.inj (hq.symm.trans hp)
        obtain ⟨i, v, hi⟩ := hholds.exists_of_count_pos (p := q) (by omega)
        obtain ⟨key'', hkey'', hloc⟩ := Shelf.place_eq_some_iff.mp hi
        rw [h.key_inj hloc hp] at hkey''
        exact Or.inl ⟨i, v, hkey''⟩
      · refine (h.occupied key' q hq).imp_left ?_
        rintro ⟨i, v, hi⟩
        refine ⟨i, v, ?_⟩
        rw [Function.update_of_ne]
        · exact hi
        · rintro rfl
          rw [hrow] at hi
          exact hkk (Prod.mk.inj (Option.some.inj hi)).1.symm
    case holds => exact hholds
    case sizes => exact h.sizes_set hix hlt (by omega) hother
    case nodup_free => exact h.nodup_free
    case mem_free => exact h.mem_free
    case length_free => exact h.length_free
    case size_sizes => rw [ColumnVec.size_set, h.size_sizes]
    case blocks => exact h.blocks
    case size_keys_le => exact h.size_keys_le
    case size_ids_le =>
      rw [ColumnVec.size_set]
      exact h.size_ids_le

/-! ## Putting a row in -/

/-- Putting a row into a partition, in the data and in the store. -/
theorem insertRow (h : data.Tracks indexId store epochs shelf opened)
    (hrow : shelf (Idx.idx id) = none) (hp : data.map.lookup key = some p)
    (hepoch : id.epoch = epochs (Idx.idx id)) (hrange : Idx.idx id < data.ids.size)
    (hopen : ∀ key', opened = some key' → key' = key) (value : SplittingValues) :
    (data.insertRowIntoPartition id p).Tracks indexId (store.insert (p, id) value) epochs
      (Function.update shelf (Idx.idx id) (some (key, value))) none := by
  have hix := h.indexId_eq hp
  have hlt := ColumnVec.lt_size_of_get (h.keys_get hp)
  have hplace : shelf.place data.map.lookup (Idx.idx id) = none := Shelf.place_eq_none hrow
  have hnone := h.holds.lookup_eq_none hplace p
  have heq : data.insertRowIntoPartition id p =
      { data with
        ids := data.ids.set id (some p)
        sizes := data.sizes.set p (store.count p + 1) } := by
    unfold insertRowIntoPartition
    simp only [h.sizes_get hp]
  have hcount : ∀ q, Store.count (store.insert (p, id) value) q =
      store.count q + if p = q then 1 else 0 := fun q => Store.count_insert hnone value q
  rw [heq]
  constructor
  case mapped => exact h.mapped
  case ids =>
    exact h.ids_set hrange (some p) (some (key, value)) data.map.lookup hp.symm
      fun _ _ _ _ _ => rfl
  case shelved =>
    intro i key' value' hi
    by_cases hii : i = Idx.idx id
    · rw [hii, Function.update_self] at hi
      obtain ⟨rfl, -⟩ := Prod.mk.inj (Option.some.inj hi)
      exact Option.isSome_iff_exists.mpr ⟨p, hp⟩
    · rw [Function.update_of_ne hii] at hi
      exact h.shelved i key' value' hi
  case occupied =>
    intro key' q hq
    left
    by_cases hkk : key' = key
    · exact ⟨Idx.idx id, value, by rw [Function.update_self, hkk]⟩
    · rcases h.occupied key' q hq with ⟨i, v, hi⟩ | hop
      · refine ⟨i, v, ?_⟩
        rw [Function.update_of_ne]
        · exact hi
        · rintro rfl
          rw [hrow] at hi
          simp at hi
      · exact absurd (hopen key' hop) hkk
  case holds =>
    rw [Shelf.place_update_some hp]
    exact h.holds.insert hplace hepoch p value
  case sizes =>
    refine h.sizes_set hix hlt ?_ ?_
    · rw [hcount, if_pos rfl]
    · intro q hq
      rw [hcount, if_neg (Ne.symm hq), Nat.add_zero]
  case nodup_free => exact h.nodup_free
  case mem_free => exact h.mem_free
  case length_free => exact h.length_free
  case size_sizes => rw [ColumnVec.size_set, h.size_sizes]
  case blocks => exact h.blocks
  case size_keys_le => exact h.size_keys_le
  case size_ids_le =>
    rw [ColumnVec.size_set]
    exact h.size_ids_le

/-! ## Changes inside a partition -/

/-- The epoch of a row that is on no shelf is free to change. -/
theorem setEpoch (h : data.Tracks indexId store epochs shelf opened) {i : Nat}
    (hrow : shelf i = none) (epoch : Epoch) :
    data.Tracks indexId store (Function.update epochs i epoch) shelf opened :=
  { h with holds := h.holds.setEpoch (Shelf.place_eq_none hrow) epoch }

/-- Replacing the value of a row inside its partition, under a new epoch. -/
theorem replace (h : data.Tracks indexId store epochs shelf opened)
    (hrow : shelf (Idx.idx id) = some (key, value)) (hp : data.map.lookup key = some p)
    (hepoch : id.epoch = epochs (Idx.idx id)) (epoch : Epoch) (value' : SplittingValues) :
    data.Tracks indexId (AList.insert (p, id.newEpoch epoch) value' (store.erase (p, id)))
      (Function.update epochs (Idx.idx id) epoch)
      (Function.update shelf (Idx.idx id) (some (key, value'))) opened := by
  have hplace : shelf.place data.map.lookup (Idx.idx id) = some (p, value) :=
    Shelf.place_eq_some hrow hp
  have hlook := h.holds.lookup_eq hplace hepoch
  have hself : Function.update (shelf.place data.map.lookup) (Idx.idx id) none
      (Idx.idx (id.newEpoch epoch)) = none := by
    rw [PrimaryId.idx_newEpoch, Function.update_self]
  have hnone := (h.holds.erase hplace hepoch).lookup_eq_none hself p
  have hcount : ∀ q, Store.count
      (AList.insert (p, id.newEpoch epoch) value' (store.erase (p, id))) q = store.count q := by
    intro q
    rw [Store.count_insert hnone, Store.count_erase hlook]
  constructor
  case mapped => exact h.mapped
  case ids =>
    intro i
    rw [h.ids i]
    by_cases hi : i = Idx.idx id
    · rw [hi, Function.update_self, hrow]
      rfl
    · rw [Function.update_of_ne hi]
  case shelved =>
    intro i key' v hi
    by_cases hii : i = Idx.idx id
    · rw [hii, Function.update_self] at hi
      obtain ⟨rfl, -⟩ := Prod.mk.inj (Option.some.inj hi)
      exact h.shelved _ _ _ hrow
    · rw [Function.update_of_ne hii] at hi
      exact h.shelved i key' v hi
  case occupied =>
    intro key' q hq
    refine (h.occupied key' q hq).imp_left ?_
    rintro ⟨i, v, hi⟩
    by_cases hii : i = Idx.idx id
    · rw [hii, hrow] at hi
      obtain ⟨rfl, -⟩ := Prod.mk.inj (Option.some.inj hi)
      exact ⟨Idx.idx id, value', Function.update_self ..⟩
    · exact ⟨i, v, by rw [Function.update_of_ne hii, hi]⟩
  case holds =>
    rw [Shelf.place_update_some hp]
    exact h.holds.replace hplace hepoch epoch value'
  case sizes =>
    intro q hqix hq
    rw [hcount q]
    exact h.sizes q hqix hq
  case nodup_free => exact h.nodup_free
  case mem_free => exact h.mem_free
  case length_free => exact h.length_free
  case size_sizes => exact h.size_sizes
  case blocks => exact h.blocks
  case size_keys_le => exact h.size_keys_le
  case size_ids_le => exact h.size_ids_le

/-! ## Reserving partitions -/

/-- There are no more partitions than rows. -/
theorem length_keys_le (h : data.Tracks indexId store epochs shelf none) :
    data.map.keys.length ≤ data.ids.size := by
  have hnodup : (data.map.keys.map data.map.lookup).Nodup := by
    refine List.Nodup.map_on ?_ data.map.keys_nodup
    intro key hkey key' _ heq
    obtain ⟨p, hp⟩ := FiniteMap.mem_keys_iff.mp hkey
    exact h.key_inj hp (heq ▸ hp)
  have hsub : data.map.keys.map data.map.lookup ⊆ data.ids.vec := by
    intro a ha
    obtain ⟨key, hkey, rfl⟩ := List.mem_map.mp ha
    obtain ⟨p, hp⟩ := FiniteMap.mem_keys_iff.mp hkey
    rcases h.occupied key p hp with ⟨i, value, hi⟩ | hnone
    · have hjoin := h.ids i
      rw [hi, Option.bind_some, hp] at hjoin
      rw [hp]
      exact List.mem_of_getElem? (Option.join_eq_some_iff.mp hjoin)
    · simp at hnone
  have hle := (List.subperm_of_subset hnodup hsub).length_le
  rwa [List.length_map] at hle

/-- The block of identifiers that follows the ones in use. -/
theorem newPartitionIds_eq (indexId : IndexId) {start n : Nat}
    (h : start + n ≤ PartitionId.max + 1) :
    Index.newPartitionIds indexId start n =
      (.ok (), (List.range' start n).map (PartitionId.mk' · indexId)) := by
  induction n generalizing start with
  | zero => rfl
  | succ n ih =>
    have htry : PartitionId.tryNew start indexId = .ok (PartitionId.mk' start indexId) :=
      if_neg (by omega)
    unfold Index.newPartitionIds
    simp only [htry, ih (by omega : start + 1 + n ≤ PartitionId.max + 1)]
    rfl

/-- When no identifier is free, a whole block fits behind the ones in use. -/
theorem block_le (h : data.Tracks indexId store epochs shelf none) (hfree : data.freeIds = []) :
    data.keys.size + Index.incrementSize ≤ PartitionId.max + 1 := by
  have hlen := h.length_free
  have hle := h.length_keys_le
  have hids := h.size_ids_le
  rw [hfree, List.length_nil, Nat.add_zero] at hlen
  obtain ⟨c, hc⟩ := h.blocks
  have hval : Index.incrementSize = 256 := rfl
  have hmax : PartitionId.max = 2 ^ 48 - 1 := rfl
  have hres : PrimaryId.reserved = 2 ^ 48 - 1 := rfl
  rw [hval] at hc ⊢
  omega

/-- Reserving a block of partitions keeps every row. -/
theorem resize (h : data.Tracks indexId store epochs shelf none) (hfree : data.freeIds = []) :
    LocalData.Tracks
      { data with
        freeIds := (List.range' data.keys.size Index.incrementSize).map (PartitionId.mk' · indexId)
        keys := data.keys.resizeWith (data.keys.size + Index.incrementSize) none
        sizes := data.sizes.resizeWith (data.keys.size + Index.incrementSize) 0 }
      indexId store epochs shelf none := by
  have hblock := h.block_le hfree
  have hlen := h.length_free
  rw [hfree, List.length_nil, Nat.add_zero] at hlen
  have hle : data.keys.size ≤ data.keys.size + Index.incrementSize := Nat.le_add_right _ _
  -- A position is old and used, or new and without a key.
  have hget := fun q : PartitionId =>
    ColumnVec.get_resizeWith hle (none : Option PartitionKey) q
  have hmem : ∀ q, q ∈ (List.range' data.keys.size Index.incrementSize).map
      (PartitionId.mk' · indexId) ↔ q.indexId = indexId ∧ data.keys.size ≤ Idx.idx q ∧
        Idx.idx q < data.keys.size + Index.incrementSize := by
    intro q
    rw [List.mem_map]
    constructor
    · rintro ⟨i, hi, rfl⟩
      rw [List.mem_range'_1] at hi
      have hi' : i ≤ PartitionId.max := by omega
      rw [PartitionId.idx_mk' hi', PartitionId.indexId_mk' hi']
      exact ⟨rfl, hi⟩
    · rintro ⟨hqix, hq⟩
      have hq' : Idx.idx q ≤ PartitionId.max := by omega
      refine ⟨Idx.idx q, List.mem_range'_1.mpr hq, PartitionId.ext_idx ?_ ?_⟩
      · exact PartitionId.idx_mk' hq' indexId
      · rw [PartitionId.indexId_mk' hq', hqix]
  constructor
  case mapped =>
    intro key p
    rw [h.mapped key p, hget p]
    refine and_congr_right fun _ => ?_
    split
    · exact Iff.rfl
    · next hq =>
      have hnone : data.keys.get p = none := by
        rw [← Option.not_isSome_iff_eq_none, ColumnVec.get_isSome_iff]
        exact hq
      rw [hnone]
      split <;> simp
  case ids => exact h.ids
  case shelved => exact h.shelved
  case occupied => exact h.occupied
  case holds => exact h.holds
  case sizes =>
    intro q hqix hq
    rw [ColumnVec.size_resizeWith] at hq
    have hsize := h.size_sizes
    rw [ColumnVec.get_resizeWith (by omega) 0 q, hsize]
    by_cases hlt : Idx.idx q < data.keys.size
    · rw [if_pos hlt]
      exact h.sizes q hqix hlt
    · rw [if_neg hlt, if_pos hq]
      refine congrArg some (h.count_eq_zero fun key hp => ?_).symm
      exact absurd (ColumnVec.lt_size_of_get (h.keys_get hp)) hlt
  case nodup_free =>
    refine List.Nodup.map_on ?_ List.nodup_range'
    intro i hi j hj heq
    rw [List.mem_range'_1] at hi hj
    have hidx := congrArg Idx.idx heq
    rwa [PartitionId.idx_mk' (by omega), PartitionId.idx_mk' (by omega)] at hidx
  case mem_free =>
    intro q
    rw [hmem q, hget q]
    refine and_congr_right fun hqix => ?_
    by_cases hlt : Idx.idx q < data.keys.size
    · -- Every old position has a key, as no identifier is free.
      have hused := (h.mem_free q).not.mp (by rw [hfree]; exact List.not_mem_nil)
      rw [if_pos hlt]
      constructor
      · intro hq
        omega
      · intro hk
        exact absurd ⟨hqix, hk⟩ hused
    · rw [if_neg hlt]
      split
      · next hq => exact ⟨fun _ => rfl, fun _ => ⟨not_lt.mp hlt, hq⟩⟩
      · next hq =>
        constructor
        · intro hq'
          exact absurd hq'.2 hq
        · intro hk
          simp at hk
  case length_free =>
    change data.map.keys.length + ((List.range' data.keys.size Index.incrementSize).map
      (PartitionId.mk' · indexId)).length = _
    rw [ColumnVec.size_resizeWith, List.length_map, List.length_range', hlen]
  case size_sizes => rw [ColumnVec.size_resizeWith, ColumnVec.size_resizeWith]
  case blocks =>
    rw [ColumnVec.size_resizeWith]
    exact Nat.dvd_add h.blocks (dvd_refl _)
  case size_keys_le =>
    rw [ColumnVec.size_resizeWith]
    exact hblock
  case size_ids_le => exact h.size_ids_le

/-- Making room for more rows keeps every row. -/
theorem resizeIds (h : data.Tracks indexId store epochs shelf opened) {n : Nat}
    (hn : data.ids.size ≤ n) (hle : n ≤ PrimaryId.reserved) :
    LocalData.Tracks { data with ids := data.ids.resizeWith n none } indexId store epochs shelf
      opened := by
  refine { h with ids := ?_, size_ids_le := ?_ }
  · intro i
    rw [← h.ids i, ColumnVec.getElem?_resizeWith hn]
    by_cases hi : i < data.ids.size
    · rw [if_pos hi]
    · rw [if_neg hi, ColumnVec.getElem?_of_size_le (not_lt.mp hi)]
      split <;> rfl
  · rw [ColumnVec.size_resizeWith]
    exact hle

end Tracks

end LocalData

end VectorStore
