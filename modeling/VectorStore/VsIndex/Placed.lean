import VectorStore.Foundation.Deferred
import VectorStore.VsIndex.Actor

/-!
# Partitions on shelves

An actor keeps its partitions behind shared pointers: a partition that was dropped from the map lives
on while closures refer to it, and the next one with its id is another one.  The partitions are
counted in the order of their creation.  `Placed` says that the contents of the partitions in the
map are the vectors of the index, and that a partition out of the map is empty.
-/

namespace VectorStore

/-- The vectors of an index, partition by partition.  `ids` are the ids of the partitions in the
order of their creation, `partitions` is the map of those in use. -/
structure Placed (ids : List PartitionId) (partitions : AList fun _ : PartitionId => ℕ)
    (contents : ℕ × PrimaryId → Option Vector) (vectors : Vectors) : Prop where
  mapped : ∀ p a, partitions.lookup p = some a → ids[a]? = some p
  entry : ∀ p a, partitions.lookup p = some a → ∀ id, contents (a, id) = vectors.lookup (p, id)
  unmapped : ∀ p, partitions.lookup p = none → ∀ id, vectors.lookup (p, id) = none
  occupied : ∀ a id v, contents (a, id) = some v → ∃ p, partitions.lookup p = some a

namespace Placed

variable {ids : List PartitionId} {partitions : AList fun _ : PartitionId => ℕ}
  {contents : ℕ × PrimaryId → Option Vector} {vectors vectors' : Vectors} {p : PartitionId} {a : ℕ}
  {id : PrimaryId}

/-- No partition yet. -/
theorem empty : Placed [] ∅ (fun _ => none) ∅ where
  mapped p a h := by
    rw [AList.lookup_empty] at h
    cases h
  entry p a h := by
    rw [AList.lookup_empty] at h
    cases h
  unmapped _ _ _ := AList.lookup_empty _
  occupied _ _ _ h := by cases h

/-- The vectors matter through what is found under their keys. -/
theorem congr (h : Placed ids partitions contents vectors)
    (hlookup : ∀ key, vectors'.lookup key = vectors.lookup key) :
    Placed ids partitions contents vectors' where
  mapped := h.mapped
  entry p a hp id := (h.entry p a hp id).trans (hlookup _).symm
  unmapped p hp id := (hlookup _).trans (h.unmapped p hp id)
  occupied := h.occupied

/-- A partition is created. -/
theorem create (h : Placed ids partitions contents vectors) (hp : partitions.lookup p = none) :
    Placed (ids ++ [p]) (partitions.insert p ids.length) contents vectors := by
  have hold : ∀ {q a}, partitions.lookup q = some a →
      (partitions.insert p ids.length).lookup q = some a := by
    intro q a hq
    rw [FiniteMap.lookup_insert_eq, if_neg, hq]
    rintro rfl
    rw [hp] at hq
    cases hq
  refine ⟨?_, ?_, ?_, ?_⟩
  · intro q a hq
    rw [FiniteMap.lookup_insert_eq] at hq
    split at hq
    · next heq =>
      cases hq
      rw [List.getElem?_append_right le_rfl, Nat.sub_self, heq]
      rfl
    · have hget := h.mapped q a hq
      rw [List.getElem?_append_left (List.getElem?_eq_some_iff.mp hget).1, hget]
  · intro q a hq id
    rw [FiniteMap.lookup_insert_eq] at hq
    split at hq
    · next heq =>
      cases hq
      rw [heq, h.unmapped p hp id]
      cases hv : contents (ids.length, id) with
      | none => rfl
      | some v =>
        obtain ⟨q', hq'⟩ := h.occupied _ id v hv
        have hlt := (List.getElem?_eq_some_iff.mp (h.mapped q' _ hq')).1
        exact absurd hlt (lt_irrefl _)
    · exact h.entry q a hq id
  · intro q hq id
    rw [FiniteMap.lookup_insert_eq] at hq
    split at hq
    · cases hq
    · exact h.unmapped q hq id
  · intro a id v hv
    obtain ⟨q, hq⟩ := h.occupied a id v hv
    exact ⟨q, hold hq⟩

/-- A vector is written into a partition, or removed from it. -/
theorem write (h : Placed ids partitions contents vectors) (hp : partitions.lookup p = some a)
    {value : Option Vector}
    (hlookup : ∀ key, vectors'.lookup key = if key = (p, id) then value else vectors.lookup key) :
    Placed ids partitions (Write.apply contents ⟨(a, id), value⟩) vectors' := by
  have hinj : ∀ {q}, partitions.lookup q = some a → q = p := fun hq =>
    Option.some.inj ((h.mapped _ a hq).symm.trans (h.mapped p a hp))
  refine ⟨h.mapped, ?_, ?_, ?_⟩
  · intro q b hq jd
    rw [hlookup]
    by_cases hkey : (b, jd) = (a, id)
    · obtain ⟨rfl, rfl⟩ := Prod.mk.inj hkey
      rw [hinj hq, if_pos rfl]
      exact Write.apply_self contents ⟨(b, jd), value⟩
    · rw [Write.apply_of_ne contents hkey, h.entry q b hq jd, if_neg]
      intro heq
      obtain ⟨rfl, rfl⟩ := Prod.mk.inj heq
      rw [hp] at hq
      exact hkey (by rw [Option.some.inj hq])
  · intro q hq jd
    rw [hlookup, if_neg, h.unmapped q hq jd]
    intro heq
    rw [(Prod.mk.inj heq).1, hp] at hq
    cases hq
  · intro b jd v hv
    by_cases hkey : (b, jd) = (a, id)
    · exact ⟨p, by rw [(Prod.mk.inj hkey).1, hp]⟩
    · rw [Write.apply_of_ne contents hkey] at hv
      exact h.occupied b jd v hv

/-- A vector is added to a partition in use. -/
theorem addVector (h : Placed ids partitions contents vectors) (hp : partitions.lookup p = some a)
    (id : PrimaryId) (v : Vector) :
    Placed ids partitions (Write.apply contents ⟨(a, id), some v⟩)
      (vectors.apply (.addVector p id v)) :=
  h.write hp (FiniteMap.lookup_insert_eq vectors (p, id) · v)

/-- A vector is removed from a partition in use. -/
theorem removeVector (h : Placed ids partitions contents vectors)
    (hp : partitions.lookup p = some a) (id : PrimaryId) :
    Placed ids partitions (Write.apply contents ⟨(a, id), none⟩)
      (vectors.apply (.removeVector p id)) :=
  h.write hp (FiniteMap.lookup_erase_eq vectors (p, id))

/-- There is nothing to remove from a partition that is not in use. -/
theorem removeVector_of_none (h : Placed ids partitions contents vectors)
    (hp : partitions.lookup p = none) (id : PrimaryId) :
    Placed ids partitions contents (vectors.apply (.removeVector p id)) := by
  refine h.congr fun key => ?_
  refine (FiniteMap.lookup_erase_eq vectors (p, id) key).trans ?_
  split
  · next heq => rw [heq, h.unmapped p hp id]
  · rfl

/-- A partition without vectors is dropped. -/
theorem removePartition (h : Placed ids partitions contents vectors)
    (hadmits : vectors.Admits (.removePartition p)) :
    Placed ids (partitions.erase p) contents (vectors.apply (.removePartition p)) := by
  have hlookup := FiniteMap.lookup_erase_eq partitions p
  rw [Vectors.apply_removePartition hadmits]
  refine ⟨?_, ?_, ?_, ?_⟩
  · intro q a hq
    rw [hlookup] at hq
    split at hq
    · cases hq
    · exact h.mapped q a hq
  · intro q a hq id
    rw [hlookup] at hq
    split at hq
    · cases hq
    · exact h.entry q a hq id
  · intro q hq id
    rw [hlookup] at hq
    split at hq
    · next heq => rw [heq, hadmits id]
    · exact h.unmapped q hq id
  · intro a id v hv
    obtain ⟨q, hq⟩ := h.occupied a id v hv
    refine ⟨q, ?_⟩
    rw [hlookup, if_neg, hq]
    rintro rfl
    rw [h.entry q a hq id, hadmits id] at hv
    cases hv

/-! ## The number of vectors -/

/-- The vectors of a partition, under its id. -/
abbrev Vault := PartitionId × AList fun _ : PrimaryId => Vector

/-- The contents of a list of partitions. -/
def contentsOf (shelves : List Vault) : ℕ × PrimaryId → Option Vector :=
  fun key => shelves[key.1]?.bind fun shelf => shelf.2.lookup key.2

variable {shelves : List Vault}

/-- The entries of the partitions of an index, one partition after the other. -/
def entries (shelves : List Vault) (indexId : IndexId) : List (PartitionId × PrimaryId) :=
  shelves.flatMap fun shelf =>
    if shelf.1.indexId = indexId then shelf.2.keys.map (shelf.1, ·) else []

theorem mem_entries {indexId : IndexId} :
    (p, id) ∈ entries shelves indexId ↔ p.indexId = indexId ∧
      ∃ (a : ℕ) (shelf : Vault) (v : Vector), shelves[a]? = some shelf ∧ shelf.1 = p ∧ shelf.2.lookup id = some v := by
  unfold entries
  rw [List.mem_flatMap]
  constructor
  · rintro ⟨shelf, hmem, hentry⟩
    obtain ⟨a, ha⟩ := List.getElem?_of_mem hmem
    split at hentry
    · next hindex =>
      obtain ⟨jd, hjd, heq⟩ := List.mem_map.mp hentry
      obtain ⟨rfl, rfl⟩ := Prod.mk.inj heq
      obtain ⟨v, hv⟩ := FiniteMap.mem_keys_iff.mp hjd
      exact ⟨hindex, a, shelf, v, ha, rfl, hv⟩
    · cases hentry
  · rintro ⟨hindex, a, shelf, v, ha, rfl, hv⟩
    refine ⟨shelf, List.mem_of_getElem? ha, ?_⟩
    rw [if_pos hindex]
    exact List.mem_map_of_mem (FiniteMap.mem_keys_iff.mpr ⟨v, hv⟩)

/-- What is found on a shelf is in a partition in use. -/
theorem lookup_of_shelf (h : Placed (shelves.map Prod.fst) partitions (contentsOf shelves) vectors)
    {shelf : Vault} (ha : shelves[a]? = some shelf)
    {v : Vector} (hv : shelf.2.lookup id = some v) :
    partitions.lookup shelf.1 = some a ∧ vectors.lookup (shelf.1, id) = some v := by
  have hcontents : contentsOf shelves (a, id) = some v := by
    simp only [contentsOf, ha, Option.bind_some, hv]
  obtain ⟨q, hq⟩ := h.occupied a id v hcontents
  have hget := h.mapped q a hq
  rw [List.getElem?_map, ha, Option.map_some] at hget
  cases hget
  exact ⟨hq, (h.entry _ a hq id).symm.trans hcontents⟩

/-- No entry is on two shelves. -/
theorem nodup_entries (h : Placed (shelves.map Prod.fst) partitions (contentsOf shelves) vectors)
    (indexId : IndexId) : (entries shelves indexId).Nodup := by
  refine List.nodup_flatMap.mpr ⟨?_, ?_⟩
  · intro shelf _
    split
    · exact shelf.2.keys_nodup.map fun _ _ heq => (Prod.mk.inj heq).2
    · exact List.nodup_nil
  · rw [List.pairwise_iff_getElem]
    intro i j hi hj hij
    rintro ⟨q, jd⟩ hqi hqj
    have hfind : ∀ {k} (hk : k < shelves.length), (q, jd) ∈
        (if (shelves[k]).1.indexId = indexId then (shelves[k]).2.keys.map ((shelves[k]).1, ·)
          else []) → partitions.lookup q = some k := by
      intro k hk hmem
      split at hmem
      · obtain ⟨id, hid, heq⟩ := List.mem_map.mp hmem
        obtain ⟨rfl, rfl⟩ := Prod.mk.inj heq
        obtain ⟨v, hv⟩ := FiniteMap.mem_keys_iff.mp hid
        exact (h.lookup_of_shelf (List.getElem?_eq_getElem hk) hv).1
      · cases hmem
    have heq := (hfind hi hqi).symm.trans (hfind hj hqj)
    exact absurd (Option.some.inj heq) hij.ne

/-- The shelves of an index hold as many vectors as the index has. -/
theorem sum_shelves (h : Placed (shelves.map Prod.fst) partitions (contentsOf shelves) vectors)
    (indexId : IndexId) :
    (shelves.map fun shelf => if shelf.1.indexId = indexId then shelf.2.keys.length else 0).sum =
      vectors.count indexId := by
  have hlength : (entries shelves indexId).length =
      (shelves.map fun shelf =>
        if shelf.1.indexId = indexId then shelf.2.keys.length else 0).sum := by
    unfold entries
    rw [List.length_flatMap]
    refine congrArg List.sum (List.map_congr_left fun shelf _ => ?_)
    split
    · rw [List.length_map]
    · rfl
  have hperm : (entries shelves indexId).Perm
      (vectors.keys.filter fun key => key.1.indexId = indexId) := by
    refine (List.perm_ext_iff_of_nodup (h.nodup_entries indexId)
      (vectors.keys_nodup.filter _)).mpr ?_
    rintro ⟨q, jd⟩
    rw [mem_entries, List.mem_filter, FiniteMap.mem_keys_iff, decide_eq_true_eq]
    constructor
    · rintro ⟨hindex, a, shelf, v, ha, rfl, hv⟩
      exact ⟨⟨v, (h.lookup_of_shelf ha hv).2⟩, hindex⟩
    · rintro ⟨⟨v, hv⟩, hindex⟩
      refine ⟨hindex, ?_⟩
      cases hq : partitions.lookup q with
      | none =>
        rw [h.unmapped q hq jd] at hv
        cases hv
      | some a =>
        have hget := h.mapped q a hq
        rw [List.getElem?_map, Option.map_eq_some_iff] at hget
        obtain ⟨shelf, ha, rfl⟩ := hget
        have hentry := h.entry shelf.1 a hq jd
        simp only [contentsOf, ha, Option.bind_some, hv] at hentry
        exact ⟨a, shelf, v, ha, rfl, hentry⟩
  rw [← hlength, hperm.length_eq, Vectors.count, FiniteMap.countKeys, List.countP_eq_length_filter]

end Placed

end VectorStore
