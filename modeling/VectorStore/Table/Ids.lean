import VectorStore.Value

/-!
# Identifiers of rows, indexes and partitions

A `PrimaryId` packs the index of a row and its epoch into one 64-bit word, a `PartitionId` the
index of a partition and the id of its index.  Both use the low 48 bits for the index, so the
packing is proved once, for words, and the two kinds of ids read it back.
-/

namespace VectorStore

/-! ## Words with a tag above a 48-bit index -/

namespace TaggedWord

/-- The mask of the low 48 bits: `PrimaryId::RESERVED` and `PartitionId::MAX`. -/
def mask : BitVec 64 := ~~~(0xffff#64 <<< 48)

/-- The word with the given tag and index. -/
def pack (tag : BitVec 16) (idx : Nat) : BitVec 64 :=
  tag.setWidth 64 <<< 48 ||| BitVec.ofNat 64 idx

/-- The word with its tag replaced. -/
def retag (word : BitVec 64) (tag : BitVec 16) : BitVec 64 :=
  word &&& mask ||| tag.setWidth 64 <<< 48

/-- The tag of a word. -/
def tag (word : BitVec 64) : BitVec 16 := (word >>> 48).setWidth 16

/-- The index of a word. -/
def idx (word : BitVec 64) : Nat := (word &&& mask).toNat

/-- The index is the word modulo `2 ^ 48`. -/
theorem idx_eq (w : BitVec 64) : idx w = w.toNat % 2 ^ 48 := by
  have hmask : mask.toNat = 2 ^ 48 - 1 := by decide
  rw [idx, BitVec.toNat_and, hmask, Nat.and_two_pow_sub_one_eq_mod]

/-- Indexes are below `2 ^ 48`. -/
theorem idx_lt (w : BitVec 64) : idx w < 2 ^ 48 := by
  rw [idx_eq]
  exact Nat.mod_lt _ (by decide)

/-- The tag is the word divided by `2 ^ 48`. -/
theorem toNat_tag (w : BitVec 64) : (tag w).toNat = w.toNat / 2 ^ 48 := by
  have hw : w.toNat < 2 ^ 64 := w.isLt
  rw [tag, BitVec.toNat_setWidth, BitVec.toNat_ushiftRight, Nat.shiftRight_eq_div_pow]
  omega

/-- A tag shifted above the index. -/
theorem toNat_shift_tag (t : BitVec 16) :
    (t.setWidth 64 <<< 48 : BitVec 64).toNat = t.toNat * 2 ^ 48 := by
  have ht : t.toNat < 2 ^ 16 := t.isLt
  rw [BitVec.toNat_shiftLeft, BitVec.toNat_setWidth, Nat.shiftLeft_eq]
  omega

/-- A packed word is the tag times `2 ^ 48` plus the index. -/
theorem toNat_pack {t : BitVec 16} {i : Nat} (hi : i < 2 ^ 48) :
    (pack t i).toNat = t.toNat * 2 ^ 48 + i := by
  rw [pack, BitVec.toNat_or, toNat_shift_tag, BitVec.toNat_ofNat,
    Nat.mod_eq_of_lt (by omega : i < 2 ^ 64), mul_comm, Nat.two_pow_add_eq_or_of_lt hi]

/-- A retagged word is the new tag times `2 ^ 48` plus the old index. -/
theorem toNat_retag (w : BitVec 64) (t : BitVec 16) :
    (retag w t).toNat = t.toNat * 2 ^ 48 + idx w := by
  have hi : idx w < 2 ^ 48 := idx_lt w
  rw [retag, BitVec.toNat_or, toNat_shift_tag, ← idx, Nat.or_comm, mul_comm,
    Nat.two_pow_add_eq_or_of_lt hi]

theorem idx_pack {t : BitVec 16} {i : Nat} (hi : i < 2 ^ 48) : idx (pack t i) = i := by
  rw [idx_eq, toNat_pack hi]
  omega

theorem tag_pack {t : BitVec 16} {i : Nat} (hi : i < 2 ^ 48) : tag (pack t i) = t := by
  refine BitVec.eq_of_toNat_eq ?_
  rw [toNat_tag, toNat_pack hi]
  omega

theorem idx_retag (w : BitVec 64) (t : BitVec 16) : idx (retag w t) = idx w := by
  have hi : idx w < 2 ^ 48 := idx_lt w
  rw [idx_eq (retag w t), toNat_retag]
  omega

theorem tag_retag (w : BitVec 64) (t : BitVec 16) : tag (retag w t) = t := by
  have hi : idx w < 2 ^ 48 := idx_lt w
  refine BitVec.eq_of_toNat_eq ?_
  rw [toNat_tag, toNat_retag]
  omega

/-- A word is determined by its tag and its index. -/
theorem eq_of_tag_eq_of_idx_eq {w v : BitVec 64} (ht : tag w = tag v) (hi : idx w = idx v) :
    w = v := by
  have ht' : w.toNat / 2 ^ 48 = v.toNat / 2 ^ 48 := by
    rw [← toNat_tag, ← toNat_tag, ht]
  rw [idx_eq, idx_eq] at hi
  refine BitVec.eq_of_toNat_eq ?_
  omega

end TaggedWord

/-- Types whose values index the column vectors. -/
class Idx (ι : Type) where
  /-- The position a value stands for. -/
  idx : ι → Nat

/-! ## Rows -/

/-- The counter of updates of a row. -/
structure Epoch where
  val : BitVec 16
deriving DecidableEq

namespace Epoch

/-- The first epoch. -/
def new : Epoch := ⟨0⟩

/-- The next epoch; after the last one the first one follows. -/
def next (epoch : Epoch) : Epoch :=
  if epoch.val = 0xffff#16 then ⟨0⟩ else ⟨epoch.val + 1⟩

/-- An epoch is never its own successor. -/
theorem next_ne (epoch : Epoch) : epoch.next ≠ epoch := by
  obtain ⟨v⟩ := epoch
  unfold next
  split
  · next h =>
    simp only at h
    subst h
    decide
  · intro h
    have h1 : v + 1 = v := congrArg val h
    have h2 : (v + 1).toNat = v.toNat := congrArg BitVec.toNat h1
    rw [BitVec.toNat_add] at h2
    have := v.isLt
    simp at h2
    omega

end Epoch

/-- The identifier of a row: its index and its epoch. -/
structure PrimaryId where
  word : BitVec 64
deriving DecidableEq

namespace PrimaryId

/-- `PrimaryId::RESERVED`, the first index no row has. -/
def reserved : Nat := 2 ^ 48 - 1

instance : Idx PrimaryId := ⟨fun id => TaggedWord.idx id.word⟩

/-- The epoch of an identifier. -/
def epoch (id : PrimaryId) : Epoch := ⟨TaggedWord.tag id.word⟩

/-- The identifier with another epoch. -/
def newEpoch (id : PrimaryId) (epoch : Epoch) : PrimaryId :=
  ⟨TaggedWord.retag id.word epoch.val⟩

/-- The identifier with the given index and epoch. -/
def mk' (idx : Nat) (epoch : Epoch) : PrimaryId := ⟨TaggedWord.pack epoch.val idx⟩

/-- `PrimaryId::try_new`. -/
def tryNew (idx : Nat) (epoch : Epoch) : Except Failure PrimaryId :=
  if idx > reserved - 1 then .error (.error s!"PrimaryId is too large: {idx}")
  else .ok (mk' idx epoch)

@[simp] theorem idx_newEpoch (id : PrimaryId) (e : Epoch) :
    Idx.idx (id.newEpoch e) = Idx.idx id :=
  TaggedWord.idx_retag _ _

@[simp] theorem epoch_newEpoch (id : PrimaryId) (e : Epoch) : (id.newEpoch e).epoch = e :=
  congrArg Epoch.mk (TaggedWord.tag_retag _ _)

theorem idx_mk' {i : Nat} (hi : i < reserved) (e : Epoch) : Idx.idx (mk' i e) = i :=
  TaggedWord.idx_pack (hi.trans (by decide))

theorem epoch_mk' {i : Nat} (hi : i < reserved) (e : Epoch) : (mk' i e).epoch = e :=
  congrArg Epoch.mk (TaggedWord.tag_pack (hi.trans (by decide)))

/-- An identifier is determined by its index and its epoch. -/
theorem ext_idx {a b : PrimaryId} (hi : Idx.idx a = Idx.idx b) (he : a.epoch = b.epoch) :
    a = b := by
  obtain ⟨w⟩ := a
  obtain ⟨v⟩ := b
  exact congrArg mk (TaggedWord.eq_of_tag_eq_of_idx_eq (congrArg Epoch.val he) hi)

end PrimaryId

/-! ## Indexes and partitions -/

/-- The identifier of an index of a table. -/
structure IndexId where
  val : BitVec 16
deriving DecidableEq

namespace IndexId

/-- `IndexId::GLOBAL_BIT`. -/
def globalBit : BitVec 16 := 1#16 <<< 15

/-- `IndexId::is_global`. -/
def isGlobal (id : IndexId) : Bool := id.val &&& globalBit ≠ 0

/-- `IndexId::MAX`. -/
def max : BitVec 16 := 0xffff#16 &&& ~~~globalBit

/-- `IndexId::local`. -/
def ofLocal (id : BitVec 16) : Except Failure IndexId :=
  if id > max then .error (.error s!"Base value {id.toNat} is too large for local IndexId")
  else .ok ⟨id⟩

/-- `IndexId::global`. -/
def ofGlobal (id : BitVec 16) : Except Failure IndexId :=
  if id > max then .error (.error s!"Base value {id.toNat} is too large for global IndexId")
  else .ok ⟨id ||| globalBit⟩

end IndexId

/-- The generator of the ids of the indexes of a table. -/
structure IndexIdGenerator where
  next : BitVec 16

namespace IndexIdGenerator

/-- `IndexIdGenerator::new`. -/
def new : IndexIdGenerator := ⟨0⟩

/-- `IndexIdGenerator::next`: the next id and the generator after it. -/
def nextId (generator : IndexIdGenerator) (isGlobal : Bool) :
    Except Failure (IndexId × IndexIdGenerator) :=
  if generator.next = IndexId.max then .error (.error "No more IndexIds available")
  else do
    let indexId ← if isGlobal then IndexId.ofGlobal generator.next
      else IndexId.ofLocal generator.next
    return (indexId, ⟨generator.next + 1⟩)

end IndexIdGenerator

/-- The identifier of a partition of an index. -/
structure PartitionId where
  word : BitVec 64
deriving DecidableEq

namespace PartitionId

/-- `PartitionId::MAX`, the greatest index of a partition. -/
def max : Nat := 2 ^ 48 - 1

instance : Idx PartitionId := ⟨fun id => TaggedWord.idx id.word⟩

/-- The index a partition belongs to. -/
def indexId (id : PartitionId) : IndexId := ⟨TaggedWord.tag id.word⟩

/-- The identifier with the given index and owner. -/
def mk' (idx : Nat) (indexId : IndexId) : PartitionId := ⟨TaggedWord.pack indexId.val idx⟩

/-- `PartitionId::try_new`. -/
def tryNew (idx : Nat) (indexId : IndexId) : Except Failure PartitionId :=
  if idx > max then .error (.error s!"PartitionId is too large: {idx}")
  else .ok (mk' idx indexId)

/-- `PartitionId::global`, the only partition of a global index. -/
def global (indexId : IndexId) : PartitionId := mk' 0 indexId

theorem idx_mk' {i : Nat} (hi : i ≤ max) (ix : IndexId) : Idx.idx (mk' i ix) = i :=
  TaggedWord.idx_pack (lt_of_le_of_lt hi (by decide))

theorem indexId_mk' {i : Nat} (hi : i ≤ max) (ix : IndexId) : (mk' i ix).indexId = ix :=
  congrArg IndexId.mk (TaggedWord.tag_pack (lt_of_le_of_lt hi (by decide)))

/-- An identifier is determined by its index and its owner. -/
theorem ext_idx {a b : PartitionId} (hi : Idx.idx a = Idx.idx b) (hx : a.indexId = b.indexId) :
    a = b := by
  obtain ⟨w⟩ := a
  obtain ⟨v⟩ := b
  exact congrArg mk (TaggedWord.eq_of_tag_eq_of_idx_eq (congrArg IndexId.val hx) hi)

end PartitionId

end VectorStore
