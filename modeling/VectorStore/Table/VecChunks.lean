import Mathlib.Data.PNat.Basic
import VectorStore.Foundation.Bytes
import VectorStore.Table.Index

/-!
# Chunks in a vector of bytes

The epochs and timestamps of the rows lie in one vector of bytes, in chunks of one size.  A view of a
chunk reads and writes the bytes of its range.
-/

namespace VectorStore

namespace Packed

/-! ## The vector -/

/-- The `Chunk` trait.  `bytes` is what an exclusive view leaves in the range it borrows. -/
class Chunk (T : Type) where
  Shared : Type
  Exclusive : Type
  size : T → ℕ+
  fillDefault : T → List UInt8 → Option (List UInt8)
  get : T → List UInt8 → Option Shared
  getMut : T → List UInt8 → Option Exclusive
  bytes : Exclusive → List UInt8

structure VecChunks (T : Type) where
  vec : List UInt8
  chunkSize : ℕ
  chunk : T

namespace VecChunks

variable {T : Type} [Chunk T]

/-- `VecChunks::new`. -/
def new (chunk : T) : VecChunks T := ⟨[], Chunk.size chunk, chunk⟩

omit [Chunk T] in
/-- The number of chunks. -/
def len (v : VecChunks T) : ℕ := v.vec.length / v.chunkSize

/-- `VecChunks::resize`. -/
def resize (v : VecChunks T) (size : ℕ) : Except Failure (VecChunks T) :=
  let len := v.len
  if size ≤ len then .ok { v with vec := v.vec.take (size * v.chunkSize) }
  else
    match Chunk.fillDefault v.chunk (List.replicate v.chunkSize 0) with
    | none => .error (.panic "chunk_bytes is sized to chunk_size")
    | some chunkBytes =>
      .ok { v with vec := v.vec ++ (List.replicate (size - len) chunkBytes).flatten }

/-- `VecChunks::get`. -/
def get (v : VecChunks T) (idx : ℕ) : Option (Chunk.Shared T) :=
  if idx ≥ v.len then none
  else Chunk.get v.chunk (slice (idx * v.chunkSize) ((idx + 1) * v.chunkSize) v.vec)

/-- `VecChunks::get_mut`. -/
def getMut (v : VecChunks T) (idx : ℕ) : Option (Chunk.Exclusive T) :=
  if idx ≥ v.len then none
  else Chunk.getMut v.chunk (slice (idx * v.chunkSize) ((idx + 1) * v.chunkSize) v.vec)

/-- The vector after a view of a chunk was written through. -/
def putBack (v : VecChunks T) (idx : ℕ) (view : Chunk.Exclusive T) : VecChunks T :=
  { v with vec := splice (idx * v.chunkSize) (Chunk.bytes view) v.vec }

end VecChunks

/-! ## Epochs and timestamps as bytes -/

variable [ByteOrder]

def epochSize : ℕ := 2

def timestampedSize : ℕ := 8

/-- `Epoch::to_ne_bytes`. -/
def epochToNeBytes (epoch : Epoch) : List UInt8 := neBytes epochSize epoch.val.toNat

/-- `Epoch::from_ne_bytes`. -/
def epochFromNeBytes (bytes : List UInt8) : Epoch := ⟨BitVec.ofNat 16 (ofNeBytes bytes)⟩

/-- `Timestamped::into_ne_bytes`. -/
def intoNeBytes (value : Timestamped Unit) : List UInt8 :=
  neBytes timestampedSize value.word.toNat

/-- `Timestamped::from_ne_bytes`: the flag of the word says whether there is a value. -/
def fromNeBytes (bytes : List UInt8) : Timestamped Unit :=
  let word := BitVec.ofNat 64 (ofNeBytes bytes)
  ⟨word, if word &&& deletedFlag = 0 then some () else none, by split <;> simp_all⟩

/-! ## Chunks of timestamps -/

/-- `chunk_size`. -/
def chunkSize (elements : ℕ) : ℕ := epochSize + elements * timestampedSize

/-- `epoch`. -/
def epoch (bytes : List UInt8) : Epoch := epochFromNeBytes (slice 0 epochSize bytes)

/-- `set_epoch`. -/
def setEpoch (bytes : List UInt8) (epoch : Epoch) : List UInt8 :=
  splice 0 (epochToNeBytes epoch) bytes

/-- `timestamp`. -/
def timestamp (size : ℕ) (bytes : List UInt8) (idx : ℕ) : Option (Timestamped Unit) :=
  if idx ≥ size then none
  else
    let offset := epochSize + idx * timestampedSize
    some (fromNeBytes (slice offset (offset + timestampedSize) bytes))

/-- `set_timestamp`. -/
def setTimestamp (size : ℕ) (bytes : List UInt8) (idx : ℕ) (value : Timestamped Unit) :
    Option Unit × List UInt8 :=
  if idx ≥ size then (none, bytes)
  else (some (), splice (epochSize + idx * timestampedSize) (intoNeBytes value) bytes)

/-- `ChunkTimestamps`: the number of timestamps of a chunk. -/
structure ChunkTimestamps where
  size : ℕ+

/-- `ChunkTimestampsShared`. -/
structure ChunkTimestampsShared where
  bytes : List UInt8

/-- `ChunkTimestampsExclusive`. -/
structure ChunkTimestampsExclusive where
  size : ℕ
  bytes : List UInt8

/-- `ChunkTimestampsShared::epoch`. -/
def ChunkTimestampsShared.epoch (view : ChunkTimestampsShared) : Epoch := Packed.epoch view.bytes

namespace ChunkTimestampsExclusive

variable (view : ChunkTimestampsExclusive)

def epoch : Epoch := Packed.epoch view.bytes

def setEpoch (epoch : Epoch) : ChunkTimestampsExclusive :=
  { view with bytes := Packed.setEpoch view.bytes epoch }

def timestamp (idx : ℕ) : Option (Timestamped Unit) := Packed.timestamp view.size view.bytes idx

def setTimestamp (idx : ℕ) (value : Timestamped Unit) : Option Unit × ChunkTimestampsExclusive :=
  let (result, bytes) := Packed.setTimestamp view.size view.bytes idx value
  (result, { view with bytes })

end ChunkTimestampsExclusive

/-- The loop of `fill_default` over the positions of the timestamps. -/
def fillTimestamps (size : ℕ) (bytes : List UInt8) : List ℕ → Option (List UInt8)
  | [] => some bytes
  | idx :: rest =>
    match setTimestamp size bytes idx (.newTombstone .min) with
    | (none, _) => none
    | (some (), bytes) => fillTimestamps size bytes rest

instance : Chunk ChunkTimestamps where
  Shared := ChunkTimestampsShared
  Exclusive := ChunkTimestampsExclusive
  size chunk := ⟨chunkSize chunk.size, Nat.add_pos_left (by decide) _⟩
  fillDefault chunk bytes :=
    if chunkSize chunk.size ≠ bytes.length then none
    else fillTimestamps chunk.size (setEpoch bytes .new) (List.range chunk.size)
  get chunk bytes := if chunkSize chunk.size = bytes.length then some ⟨bytes⟩ else none
  getMut chunk bytes :=
    if chunkSize chunk.size = bytes.length then some ⟨chunk.size, bytes⟩ else none
  bytes view := view.bytes

/-! ## Chunks as records -/

@[simp] theorem length_epochToNeBytes (epoch : Epoch) :
    (epochToNeBytes epoch).length = epochSize :=
  length_neBytes _ _

@[simp] theorem length_intoNeBytes (value : Timestamped Unit) :
    (intoNeBytes value).length = timestampedSize :=
  length_neBytes _ _

theorem epochFromNeBytes_epochToNeBytes (epoch : Epoch) :
    epochFromNeBytes (epochToNeBytes epoch) = epoch := by
  obtain ⟨val⟩ := epoch
  have hval : val.toNat < 256 ^ epochSize := val.isLt
  refine congrArg Epoch.mk ?_
  rw [epochToNeBytes, ofNeBytes_neBytes, Nat.mod_eq_of_lt hval, BitVec.ofNat_toNat,
    BitVec.setWidth_eq]

/-- The flag and the timestamp are both in the word. -/
theorem fromNeBytes_intoNeBytes (value : Timestamped Unit) :
    fromNeBytes (intoNeBytes value) = value := by
  obtain ⟨word, val, hflag⟩ := value
  have hword : word.toNat < 256 ^ timestampedSize := word.isLt
  have hsame : BitVec.ofNat 64 (ofNeBytes (neBytes timestampedSize word.toNat)) = word := by
    rw [ofNeBytes_neBytes, Nat.mod_eq_of_lt hword, BitVec.ofNat_toNat, BitVec.setWidth_eq]
  unfold fromNeBytes intoNeBytes
  simp only [hsame, Timestamped.mk.injEq, true_and]
  cases val with
  | none => exact if_neg (mt hflag.mpr Bool.false_ne_true)
  | some _ => exact if_pos (hflag.mp rfl)

/-- The bytes of a record. -/
def encode (record : VectorStore.ChunkTimestamps) : List UInt8 :=
  epochToNeBytes record.epoch ++ record.timestamps.flatMap intoNeBytes

section Records

variable {record : VectorStore.ChunkTimestamps} {size : ℕ}

theorem length_timestamps (timestamps : List (Timestamped Unit)) :
    (timestamps.flatMap intoNeBytes).length = timestamps.length * timestampedSize :=
  length_flatMap fun value _ => length_intoNeBytes value

theorem length_encode (h : record.timestamps.length = size) :
    (encode record).length = chunkSize size := by
  rw [encode, List.length_append, length_epochToNeBytes, length_timestamps, h, chunkSize]

theorem epoch_encode (record : VectorStore.ChunkTimestamps) :
    epoch (encode record) = record.epoch := by
  have hfront : slice 0 epochSize (encode record) = epochToNeBytes record.epoch := by
    rw [encode, ← length_epochToNeBytes record.epoch, slice_front]
  rw [epoch, hfront, epochFromNeBytes_epochToNeBytes]

theorem setEpoch_encode (record : VectorStore.ChunkTimestamps) (epoch : Epoch) :
    setEpoch (encode record) epoch = encode { record with epoch } := by
  have hlen : (epochToNeBytes epoch).length = (epochToNeBytes record.epoch).length := by
    rw [length_epochToNeBytes, length_epochToNeBytes]
  rw [setEpoch, encode, splice_front hlen, encode]

theorem timestamp_encode (h : record.timestamps.length = size) (idx : ℕ) :
    timestamp size (encode record) idx = record.timestamps[idx]? := by
  unfold timestamp
  split
  · next hge => rw [List.getElem?_eq_none (h ▸ hge)]
  · next hlt =>
    have hlt : idx < record.timestamps.length := by omega
    have hget : record.timestamps[idx]? = some record.timestamps[idx] :=
      List.getElem?_eq_getElem hlt
    have hstop : epochSize + idx * timestampedSize + timestampedSize =
        (epochToNeBytes record.epoch).length + (idx + 1) * timestampedSize := by
      rw [length_epochToNeBytes]
      ring
    have hstart : epochSize + idx * timestampedSize =
        (epochToNeBytes record.epoch).length + idx * timestampedSize := by
      rw [length_epochToNeBytes]
    dsimp only
    rw [hstop, hstart, encode, slice_append,
      slice_flatMap (fun value _ => length_intoNeBytes value) hget, fromNeBytes_intoNeBytes, hget]

theorem setTimestamp_encode (h : record.timestamps.length = size) {idx : ℕ} (hlt : idx < size)
    (value : Timestamped Unit) : setTimestamp size (encode record) idx value =
      (some (), encode { record with timestamps := record.timestamps.set idx value }) := by
  have hlt' : idx < record.timestamps.length := h ▸ hlt
  have hstart : epochSize + idx * timestampedSize =
      (epochToNeBytes record.epoch).length + idx * timestampedSize := by
    rw [length_epochToNeBytes]
  rw [setTimestamp, if_neg (not_le.mpr hlt), hstart, encode, splice_append,
    splice_flatMap (fun value _ => length_intoNeBytes value) hlt' (length_intoNeBytes value)]
  rfl

/-! ### New chunks -/

theorem fillTimestamps_encode (h : record.timestamps.length = size) {positions : List ℕ}
    (hpositions : ∀ pos ∈ positions, pos < size) :
    fillTimestamps size (encode record) positions = some (encode { record with
      timestamps := positions.foldl (fun timestamps pos => timestamps.set pos (.newTombstone .min))
        record.timestamps }) := by
  induction positions generalizing record with
  | nil => rfl
  | cons pos positions ih =>
    obtain ⟨hpos, hpositions⟩ := List.forall_mem_cons.mp hpositions
    rw [fillTimestamps, setTimestamp_encode h hpos]
    exact ih (List.length_set.trans h) hpositions

/-- Zeros are the bytes of a record. -/
theorem encode_zeros (size : ℕ) : encode ⟨.new, List.replicate size (.newValid .min)⟩ =
    List.replicate (chunkSize size) 0 := by
  have hepoch : epochToNeBytes .new = List.replicate epochSize 0 := neBytes_zero _
  have hvalid : intoNeBytes (.newValid .min) = List.replicate timestampedSize 0 :=
    neBytes_zero _
  rw [encode, hepoch, chunkSize, List.replicate_add, List.flatMap_replicate, hvalid,
    List.flatten_replicate_replicate]

/-- A new chunk has the bytes of a new record. -/
theorem fillDefault_eq (size : ℕ+) :
    Chunk.fillDefault (ChunkTimestamps.mk size) (List.replicate (chunkSize size) 0) =
      some (encode (.default size)) := by
  have hzeros : setEpoch (List.replicate (chunkSize size) 0) .new =
      encode ⟨.new, List.replicate size (.newValid .min)⟩ := by
    rw [← encode_zeros]
    exact setEpoch_encode _ _
  have hfill : List.foldl (fun timestamps pos => timestamps.set pos (.newTombstone .min))
      (List.replicate size (Timestamped.newValid .min)) (List.range size) =
        List.replicate size (.newTombstone .min) := by
    refine List.ext_getElem? fun i => ?_
    rw [getElem?_foldl_set, List.getElem?_replicate, List.getElem?_replicate]
    by_cases hi : i < (size : ℕ) <;> simp [hi]
  change (if _ then _ else _) = _
  rw [if_neg (by simp), hzeros, fillTimestamps_encode List.length_replicate (by simp), hfill]
  rfl

end Records

/-! ## What is done with a chunk -/

namespace VecChunks

variable (v : VecChunks ChunkTimestamps)

/-- The epoch of a chunk, through a shared view. -/
def epoch (idx : ℕ) : Option Epoch := (v.get idx).map ChunkTimestampsShared.epoch

/-- A timestamp of a chunk, through an exclusive view. -/
def timestamp (idx pos : ℕ) : Option (Timestamped Unit) :=
  (v.getMut idx).bind fun view => view.timestamp pos

/-- The epoch of a chunk is set through an exclusive view. -/
def setEpoch (idx : ℕ) (epoch : Epoch) : Option Unit × VecChunks ChunkTimestamps :=
  match v.getMut idx with
  | none => (none, v)
  | some view => (some (), v.putBack idx (view.setEpoch epoch))

/-- A timestamp of a chunk is set through an exclusive view. -/
def setTimestamp (idx pos : ℕ) (value : Timestamped Unit) :
    Option Unit × VecChunks ChunkTimestamps :=
  match v.getMut idx with
  | none => (none, v)
  | some view =>
    let (result, view) := view.setTimestamp pos value
    (result, v.putBack idx view)

/-- The operations on a vector of chunks. -/
inductive Op where
  | resize (size : ℕ)
  | setEpoch (idx : ℕ) (epoch : Epoch)
  | setTimestamp (idx pos : ℕ) (value : Timestamped Unit)

/-- The vector after an operation. -/
def step (v : VecChunks ChunkTimestamps) : Op → VecChunks ChunkTimestamps
  | .resize size => (v.resize size).toOption.getD v
  | .setEpoch idx epoch => (v.setEpoch idx epoch).2
  | .setTimestamp idx pos value => (v.setTimestamp idx pos value).2

end VecChunks

end Packed

end VectorStore
