import VectorStore.Foundation.Run
import VectorStore.Table.VecChunks

/-!
# The vector of chunks is an array

The bytes of a vector are those of a list of records, and every operation on the bytes is one on the
records.  So an epoch or a timestamp is the value last written to its place since its chunk was
created, whatever was written elsewhere.
-/

namespace VectorStore

namespace Packed

namespace VecChunks

/-! ## Last writes -/

section History

/-- The number of chunks after a history. -/
def sizeAfter : List Op → ℕ
  | [] => 0
  | .resize size :: _ => size
  | .setEpoch _ _ :: older | .setTimestamp _ _ _ :: older => sizeAfter older

/-- What an operation writes to the epoch of a chunk. -/
def Op.epochAt (idx : ℕ) : Op → Option Epoch
  | .setEpoch idx' epoch => if idx' = idx then some epoch else none
  | .resize _ | .setTimestamp _ _ _ => none

/-- What an operation writes to a timestamp of a chunk. -/
def Op.timestampAt (idx pos : ℕ) : Op → Option (Timestamped Unit)
  | .setTimestamp idx' pos' value => if idx' = idx ∧ pos' = pos then some value else none
  | .resize _ | .setEpoch _ _ => none

/-- The last write to a place of a chunk since the chunk was created: before that, there are too few
chunks. -/
def lastWrite {α : Type} (written : Op → Option α) (idx : ℕ) : List Op → Option α
  | [] => none
  | op :: older =>
    if sizeAfter older ≤ idx then none else (written op).or (lastWrite written idx older)

/-- The record of a chunk holds the last writes to it. -/
structure LastWritten (n : ℕ+) (history : List Op) (idx : ℕ)
    (record : VectorStore.ChunkTimestamps) : Prop where
  epoch : record.epoch = (lastWrite (Op.epochAt idx) idx history).getD .new
  length : record.timestamps.length = n
  timestamp : ∀ pos < (n : ℕ), record.timestamps[pos]? =
    some ((lastWrite (Op.timestampAt idx pos) idx history).getD (.newTombstone .min))

variable {α : Type} {written : Op → Option α} {op : Op} {older : List Op} {idx : ℕ}

theorem lastWrite_created (h : sizeAfter older ≤ idx) :
    lastWrite written idx (op :: older) = none := if_pos h

theorem lastWrite_kept (h : idx < sizeAfter older) :
    lastWrite written idx (op :: older) = (written op).or (lastWrite written idx older) :=
  if_neg (not_le.mpr h)

/-- A new chunk holds the defaults. -/
theorem LastWritten.created (n : ℕ+) (h : sizeAfter older ≤ idx) :
    LastWritten n (op :: older) idx (.default n) where
  epoch := by rw [lastWrite_created h]; rfl
  length := List.length_replicate
  timestamp pos hpos := by
    rw [lastWrite_created h]
    exact List.getElem?_replicate_of_lt hpos

/-- An operation that writes nothing to a chunk that is there. -/
theorem LastWritten.kept {n : ℕ+} {record : VectorStore.ChunkTimestamps}
    (h : LastWritten n older idx record) (hlt : idx < sizeAfter older)
    (hepoch : op.epochAt idx = none) (htimestamp : ∀ pos, op.timestampAt idx pos = none) :
    LastWritten n (op :: older) idx record where
  epoch := by rw [lastWrite_kept hlt, hepoch, Option.none_or, h.epoch]
  length := h.length
  timestamp pos hpos := by
    rw [lastWrite_kept hlt, htimestamp, Option.none_or, h.timestamp pos hpos]

theorem LastWritten.setEpoch {n : ℕ+} {record : VectorStore.ChunkTimestamps}
    (h : LastWritten n older idx record) (hlt : idx < sizeAfter older) (epoch : Epoch) :
    LastWritten n (.setEpoch idx epoch :: older) idx { record with epoch } where
  epoch := by rw [lastWrite_kept hlt, Op.epochAt, if_pos rfl]; rfl
  length := h.length
  timestamp pos hpos := by
    rw [lastWrite_kept hlt, Op.timestampAt, Option.none_or]
    exact h.timestamp pos hpos

theorem LastWritten.setTimestamp {n : ℕ+} {record : VectorStore.ChunkTimestamps}
    (h : LastWritten n older idx record) (hlt : idx < sizeAfter older) (pos : ℕ)
    (value : Timestamped Unit) :
    LastWritten n (.setTimestamp idx pos value :: older) idx
      { record with timestamps := record.timestamps.set pos value } where
  epoch := by
    rw [lastWrite_kept hlt, Op.epochAt, Option.none_or]
    exact h.epoch
  length := List.length_set.trans h.length
  timestamp pos' hpos' := by
    rw [lastWrite_kept hlt, Op.timestampAt]
    by_cases heq : pos = pos'
    · subst heq
      rw [if_pos ⟨rfl, rfl⟩, List.getElem?_set_self (h.length ▸ hpos')]
      rfl
    · rw [if_neg fun hboth => heq hboth.2, Option.none_or, List.getElem?_set_ne heq]
      exact h.timestamp pos' hpos'

end History

/-! ## The records of a vector -/

variable [ByteOrder] {v : VecChunks ChunkTimestamps} {n : ℕ+}
  {records : List VectorStore.ChunkTimestamps}

/-- The bytes of the vector are the bytes of the records. -/
structure Represents (v : VecChunks ChunkTimestamps) (n : ℕ+)
    (records : List VectorStore.ChunkTimestamps) : Prop where
  chunk : v.chunk = ⟨n⟩
  size : v.chunkSize = Packed.chunkSize n
  vec : v.vec = records.flatMap encode
  lengths : ∀ record ∈ records, record.timestamps.length = n

/-- What an operation does to the records. -/
def Op.apply (n : ℕ+) (records : List VectorStore.ChunkTimestamps) :
    Op → List VectorStore.ChunkTimestamps
  | .resize size =>
    let column : ColumnVec PrimaryId VectorStore.ChunkTimestamps := ⟨records⟩
    (column.resizeWith size (.default n)).vec
  | .setEpoch idx epoch => records.modify idx fun record => { record with epoch }
  | .setTimestamp idx pos value => records.modify idx fun record =>
      { record with timestamps := record.timestamps.set pos value }

omit [ByteOrder] in
theorem chunkSize_pos (n : ℕ) : 0 < Packed.chunkSize n := Nat.add_pos_left (by decide) _

theorem represents_new (n : ℕ+) : (new (⟨n⟩ : ChunkTimestamps)).Represents n [] where
  chunk := rfl
  size := rfl
  vec := rfl
  lengths _ h := absurd h List.not_mem_nil

namespace Represents

theorem encodings (h : v.Represents n records) :
    ∀ record ∈ records, (encode record).length = v.chunkSize := by
  intro record hrecord
  rw [h.size]
  exact length_encode (h.lengths record hrecord)

theorem len (h : v.Represents n records) : v.len = records.length := by
  have hpos : 0 < v.chunkSize := h.size ▸ chunkSize_pos n
  rw [VecChunks.len, h.vec, length_flatMap h.encodings, Nat.mul_div_cancel _ hpos]

/-- The range of a chunk is the bytes of its record. -/
theorem slice_eq (h : v.Represents n records) {idx : ℕ} {record : VectorStore.ChunkTimestamps}
    (hget : records[idx]? = some record) :
    slice (idx * v.chunkSize) ((idx + 1) * v.chunkSize) v.vec = encode record := by
  rw [h.vec]
  exact slice_flatMap h.encodings hget

theorem get_eq (h : v.Represents n records) (idx : ℕ) :
    v.get idx = records[idx]?.map fun record => ⟨encode record⟩ := by
  unfold get
  rw [h.len]
  by_cases hlt : idx < records.length
  · have hget := List.getElem?_eq_getElem hlt
    rw [if_neg (not_le.mpr hlt), h.slice_eq hget, hget, h.chunk]
    exact if_pos (length_encode (h.lengths _ (List.getElem_mem hlt))).symm
  · rw [if_pos (not_lt.mp hlt), List.getElem?_eq_none (not_lt.mp hlt)]
    rfl

theorem getMut_eq (h : v.Represents n records) (idx : ℕ) :
    v.getMut idx = records[idx]?.map fun record => ⟨n, encode record⟩ := by
  unfold getMut
  rw [h.len]
  by_cases hlt : idx < records.length
  · have hget := List.getElem?_eq_getElem hlt
    rw [if_neg (not_le.mpr hlt), h.slice_eq hget, hget, h.chunk]
    exact if_pos (length_encode (h.lengths _ (List.getElem_mem hlt))).symm
  · rw [if_pos (not_lt.mp hlt), List.getElem?_eq_none (not_lt.mp hlt)]
    rfl

theorem epoch_eq (h : v.Represents n records) (idx : ℕ) :
    v.epoch idx = records[idx]?.map VectorStore.ChunkTimestamps.epoch := by
  rw [VecChunks.epoch, h.get_eq, Option.map_map]
  refine congrArg (Option.map · _) (funext fun record => ?_)
  exact epoch_encode record

theorem timestamp_eq (h : v.Represents n records) (idx pos : ℕ) :
    v.timestamp idx pos = records[idx]?.bind fun record => record.timestamps[pos]? := by
  rw [VecChunks.timestamp, h.getMut_eq]
  cases hget : records[idx]? with
  | none => rfl
  | some record => exact timestamp_encode (h.lengths record (List.mem_of_getElem? hget)) pos

/-- Copying a record over the range of a chunk. -/
theorem putBack (h : v.Represents n records) {idx : ℕ} (hlt : idx < records.length)
    {record : VectorStore.ChunkTimestamps} (hrecord : record.timestamps.length = n) :
    (v.putBack idx (⟨n, encode record⟩ : ChunkTimestampsExclusive)).Represents n
      (records.set idx record) where
  chunk := h.chunk
  size := h.size
  vec := by
    have hlen : (encode record).length = v.chunkSize := by rw [h.size, length_encode hrecord]
    change splice (idx * v.chunkSize) (encode record) v.vec = _
    rw [h.vec, splice_flatMap h.encodings hlt hlen]
  lengths other hother := by
    rcases List.mem_or_eq_of_mem_set hother with hmem | rfl
    · exact h.lengths other hmem
    · exact hrecord

/-- A vector is resized without a panic, and its records are. -/
theorem resize (h : v.Represents n records) (size : ℕ) :
    ∃ v', v.resize size = .ok v' ∧ v'.Represents n (Op.apply n records (.resize size)) := by
  unfold VecChunks.resize Op.apply ColumnVec.resizeWith
  dsimp only
  rw [h.len]
  by_cases hle : size ≤ records.length
  · refine ⟨_, if_pos hle, h.chunk, h.size, ?_, fun record hrecord => ?_⟩
    · rw [Nat.sub_eq_zero_of_le hle, List.replicate_zero, List.append_nil, h.vec,
        take_flatMap h.encodings]
    · rw [Nat.sub_eq_zero_of_le hle, List.replicate_zero, List.append_nil] at hrecord
      exact h.lengths record (List.mem_of_mem_take hrecord)
  · have hfill : Chunk.fillDefault v.chunk (List.replicate v.chunkSize 0) =
        some (encode (.default n)) := by
      rw [h.chunk, h.size]
      exact fillDefault_eq n
    rw [if_neg hle, hfill]
    refine ⟨_, rfl, h.chunk, h.size, ?_, fun record hrecord => ?_⟩
    · rw [h.vec, List.take_of_length_le (not_le.mp hle).le, List.flatMap_append,
        List.flatMap_replicate]
    · rcases List.mem_append.mp hrecord with hmem | hmem
      · exact h.lengths record (List.mem_of_mem_take hmem)
      · rw [List.eq_of_mem_replicate hmem]
        exact List.length_replicate

/-- An epoch is set in the record, if there is one. -/
theorem setEpoch (h : v.Represents n records) (idx : ℕ) (epoch : Epoch) :
    (v.setEpoch idx epoch).1 = (if idx < records.length then some () else none) ∧
      (records.length ≤ idx → (v.setEpoch idx epoch).2 = v) ∧
      (v.setEpoch idx epoch).2.Represents n (Op.apply n records (.setEpoch idx epoch)) := by
  unfold VecChunks.setEpoch Op.apply
  rw [h.getMut_eq]
  by_cases hlt : idx < records.length
  · have hget := List.getElem?_eq_getElem hlt
    have hlen : records[idx].timestamps.length = n := h.lengths _ (List.getElem_mem hlt)
    dsimp only
    rw [hget, if_pos hlt, modify_eq_set hget]
    refine ⟨rfl, fun hle => absurd hlt (not_lt.mpr hle), ?_⟩
    have hview : ChunkTimestampsExclusive.setEpoch ⟨n, encode records[idx]⟩ epoch =
        ⟨n, encode { records[idx] with epoch }⟩ :=
      congrArg (ChunkTimestampsExclusive.mk n) (setEpoch_encode _ _)
    change (v.putBack idx (ChunkTimestampsExclusive.setEpoch ⟨n, encode records[idx]⟩ epoch)
      ).Represents n _
    rw [hview]
    exact h.putBack hlt hlen
  · have hget : records[idx]? = none := List.getElem?_eq_none (not_lt.mp hlt)
    dsimp only
    rw [hget, if_neg hlt, modify_eq_self hget]
    exact ⟨rfl, fun _ => rfl, h⟩

/-- A timestamp is set in the record, if there are a record and a place for it. -/
theorem setTimestamp (h : v.Represents n records) (idx pos : ℕ) (value : Timestamped Unit) :
    (v.setTimestamp idx pos value).1 = (if idx < records.length ∧ pos < n then some () else none) ∧
      (¬(idx < records.length ∧ pos < n) → (v.setTimestamp idx pos value).2 = v) ∧
      (v.setTimestamp idx pos value).2.Represents n
        (Op.apply n records (.setTimestamp idx pos value)) := by
  unfold VecChunks.setTimestamp Op.apply
  rw [h.getMut_eq]
  by_cases hlt : idx < records.length
  · have hget := List.getElem?_eq_getElem hlt
    have hlen : records[idx].timestamps.length = n := h.lengths _ (List.getElem_mem hlt)
    dsimp only
    rw [hget, modify_eq_set hget]
    by_cases hpos : pos < (n : ℕ)
    · have hview : ChunkTimestampsExclusive.setTimestamp ⟨n, encode records[idx]⟩ pos value =
          (some (), ⟨n, encode { records[idx] with
            timestamps := records[idx].timestamps.set pos value }⟩) := by
        unfold ChunkTimestampsExclusive.setTimestamp
        dsimp only
        rw [setTimestamp_encode hlen hpos]
      rw [if_pos ⟨hlt, hpos⟩]
      dsimp only [Option.map_some]
      rw [hview]
      exact ⟨rfl, fun hnot => absurd ⟨hlt, hpos⟩ hnot, h.putBack hlt (List.length_set.trans hlen)⟩
    · have hview : ChunkTimestampsExclusive.setTimestamp ⟨n, encode records[idx]⟩ pos value =
          (none, ⟨n, encode records[idx]⟩) := by
        unfold ChunkTimestampsExclusive.setTimestamp Packed.setTimestamp
        rw [if_pos (not_lt.mp hpos)]
      have hset : records[idx].timestamps.set pos value = records[idx].timestamps :=
        List.set_eq_of_length_le (hlen ▸ not_lt.mp hpos)
      have hsame : v.putBack idx (⟨n, encode records[idx]⟩ : ChunkTimestampsExclusive) = v := by
        have hback := (h.putBack hlt hlen).vec
        rw [List.set_getElem_self, ← h.vec] at hback
        exact congrArg (fun vec => { v with vec }) hback
      rw [if_neg fun hboth => hpos hboth.2, hset]
      dsimp only [Option.map_some]
      rw [hview, List.set_getElem_self]
      dsimp only
      rw [hsame]
      exact ⟨rfl, fun _ => rfl, h⟩
  · have hget : records[idx]? = none := List.getElem?_eq_none (not_lt.mp hlt)
    dsimp only
    rw [hget, if_neg fun hboth => hlt hboth.1, modify_eq_self hget]
    exact ⟨rfl, fun _ => rfl, h⟩

/-- An operation on the bytes is the operation on the records. -/
theorem step (h : v.Represents n records) (op : Op) :
    (v.step op).Represents n (op.apply n records) := by
  cases op with
  | resize size =>
    obtain ⟨v', hresize, hrepresents⟩ := h.resize size
    rw [VecChunks.step, hresize]
    exact hrepresents
  | setEpoch idx epoch => exact (h.setEpoch idx epoch).2.2
  | setTimestamp idx pos value => exact (h.setTimestamp idx pos value).2.2

end Represents

/-- The records after a history, which lists the last operation first. -/
def recordsAfter (n : ℕ+) : List Op → List VectorStore.ChunkTimestamps
  | [] => []
  | op :: older => op.apply n (recordsAfter n older)

/-- The vector after a history represents the records after it. -/
theorem represents_run (n : ℕ+) (history : List Op) :
    (Machine.run step (new (⟨n⟩ : ChunkTimestamps)) history.reverse).Represents n
      (recordsAfter n history) := by
  induction history with
  | nil => exact represents_new n
  | cons op older ih =>
    rw [List.reverse_cons, Machine.run_append]
    exact ih.step op

omit [ByteOrder] in
theorem length_recordsAfter (n : ℕ+) (history : List Op) :
    (recordsAfter n history).length = sizeAfter history := by
  induction history with
  | nil => rfl
  | cons op older ih =>
    cases op with
    | resize size => exact ColumnVec.size_resizeWith _ _ _
    | setEpoch idx epoch => exact (List.length_modify ..).trans ih
    | setTimestamp idx pos value => exact (List.length_modify ..).trans ih

omit [ByteOrder] in
/-- Every record holds the last writes to its chunk. -/
theorem lastWritten_recordsAfter (n : ℕ+) (history : List Op) {idx : ℕ}
    {record : VectorStore.ChunkTimestamps} (hget : (recordsAfter n history)[idx]? = some record) :
    LastWritten n history idx record := by
  induction history generalizing record with
  | nil => cases hget
  | cons op older ih =>
    have hlen := length_recordsAfter n older
    cases op with
    | resize size =>
      change ((recordsAfter n older).take size ++
        List.replicate (size - (recordsAfter n older).length) (.default n))[idx]? = some record at hget
      by_cases hlt : idx < sizeAfter older
      · -- The chunk was there, and the vector has not been cut before it.
        have hold : (recordsAfter n older)[idx]? = some record := by
          by_cases htake : idx < ((recordsAfter n older).take size).length
          · rw [List.getElem?_append_left htake, List.getElem?_take] at hget
            split at hget
            · exact hget
            · cases hget
          · rw [List.getElem?_append_right (not_lt.mp htake), List.getElem?_replicate] at hget
            rw [List.length_take] at htake hget
            rw [if_neg (by omega)] at hget
            cases hget
        exact (ih hold).kept hlt rfl fun _ => rfl
      · have hge : ((recordsAfter n older).take size).length ≤ idx := by
          rw [List.length_take]
          omega
        rw [List.getElem?_append_right hge, List.getElem?_replicate] at hget
        split at hget
        · obtain rfl := Option.some_inj.mp hget
          exact LastWritten.created n (not_lt.mp hlt)
        · cases hget
    | setEpoch idx' epoch =>
      change ((recordsAfter n older).modify idx' _)[idx]? = some record at hget
      rw [List.getElem?_modify] at hget
      obtain ⟨old, hold, hrecord⟩ := Option.map_eq_some_iff.mp hget
      have hlt : idx < sizeAfter older := hlen ▸ (List.getElem?_eq_some_iff.mp hold).1
      by_cases heq : idx' = idx
      · subst heq
        rw [if_pos rfl] at hrecord
        exact hrecord ▸ (ih hold).setEpoch hlt epoch
      · rw [if_neg heq] at hrecord
        exact hrecord ▸ (ih hold).kept hlt (if_neg heq) fun _ => rfl
    | setTimestamp idx' pos value =>
      change ((recordsAfter n older).modify idx' _)[idx]? = some record at hget
      rw [List.getElem?_modify] at hget
      obtain ⟨old, hold, hrecord⟩ := Option.map_eq_some_iff.mp hget
      have hlt : idx < sizeAfter older := hlen ▸ (List.getElem?_eq_some_iff.mp hold).1
      by_cases heq : idx' = idx
      · subst heq
        rw [if_pos rfl] at hrecord
        exact hrecord ▸ (ih hold).setTimestamp hlt pos value
      · rw [if_neg heq] at hrecord
        exact hrecord ▸ (ih hold).kept hlt rfl fun _ => if_neg fun hboth => heq hboth.1

/-! ## The array -/

/-- What a vector of chunks does as an array of epochs and timestamps. -/
structure IsArray (v : VecChunks ChunkTimestamps) (n : ℕ+) (history : List Op) : Prop where
  len : v.len = sizeAfter history
  /-- An epoch is the one last written since the chunk was created, or the first one. -/
  epoch : ∀ idx, v.epoch idx =
    if idx < v.len then some ((lastWrite (Op.epochAt idx) idx history).getD .new) else none
  /-- So is a timestamp, or a tombstone at the first time. -/
  timestamp : ∀ idx pos, v.timestamp idx pos = if idx < v.len ∧ pos < n then
    some ((lastWrite (Op.timestampAt idx pos) idx history).getD (.newTombstone .min)) else none
  /-- Resizing never panics, and the chunks that stay keep what they hold. -/
  resize : ∀ size, ∃ v', v.resize size = .ok v' ∧ v'.len = size ∧ ∀ idx < v.len, idx < size →
    v'.epoch idx = v.epoch idx ∧ ∀ pos, v'.timestamp idx pos = v.timestamp idx pos
  /-- Writing an epoch out of bounds fails and changes nothing; within them it changes only it. -/
  setEpoch : ∀ idx epoch, let w := v.setEpoch idx epoch
    (w.1 = if idx < v.len then some () else none) ∧ (w.1 = none → w.2 = v) ∧
      (∀ idx', w.2.epoch idx' = if w.1 = some () ∧ idx' = idx then some epoch else v.epoch idx') ∧
      ∀ idx' pos', w.2.timestamp idx' pos' = v.timestamp idx' pos'
  /-- So does writing a timestamp. -/
  setTimestamp : ∀ idx pos value, let w := v.setTimestamp idx pos value
    (w.1 = if idx < v.len ∧ pos < n then some () else none) ∧ (w.1 = none → w.2 = v) ∧
      (∀ idx', w.2.epoch idx' = v.epoch idx') ∧
      ∀ idx' pos', w.2.timestamp idx' pos' =
        if w.1 = some () ∧ idx' = idx ∧ pos' = pos then some value else v.timestamp idx' pos'
  /-- The flag and the timestamp come back from the bytes. -/
  packed : ∀ (t : Timestamp) (value : Option Unit),
    (fromNeBytes (intoNeBytes (.new t value))).timestamp = t ∧
      (fromNeBytes (intoNeBytes (.new t value))).isTombstone = value.isNone

namespace Represents

omit [ByteOrder] in
/-- Chunks that are there before and after a vector is resized. -/
theorem getElem?_resize (n : ℕ+) (records : List VectorStore.ChunkTimestamps) {size idx : ℕ}
    (hlt : idx < records.length) (hsize : idx < size) :
    (Op.apply n records (.resize size))[idx]? = records[idx]? := by
  have htake : idx < (records.take size).length := by
    rw [List.length_take]
    omega
  change (records.take size ++ List.replicate (size - records.length) (.default n))[idx]? = _
  rw [List.getElem?_append_left htake, List.getElem?_take, if_pos hsize]

theorem resize_keeps (h : v.Represents n records) (size : ℕ) :
    ∃ v', v.resize size = .ok v' ∧ v'.len = size ∧ ∀ idx < v.len, idx < size →
      v'.epoch idx = v.epoch idx ∧ ∀ pos, v'.timestamp idx pos = v.timestamp idx pos := by
  obtain ⟨v', hresize, h'⟩ := h.resize size
  refine ⟨v', hresize, h'.len.trans (ColumnVec.size_resizeWith _ _ _), fun idx hlt hsize => ?_⟩
  have hget := getElem?_resize n records (h.len ▸ hlt) hsize
  refine ⟨?_, fun pos => ?_⟩
  · rw [h'.epoch_eq, h.epoch_eq, hget]
  · rw [h'.timestamp_eq, h.timestamp_eq, hget]

theorem setEpoch_changes (h : v.Represents n records) (idx : ℕ) (epoch : Epoch) :
    let w := v.setEpoch idx epoch
    (w.1 = if idx < v.len then some () else none) ∧ (w.1 = none → w.2 = v) ∧
      (∀ idx', w.2.epoch idx' = if w.1 = some () ∧ idx' = idx then some epoch else v.epoch idx') ∧
      ∀ idx' pos', w.2.timestamp idx' pos' = v.timestamp idx' pos' := by
  obtain ⟨hresult, hfailed, h'⟩ := h.setEpoch idx epoch
  dsimp only
  rw [hresult, h.len]
  refine ⟨rfl, fun hnone => hfailed ?_, fun idx' => ?_, fun idx' pos' => ?_⟩
  · by_contra hlt
    rw [if_pos (not_le.mp hlt)] at hnone
    cases hnone
  · rw [h'.epoch_eq, h.epoch_eq, Op.apply, List.getElem?_modify]
    by_cases heq : idx' = idx
    · subst heq
      by_cases hlt : idx' < records.length <;> simp [hlt]
    · simp [heq, Ne.symm heq]
  · rw [h'.timestamp_eq, h.timestamp_eq, Op.apply, List.getElem?_modify]
    cases records[idx']? with
    | none => rfl
    | some record => by_cases heq : idx = idx' <;> simp [heq]

theorem setTimestamp_changes (h : v.Represents n records) (idx pos : ℕ)
    (value : Timestamped Unit) :
    let w := v.setTimestamp idx pos value
    (w.1 = if idx < v.len ∧ pos < n then some () else none) ∧ (w.1 = none → w.2 = v) ∧
      (∀ idx', w.2.epoch idx' = v.epoch idx') ∧
      ∀ idx' pos', w.2.timestamp idx' pos' =
        if w.1 = some () ∧ idx' = idx ∧ pos' = pos then some value else v.timestamp idx' pos' := by
  obtain ⟨hresult, hfailed, h'⟩ := h.setTimestamp idx pos value
  dsimp only
  rw [hresult, h.len]
  refine ⟨rfl, fun hnone => hfailed fun hboth => ?_, fun idx' => ?_, fun idx' pos' => ?_⟩
  · rw [if_pos hboth] at hnone
    cases hnone
  · rw [h'.epoch_eq, h.epoch_eq, Op.apply, List.getElem?_modify]
    cases records[idx']? with
    | none => rfl
    | some record => by_cases heq : idx = idx' <;> simp [heq]
  · rw [h'.timestamp_eq, h.timestamp_eq, Op.apply, List.getElem?_modify]
    cases hget : records[idx']? with
    | none =>
      have hge : records.length ≤ idx' := List.getElem?_eq_none_iff.mp hget
      have hnot : ¬((if idx < records.length ∧ pos < n then some () else none) = some () ∧
          idx' = idx ∧ pos' = pos) := by
        rintro ⟨hsome, rfl, rfl⟩
        rw [if_neg fun hboth => not_le.mpr hboth.1 hge] at hsome
        cases hsome
      rw [if_neg hnot]
      rfl
    | some record =>
      have hlt : idx' < records.length := (List.getElem?_eq_some_iff.mp hget).1
      have hlen : record.timestamps.length = n := h.lengths record (List.mem_of_getElem? hget)
      by_cases heq : idx' = idx
      · subst heq
        by_cases hpos : pos' = pos
        · subst hpos
          by_cases hin : pos' < (n : ℕ)
          · simp [hlt, hin, hlen]
          · simp [hin, hlen]
        · simp [hpos, Ne.symm hpos]
      · simp [heq, Ne.symm heq]

end Represents

/-- The bytes of the vector behave as an array of epochs and timestamps, whatever was done. -/
theorem vec_chunks_is_array (n : ℕ+) (history : List Op) :
    (Machine.run step (new (⟨n⟩ : ChunkTimestamps)) history.reverse).IsArray n history := by
  have h := represents_run n history
  have hlen := length_recordsAfter n history
  have hlast := @lastWritten_recordsAfter n history
  refine ⟨h.len.trans hlen, fun idx => ?_, fun idx pos => ?_, h.resize_keeps, h.setEpoch_changes,
    h.setTimestamp_changes, fun t value => ?_⟩
  · rw [h.epoch_eq, h.len]
    by_cases hlt : idx < (recordsAfter n history).length
    · have hget := List.getElem?_eq_getElem hlt
      rw [if_pos hlt, hget, Option.map_some, (hlast hget).epoch]
    · rw [if_neg hlt, List.getElem?_eq_none (not_lt.mp hlt)]
      rfl
  · rw [h.timestamp_eq, h.len]
    by_cases hlt : idx < (recordsAfter n history).length
    · have hget := List.getElem?_eq_getElem hlt
      rw [hget, Option.bind_some]
      by_cases hpos : pos < (n : ℕ)
      · rw [if_pos ⟨hlt, hpos⟩, (hlast hget).timestamp pos hpos]
      · rw [if_neg fun hboth => hpos hboth.2]
        exact List.getElem?_eq_none ((hlast hget).length ▸ not_lt.mp hpos)
    · rw [if_neg fun hboth => hlt hboth.1, List.getElem?_eq_none (not_lt.mp hlt)]
      rfl
  · rw [fromNeBytes_intoNeBytes, Timestamped.timestamp_new, Timestamped.isTombstone_eq,
      Timestamped.value_new]
    exact ⟨rfl, rfl⟩

end VecChunks

end Packed

end VectorStore
