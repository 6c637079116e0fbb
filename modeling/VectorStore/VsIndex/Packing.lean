import VectorStore.Foundation.Bits
import VectorStore.Search.Compare

/-!
# Vectors packed into bits

An index with one-bit quantization stores a bit for each component of a vector: whether the
component is greater than zero.
-/

namespace VectorStore

namespace Usearch

/-- `val > 0.0`, on the bit pattern of a float: neither a zero nor a NaN is. -/
def isPositive (bits : UInt32) : Bool :=
  floatPartialCmp (2 ^ 31) 0x7f800000 bits.toNat 0 = some .gt

/-- `chunk_to_byte`: the first component has the most significant bit. -/
def chunkToByte (chunk : List UInt32) : BitVec 8 :=
  chunk.zipIdx.foldl (fun byte p => if isPositive p.1 then byte ||| 1#8 <<< (7 - p.2) else byte) 0#8

/-- `f32_to_b1x8`. -/
def f32ToB1x8 (f32Vec : List UInt32) : List (BitVec 8) :=
  let bytes := (chunksExact 8 f32Vec).map chunkToByte
  let remainder := remainder 8 f32Vec
  if !remainder.isEmpty then bytes ++ [chunkToByte remainder] else bytes

/-! ## One byte -/

/-- Setting the bit of a position. -/
theorem getMsbD_bit {i j : ℕ} (hi : i < 8) (hj : j < 8) :
    (1#8 <<< (7 - j)).getMsbD i = decide (i = j) := by
  have hall : ∀ i < 8, ∀ j < 8, (1#8 <<< (7 - j)).getMsbD i = decide (i = j) := by decide
  exact hall i hi j hj

/-- The fold over the components from a position on sets the bits of these positions only. -/
theorem getMsbD_foldl (chunk : List UInt32) (byte : BitVec 8) {start i : ℕ}
    (hlen : start + chunk.length ≤ 8) (hi : i < 8) :
    ((chunk.zipIdx start).foldl
      (fun byte p => if isPositive p.1 then byte ||| 1#8 <<< (7 - p.2) else byte) byte).getMsbD i =
        (byte.getMsbD i || (decide (start ≤ i) && (chunk[i - start]?).any isPositive)) := by
  induction chunk generalizing byte start with
  | nil => simp
  | cons bits chunk ih =>
    rw [List.length_cons] at hlen
    rw [List.zipIdx_cons, List.foldl_cons, ih _ (by omega)]
    -- The bit of the first component, or of one after it, or of none of them.
    rcases lt_trichotomy i start with hlt | rfl | hgt
    · have hne : i ≠ start := hlt.ne
      split
      · rw [BitVec.getMsbD_or, getMsbD_bit hi (by omega)]
        simp [hne, hlt.not_ge, (Nat.lt_succ_of_lt hlt).not_ge]
      · simp [hlt.not_ge, (Nat.lt_succ_of_lt hlt).not_ge]
    · have hnot : ¬i + 1 ≤ i := Nat.not_succ_le_self i
      split
      · next hpos => rw [BitVec.getMsbD_or, getMsbD_bit hi hi]; simp [hpos]
      · next hpos => simp [hpos]
    · have hne : i ≠ start := hgt.ne'
      have hget : i - start = i - (start + 1) + 1 := by omega
      rw [hget, List.getElem?_cons_succ]
      split
      · rw [BitVec.getMsbD_or, getMsbD_bit hi (by omega)]
        simp [hne, hgt.le, Nat.succ_le_of_lt hgt]
      · simp [hgt.le, Nat.succ_le_of_lt hgt]

/-- A bit of a byte is set when there is a component at its position and it is positive. -/
theorem getMsbD_chunkToByte {chunk : List UInt32} (hlen : chunk.length ≤ 8) {i : ℕ} (hi : i < 8) :
    (chunkToByte chunk).getMsbD i = (chunk[i]?).any isPositive := by
  rw [chunkToByte, getMsbD_foldl chunk 0#8 (by omega) hi, BitVec.getMsbD_zero, Bool.false_or]
  simp

/-- Two bytes differ in as many bits as their components differ in positivity. -/
theorem popcount_chunkToByte {chunk other : List UInt32} (hlen : chunk.length ≤ 8)
    (hother : other.length = chunk.length) :
    popcount (chunkToByte chunk ^^^ chunkToByte other) =
      (chunk.zip other).countP fun p => isPositive p.1 != isPositive p.2 := by
  have hzip : (chunk.zip other).length ≤ 8 := by
    rw [List.length_zip, hother, Nat.min_self]
    exact hlen
  rw [popcount_xor, ← countP_range_getElem? _ hzip]
  refine List.countP_congr fun i hi => ?_
  have hi : i < 8 := List.mem_range.mp hi
  rw [getMsbD_chunkToByte hlen hi, getMsbD_chunkToByte (hother ▸ hlen) hi]
  by_cases hlt : i < chunk.length
  · have hlt' : i < other.length := hother ▸ hlt
    have hpair : (chunk.zip other)[i]? = some (chunk[i], other[i]) :=
      List.getElem?_zip_eq_some.mpr ⟨List.getElem?_eq_getElem hlt, List.getElem?_eq_getElem hlt'⟩
    rw [List.getElem?_eq_getElem hlt, List.getElem?_eq_getElem hlt', hpair]
    rfl
  · have hge : chunk.length ≤ i := not_lt.mp hlt
    have hge' : other.length ≤ i := hother ▸ hge
    have hgeZip : (chunk.zip other).length ≤ i := by
      rw [List.length_zip]
      omega
    rw [List.getElem?_eq_none hge, List.getElem?_eq_none hge', List.getElem?_eq_none hgeZip]
    rfl

/-! ## All bytes -/

/-- A short vector fills one byte. -/
theorem f32ToB1x8_short {vec : List UInt32} (hne : vec ≠ []) (hlen : vec.length < 8) :
    f32ToB1x8 vec = [chunkToByte vec] := by
  unfold f32ToB1x8
  rw [chunksExact_short hlen, remainder_short hlen]
  simp [hne]

/-- The first eight components fill the first byte. -/
theorem f32ToB1x8_append {chunk : List UInt32} (hlen : chunk.length = 8) (vec : List UInt32) :
    f32ToB1x8 (chunk ++ vec) = chunkToByte chunk :: f32ToB1x8 vec := by
  unfold f32ToB1x8
  rw [chunksExact_append (by decide) hlen, remainder_append (by decide) hlen]
  dsimp only
  split <;> rfl

end Usearch

end VectorStore
