import VectorStore.VsIndex.Packing

/-!
# Packing keeps the Hamming distance

A packed vector has a bit for each component, in order, and zeros up to the end of its last byte.
Hence two packed vectors differ in as many bits as the vectors have components of different
positivity.
-/

namespace VectorStore

namespace Usearch

theorem length_f32ToB1x8 (vec : List UInt32) : (f32ToB1x8 vec).length = (vec.length + 7) / 8 := by
  induction vec using chunk_induction (show 0 < 8 by decide) with
  | short vec hlen =>
    by_cases hnil : vec = []
    · subst hnil
      rfl
    · have hpos : 0 < vec.length := List.length_pos_iff.mpr hnil
      rw [f32ToB1x8_short hnil hlen, List.length_singleton]
      omega
  | append chunk vec hlen ih =>
    rw [f32ToB1x8_append hlen, List.length_cons, ih, List.length_append, hlen]
    omega

/-- A bit is set when there is a component at its position and it is positive. -/
theorem bitAt_f32ToB1x8 (vec : List UInt32) (i : ℕ) :
    bitAt (f32ToB1x8 vec) i = (vec[i]?).any isPositive := by
  induction vec using chunk_induction (show 0 < 8 by decide) generalizing i with
  | short vec hlen =>
    by_cases hnil : vec = []
    · subst hnil
      rfl
    · rw [f32ToB1x8_short hnil hlen]
      by_cases hi : i < 8
      · rw [bitAt_cons_of_lt _ _ hi, getMsbD_chunkToByte hlen.le hi]
      · obtain ⟨j, rfl⟩ := Nat.exists_eq_add_of_le (not_lt.mp hi)
        rw [bitAt_cons_add, bitAt_nil, List.getElem?_eq_none (by omega)]
        rfl
  | append chunk vec hlen ih =>
    rw [f32ToB1x8_append hlen]
    by_cases hi : i < 8
    · rw [bitAt_cons_of_lt _ _ hi, getMsbD_chunkToByte hlen.le hi,
        List.getElem?_append_left (hlen ▸ hi)]
    · obtain ⟨j, rfl⟩ := Nat.exists_eq_add_of_le (not_lt.mp hi)
      rw [bitAt_cons_add, ih, List.getElem?_append_right (by omega), hlen, Nat.add_sub_cancel_left]

theorem bitDistance_f32ToB1x8 {vec other : List UInt32} (h : other.length = vec.length) :
    bitDistance (f32ToB1x8 vec) (f32ToB1x8 other) =
      (vec.zip other).countP fun p => isPositive p.1 != isPositive p.2 := by
  induction vec using chunk_induction (show 0 < 8 by decide) generalizing other with
  | short vec hlen =>
    by_cases hnil : vec = []
    · subst hnil
      rw [List.eq_nil_of_length_eq_zero h]
      rfl
    · have hnil' : other ≠ [] := by
        rintro rfl
        exact hnil (List.eq_nil_of_length_eq_zero h.symm)
      rw [f32ToB1x8_short hnil hlen, f32ToB1x8_short hnil' (h ▸ hlen), bitDistance_cons,
        popcount_chunkToByte hlen.le h]
      rfl
  | append chunk vec hlen ih =>
    rw [List.length_append, hlen] at h
    have htake : (other.take 8).length = 8 := by
      rw [List.length_take]
      omega
    have hdrop : (other.drop 8).length = vec.length := by
      rw [List.length_drop]
      omega
    rw [← List.take_append_drop 8 other, f32ToB1x8_append hlen, f32ToB1x8_append htake,
      bitDistance_cons, popcount_chunkToByte hlen.le (htake.trans hlen.symm), ih hdrop,
      List.zip_append (hlen.trans htake.symm), List.countP_append]

/-- A packed vector has the bits of the positivity of its components, and two packed vectors of one
length differ in as many bits as the vectors differ in positivity. -/
theorem f32ToB1x8_keeps_hamming (vec : List UInt32) :
    (f32ToB1x8 vec).length = (vec.length + 7) / 8 ∧
      (∀ i, bitAt (f32ToB1x8 vec) i = (vec[i]?).any isPositive) ∧
      ∀ other : List UInt32, other.length = vec.length →
        bitDistance (f32ToB1x8 vec) (f32ToB1x8 other) =
          (vec.zip other).countP fun p => isPositive p.1 != isPositive p.2 :=
  ⟨length_f32ToB1x8 vec, bitAt_f32ToB1x8 vec, fun _ h => bitDistance_f32ToB1x8 h⟩

/-- Nine components: `1.0`, seven times `-0.0`, and a NaN, against their opposites. -/
theorem f32ToB1x8_keeps_hamming_nine :
    bitDistance (f32ToB1x8 (0x3f800000 :: List.replicate 7 0x80000000 ++ [0x7fc00000]))
        (f32ToB1x8 (0xbf800000 :: List.replicate 7 0x3f800000 ++ [0xffc00000])) = 8 :=
  ((f32ToB1x8_keeps_hamming _).2.2 _ (by decide)).trans (by decide)

end Usearch

end VectorStore
