import VectorStore.Foundation.Intervals
import VectorStore.Read.TokenRing

/-!
# The ranges partition the tokens

The ranges of the full scan are those between the cuts of the ring, and the scan is done when all
of them are counted.  A ring that has the lowest token makes an empty window of it, whose range is
then taken for the whole ring.
-/

namespace VectorStore

open Intervals

/-! ## Windows of the ring -/

/-- The windows after the first token: the pairs of neighbours, and the pair of the last token with
the first one. -/
theorem circularTupleWindows_cons {α : Type} (x : α) (xs : List α) :
    circularTupleWindows (x :: xs) = (x :: xs).zip (xs ++ [x]) := by
  unfold circularTupleWindows
  rw [List.rotate_cons_succ, List.rotate_zero]

/-- No token becomes another one. -/
theorem Token.new_of_le {value : ℤ} (h : tokenMin ≤ value) : Token.new value = value := by
  unfold Token.new
  rw [if_neg]
  unfold tokenMin tokenMax at h
  unfold i64Min
  omega

/-- The window of two tokens in order. -/
theorem fullscanRange_of_lt {start next : Token} (hlt : start < next) (hle : tokenMin ≤ start) :
    fullscanRange (start, next) = .ok (start, next - 1) := by
  have hne : next ≠ i64Min := ne_of_gt (lt_trans (by decide) (hle.trans_lt hlt))
  unfold fullscanRange decrement
  rw [if_neg (not_lt.mpr hlt.le), if_neg hne]
  change Except.ok (start, Token.new (next - 1)) = _
  rw [Token.new_of_le (hle.trans (Int.le_sub_one_of_lt hlt))]

/-- The last window. -/
theorem fullscanRange_of_gt {start : Token} (hlt : tokenMin < start) :
    fullscanRange (start, tokenMin) = .ok (start, tokenMax) := by
  unfold fullscanRange
  rw [if_pos hlt, Token.new_of_le (by decide)]

/-- The window of the lowest token with itself. -/
theorem fullscanRange_tokenMin : fullscanRange (tokenMin, tokenMin) = .ok (tokenMin, tokenMax) := by
  decide

/-- The range of a window starts where the window does. -/
theorem fullscanRange_fst {window range : Token × Token} (h : fullscanRange window = .ok range) :
    range.1 = window.1 := by
  unfold fullscanRange at h
  split at h
  · obtain rfl := Except.ok.inj h
    rfl
  · obtain ⟨stop, -, h⟩ := bind_eq_ok h
    obtain rfl := Except.ok.inj h
    rfl

/-- After the lowest token, the ranges are those between the tokens. -/
theorem mapM_fullscanRange {start : Token} {tokens : List Token}
    (hsorted : (start :: tokens).Pairwise (· < ·)) (hle : tokenMin ≤ start)
    (hlast : tokenMin < start ∨ tokens ≠ []) :
    ((start :: tokens).zip (tokens ++ [tokenMin])).mapM fullscanRange =
      .ok (ofCuts tokenMax (start :: tokens)) := by
  induction tokens generalizing start with
  | nil =>
    have hlt : tokenMin < start := hlast.resolve_right (not_not.mpr rfl)
    change ([(start, tokenMin)].mapM fullscanRange) = _
    rw [List.mapM_cons, fullscanRange_of_gt hlt]
    rfl
  | cons next tokens ih =>
    obtain ⟨hlt, hsorted'⟩ := List.pairwise_cons.mp hsorted
    have hnext : start < next := hlt next List.mem_cons_self
    have hrest := ih hsorted' (hle.trans hnext.le) (Or.inl (hle.trans_lt hnext))
    change (((start, next) :: (next :: tokens).zip (tokens ++ [tokenMin])).mapM fullscanRange) = _
    rw [List.mapM_cons, fullscanRange_of_lt hnext hle, hrest]
    rfl

/-- Without the lowest token in the ring, the ranges are those between the cuts of the ring. -/
theorem fullscanRanges_eq {ring : TokenRing} (h : tokenMin ∉ ring.tokens) :
    fullscanRanges ring.tokens = .ok (ofCuts tokenMax (tokenMin :: ring.tokens)) := by
  unfold fullscanRanges
  rw [Token.new_of_le le_rfl, circularTupleWindows_cons]
  cases htokens : ring.tokens with
  | nil =>
    change ([(tokenMin, tokenMin)].mapM fullscanRange) = _
    rw [List.mapM_cons, fullscanRange_tokenMin]
    rfl
  | cons token tokens =>
    refine mapM_fullscanRange (List.pairwise_cons.mpr ⟨fun t ht => ?_, ?_⟩) le_rfl (Or.inr (by simp))
    · rw [← htokens] at ht
      refine lt_of_le_of_ne (ring.bounds t ht).1 ?_
      rintro rfl
      exact h ht
    · rw [← htokens]
      exact ring.sorted

/-! ## The partition -/

/-- The ranges of a ring partition the tokens, no decrement overflows, and a scan that counted some
of the ranges is done exactly when it counted all of them. -/
def PartitionsRing (ring : TokenRing) : Prop :=
  ∃ ranges, fullscanRanges ring.tokens = .ok ranges ∧ Partition tokenMin tokenMax ranges ∧
    (∀ range ∈ ranges, decrement range.1 = .ok (range.1 - 1)) ∧
    ∀ completed, completed.Sublist ranges →
      (completed.map fun range => rangeLength range.1 range.2).sum < 2 ^ 64 ∧
      (Progress.ofLength (completed.map fun range => rangeLength range.1 range.2).sum = .done ↔
        completed = ranges)

/-- The length of a range is the number of its tokens. -/
theorem rangeLength_eq {range : ℤ × ℤ} (h : range.1 ≤ range.2) :
    rangeLength range.1 range.2 = length range := by
  unfold rangeLength length
  omega

/-- A scan is done at the greatest length. -/
theorem Progress.ofLength_eq_done_iff {completedScanLength : ℕ} :
    Progress.ofLength completedScanLength = .done ↔ completedScanLength = 2 ^ 64 - 1 := by
  unfold ofLength
  split
  · next h => exact iff_of_true rfl h
  · next h => exact iff_of_false (by simp) h

/-- The ranges of a ring partition the tokens exactly when the ring does not have the lowest
token. -/
theorem partitionsRing_iff (ring : TokenRing) : PartitionsRing ring ↔ tokenMin ∉ ring.tokens := by
  constructor
  · rintro ⟨ranges, hranges, hpartition, -⟩ hmem
    -- The lowest token is the first of the ring, so both of the first two ranges start there.
    obtain ⟨tokens, htokens⟩ : ∃ tokens, ring.tokens = tokenMin :: tokens := by
      cases htokens : ring.tokens with
      | nil =>
        rw [htokens] at hmem
        cases hmem
      | cons token tokens =>
        have hsorted := ring.sorted
        rw [htokens] at hmem hsorted
        have hle := (ring.bounds token (by rw [htokens]; exact List.mem_cons_self)).1
        rcases List.mem_cons.mp hmem with rfl | hmem
        · exact ⟨tokens, rfl⟩
        · exact absurd hle (not_le.mpr (List.rel_of_pairwise_cons hsorted hmem))
    unfold fullscanRanges at hranges
    rw [Token.new_of_le le_rfl, circularTupleWindows_cons, htokens] at hranges
    have hrel := forall₂_of_mapM hranges
    obtain ⟨next, windows, hwindows⟩ : ∃ next windows,
        (tokenMin :: tokenMin :: tokens).zip ((tokenMin :: tokens) ++ [tokenMin]) =
          (tokenMin, tokenMin) :: (tokenMin, next) :: windows := by
      cases tokens with
      | nil => exact ⟨tokenMin, [], rfl⟩
      | cons token tokens => exact ⟨token, _, rfl⟩
    rw [hwindows] at hrel
    obtain ⟨first, rest, hfirst, hrest, rfl⟩ := List.forall₂_cons_left_iff.mp hrel
    obtain ⟨second, rest, hsecond, -, rfl⟩ := List.forall₂_cons_left_iff.mp hrest
    have hfst : first.1 = tokenMin := fullscanRange_fst hfirst
    have hsnd : second.1 = tokenMin := fullscanRange_fst hsecond
    refine List.rel_of_pairwise_cons hpartition.disjoint List.mem_cons_self tokenMin ?_ ?_
    · exact ⟨hfst.le, hfst ▸ hpartition.nonempty first List.mem_cons_self⟩
    · exact ⟨hsnd.le, hsnd ▸ hpartition.nonempty second (by simp)⟩
  · intro h
    have hsorted : (tokenMin :: ring.tokens).Pairwise (· < ·) := by
      refine List.pairwise_cons.mpr ⟨fun token ht => ?_, ring.sorted⟩
      refine lt_of_le_of_ne (ring.bounds token ht).1 ?_
      rintro rfl
      exact h ht
    have htop : ∀ token ∈ tokenMin :: ring.tokens, token ≤ tokenMax :=
      List.forall_mem_cons.mpr ⟨by decide, fun token ht => (ring.bounds token ht).2⟩
    have hpartition := ofCuts_partition hsorted htop
    have hsum := sum_length_ofCuts hsorted htop
    refine ⟨_, fullscanRanges_eq h, hpartition, fun range hrange => ?_, fun completed hsub => ?_⟩
    · have hle : tokenMin ≤ range.1 :=
        ((hpartition.cover range.1).mp ⟨range, hrange, le_rfl, hpartition.nonempty range hrange⟩).1
      unfold decrement
      rw [if_neg]
      unfold tokenMin tokenMax at hle
      unfold i64Min
      omega
    · have hlengths : completed.map (fun range => rangeLength range.1 range.2) =
          completed.map length :=
        List.map_congr_left fun range hrange =>
          rangeLength_eq (hpartition.nonempty range (hsub.subset hrange))
      have hpos : ∀ range ∈ ofCuts tokenMax (tokenMin :: ring.tokens), 0 < length range := by
        intro range hrange
        have := hpartition.nonempty range hrange
        unfold length
        omega
      obtain ⟨hle, heq⟩ := sum_eq_sum_iff_of_sublist hpos hsub
      have htotal : length (tokenMin, tokenMax) = 2 ^ 64 - 1 := by decide
      rw [hsum, htotal] at hle heq
      rw [hlengths, Progress.ofLength_eq_done_iff]
      exact ⟨by omega, heq⟩

/-- A ring of the lowest token alone has two ranges, both of them with all tokens. -/
theorem not_partitionsRing_tokenMin : ∃ ring : TokenRing, ring.tokens = [tokenMin] ∧
    fullscanRanges ring.tokens = .ok [(tokenMin, tokenMax), (tokenMin, tokenMax)] ∧
      ¬PartitionsRing ring := by
  refine ⟨⟨[tokenMin], List.pairwise_singleton _ _, by decide⟩, rfl, by decide, ?_⟩
  rintro ⟨ranges, hranges, hpartition, -⟩
  have heq : fullscanRanges [tokenMin] = .ok [(tokenMin, tokenMax), (tokenMin, tokenMax)] := by
    decide
  obtain rfl := Except.ok.inj (heq.symm.trans hranges)
  exact List.rel_of_pairwise_cons hpartition.disjoint List.mem_cons_self tokenMin
    ⟨le_rfl, by decide⟩ ⟨le_rfl, by decide⟩

end VectorStore
