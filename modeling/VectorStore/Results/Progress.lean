import VectorStore.Cdc.Checkpoint

/-!
# The reported progress is that of the slowest stream

The counts are the histogram of the latest positions since the last new generation, whatever the
order of streams and positions.  So every record returns the least of these positions, and the
gauge is never ahead of a stream.
-/

namespace VectorStore

/-- The latest positions after one more call. -/
def CheckpointCall.latestAfter (latest : StreamId → Option Duration) :
    CheckpointCall → StreamId → Option Duration
  | saveCheckpoint streamId timestamp => Function.update latest streamId (some timestamp)
  | saveNewGeneration => fun _ => none

/-- The latest position of every stream since the last new generation. -/
def latestPositions (calls : List CheckpointCall) : StreamId → Option Duration :=
  calls.foldl CheckpointCall.latestAfter fun _ => none

namespace StreamProgress

variable {progress : StreamProgress} {latest : StreamId → Option Duration}

/-- The progress has the positions and their histogram. -/
structure Tracks (progress : StreamProgress) (latest : StreamId → Option Duration) : Prop where
  positions : ∀ streamId, progress.positions.lookup streamId = latest streamId
  counts : Histogram.Holds latest progress.counts

theorem tracks_empty : Tracks ⟨∅, ∅⟩ fun _ => none where
  positions _ := AList.lookup_empty _
  counts timestamp := by
    have hlevel : Histogram.level (fun _ : StreamId => (none : Option Duration)) timestamp = ∅ :=
      Set.eq_empty_of_forall_notMem fun _ h => by cases h
    rw [AList.lookup_empty, Histogram.count, hlevel, Set.ncard_empty]
    rfl

/-- Finitely many streams have a position. -/
theorem Tracks.finite_level (h : Tracks progress latest) (timestamp : Duration) :
    (Histogram.level latest timestamp).Finite := by
  refine (List.finite_toSet progress.positions.keys).subset fun streamId hat => ?_
  have hlookup : progress.positions.lookup streamId = some timestamp :=
    (h.positions streamId).trans hat
  exact FiniteMap.mem_keys_iff.mpr ⟨timestamp, hlookup⟩

/-- No count underflows when a stream leaves its position. -/
theorem Tracks.leave_eq (h : Tracks progress latest) (streamId : StreamId) :
    ∃ counts, leave progress.counts (latest streamId) = some counts ∧ ∀ timestamp,
      counts.lookup timestamp = Histogram.positive (Histogram.count latest timestamp -
        if latest streamId = some timestamp then 1 else 0) := by
  cases hprevious : latest streamId with
  | none =>
    refine ⟨progress.counts, rfl, fun timestamp => ?_⟩
    rw [h.counts timestamp, if_neg (by simp), Nat.sub_zero]
  | some previous =>
    have hpos : 0 < Histogram.count latest previous :=
      (Histogram.count_pos_iff (h.finite_level previous)).mpr ⟨streamId, hprevious⟩
    obtain ⟨n, hn⟩ := Nat.exists_eq_add_one_of_ne_zero hpos.ne'
    have hlookup : progress.counts.lookup previous = some (n + 1) := by
      rw [h.counts previous, hn, Histogram.positive_succ]
    refine ⟨if n = 0 then progress.counts.erase previous else progress.counts.insert previous n,
      by rw [leave, hlookup], fun timestamp => ?_⟩
    rw [FiniteMap.lookup_ite_erase_insert]
    by_cases htimestamp : timestamp = previous
    · subst htimestamp
      rw [if_pos rfl, if_pos rfl, hn, Nat.add_sub_cancel, Histogram.positive]
    · have hne : some previous ≠ some timestamp := fun heq =>
        htimestamp (Option.some.inj heq).symm
      rw [if_neg htimestamp, if_neg hne, Nat.sub_zero, h.counts timestamp]

/-- A record succeeds, moves the stream in the histogram and returns the least position. -/
theorem Tracks.record (h : Tracks progress latest) (streamId : StreamId) (timestamp : Duration) :
    ∃ progress' least, progress.record streamId timestamp = some (progress', some least) ∧
      Tracks progress' (Function.update latest streamId (some timestamp)) ∧
      IsLeast (Histogram.values (Function.update latest streamId (some timestamp))) least := by
  obtain ⟨left, hleft, hcounts⟩ := h.leave_eq streamId
  have hpositive : ∀ at', (if latest streamId = some at' then 1 else 0) ≤
      Histogram.count latest at' := by
    intro at'
    split
    · next hat => exact (Histogram.count_pos_iff (h.finite_level at')).mpr ⟨streamId, hat⟩
    · exact Nat.zero_le _
  have htracks : Tracks
      ⟨progress.positions.insert streamId timestamp,
        left.insert timestamp ((left.lookup timestamp).getD 0 + 1)⟩
      (Function.update latest streamId (some timestamp)) := by
    refine ⟨fun streamId' => ?_, fun at' => ?_⟩
    · dsimp only
      rw [FiniteMap.lookup_insert_eq, Function.update_apply, h.positions streamId']
    · have hmoved := Histogram.count_update h.finite_level streamId timestamp at'
      dsimp only
      rw [FiniteMap.lookup_insert_eq, hcounts timestamp, hcounts at', Histogram.getD_positive]
      by_cases hat : at' = timestamp
      · subst hat
        rw [if_pos rfl] at hmoved ⊢
        have hcount : Histogram.count (Function.update latest streamId (some at')) at' =
            Histogram.count latest at' - (if latest streamId = some at' then 1 else 0) + 1 := by
          have hle := hpositive at'
          omega
        rw [hcount, Histogram.positive_succ]
      · rw [if_neg (Ne.symm hat), Nat.add_zero] at hmoved
        rw [if_neg hat, ← hmoved, Nat.add_sub_cancel]
  obtain ⟨least, hleast, hisLeast⟩ := htracks.counts.isLeast_min? htracks.finite_level
    (Function.update_self streamId (some timestamp) latest)
  refine ⟨_, least, ?_, htracks, hisLeast⟩
  rw [StreamProgress.record, h.positions streamId, hleft, ← hleast]
  rfl

end StreamProgress

namespace MetricsCheckpointSaver

variable {saver : MetricsCheckpointSaver} {latest : StreamId → Option Duration}

/-- The saver tracks the positions, and its gauge is not ahead of any. -/
structure Reports (saver : MetricsCheckpointSaver) (latest : StreamId → Option Duration) :
    Prop where
  tracks : saver.state.Tracks latest
  gauge : ∀ streamId timestamp, latest streamId = some timestamp →
    ∃ reported, saver.gauge = some reported ∧ reported ≤ timestamp

theorem reports_new : Reports new fun _ => none where
  tracks := StreamProgress.tracks_empty
  gauge _ _ h := by cases h

/-- A call succeeds and keeps what the saver reports. -/
theorem Reports.call (h : Reports saver latest) (call : CheckpointCall) :
    ∃ saver', saver.call call = some saver' ∧ Reports saver' (call.latestAfter latest) := by
  cases call with
  | saveNewGeneration =>
    exact ⟨saver.reset, rfl, StreamProgress.tracks_empty, fun _ _ hnone => by cases hnone⟩
  | saveCheckpoint streamId timestamp =>
    obtain ⟨state, least, hrecord, htracks, hleast⟩ := h.tracks.record streamId timestamp
    refine ⟨⟨some least, state⟩, ?_, htracks, fun streamId' timestamp' hat => ?_⟩
    · change saver.recordStreamProgress streamId timestamp = _
      rw [recordStreamProgress, hrecord]
      rfl
    · exact ⟨least, rfl, hleast.2 ⟨streamId', hat⟩⟩

/-- Every sequence of calls succeeds and keeps what the saver reports. -/
theorem Reports.run (h : Reports saver latest) (calls : List CheckpointCall) :
    ∃ saver', saver.run calls = some saver' ∧
      Reports saver' (calls.foldl CheckpointCall.latestAfter latest) := by
  induction calls generalizing saver latest with
  | nil => exact ⟨saver, rfl, h⟩
  | cons call calls ih =>
    obtain ⟨next, hcall, hnext⟩ := h.call call
    obtain ⟨saver', hrun, hreports⟩ := ih hnext
    refine ⟨saver', ?_, hreports⟩
    rw [MetricsCheckpointSaver.run, List.foldlM_cons, hcall]
    exact hrun

end MetricsCheckpointSaver

/-- After every sequence of checkpoints and new generations, the counts are the histogram of the
latest positions, the next record returns the least position, and the gauge is not ahead of any. -/
theorem slowest_stream_reported (calls : List CheckpointCall) :
    ∃ saver, MetricsCheckpointSaver.new.run calls = some saver ∧
      (∀ streamId, saver.state.positions.lookup streamId = latestPositions calls streamId) ∧
      (∀ timestamp, saver.state.counts.lookup timestamp =
        Histogram.positive (Histogram.count (latestPositions calls) timestamp)) ∧
      (∀ streamId timestamp, ∃ state least,
        saver.state.record streamId timestamp = some (state, some least) ∧
        IsLeast (Histogram.values (latestPositions
          (calls ++ [.saveCheckpoint streamId timestamp]))) least) ∧
      ∀ streamId timestamp, latestPositions calls streamId = some timestamp →
        ∃ reported, saver.gauge = some reported ∧ reported ≤ timestamp := by
  obtain ⟨saver, hrun, htracks, hgauge⟩ := MetricsCheckpointSaver.reports_new.run calls
  refine ⟨saver, hrun, htracks.positions, htracks.counts, fun streamId timestamp => ?_, hgauge⟩
  obtain ⟨state, least, hrecord, -, hleast⟩ := htracks.record streamId timestamp
  refine ⟨state, least, hrecord, ?_⟩
  rw [latestPositions, List.foldl_append]
  exact hleast

end VectorStore
