import VectorStore.Foundation.Histogram

/-!
# Checkpoints of the change log

The checkpoint saver of a reader persists nothing.  It keeps the latest position of every stream
and reports the least of them as the progress of the reader.  The positions are also counted, so
that the least one is the first key of a sorted map.
-/

namespace VectorStore

/-- The identifier of a stream. -/
abbrev StreamId := List UInt8

/-- A span of time in nanoseconds. -/
abbrev Duration := ℕ

/-- Tracks progress across all streams. -/
structure StreamProgress where
  positions : AList fun _ : StreamId => Duration
  counts : AList fun _ : Duration => ℕ

namespace StreamProgress

/-- The progress before any record. -/
def default : StreamProgress := ⟨∅, ∅⟩

/-- Takes one stream from the count of its previous position, and drops the count at zero.  There
is no result when the count underflows. -/
def leave (counts : AList fun _ : Duration => ℕ) :
    Option Duration → Option (AList fun _ : Duration => ℕ)
  | none => some counts
  | some previous =>
    match counts.lookup previous with
    | none => some counts
    | some 0 => none
    | some (n + 1) => some (if n = 0 then counts.erase previous else counts.insert previous n)

/-- Records a position for a stream and returns the new minimum across all streams. -/
def record (progress : StreamProgress) (streamId : StreamId) (timestamp : Duration) :
    Option (StreamProgress × Option Duration) := do
  let counts ← leave progress.counts (progress.positions.lookup streamId)
  let counts := counts.insert timestamp ((counts.lookup timestamp).getD 0 + 1)
  return (⟨progress.positions.insert streamId timestamp, counts⟩, counts.keys.min?)

/-- Forgets every stream. -/
def clear (_ : StreamProgress) : StreamProgress := ⟨∅, ∅⟩

end StreamProgress

/-- The checkpoint saver of a reader, with the gauge that it updates. -/
structure MetricsCheckpointSaver where
  gauge : Option Duration
  state : StreamProgress

namespace MetricsCheckpointSaver

/-- The saver before any checkpoint. -/
def new : MetricsCheckpointSaver := ⟨none, .default⟩

/-- Records a position and sets the gauge to the new minimum. -/
def recordStreamProgress (saver : MetricsCheckpointSaver) (streamId : StreamId)
    (timestamp : Duration) : Option MetricsCheckpointSaver := do
  let (state, minProgress) ← saver.state.record streamId timestamp
  return ⟨minProgress.or saver.gauge, state⟩

/-- Forgets every stream; the gauge stays. -/
def reset (saver : MetricsCheckpointSaver) : MetricsCheckpointSaver :=
  { saver with state := saver.state.clear }

end MetricsCheckpointSaver

/-- The calls of the change log reader: `save_checkpoint` and `save_new_generation`. -/
inductive CheckpointCall where
  | saveCheckpoint (streamId : StreamId) (timestamp : Duration)
  | saveNewGeneration
deriving DecidableEq

namespace MetricsCheckpointSaver

/-- One call. -/
def call (saver : MetricsCheckpointSaver) : CheckpointCall → Option MetricsCheckpointSaver
  | .saveCheckpoint streamId timestamp => saver.recordStreamProgress streamId timestamp
  | .saveNewGeneration => some saver.reset

/-- The saver after a sequence of calls. -/
def run (saver : MetricsCheckpointSaver) (calls : List CheckpointCall) :
    Option MetricsCheckpointSaver :=
  calls.foldlM call saver

end MetricsCheckpointSaver

end VectorStore
