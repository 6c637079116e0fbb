import VectorStore.Node.NodeState

/-!
# The status of an index and its version

The statuses are kept by key, so an index that is recreated under its key between two discoveries
takes over the status of the version before it.  The status `serving` belongs to the current version
along a run exactly when no version is replaced while it serves, and no full scan finishes late.
-/

namespace VectorStore

/-- The actor with the indexes that were discovered last and the full scans that have finished. -/
structure WatchedNode where
  node : NodeState
  latest : Finset DiscoveredIndex
  finished : Finset DiscoveredIndex

namespace WatchedNode

def init : WatchedNode := ⟨.init, ∅, ∅⟩

/-- The state after an event. -/
def step (w : WatchedNode) (event : Event) : WatchedNode where
  node := w.node.step event
  latest :=
    match event with
    | .indexesDiscovered indexes => indexes
    | _ => w.latest
  finished :=
    match event with
    | .fullScanFinished metadata => insert metadata w.finished
    | _ => w.finished

/-- An index of which the node says that it serves was discovered last and its full scan has
finished. -/
def Current (w : WatchedNode) : Prop :=
  ∀ keyspace index, w.node.getIndexStatus keyspace index = some .serving →
    ∃ m ∈ w.latest, m.key = .new keyspace index ∧ m ∈ w.finished

/-- No index that serves is replaced under its key by one whose full scan has not finished, and no
full scan finishes for a version of an index that is not the current one. -/
def KeepsVersions (w : WatchedNode) : Event → Prop
  | .indexesDiscovered indexes => ∀ m ∈ indexes, w.node.idxs m.key = some .serving →
    ∃ m' ∈ indexes, m'.key = m.key ∧ m' ∈ w.finished
  | .fullScanFinished metadata => ∀ m ∈ w.latest, m.key = metadata.key →
    ∃ m' ∈ w.latest, m'.key = metadata.key ∧ (m' = metadata ∨ m' ∈ w.finished)
  | _ => True

/-- The indexes with a status are those that were discovered last. -/
def Tracks (w : WatchedNode) : Prop :=
  ∀ key, (w.node.idxs key).isSome ↔ ∃ m ∈ w.latest, m.key = key

variable {w : WatchedNode} {event : Event} {events : List Event}

theorem tracks_init : init.Tracks := fun _ =>
  iff_of_false Bool.false_ne_true fun ⟨_, hm, _⟩ => Finset.notMem_empty _ hm

theorem Tracks.step (hw : w.Tracks) (event : Event) : (w.step event).Tracks := by
  intro key
  cases event with
  | connectingToDb | connectedToDb => exact hw key
  | discoveringIndexes =>
    change (w.node.discovering.idxs key).isSome ↔ _
    rw [NodeState.idxs_discovering]
    exact hw key
  | indexesDiscovered indexes =>
    exact NodeState.isSome_updateIndexes.trans Finset.mem_image
  | fullScanStarted m =>
    change (NodeState.setIndexStatus _ _ _ _).isSome ↔ _
    rw [NodeState.isSome_setIndexStatus]
    exact hw key
  | fullScanFinished m =>
    change ((w.node.scanned m).idxs key).isSome ↔ _
    rw [NodeState.idxs_scanned, NodeState.isSome_setIndexStatus]
    exact hw key

/-- All indexes with a status can be asked for. -/
theorem Tracks.current_iff (hw : w.Tracks) : w.Current ↔
    ∀ key, w.node.idxs key = some .serving → ∃ m ∈ w.latest, m.key = key ∧ m ∈ w.finished := by
  refine ⟨fun h key hkey => ?_, fun h keyspace index => h (.new keyspace index)⟩
  obtain ⟨m, -, rfl⟩ := (hw key).mp (Option.isSome_of_eq_some hkey)
  exact h m.keyspaceName m.indexName hkey

/-- A step keeps the statuses current exactly when it keeps the versions. -/
theorem current_step_iff (hw : w.Tracks) (hcurrent : w.Current) (event : Event) :
    (w.step event).Current ↔ w.KeepsVersions event := by
  rw [hw.current_iff] at hcurrent
  rw [(hw.step event).current_iff]
  cases event with
  | connectingToDb | connectedToDb => exact iff_of_true hcurrent trivial
  | discoveringIndexes =>
    refine iff_of_true (fun key hkey => ?_) trivial
    change w.node.discovering.idxs key = _ at hkey
    rw [NodeState.idxs_discovering] at hkey
    exact hcurrent key hkey
  | indexesDiscovered indexes =>
    have hserving : ∀ key, (w.node.idxs key).getD .initializing = .serving ↔
        w.node.idxs key = some .serving := by
      intro key
      cases w.node.idxs key <;> simp
    constructor
    · intro h m hm hkey
      exact h m.key (NodeState.updateIndexes_eq_some.mpr
        ⟨Finset.mem_image_of_mem _ hm, (hserving m.key).mpr hkey⟩)
    · intro h key hkey
      obtain ⟨hmem, hkey⟩ := NodeState.updateIndexes_eq_some.mp hkey
      obtain ⟨m, hm, rfl⟩ := Finset.mem_image.mp hmem
      exact h m hm ((hserving m.key).mp hkey)
  | fullScanStarted metadata =>
    refine iff_of_true (fun key hkey => ?_) trivial
    rcases NodeState.setIndexStatus_eq_serving.mp hkey with ⟨-, -, hstatus⟩ | ⟨-, hkey⟩
    · cases hstatus
    · exact hcurrent key hkey
  | fullScanFinished metadata =>
    have hidxs : ∀ key, (w.step (.fullScanFinished metadata)).node.idxs key = some .serving ↔
        key = metadata.key ∧ (w.node.idxs metadata.key).isSome ∨
          key ≠ metadata.key ∧ w.node.idxs key = some .serving := by
      intro key
      change (w.node.scanned metadata).idxs key = _ ↔ _
      rw [NodeState.idxs_scanned, NodeState.setIndexStatus_eq_serving]
      simp
    constructor
    · intro h m hm hkey
      obtain ⟨m', hm', hkey', hfinished⟩ := h metadata.key ((hidxs _).mpr
        (Or.inl ⟨rfl, (hw _).mpr ⟨m, hm, hkey⟩⟩))
      exact ⟨m', hm', hkey', Finset.mem_insert.mp hfinished⟩
    · intro h key hkey
      rcases (hidxs key).mp hkey with ⟨rfl, hsome⟩ | ⟨-, hkey⟩
      · obtain ⟨m, hm, hmkey⟩ := (hw _).mp hsome
        obtain ⟨m', hm', hkey', hfinished⟩ := h m hm hmkey
        exact ⟨m', hm', hkey', Finset.mem_insert.mpr hfinished⟩
      · obtain ⟨m, hm, hmkey, hfinished⟩ := hcurrent key hkey
        exact ⟨m, hm, hmkey, Finset.mem_insert_of_mem hfinished⟩

/-- Along every run, every index that serves is current after every event exactly when every event
keeps the versions. -/
theorem current_along_iff (events : List Event) :
    Machine.Along step (fun w event => (w.step event).Current) init events ↔
      Machine.Along step KeepsVersions init events :=
  @Machine.along_congr _ _ step (fun w => w.Tracks ∧ w.Current) _ _
    (fun _ event hw => current_step_iff hw.1 hw.2 event)
    (fun _ event hw hcurrent => ⟨hw.1.step event, hcurrent⟩) _
    ⟨tracks_init, fun _ _ h => by cases h⟩ events

end WatchedNode

/-- An index that is recreated keeps the status of the version before it. -/
theorem WatchedNode.not_always_current :
    ¬∀ events, (Machine.run WatchedNode.step .init events).Current := by
  intro h
  have hcurrent := h
    [.indexesDiscovered {Sample.indexVersion 1}, .fullScanFinished (Sample.indexVersion 1),
      .indexesDiscovered {Sample.indexVersion 2}] "ks" "idx" (by decide +kernel)
  revert hcurrent
  decide +kernel

end VectorStore
