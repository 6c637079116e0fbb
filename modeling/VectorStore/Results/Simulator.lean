import VectorStore.Node.Simulator
import VectorStore.Results.Reconciled

/-!
# The simulator announces what it builds

An index that is discovered with the metadata of an index of the monitor, apart from the version,
keeps that index from being deleted, since no other index is discovered under its key.  So it makes
no difference that the announcement compares with the set before the deletion and the addition with
the set after it, and in every run the node knows exactly the indexes of the engine.
-/

namespace VectorStore

namespace MonitorIndexes

variable {indexes newIndexes : List DiscoveredIndex} {m m' : DiscoveredIndex}

theorem shouldDeleteSimulator_iff :
    shouldDeleteSimulator newIndexes m ↔
      ∃ m' ∈ newIndexes, m.key = m'.key ∧ m.discardVersion ≠ m'.discardVersion := by
  unfold shouldDeleteSimulator
  rw [List.any_map, List.any_eq_true]
  exact exists_congr fun m' => and_congr_right fun _ => decide_eq_true_iff

theorem shouldAddSimulator_iff :
    shouldAddSimulator indexes m ↔ ∀ m' ∈ indexes, m'.discardVersion ≠ m.discardVersion := by
  simp [shouldAddSimulator]

/-- Metadata that is equal apart from the version has one key. -/
theorem key_eq_of_discardVersion_eq (h : m.discardVersion = m'.discardVersion) : m.key = m'.key := by
  have hkey : m.discardVersion.key = m'.discardVersion.key := congrArg DiscoveredIndex.key h
  exact hkey

/-- The indexes of the monitor that are kept. -/
def kept (indexes newIndexes : List DiscoveredIndex) : List DiscoveredIndex :=
  indexes.filter fun idx => !shouldDeleteSimulator newIndexes idx

/-- The indexes of the monitor after the deletion and the addition, when every addition succeeds. -/
def built (indexes newIndexes : List DiscoveredIndex) : List DiscoveredIndex :=
  kept indexes newIndexes ++ newIndexes.filter (shouldAddSimulator (kept indexes newIndexes))

theorem mem_kept : m ∈ kept indexes newIndexes ↔
    m ∈ indexes ∧ ∀ m' ∈ newIndexes, m.key = m'.key → m.discardVersion = m'.discardVersion := by
  unfold kept
  rw [List.mem_filter, Bool.not_eq_true', ← Bool.not_eq_true, shouldDeleteSimulator_iff]
  refine and_congr_right fun _ => ?_
  push Not
  rfl

/-- It makes no difference whether an index is compared with the set before the deletion or with
the set after it. -/
theorem shouldAddSimulator_kept (hnew : (newIndexes.map DiscoveredIndex.key).Nodup)
    (hm : m ∈ newIndexes) :
    shouldAddSimulator (kept indexes newIndexes) m = shouldAddSimulator indexes m := by
  rw [Bool.eq_iff_iff, shouldAddSimulator_iff, shouldAddSimulator_iff]
  constructor
  · intro h m' hm' heq
    -- The only index that is discovered under the key of the present one is the same.
    refine h m' (mem_kept.mpr ⟨hm', fun m'' hm'' hkey => ?_⟩) heq
    have hkey' : m.key = m''.key := (key_eq_of_discardVersion_eq heq).symm.trans hkey
    rw [← List.inj_on_of_nodup_map hnew hm hm'' hkey']
    exact heq
  · exact fun h m' hm' => h m' (mem_kept.mp hm').1

/-- No index is added under the key of one that is kept. -/
theorem key_ne_of_shouldAddSimulator :
    ∀ m ∈ newIndexes.filter (shouldAddSimulator (kept indexes newIndexes)), ∀ m' ∈ indexes,
      shouldDeleteSimulator newIndexes m' = false → m'.key ≠ m.key := by
  intro m hm m' hm' hkeep hkey
  obtain ⟨hm, hadd⟩ := List.mem_filter.mp hm
  have hkept : m' ∈ kept indexes newIndexes := by
    refine List.mem_filter.mpr ⟨hm', ?_⟩
    rw [hkeep]
    rfl
  exact shouldAddSimulator_iff.mp hadd m' hkept ((mem_kept.mp hkept).2 m hm hkey)

/-- There is one index under every key when new ones were added under other keys than those that
are kept. -/
theorem nodup_keys_append {forDelete : DiscoveredIndex → Bool} {news : List DiscoveredIndex}
    (hcurr : (indexes.map DiscoveredIndex.key).Nodup)
    (hnews : (news.map DiscoveredIndex.key).Nodup)
    (hfresh : ∀ m ∈ news, ∀ m' ∈ indexes, forDelete m' = false → m'.key ≠ m.key) :
    (((indexes.filter fun idx => !forDelete idx) ++ news).map DiscoveredIndex.key).Nodup := by
  rw [List.map_append]
  refine List.Nodup.append (hcurr.sublist (List.filter_sublist.map _)) hnews ?_
  intro key hkept hadded
  obtain ⟨m', hm', rfl⟩ := List.mem_map.mp hkept
  obtain ⟨m, hm, hkey⟩ := List.mem_map.mp hadded
  obtain ⟨hm', hkeep⟩ := List.mem_filter.mp hm'
  exact hfresh m hm m' hm' (by simpa using hkeep) hkey.symm

/-- What is announced is what is built, with one index under every key. -/
theorem discoveredIndexesSimulator_eq (hcurr : (indexes.map DiscoveredIndex.key).Nodup)
    (hnew : (newIndexes.map DiscoveredIndex.key).Nodup) :
    discoveredIndexesSimulator indexes newIndexes = (built indexes newIndexes).toFinset ∧
      ((built indexes newIndexes).map DiscoveredIndex.key).Nodup := by
  constructor
  · have hadd : newIndexes.filter (shouldAddSimulator (kept indexes newIndexes)) =
        newIndexes.filter (shouldAddSimulator indexes) :=
      List.filter_congr fun m hm => shouldAddSimulator_kept hnew hm
    rw [built, hadd]
    rfl
  · exact nodup_keys_append hcurr (hnew.sublist (List.filter_sublist.map _))
      key_ne_of_shouldAddSimulator

end MonitorIndexes

namespace MonitoredNode

open MonitorIndexes

/-- The discovery finds different keys and the engine fails to add no index; `node_state` learns
about discoveries from the monitor only. -/
def Action.Valid : Action → Prop
  | .tick _ t => ∀ newIndexes ∈ t.newIndexes,
      (newIndexes.map DiscoveredIndex.key).Nodup ∧ ∀ m ∈ newIndexes, t.fails m = false
  | .event e => ∀ indexes, e ≠ .indexesDiscovered indexes

/-- The node knows exactly the indexes of the monitor, and waits for none but these. -/
structure InStep (s : MonitoredNode) : Prop where
  reconciled : s.monitor.Reconciled
  keys : (s.monitor.indexes.map DiscoveredIndex.key).Nodup
  statuses : ∀ key, (s.node.idxs key).isSome ↔ ∃ m ∈ s.monitor.indexes, m.key = key
  waiting : ∀ initialIdxs ∈ s.node.initialIdxs, ∀ m ∈ initialIdxs, m ∈ s.monitor.indexes

theorem inStep_init : init.InStep where
  reconciled := MonitorIndexes.State.reconciled_init
  keys := List.nodup_nil
  statuses key := ⟨fun h => (by cases h), fun ⟨m, hm, _⟩ => (by cases hm)⟩
  waiting initialIdxs h := by cases h

/-- What the node knows when it has been told of the indexes of the monitor. -/
theorem InStep.of_discovered {monitor : MonitorIndexes.State} (hs : monitor.Reconciled)
    (hkeys : (monitor.indexes.map DiscoveredIndex.key).Nodup) (node : NodeState)
    {discovered : Finset DiscoveredIndex} (h : ∀ m, m ∈ discovered ↔ m ∈ monitor.indexes) :
    InStep ⟨monitor, Machine.run NodeState.step node
      [.discoveringIndexes, .indexesDiscovered discovered]⟩ where
  reconciled := hs
  keys := hkeys
  statuses key := by
    change (NodeState.updateIndexes node.discovering.idxs
      (discovered.image DiscoveredIndex.key) key).isSome ↔ _
    rw [NodeState.isSome_updateIndexes, Finset.mem_image]
    exact exists_congr fun m => and_congr_left fun _ => h m
  waiting initialIdxs hinitial m hm := by
    change initialIdxs ∈ (node.discovering.discovered discovered).initialIdxs at hinitial
    rw [NodeState.initialIdxs_discovered] at hinitial
    rw [← Option.some_inj.mp hinitial] at hm
    exact (h m).mp (Finset.mem_filter.mp hm).2

end MonitoredNode

namespace MonitorIndexes

namespace State

variable {s : State} {fails : DiscoveredIndex → Bool}

/-- Without failures, the monitor ends up with the indexes that were kept and those selected to be
added. -/
theorem indexes_updateWith (simulator : Bool) (s : State)
    (hfails : ∀ m ∈ newIndexes, fails m = false) :
    (s.updateWith simulator newIndexes fails).1.indexes =
      let forDelete :=
        if simulator then shouldDeleteSimulator newIndexes else shouldDelete newIndexes
      let forAdd := if simulator then shouldAddSimulator else shouldAdd
      let kept := s.indexes.filter fun idx => !forDelete idx
      kept ++ newIndexes.filter (forAdd kept) :=
  congrArg (_ ++ ·) (congrArg Prod.fst
    (addIndexes_of_succeeds (fun m hm => hfails m (List.mem_of_mem_filter hm)) _))

/-- Without failures, the node is told of the indexes of the monitor after the tick. -/
theorem Reconciled.updateWith (hs : s.Reconciled)
    (hkeys : (s.indexes.map DiscoveredIndex.key).Nodup) (simulator : Bool)
    (hnew : (newIndexes.map DiscoveredIndex.key).Nodup)
    (hfails : ∀ m ∈ newIndexes, fails m = false) :
    (s.updateWith simulator newIndexes fails).1.Reconciled ∧
      ((s.updateWith simulator newIndexes fails).1.indexes.map DiscoveredIndex.key).Nodup ∧
      ∀ m, m ∈ (if simulator then discoveredIndexesSimulator s.indexes newIndexes
          else newIndexes.toFinset) ↔
        m ∈ (s.updateWith simulator newIndexes fails).1.indexes := by
  cases simulator with
  | false =>
    obtain ⟨hreconciled, hindexes⟩ := hs.update hnew fails
    have hadded := indexes_updateWith false s hfails
    have hsucceeds : (s.update newIndexes fails).2 = false :=
      congrArg Prod.snd (addIndexes_of_succeeds (fun m hm => hfails m (List.mem_of_mem_filter hm)) _)
    have hnodup := nodup_keys_append hkeys (hnew.sublist (List.filter_sublist.map _))
      (State.key_ne_of_shouldAdd hnew)
    refine ⟨hreconciled, hadded ▸ hnodup, fun m => ?_⟩
    exact List.mem_toFinset.trans (hindexes hsucceeds m).symm
  | true =>
    obtain ⟨hmirrors, -⟩ := hs.replace (shouldDeleteSimulator newIndexes)
      (hnew.sublist (List.filter_sublist.map _)) key_ne_of_shouldAddSimulator fails
    obtain ⟨hannounced, hnodup⟩ := discoveredIndexesSimulator_eq hkeys hnew
    have hindexes := indexes_updateWith true s hfails
    refine ⟨hmirrors, hindexes ▸ hnodup, fun m => ?_⟩
    rw [if_pos rfl, hannounced, List.mem_toFinset, hindexes]
    rfl

end State

end MonitorIndexes

namespace MonitoredNode

open MonitorIndexes

variable {s : MonitoredNode}

/-- An event of another sender changes what the node knows of no index, and it waits for no more
indexes. -/
theorem InStep.event (h : s.InStep) {event : Event}
    (hother : ∀ indexes, event ≠ .indexesDiscovered indexes) : (s.step (.event event)).InStep := by
  have hnode : (∀ key, ((s.node.step event).idxs key).isSome = (s.node.idxs key).isSome) ∧
      ∀ initialIdxs' ∈ (s.node.step event).initialIdxs, ∃ initialIdxs ∈ s.node.initialIdxs,
        initialIdxs' ⊆ initialIdxs := by
    have hsame : ∀ initialIdxs' ∈ s.node.initialIdxs, ∃ initialIdxs ∈ s.node.initialIdxs,
        initialIdxs' ⊆ initialIdxs := fun initialIdxs' h => ⟨initialIdxs', h, subset_rfl⟩
    cases event with
    | connectingToDb | connectedToDb => exact ⟨fun _ => rfl, hsame⟩
    | discoveringIndexes =>
      refine ⟨fun key => ?_, ?_⟩
      · exact congrArg Option.isSome (congrFun (NodeState.idxs_discovering s.node) key)
      · exact (NodeState.initialIdxs_discovering s.node).symm ▸ hsame
    | indexesDiscovered indexes => exact absurd rfl (hother indexes)
    | fullScanStarted metadata =>
      exact ⟨fun key => NodeState.isSome_setIndexStatus .., hsame⟩
    | fullScanFinished metadata =>
      refine ⟨fun key => ?_, fun initialIdxs' hinitial => ?_⟩
      · change ((s.node.scanned metadata).idxs key).isSome = _
        rw [NodeState.idxs_scanned, NodeState.isSome_setIndexStatus]
      · change initialIdxs' ∈ (s.node.scanned metadata).initialIdxs at hinitial
        unfold NodeState.scanned at hinitial
        cases hwait : s.node.initialIdxs with
        | none =>
          rw [hwait] at hinitial
          exact absurd hinitial (by simp)
        | some initialIdxs =>
          rw [hwait] at hinitial
          refine ⟨initialIdxs, rfl, ?_⟩
          rw [← Option.some_inj.mp hinitial]
          exact Finset.erase_subset ..
  refine ⟨h.reconciled, h.keys, fun key => ?_, fun initialIdxs' hinitial m hm => ?_⟩
  · change ((s.node.step event).idxs key).isSome ↔ _
    rw [hnode.1 key]
    exact h.statuses key
  · obtain ⟨initialIdxs, hwait, hsubset⟩ := hnode.2 initialIdxs' hinitial
    exact h.waiting initialIdxs hwait m (hsubset hm)

/-- Every tick whose additions succeed and every event keep the node in step with the monitor. -/
theorem InStep.step (h : s.InStep) {action : Action} (hvalid : action.Valid) :
    (s.step action).InStep := by
  cases action with
  | event event => exact h.event hvalid
  | tick simulator tick =>
    unfold MonitoredNode.step State.tickWith
    dsimp only
    split
    · exact ⟨h.reconciled, h.keys, h.statuses, h.waiting⟩
    · split
      · next hnone =>
        have hevent : (s.step (.event .discoveringIndexes)).InStep :=
          h.event fun _ => by rintro ⟨⟩
        exact ⟨hevent.reconciled, hevent.keys, hevent.statuses, hevent.waiting⟩
      · next newIndexes hnew =>
        obtain ⟨hnodup, hsucceeds⟩ := hvalid newIndexes hnew
        have hs : State.Reconciled { s.monitor with
          schemaVersion := (s.monitor.schemaVersion.hasChanged tick.version).1 } := h.reconciled
        obtain ⟨hreconciled, hkeys, hdiscovered⟩ := hs.updateWith h.keys simulator hnodup hsucceeds
        exact InStep.of_discovered hreconciled hkeys s.node hdiscovered

theorem inStep_run {actions : List Action} (hvalid : ∀ action ∈ actions, action.Valid) :
    (Machine.run step init actions).InStep :=
  Machine.run_invariant_of_along (fun _ _ h hvalid => h.step hvalid) inStep_init
    (Machine.along_of_forall hvalid _)

end MonitoredNode

/-- What the simulator announces is what the monitor has after the deletion and the addition, with
one index under every key.  In every run, the node knows exactly the indexes of the engine, and it
waits only for indexes that the engine holds. -/
theorem simulator_announces_built :
    (∀ (s : MonitorIndexes.State) (newIndexes : List DiscoveredIndex)
        (fails : DiscoveredIndex → Bool), (s.indexes.map DiscoveredIndex.key).Nodup →
      (newIndexes.map DiscoveredIndex.key).Nodup → (∀ m ∈ newIndexes, fails m = false) →
      MonitorIndexes.discoveredIndexesSimulator s.indexes newIndexes =
          (s.updateWith true newIndexes fails).1.indexes.toFinset ∧
        ((s.updateWith true newIndexes fails).1.indexes.map DiscoveredIndex.key).Nodup) ∧
    ∀ actions : List MonitoredNode.Action, (∀ action ∈ actions, action.Valid) →
      let s := Machine.run MonitoredNode.step .init actions
      (∀ key, (s.node.idxs key).isSome ↔ s.monitor.engine.containsKey key) ∧
        ∀ initialIdxs ∈ s.node.initialIdxs, ∀ m ∈ initialIdxs, s.monitor.engine.Holds m.key m := by
  constructor
  · intro s newIndexes fails hcurr hnew hfails
    rw [MonitorIndexes.State.indexes_updateWith true s hfails]
    exact MonitorIndexes.discoveredIndexesSimulator_eq hcurr hnew
  · intro actions hvalid
    have h := MonitoredNode.inStep_run hvalid
    refine ⟨fun key => ?_, fun initialIdxs hinitial m hm => ?_⟩
    · rw [h.statuses key, h.reconciled.containsKey_iff]
      rfl
    · exact ⟨m.kind, (h.reconciled.entries m.kind m.key m).mpr
        ⟨h.waiting initialIdxs hinitial m hm, rfl, rfl⟩⟩

namespace Sample

/-- The index with another quantization. -/
def altered (version : Uuid) : DiscoveredIndex :=
  { indexVersion version with options := .vs { dimensions := Nat.toPNat' 3, quantization := .i8 } }

/-- An index is discovered, gets a new version and is altered. -/
def alterations : List MonitoredNode.Action :=
  [.tick true ⟨some 1, some [indexVersion 1], false, fun _ => false⟩,
    .tick true ⟨some 2, some [indexVersion 2], false, fun _ => false⟩,
    .tick true ⟨some 3, some [altered 3], false, fun _ => false⟩]

/-- The new version is not built, the altered index is. -/
example : (Machine.run MonitoredNode.step .init (alterations.take 2)).monitor.indexes =
      [indexVersion 1] ∧
    (Machine.run MonitoredNode.step .init alterations).monitor.indexes = [altered 3] := by
  decide +kernel

end Sample

theorem simulator_announces_altered :
    MonitorIndexes.discoveredIndexesSimulator [Sample.indexVersion 1] [Sample.altered 3] =
        (MonitorIndexes.State.updateWith true ⟨.new, [Sample.indexVersion 1], .new⟩
          [Sample.altered 3] fun _ => false).1.indexes.toFinset ∧
      ∀ key, ((Machine.run MonitoredNode.step .init Sample.alterations).node.idxs key).isSome ↔
        (Machine.run MonitoredNode.step .init Sample.alterations).monitor.engine.containsKey key := by
  refine ⟨(simulator_announces_built.1 ⟨.new, [Sample.indexVersion 1], .new⟩ [Sample.altered 3] _
      (by decide) (by decide) fun _ _ => rfl).1,
    (simulator_announces_built.2 Sample.alterations fun action hmem => ?_).1⟩
  unfold Sample.alterations at hmem
  simp only [List.mem_cons, List.not_mem_nil, or_false] at hmem
  rcases hmem with rfl | rfl | rfl <;>
  · rintro newIndexes hnew
    obtain rfl := Option.some_inj.mp hnew
    exact ⟨by decide, fun _ _ => rfl⟩

end VectorStore
