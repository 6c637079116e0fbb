import VectorStore.Node.NodeState

/-!
# The node serves once its initial indexes are settled

The indexes of the first discovery leave the set of initial indexes when their full scan finishes or
when a later discovery does not find them any more, and the node serves only when this set is empty.
-/

namespace VectorStore

namespace NodeState

/-- A full scan of the index has finished, or a discovery has not found it. -/
def SettledBy (events : List Event) (m : DiscoveredIndex) : Prop :=
  .fullScanFinished m ∈ events ∨ ∃ indexes, .indexesDiscovered indexes ∈ events ∧ m ∉ indexes

/-- The first discovery of a run, with the events before and after it. -/
structure FirstDiscovery (events before : List Event) (indexes : Finset DiscoveredIndex)
    (after : List Event) : Prop where
  eq : events = before ++ .indexesDiscovered indexes :: after
  first : ∀ indexes', .indexesDiscovered indexes' ∉ before

/-- The initial indexes that are still to be built are those of the first discovery that are not
settled, and the node serves only when there are none. -/
structure Follows (events : List Event) (s : NodeState) : Prop where
  undiscovered : s.initialIdxs = none → ∀ indexes, .indexesDiscovered indexes ∉ events
  discovered : ∀ initialIdxs, s.initialIdxs = some initialIdxs →
    ∃ before indexes after, FirstDiscovery events before indexes after ∧
      ∀ m ∈ indexes, m ∈ initialIdxs ∨ SettledBy after m
  serving : s.status = .serving → s.initialIdxs = some ∅

variable {s : NodeState} {events : List Event} {m : DiscoveredIndex}

theorem SettledBy.append (h : SettledBy events m) (event : Event) :
    SettledBy (events ++ [event]) m := by
  rcases h with h | ⟨indexes, h, hm⟩
  · exact Or.inl (List.mem_append_left _ h)
  · exact Or.inr ⟨indexes, List.mem_append_left _ h, hm⟩

theorem FirstDiscovery.append {before after : List Event} {indexes : Finset DiscoveredIndex}
    (h : FirstDiscovery events before indexes after) (event : Event) :
    FirstDiscovery (events ++ [event]) before indexes (after ++ [event]) where
  eq := by rw [h.eq, List.append_assoc, List.cons_append]
  first := h.first

theorem follows_init : Follows [] init where
  undiscovered _ _ h := by cases h
  discovered _ h := by cases h
  serving h := by cases h

/-- The initial indexes shrink, and those that leave them are settled by the event. -/
theorem Follows.shrink {t : NodeState} (hs : Follows events s) {event : Event}
    (hevent : ∀ indexes, event = .indexesDiscovered indexes → s.initialIdxs.isSome)
    (hnone : s.initialIdxs = none → t.initialIdxs = none)
    (hsome : ∀ old, s.initialIdxs = some old → ∃ new, t.initialIdxs = some new ∧
      ∀ m ∈ old, m ∈ new ∨ SettledBy [event] m)
    (hserving : t.status = .serving → t.initialIdxs = some ∅) : Follows (events ++ [event]) t where
  undiscovered h indexes hmem := by
    have hold : s.initialIdxs = none := by
      cases hs : s.initialIdxs with
      | none => rfl
      | some old =>
        obtain ⟨new, hnew, -⟩ := hsome old hs
        rw [hnew] at h
        cases h
    rcases List.mem_append.mp hmem with hmem | hmem
    · exact hs.undiscovered hold indexes hmem
    · have := hevent indexes (List.mem_singleton.mp hmem).symm
      rw [hold] at this
      cases this
  discovered new hnew := by
    cases hold : s.initialIdxs with
    | none =>
      rw [hnone hold] at hnew
      cases hnew
    | some old =>
      obtain ⟨before, indexes, after, hfirst, hsettled⟩ := hs.discovered old hold
      obtain ⟨new', hnew', hleft⟩ := hsome old hold
      obtain rfl : new' = new := Option.some_inj.mp (hnew'.symm.trans hnew)
      refine ⟨before, indexes, after ++ [event], hfirst.append event, fun m hm => ?_⟩
      rcases hsettled m hm with hm | hm
      · refine (hleft m hm).imp_right fun h => ?_
        rcases h with h | ⟨indexes', h, hm⟩
        · exact Or.inl (List.mem_append_right _ h)
        · exact Or.inr ⟨indexes', List.mem_append_right _ h, hm⟩
      · exact Or.inr (hm.append event)
  serving := hserving

/-- The first discovery. -/
theorem Follows.first (hs : Follows events s) (hnone : s.initialIdxs = none)
    (indexes : Finset DiscoveredIndex) :
    Follows (events ++ [.indexesDiscovered indexes]) (s.discovered indexes) := by
  have hinitial := initialIdxs_discovered s indexes
  rw [hnone, Option.getD_none, Finset.filter_true_of_mem fun _ hm => hm] at hinitial
  constructor
  case undiscovered =>
    intro h
    rw [hinitial] at h
    cases h
  case discovered =>
    intro initialIdxs h
    obtain rfl : indexes = initialIdxs := Option.some_inj.mp (hinitial.symm.trans h)
    exact ⟨events, indexes, [], ⟨rfl, hs.undiscovered hnone⟩, fun m hm => Or.inl hm⟩
  case serving => exact serving_discovered s indexes

theorem serving_scanned (hs : s.status = .serving → s.initialIdxs = some ∅)
    {metadata : DiscoveredIndex} (h : (s.scanned metadata).status = .serving) :
    (s.scanned metadata).initialIdxs = some ∅ := by
  unfold scanned at h ⊢
  cases hinitial : s.initialIdxs with
  | none =>
    rw [hinitial] at h hs
    cases hs h
  | some initialIdxs =>
    rw [hinitial] at h hs
    dsimp only at h ⊢
    split at h
    · next hempty => rw [hempty]
    · rw [Option.some_inj.mp (hs h), Finset.erase_empty]

/-- The node serves when indexes are about to be discovered and no initial indexes are left. -/
theorem serving_discovering (hs : s.status = .serving → s.initialIdxs = some ∅)
    (h : s.discovering.status = .serving) : s.initialIdxs = some ∅ := by
  rw [status_discovering] at h
  split at h
  · split at h
    · next initialIdxs hinitial =>
      split at h
      · next hempty => rw [hinitial, hempty]
      · cases h
    · cases h
  · exact hs h

/-- Every event is followed. -/
theorem Follows.step (hs : Follows events s) (event : Event) :
    Follows (events ++ [event]) (s.step event) := by
  have hsame : ∀ old, s.initialIdxs = some old →
      ∃ new, s.initialIdxs = some new ∧ ∀ m ∈ old, m ∈ new ∨ SettledBy [event] m :=
    fun old h => ⟨old, h, fun m hm => Or.inl hm⟩
  cases event with
  | connectingToDb => exact hs.shrink (by rintro _ ⟨⟩) id hsame (by rintro ⟨⟩)
  | connectedToDb | fullScanStarted =>
    exact hs.shrink (by rintro _ ⟨⟩) id hsame hs.serving
  | discoveringIndexes =>
    have hinitial : s.discovering.initialIdxs = s.initialIdxs := initialIdxs_discovering s
    refine hs.shrink (by rintro _ ⟨⟩) (fun h => hinitial.trans h) (fun old h => ?_) fun h => ?_
    · exact ⟨old, hinitial.trans h, fun m hm => Or.inl hm⟩
    · exact hinitial.trans (serving_discovering hs.serving h)
  | indexesDiscovered indexes =>
    cases hinitial : s.initialIdxs with
    | none => exact hs.first hinitial indexes
    | some old =>
      refine hs.shrink (fun _ _ => by rw [hinitial]; rfl) (fun h => ?_) (fun old' hold => ?_)
        (serving_discovered s indexes)
      · rw [hinitial] at h
        cases h
      · obtain rfl : old = old' := Option.some_inj.mp (hinitial.symm.trans hold)
        refine ⟨old.filter fun idx => idx ∈ indexes, ?_, fun m hm => ?_⟩
        · change (s.discovered indexes).initialIdxs = _
          rw [initialIdxs_discovered, hinitial, Option.getD_some]
        · by_cases hfound : m ∈ indexes
          · exact Or.inl (Finset.mem_filter.mpr ⟨hm, hfound⟩)
          · exact Or.inr (Or.inr ⟨indexes, List.mem_singleton_self _, hfound⟩)
  | fullScanFinished metadata =>
    change Follows _ (s.scanned metadata)
    refine hs.shrink (by rintro _ ⟨⟩) (fun h => ?_) (fun old h => ?_) fun h => ?_
    · unfold scanned
      rw [h]
    · refine ⟨old.erase metadata, ?_, fun m hm => ?_⟩
      · unfold scanned
        rw [h]
      · by_cases heq : m = metadata
        · rw [heq]
          exact Or.inr (Or.inl (List.mem_singleton_self _))
        · exact Or.inl (Finset.mem_erase_of_ne_of_mem heq hm)
    · exact serving_scanned hs.serving h

/-- Once the node serves, only a new connection changes its status. -/
theorem serving_step (hserving : s.status = .serving) (hinitial : s.initialIdxs = some ∅)
    {event : Event} (hevent : event ≠ .connectingToDb) : (s.step event).status = .serving := by
  cases event with
  | connectingToDb => exact absurd rfl hevent
  | connectedToDb | fullScanStarted => exact hserving
  | discoveringIndexes =>
    change s.discovering.status = _
    rw [status_discovering, hserving, if_neg (by decide)]
  | indexesDiscovered indexes =>
    change (s.discovered indexes).status = _
    rw [status_discovered, hinitial, Option.getD_some, Finset.filter_empty, if_pos rfl]
  | fullScanFinished metadata =>
    change (s.scanned metadata).status = _
    unfold scanned
    rw [hinitial]
    dsimp only
    rw [Finset.erase_empty, if_pos rfl]

theorem follows_run (events : List Event) : Follows events (Machine.run step init events) := by
  induction events using List.reverseRecOn with
  | nil => exact follows_init
  | append_singleton events event ih =>
    rw [Machine.run_append]
    exact ih.step event

/-- When the node serves, there has been a discovery, and every index of the first one is settled by
the events after it.  From then on only a new connection changes the status. -/
theorem serving_settled (events : List Event)
    (hserving : (Machine.run step init events).status = .serving) :
    (∃ before indexes after, FirstDiscovery events before indexes after ∧
      ∀ m ∈ indexes, SettledBy after m) ∧
    ∀ event ≠ .connectingToDb,
      (Machine.run step init (events ++ [event])).status = .serving := by
  have hfollows := follows_run events
  have hinitial := hfollows.serving hserving
  constructor
  · obtain ⟨before, indexes, after, hfirst, hsettled⟩ := hfollows.discovered ∅ hinitial
    exact ⟨before, indexes, after, hfirst, fun m hm =>
      (hsettled m hm).resolve_left (Finset.notMem_empty m)⟩
  · intro event hevent
    rw [Machine.run_append]
    exact serving_step hserving hinitial hevent

end NodeState

/-- A node with one index that is scanned and then no longer found. -/
theorem NodeState.serving_settled_indexVersion :
    let events := [.connectingToDb, .connectedToDb, .discoveringIndexes,
      .indexesDiscovered {Sample.indexVersion 1}, .fullScanStarted (Sample.indexVersion 1),
      .fullScanFinished (Sample.indexVersion 1), .indexesDiscovered ∅]
    (∃ before indexes after, FirstDiscovery events before indexes after ∧
      ∀ m ∈ indexes, SettledBy after m) ∧
    ∀ event ≠ .connectingToDb,
      (Machine.run step init (events ++ [event])).status = .serving :=
  serving_settled _ (by decide +kernel)

end VectorStore
