import VectorStore.Node.Connection

/-!
# The status of the node after a reconnection

Only the discovery of indexes leaves the status `connectingToDb`, and the monitor runs it only when
the schema version has changed.  So a tick restores the status exactly when the version that it learns
is not the one it remembers, or there is nothing to restore.
-/

namespace VectorStore

namespace Connection

namespace State

/-- After a tick that found a session, without a connection attempted since, the status is not
`connectingToDb`, and a node whose initial indexes are built serves. -/
def Restored (s : State) : Prop :=
  s.phase = .idle → s.connected → s.node.status ≠ .connectingToDb ∧
    (s.node.initialIdxs = some ∅ → s.node.status = .serving)

/-- A tick that learns the schema version it remembers finds another status than `connectingToDb`. -/
def LeavesConnecting (s : State) : Action → Prop
  | .tick version => version = some s.schemaVersion.version → s.node.status ≠ .connectingToDb
  | _ => True

instance (s : State) (a : Action) : Decidable (s.LeavesConnecting a) :=
  match a with
  | .tick version => inferInstanceAs
    (Decidable (version = some s.schemaVersion.version → s.node.status ≠ .connectingToDb))
  | .connect | .connected _ | .cancel | .discover | .list _ | .update _ | .scanStarted _
  | .scanFinished _ =>
    inferInstanceAs (Decidable True)

/-- A node whose initial indexes are built serves unless it connects, and after the events of the
discovery the status is not `connectingToDb`. -/
structure Shaped (s : State) : Prop where
  built : s.node.initialIdxs = some ∅ →
    s.node.status = .serving ∨ s.node.status = .connectingToDb
  discovered : s.phase = .listing ∨ s.phase = .updating → s.connected →
    s.node.status ≠ .connectingToDb

variable {s : State} {a : Action} {as : List Action}

theorem shaped_init : init.Shaped where
  built h := by cases h
  discovered h := by rcases h with h | h <;> cases h

/-- A node with a status other than `connectingToDb`, whose initial indexes are built, serves. -/
theorem Shaped.restored (hs : s.Shaped) (h : s.node.status ≠ .connectingToDb) :
    s.node.status ≠ .connectingToDb ∧ (s.node.initialIdxs = some ∅ → s.node.status = .serving) :=
  ⟨h, fun hinitial => (hs.built hinitial).resolve_right h⟩

/-- After a discovery the status is not `connectingToDb`. -/
theorem status_discovered_ne (node : NodeState) (indexes : Finset DiscoveredIndex) :
    (node.discovered indexes).status ≠ .connectingToDb := by
  rw [NodeState.status_discovered]
  split <;> rintro ⟨⟩

/-- Before a discovery the status is not `connectingToDb` any more. -/
theorem status_discovering_ne (node : NodeState) :
    node.discovering.status ≠ .connectingToDb := by
  rw [NodeState.status_discovering]
  split
  · split
    · split <;> rintro ⟨⟩
    · rintro ⟨⟩
  · next h => exact fun heq => h (Or.inr heq)

/-- A full scan does not lead to `connectingToDb`, and it makes a node whose initial indexes are built
serve. -/
theorem scanned_cases (node : NodeState) (metadata : DiscoveredIndex) :
    ((node.scanned metadata).status = .serving ∨
        (node.scanned metadata).status = node.status ∧
          (node.scanned metadata).initialIdxs ≠ some ∅) := by
  unfold NodeState.scanned
  cases node.initialIdxs with
  | none => exact Or.inr ⟨rfl, by rintro ⟨⟩⟩
  | some initialIdxs =>
    dsimp only
    split
    · exact Or.inl rfl
    · next hne => exact Or.inr ⟨rfl, fun h => hne (Option.some_inj.mp h)⟩

/-- Every step keeps the shape. -/
theorem Shaped.step (hs : s.Shaped) (ha : Enabled s a) : (Connection.step s a).Shaped := by
  cases a with
  | connect => exact ⟨fun _ => Or.inr rfl, fun _ h => by cases h⟩
  | connected ok =>
    cases ok with
    | true => exact ⟨hs.built, hs.discovered⟩
    | false => exact ⟨hs.built, hs.discovered⟩
  | cancel => exact ⟨hs.built, hs.discovered⟩
  | tick version =>
    have hidle : (s.tick version).phase = .changed ∨ (s.tick version).phase = .idle :=
      ite_eq_or_eq ..
    refine ⟨hs.built, fun hphase => ?_⟩
    change (s.tick version).phase = _ ∨ (s.tick version).phase = _ at hphase
    rcases hidle with h | h <;> rw [h] at hphase <;> rcases hphase with h | h <;> cases h
  | discover =>
    refine ⟨fun hinitial => ?_, fun _ _ => status_discovering_ne s.node⟩
    change s.node.discovering.initialIdxs = _ at hinitial
    rw [NodeState.initialIdxs_discovering] at hinitial
    refine Or.inl ?_
    change s.node.discovering.status = _
    rw [NodeState.status_discovering, hinitial]
    split
    · exact if_pos rfl
    · next hne =>
      exact (hs.built hinitial).resolve_right fun heq => hne (Or.inr heq)
  | list discovered =>
    cases discovered with
    | none => exact ⟨hs.built, fun h => by rcases h with h | h <;> cases h⟩
    | some indexes =>
      refine ⟨fun hinitial => Or.inl ?_, fun _ _ => status_discovered_ne s.node indexes⟩
      change (s.node.discovered indexes).initialIdxs = _ at hinitial
      rw [NodeState.initialIdxs_discovered] at hinitial
      change (s.node.discovered indexes).status = _
      rw [NodeState.status_discovered, Option.some_inj.mp hinitial, if_pos rfl]
  | update hasFailures => exact ⟨hs.built, fun h => by rcases h with h | h <;> cases h⟩
  | scanStarted metadata => exact ⟨hs.built, hs.discovered⟩
  | scanFinished metadata =>
    rcases scanned_cases s.node metadata with hserving | ⟨hstatus, hinitial⟩
    · refine ⟨fun _ => Or.inl hserving, fun _ _ => ?_⟩
      change (s.node.scanned metadata).status ≠ _
      rw [hserving]
      rintro ⟨⟩
    · refine ⟨fun h => absurd h hinitial, fun hphase hconnected => ?_⟩
      change (s.node.scanned metadata).status ≠ _
      rw [hstatus]
      exact hs.discovered hphase hconnected

/-- A step leaves a restored state restored exactly when it leaves no node connecting. -/
theorem restored_step_iff (hs : s.Shaped) (hrestored : s.Restored) (ha : Enabled s a) :
    (Connection.step s a).Restored ↔ s.LeavesConnecting a := by
  cases a with
  | connect => exact iff_of_true (fun _ h => by cases h) trivial
  | connected ok =>
    cases ok with
    | true => exact iff_of_true hrestored trivial
    | false => exact iff_of_true hrestored trivial
  | cancel => exact iff_of_true hrestored trivial
  | tick version =>
    cases version with
    | none => exact iff_of_true (fun _ hconnected => hrestored ha.1 hconnected) (by rintro ⟨⟩)
    | some version =>
      have hstep : Connection.step s (.tick (some version)) =
          if s.schemaVersion.version = version then
            { s with phase := .idle, connected := true }
          else { s with schemaVersion := ⟨version⟩, phase := .changed, connected := true } := by
        unfold Connection.step tick SchemaVersion.hasChanged
        dsimp only
        split <;> rfl
      rw [hstep]
      by_cases hversion : s.schemaVersion.version = version
      · rw [if_pos hversion]
        constructor
        · exact fun h _ => (h rfl rfl).1
        · exact fun h _ _ => hs.restored (h (congrArg some hversion.symm))
      · rw [if_neg hversion]
        refine iff_of_true (fun h => by cases h) fun h => ?_
        exact absurd (Option.some_inj.mp h).symm hversion
  | discover => exact iff_of_true (fun h => by cases h) trivial
  | list discovered =>
    cases discovered with
    | none =>
      exact iff_of_true (fun _ hconnected => hs.restored (hs.discovered (Or.inl ha) hconnected))
        trivial
    | some indexes => exact iff_of_true (fun h => by cases h) trivial
  | update hasFailures =>
    exact iff_of_true (fun _ hconnected => hs.restored (hs.discovered (Or.inr ha) hconnected))
      trivial
  | scanStarted metadata => exact iff_of_true hrestored trivial
  | scanFinished metadata =>
    refine iff_of_true (fun hphase hconnected => ?_) trivial
    change (s.node.scanned metadata).status ≠ _ ∧
      ((s.node.scanned metadata).initialIdxs = _ → (s.node.scanned metadata).status = _)
    rcases scanned_cases s.node metadata with hserving | ⟨hstatus, hinitial⟩
    · rw [hserving]
      exact ⟨by rintro ⟨⟩, fun _ => rfl⟩
    · rw [hstatus]
      exact ⟨(hrestored hphase hconnected).1, fun h => absurd h hinitial⟩

end State

/-- Along every run the status is restored after every tick exactly when no tick that learns the
schema version it remembers finds the status `connectingToDb`. -/
theorem restored_along_iff {as : List Action} (has : Machine.Along step Enabled .init as) :
    Machine.Along step (fun s a => (step s a).Restored) .init as ↔
      Machine.Along step State.LeavesConnecting .init as := by
  have hboth := @Machine.along_congr _ _ step (fun s : State => s.Shaped ∧ s.Restored)
    (fun s a => Enabled s a ∧ (step s a).Restored) (fun s a => Enabled s a ∧ s.LeavesConnecting a)
    (fun s a hs => and_congr_right fun ha => State.restored_step_iff hs.1 hs.2 ha)
    (fun s a hs ha => ⟨hs.1.step ha.1, ha.2⟩) .init
    ⟨State.shaped_init, fun _ h => by cases h⟩ as
  rw [Machine.along_and, Machine.along_and, and_iff_right has, and_iff_right has] at hboth
  exact hboth

namespace Sample

/-- A node without indexes serves, then the session is cancelled and connected again. -/
def reconnected (version : Uuid) : List Action :=
  [.connect, .connected true, .tick (some 1), .discover, .list (some ∅), .update false, .cancel,
    .connect, .connected true, .tick (some version)]

/-- The tick that learns another version runs to its end. -/
def relearned : List Action := reconnected 2 ++ [.discover, .list (some ∅), .update false]

end Sample

theorem restored_along_iff_reconnected :
    Machine.Along step (fun s a => (step s a).Restored) .init Sample.relearned ↔
      Machine.Along step State.LeavesConnecting .init Sample.relearned :=
  restored_along_iff (by decide +kernel)

/-- The node serves again. -/
example : (Machine.run step .init Sample.relearned).node.status = .serving := by
  decide +kernel

/-- The schema version has not changed while the node was disconnected: it stays connecting. -/
theorem not_always_restored :
    ¬∀ as, Machine.Along step Enabled .init as → (Machine.run step .init as).Restored := by
  intro h
  have hrestored := (h (Sample.reconnected 1) (by decide +kernel) (by decide +kernel)
    (by decide +kernel)).1
  revert hrestored
  decide +kernel

end Connection

end VectorStore
