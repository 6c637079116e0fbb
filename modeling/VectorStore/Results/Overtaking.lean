import VectorStore.Results.InOrder
import VectorStore.VsIndex.DiskannSettling

/-!
# DiskANN tasks that overtake each other

The tasks of the DiskANN actor run in any order the workers allow.  A removal that is called before
the insertion it is for finds nothing, and the insertion leaves a vector behind that nobody removes.
In every run in which no task overtakes an earlier one for the same vector, the index serves the
vectors of the messages in order.
-/

namespace VectorStore

namespace Diskann

/-- The modifications that a run of the actor receives. -/
def received (as : List Action) : List VsIndexModify :=
  as.flatMap fun
    | .receive message _ => message.modifications
    | _ => []

/-- The actor may allocate memory, and can create the index of a partition. -/
def Action.Granted : Action → Prop
  | .receive _ environment => environment.allocate = .can ∧ environment.created = true
  | _ => True

instance (a : Action) : Decidable a.Granted :=
  match a with
  | .receive _ environment =>
    inferInstanceAs (Decidable (environment.allocate = .can ∧ environment.created = true))
  | .send | .take _ | .call _ _ | .count _ | .finish _ =>
    inferInstanceAs (Decidable True)

/-- No message is refused. -/
def Unrefused (as : List Action) : Prop := ∀ a ∈ as, a.Granted

instance (as : List Action) : Decidable (Unrefused as) :=
  inferInstanceAs (Decidable (∀ a ∈ as, a.Granted))

namespace State

variable {s : State} {a : Action} {as : List Action} {vectors : Vectors}

/-- What a partition of the index holds under an identifier. -/
def live (s : State) (partitionId : PartitionId) (primaryId : PrimaryId) : Option Vector :=
  (s.partitions.lookup partitionId).bind fun partition => s.contents (partition, primaryId)

/-- The partitions hold exactly these vectors, and the sizes of the indexes are their numbers. -/
structure Serves (s : State) (vectors : Vectors) : Prop where
  live : ∀ partitionId primaryId,
    s.live partitionId primaryId = vectors.lookup (partitionId, primaryId)
  count : ∀ indexId, s.count indexId = vectors.count indexId

/-- The invariants of the actor in a run without overtaking. -/
structure Sound (s : State) : Prop where
  shaped : s.Shaped
  settled : s.Settled
  counted : s.Counted

theorem sound_init (runtime : Runtime) : (init runtime).Sound :=
  ⟨shaped_init runtime, settled_init runtime, counted_init runtime⟩

/-- A message for a partition in use is dispatched. -/
theorem Sound.dispatchTask (hs : s.Sound) {d : Dispatch}
    (hpart : s.partitions.lookup d.partitionId = some d.partition)
    (hadmits : ∀ m ∈ d.messages, s.vectors.Admits m) :
    (State.dispatchTask { s with accepted := s.accepted ++ d.messages } d).Sound where
  shaped := Shaped.dispatchTask hs.shaped.tasks (fun p hp => Or.inr (hs.shaped.sizes p hp))
    hs.shaped.mapped (hs.shaped.mapped _ _ hpart)
  settled := hs.settled.dispatchTask hpart hadmits
  counted := Counted.dispatchTask hs.counted hs.shaped.total_eq_zero

/-- Every step keeps the invariants, when the calls are in turn. -/
theorem Sound.step (hs : s.Sound) (ha : Enabled s a) (hadmits : s.AdmitsMessage a)
    (hanswer : s.Says a) (hturn : s.InTurn a) : (Diskann.step s a).Sound := by
  have heffect := effect ha
  generalize Diskann.step s a = t at heffect
  cases heffect with
  | refused => exact hs
  | @absent p id environment hpart =>
    refine ⟨⟨hs.shaped.tasks, hs.shaped.sizes, hs.shaped.mapped, hs.shaped.sends⟩,
      ⟨hs.settled.deferred, hs.settled.expected, ?_⟩, hs.counted⟩
    have hvectors : (s.accept (.removeVector p id)).vectors =
        s.vectors.apply (.removeVector p id) := Machine.run_append ∅ s.accepted _
    rw [hvectors]
    exact hs.settled.placed.removeVector_of_none hpart id
  | @ended p environment =>
    refine ⟨⟨hs.shaped.tasks, hs.shaped.sizes, fun q a hq => ?_, hs.shaped.sends⟩,
      ⟨hs.settled.deferred, hs.settled.expected, ?_⟩, hs.counted⟩
    · change (s.partitions.erase p).lookup q = some a at hq
      rw [FiniteMap.lookup_erase_eq] at hq
      split at hq
      · cases hq
      · exact hs.shaped.mapped q a hq
    · have hvectors : (s.accept (.removePartition p)).vectors =
          s.vectors.apply (.removePartition p) := Machine.run_append ∅ s.accepted _
      change Placed s.ids (s.partitions.erase p) _ (s.accept (.removePartition p)).vectors
      rw [hvectors]
      exact hs.settled.placed.removePartition hadmits
  | @found message environment d hpart hmessage =>
    refine hs.dispatchTask hpart fun m hm => ?_
    rw [← hmessage] at hm
    cases message with
    | search p => cases hm
    | modify m' =>
      rw [List.mem_singleton.mp hm]
      exact hadmits
  | @created p id v environment hpart =>
    constructor
    case shaped => exact hs.shaped.created
    case settled =>
      have hcreated := hs.settled.create hpart
      have hinsert : (s.create p).partitions.lookup p = some s.arena.length :=
        AList.lookup_insert _
      exact hcreated.dispatchTask (d := ⟨p, s.arena.length, .addVector id v⟩) hinsert
        fun m hm => by
          rw [List.mem_singleton.mp hm]
          exact hadmits
    case counted =>
      refine Counted.dispatchTask (fun ix n hn => ?_) fun hnone => ?_
      · have hcounted := hs.counted ix n hn
        rw [← total_create s p ix] at hcounted
        exact hcounted
      · have hzero := hs.shaped.total_eq_zero hnone
        rw [← total_create s p] at hzero
        exact hzero
  | sent hphase =>
    obtain ⟨task, hget, hstage⟩ := hs.shaped.sends hphase
    exact ⟨hs.shaped.move hget rfl (fun _ => rfl) rfl rfl (fun h => by cases h),
      hs.settled.move hget (by rw [hstage]; rfl) rfl rfl rfl rfl,
      hs.counted.move_of_zero hget rfl (by rw [hstage]; decide)
        (by decide) rfl rfl⟩
  | taken hget hstage =>
    exact ⟨hs.shaped.move hget rfl (fun _ => rfl) rfl rfl
        fun h => ⟨h, by rw [hstage]; decide⟩,
      hs.settled.move hget (by rw [hstage]; rfl) rfl rfl rfl rfl,
      hs.counted.move_of_zero hget rfl (by rw [hstage]; decide)
        (by decide) rfl rfl⟩
  | @called i ok task hget hstage =>
    exact ⟨hs.shaped.move hget (ids_setPartition s _ (partitionId_call _ ok)) (fun _ => rfl) rfl
        rfl fun h => ⟨h, by rw [hstage]; decide⟩,
      hs.settled.called hs.shaped hget hstage hanswer hturn,
      hs.counted.called hs.shaped hget hstage hanswer⟩
  | @counted i task hget hstage =>
    refine ⟨hs.shaped.move hget rfl (fun ix => ?_) rfl
        rfl fun h => ⟨h, by rw [hstage]; decide⟩,
      hs.settled.move hget (by rw [hstage]; rfl) rfl rfl rfl rfl,
      hs.counted.counted hget hstage⟩
    change ((FiniteMap.modify s.sizes _ _).lookup ix).isSome = _
    rw [FiniteMap.lookup_modify]
    split <;> simp
  | finished hget hstage =>
    exact ⟨hs.shaped.move hget rfl (fun _ => rfl) rfl rfl
        fun h => ⟨h, by rw [hstage]; decide⟩,
      hs.settled.move hget (by rw [hstage]; rfl) rfl rfl rfl rfl,
      hs.counted.move_of_zero hget rfl (by rw [hstage]; decide)
        (by decide) rfl rfl⟩

/-! ## Messages that are accepted -/

/-- A message is accepted, or it is an addition that is refused. -/
theorem accepted_step (ha : Enabled s a) :
    (Diskann.step s a).accepted = s.accepted ++ received [a] ∨
      (Diskann.step s a).accepted = s.accepted ∧ ∃ p id v environment,
        a = .receive (.modify (.addVector p id v)) environment ∧
          (environment.allocate = .cannot ∨ environment.created = false) := by
  have heffect := effect ha
  generalize Diskann.step s a = t at heffect
  cases heffect with
  | @refused message environment hrefusable =>
    cases message with
    | search p => exact Or.inl (List.append_nil _).symm
    | modify m =>
      cases m with
      | addVector p id v => exact Or.inr ⟨rfl, p, id, v, environment, rfl, hrefusable⟩
      | removeVector p id => exact hrefusable.elim
      | removePartition p => exact hrefusable.elim
  | absent => exact Or.inl rfl
  | ended => exact Or.inl rfl
  | @found message environment d hpart hmessage =>
    left
    change s.accepted ++ d.messages = s.accepted ++ (message.modifications ++ [])
    rw [hmessage, List.append_nil]
  | created => exact Or.inl rfl
  | _ => exact Or.inl (List.append_nil _).symm

theorem received_cons (a : Action) (as : List Action) :
    received (a :: as) = received [a] ++ received as := by
  simp [received]

/-- Without refusals every message is accepted. -/
theorem accepted_run (has : Machine.Along Diskann.step Enabled s as)
    (hunrefused : Unrefused as) :
    (Machine.run Diskann.step s as).accepted = s.accepted ++ received as := by
  induction as generalizing s with
  | nil => exact (List.append_nil _).symm
  | cons a as ih =>
    have hrest : Unrefused as := fun b hb => hunrefused b (List.mem_cons_of_mem a hb)
    rw [Machine.run_cons, ih has.2 hrest, received_cons, ← List.append_assoc]
    rcases accepted_step has.1 with haccepted | ⟨-, p, id, v, environment, rfl, hrefused⟩
    · rw [haccepted]
    · obtain ⟨hcan, hcreated⟩ := hunrefused _ List.mem_cons_self
      rcases hrefused with hcannot | hnone
      · rw [hcan] at hcannot
        cases hcannot
      · rw [hnone] at hcreated
        cases hcreated

/-- Messages that are admitted when all are accepted are admitted when some are refused. -/
theorem along_admits (has : Machine.Along Diskann.step Enabled s as)
    (hbelow : s.vectors.Below vectors)
    (hadmits : Machine.Along Vectors.apply Vectors.Admits vectors (received as)) :
    Machine.Along Diskann.step AdmitsMessage s as ∧
      (Machine.run Diskann.step s as).vectors.Below (vectors.replay (received as)) := by
  induction as generalizing s vectors with
  | nil => exact ⟨trivial, hbelow⟩
  | cons a as ih =>
    rw [received_cons, Machine.along_append] at hadmits
    obtain ⟨hfirst, hrest⟩ := hadmits
    have hmessage : s.AdmitsMessage a := by
      cases a with
      | receive message environment =>
        cases message with
        | modify m => exact hbelow.admits hfirst.1
        | search p => trivial
      | _ => trivial
    have hstep : (Diskann.step s a).vectors.Below (vectors.replay (received [a])) := by
      rcases accepted_step has.1 with haccepted | ⟨haccepted, p, id, v, environment, rfl, -⟩
      · rw [State.vectors, haccepted, Vectors.replay, Machine.run_append]
        cases a with
        | receive message environment =>
          cases message with
          | modify m => exact hbelow.apply hfirst.1
          | search p => exact hbelow
        | _ => exact hbelow
      · rw [State.vectors, haccepted]
        exact hbelow.addVector hfirst.1
    obtain ⟨hadmits', hbelow'⟩ := ih has.2 hstep hrest
    refine ⟨⟨hmessage, hadmits'⟩, ?_⟩
    rw [received_cons, Vectors.replay, Machine.run_append]
    exact hbelow'

/-! ## Once all tasks have finished -/

/-- With nothing on its way, the index serves the vectors of the accepted messages. -/
theorem Sound.serves (hs : s.Sound) (hquiescent : s.Quiescent)
    (hlength : s.vectors.keys.length ≤ 2 ^ 48) : s.Serves s.vectors := by
  have hpending : s.pending = [] := List.filterMap_eq_nil_iff.mpr fun t ht =>
    if_neg (by rw [hquiescent.2 t ht]; exact Bool.false_ne_true)
  have hdeferred := hs.settled.deferred
  have hplaced := hs.settled.placed
  rw [hpending] at hdeferred
  rw [← hdeferred.eq_replay] at hplaced
  refine ⟨fun p id => ?_, fun ix => ?_⟩
  · unfold live
    cases hp : s.partitions.lookup p with
    | none => rw [Option.bind_none, hplaced.unmapped p hp id]
    | some a => rw [Option.bind_some, hplaced.entry p a hp id]
  · have htotal : s.total ix = s.vectors.count ix := by
      have hcontents : Placed.contentsOf
          (s.arena.map fun partition => (partition.partitionId, partition.live)) =
            s.contents := by
        funext key
        rw [Placed.contentsOf, contents, List.getElem?_map]
        cases s.arena[key.1]? <;> rfl
      have hids : s.ids = (s.arena.map fun partition =>
          (partition.partitionId, partition.live)).map Prod.fst := by
        rw [List.map_map]
        rfl
      rw [hids, ← hcontents] at hplaced
      rw [← hplaced.sum_shelves ix, total, List.map_map]
      rfl
    unfold count
    cases hsize : s.sizes.lookup ix with
    | none =>
      rw [← htotal, (hs.shaped.total_eq_zero hsize).1]
      rfl
    | some n =>
      obtain ⟨hlt, hcounted⟩ := hs.counted ix n hsize
      have howed : (s.tasks.map (owed ix)).sum = 0 := List.sum_eq_zero fun z hz => by
        obtain ⟨t, ht, rfl⟩ := List.mem_map.mp hz
        exact if_neg fun h => by
          rw [hquiescent.2 t ht] at h
          cases h.2
      have hle : s.vectors.count ix ≤ s.vectors.keys.length := List.countP_le_length
      rw [howed, add_zero, htotal, ZMod.natCast_eq_natCast_iff'] at hcounted
      rw [Nat.mod_eq_of_lt hlt, Nat.mod_eq_of_lt (by omega)] at hcounted
      exact hcounted

end State

/-! ## The result -/

section

variable [DecimalNormalizer]

/-- For the messages of every run on a new table, interleaved with any searches, provided that an
insert succeeds if and only if its id is not live, and a delete if and only if it is: when no task is
called before an earlier one for the same vector, the index serves the vectors of the accepted messages
once all tasks have finished, and without refusals these are all messages. -/
theorem serves_unless_overtaken {table : Table} (hnew : table.IsNew) (calls : List Call)
    (runtime : Runtime) {as : List Action}
    (has : Machine.Along step (fun s a => Enabled s a ∧ s.Says a) (.init runtime) as)
    (hturn : Machine.Along step State.InTurn (.init runtime) as)
    (hreceived : received as = (World.init table).messages calls)
    (hquiescent : (Machine.run step (.init runtime) as).Quiescent) :
    (Machine.run step (.init runtime) as).Serves
        (Vectors.replay ∅ (Machine.run step (.init runtime) as).accepted) ∧
      (Unrefused as → (Machine.run step (.init runtime) as).accepted =
        (World.init table).messages calls) := by
  obtain ⟨henabled, hanswer⟩ := Machine.along_and.mp has
  have hworld := World.consistent_init hnew
  obtain ⟨hadmits, hstore⟩ := hworld.messages calls Vectors.inStore_empty
  rw [← hreceived] at hadmits hstore
  obtain ⟨hmessages, hbelow⟩ := State.along_admits (s := .init runtime) henabled
    (Vectors.Below.refl ∅) hadmits
  have hsound : (Machine.run step (.init runtime) as).Sound :=
    @Machine.run_invariant_of_along _ _ step State.Sound
      (fun s a => (Enabled s a ∧ s.Says a) ∧ s.AdmitsMessage a ∧ s.InTurn a)
      (fun s a hs ha => hs.step ha.1.1 ha.2.1 ha.1.2 ha.2.2) _ (State.sound_init runtime) as
      (Machine.along_and.mpr ⟨has, Machine.along_and.mpr ⟨hmessages, hturn⟩⟩)
  refine ⟨?_, fun hunrefused => ?_⟩
  · refine hsound.serves hquiescent ((World.run_consistent hworld calls).length_keys_le ?_)
    exact fun key v hv => hstore key v (hbelow key v hv)
  · rw [State.accepted_run henabled hunrefused, hreceived]
    rfl

end

namespace Sample

def runtime : Runtime := ⟨2, 2, Nat.two_pos, Nat.two_pos⟩

attribute [local instance] VectorStore.Sample.decimals

/-- A row that is written and deleted. -/
def calls : List Call :=
  [VectorStore.Sample.upsert 0 0 (some (VectorStore.Sample.vector 1)) 0 (some 1),
    VectorStore.Sample.delete 0 1]

/-- The messages of the row, carried out by a schedule. -/
def rowOf (schedule : List Action) : List Action :=
  ((World.init VectorStore.Sample.globalTable).messages calls).flatMap
    (fun message => [.receive (.modify message) ⟨.can, true⟩, .send]) ++ schedule

/-- The insertion is called before the removal. -/
def inTurn : List Action :=
  rowOf [.take 0, .take 1, .call 0 true, .call 1 true, .count 1, .finish 1, .count 0, .finish 0]

/-- The removal is called before the insertion. -/
def overtaking : List Action :=
  rowOf [.take 0, .take 1, .call 1 false, .finish 1, .call 0 true, .count 0, .finish 0]

end Sample

attribute [local instance] VectorStore.Sample.decimals

theorem serves_unless_overtaken_inTurn :
    let s := Machine.run step (.init Sample.runtime) Sample.inTurn
    s.Serves (Vectors.replay ∅ s.accepted) ∧
      (Unrefused Sample.inTurn →
        s.accepted = (World.init VectorStore.Sample.globalTable).messages Sample.calls) :=
  serves_unless_overtaken VectorStore.Sample.isNew_globalTable Sample.calls Sample.runtime
    (by decide +kernel) (by decide +kernel) (by decide +kernel) (by decide +kernel)

/-- Not every schedule serves the messages: a removal that overtakes its insertion leaves the vector
live, and counted. -/
theorem not_always_serves :
    ¬∀ (table : Table) (calls : List Call) (runtime : Runtime) (as : List Action), table.IsNew →
      Machine.Along step (fun s a => Enabled s a ∧ s.Says a) (.init runtime) as →
      received as = (World.init table).messages calls → Unrefused as →
      (Machine.run step (.init runtime) as).Quiescent →
      (Machine.run step (.init runtime) as).Serves
        (Vectors.replay ∅ ((World.init table).messages calls)) := by
  intro h
  have hserves := h VectorStore.Sample.globalTable Sample.calls Sample.runtime Sample.overtaking
    VectorStore.Sample.isNew_globalTable (by decide +kernel) (by decide +kernel)
    (by decide +kernel) (by decide +kernel)
  have hcount := hserves.count ⟨32768⟩
  revert hcount
  decide +kernel

end Diskann

end VectorStore
