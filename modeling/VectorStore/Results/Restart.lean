import VectorStore.Cdc.Supervision

/-!
# Restarts of a CDC reader

A restart resumes ten minutes before the end of the last handler, whatever that handler had
delivered by then.  The incarnations leave no gap exactly when none of them ends more than ten
minutes behind the log.
-/

namespace VectorStore

namespace CdcActor

namespace State

/-- Some incarnation delivered the events of this time. -/
def Delivered (s : State) (time : ℤ) : Prop :=
  ∃ h ∈ s.handlers, h.cdcStart ≤ time ∧ time < h.position

/-- Everything from the first start up to the start timestamp of the next incarnation is
delivered. -/
def NoGap (s : State) : Prop :=
  ∀ first ∈ s.handlers.head?, ∀ time, first.cdcStart ≤ time →
    time < s.start - checkpointTimestampOffset → s.Delivered time

/-- The time at which the last handler ended; the actor notes the end of one that panicked. -/
def lastEnd (s : State) : Option ℤ :=
  s.handlers.getLast?.map fun h =>
    match h.phase with
    | .finished _ time => time
    | _ => s.start

/-- The last handler ended at most ten minutes after the events that were delivered. -/
def CaughtUp (s : State) : Prop :=
  ∀ time ∈ s.lastEnd, ∃ h ∈ s.handlers, time ≤ h.position + checkpointTimestampOffset

/-- What the incarnations delivered has no hole from the first start on. -/
structure Contiguous (s : State) : Prop extends s.Supervised where
  started : ∀ h ∈ s.handlers, h.cdcStart ≤ h.position
  delivered : ∀ first ∈ s.handlers.head?, ∀ time, first.cdcStart ≤ time →
    (∃ h ∈ s.handlers, time < h.position) → s.Delivered time

theorem contiguous_new (now : ℤ) (session : Bool) : (new now session).Contiguous where
  toSupervised := supervised_new now session
  started _ h := by cases h
  delivered _ h := by cases h

/-- While a reader is created, the start timestamp is the end of the last handler. -/
theorem Supervised.lastEnd_eq {s : State} (hs : s.Supervised) (hphase : s.phase = .create)
    (time : ℤ) (h : time ∈ s.lastEnd) : s.start = time := by
  obtain ⟨last, hlast, rfl⟩ := Option.mem_map.mp h
  cases hend : last.phase with
  | finished outcome time => exact hs.ended (hs.owned_create hphase) last hlast outcome time hend
  | starting | running | failed | closing _ | panicked => rfl

theorem lastEnd_isSome {s : State} {h : Handler} (hmem : h ∈ s.handlers) :
    ∃ time, time ∈ s.lastEnd := by
  unfold lastEnd
  cases hlast : s.handlers.getLast? with
  | none =>
    rw [List.getLast?_eq_none_iff.mp hlast] at hmem
    cases hmem
  | some last => exact ⟨_, rfl⟩

/-- A restart leaves no gap exactly when the last handler ended at most ten minutes behind. -/
theorem Contiguous.noGap_iff {s : State} (hs : s.Contiguous) (hphase : s.phase = .create) :
    s.NoGap ↔ s.CaughtUp := by
  constructor
  · intro hgap time htime
    have hstart : s.start = time := hs.lastEnd_eq hphase time htime
    obtain ⟨first, hfirst⟩ : ∃ first, s.handlers.head? = some first := by
      obtain ⟨last, hlast, -⟩ := Option.mem_map.mp htime
      rw [← Option.isSome_iff_exists, List.isSome_head?]
      exact List.ne_nil_of_mem (List.mem_of_getLast? hlast)
    have hmem : first ∈ s.handlers := List.mem_of_head? hfirst
    -- the event just before the next start is delivered, when it is not before the first start
    by_cases hlt : first.cdcStart < time - checkpointTimestampOffset
    · obtain ⟨h, hh, -, hposition⟩ := hgap first hfirst (time - checkpointTimestampOffset - 1)
        (by omega) (by omega)
      exact ⟨h, hh, by omega⟩
    · have hle : first.cdcStart ≤ first.position := hs.started first hmem
      exact ⟨first, hmem, by omega⟩
  · intro hcaught first hfirst time hle hlt
    obtain ⟨last, hlast⟩ := lastEnd_isSome (List.mem_of_head? hfirst)
    obtain ⟨h, hh, hposition⟩ := hcaught last hlast
    have hstart : s.start = last := hs.lastEnd_eq hphase last hlast
    exact hs.delivered first hfirst time hle ⟨h, hh, by omega⟩

/-- The incarnations of a later state: they started at the same times and delivered as much. -/
def Grows (s t : State) : Prop :=
  ∀ i : ℕ, Option.Rel (fun h h' : Handler => h'.cdcStart = h.cdcStart ∧ h.position ≤ h'.position)
    s.handlers[i]? t.handlers[i]?

theorem grows_of_eq {s t : State} (h : t.handlers = s.handlers) : Grows s t := by
  intro i
  rw [h]
  cases s.handlers[i]? with
  | none => exact .none
  | some handler => exact .some ⟨rfl, le_rfl⟩

theorem grows_modify {s t : State} {i : ℕ} {f : Handler → Handler}
    (hhandlers : t.handlers = s.handlers.modify i f)
    (hf : ∀ h, s.handlers[i]? = some h → (f h).cdcStart = h.cdcStart ∧ h.position ≤ (f h).position) :
    Grows s t := by
  intro j
  rw [hhandlers]
  rcases eq_or_ne i j with rfl | hne
  · rw [List.getElem?_modify_eq]
    cases hget : s.handlers[i]? with
    | none => exact .none
    | some handler => exact .some (hf handler hget)
  · rw [List.getElem?_modify_ne f _ hne]
    exact grows_of_eq (t := s) rfl j

theorem Grows.getElem?_right {s t : State} (hgrows : Grows s t) {i : ℕ} {h' : Handler}
    (hget' : t.handlers[i]? = some h') :
    ∃ h, s.handlers[i]? = some h ∧ h'.cdcStart = h.cdcStart ∧ h.position ≤ h'.position := by
  have hrel := hgrows i
  rw [hget'] at hrel
  cases hget : s.handlers[i]? with
  | none =>
    rw [hget] at hrel
    cases hrel
  | some h =>
    rw [hget] at hrel
    cases hrel with
    | some hrel => exact ⟨h, rfl, hrel⟩

theorem Grows.getElem?_left {s t : State} (hgrows : Grows s t) {i : ℕ} {h : Handler}
    (hget : s.handlers[i]? = some h) :
    ∃ h', t.handlers[i]? = some h' ∧ h'.cdcStart = h.cdcStart ∧ h.position ≤ h'.position := by
  have hrel := hgrows i
  rw [hget] at hrel
  cases hget' : t.handlers[i]? with
  | none =>
    rw [hget'] at hrel
    cases hrel
  | some h' =>
    rw [hget'] at hrel
    cases hrel with
    | some hrel => exact ⟨h', rfl, hrel⟩

/-- An incarnation of a later state is one of the earlier state. -/
theorem Grows.of_mem {s t : State} (hgrows : Grows s t) {h' : Handler} (hmem : h' ∈ t.handlers) :
    ∃ h ∈ s.handlers, h'.cdcStart = h.cdcStart ∧ h.position ≤ h'.position := by
  obtain ⟨i, hi⟩ := List.mem_iff_getElem?.mp hmem
  obtain ⟨h, hget, hrel⟩ := hgrows.getElem?_right hi
  exact ⟨h, List.mem_of_getElem? hget, hrel⟩

theorem Grows.head {s t : State} (hgrows : Grows s t) {first' : Handler}
    (hfirst : first' ∈ t.handlers.head?) :
    ∃ first ∈ s.handlers.head?, first'.cdcStart = first.cdcStart := by
  rw [List.head?_eq_getElem?] at hfirst ⊢
  obtain ⟨first, hget, hstart, -⟩ := hgrows.getElem?_right hfirst
  exact ⟨first, hget, hstart⟩

theorem Grows.delivered {s t : State} (hgrows : Grows s t) {time : ℤ} (h : s.Delivered time) :
    t.Delivered time := by
  obtain ⟨h, hmem, hle, hlt⟩ := h
  obtain ⟨i, hi⟩ := List.mem_iff_getElem?.mp hmem
  obtain ⟨h', hget', hstart, hposition⟩ := hgrows.getElem?_left hi
  exact ⟨h', List.mem_of_getElem? hget', by omega, by omega⟩

/-- An incarnation that goes on from a position delivers everything from there. -/
theorem Contiguous.grows {s t : State} (hs : s.Contiguous) (ht : t.Supervised)
    (hgrows : Grows s t) : t.Contiguous where
  toSupervised := ht
  started h' hmem' := by
    obtain ⟨h, hmem, hstart, hposition⟩ := hgrows.of_mem hmem'
    have hle : h.cdcStart ≤ h.position := hs.started h hmem
    omega
  delivered first' hfirst' time hle := by
    rintro ⟨h', hmem', hlt⟩
    obtain ⟨h, hmem, hstart, hposition⟩ := hgrows.of_mem hmem'
    have hcdcStart : h.cdcStart ≤ h.position := hs.started h hmem
    obtain ⟨first, hfirst, hfirstStart⟩ := hgrows.head hfirst'
    -- either this incarnation delivered the event or it is before its start
    by_cases hstarted : h'.cdcStart ≤ time
    · exact ⟨h', hmem', hstarted, hlt⟩
    · exact hgrows.delivered (hs.delivered first hfirst time (by omega) ⟨h, hmem, by omega⟩)

/-- A reader that is created without a gap leaves what was delivered without a hole. -/
theorem Contiguous.create {s : State} (hs : s.Contiguous) (hphase : s.phase = .create)
    (hgap : s.NoGap) : (step s (.create true)).Contiguous := by
  have hhandlers : (step s (.create true)).handlers = s.handlers ++
      [⟨.starting, s.start - checkpointTimestampOffset, s.start - checkpointTimestampOffset,
        s.stops⟩] := rfl
  refine ⟨hs.toSupervised.create hphase, ?_, ?_⟩
  · intro h hmem
    rw [hhandlers, List.mem_append, List.mem_singleton] at hmem
    rcases hmem with hmem | rfl
    · exact hs.started h hmem
    · exact le_rfl
  · rintro first hfirst time hle ⟨h, hmem, hlt⟩
    have hkeep : s.Delivered time → (step s (.create true)).Delivered time := by
      rintro ⟨h, hmem, hdelivered⟩
      exact ⟨h, by rw [hhandlers]; exact List.mem_append_left _ hmem, hdelivered⟩
    rw [hhandlers, List.head?_append] at hfirst
    rw [hhandlers, List.mem_append, List.mem_singleton] at hmem
    cases hhead : s.handlers.head? with
    | none =>
      -- the first incarnation has delivered nothing
      rw [hhead] at hfirst
      rw [List.head?_eq_none_iff.mp hhead] at hmem
      obtain rfl : _ = first := Option.some.inj hfirst
      rcases hmem with hmem | rfl
      · cases hmem
      · exact absurd hlt (not_lt.mpr hle)
    | some old =>
      rw [hhead] at hfirst
      obtain rfl : old = first := Option.some.inj hfirst
      rcases hmem with hmem | rfl
      · exact hkeep (hs.delivered old hhead time hle ⟨h, hmem, hlt⟩)
      · exact hkeep (hgap old hhead time hle hlt)

/-- A step other than the creation of a reader keeps the incarnations, and some go on. -/
theorem grows_step {s : State} {a : Action} (ha : Enabled s a) (hne : a ≠ .create true) :
    Grows s (step s a) := by
  cases a with
  | stop =>
    obtain ⟨next, hphase⟩ := ha
    cases htask : s.handlerTask <;> exact grows_of_eq (by simp only [step, hphase, htask])
  | join =>
    obtain ⟨i, next, hjoin, -⟩ := ha
    exact grows_of_eq (by simp only [step, hjoin])
  | create ok =>
    cases ok with
    | true => exact absurd rfl hne
    | false => exact grows_of_eq rfl
  | deliver i position =>
    obtain ⟨handler, hget, -, hposition, -⟩ := ha
    refine grows_modify rfl fun h hh => ?_
    rw [hget] at hh
    cases hh
    exact ⟨rfl, hposition⟩
  | finish i =>
    obtain ⟨outcome, hclosing⟩ := ha
    simp only [step, hclosing]
    exact grows_modify rfl fun _ _ => ⟨rfl, le_rfl⟩
  | run i => exact grows_modify rfl fun _ _ => ⟨rfl, le_rfl⟩
  | complete i ok => exact grows_modify rfl fun _ _ => ⟨rfl, le_rfl⟩
  | shutdown i => exact grows_modify rfl fun _ _ => ⟨rfl, le_rfl⟩
  | notifyError i => exact grows_modify rfl fun _ _ => ⟨rfl, le_rfl⟩
  | panic i => exact grows_modify rfl fun _ _ => ⟨rfl, le_rfl⟩
  | elapse _ | change _ | drop | close | seeEnd | seeSession | seeError | seeBackoff | drainError
  | drainShutdown | notifyFailed => exact grows_of_eq rfl

/-- Every step that leaves no gap keeps the invariant. -/
theorem Contiguous.step {s : State} {a : Action} (hs : s.Contiguous) (ha : Enabled s a)
    (hgap : a = .create true → s.NoGap) : (step s a).Contiguous := by
  by_cases hcreate : a = .create true
  · subst hcreate
    exact hs.create ha (hgap rfl)
  · exact hs.grows (hs.toSupervised.step a ha) (grows_step ha hcreate)

end State

/-- Along a run of the actor the incarnations leave no gap exactly when, at every creation of a
reader, the handler before it ended at most ten minutes behind the log; then every event between
the first start and the furthest position is delivered. -/
theorem restart_noGap_iff {now : ℤ} {session : Bool} {as : List Action}
    (has : Machine.Along step Enabled (.new now session) as) :
    (Machine.Along step (fun s a => a = .create true → s.NoGap) (.new now session) as ↔
        Machine.Along step (fun s a => a = .create true → s.CaughtUp) (.new now session) as) ∧
      (Machine.Along step (fun s a => a = .create true → s.CaughtUp) (.new now session) as →
        let s := Machine.run step (.new now session) as
        ∀ first ∈ s.handlers.head?, ∀ time, first.cdcStart ≤ time →
          (∃ h ∈ s.handlers, time < h.position) → s.Delivered time) := by
  have hnew : (State.new now session).Contiguous := State.contiguous_new now session
  have hiff : Machine.Along step (fun s a => a = .create true → s.NoGap) (.new now session) as ↔
      Machine.Along step (fun s a => a = .create true → s.CaughtUp) (.new now session) as := by
    have hcongr : Machine.Along step (fun s a => Enabled s a ∧ (a = .create true → s.NoGap))
          (.new now session) as ↔
        Machine.Along step (fun s a => Enabled s a ∧ (a = .create true → s.CaughtUp))
          (.new now session) as := by
      refine Machine.along_congr (fun s a hs => ?_) (fun s a hs hP => ?_) hnew as
      · refine and_congr_right fun ha => forall_congr' fun hcreate => ?_
        subst hcreate
        exact hs.noGap_iff ha
      · exact hs.step hP.1 hP.2
    rw [Machine.along_and, Machine.along_and, and_congr_right_iff] at hcongr
    exact hcongr has
  refine ⟨hiff, fun hcaught => ?_⟩
  exact (Machine.run_invariant_of_along (fun s a hs hP => State.Contiguous.step hs hP.1 hP.2) hnew
    (Machine.along_and.mpr ⟨has, hiff.mpr hcaught⟩)).delivered

theorem restart_noGap_iff_stalled :
    let as := Sample.stalled 60000000000 ++ [.create true]
    let s := State.new 1700000000000000000 true
    (Machine.Along step (fun s a => a = .create true → s.NoGap) s as ↔
        Machine.Along step (fun s a => a = .create true → s.CaughtUp) s as) ∧
      (Machine.Along step (fun s a => a = .create true → s.CaughtUp) s as →
        let s := Machine.run step s as
        ∀ first ∈ s.handlers.head?, ∀ time, first.cdcStart ≤ time →
          (∃ h ∈ s.handlers, time < h.position) → s.Delivered time) :=
  restart_noGap_iff (by decide +kernel)

/-- A reader that stalled for eleven minutes before it failed leaves a gap of one minute. -/
theorem restart_leaves_gap :
    ¬∀ (now : ℤ) (session : Bool) (as : List Action),
      Machine.Along step Enabled (.new now session) as →
        Machine.Along step (fun s a => a = .create true → s.NoGap) (.new now session) as := by
  intro h
  have halong := h 1700000000000000000 true (Sample.stalled 660000000000 ++ [.create true])
    (by decide +kernel)
  have hgap := (Machine.along_append.mp halong).2.1 rfl
  have hdelivered := hgap ⟨.finished .error 1700000660000000000, 1699999400000000000,
    1700000000000000000, 1⟩ (by decide +kernel) 1700000030000000000 (by decide) (by decide +kernel)
  obtain ⟨handler, hmem, -, hlt⟩ := hdelivered
  revert handler
  decide +kernel

end CdcActor

end VectorStore
