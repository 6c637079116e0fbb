import VectorStore.FtsIndex.TantivySteps

/-!
# The documents of a full-text index

The closures that have not reached the writer are pending messages.  As long as no closure reaches the
writer before an earlier one of which the order matters, the documents of the writer and the pending
messages together stand for the messages in order.  A commit and a reload then make them searchable.
-/

namespace VectorStore

namespace Tantivy

/-- The message that a closure is for. -/
def Job.message : Job → Option FtsModify
  | operate _ message => some message
  | commit | reload => none

/-- The closure has not carried out its operation yet. -/
def isPending : Stage Progress → Bool
  | .sending | .queued | .running .operating => true
  | _ => false

/-- The message of a closure that has not reached the writer yet. -/
def pendingMessage (t : Task Job Progress) : Option FtsModify :=
  if isPending t.stage then t.dispatch.message else none

/-- The messages that a run receives. -/
def received (as : List Action) : List FtsModify :=
  as.filterMap fun
    | .receive message _ => some message
    | _ => none

/-- Memory can be allocated and the state of the index can be created. -/
def Action.Granted : Action → Prop
  | .receive _ environment => environment.allocate = .can ∧ environment.created
  | _ => True

instance (a : Action) : Decidable a.Granted :=
  match a with
  | .receive _ environment =>
    inferInstanceAs (Decidable (environment.allocate = .can ∧ environment.created))
  | .tick | .check | .notify | .respond | .resume | .send _ | .take _ | .operate _ _ | .save _ _
  | .commit _ _ | .handOver _ | .load _ _ | .reload _ _ | .store _ | .finish _ =>
    inferInstanceAs (Decidable True)

/-- No message is refused. -/
def Unrefused (as : List Action) : Prop := ∀ a ∈ as, a.Granted

instance (as : List Action) : Decidable (Unrefused as) :=
  inferInstanceAs (Decidable (∀ a ∈ as, a.Granted))

/-- The writer adds every document. -/
def Succeeds : Action → Prop
  | .operate _ ok => ok
  | _ => True

instance (a : Action) : Decidable (Succeeds a) :=
  match a with
  | .operate _ ok => inferInstanceAs (Decidable (ok = true))
  | .receive _ _ | .tick | .check | .notify | .respond | .resume | .send _ | .take _ | .save _ _
  | .commit _ _ | .handOver _ | .load _ _ | .reload _ _ | .store _ | .finish _ =>
    inferInstanceAs (Decidable True)

namespace State

/-- The messages that were not refused, in order. -/
def accepted (s : State) : List FtsModify := s.tasks.filterMap fun t => t.dispatch.message

/-- The messages of the closures that have not reached the writer. -/
def pending (s : State) : List FtsModify := s.tasks.filterMap pendingMessage

/-- No closure reaches the writer before an earlier one that removes what it adds or adds what it
removes. -/
def InTurn (s : State) : Action → Prop
  | .operate i _ => ∀ task ∈ s.tasks[i]?, ∀ m ∈ task.dispatch.message,
    ∀ earlier ∈ (s.tasks.take i).filterMap pendingMessage, ¬earlier.Conflicts m
  | _ => True

instance (s : State) (a : Action) : Decidable (s.InTurn a) :=
  match a with
  | .operate i _ => inferInstanceAs (Decidable (∀ task ∈ s.tasks[i]?, ∀ m ∈ task.dispatch.message,
    ∀ earlier ∈ (s.tasks.take i).filterMap pendingMessage, ¬earlier.Conflicts m))
  | .receive _ _ | .tick | .check | .notify | .respond | .resume | .send _ | .take _ | .save _ _
  | .commit _ _ | .handOver _ | .load _ _ | .reload _ _ | .store _ | .finish _ =>
    inferInstanceAs (Decidable True)

/-- The documents of the writer and the pending messages stand for the accepted messages, and the
metas and the reader follow the writer. -/
structure Settled (s : State) : Prop where
  pending : s.writer.documents.replay s.pending = Documents.replay 0 s.accepted
  committed : s.writer.uncommittedDocsInProgressGuards = [] →
    s.metas.documents = s.writer.documents
  saved : ¬s.Unlocked → s.metas.documents = s.writer.documents
  searcher : s.searcher.opstamp < s.metas.opstamp ∨ s.searcher = s.metas

variable {s t : State} {i : ℕ} {job : Job} {as : List Action}

theorem settled_init (runtime : Runtime) (commitThreshold : ℕ) :
    (init runtime commitThreshold).Settled where
  pending := rfl
  committed _ := rfl
  saved h := absurd (by rintro _ ⟨⟩) h
  searcher := Or.inr rfl

/-- A closure moves on and reaches the writer neither before nor afterwards. -/
theorem messages_modify {stage stage' : Stage Progress} (hget : s.tasks[i]? = some ⟨job, stage⟩)
    (htasks : t.tasks = s.tasks.modify i (Task.withStage stage'))
    (hpending : pendingMessage ⟨job, stage'⟩ = pendingMessage ⟨job, stage⟩) :
    t.pending = s.pending ∧ t.accepted = s.accepted := by
  unfold pending accepted
  rw [htasks]
  exact ⟨filterMap_modify pendingMessage hget hpending,
    filterMap_modify (fun t : Task Job Progress => t.dispatch.message) hget rfl⟩

/-- A closure that does not lock the writer leaves it unlocked. -/
theorem unlocked_modify {stage stage' : Stage Progress} (hget : s.tasks[i]? = some ⟨job, stage⟩)
    (htasks : t.tasks = s.tasks.modify i (Task.withStage stage'))
    (hlocks : ¬locksWriter ⟨job, stage'⟩) (hunlocked : s.Unlocked) : t.Unlocked := by
  intro x hx
  rw [htasks] at hx
  rcases mem_or_eq_of_mem_modify hget hx with hx | rfl
  · exact hunlocked x hx
  · exact hlocks

/-- Nothing changes but where a closure is that does not reach the writer. -/
theorem Settled.move (hs : s.Settled) {stage stage' : Stage Progress}
    (hget : s.tasks[i]? = some ⟨job, stage⟩)
    (htasks : t.tasks = s.tasks.modify i (Task.withStage stage'))
    (hpending : pendingMessage ⟨job, stage'⟩ = pendingMessage ⟨job, stage⟩)
    (hlocks : ¬locksWriter ⟨job, stage'⟩) (hwriter : t.writer = s.writer)
    (hmetas : t.metas = s.metas) (hsearcher : t.searcher = s.searcher ∨ t.searcher = s.metas) :
    t.Settled := by
  obtain ⟨hpending, haccepted⟩ := messages_modify hget htasks hpending
  constructor
  case pending => rw [hwriter, hpending, haccepted, hs.pending]
  case committed =>
    rw [hwriter, hmetas]
    exact hs.committed
  case saved =>
    rw [hwriter, hmetas]
    exact fun h => hs.saved fun hunlocked => h (unlocked_modify hget htasks hlocks hunlocked)
  case searcher =>
    rw [hmetas]
    rcases hsearcher with hsearcher | hsearcher
    · rw [hsearcher]
      exact hs.searcher
    · exact Or.inr hsearcher

/-- A closure is added, with the message it is for. -/
theorem Settled.append (hs : s.Settled) (jobs : List Job)
    (htasks : t.tasks = s.tasks ++ jobs.map fun job => ⟨job, .sending⟩)
    (hwriter : t.writer = s.writer) (hmetas : t.metas = s.metas)
    (hsearcher : t.searcher = s.searcher) : t.Settled := by
  have hpending : t.pending = s.pending ++ jobs.filterMap Job.message := by
    rw [State.pending, htasks, List.filterMap_append, List.filterMap_map]
    rfl
  have haccepted : t.accepted = s.accepted ++ jobs.filterMap Job.message := by
    unfold accepted
    rw [htasks, List.filterMap_append, List.filterMap_map]
    rfl
  constructor
  case pending =>
    rw [hwriter, hpending, haccepted, Documents.replay, Documents.replay, Machine.run_append,
      Machine.run_append]
    exact congrArg (Machine.run Documents.apply · _) hs.pending
  case committed =>
    rw [hwriter, hmetas]
    exact hs.committed
  case saved =>
    rw [hwriter, hmetas]
    refine fun h => hs.saved fun hunlocked => h fun x hx => ?_
    rw [htasks, List.mem_append, List.mem_map] at hx
    rcases hx with hx | ⟨job, -, rfl⟩
    · exact hunlocked x hx
    · exact Bool.false_ne_true
  case searcher =>
    rw [hmetas, hsearcher]
    exact hs.searcher

/-- A closure that is in turn carries out its operation. -/
theorem Settled.operated (hs : s.Settled) {guard : Guard} {message : FtsModify} {progress : Progress}
    (hget : s.tasks[i]? = some ⟨.operate guard message, .running .operating⟩)
    (hunlocked : s.Unlocked) {ok : Bool} (hturn : s.InTurn (.operate i ok))
    (hprogress : progress = .committing ∨ progress = .done)
    (htasks : t.tasks = s.tasks.modify i (Task.withStage (.running progress)))
    (hwriter : t.writer = ⟨s.writer.documents.apply message,
      s.writer.uncommittedDocsInProgressGuards ++ [guard]⟩)
    (hmetas : t.metas = s.metas) (hsearcher : t.searcher = s.searcher) : t.Settled := by
  have hnone : pendingMessage ⟨.operate guard message, .running progress⟩ = none ∧
      ¬locksWriter ⟨.operate guard message, .running progress⟩ := by
    rcases hprogress with rfl | rfl <;> exact ⟨rfl, Bool.false_ne_true⟩
  obtain ⟨hsplit, hmodify⟩ := modify_take hget
  have hbefore : s.pending = (s.tasks.take i).filterMap pendingMessage ++
      message :: (s.tasks.drop (i + 1)).filterMap pendingMessage := by
    rw [State.pending]
    nth_rewrite 1 [hsplit]
    rw [List.filterMap_append]
    rfl
  have hafter : t.pending = (s.tasks.take i).filterMap pendingMessage ++
      (s.tasks.drop (i + 1)).filterMap pendingMessage := by
    rw [State.pending, htasks, hmodify, List.filterMap_append]
    exact congrArg _ (List.filterMap_cons_none hnone.1)
  have haccepted : t.accepted = s.accepted := by
    unfold accepted
    rw [htasks]
    exact filterMap_modify (fun t : Task Job Progress => t.dispatch.message) hget rfl
  constructor
  case pending =>
    rw [hwriter, hafter, haccepted, ← hs.pending, hbefore]
    exact (Documents.replay_hoist _ (hturn _ hget message rfl) _).symm
  case committed =>
    rw [hwriter]
    exact fun h => absurd h (List.append_ne_nil_of_right_ne_nil _ (List.cons_ne_nil _ _))
  case saved => exact fun h => absurd (unlocked_modify hget htasks hnone.2 hunlocked) h
  case searcher =>
    rw [hmetas, hsearcher]
    exact hs.searcher

/-- Every step that is in turn keeps the documents settled. -/
theorem Settled.step (hs : s.Settled) {a : Action} (heffect : Effect s a t) (hsucceeds : Succeeds a)
    (hturn : s.InTurn a) : t.Settled := by
  cases heffect with
  | @dispatched message environment => exact hs.append [.operate s.guards message] rfl rfl rfl rfl
  | ticked => exact hs.append [.commit] rfl rfl rfl rfl
  | responded => exact hs.append [.reload] rfl rfl rfl rfl
  | refused | checking | missing | checked | notified | resumed =>
    exact hs.append [] (List.append_nil _).symm rfl rfl rfl
  | sent hget => exact hs.move hget rfl rfl Bool.false_ne_true rfl rfl (Or.inl rfl)
  | @taken i job hget =>
    have hstart : pendingMessage ⟨job, .running job.start⟩ = pendingMessage ⟨job, .queued⟩ ∧
        ¬locksWriter ⟨job, .running job.start⟩ := by
      cases job <;> exact ⟨rfl, Bool.false_ne_true⟩
    exact hs.move hget rfl hstart.1 hstart.2 rfl rfl (Or.inl rfl)
  | operated hget hunlocked =>
    exact hs.operated hget hunlocked hturn (afterOperation_eq ..) rfl rfl rfl rfl
  | unoperated => cases hsucceeds
  | @saved i job c hget hunlocked hc =>
    obtain ⟨hpending, haccepted⟩ := messages_modify (t := s.save i c) hget rfl rfl
    constructor
    case pending =>
      rw [hpending, haccepted]
      exact hs.pending
    case committed => exact fun _ => rfl
    case saved => exact fun _ => rfl
    case searcher =>
      refine Or.inl (lt_of_le_of_lt ?_ hc)
      rcases hs.searcher with hlt | heq
      · exact hlt.le
      · exact le_of_eq (congrArg Metas.opstamp heq)
  | @committed i job c hget =>
    have hmetas : s.metas.documents = s.writer.documents := hs.saved fun hunlocked =>
      hunlocked _ (List.mem_of_getElem? hget) rfl
    have hmove := hs.move (t := s.move i
      (.running (.handing c s.writer.uncommittedDocsInProgressGuards))) hget rfl rfl
      Bool.false_ne_true rfl rfl (Or.inl rfl)
    exact ⟨hmove.pending, fun _ => hmetas, fun _ => hmetas, hmove.searcher⟩
  | @uncommitted i job progress hget hprogress =>
    have hpending : pendingMessage ⟨job, .running .done⟩ =
        pendingMessage ⟨job, .running progress⟩ := by
      rcases hprogress with rfl | ⟨c, rfl⟩ <;> rfl
    exact hs.move hget rfl hpending Bool.false_ne_true rfl rfl (Or.inl rfl)
  | handed hget | loaded hget | unloaded hget | unreloaded hget | stored hget | finished hget =>
    exact hs.move hget rfl rfl Bool.false_ne_true rfl rfl (Or.inl rfl)
  | reloaded hget => exact hs.move hget rfl rfl Bool.false_ne_true rfl rfl (Or.inr rfl)

/-- Once nothing is on its way, committed documents that are reloaded are those of the messages. -/
theorem Settled.searchable (hs : s.Settled) (hquiescent : s.Quiescent)
    (hcommitted : s.writer.hasUncommittedDocs = false)
    (hreloaded : s.searcher.opstamp = s.metas.opstamp) :
    s.searcher.documents = Documents.replay 0 s.accepted := by
  have hpending : s.pending = [] := List.filterMap_eq_nil_iff.mpr fun t ht => by
    rw [pendingMessage, hquiescent.2 t ht]
    rfl
  have hnone : s.writer.uncommittedDocsInProgressGuards = [] := by
    rwa [Writer.hasUncommittedDocs, Bool.not_eq_false', List.isEmpty_iff] at hcommitted
  have hsearcher : s.searcher = s.metas := hs.searcher.resolve_left hreloaded.not_lt
  have hreplay := hs.pending
  rw [hpending] at hreplay
  rw [hsearcher, hs.committed hnone]
  exact hreplay

/-! ## Messages that are accepted -/

/-- A message that is granted is accepted. -/
theorem accepted_step {a : Action} (heffect : Effect s a t) (hgranted : a.Granted) :
    t.accepted = s.accepted ++ received [a] := by
  have hmove : ∀ {i : ℕ} {task : Task Job Progress} (stage : Stage Progress),
      s.tasks[i]? = some task → (s.move i stage).accepted = s.accepted ++ [] :=
    fun stage hget => (filterMap_modify (fun t : Task Job Progress => t.dispatch.message) hget
      rfl).trans (List.append_nil _).symm
  have happend : ∀ job : Job, (s.dispatch job).accepted = s.accepted ++ job.message.toList := by
    intro job
    rw [accepted, dispatch, List.filterMap_append]
    cases job <;> rfl
  cases heffect with
  | @dispatched message environment => exact happend (.operate s.guards message)
  | @refused message environment created hrefused =>
    obtain ⟨hcan, hcreated⟩ := hgranted
    rcases hrefused with hfails | ⟨-, hcannot⟩
    · rw [hfails] at hcreated
      cases hcreated
    · rw [hcannot] at hcan
      cases hcan
  | ticked => exact happend .commit
  | responded => exact happend .reload
  | checking | missing | checked | notified | resumed => exact (List.append_nil _).symm
  | sent hget | taken hget | operated hget | unoperated hget | saved hget | committed hget
  | uncommitted hget | handed hget | loaded hget | unloaded hget | reloaded hget | unreloaded hget
  | stored hget | finished hget => exact hmove _ hget

/-- Without refusals every message is accepted. -/
theorem accepted_run (has : Machine.Along Tantivy.step Enabled s as) (hunrefused : Unrefused as) :
    (Machine.run Tantivy.step s as).accepted = s.accepted ++ received as := by
  induction as generalizing s with
  | nil => exact (List.append_nil _).symm
  | cons a as ih =>
    have hrest : Unrefused as := fun b hb => hunrefused b (List.mem_cons_of_mem a hb)
    have hfirst := accepted_step (State.effect has.1) (hunrefused a List.mem_cons_self)
    rw [Machine.run_cons, ih has.2 hrest, hfirst, List.append_assoc, received, received, received,
      ← List.filterMap_append, List.singleton_append]

end State

/-- In a run in which no closure reaches the writer before an earlier one of which the order matters:
once all closures have finished and a commit and a reload have followed, the searchable documents are
those of the accepted messages in order.  Without refusals these are all messages. -/
theorem searchable_unless_overtaken (runtime : Runtime) (commitThreshold : ℕ) {as : List Action}
    (has : Machine.Along step (fun s a => Enabled s a ∧ Succeeds a) (.init runtime commitThreshold)
      as)
    (hturn : Machine.Along step State.InTurn (.init runtime commitThreshold) as)
    (hquiescent : (Machine.run step (.init runtime commitThreshold) as).Quiescent)
    (hcommitted : (Machine.run step (.init runtime commitThreshold) as).writer.hasUncommittedDocs =
      false)
    (hreloaded : (Machine.run step (.init runtime commitThreshold) as).searcher.opstamp =
      (Machine.run step (.init runtime commitThreshold) as).metas.opstamp) :
    (Machine.run step (.init runtime commitThreshold) as).searcher.documents =
        Documents.replay 0 (Machine.run step (.init runtime commitThreshold) as).accepted ∧
      (Unrefused as → (Machine.run step (.init runtime commitThreshold) as).accepted =
        received as) := by
  have hsettled : (Machine.run step (.init runtime commitThreshold) as).Settled :=
    @Machine.run_invariant_of_along _ _ step State.Settled
      (fun s a => (Enabled s a ∧ Succeeds a) ∧ s.InTurn a)
      (fun s a hs ha => hs.step (State.effect ha.1.1) ha.1.2 ha.2) _
      (State.settled_init runtime commitThreshold) as (Machine.along_and.mpr ⟨has, hturn⟩)
  exact ⟨hsettled.searchable hquiescent hcommitted hreloaded,
    fun hunrefused => State.accepted_run (Machine.along_and.mp has).1 hunrefused⟩

namespace Sample

attribute [local instance] VectorStore.Sample.decimals

/-- A row whose document is written and deleted. -/
def calls : List Call :=
  [VectorStore.Sample.upsert 0 0 (some (.document "a")) 0 (some 1), VectorStore.Sample.delete 0 1]

/-- The messages of the row are taken, and a worker has each of their closures. -/
def taken : List Action :=
  ((World.init VectorStore.Sample.globalTable).documentMessages calls).zipIdx.flatMap
      (fun (message, i) => [.receive message ⟨.can, true⟩, .send i, .take i])

/-- The closures finish; then a tick, a commit and a reload. -/
def served : List Action :=
  [.finish 0, .finish 1, .tick, .send 2, .take 2, .save 2 1, .notify, .commit 2 true, .handOver 2,
    .finish 2, .respond, .send 3, .take 3, .load 3 true, .reload 3 true, .store 3, .finish 3, .resume]

/-- The addition reaches the writer before the removal. -/
def inTurn : List Action := taken ++ .operate 0 true :: .operate 1 true :: served

/-- The removal reaches the writer before the addition. -/
def overtaking : List Action := taken ++ .operate 1 true :: .operate 0 true :: served

end Sample

theorem searchable_unless_overtaken_inTurn :
    let s := Machine.run step (.init Sample.runtime 10) Sample.inTurn
    s.searcher.documents = Documents.replay 0 s.accepted ∧
      (Unrefused Sample.inTurn → s.accepted = received Sample.inTurn) :=
  searchable_unless_overtaken Sample.runtime 10 (by decide +kernel) (by decide +kernel)
    (by decide +kernel) (by decide +kernel) (by decide +kernel)

attribute [local instance] VectorStore.Sample.decimals

/-- Not every schedule leads to the documents of the messages: a removal that overtakes its addition
leaves the document searchable. -/
theorem not_always_searchable :
    ¬∀ (table : Table) (calls : List Call) (runtime : Runtime) (commitThreshold : ℕ)
      (as : List Action), table.IsNew →
      Machine.Along step (fun s a => Enabled s a ∧ Succeeds a) (.init runtime commitThreshold) as →
      received as = (World.init table).documentMessages calls → Unrefused as →
      (Machine.run step (.init runtime commitThreshold) as).Quiescent →
      (Machine.run step (.init runtime commitThreshold) as).writer.hasUncommittedDocs = false →
      (Machine.run step (.init runtime commitThreshold) as).searcher.opstamp =
        (Machine.run step (.init runtime commitThreshold) as).metas.opstamp →
      (Machine.run step (.init runtime commitThreshold) as).searcher.documents =
        Documents.replay 0 ((World.init table).documentMessages calls) := by
  intro h
  have hdocuments := h VectorStore.Sample.globalTable Sample.calls Sample.runtime 10
    Sample.overtaking VectorStore.Sample.isNew_globalTable (by decide +kernel) (by decide +kernel)
    (by decide +kernel) (by decide +kernel) (by decide +kernel) (by decide +kernel)
  revert hdocuments
  decide +kernel

end Tantivy

end VectorStore
