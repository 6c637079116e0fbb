import VectorStore.FtsIndex.TantivySteps

/-!
# Guards of the full-text actor

A guard is held by a closure, by the writer, by a commit that hands it over or by the reader.  Every
step moves guards from one of these places to another one, takes a new guard in, or drops guards that
may be dropped.  The opstamps under which guards wait for the reader are all different, so no guard is
lost when the reader takes them.
-/

namespace VectorStore

namespace Tantivy

/-- The guards that a closure holds. -/
def guardsOf : Task Job Progress → List Guard
  | ⟨.operate guard _, .sending⟩ | ⟨.operate guard _, .queued⟩
  | ⟨.operate guard _, .running .operating⟩ => [guard]
  | ⟨_, .running (.handing _ guards)⟩ => guards
  | _ => []

/-- The opstamp under which the guards of a commit go to the reader. -/
def stampsOf : Task Job Progress → List Opstamp
  | ⟨_, .running (.saved opstamp)⟩ | ⟨_, .running (.handing opstamp _)⟩ => [opstamp]
  | _ => []

namespace State

/-- The guards of committed documents that wait for a reload. -/
def unsearchable (s : State) : List Guard := s.reloadState.unsearchableDocs.entries.flatMap Sigma.snd

/-- The guards that are held, once for each place that holds them. -/
def held (s : State) : List Guard :=
  s.tasks.flatMap guardsOf ++ s.writer.uncommittedDocsInProgressGuards ++ s.unsearchable

/-- The opstamps under which guards wait for the reader or will do so. -/
def stamps (s : State) : List Opstamp :=
  s.tasks.flatMap stampsOf ++ s.reloadState.unsearchableDocs.keys

/-- The guard may be dropped: its message was refused, its operation failed, or a reload has served
the first successful commit after it. -/
def Released (s : State) (g : Guard) : Prop :=
  g ∈ s.history.refused ∨
    ∃ c, (g, c) ∈ s.history.committed ∧ c ≤ s.searcher.opstamp ∧ ∃ o ∈ s.history.reloads, c ≤ o

/-- Every guard handed in is held in one place, or may have been dropped. -/
structure Guarded (s : State) : Prop where
  once : s.held.Nodup
  known : ∀ g ∈ s.held, g < s.guards
  released : ∀ g < s.guards, g ∉ s.held → s.Released g

/-- What a running closure knows is so. -/
def Fits (s : State) : Stage Progress → Prop
  | .running (.handing c gs) => ∀ g ∈ gs, (g, c) ∈ s.history.committed
  | .running (.reloading o) => o ≤ s.metas.opstamp
  | .running (.reloaded (some o)) => o ∈ s.history.reloads
  | _ => True

/-- The opstamps under which guards wait are different and not later than the last commit, the guards
are of those commits, and what has been reloaded is served. -/
structure Ordered (s : State) : Prop where
  stages : ∀ t ∈ s.tasks, s.Fits t.stage
  nodup : s.stamps.Nodup
  bounds : ∀ c ∈ s.stamps, 0 < c ∧ c ≤ s.metas.opstamp
  operated : s.writer.uncommittedDocsInProgressGuards = s.history.operated
  unsearchable : ∀ e ∈ s.reloadState.unsearchableDocs.entries, ∀ g ∈ e.2,
    (g, e.1) ∈ s.history.committed
  searcher : s.searcher.opstamp ≤ s.metas.opstamp
  reloads : ∀ o ∈ s.history.reloads, o ≤ s.searcher.opstamp
  noted : s.reloadState.reloadedOpstamp = 0 ∨ s.reloadState.reloadedOpstamp ∈ s.history.reloads

structure Sound (s : State) : Prop where
  guarded : s.Guarded
  ordered : s.Ordered

variable {s t : State} {i : ℕ} {job : Job} {g : Guard} {new dropped : List Guard}

/-! ## Passages -/

/-- The history goes on. -/
structure Extends (s t : State) : Prop where
  refused : s.history.refused ⊆ t.history.refused
  committed : s.history.committed ⊆ t.history.committed
  reloads : s.history.reloads ⊆ t.history.reloads
  searcher : s.searcher.opstamp ≤ t.searcher.opstamp

theorem Extends.of_eq (hhistory : t.history = s.history) (hsearcher : t.searcher = s.searcher) :
    Extends s t := by
  constructor <;> simp only [hhistory, hsearcher, List.Subset.refl, le_refl]

/-- What may be dropped may be dropped later. -/
theorem Extends.released (h : Extends s t) (hg : s.Released g) : t.Released g := by
  rcases hg with hrefused | ⟨c, hcommitted, hserved, o, ho, hle⟩
  · exact Or.inl (h.refused hrefused)
  · exact Or.inr ⟨c, h.committed hcommitted, hserved.trans h.searcher, o, h.reloads ho, hle⟩

/-- The guards are those there were and the new ones, up to the dropped ones, which may be dropped. -/
structure Passage (s t : State) (new dropped : List Guard) : Prop where
  count : ∀ g, t.held.count g + dropped.count g = s.held.count g + new.count g
  guards : new = [] ∧ t.guards = s.guards ∨ new = [s.guards] ∧ t.guards = s.guards + 1
  released : ∀ g ∈ dropped, t.Released g
  extended : Extends s t

/-- A step that drops only what may be dropped keeps every other guard in one place. -/
theorem Guarded.passage (hs : s.Guarded) (h : Passage s t new dropped) : t.Guarded := by
  have hcount := fun g => List.nodup_iff_count_le_one.mp hs.once g
  have hfresh : s.held.count s.guards = 0 :=
    List.count_eq_zero.mpr fun hmem => lt_irrefl _ (hs.known _ hmem)
  have hnew : ∀ g, s.held.count g + new.count g ≤ 1 ∧ (0 < new.count g → g < t.guards) := by
    intro g
    rcases h.guards with ⟨rfl, -⟩ | ⟨rfl, hguards⟩
    · exact ⟨hcount g, fun hpos => absurd hpos (Nat.lt_irrefl 0)⟩
    · by_cases hg : g = s.guards
      · subst hg
        rw [hfresh, hguards]
        exact ⟨by simp, fun _ => Nat.lt_succ_self _⟩
      · have hzero : List.count g [s.guards] = 0 :=
          List.count_eq_zero.mpr fun hmem => hg (List.mem_singleton.mp hmem)
        rw [hzero]
        exact ⟨hcount g, fun hpos => absurd hpos (Nat.lt_irrefl 0)⟩
  have hle : s.guards ≤ t.guards := by
    rcases h.guards with ⟨-, hguards⟩ | ⟨-, hguards⟩ <;> omega
  refine ⟨List.nodup_iff_count_le_one.mpr fun g => ?_, fun g hg => ?_, fun g hg hnot => ?_⟩
  · have := h.count g
    have := (hnew g).1
    omega
  · have hpos : 0 < t.held.count g := List.count_pos_iff.mpr hg
    by_cases hheld : g ∈ s.held
    · exact (hs.known g hheld).trans_le hle
    · refine (hnew g).2 ?_
      have := h.count g
      have := List.count_eq_zero.mpr hheld
      omega
  · by_cases hdropped : g ∈ dropped
    · exact h.released g hdropped
    · have := h.count g
      have hzero := List.count_eq_zero.mpr hnot
      have hdropped := List.count_eq_zero.mpr hdropped
      have hold : g ∉ s.held := List.count_eq_zero.mp (by omega)
      refine h.extended.released (hs.released g ?_ hold)
      rcases h.guards with ⟨-, hguards⟩ | ⟨hnew, hguards⟩
      · omega
      · have : List.count g [s.guards] = 0 := by rw [← hnew]; omega
        have hne : g ≠ s.guards := fun heq =>
          List.count_eq_zero.mp this (List.mem_singleton.mpr heq)
        omega

theorem count_held (s : State) (g : Guard) :
    s.held.count g = (s.tasks.flatMap guardsOf).count g +
      s.writer.uncommittedDocsInProgressGuards.count g + s.unsearchable.count g := by
  rw [held, List.count_append, List.count_append]

/-- The guards that closures hold, when one of them moves on. -/
theorem count_guardsOf_modify {stage : Stage Progress}
    (hget : s.tasks[i]? = some ⟨job, stage⟩) (stage' : Stage Progress) (g : Guard) :
    ((s.tasks.modify i (Task.withStage stage')).flatMap guardsOf).count g +
        (guardsOf ⟨job, stage⟩).count g =
      (s.tasks.flatMap guardsOf).count g + (guardsOf ⟨job, stage'⟩).count g :=
  count_flatMap_modify guardsOf (Task.withStage stage') hget g

/-- A closure moves on and keeps its guards. -/
theorem Passage.move {stage stage' : Stage Progress} (hget : s.tasks[i]? = some ⟨job, stage⟩)
    (htasks : t.tasks = s.tasks.modify i (Task.withStage stage'))
    (hguardsOf : guardsOf ⟨job, stage'⟩ = guardsOf ⟨job, stage⟩) (hwriter : t.writer = s.writer)
    (hstate : t.reloadState.unsearchableDocs = s.reloadState.unsearchableDocs)
    (hguards : t.guards = s.guards) (hextends : Extends s t) : Passage s t [] [] where
  count g := by
    have hmove := count_guardsOf_modify hget stage' g
    rw [hguardsOf] at hmove
    rw [count_held, count_held, htasks, hwriter, State.unsearchable, hstate, List.count_nil]
    change _ + (s.unsearchable).count g + 0 = _
    omega
  guards := Or.inl ⟨rfl, hguards⟩
  released _ h := by cases h
  extended := hextends

/-- The closures stay where they are, up to one without guards. -/
theorem Passage.same (tasks : List (Task Job Progress)) (htasks : t.tasks = s.tasks ++ tasks)
    (hnone : tasks.flatMap guardsOf = []) (hwriter : t.writer = s.writer)
    (hstate : t.reloadState = s.reloadState) (hguards : t.guards = s.guards)
    (hextends : Extends s t) : Passage s t [] [] where
  count g := by
    rw [count_held, count_held, htasks, List.flatMap_append, hnone, List.append_nil, hwriter,
      State.unsearchable, hstate]
    rfl
  guards := Or.inl ⟨rfl, hguards⟩
  released _ h := by cases h
  extended := hextends

/-! ## Opstamps -/

/-- What a closure knows stays so. -/
theorem Fits.extend {stage : Stage Progress} (h : s.Fits stage) (hextends : Extends s t)
    (hmetas : s.metas.opstamp ≤ t.metas.opstamp) : t.Fits stage := by
  unfold Fits at h ⊢
  split
  · exact fun g hg => hextends.committed (h g hg)
  · exact le_trans h hmetas
  · exact hextends.reloads h
  · trivial

/-- One closure has moved on to a stage that fits. -/
theorem Ordered.stages_modify (hs : s.Ordered) {stage stage' : Stage Progress}
    (hget : s.tasks[i]? = some ⟨job, stage⟩)
    (htasks : t.tasks = s.tasks.modify i (Task.withStage stage')) (hextends : Extends s t)
    (hmetas : s.metas.opstamp ≤ t.metas.opstamp) (hfits : t.Fits stage') :
    ∀ x ∈ t.tasks, t.Fits x.stage := by
  intro x hx
  rw [htasks] at hx
  rcases mem_or_eq_of_mem_modify hget hx with hx | rfl
  · exact (hs.stages x hx).extend hextends hmetas
  · exact hfits

theorem count_stamps (s : State) (c : Opstamp) :
    s.stamps.count c =
      (s.tasks.flatMap stampsOf).count c + s.reloadState.unsearchableDocs.keys.count c := by
  rw [stamps, List.count_append]

theorem count_stampsOf_modify {stage : Stage Progress}
    (hget : s.tasks[i]? = some ⟨job, stage⟩) (stage' : Stage Progress) (c : Opstamp) :
    ((s.tasks.modify i (Task.withStage stage')).flatMap stampsOf).count c +
        (stampsOf ⟨job, stage⟩).count c =
      (s.tasks.flatMap stampsOf).count c + (stampsOf ⟨job, stage'⟩).count c :=
  count_flatMap_modify stampsOf (Task.withStage stage') hget c

/-- No opstamp is new, and the last commit is not an earlier one. -/
theorem Ordered.stamps_of_count (hs : s.Ordered) (hcount : ∀ c, t.stamps.count c ≤ s.stamps.count c)
    (hmetas : s.metas.opstamp ≤ t.metas.opstamp) :
    t.stamps.Nodup ∧ ∀ c ∈ t.stamps, 0 < c ∧ c ≤ t.metas.opstamp := by
  refine ⟨List.nodup_iff_count_le_one.mpr fun c => ?_, fun c hc => ?_⟩
  · exact (hcount c).trans (List.nodup_iff_count_le_one.mp hs.nodup c)
  · have hmem : c ∈ s.stamps :=
      List.count_pos_iff.mp ((List.count_pos_iff.mpr hc).trans_le (hcount c))
    obtain ⟨hpos, hle⟩ := hs.bounds c hmem
    exact ⟨hpos, hle.trans hmetas⟩

/-- Nothing that guards and opstamps are about changes but where the closures are, and which guards
were refused. -/
structure Same (s t : State) : Prop where
  metas : t.metas = s.metas
  searcher : t.searcher = s.searcher
  docs : t.reloadState.unsearchableDocs = s.reloadState.unsearchableDocs
  reloaded : t.reloadState.reloadedOpstamp = s.reloadState.reloadedOpstamp
  writer : t.writer = s.writer
  refused : s.history.refused ⊆ t.history.refused
  operated : t.history.operated = s.history.operated
  committed : t.history.committed = s.history.committed
  reloads : t.history.reloads = s.history.reloads

theorem Same.extends (h : Same s t) : Extends s t where
  refused := h.refused
  committed := h.committed ▸ List.Subset.refl _
  reloads := h.reloads ▸ List.Subset.refl _
  searcher := h.searcher ▸ le_rfl

theorem Ordered.same (hs : s.Ordered) (h : Same s t) (hstages : ∀ x ∈ t.tasks, t.Fits x.stage)
    (hcount : ∀ c, (t.tasks.flatMap stampsOf).count c ≤ (s.tasks.flatMap stampsOf).count c) :
    t.Ordered := by
  have hstamps := hs.stamps_of_count (t := t) (fun c => by
    rw [count_stamps, count_stamps, h.docs]
    exact Nat.add_le_add_right (hcount c) _) (by rw [h.metas])
  constructor
  case stages => exact hstages
  case nodup => exact hstamps.1
  case bounds => exact hstamps.2
  case operated => rw [h.writer, h.operated, hs.operated]
  case unsearchable =>
    rw [h.docs, h.committed]
    exact hs.unsearchable
  case searcher =>
    rw [h.searcher, h.metas]
    exact hs.searcher
  case reloads =>
    rw [h.searcher, h.reloads]
    exact hs.reloads
  case noted =>
    rw [h.reloaded, h.reloads]
    exact hs.noted

/-- A closure moves on, to a stage that fits and with no new opstamp. -/
theorem Ordered.move (hs : s.Ordered) (h : Same s t) {stage stage' : Stage Progress}
    (hget : s.tasks[i]? = some ⟨job, stage⟩)
    (htasks : t.tasks = s.tasks.modify i (Task.withStage stage')) (hfits : t.Fits stage')
    (hstamps : stampsOf ⟨job, stage'⟩ = []) : t.Ordered := by
  refine hs.same h (hs.stages_modify hget htasks h.extends (by rw [h.metas]) hfits) fun c => ?_
  have hcount := count_stampsOf_modify hget stage' c
  rw [hstamps, List.count_nil] at hcount
  rw [htasks]
  omega

/-- The closures stay where they are, up to one that waits for a slot. -/
theorem Ordered.stay (hs : s.Ordered) (jobs : List Job)
    (htasks : t.tasks = s.tasks ++ jobs.map fun job => ⟨job, .sending⟩) (h : Same s t) :
    t.Ordered := by
  refine hs.same h (fun x hx => ?_) fun c => ?_
  · rw [htasks, List.mem_append, List.mem_map] at hx
    rcases hx with hx | ⟨job, -, rfl⟩
    · exact (hs.stages x hx).extend h.extends (by rw [h.metas])
    · trivial
  · have hnone : (jobs.map fun job => (⟨job, .sending⟩ : Task Job Progress)).flatMap stampsOf = [] :=
      List.flatMap_eq_nil_iff.mpr fun x hx => by
        obtain ⟨job, -, rfl⟩ := List.mem_map.mp hx
        rfl
    rw [htasks, List.flatMap_append, hnone, List.append_nil]

/-- An opstamp that a closure hands over is no key of the reader. -/
theorem Ordered.lookup_eq_none (hs : s.Ordered) {c : Opstamp} {gs : List Guard}
    (hget : s.tasks[i]? = some ⟨job, .running (.handing c gs)⟩) :
    s.reloadState.unsearchableDocs.lookup c = none := by
  have hmem : c ∈ s.tasks.flatMap stampsOf :=
    List.mem_flatMap.mpr ⟨_, List.mem_of_getElem? hget, List.mem_singleton_self c⟩
  have hdisjoint := (List.nodup_append.mp hs.nodup).2.2
  refine AList.lookup_eq_none.mpr fun hkey => ?_
  exact hdisjoint c hmem c (AList.mem_keys.mp hkey) rfl

/-! ## Steps -/

/-- A closure moves on and keeps its guards; no opstamp is new. -/
theorem Sound.moved (hs : s.Sound) (h : Same s t) (hguards : t.guards = s.guards)
    {stage stage' : Stage Progress} (hget : s.tasks[i]? = some ⟨job, stage⟩)
    (htasks : t.tasks = s.tasks.modify i (Task.withStage stage'))
    (hsame : guardsOf ⟨job, stage'⟩ = guardsOf ⟨job, stage⟩) (hfits : t.Fits stage')
    (hstamps : stampsOf ⟨job, stage'⟩ = []) : Passage s t [] [] ∧ t.Ordered :=
  ⟨.move hget htasks hsame h.writer h.docs hguards h.extends,
    hs.ordered.move h hget htasks hfits hstamps⟩

/-- A closure carries out its operation, and its guard stays with the writer. -/
theorem Sound.operated (hs : s.Sound) {message : FtsModify}
    (hget : s.tasks[i]? = some ⟨.operate g message, .running .operating⟩)
    (htasks : ∃ stage', (stage' = .committing ∨ stage' = .done) ∧
      t.tasks = s.tasks.modify i (Task.withStage (.running stage')))
    (hwriter : t.writer.uncommittedDocsInProgressGuards =
      s.writer.uncommittedDocsInProgressGuards ++ [g])
    (hhistory : t.history = { s.history with operated := s.history.operated ++ [g] })
    (hmetas : t.metas = s.metas) (hsearcher : t.searcher = s.searcher)
    (hstate : t.reloadState = s.reloadState) (hguards : t.guards = s.guards) :
    Passage s t [] [] ∧ t.Ordered := by
  obtain ⟨stage', hstage, htasks⟩ := htasks
  have hextends : Extends s t := by
    constructor <;> simp only [hhistory, hsearcher, List.Subset.refl, le_refl]
  have hempty : guardsOf ⟨.operate g message, .running stage'⟩ = [] ∧
      stampsOf ⟨.operate g message, .running stage'⟩ = [] ∧ t.Fits (.running stage') := by
    rcases hstage with rfl | rfl <;> exact ⟨rfl, rfl, trivial⟩
  refine ⟨⟨fun g' => ?_, Or.inl ⟨rfl, hguards⟩, (by rintro _ ⟨⟩), hextends⟩, ?_⟩
  · have hmove := count_guardsOf_modify hget (.running stage') g'
    rw [hempty.1] at hmove
    rw [count_held, count_held, htasks, hwriter, State.unsearchable, hstate, List.count_append]
    change _ + _ + s.unsearchable.count g' + 0 = _
    change _ + List.count g' [g] = _ at hmove
    rw [List.count_nil] at hmove ⊢
    omega
  · have hcount : ∀ c, t.stamps.count c ≤ s.stamps.count c := by
      intro c
      have hmove := count_stampsOf_modify hget (.running stage') c
      rw [hempty.2.1, List.count_nil] at hmove
      rw [count_stamps, count_stamps, htasks, hstate]
      omega
    have hle : s.metas.opstamp ≤ t.metas.opstamp := by rw [hmetas]
    obtain ⟨hnodup, hbounds⟩ := hs.ordered.stamps_of_count hcount hle
    refine ⟨hs.ordered.stages_modify hget htasks hextends hle hempty.2.2, hnodup, hbounds, ?_, ?_,
      ?_, ?_, ?_⟩
    · rw [hwriter, hhistory, hs.ordered.operated]
    · rw [hstate, hhistory]
      exact hs.ordered.unsearchable
    · rw [hsearcher, hmetas]
      exact hs.ordered.searcher
    · rw [hsearcher, hhistory]
      exact hs.ordered.reloads
    · rw [hstate, hhistory]
      exact hs.ordered.noted

/-- A commit saves the metas. -/
theorem Sound.saved (hs : s.Sound) {c : Opstamp}
    (hget : s.tasks[i]? = some ⟨job, .running .committing⟩) (hc : s.metas.opstamp < c) :
    Passage s (s.save i c) [] [] ∧ (s.save i c).Ordered := by
  have hextends : Extends s (s.save i c) := .of_eq rfl rfl
  have hguards : guardsOf ⟨job, .running (.saved c)⟩ = guardsOf ⟨job, .running .committing⟩ := by
    cases job <;> rfl
  refine ⟨.move hget rfl hguards rfl rfl rfl hextends, ?_⟩
  have hnot : c ∉ s.stamps := fun hmem => not_le_of_gt hc (hs.ordered.bounds c hmem).2
  have hcount : ∀ c', (s.save i c).stamps.count c' = s.stamps.count c' + List.count c' [c] := by
    intro c'
    have hmove := count_stampsOf_modify hget (.running (.saved c)) c'
    change _ + 0 = _ + List.count c' [c] at hmove
    rw [count_stamps, count_stamps]
    change ((s.tasks.modify i _).flatMap stampsOf).count c' +
      s.reloadState.unsearchableDocs.keys.count c' = _
    omega
  constructor
  case stages => exact hs.ordered.stages_modify hget rfl hextends hc.le trivial
  case nodup =>
    refine List.nodup_iff_count_le_one.mpr fun c' => ?_
    rw [hcount]
    by_cases heq : c' = c
    · subst heq
      rw [List.count_eq_zero.mpr hnot]
      simp
    · have hzero : List.count c' [c] = 0 :=
        List.count_eq_zero.mpr fun hmem => heq (List.mem_singleton.mp hmem)
      rw [hzero]
      exact List.nodup_iff_count_le_one.mp hs.ordered.nodup c'
  case bounds =>
    intro c' hc'
    change 0 < c' ∧ c' ≤ c
    by_cases heq : c' = c
    · rw [heq]
      exact ⟨(Nat.zero_le _).trans_lt hc, le_refl c⟩
    · have hzero : List.count c' [c] = 0 :=
        List.count_eq_zero.mpr fun hmem => heq (List.mem_singleton.mp hmem)
      have hpos := List.count_pos_iff.mpr hc'
      rw [hcount, hzero] at hpos
      obtain ⟨hzero', hle⟩ := hs.ordered.bounds c' (List.count_pos_iff.mp hpos)
      exact ⟨hzero', hle.trans hc.le⟩
  case operated => exact hs.ordered.operated
  case unsearchable => exact hs.ordered.unsearchable
  case searcher => exact hs.ordered.searcher.trans hc.le
  case reloads => exact hs.ordered.reloads
  case noted => exact hs.ordered.noted

/-- A commit returns with the guards of the operations since the last one. -/
theorem Sound.committed (hs : s.Sound) {c : Opstamp}
    (hget : s.tasks[i]? = some ⟨job, .running (.saved c)⟩)
    (htasks : t.tasks = s.tasks.modify i
      (Task.withStage (.running (.handing c s.writer.uncommittedDocsInProgressGuards))))
    (hwriter : t.writer.uncommittedDocsInProgressGuards = [])
    (hhistory : t.history = { s.history with
      operated := []
      committed := s.history.committed ++ s.history.operated.map fun guard => (guard, c) })
    (hmetas : t.metas = s.metas) (hsearcher : t.searcher = s.searcher)
    (hstate : t.reloadState = s.reloadState) (hguards : t.guards = s.guards) :
    Passage s t [] [] ∧ t.Ordered := by
  have hextends : Extends s t := by
    constructor <;> simp only [hhistory, hsearcher, List.Subset.refl, le_refl,
      List.subset_append_left]
  have hbefore : guardsOf ⟨job, .running (.saved c)⟩ = [] := by cases job <;> rfl
  have hafter : guardsOf ⟨job, .running (.handing c s.writer.uncommittedDocsInProgressGuards)⟩ =
      s.writer.uncommittedDocsInProgressGuards := by cases job <;> rfl
  refine ⟨⟨fun g' => ?_, Or.inl ⟨rfl, hguards⟩, (by rintro _ ⟨⟩), hextends⟩, ?_⟩
  · have hmove := count_guardsOf_modify hget (.running (.handing c s.writer.uncommittedDocsInProgressGuards)) g'
    rw [hbefore, hafter, List.count_nil] at hmove
    rw [count_held, count_held, htasks, hwriter, State.unsearchable, hstate, List.count_nil]
    change _ + 0 + s.unsearchable.count g' + 0 = _
    omega
  · have hcount : ∀ c', t.stamps.count c' ≤ s.stamps.count c' := by
      intro c'
      have hmove := count_stampsOf_modify hget (.running (.handing c s.writer.uncommittedDocsInProgressGuards)) c'
      change _ + List.count c' [c] = _ + List.count c' [c] at hmove
      rw [count_stamps, count_stamps, htasks, hstate]
      omega
    have hle : s.metas.opstamp ≤ t.metas.opstamp := by rw [hmetas]
    have hfits : t.Fits (.running (.handing c s.writer.uncommittedDocsInProgressGuards)) := by
      intro g' hg'
      rw [hs.ordered.operated] at hg'
      rw [hhistory]
      exact List.mem_append_right _ (List.mem_map_of_mem hg')
    obtain ⟨hnodup, hbounds⟩ := hs.ordered.stamps_of_count hcount hle
    refine ⟨hs.ordered.stages_modify hget htasks hextends hle hfits, hnodup, hbounds, ?_, ?_, ?_, ?_,
      ?_⟩
    · rw [hwriter, hhistory]
    · rw [hstate]
      exact fun e he g hg => hextends.committed (hs.ordered.unsearchable e he g hg)
    · rw [hsearcher, hmetas]
      exact hs.ordered.searcher
    · rw [hsearcher, hhistory]
      exact hs.ordered.reloads
    · rw [hstate, hhistory]
      exact hs.ordered.noted

/-- The reader takes the guards of a commit, or drops them when it serves the commit already. -/
theorem Sound.handed (hs : s.Sound) {c : Opstamp} {gs : List Guard}
    (hget : s.tasks[i]? = some ⟨job, .running (.handing c gs)⟩)
    (htasks : t.tasks = s.tasks.modify i (Task.withStage (.running .done)))
    (hstate : t.reloadState = s.reloadState.dropGuardsWhenSearchable c gs)
    (hwriter : t.writer = s.writer) (hhistory : t.history = s.history) (hmetas : t.metas = s.metas)
    (hsearcher : t.searcher = s.searcher) (hguards : t.guards = s.guards) :
    (∃ dropped, Passage s t [] dropped) ∧ t.Ordered := by
  have hextends : Extends s t := .of_eq hhistory hsearcher
  have hle : s.metas.opstamp ≤ t.metas.opstamp := by rw [hmetas]
  have hcommitted : ∀ g ∈ gs, (g, c) ∈ s.history.committed :=
    hs.ordered.stages _ (List.mem_of_getElem? hget)
  have hbefore : guardsOf ⟨job, .running (.handing c gs)⟩ = gs := by cases job <;> rfl
  have hafter : guardsOf ⟨job, .running .done⟩ = [] := by cases job <;> rfl
  have hheld := fun g' => count_guardsOf_modify hget (.running .done) g'
  have hstamps := fun c' => count_stampsOf_modify hget (.running .done) c'
  have hstages := hs.ordered.stages_modify (t := t) hget htasks hextends hle trivial
  have hserved : ∀ o ∈ t.history.reloads, o ≤ t.searcher.opstamp := by
    rw [hhistory, hsearcher]
    exact hs.ordered.reloads
  have hsearched : t.searcher.opstamp ≤ t.metas.opstamp := by
    rw [hsearcher, hmetas]
    exact hs.ordered.searcher
  have hoperated : t.writer.uncommittedDocsInProgressGuards = t.history.operated := by
    rw [hwriter, hhistory, hs.ordered.operated]
  have hpos : 0 < c := (hs.ordered.bounds c (List.mem_append_left _
    (List.mem_flatMap.mpr ⟨_, List.mem_of_getElem? hget, List.mem_singleton_self c⟩))).1
  unfold ReloadState.dropGuardsWhenSearchable at hstate
  split at hstate
  case isTrue =>
    have hnone := hs.ordered.lookup_eq_none hget
    have hentries : t.reloadState.unsearchableDocs.entries =
        ⟨c, gs⟩ :: s.reloadState.unsearchableDocs.entries := by
      rw [hstate]
      exact AList.entries_insert_of_notMem (AList.lookup_eq_none.mp hnone)
    have hkeys : t.reloadState.unsearchableDocs.keys =
        c :: s.reloadState.unsearchableDocs.keys := by
      unfold AList.keys
      rw [hentries]
      rfl
    refine ⟨⟨[], fun g' => ?_, Or.inl ⟨rfl, hguards⟩, (by rintro _ ⟨⟩), hextends⟩, ?_⟩
    · have hmove := hheld g'
      rw [hbefore, hafter, List.count_nil] at hmove
      rw [count_held, count_held, htasks, hwriter, State.unsearchable, hentries, List.flatMap_cons,
        List.count_append, List.count_nil]
      change _ + (gs.count g' + s.unsearchable.count g') + 0 = _
      omega
    · have hcount : ∀ c', t.stamps.count c' ≤ s.stamps.count c' := by
        intro c'
        have hmove := hstamps c'
        change _ + List.count c' [c] = _ + 0 at hmove
        rw [List.count_singleton] at hmove
        rw [count_stamps, count_stamps, htasks, hkeys, List.count_cons]
        omega
      obtain ⟨hnodup, hbounds⟩ := hs.ordered.stamps_of_count hcount hle
      refine ⟨hstages, hnodup, hbounds, hoperated, ?_, hsearched, hserved, ?_⟩
      · rw [hentries, hhistory]
        intro e he
        rcases List.mem_cons.mp he with rfl | he
        · exact hcommitted
        · exact hs.ordered.unsearchable e he
      · rw [hstate, hhistory]
        exact hs.ordered.noted
  case isFalse hreloaded =>
    refine ⟨⟨gs, fun g' => ?_, Or.inl ⟨rfl, hguards⟩, fun g' hg' => ?_, hextends⟩, ?_⟩
    · have hmove := hheld g'
      rw [hbefore, hafter, List.count_nil] at hmove
      rw [count_held, count_held, htasks, hwriter, State.unsearchable, hstate, List.count_nil]
      change _ + s.unsearchable.count g' + _ = _
      omega
    · have hle : c ≤ s.reloadState.reloadedOpstamp := not_lt.mp hreloaded
      have hreload : s.reloadState.reloadedOpstamp ∈ s.history.reloads :=
        hs.ordered.noted.resolve_left fun hzero =>
          not_lt_of_ge (hle.trans_eq hzero) hpos
      refine hextends.released (Or.inr ⟨c, hcommitted g' hg', ?_, _, hreload, hle⟩)
      exact hle.trans (hs.ordered.reloads _ hreload)
    · have hcount : ∀ c', t.stamps.count c' ≤ s.stamps.count c' := by
        intro c'
        have hmove := hstamps c'
        change _ + _ = _ + 0 at hmove
        rw [count_stamps, count_stamps, htasks, hstate]
        omega
      obtain ⟨hnodup, hbounds⟩ := hs.ordered.stamps_of_count hcount hle
      refine ⟨hstages, hnodup, hbounds, hoperated, ?_, hsearched, hserved, ?_⟩
      · rw [hstate, hhistory]
        exact hs.ordered.unsearchable
      · rw [hstate, hhistory]
        exact hs.ordered.noted

/-- The reader is reloaded. -/
theorem Sound.reloaded (hs : s.Sound) {o : Opstamp}
    (hget : s.tasks[i]? = some ⟨job, .running (.reloading o)⟩)
    (htasks : t.tasks = s.tasks.modify i (Task.withStage (.running (.reloaded (some o)))))
    (hsearcher : t.searcher = s.metas)
    (hhistory : t.history = { s.history with reloads := o :: s.history.reloads })
    (hmetas : t.metas = s.metas) (hwriter : t.writer = s.writer)
    (hstate : t.reloadState = s.reloadState) (hguards : t.guards = s.guards) :
    Passage s t [] [] ∧ t.Ordered := by
  have ho : o ≤ s.metas.opstamp := hs.ordered.stages _ (List.mem_of_getElem? hget)
  have hextends : Extends s t := by
    constructor <;> simp only [hhistory, hsearcher, List.Subset.refl, List.subset_cons_self]
    exact hs.ordered.searcher
  have hle : s.metas.opstamp ≤ t.metas.opstamp := by rw [hmetas]
  have hsame : guardsOf ⟨job, .running (.reloaded (some o))⟩ =
      guardsOf ⟨job, .running (.reloading o)⟩ := by cases job <;> rfl
  refine ⟨.move hget htasks hsame hwriter (by rw [hstate]) hguards hextends, ?_⟩
  have hcount : ∀ c', t.stamps.count c' ≤ s.stamps.count c' := by
    intro c'
    have hmove := count_stampsOf_modify hget (.running (.reloaded (some o))) c'
    change _ + 0 = _ + 0 at hmove
    rw [count_stamps, count_stamps, htasks, hstate]
    omega
  obtain ⟨hnodup, hbounds⟩ := hs.ordered.stamps_of_count hcount hle
  have hfits : t.Fits (.running (.reloaded (some o))) := by
    change o ∈ t.history.reloads
    rw [hhistory]
    exact List.mem_cons_self
  refine ⟨hs.ordered.stages_modify hget htasks hextends hle hfits, hnodup, hbounds, ?_, ?_, ?_, ?_,
    ?_⟩
  · rw [hwriter, hhistory, hs.ordered.operated]
  · rw [hstate]
    exact fun e he g hg => hextends.committed (hs.ordered.unsearchable e he g hg)
  · rw [hsearcher, hmetas]
  · rw [hsearcher, hhistory]
    intro o' ho'
    rcases List.mem_cons.mp ho' with rfl | ho'
    · exact ho
    · exact (hs.ordered.reloads o' ho').trans hs.ordered.searcher
  · rw [hstate]
    exact hs.ordered.noted.imp_right fun h => hextends.reloads h

/-- A reload is noted, and the guards of what it serves are dropped. -/
theorem Sound.stored (hs : s.Sound) {o : Opstamp}
    (hget : s.tasks[i]? = some ⟨job, .running (.reloaded (some o))⟩)
    (htasks : t.tasks = s.tasks.modify i (Task.withStage (.running .done)))
    (hstate : t.reloadState = s.reloadState.store (some o)) (hwriter : t.writer = s.writer)
    (hhistory : t.history = s.history) (hmetas : t.metas = s.metas)
    (hsearcher : t.searcher = s.searcher) (hguards : t.guards = s.guards) :
    (∃ dropped, Passage s t [] dropped) ∧ t.Ordered := by
  have hextends : Extends s t := .of_eq hhistory hsearcher
  have hle : s.metas.opstamp ≤ t.metas.opstamp := by rw [hmetas]
  have ho : o ∈ s.history.reloads := hs.ordered.stages _ (List.mem_of_getElem? hget)
  have hsame : guardsOf ⟨job, .running (.reloaded (some o))⟩ = [] ∧
      guardsOf ⟨job, .running .done⟩ = [] := by cases job <;> exact ⟨rfl, rfl⟩
  have hentries : t.reloadState.unsearchableDocs.entries =
      s.reloadState.unsearchableDocs.entries.filter fun e => decide (o < e.1) := by
    rw [hstate]
    rfl
  refine ⟨⟨(s.reloadState.unsearchableDocs.entries.filter fun e => !decide (o < e.1)).flatMap
      Sigma.snd, fun g' => ?_, Or.inl ⟨rfl, hguards⟩, fun g' hg' => ?_, hextends⟩, ?_⟩
  · have hmove := count_guardsOf_modify hget (.running .done) g'
    rw [hsame.1, hsame.2] at hmove
    have hsplit := count_flatMap_filter s.reloadState.unsearchableDocs.entries Sigma.snd
      (fun e => decide (o < e.1)) g'
    rw [count_held, count_held, htasks, hwriter, State.unsearchable, State.unsearchable, hentries,
      List.count_nil]
    omega
  · obtain ⟨e, he, hge⟩ := List.mem_flatMap.mp hg'
    obtain ⟨he, hserved⟩ := List.mem_filter.mp he
    have hserved : e.1 ≤ o := by simpa using hserved
    refine hextends.released (Or.inr ⟨e.1, hs.ordered.unsearchable e he g' hge, ?_, o, ho, hserved⟩)
    exact hserved.trans (hs.ordered.reloads o ho)
  · have hcount : ∀ c', t.stamps.count c' ≤ s.stamps.count c' := by
      intro c'
      have hmove := count_stampsOf_modify hget (.running .done) c'
      change _ + 0 = _ + 0 at hmove
      have hkeys : t.reloadState.unsearchableDocs.keys.Sublist
          s.reloadState.unsearchableDocs.keys := by
        unfold AList.keys
        rw [hentries]
        exact List.filter_sublist.map _
      have := hkeys.count_le c'
      rw [count_stamps, count_stamps, htasks]
      omega
    obtain ⟨hnodup, hbounds⟩ := hs.ordered.stamps_of_count hcount hle
    refine ⟨hs.ordered.stages_modify hget htasks hextends hle trivial, hnodup, hbounds, ?_, ?_, ?_,
      ?_, ?_⟩
    · rw [hwriter, hhistory, hs.ordered.operated]
    · rw [hentries, hhistory]
      exact fun e he => hs.ordered.unsearchable e (List.mem_filter.mp he).1
    · rw [hsearcher, hmetas]
      exact hs.ordered.searcher
    · rw [hsearcher, hhistory]
      exact hs.ordered.reloads
    · rw [hstate, hhistory]
      exact Or.inr ho

/-! ## Failures -/

/-- A commit or a reload fails, or the failure of a reload is noted. -/
def Fails (s : State) : Action → Prop
  | .commit _ ok | .load _ ok | .reload _ ok => ok = false
  | .store i => s.stageOf i = some (.running (.reloaded none))
  | _ => False

instance (s : State) (a : Action) : Decidable (s.Fails a) :=
  match a with
  | .commit _ ok | .load _ ok | .reload _ ok => inferInstanceAs (Decidable (ok = false))
  | .store i => inferInstanceAs (Decidable (s.stageOf i = some (.running (.reloaded none))))
  | .receive _ _ | .tick | .check | .notify | .respond | .resume | .send _ | .take _
  | .operate _ _ | .save _ _ | .handOver _ | .finish _ =>
    inferInstanceAs (Decidable False)

/-- A failure leaves every guard where it is. -/
theorem Sound.failed (hs : s.Sound) {a : Action} (heffect : Effect s a t) (hfails : s.Fails a) :
    Passage s t [] [] ∧ t.Ordered := by
  cases heffect with
  | committed | loaded | reloaded => cases hfails
  | @uncommitted i job progress hget hprogress =>
    have hguards : guardsOf ⟨job, .running .done⟩ = guardsOf ⟨job, .running progress⟩ := by
      rcases hprogress with rfl | ⟨c, rfl⟩ <;> cases job <;> rfl
    exact hs.moved ⟨rfl, rfl, rfl, rfl, rfl, List.Subset.refl _, rfl, rfl, rfl⟩ rfl hget rfl hguards
      trivial rfl
  | @unloaded i job hget =>
    have hguards : guardsOf ⟨job, .running (.reloaded none)⟩ = guardsOf ⟨job, .running .loading⟩ := by
      cases job <;> rfl
    exact hs.moved ⟨rfl, rfl, rfl, rfl, rfl, List.Subset.refl _, rfl, rfl, rfl⟩ rfl hget rfl hguards
      trivial rfl
  | @unreloaded i job o hget =>
    have hguards : guardsOf ⟨job, .running (.reloaded none)⟩ =
        guardsOf ⟨job, .running (.reloading o)⟩ := by cases job <;> rfl
    exact hs.moved ⟨rfl, rfl, rfl, rfl, rfl, List.Subset.refl _, rfl, rfl, rfl⟩ rfl hget rfl hguards
      trivial rfl
  | @stored i job result hget =>
    have hnone : result = none := by
      rw [Fails, stageOf, hget, Option.map_some] at hfails
      injection hfails with hstage
      injection hstage with hprogress
      injection hprogress
    subst hnone
    have hguards : guardsOf ⟨job, .running .done⟩ = guardsOf ⟨job, .running (.reloaded none)⟩ := by
      cases job <;> rfl
    exact hs.moved ⟨rfl, rfl, rfl, rfl, rfl, List.Subset.refl _, rfl, rfl, rfl⟩ rfl hget rfl hguards
      trivial rfl
  | _ => exact hfails.elim

end State

end Tantivy

end VectorStore
