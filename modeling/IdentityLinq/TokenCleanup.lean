/-
`TokenCleanup`: the loop that clears expired grants, and the calls that start
and stop it.

`Start()` puts a new `CancellationTokenSource` into the field `_source` and queues
a task that reads this field once the thread pool runs it.  The calls, the
running of a queued task and the steps of the loops come in any order (`Step`).

* `Tracked.step` — which sources are cancelled, whatever the order;
* `oneLiveLoop_iff` — hence there is one live loop where every loop holds the
  token of the `Start()` that queued it;
* `run_oneLiveLoop_iff` — and that is so along the runs where no `Stop()` comes
  between a `Start()` and the running of its task.
-/
import IdentityLinq.Entities
import IdentityLinq.Program
import IdentityLinq.Transition
import Mathlib.Data.List.Perm.Subperm

namespace IdentityLinq.TokenCleanup

/-! ### One loop -/

/-- `System.TimeSpan`, in ticks of 100 ns. -/
structure TimeSpan where
  ticks : ℤ
deriving DecidableEq, Repr

/-- What `Task.Delay` accepts: from -1 ms, which is for ever, to `Int32.MaxValue` ms. -/
def TimeSpan.InRange (interval : TimeSpan) : Prop :=
  -1 * 10000 ≤ interval.ticks ∧ interval.ticks ≤ 2147483647 * 10000

/-- The whole milliseconds of an interval. -/
def TimeSpan.milliseconds (interval : TimeSpan) : ℤ := interval.ticks.tdiv 10000

/-- Where a loop is in the body of its `while (true)`. -/
inductive LoopPc where
  /-- before the first look at the token -/
  | top
  /-- before the call of `Task.Delay` -/
  | delay
  /-- awaiting the delay -/
  | waiting
  /-- after the delay, before the second look at the token -/
  | woken
  /-- in `ClearTokens` -/
  | clearing
deriving DecidableEq, Repr

/-- `ClearTokens()`, by the statements in its `try` block.  What these are answered is only
logged, and the `catch` lets no exception out. -/
def clearTokens {S ε α : Type} (statements : Program S ε α) : Program S ε Unit :=
  (statements >>= fun _expired => .ret ()).tryCatch fun _ex => .ret ()

/-- `ClearTokens` returns, on the database that its statements have left. -/
theorem run_clearTokens {S ε α : Type} (statements : Program S ε α) (s : S) :
    (clearTokens statements).run s = (.ok (), (statements.run s).2) := by
  rw [clearTokens, Program.run_tryCatch, Program.run_bind]
  rcases statements.run s with ⟨_ | _, _⟩ <;> rfl

/-- Where the loop goes on after `ClearTokens`, by how its statements ended. -/
def afterClearTokens {ε : Type} (outcome : Except ε ℕ) : Option LoopPc :=
  match ((clearTokens (.final outcome)).run ()).1 with
  | .ok () => some .top
  | .error _ => none

@[simp] theorem afterClearTokens_eq {ε : Type} (outcome : Except ε ℕ) :
    afterClearTokens outcome = some .top := by
  rw [afterClearTokens, run_clearTokens]

/-- A step of a loop, to its next place or, with `none`, out of the `while`. -/
inductive LoopStep (interval : TimeSpan) (isCancellationRequested : Prop) :
    LoopPc → Option LoopPc → Prop where
  | breakTop : isCancellationRequested → LoopStep interval isCancellationRequested .top none
  | goOn : ¬ isCancellationRequested →
      LoopStep interval isCancellationRequested .top (some .delay)
  -- `Task.Delay` checks its arguments first: the interval, then the token.
  | outOfRange : ¬ interval.InRange → LoopStep interval isCancellationRequested .delay none
  | delayCanceled : interval.InRange → isCancellationRequested →
      LoopStep interval isCancellationRequested .delay none
  | noDelay : interval.InRange → ¬ isCancellationRequested → interval.milliseconds = 0 →
      LoopStep interval isCancellationRequested .delay (some .woken)
  | await : interval.InRange → ¬ isCancellationRequested → interval.milliseconds ≠ 0 →
      LoopStep interval isCancellationRequested .delay (some .waiting)
  -- The timer may win against a cancellation, and the cancellation against the timer.
  | elapsed : 0 < interval.milliseconds →
      LoopStep interval isCancellationRequested .waiting (some .woken)
  | waitCanceled : isCancellationRequested →
      LoopStep interval isCancellationRequested .waiting none
  | breakWoken : isCancellationRequested →
      LoopStep interval isCancellationRequested .woken none
  | callClearTokens : ¬ isCancellationRequested →
      LoopStep interval isCancellationRequested .woken (some .clearing)
  | clearTokens {ε : Type} (outcome : Except ε ℕ) :
      LoopStep interval isCancellationRequested .clearing (afterClearTokens outcome)

/-! ### The service -/

/-- A running loop.  `queuedBy` names the `Start()` its task comes from. -/
structure Loop where
  queuedBy : ℕ
  cancellationToken : ℕ
  pc : LoopPc
deriving DecidableEq, Repr

/-- A `TokenCleanup` with its tasks.  Sources are numbered as they are created, and
so are the calls of `Start()`: each creates one source and queues one task. -/
structure State where
  /-- the field `_source` -/
  source : Option ℕ
  /-- how many sources were created -/
  created : ℕ
  /-- the cancelled sources -/
  cancelled : List ℕ
  /-- the queued tasks the thread pool has not run yet -/
  queue : List ℕ
  loops : List Loop
  /-- the tasks that ended with a `NullReferenceException` -/
  failed : List ℕ
deriving DecidableEq, Repr

/-- A new `TokenCleanup`. -/
def State.init : State :=
  { source := none, created := 0, cancelled := [], queue := [], loops := [], failed := [] }

/-- `Start()`. -/
def State.start (s : State) : Except Error State :=
  match s.source with
  | some _ => .error .invalidOperation
  | none => .ok { s with
      source := some s.created, created := s.created + 1, queue := s.created :: s.queue }

/-- `Stop()`. -/
def State.stop (s : State) : Except Error State :=
  match s.source with
  | none => .error .invalidOperation
  | some source => .ok { s with source := none, cancelled := source :: s.cancelled }

/-- The thread pool runs the queued `() => Start(_source.Token)`. -/
def State.runTask (s : State) (task : ℕ) : State :=
  match s.source with
  | none => { s with queue := s.queue.erase task, failed := task :: s.failed }
  | some source => { s with
      queue := s.queue.erase task, loops := ⟨task, source, .top⟩ :: s.loops }

inductive Action where
  | start
  | stop
  | runTask (task : ℕ)
  | loop
deriving DecidableEq, Repr

/-- The steps of the service. -/
inductive Step (interval : TimeSpan) : State → Action → State → Prop where
  | start {s s' : State} : s.start = .ok s' → Step interval s .start s'
  | stop {s s' : State} : s.stop = .ok s' → Step interval s .stop s'
  | runTask {s : State} (task : ℕ) :
      task ∈ s.queue → Step interval s (.runTask task) (s.runTask task)
  | loop {s : State} {pre post : List Loop} {l : Loop} {pc : Option LoopPc} :
      s.loops = pre ++ l :: post →
      LoopStep interval (l.cancellationToken ∈ s.cancelled) l.pc pc →
      Step interval s .loop
        { s with loops := pre ++ (pc.map fun pc => { l with pc := pc }).toList ++ post }

theorem start_eq_ok {s s' : State} (h : s.start = .ok s') :
    s.source = none ∧ s' = { s with
      source := some s.created, created := s.created + 1, queue := s.created :: s.queue } := by
  rw [State.start] at h
  split at h
  · exact nomatch h
  · next hnone => exact ⟨hnone, (Except.ok.inj h).symm⟩

theorem stop_eq_ok {s s' : State} (h : s.stop = .ok s') :
    ∃ source, s.source = some source ∧
      s' = { s with source := none, cancelled := source :: s.cancelled } := by
  rw [State.stop] at h
  split at h
  · exact nomatch h
  · next source hsome => exact ⟨source, hsome, (Except.ok.inj h).symm⟩

/-! ### Which sources are cancelled -/

/-- The calls of `Start()` whose task is queued or runs a loop. -/
def State.tasks (s : State) : List ℕ := s.queue ++ s.loops.map Loop.queuedBy

/-- What holds in every run: of the created sources, the one in the field is live
and all others are cancelled. -/
structure Tracked (s : State) : Prop where
  nodup : s.tasks.Nodup
  lt_created : ∀ t ∈ s.tasks, t < s.created
  source_lt : ∀ t, s.source = some t → t < s.created
  live : ∀ t, s.source = some t → t ∉ s.cancelled
  cancelled_lt : ∀ t ∈ s.cancelled, t < s.created
  cancelled_or : ∀ t < s.created, t ∈ s.cancelled ∨ s.source = some t

theorem tracked_init : Tracked State.init where
  nodup := List.nodup_nil
  lt_created := fun _ ht => absurd ht List.not_mem_nil
  source_lt := fun _ ht => nomatch ht
  live := fun _ ht => nomatch ht
  cancelled_lt := fun _ ht => absurd ht List.not_mem_nil
  cancelled_or := fun _ ht => absurd ht (Nat.not_lt_zero _)

/-- A step of the thread pool or of a loop only moves tasks or drops them. -/
theorem Tracked.of_subperm {s s' : State} (h : Tracked s) (htasks : s'.tasks.Subperm s.tasks)
    (hsource : s'.source = s.source) (hcreated : s'.created = s.created)
    (hcancelled : s'.cancelled = s.cancelled) : Tracked s' where
  nodup := by
    obtain ⟨tasks, hperm, hsublist⟩ := htasks
    exact hperm.nodup_iff.mp (h.nodup.sublist hsublist)
  lt_created := fun t ht => hcreated ▸ h.lt_created t (htasks.subset ht)
  source_lt := fun t ht => hcreated ▸ h.source_lt t (hsource ▸ ht)
  live := fun t ht => hcancelled ▸ h.live t (hsource ▸ ht)
  cancelled_lt := fun t ht => hcreated ▸ h.cancelled_lt t (hcancelled ▸ ht)
  cancelled_or := by
    rw [hcreated, hcancelled, hsource]
    exact h.cancelled_or

theorem subperm_tasks_runTask {s : State} {task : ℕ} (h : task ∈ s.queue) :
    (s.runTask task).tasks.Subperm s.tasks := by
  have hperm : (s.queue.erase task ++ task :: s.loops.map Loop.queuedBy).Perm s.tasks :=
    List.perm_middle.trans ((List.perm_cons_erase h).symm.append_right _)
  rw [State.runTask]
  split
  · exact (List.erase_sublist.append_right _).subperm
  · exact hperm.subperm

theorem queuedBy_moved_sublist (l : Loop) (pc : Option LoopPc) :
    ((pc.map fun pc => { l with pc := pc }).toList.map Loop.queuedBy).Sublist [l.queuedBy] := by
  cases pc with
  | none => exact List.nil_sublist _
  | some pc => exact List.Sublist.refl _

theorem Tracked.step {interval : TimeSpan} {s s' : State} {a : Action} (h : Tracked s)
    (hs : Step interval s a s') : Tracked s' := by
  cases hs with
  | start hok =>
    obtain ⟨hnone, rfl⟩ := start_eq_ok hok
    exact
      { nodup := List.nodup_cons.mpr
          ⟨fun hmem => absurd (h.lt_created _ hmem) (lt_irrefl _), h.nodup⟩
        lt_created := by
          intro t ht
          rcases List.mem_cons.mp ht with rfl | hold
          · exact Nat.lt_succ_self _
          · exact Nat.lt_succ_of_lt (h.lt_created t hold)
        source_lt := by
          rintro t ⟨⟩
          exact Nat.lt_succ_self _
        live := by
          rintro t ⟨⟩ hmem
          exact absurd (h.cancelled_lt _ hmem) (lt_irrefl _)
        cancelled_lt := fun t ht => Nat.lt_succ_of_lt (h.cancelled_lt t ht)
        cancelled_or := by
          intro t ht
          -- The field was empty, so every older source is cancelled.
          rcases Nat.lt_succ_iff_lt_or_eq.mp ht with hold | rfl
          · rcases h.cancelled_or t hold with hc | hsome
            · exact .inl hc
            · exact nomatch hnone.symm.trans hsome
          · exact .inr rfl }
  | stop hok =>
    -- The source moves from the field to the cancelled ones.
    obtain ⟨source, hsome, rfl⟩ := stop_eq_ok hok
    exact
      { nodup := h.nodup
        lt_created := h.lt_created
        source_lt := fun t ht => nomatch ht
        live := fun t ht => nomatch ht
        cancelled_lt := by
          intro t ht
          rcases List.mem_cons.mp ht with rfl | hold
          · exact h.source_lt _ hsome
          · exact h.cancelled_lt t hold
        cancelled_or := by
          intro t ht
          rcases h.cancelled_or t ht with hc | hfield
          · exact .inl (List.mem_cons_of_mem _ hc)
          · obtain rfl : source = t := Option.some.inj (hsome.symm.trans hfield)
            exact .inl List.mem_cons_self }
  | runTask task hmem =>
    refine h.of_subperm (subperm_tasks_runTask hmem) ?_ ?_ ?_ <;>
      (rw [State.runTask]; split <;> simp [*])
  | @loop pre post l pc hloops _ =>
    -- The loop stays with its task or leaves.
    refine h.of_subperm (List.Sublist.subperm ?_) rfl rfl rfl
    rw [State.tasks, State.tasks, hloops]
    simp only [List.map_append, List.append_assoc, List.map_cons]
    refine ((List.Sublist.refl _).append ?_)
    refine ((List.Sublist.refl _).append ?_)
    exact (queuedBy_moved_sublist l pc).append_right _

/-! ### One live loop -/

/-- What the calls promise of a state. -/
structure OneLiveLoop (s : State) : Prop where
  noneFailed : s.failed = []
  ownToken : ∀ l ∈ s.loops, l.cancellationToken = l.queuedBy
  atMostOne : s.loops.countP (fun l => decide (l.cancellationToken ∉ s.cancelled)) ≤ 1
  noneOnceStopped : s.source = none → ∀ l ∈ s.loops, l.cancellationToken ∈ s.cancelled

/-- A task is run before a `Stop()` has cancelled the source of its `Start()`. -/
def InTime (s : State) : Action → Prop
  | .runTask task => task ∉ s.cancelled
  | _ => True

instance (s : State) : (a : Action) → Decidable (InTime s a)
  | .runTask task => inferInstanceAs (Decidable (task ∉ s.cancelled))
  | .start | .stop | .loop => isTrue trivial

variable {interval : TimeSpan} {s s' : State} {a : Action}

/-- A loop that holds its own token and is not cancelled was queued by the source in
the field. -/
theorem Tracked.source_eq_of_live (h : Tracked s) {l : Loop} (hl : l ∈ s.loops)
    (hown : l.cancellationToken = l.queuedBy) (hlive : l.cancellationToken ∉ s.cancelled) :
    s.source = some l.queuedBy := by
  have htask : l.queuedBy ∈ s.tasks := List.mem_append_right _ (List.mem_map_of_mem hl)
  rcases h.cancelled_or _ (h.lt_created _ htask) with hc | hsome
  · exact absurd (hown ▸ hc) hlive
  · exact hsome

theorem Tracked.oneLiveLoop_iff (h : Tracked s) :
    OneLiveLoop s ↔ s.failed = [] ∧ ∀ l ∈ s.loops, l.cancellationToken = l.queuedBy := by
  refine ⟨fun hone => ⟨hone.noneFailed, hone.ownToken⟩, fun ⟨hfailed, hown⟩ => ?_⟩
  refine ⟨hfailed, hown, ?_, ?_⟩
  · cases hsource : s.source with
    | none =>
      rw [Nat.le_one_iff_eq_zero_or_eq_one, List.countP_eq_zero]
      refine .inl fun l hl hlive => ?_
      have hsome := h.source_eq_of_live hl (hown l hl) (of_decide_eq_true hlive)
      exact nomatch hsource.symm.trans hsome
    | some source =>
      -- All live loops were queued by one call, and each call queues one task.
      have hnodup : (s.loops.map Loop.queuedBy).Nodup := h.nodup.of_append_right
      refine le_trans ?_ (List.nodup_iff_count_le_one.mp hnodup source)
      rw [List.count, List.countP_map]
      refine List.countP_mono_left fun l hl hlive => ?_
      have hsome := h.source_eq_of_live hl (hown l hl) (of_decide_eq_true hlive)
      exact beq_iff_eq.mpr (Option.some.inj (hsource.symm.trans hsome)).symm
  · intro hnone l hl
    by_contra hlive
    exact nomatch hnone.symm.trans (h.source_eq_of_live hl (hown l hl) hlive)

theorem tracked_runTask_source (h : Tracked s) {task : ℕ} (htask : task ∈ s.queue)
    (hin : task ∉ s.cancelled) : s.source = some task := by
  have hlt := h.lt_created task (List.mem_append_left _ htask)
  exact (h.cancelled_or task hlt).resolve_left hin

/-- A step in time keeps the promise. -/
theorem OneLiveLoop.step (h : Tracked s) (hone : OneLiveLoop s) (hs : Step interval s a s')
    (hin : InTime s a) : OneLiveLoop s' := by
  obtain ⟨hfailed, hown⟩ := h.oneLiveLoop_iff.mp hone
  refine (h.step hs).oneLiveLoop_iff.mpr ?_
  cases hs with
  | start hok =>
    obtain ⟨-, rfl⟩ := start_eq_ok hok
    exact ⟨hfailed, hown⟩
  | stop hok =>
    obtain ⟨_, -, rfl⟩ := stop_eq_ok hok
    exact ⟨hfailed, hown⟩
  | runTask task htask =>
    have hsource : s.source = some task := tracked_runTask_source h htask hin
    simp only [State.runTask, hsource]
    refine ⟨hfailed, fun l hl => ?_⟩
    rcases List.mem_cons.mp hl with rfl | hold
    · rfl
    · exact hown l hold
  | @loop pre post l pc hloops _ =>
    -- A step of a loop changes only where it is.
    refine ⟨hfailed, fun l' hl' => ?_⟩
    have hl : l.cancellationToken = l.queuedBy := hown l (by simp [hloops])
    simp only [List.mem_append, Option.mem_toList, Option.map_eq_some_iff] at hl'
    rcases hl' with (hpre | ⟨_, -, rfl⟩) | hpost
    · exact hown l' (by simp [hloops, hpre])
    · exact hl
    · exact hown l' (by simp [hloops, hpost])

/-- A step out of time breaks it: the task fails, or its loop holds a token that is
not its own. -/
theorem OneLiveLoop.inTime (h : Tracked s) (hs : Step interval s a s') (hone : OneLiveLoop s') :
    InTime s a := by
  cases hs with
  | start _ => trivial
  | stop _ => trivial
  | loop _ _ => trivial
  | runTask task htask =>
    intro hcancelled
    cases hsource : s.source with
    | none =>
      have hfailed := hone.noneFailed
      simp [State.runTask, hsource] at hfailed
    | some source =>
      have hown := hone.ownToken ⟨task, source, .top⟩ (by simp [State.runTask, hsource])
      obtain rfl : source = task := hown
      exact h.live _ hsource hcancelled

theorem oneLiveLoop_init : OneLiveLoop State.init :=
  tracked_init.oneLiveLoop_iff.mpr ⟨rfl, fun _ hl => absurd hl List.not_mem_nil⟩

/-- **Where there is one live loop**: along the runs in which every task is run
before a `Stop()` has cancelled the source of its `Start()`. -/
theorem run_oneLiveLoop_iff {ts : List (Transition State Action)}
    (h : Run (Step interval) State.init ts s) :
    (OneLiveLoop State.init ∧ ∀ t ∈ ts, OneLiveLoop t.after) ↔
      ∀ t ∈ ts, InTime t.before t.label := by
  rw [and_iff_right oneLiveLoop_init]
  exact h.forall_after_iff tracked_init (fun _ _ _ => Tracked.step) oneLiveLoop_init
    (fun _ _ _ => OneLiveLoop.step) fun _ _ _ => OneLiveLoop.inTime

/-- The default interval of `TokenCleanupOptions`, 60 seconds. -/
def TimeSpan.oneMinute : TimeSpan := ⟨600000000⟩

theorem run_oneLiveLoop_startOnce :
    OneLiveLoop ((State.mk (some 0) 1 [] [0] [] []).runTask 0) := by
  have hrun : Run (Step .oneMinute) State.init _ _ :=
    (Run.nil.concat (.start rfl)).concat (.runTask 0 List.mem_cons_self)
  have hall := ((run_oneLiveLoop_iff hrun).mpr (by decide)).2
  exact hall ⟨_, _, _⟩ (List.mem_append_right _ List.mem_cons_self)

/-- `Start()`, `Stop()`, and a task that finds no source; with a second `Start()`
before the tasks run, both loops hold its token. -/
theorem not_oneLiveLoop_stopBeforeTask :
    (∃ ts s, Run (Step .oneMinute) State.init ts s ∧ s.failed ≠ []) ∧
    ∃ ts s, Run (Step .oneMinute) State.init ts s ∧
      1 < s.loops.countP (fun l => decide (l.cancellationToken ∉ s.cancelled)) := by
  have hstopped : Run (Step .oneMinute) State.init _ _ :=
    (Run.nil.concat (.start rfl)).concat (.stop rfl)
  constructor
  · exact ⟨_, _, hstopped.concat (.runTask 0 (by decide)), by decide⟩
  · have hqueued := hstopped.concat (.start rfl)
    exact ⟨_, _, (hqueued.concat (.runTask 0 (by decide))).concat
      (.runTask 1 (by decide)), by decide⟩

end IdentityLinq.TokenCleanup
