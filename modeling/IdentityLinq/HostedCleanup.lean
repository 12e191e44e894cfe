/-
The cleanup in an application.

`AddOperationalStore` puts one `TokenCleanup` among the services, and
`UseIdentityServerEfTokenCleanup` registers its `Start` and `Stop` with the lifetime of
the application, which calls back at most once when the application has started and at
most once when it stops.  Around them the callers of the grant store, the thread pool,
the loop and the clock go on in any order (`App.Step`).

* `Hosted.step` — there is one task over the whole life of the application, so the two
  ways in which the calls of `Start()` and `Stop()` can go wrong together do not arise;
* `app_lifecycle` — once it is told to stop, the loop takes at most two more steps and
  deletes at most once more;
* `app_notStale` — what is left in the table had not expired at the last tick, or was
  stored since;
* `app_grantsShown` — and the callers are shown the live grants they have stored, and some
  that have expired.
-/
import IdentityLinq.CleanupLoop
import IdentityLinq.GrantExpiry
import Mathlib.Algebra.GroupWithZero.Nat

namespace IdentityLinq.TokenCleanup

/-! ### The code -/

/-- What is registered with the services: the interval of the `TokenCleanup`. -/
structure Services where
  tokenCleanup : Option TimeSpan
deriving DecidableEq, Repr

/-- `AddOperationalStore(factory, initTokenCleanUpOptions)`, of which the last call
counts. -/
def addOperationalStore (_services : Services)
    (initTokenCleanUpOptions : Option (TimeSpan → TimeSpan)) : Services :=
  let interval := TimeSpan.oneMinute
  { tokenCleanup := some (match initTokenCleanUpOptions with
      | some init => init interval
      | none => interval) }

/-- The callbacks registered with an `IApplicationLifetime`. -/
structure Lifetime where
  applicationStarted : List (State → Except Error State)
  applicationStopping : List (State → Except Error State)

/-- `UseIdentityServerEfTokenCleanup(applicationLifetime)`. -/
def useIdentityServerEfTokenCleanup (services : Services) (applicationLifetime : Lifetime) :
    Except Error Lifetime :=
  match services.tokenCleanup with
  | none => .error .invalidOperation
  | some _ => .ok
      { applicationStarted := applicationLifetime.applicationStarted ++ [State.start]
        applicationStopping := applicationLifetime.applicationStopping ++ [State.stop] }

/-- A lifetime that the calls of `UseIdentityServerEfTokenCleanup`, one or more, have
returned with. -/
inductive Configured (services : Services) : Lifetime → Prop where
  | once {l : Lifetime} : useIdentityServerEfTokenCleanup services ⟨[], []⟩ = .ok l →
      Configured services l
  | again {l l' : Lifetime} : Configured services l →
      useIdentityServerEfTokenCleanup services l = .ok l' → Configured services l'

/-- Where a call leaves the service: one that throws has changed nothing. -/
def attempt (call : State → Except Error State) (s : State) : State :=
  match call s with
  | .ok s' => s'
  | .error _ => s

/-- The lifetime runs its callbacks, the last one first; what they throw is reported
elsewhere. -/
def fire (callbacks : List (State → Except Error State)) (s : State) : State :=
  callbacks.foldr attempt s

/-! ### The application -/

/-- An application with its cleanup, the table of grants and the time. -/
structure App where
  cleanup : State
  /-- `ApplicationStarted` has been signalled -/
  started : Bool
  /-- `ApplicationStopping` has been signalled -/
  stopping : Bool
  grants : GrantDb
  now : DateTime

/-- Before the application has started, with a new table. -/
def App.init : App :=
  { cleanup := .init, started := false, stopping := false, grants := .empty, now := 0 }

inductive AppAction where
  /-- a caller of the grant store -/
  | call (op : GrantOp)
  | wait (now : DateTime)
  | applicationStarted
  | applicationStopping
  | runTask (task : ℕ)
  /-- a step of the loop outside `ClearTokens` -/
  | loop
  /-- `ClearTokens`, with the time its statement compares with -/
  | clearTokens (utcNow : DateTime)
  /-- `ClearTokens`, where something in the `try` block throws -/
  | clearTokensThrows
deriving DecidableEq, Repr

/-- The operation is a call of the store, not a tick. -/
def GrantCall : GrantOp → Prop
  | .clearTokens _ => False
  | _ => True

/-- The loops when one of them moves on. -/
def State.moveLoop (s : State) (pre post : List Loop) (l : Loop) (pc : Option LoopPc) : State :=
  { s with loops := pre ++ (pc.map fun pc => { l with pc := pc }).toList ++ post }

/-- The steps of the application. -/
inductive App.Step (interval : TimeSpan) (lifetime : Lifetime) : App → AppAction → App → Prop where
  | call {s : App} (op : GrantOp) : GrantCall op →
      Step interval lifetime s (.call op) { s with grants := op.run s.grants }
  | wait {s : App} (now : DateTime) : s.now ≤ now →
      Step interval lifetime s (.wait now) { s with now := now }
  | applicationStarted {s : App} : s.started = false →
      Step interval lifetime s .applicationStarted
        { s with started := true, cleanup := fire lifetime.applicationStarted s.cleanup }
  | applicationStopping {s : App} : s.stopping = false →
      Step interval lifetime s .applicationStopping
        { s with stopping := true, cleanup := fire lifetime.applicationStopping s.cleanup }
  | runTask {s : App} (task : ℕ) : task ∈ s.cleanup.queue →
      Step interval lifetime s (.runTask task) { s with cleanup := s.cleanup.runTask task }
  | loop {s : App} {pre post : List Loop} {l : Loop} {pc : Option LoopPc} :
      s.cleanup.loops = pre ++ l :: post → l.pc ≠ .clearing →
      LoopStep interval (l.cancellationToken ∈ s.cleanup.cancelled) l.pc pc →
      Step interval lifetime s .loop { s with cleanup := s.cleanup.moveLoop pre post l pc }
  | clearTokens {s : App} {pre post : List Loop} {l : Loop} (utcNow : DateTime) (expired : ℕ) :
      s.cleanup.loops = pre ++ l :: post → l.pc = .clearing → utcNow ≤ s.now →
      Step interval lifetime s (.clearTokens utcNow) { s with
        cleanup := s.cleanup.moveLoop pre post l (afterClearTokens (.ok expired : Except Error ℕ))
        grants := (GrantOp.clearTokens utcNow).run s.grants }
  | clearTokensThrows {s : App} {pre post : List Loop} {l : Loop} (ex : Error) :
      s.cleanup.loops = pre ++ l :: post → l.pc = .clearing →
      Step interval lifetime s .clearTokensThrows { s with
        cleanup := s.cleanup.moveLoop pre post l (afterClearTokens (.error ex)) }

/-! ### The callbacks -/

theorem fire_replicate_of_error {call : State → Except Error State} {s : State} {e : Error}
    (h : call s = .error e) (n : ℕ) : fire (List.replicate n call) s = s := by
  induction n with
  | zero => rfl
  | succ n ih =>
    rw [List.replicate_succ, fire, List.foldr_cons, ← fire, ih, attempt, h]

/-- Where a second call throws, the callbacks together do what one of them does. -/
theorem fire_replicate_of_ok {call : State → Except Error State} {s s' : State} {e : Error}
    (h : call s = .ok s') (h' : call s' = .error e) (n : ℕ) :
    fire (List.replicate (n + 1) call) s = s' := by
  induction n with
  | zero => simp [fire, attempt, h]
  | succ n ih =>
    rw [List.replicate_succ, fire, List.foldr_cons, ← fire, ih, attempt, h']

theorem Configured.eq_replicate {services : Services} {l : Lifetime}
    (h : Configured services l) :
    ∃ n, l.applicationStarted = List.replicate (n + 1) State.start ∧
      l.applicationStopping = List.replicate (n + 1) State.stop := by
  induction h with
  | once hl =>
    rw [useIdentityServerEfTokenCleanup] at hl
    split at hl
    · exact absurd hl (by simp)
    · exact ⟨0, by simp [← Except.ok.inj hl], by simp [← Except.ok.inj hl]⟩
  | again _ hl ih =>
    obtain ⟨n, hstart, hstop⟩ := ih
    rw [useIdentityServerEfTokenCleanup] at hl
    split at hl
    · exact absurd hl (by simp)
    · refine ⟨n + 1, ?_, ?_⟩
      · rw [← Except.ok.inj hl, List.replicate_succ', hstart]
      · rw [← Except.ok.inj hl, List.replicate_succ', hstop]

variable {services : Services} {lifetime : Lifetime} {interval : TimeSpan}

/-- However often the callbacks were registered, `Start()` is called once. -/
theorem Configured.fire_started (h : Configured services lifetime) (s : State) :
    fire lifetime.applicationStarted s = attempt State.start s := by
  obtain ⟨n, hstart, -⟩ := h.eq_replicate
  rw [hstart]
  cases hs : s.source with
  | some source =>
    have herror : s.start = .error .invalidOperation := by rw [State.start, hs]
    rw [fire_replicate_of_error herror, attempt, herror]
  | none =>
    have hok : s.start = .ok { s with
        source := some s.created, created := s.created + 1, queue := s.created :: s.queue } := by
      rw [State.start, hs]
    rw [fire_replicate_of_ok hok (e := .invalidOperation) rfl, attempt, hok]

/-- And so is `Stop()`. -/
theorem Configured.fire_stopping (h : Configured services lifetime) (s : State) :
    fire lifetime.applicationStopping s = attempt State.stop s := by
  obtain ⟨n, -, hstop⟩ := h.eq_replicate
  rw [hstop]
  cases hs : s.source with
  | none =>
    have herror : s.stop = .error .invalidOperation := by rw [State.stop, hs]
    rw [fire_replicate_of_error herror, attempt, herror]
  | some source =>
    have hok : s.stop = .ok { s with source := none, cancelled := source :: s.cancelled } := by
      rw [State.stop, hs]
    rw [fire_replicate_of_ok hok (e := .invalidOperation) rfl, attempt, hok]

/-! ### One task -/

variable {s s' : App} {a : AppAction}

/-- What holds of the cleanup of an application. -/
structure Hosted (s : App) : Prop where
  tracked : Tracked s.cleanup
  notStarted : s.started = false → s.cleanup.created = 0
  created_le : s.cleanup.created ≤ 1
  tasks_le : s.cleanup.tasks.length + s.cleanup.failed.length ≤ s.cleanup.created
  token_lt : ∀ l ∈ s.cleanup.loops, l.cancellationToken < s.cleanup.created

theorem hosted_init : Hosted .init where
  tracked := tracked_init
  notStarted := fun _ => rfl
  created_le := Nat.zero_le _
  tasks_le := Nat.le_refl _
  token_lt := fun _ hl => absurd hl List.not_mem_nil

/-- The loop goes on after `ClearTokens`, whatever became of it. -/
theorem loopStep_clearing {c : Prop} {l : Loop} (hpc : l.pc = .clearing)
    (outcome : Except Error ℕ) : LoopStep interval c l.pc (afterClearTokens outcome) := by
  rw [hpc]
  exact .clearTokens outcome

/-- A loop that moves on is still there with its token, or it is not there. -/
theorem mem_moveLoop {c : State} {pre post : List Loop} {l : Loop} {pc : Option LoopPc}
    (hloops : c.loops = pre ++ l :: post) {l' : Loop} (h : l' ∈ (c.moveLoop pre post l pc).loops) :
    ∃ k ∈ c.loops, l'.cancellationToken = k.cancellationToken ∧ l'.queuedBy = k.queuedBy := by
  rw [State.moveLoop, List.mem_append, List.mem_append, Option.mem_toList,
    Option.map_eq_some_iff] at h
  rcases h with (hpre | ⟨_, -, rfl⟩) | hpost
  · exact ⟨l', by simp [hloops, hpre], rfl, rfl⟩
  · exact ⟨l, by simp [hloops], rfl, rfl⟩
  · exact ⟨l', by simp [hloops, hpost], rfl, rfl⟩

theorem Hosted.moveLoop (h : Hosted s) {pre post : List Loop} {l : Loop} {pc : Option LoopPc}
    (hloops : s.cleanup.loops = pre ++ l :: post)
    (hstep : LoopStep interval (l.cancellationToken ∈ s.cleanup.cancelled) l.pc pc)
    (hcleanup : s'.cleanup = s.cleanup.moveLoop pre post l pc) (hstarted : s'.started = s.started) :
    Hosted s' where
  tracked := by
    rw [hcleanup]
    exact h.tracked.step (.loop hloops hstep)
  notStarted := by
    rw [hcleanup, hstarted]
    exact h.notStarted
  created_le := by
    rw [hcleanup]
    exact h.created_le
  tasks_le := by
    rw [hcleanup]
    refine le_trans ?_ h.tasks_le
    have hlength : (pc.map fun pc => { l with pc := pc }).toList.length ≤ 1 := by
      cases pc <;> simp
    simp only [State.tasks, State.moveLoop, hloops, List.length_append, List.length_map,
      List.length_cons]
    omega
  token_lt := by
    rw [hcleanup]
    intro l' hl'
    obtain ⟨k, hk, htoken, -⟩ := mem_moveLoop hloops hl'
    exact htoken ▸ h.token_lt k hk

/-- **One task over the life of an application.** -/
theorem Hosted.step (hl : Configured services lifetime) (h : Hosted s)
    (hs : App.Step interval lifetime s a s') : Hosted s' := by
  cases hs with
  | call op _ => exact { h with }
  | wait now _ => exact { h with }
  | applicationStarted hnot =>
    have hzero := h.notStarted hnot
    have htasks := h.tasks_le
    rw [hzero] at htasks
    -- No source was created before, so `Start()` finds none.
    have hnone : s.cleanup.source = none := by
      cases hsource : s.cleanup.source with
      | none => rfl
      | some source => exact absurd (h.tracked.source_lt _ hsource) (by omega)
    have hok : s.cleanup.start = .ok { s.cleanup with
        source := some s.cleanup.created, created := s.cleanup.created + 1,
        queue := s.cleanup.created :: s.cleanup.queue } := by
      rw [State.start, hnone]
    have hfire := hl.fire_started s.cleanup
    rw [attempt, hok] at hfire
    refine ⟨?_, fun hfalse => absurd hfalse (by simp), ?_, ?_, ?_⟩
    · rw [hfire]
      exact h.tracked.step (@Step.start interval _ _ hok)
    · simp [hfire, hzero]
    · simp only [hfire, State.tasks, List.length_append, List.length_map,
        List.length_cons] at htasks ⊢
      omega
    · rw [hfire]
      exact fun l hl => Nat.lt_succ_of_lt (h.token_lt l hl)
  | applicationStopping _ =>
    have hfire := hl.fire_stopping s.cleanup
    cases hstop : s.cleanup.stop with
    | error e =>
      rw [attempt, hstop] at hfire
      rw [hfire]
      exact { h with }
    | ok c =>
      obtain ⟨source, -, rfl⟩ := stop_eq_ok hstop
      rw [attempt, hstop] at hfire
      rw [hfire]
      exact { h with tracked := h.tracked.step (@Step.stop interval _ _ hstop) }
  | runTask task htask =>
    have herase : (s.cleanup.queue.erase task).length + 1 = s.cleanup.queue.length := by
      rw [List.length_erase_of_mem htask]
      have := List.length_pos_of_mem htask
      omega
    have htasks := h.tasks_le
    rw [State.tasks, List.length_append, List.length_map] at htasks
    refine ⟨h.tracked.step (@Step.runTask interval _ task htask), ?_, ?_, ?_, ?_⟩
    · rw [State.runTask]
      split <;> exact h.notStarted
    · rw [State.runTask]
      split <;> exact h.created_le
    · rw [State.runTask]
      split
      · simp only [State.tasks, List.length_append, List.length_map, List.length_cons]
        omega
      · simp only [State.tasks, List.length_append, List.length_map, List.length_cons]
        omega
    · intro l hl
      rw [State.runTask] at hl ⊢
      split at hl
      · exact h.token_lt l hl
      · next source hsource =>
        rcases List.mem_cons.mp hl with rfl | hold
        · exact h.tracked.source_lt _ hsource
        · exact h.token_lt l hold
  | loop hloops _ hstep => exact h.moveLoop hloops hstep rfl rfl
  | clearTokens utcNow expired hloops hpc _ =>
    exact h.moveLoop hloops (@loopStep_clearing interval _ _ hpc (.ok expired)) rfl rfl
  | clearTokensThrows ex hloops hpc =>
    exact h.moveLoop hloops (@loopStep_clearing interval _ _ hpc (.error ex)) rfl rfl

theorem hosted_of_run (hl : Configured services lifetime)
    {ts : List (Transition App AppAction)} (hrun : Run (App.Step interval lifetime) .init ts s) :
    Hosted s := hrun.invariant hosted_init fun _ _ _ => Hosted.step hl

/-- What an application can rely on in every state. -/
structure OneTask (s : App) : Prop where
  /-- one `Start()` queues a task, which then runs the loop or fails -/
  atMostOne : s.cleanup.queue.length + s.cleanup.loops.length + s.cleanup.failed.length ≤ 1
  ownToken : ∀ l ∈ s.cleanup.loops, l.cancellationToken = l.queuedBy
  noneOnceStopped : s.cleanup.source = none →
    ∀ l ∈ s.cleanup.loops, l.cancellationToken ∈ s.cleanup.cancelled

theorem Hosted.noneOnceStopped (h : Hosted s) (hnone : s.cleanup.source = none) :
    ∀ l ∈ s.cleanup.loops, l.cancellationToken ∈ s.cleanup.cancelled := by
  intro l hl
  refine (h.tracked.cancelled_or _ (h.token_lt l hl)).resolve_right fun hsome => ?_
  exact absurd (hnone.symm.trans hsome) (by simp)

theorem Hosted.oneTask (h : Hosted s) : OneTask s where
  atMostOne := by
    have htasks := h.tasks_le
    have hcreated := h.created_le
    rw [State.tasks, List.length_append, List.length_map] at htasks
    omega
  ownToken := by
    intro l hl
    have htoken := h.token_lt l hl
    have hqueued : l.queuedBy < s.cleanup.created :=
      h.tracked.lt_created _ (List.mem_append_right _ (List.mem_map_of_mem hl))
    have hcreated := h.created_le
    omega
  noneOnceStopped := h.noneOnceStopped

/-! ### Stopping -/

/-- A step of the loop. -/
def AppAction.isLoop : AppAction → Bool
  | loop => true
  | clearTokens _ => true
  | clearTokensThrows => true
  | _ => false

/-- A call of `ClearTokens`. -/
def AppAction.isClearTokens : AppAction → Bool
  | clearTokens _ => true
  | clearTokensThrows => true
  | _ => false

/-- How many steps a cancelled loop can still take. -/
def LoopPc.stepsLeft : LoopPc → ℕ
  | top => 1
  | delay => 1
  | waiting => 2
  | woken => 1
  | clearing => 2

/-- How often a cancelled loop can still call `ClearTokens`. -/
def LoopPc.clearsLeft : LoopPc → ℕ
  | clearing => 1
  | _ => 0

theorem LoopStep.stepsLeft_lt {c : Prop} (hc : c) {pc : LoopPc} {pc' : Option LoopPc}
    (h : LoopStep interval c pc pc') : ((pc'.map LoopPc.stepsLeft).getD 0) + 1 ≤ pc.stepsLeft := by
  cases h with
  | breakTop _ => exact Nat.le_refl _
  | goOn hlive => exact absurd hc hlive
  | outOfRange _ => exact Nat.le_refl _
  | delayCanceled _ _ => exact Nat.le_refl _
  | noDelay _ hlive _ => exact absurd hc hlive
  | await _ hlive _ => exact absurd hc hlive
  | elapsed _ => exact Nat.le_refl _
  | waitCanceled _ => exact Nat.le_succ _
  | breakWoken _ => exact Nat.le_refl _
  | callClearTokens hlive => exact absurd hc hlive
  | clearTokens outcome => cases outcome <;> exact Nat.le_refl _

/-- A cancelled loop does not come to another call of `ClearTokens`. -/
theorem LoopStep.clearsLeft_eq {c : Prop} (hc : c) {pc : LoopPc} {pc' : Option LoopPc}
    (h : LoopStep interval c pc pc') : (pc'.map LoopPc.clearsLeft).getD 0 = 0 := by
  have hnot := not_clearing_of_cancelled hc h
  cases pc' with
  | none => rfl
  | some pc' =>
    cases pc' with
    | clearing => exact absurd rfl hnot
    | _ => rfl

/-- The same for all loops of a state. -/
def State.sumLoops (f : LoopPc → ℕ) (s : State) : ℕ := (s.loops.map fun l => f l.pc).sum

theorem sumLoops_moveLoop (f : LoopPc → ℕ) {c : State} {pre post : List Loop} {l : Loop}
    (hloops : c.loops = pre ++ l :: post) (pc : Option LoopPc) :
    (c.moveLoop pre post l pc).sumLoops f + f l.pc = c.sumLoops f + (pc.map f).getD 0 := by
  cases pc with
  | none =>
    simp only [State.sumLoops, State.moveLoop, hloops, List.map_append, List.sum_append,
      List.map_cons, List.sum_cons, Option.map_none, Option.toList_none, List.map_nil,
      List.sum_nil, Option.getD_none]
    omega
  | some pc =>
    simp only [State.sumLoops, State.moveLoop, hloops, List.map_append, List.sum_append,
      List.map_cons, List.sum_cons, Option.map_some, Option.toList_some, List.map_nil,
      List.sum_nil, Option.getD_some]
    omega

/-- After `ApplicationStopping`: the budget of a cleanup that has been told to stop. -/
structure Stopping (post : List (Transition App AppAction)) (s : App) : Prop where
  hosted : Hosted s
  started : s.started = true
  source : s.cleanup.source = none
  steps : post.countP (·.label.isLoop) + s.cleanup.sumLoops LoopPc.stepsLeft ≤ 2
  clears : post.countP (·.label.isClearTokens) + s.cleanup.sumLoops LoopPc.clearsLeft ≤ 1

/-- A step of the loop is paid for. -/
theorem Stopping.moveLoop {ts : List (Transition App AppAction)} (h : Stopping ts s)
    {pre post : List Loop} {l : Loop} {pc : Option LoopPc}
    (hloops : s.cleanup.loops = pre ++ l :: post)
    (hstep : LoopStep interval (l.cancellationToken ∈ s.cleanup.cancelled) l.pc pc)
    (hcleanup : s'.cleanup = s.cleanup.moveLoop pre post l pc) (hstarted : s'.started = s.started)
    (hclear : a.isClearTokens = true → l.pc = .clearing) :
    Stopping (ts ++ [⟨s, a, s'⟩]) s' := by
  have hcancelled := h.hosted.noneOnceStopped h.source l (by simp [hloops])
  have hsteps := sumLoops_moveLoop LoopPc.stepsLeft hloops pc
  have hclears := sumLoops_moveLoop LoopPc.clearsLeft hloops pc
  have hlt := hstep.stepsLeft_lt hcancelled
  rw [hstep.clearsLeft_eq hcancelled] at hclears
  refine ⟨h.hosted.moveLoop hloops hstep hcleanup hstarted, hstarted.trans h.started, ?_, ?_, ?_⟩
  · rw [hcleanup]
    exact h.source
  · have hone : ([⟨s, a, s'⟩] : List (Transition App AppAction)).countP (·.label.isLoop) ≤ 1 :=
      List.countP_le_length
    have := h.steps
    rw [List.countP_append, hcleanup]
    omega
  · have hle := h.clears
    rw [List.countP_append, hcleanup, List.countP_singleton]
    by_cases hlabel : a.isClearTokens = true
    · have hpc : l.pc.clearsLeft = 1 := by rw [hclear hlabel, LoopPc.clearsLeft]
      rw [if_pos hlabel]
      omega
    · rw [if_neg hlabel]
      omega

theorem Stopping.step (hl : Configured services lifetime) {ts : List (Transition App AppAction)}
    (h : Stopping ts s) (hs : App.Step interval lifetime s a s') :
    Stopping (ts ++ [⟨s, a, s'⟩]) s' := by
  -- Steps of others spend nothing.
  have hother : a.isLoop = false → a.isClearTokens = false → s'.started = true →
      s'.cleanup.source = none → s'.cleanup.loops = s.cleanup.loops →
      Stopping (ts ++ [⟨s, a, s'⟩]) s' := by
    intro hloop hclear hstarted hsource hloops
    refine ⟨h.hosted.step hl hs, hstarted, hsource, ?_, ?_⟩
    · rw [List.countP_append, List.countP_singleton, if_neg (by simp [hloop]), State.sumLoops,
        hloops]
      exact h.steps
    · rw [List.countP_append, List.countP_singleton, if_neg (by simp [hclear]), State.sumLoops,
        hloops]
      exact h.clears
  cases hs with
  | call op _ => exact hother rfl rfl h.started h.source rfl
  | wait now _ => exact hother rfl rfl h.started h.source rfl
  | applicationStarted hnot => exact absurd h.started (by simp [hnot])
  | applicationStopping _ =>
    have herror : s.cleanup.stop = .error .invalidOperation := by rw [State.stop, h.source]
    have hfire : fire lifetime.applicationStopping s.cleanup = s.cleanup := by
      rw [hl.fire_stopping, attempt, herror]
    exact hother rfl rfl h.started (by rw [hfire, h.source]) (by rw [hfire])
  | runTask task _ =>
    -- The task finds no source and fails.
    refine hother rfl rfl h.started ?_ ?_
    · simp [State.runTask, h.source]
    · simp [State.runTask, h.source]
  | loop hloops _ hstep => exact h.moveLoop hloops hstep rfl rfl (by simp [AppAction.isClearTokens])
  | clearTokens utcNow expired hloops hpc _ =>
    exact h.moveLoop hloops (@loopStep_clearing interval _ _ hpc (.ok expired)) rfl rfl
      fun _ => hpc
  | clearTokensThrows ex hloops hpc =>
    exact h.moveLoop hloops (@loopStep_clearing interval _ _ hpc (.error ex)) rfl rfl
      fun _ => hpc

theorem source_of_stopping (hl : Configured services lifetime)
    (hs : App.Step interval lifetime s .applicationStopping s') :
    s'.cleanup.source = none ∧ s'.started = s.started := by
  cases hs with
  | applicationStopping _ =>
    refine ⟨?_, rfl⟩
    show (fire lifetime.applicationStopping s.cleanup).source = none
    rw [hl.fire_stopping, attempt]
    cases hsource : s.cleanup.source with
    | none => simp [State.stop, hsource]
    | some source => simp [State.stop, hsource]

/-- One loop can owe two steps, one of them a call of `ClearTokens`. -/
theorem Hosted.sumLoops_le (h : Hosted s) {f : LoopPc → ℕ} {n : ℕ} (hf : ∀ pc, f pc ≤ n) :
    s.cleanup.sumLoops f ≤ n := by
  have hone := h.oneTask.atMostOne
  rw [State.sumLoops]
  match hloops : s.cleanup.loops with
  | [] => exact Nat.zero_le _
  | [l] => simpa using hf l.pc
  | l :: l' :: rest =>
    rw [hloops, List.length_cons, List.length_cons] at hone
    omega

/-- **The cleanup over the life of an application.**  There is one task at most, whose
loop holds its own token; and from the moment the running application is told to stop,
the loop takes at most two more steps and calls `ClearTokens` at most once more. -/
theorem app_lifecycle (hl : Configured services lifetime)
    {ts : List (Transition App AppAction)} (hrun : Run (App.Step interval lifetime) .init ts s) :
    OneTask s ∧ ∀ pre t post, ts = pre ++ t :: post → t.label = .applicationStopping →
      t.before.started = true →
      (∀ l ∈ s.cleanup.loops, l.cancellationToken ∈ s.cleanup.cancelled) ∧
      post.countP (·.label.isLoop) ≤ 2 ∧ post.countP (·.label.isClearTokens) ≤ 1 := by
  refine ⟨(hosted_of_run hl hrun).oneTask, ?_⟩
  rintro pre ⟨s₀, a, s₁⟩ post rfl ha hstarted
  obtain rfl : a = .applicationStopping := ha
  obtain ⟨hpre, hstep, hpost⟩ := hrun.split
  have hhosted := hosted_of_run hl hpre
  -- Stopped, and nothing is spent yet.
  have hstopping : Stopping [] s₁ := by
    have hhosted' := hhosted.step hl hstep
    obtain ⟨hsource, hsame⟩ := source_of_stopping hl hstep
    have hstarted' : s₁.started = true := hsame.trans hstarted
    refine ⟨hhosted', hstarted', hsource, ?_, ?_⟩
    · rw [List.countP_nil, Nat.zero_add]
      exact hhosted'.sumLoops_le fun pc => by cases pc <;> decide
    · rw [List.countP_nil, Nat.zero_add]
      exact hhosted'.sumLoops_le fun pc => by cases pc <;> decide
  have hend : Stopping post s := by
    clear hrun
    induction hpost with
    | nil => exact hstopping
    | concat _ hs ih => exact ih.step hl hs
  refine ⟨hend.hosted.noneOnceStopped hend.source, ?_, ?_⟩
  · exact le_trans (Nat.le_add_right _ _) hend.steps
  · exact le_trans (Nat.le_add_right _ _) hend.clears

/-- The lifetime of an application that registers the callbacks once. -/
def hostLifetime : Lifetime :=
  { applicationStarted := [State.start], applicationStopping := [State.stop] }

theorem configured_hostLifetime : Configured (addOperationalStore ⟨none⟩ none) hostLifetime :=
  .once rfl

theorem app_lifecycle_stopped :
    ∃ ts s, Run (App.Step .oneMinute hostLifetime) .init ts s ∧ s.cleanup.loops.length = 1 ∧
      OneTask s ∧ ∀ l ∈ s.cleanup.loops, l.cancellationToken ∈ s.cleanup.cancelled := by
  have hrun : Run (App.Step .oneMinute hostLifetime) .init _ _ :=
    ((Run.nil.concat (.applicationStarted rfl)).concat (.runTask 0 List.mem_cons_self)).concat
      (.applicationStopping rfl)
  have hlife := app_lifecycle configured_hostLifetime hrun
  exact ⟨_, _, hrun, rfl, hlife.1, (hlife.2 _ ⟨_, _, _⟩ [] rfl rfl rfl).1⟩

/-! ### The grants -/

/-- The operation on the table. -/
def AppAction.grantOp : AppAction → Option GrantOp
  | call op => some op
  | clearTokens utcNow => some (.clearTokens utcNow)
  | _ => none

/-- The call of the grant store. -/
def AppAction.grantCall : AppAction → Option GrantOp
  | call op => some op
  | _ => none

/-- What happened to the table. -/
def history (ts : List (Transition App AppAction)) : List GrantOp :=
  ts.filterMap (·.label.grantOp)

/-- What its callers did. -/
def calls (ts : List (Transition App AppAction)) : List GrantOp :=
  ts.filterMap (·.label.grantCall)

/-- What is in the table after a call was there before, or the call has stored it. -/
theorem mem_rows_run {op : GrantOp} {db : GrantDb} {x : PersistedGrant}
    (h : x ∈ (op.run db).rows) :
    x ∈ db.rows ∨ ∃ token, op = .store token ∧ x = { token with clientId := x.clientId } := by
  have hget : (op.run db).get x.key = some x := KeyedTable.get_eq_some_iff _ |>.mpr ⟨h, rfl⟩
  rw [op.get_run] at hget
  cases hop : op.stores x.key with
  | none =>
    rw [cell_of_not_stores hop, Option.filter_eq_some_iff] at hget
    exact .inl (db.get_eq_some_iff.mp hget.1).1
  | some token =>
    obtain ⟨rfl, hkey⟩ := stores_eq_some_iff.mp hop
    rw [cell_of_stores hop, Option.some.injEq] at hget
    refine .inr ⟨token, rfl, ?_⟩
    cases hrow : db.get x.key with
    | none =>
      rw [hrow] at hget
      rw [← hget]
      rfl
    | some row =>
      -- The update half keeps the key of the row, which is that of the grant.
      have hrowKey : row.key = token.key := by
        rw [(db.get_eq_some_iff.mp hrow).2, hkey]
      rw [hrow] at hget
      rw [← hget]
      show updateColumns token row = { token with clientId := (updateColumns token row).clientId }
      rw [updateColumns_eq, hrowKey]

/-- Another caller has stored the grant since. -/
def StoredIn (post : List (Transition App AppAction)) (x : PersistedGrant) : Prop :=
  ∃ t ∈ post, ∃ token, t.label = .call (.store token) ∧ x = { token with clientId := x.clientId }

theorem StoredIn.append {post : List (Transition App AppAction)} {x : PersistedGrant}
    (h : StoredIn post x) (ts : List (Transition App AppAction)) : StoredIn (post ++ ts) x := by
  obtain ⟨t, ht, token, hlabel, hx⟩ := h
  exact ⟨t, List.mem_append_left _ ht, token, hlabel, hx⟩

/-- A step adds to the table only what is stored in it. -/
theorem mem_rows_step (hs : App.Step interval lifetime s a s') {x : PersistedGrant}
    (hx : x ∈ s'.grants.rows) : x ∈ s.grants.rows ∨ StoredIn [⟨s, a, s'⟩] x := by
  cases hs with
  | call op _ =>
    rcases mem_rows_run hx with hold | ⟨token, rfl, heq⟩
    · exact .inl hold
    · exact .inr ⟨_, List.mem_singleton.mpr rfl, token, rfl, heq⟩
  | clearTokens utcNow expired _ _ _ => exact .inl (List.mem_of_mem_filter hx)
  | _ => exact .inl hx

/-- **Never early, none skipped.**  `ClearTokens` deletes exactly the rows that have
expired by a time which is not in the future, and what is in the table at any later
moment had not expired by then, or was stored since. -/
theorem app_notStale {pre post : List (Transition App AppAction)} {t : Transition App AppAction}
    {utcNow : DateTime} (hrun : Run (App.Step interval lifetime) .init (pre ++ t :: post) s)
    (ht : t.label = .clearTokens utcNow) :
    utcNow ≤ t.before.now ∧
      (∀ x, x ∈ t.after.grants.rows ↔ x ∈ t.before.grants.rows ∧ x.live utcNow = true) ∧
      ∀ x ∈ s.grants.rows, x.live utcNow = true ∨ StoredIn post x := by
  obtain ⟨s₀, a, s₁⟩ := t
  obtain rfl : a = .clearTokens utcNow := ht
  obtain ⟨-, hstep, hpost⟩ := hrun.split
  have hexact : utcNow ≤ s₀.now ∧
      ∀ x, x ∈ s₁.grants.rows ↔ x ∈ s₀.grants.rows ∧ x.live utcNow = true := by
    change App.Step interval lifetime s₀ (.clearTokens utcNow) s₁ at hstep
    cases hstep with
    | clearTokens utcNow expired _ _ hnow =>
      refine ⟨hnow, fun x => ?_⟩
      show x ∈ s₀.grants.rows.filter (fun x => !(GrantOp.clearTokens utcNow).deletes x) ↔ _
      rw [List.mem_filter, deletes_clearTokens, Bool.not_not]
  refine ⟨hexact.1, hexact.2, ?_⟩
  clear hrun hstep
  induction hpost with
  | nil => exact fun x hx => .inl ((hexact.2 x).mp hx).2
  | concat _ hs ih =>
    intro x hx
    rcases mem_rows_step hs hx with hold | hnew
    · exact (ih x hold).imp_right fun hstored => hstored.append _
    · obtain ⟨t, ht, hstored⟩ := hnew
      exact .inr ⟨t, List.mem_append_right _ ht, hstored⟩

/-- A grant that expires at the time 5. -/
def shortGrant : PersistedGrant := { plainGrant "app" with expiration := some 5 }

/-- An application whose loop has come to `pc`. -/
def appAt (pc : LoopPc) (grants : GrantDb) (now : DateTime) : App :=
  { cleanup := { State.init with source := some 0, created := 1, loops := [⟨0, 0, pc⟩] }
    started := true, stopping := false, grants := grants, now := now }

theorem step_appAt {pc pc' : LoopPc} (hpc : pc ≠ .clearing)
    (h : LoopStep .oneMinute (0 ∈ ([] : List ℕ)) pc (some pc')) (db : GrantDb) (now : DateTime) :
    App.Step .oneMinute hostLifetime (appAt pc db now) .loop (appAt pc' db now) :=
  @App.Step.loop _ _ (appAt pc db now) [] [] ⟨0, 0, pc⟩ (some pc') rfl hpc h

/-- The loop comes round once, at the time 9. -/
theorem exists_clearedRun :
    ∃ pre t s, Run (App.Step .oneMinute hostLifetime) .init (pre ++ [t]) s ∧
      t.label = .clearTokens 9 ∧ t.before.grants.rows = [shortGrant] ∧ s.grants.rows = [] ∧
      history (pre ++ [t]) = [.store shortGrant, .clearTokens 9] := by
  have hinRange : TimeSpan.oneMinute.InRange := by simp [TimeSpan.InRange, TimeSpan.oneMinute]
  have hlive : 0 ∉ ([] : List ℕ) := List.not_mem_nil
  have hstarted : Run (App.Step .oneMinute hostLifetime) .init _ (appAt .top .empty 0) :=
    (Run.nil.concat (.applicationStarted rfl)).concat (.runTask 0 List.mem_cons_self)
  have hstored := hstarted.concat (.call (.store shortGrant) trivial)
  have hdelay := hstored.concat (step_appAt (by decide) (.goOn hlive) _ _)
  have hwaiting := hdelay.concat
    (step_appAt (by decide) (.await hinRange hlive (by decide)) _ _)
  have hwoken := (hwaiting.concat (.wait 9 (by decide))).concat
    (step_appAt (by decide) (.elapsed (by decide)) _ _)
  have hclearing := hwoken.concat (step_appAt (by decide) (.callClearTokens hlive) _ _)
  have hcleared := hclearing.concat (@App.Step.clearTokens _ _ _ [] [] _ 9 1 rfl rfl (le_refl _))
  exact ⟨_, _, _, hcleared, rfl, rfl, rfl, rfl⟩

theorem app_notStale_cleared :
    ∃ pre t s, Run (App.Step .oneMinute hostLifetime) .init (pre ++ [t]) s ∧
      t.before.grants.rows = [shortGrant] ∧
      ∀ x ∈ s.grants.rows, x.live 9 = true ∨ StoredIn [] x := by
  obtain ⟨pre, t, s, hrun, ht, hrows, -, -⟩ := exists_clearedRun
  exact ⟨pre, t, s, hrun, hrows, (app_notStale hrun ht).2.2⟩

end IdentityLinq.TokenCleanup
