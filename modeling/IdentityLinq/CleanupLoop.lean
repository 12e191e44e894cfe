/-
One loop of `TokenCleanup` beside its cancellation token.

The token may be cancelled before any step of the loop.  Whatever `ClearTokens`
does, the loop goes on; it is left at the two looks at the token and in the
`catch` around the delay, which does not ask what was thrown.

* `atMostOnceMore_of_run` — a cancelled loop runs `ClearTokens` at most once more;
* `onlyWhenTold_iff` — and the loop is left only after a cancellation exactly if
  `Task.Delay` accepts the interval.
-/
import IdentityLinq.TokenCleanup

namespace IdentityLinq.TokenCleanup

/-- A loop, or `none` once it was left, and its token. -/
structure LoopState where
  pc : Option LoopPc
  isCancellationRequested : Bool
deriving DecidableEq, Repr

/-- The loop starts. -/
def LoopState.init : LoopState := { pc := some .top, isCancellationRequested := false }

inductive LoopAction where
  /-- somebody cancels the token -/
  | cancel
  | loop
deriving DecidableEq, Repr

/-- The steps of the loop and of whoever holds its source. -/
inductive LoopState.Step (interval : TimeSpan) : LoopState → LoopAction → LoopState → Prop where
  | cancel (s : LoopState) : Step interval s .cancel { s with isCancellationRequested := true }
  | loop {s : LoopState} {pc : LoopPc} {pc' : Option LoopPc} : s.pc = some pc →
      LoopStep interval (s.isCancellationRequested = true) pc pc' →
      Step interval s .loop { s with pc := pc' }

/-- The step runs `ClearTokens` although the token is cancelled. -/
def ClearsCancelled (t : Transition LoopState LoopAction) : Prop :=
  t.label = .loop ∧ t.before.pc = some .clearing ∧ t.before.isCancellationRequested = true

instance (t : Transition LoopState LoopAction) : Decidable (ClearsCancelled t) :=
  inferInstanceAs (Decidable (_ ∧ _ ∧ _))

/-- If the loop was left, its token is cancelled. -/
def LoopState.LeftWhenTold (s : LoopState) : Prop :=
  s.pc = none → s.isCancellationRequested = true

/-- What is promised of a run of the loop. -/
structure OnlyWhenTold (ts : List (Transition LoopState LoopAction)) : Prop where
  leaves : ∀ t ∈ ts, t.after.LeftWhenTold
  atMostOnceMore : ts.countP (fun t => decide (ClearsCancelled t)) ≤ 1

variable {interval : TimeSpan} {s s' : LoopState} {a : LoopAction}
  {ts : List (Transition LoopState LoopAction)}

/-! ### After the cancellation -/

/-- The count of clearings of a cancelled loop, with the one it may be about to
run. -/
structure Counted (ts : List (Transition LoopState LoopAction)) (s : LoopState) : Prop where
  none_before : s.isCancellationRequested = false →
    ts.countP (fun t => decide (ClearsCancelled t)) = 0
  le_one : ts.countP (fun t => decide (ClearsCancelled t))
    + (if s.pc = some .clearing then 1 else 0) ≤ 1

/-- A cancelled loop does not get to `ClearTokens` any more. -/
theorem not_clearing_of_cancelled {c : Prop} (hc : c) {pc : LoopPc} {pc' : Option LoopPc}
    (h : LoopStep interval c pc pc') : pc' ≠ some .clearing := by
  intro hpc
  cases h with
  | callClearTokens hlive => exact hlive hc
  | clearTokens outcome => simp at hpc
  | _ => simp at hpc

theorem Counted.step (h : Counted ts s) (hs : LoopState.Step interval s a s') :
    Counted (ts ++ [⟨s, a, s'⟩]) s' := by
  cases hs with
  | cancel =>
    refine ⟨fun hfalse => absurd hfalse (by simp), ?_⟩
    rw [List.countP_append, List.countP_singleton, if_neg (by simp [ClearsCancelled])]
    exact h.le_one
  | @loop pc pc' hpc hstep =>
    by_cases hc : s.isCancellationRequested = true
    · refine ⟨fun hfalse => absurd hfalse (by simp [hc]), ?_⟩
      have hgone : pc' ≠ some .clearing := not_clearing_of_cancelled hc hstep
      have hle := h.le_one
      rw [List.countP_append, List.countP_singleton, if_neg hgone]
      by_cases hclearing : s.pc = some .clearing
      · -- This is the one that was still to come.
        rw [if_pos hclearing] at hle
        split <;> omega
      · rw [if_neg (by simp [ClearsCancelled, hclearing])]
        omega
    · have hzero := h.none_before (by simpa using hc)
      have hnone : (ts ++ [(⟨s, .loop, { s with pc := pc' }⟩ :
          Transition LoopState LoopAction)]).countP (fun t => decide (ClearsCancelled t)) = 0 := by
        rw [List.countP_append, hzero, List.countP_singleton,
          if_neg (by simp [ClearsCancelled, hc])]
      refine ⟨fun _ => hnone, ?_⟩
      rw [hnone]
      split <;> omega

/-- **A cancelled loop runs `ClearTokens` at most once more**, whatever the
interval is. -/
theorem atMostOnceMore_of_run (h : Run (LoopState.Step interval) .init ts s) :
    ts.countP (fun t => decide (ClearsCancelled t)) ≤ 1 := by
  have hcounted : Counted ts s := by
    induction h with
    | nil => exact ⟨fun _ => rfl, by simp [LoopState.init]⟩
    | concat _ hs ih => exact ih.step hs
  exact le_trans (Nat.le_add_right _ _) hcounted.le_one

/-! ### Leaving the loop -/

/-- Where `Task.Delay` accepts the interval, every exit is one of a cancelled loop. -/
theorem LoopStep.cancelled_of_left {c : Prop} {pc : LoopPc} (hinterval : interval.InRange)
    (h : LoopStep interval c pc none) : c := by
  generalize hpc : (none : Option LoopPc) = pc' at h
  cases h with
  | breakTop hc => exact hc
  | outOfRange hout => exact absurd hinterval hout
  | delayCanceled _ hc => exact hc
  | waitCanceled hc => exact hc
  | breakWoken hc => exact hc
  | clearTokens outcome => simp at hpc
  | _ => simp at hpc

theorem leftWhenTold_step (hinterval : interval.InRange)
    (hs : LoopState.Step interval s a s') : s'.LeftWhenTold := by
  intro hnone
  cases hs with
  | cancel => rfl
  | @loop pc pc' _ hstep =>
    obtain rfl : pc' = none := hnone
    exact hstep.cancelled_of_left hinterval

/-- An interval that `Task.Delay` rejects ends the loop at its first delay. -/
theorem run_outOfRange (hinterval : ¬ interval.InRange) :
    Run (LoopState.Step interval) .init
      [⟨.init, .loop, ⟨some .delay, false⟩⟩, ⟨⟨some .delay, false⟩, .loop, ⟨none, false⟩⟩]
      ⟨none, false⟩ := by
  have htop : LoopState.Step interval .init .loop ⟨some .delay, false⟩ :=
    .loop rfl (.goOn (by simp [LoopState.init]))
  have hdelay : LoopState.Step interval ⟨some .delay, false⟩ .loop ⟨none, false⟩ :=
    .loop rfl (.outOfRange hinterval)
  exact (Run.nil.concat htop).concat hdelay

/-- **When the cleanup loop dies only when told to**, in every run and whatever
`ClearTokens` throws: exactly if `Task.Delay` accepts the interval. -/
theorem onlyWhenTold_iff (interval : TimeSpan) :
    (∀ ts s, Run (LoopState.Step interval) .init ts s → OnlyWhenTold ts) ↔ interval.InRange := by
  constructor
  · intro h
    by_contra hout
    have htold := (h _ _ (run_outOfRange hout)).leaves ⟨_, _, _⟩
      (List.mem_cons_of_mem _ List.mem_cons_self) rfl
    exact absurd htold (by simp)
  · intro hinterval ts s hrun
    have hinit : LoopState.init.LeftWhenTold := fun h => absurd h (by simp [LoopState.init])
    have hleft := hrun.forall_after hinit fun _ _ _ _ hs => leftWhenTold_step hinterval hs
    exact ⟨hleft, atMostOnceMore_of_run hrun⟩

/-- An interval of 30 days, in ticks. -/
def TimeSpan.thirtyDays : TimeSpan := ⟨30 * 24 * 60 * 60 * 10000000⟩

/-- A loop that is to clear expired grants once a month stops at once, and nobody has
told it to. -/
theorem not_onlyWhenTold_thirtyDays :
    ∃ ts s, Run (LoopState.Step .thirtyDays) .init ts s ∧
      s = { pc := none, isCancellationRequested := false } ∧
      (∀ t ∈ ts, t.label ≠ .cancel) ∧ ¬ OnlyWhenTold ts := by
  have hout : ¬ TimeSpan.thirtyDays.InRange := by
    simp [TimeSpan.InRange, TimeSpan.thirtyDays]
  refine ⟨_, _, run_outOfRange hout, rfl, by simp, fun htold => ?_⟩
  have hleft := htold.leaves ⟨_, _, _⟩ (List.mem_cons_of_mem _ List.mem_cons_self) rfl
  exact absurd hleft (by simp)

end IdentityLinq.TokenCleanup
