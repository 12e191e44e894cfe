/-
Runs of a labelled transition system.

A run is kept as the list of its transitions, so that a statement about a run
can speak of every step it made: of the state before, of the label, and of the
state after.

* `Run.invariant` — what every step preserves holds at the end of a run;
* `Run.split`, `Run.exists_break`, `Run.exists_start` — the parts of a run around one of
  its steps, the step at which something stops to hold, and the last one at which
  something starts to;
* `Run.forall_after_iff` — where a property breaks exactly at the steps that
  miss a condition, it holds all along a run iff every step meets the condition.
-/
import Mathlib.Logic.Basic

/-- One step of a run. -/
structure Transition (σ α : Type) where
  before : σ
  label : α
  after : σ

/-- `Run step s₀ ts s`: from `s₀` the transitions `ts`, in order, lead to `s`. -/
inductive Run {σ α : Type} (step : σ → α → σ → Prop) (s₀ : σ) :
    List (Transition σ α) → σ → Prop where
  | nil : Run step s₀ [] s₀
  | concat {ts : List (Transition σ α)} {s s' : σ} {a : α} :
      Run step s₀ ts s → step s a s' → Run step s₀ (ts ++ [⟨s, a, s'⟩]) s'

namespace Run

variable {σ α : Type} {step : σ → α → σ → Prop} {s₀ s : σ} {ts : List (Transition σ α)}

/-- The invariant rule. -/
theorem invariant {J : σ → Prop} (h₀ : J s₀) (hstep : ∀ s a s', J s → step s a s' → J s')
    (h : Run step s₀ ts s) : J s := by
  induction h with
  | nil => exact h₀
  | concat _ hs ih => exact hstep _ _ _ ih hs

/-- An invariant holds before every step of a run. -/
theorem forall_before {J : σ → Prop} (h₀ : J s₀) (hstep : ∀ s a s', J s → step s a s' → J s')
    (h : Run step s₀ ts s) : ∀ t ∈ ts, J t.before := by
  induction h with
  | nil => exact fun t ht => absurd ht List.not_mem_nil
  | concat hrun _ ih =>
    rw [List.forall_mem_append, List.forall_mem_singleton]
    exact ⟨ih, hrun.invariant h₀ hstep⟩

/-- And after every step. -/
theorem forall_after {J : σ → Prop} (h₀ : J s₀) (hstep : ∀ s a s', J s → step s a s' → J s')
    (h : Run step s₀ ts s) : ∀ t ∈ ts, J t.after := by
  induction h with
  | nil => exact fun t ht => absurd ht List.not_mem_nil
  | concat hrun hs ih =>
    rw [List.forall_mem_append, List.forall_mem_singleton]
    exact ⟨ih, hstep _ _ _ (hrun.invariant h₀ hstep) hs⟩

/-! ### Parts of a run -/

/-- Up to any of its steps and from there on a run is a run. -/
theorem split {pre post : List (Transition σ α)} {t : Transition σ α}
    (h : Run step s₀ (pre ++ t :: post) s) :
    Run step s₀ pre t.before ∧ step t.before t.label t.after ∧ Run step t.after post s := by
  generalize hts : pre ++ t :: post = ts at h
  induction h generalizing post with
  | nil => exact absurd hts (by simp)
  | @concat ts s' s'' a hrun hs ih =>
    rcases List.eq_nil_or_concat post with rfl | ⟨post', t', rfl⟩
    · obtain ⟨rfl, hlast⟩ := List.append_inj' hts rfl
      obtain rfl := List.cons.inj hlast |>.1
      exact ⟨hrun, hs, .nil⟩
    · -- The last step is one of `post`, and what precedes it is a run.
      rw [List.concat_eq_append] at hts ⊢
      rw [← List.cons_append, ← List.append_assoc] at hts
      obtain ⟨hinit, hlast⟩ := List.append_inj' hts rfl
      obtain rfl := List.cons.inj hlast |>.1
      obtain ⟨hpre, ht, hpost⟩ := ih hinit
      exact ⟨hpre, ht, hpost.concat hs⟩

/-- What holds at the start of a run and not at its end, some step of it breaks. -/
theorem exists_break {J : σ → Prop} (h₀ : J s₀) (h : Run step s₀ ts s) (hs : ¬ J s) :
    ∃ pre t post, ts = pre ++ t :: post ∧ J t.before ∧ ¬ J t.after := by
  induction h with
  | nil => exact absurd h₀ hs
  | @concat ts s' s'' a _ _ ih =>
    by_cases hJ : J s'
    · exact ⟨ts, ⟨s', a, s''⟩, [], rfl, hJ, hs⟩
    · obtain ⟨pre, t, post, rfl, hbefore, hafter⟩ := ih hJ
      exact ⟨pre, t, post ++ [⟨s', a, s''⟩], by simp, hbefore, hafter⟩

/-- What holds at the end of a run and not at its start, some step of it starts, and it
holds from there on. -/
theorem exists_start {J : σ → Prop} (h₀ : ¬ J s₀) (h : Run step s₀ ts s) (hs : J s) :
    ∃ pre t post, ts = pre ++ t :: post ∧ ¬ J t.before ∧ J t.after ∧
      ∀ t' ∈ post, J t'.after := by
  induction h with
  | nil => exact absurd hs h₀
  | @concat ts s' s'' a _ _ ih =>
    by_cases hJ : J s'
    · obtain ⟨pre, t, post, rfl, hbefore, hafter, hpost⟩ := ih hJ
      refine ⟨pre, t, post ++ [⟨s', a, s''⟩], by simp, hbefore, hafter, ?_⟩
      rw [List.forall_mem_append, List.forall_mem_singleton]
      exact ⟨hpost, hs⟩
    · exact ⟨ts, ⟨s', a, s''⟩, [], rfl, hJ, hs, fun t ht => absurd ht List.not_mem_nil⟩

/-! ### Conditions on the steps -/

/-- The invariant rule for runs whose steps all meet a condition, beside an
invariant `J` of all runs. -/
theorem invariant_of_forall {J I : σ → Prop} {C : σ → α → Prop} (hJ₀ : J s₀)
    (hJ : ∀ s a s', J s → step s a s' → J s') (hI₀ : I s₀)
    (hI : ∀ s a s', J s → I s → step s a s' → C s a → I s')
    (h : Run step s₀ ts s) (hC : ∀ t ∈ ts, C t.before t.label) : I s := by
  induction h with
  | nil => exact hI₀
  | concat hrun hs ih =>
    have hprev := ih fun t ht => hC t (List.mem_append_left _ ht)
    have hlast := hC _ (List.mem_append_right _ List.mem_cons_self)
    exact hI _ _ _ (hrun.invariant hJ₀ hJ) hprev hs hlast

/-- **Where a property breaks exactly at the steps that miss a condition.** -/
theorem forall_after_iff {J I : σ → Prop} {C : σ → α → Prop} (hJ₀ : J s₀)
    (hJ : ∀ s a s', J s → step s a s' → J s') (hI₀ : I s₀)
    (hI : ∀ s a s', J s → I s → step s a s' → C s a → I s')
    (hbreak : ∀ s a s', J s → step s a s' → I s' → C s a) (h : Run step s₀ ts s) :
    (∀ t ∈ ts, I t.after) ↔ ∀ t ∈ ts, C t.before t.label := by
  induction h with
  | nil => simp
  | concat hrun hs ih =>
    have hinv := hrun.invariant hJ₀ hJ
    simp only [List.forall_mem_append, List.forall_mem_singleton, ih]
    constructor
    · rintro ⟨hbefore, hlast⟩
      exact ⟨hbefore, hbreak _ _ _ hinv hs hlast⟩
    · rintro ⟨hbefore, hlast⟩
      have hprev := invariant_of_forall hJ₀ hJ hI₀ hI hrun hbefore
      exact ⟨hbefore, hI _ _ _ hinv hprev hs hlast⟩

end Run
