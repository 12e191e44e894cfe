/-
Programs of atomic statements against a shared store.

A `Program S ε α` issues statements one after another.  A statement is a
function `S → β × S`: the store executes it as a whole and answers with a
`β`, and the rest of the program may depend on that answer.  Between two
statements anything else may happen to the store, which is why three
readings of one program are kept apart:

* `run` — the program alone, every statement accepted;
* `Ends` — the program alone, where the store may also reject any statement
  (with an error, and without effect), and how many statements it issued;
* `Interleave` — two programs that take turns statement by statement.

`Passes stores n p` says that `p` takes the store from `stores n` on through the next of
them, one a statement.  A reader beside it is answered by these stores, and never by
one that is earlier than the one before (`Interleave.mayEndBetween_final`).
-/
import Mathlib.Data.Nat.Notation
import Mathlib.Logic.Basic

/-- Programs over stores `S` that may fail with an `ε` or return an `α`. -/
inductive Program (S ε : Type) (α : Type) : Type 1 where
  | ret (a : α)
  | raise (e : ε)
  | exec {β : Type} (f : S → β × S) (k : β → Program S ε α)

namespace Program

variable {S ε α β γ : Type}

/-- Run `p`, then go on with `q` on its result. -/
protected def bind : Program S ε α → (α → Program S ε β) → Program S ε β
  | ret a, q => q a
  | raise e, _ => raise e
  | exec f k, q => exec f fun b => (k b).bind q

instance : Monad (Program S ε) where
  pure := ret
  bind := Program.bind

@[simp] theorem pure_eq (a : α) : (pure a : Program S ε α) = ret a := rfl

@[simp] theorem ret_bind (a : α) (q : α → Program S ε β) : (ret a >>= q) = q a := rfl

@[simp] theorem raise_bind (e : ε) (q : α → Program S ε β) :
    ((raise e : Program S ε α) >>= q) = raise e := rfl

@[simp] theorem exec_bind (f : S → γ × S) (k : γ → Program S ε α) (q : α → Program S ε β) :
    (exec f k >>= q) = exec f fun c => k c >>= q := rfl

theorem bind_ret (p : Program S ε α) : (p >>= ret) = p := by
  induction p with
  | ret a => rfl
  | raise e => rfl
  | exec f k ih => exact congrArg (exec f) (funext ih)

theorem bind_assoc (p : Program S ε α) (q : α → Program S ε β) (r : β → Program S ε γ) :
    (p >>= q >>= r) = p >>= fun a => q a >>= r := by
  induction p with
  | ret a => rfl
  | raise e => rfl
  | exec f k ih => exact congrArg (exec f) (funext ih)

instance : LawfulMonad (Program S ε) :=
  LawfulMonad.mk' (Program S ε) bind_ret (fun _ _ => rfl) bind_assoc

/-- The statement that reads `f` off the store. -/
def query (f : S → β) : Program S ε β := exec (fun s => (f s, s)) ret

/-- The statement that changes the store by `f`. -/
def update (f : S → S) : Program S ε Unit := exec (fun s => ((), f s)) ret

/-- `try` and `catch`. -/
protected def tryCatch : Program S ε α → (ε → Program S ε α) → Program S ε α
  | ret a, _ => ret a
  | raise e, handler => handler e
  | exec f k, handler => exec f fun b => (k b).tryCatch handler

/-! ### The program alone -/

/-- Outcome and final store of the program, every statement accepted. -/
def run : Program S ε α → S → Except ε α × S
  | ret a, s => (.ok a, s)
  | raise e, s => (.error e, s)
  | exec f k, s => (k (f s).1).run (f s).2

@[simp] theorem run_ret (a : α) (s : S) : (ret a : Program S ε α).run s = (.ok a, s) := rfl

theorem run_bind (p : Program S ε α) (q : α → Program S ε β) (s : S) :
    (p >>= q).run s = match p.run s with
      | (.ok a, s') => (q a).run s'
      | (.error e, s') => (.error e, s') := by
  induction p generalizing s with
  | ret a => rfl
  | raise e => rfl
  | exec f k ih => exact ih _ _

theorem run_tryCatch (p : Program S ε α) (handler : ε → Program S ε α) (s : S) :
    (p.tryCatch handler).run s = match p.run s with
      | (.ok a, s') => (.ok a, s')
      | (.error e, s') => (handler e).run s' := by
  induction p generalizing s with
  | ret a => rfl
  | raise e => rfl
  | exec f k ih => exact ih _ _

@[simp] theorem run_query_bind (f : S → γ) (q : γ → Program S ε β) (s : S) :
    (query f >>= q).run s = (q (f s)).run s := rfl

/-- Run from `s`, every statement accepted, the program returns. -/
def Returns (p : Program S ε α) (s : S) : Prop := ∃ a, (p.run s).1 = .ok a

@[simp] theorem returns_ret (a : α) (s : S) : (ret a : Program S ε α).Returns s := ⟨a, rfl⟩

@[simp] theorem not_returns_raise (e : ε) (s : S) : ¬ (raise e : Program S ε α).Returns s :=
  fun ⟨_, h⟩ => nomatch h

@[simp] theorem returns_exec (f : S → γ × S) (k : γ → Program S ε α) (s : S) :
    (exec f k).Returns s ↔ (k (f s).1).Returns (f s).2 := Iff.rfl

/-- If the program returns, it returns an `a` with `Q a`, whatever its statements are
answered. -/
def Yields (Q : α → Prop) : Program S ε α → Prop
  | ret a => Q a
  | raise _ => True
  | exec _ k => ∀ b, (k b).Yields Q

/-- What comes last decides. -/
theorem Yields.bind {Q : β → Prop} (p : Program S ε α) {q : α → Program S ε β}
    (hq : ∀ a, (q a).Yields Q) : (p >>= q).Yields Q := by
  induction p with
  | ret a => exact hq a
  | raise e => exact trivial
  | exec f k ih => exact ih

/-- Sequencing: the second program starts with what the first one yields. -/
theorem Yields.andThen {Q : α → Prop} {R : β → Prop} {p : Program S ε α} (h : p.Yields Q)
    {q : α → Program S ε β} (hq : ∀ a, Q a → (q a).Yields R) : (p >>= q).Yields R := by
  induction p with
  | ret a => exact hq a h
  | raise e => exact trivial
  | exec f k ih => exact fun b => ih b (h b)

theorem Yields.of_run {Q : α → Prop} {p : Program S ε α} (h : p.Yields Q) {s : S} {a : α}
    (hrun : (p.run s).1 = .ok a) : Q a := by
  induction p generalizing s with
  | ret b =>
    obtain rfl : b = a := Except.ok.inj hrun
    exact h
  | raise e => exact absurd hrun (by simp [run])
  | exec f k ih => exact ih _ (h _) hrun

/-! ### Rejected statements -/

/-- `Ends p s n r s'`: started on `s`, the program ends with outcome `r` on the
store `s'`, after `n` statements were accepted.  The store may reject any
statement; a rejected statement has no effect and its error ends the program, which is
to catch nothing. -/
inductive Ends : Program S ε α → S → ℕ → Except ε α → S → Prop where
  | ret (a : α) (s : S) : Ends (ret a) s 0 (.ok a) s
  | raise (e : ε) (s : S) : Ends (raise e) s 0 (.error e) s
  | exec {δ : Type} {f : S → δ × S} {k : δ → Program S ε α} {s s' : S} {n : ℕ}
      {r : Except ε α} : Ends (k (f s).1) (f s).2 n r s' → Ends (exec f k) s (n + 1) r s'
  | rejected {δ : Type} (f : S → δ × S) (k : δ → Program S ε α) (s : S) (e : ε) :
      Ends (exec f k) s 0 (.error e) s

/-- Running without a rejection is one of the ways to end. -/
theorem ends_run (p : Program S ε α) (s : S) : ∃ n, Ends p s n (p.run s).1 (p.run s).2 := by
  induction p generalizing s with
  | ret a => exact ⟨0, .ret a s⟩
  | raise e => exact ⟨0, .raise e s⟩
  | exec f k ih =>
    obtain ⟨n, hn⟩ := ih (f s).1 (f s).2
    exact ⟨n + 1, .exec hn⟩

/-! ### Two programs taking turns -/

/-- The program takes the store from `stores n` to `stores (n + 1)` and so on, one a
statement. -/
def Passes (stores : ℕ → S) : ℕ → Program S ε α → Prop
  | _, ret _ => True
  | _, raise _ => True
  | n, exec f k =>
    (f (stores n)).2 = stores (n + 1) ∧ Passes stores (n + 1) (k (f (stores n)).1)

/-- The program issues its next statement. -/
inductive Step : Program S ε α → S → Program S ε α → S → Prop where
  | exec {δ : Type} (f : S → δ × S) (k : δ → Program S ε α) (s : S) :
      Step (exec f k) s (k (f s).1) (f s).2

/-- `Interleave p q s p' q' s'`: from the store `s` the two programs issued
some of their statements, in some order, and `p'` and `q'` are what is left
to do on `s'`. -/
inductive Interleave (p : Program S ε α) (q : Program S ε β) (s : S) :
    Program S ε α → Program S ε β → S → Prop where
  | refl : Interleave p q s p q s
  | left {p' p'' : Program S ε α} {q' : Program S ε β} {s' s'' : S} :
      Interleave p q s p' q' s' → Step p' s' p'' s'' → Interleave p q s p'' q' s''
  | right {p' : Program S ε α} {q' q'' : Program S ε β} {s' s'' : S} :
      Interleave p q s p' q' s' → Step q' s' q'' s'' → Interleave p q s p' q'' s''

/-- The program only reads. -/
def ReadOnly : Program S ε α → Prop
  | ret _ => True
  | raise _ => True
  | exec f k => (∀ s, (f s).2 = s) ∧ ∀ b, (k b).ReadOnly

theorem ReadOnly.query (f : S → β) : (query f : Program S ε β).ReadOnly :=
  ⟨fun _ => rfl, fun _ => trivial⟩

theorem ReadOnly.bind {p : Program S ε α} {q : α → Program S ε β} (hp : p.ReadOnly)
    (hq : ∀ a, (q a).ReadOnly) : (p >>= q).ReadOnly := by
  induction p with
  | ret a => exact hq a
  | raise e => trivial
  | exec f k ih => exact ⟨hp.1, fun b => ih b (hp.2 b)⟩

theorem ReadOnly.run_snd {p : Program S ε α} (h : p.ReadOnly) (s : S) : (p.run s).2 = s := by
  induction p generalizing s with
  | ret a => rfl
  | raise e => rfl
  | exec f k ih =>
    have hs := ih (f s).1 (h.2 _) (f s).2
    exact hs.trans (h.1 s)

/-- The outcomes of a program whose every statement is answered by some store
that satisfies `I`, not necessarily the same one each time. -/
def MayEnd (I : S → Prop) : Program S ε α → Except ε α → Prop
  | ret a, r => r = .ok a
  | raise e, r => r = .error e
  | exec f k, r => ∃ s, I s ∧ MayEnd I (k (f s).1) r

@[simp] theorem mayEnd_query_bind {I : S → Prop} (f : S → γ) (q : γ → Program S ε β)
    (r : Except ε β) : MayEnd I (query f >>= q) r ↔ ∃ s, I s ∧ MayEnd I (q (f s)) r := Iff.rfl

/-- A reader that is answered by one store only. -/
theorem ReadOnly.mayEnd_run {p : Program S ε α} (h : p.ReadOnly) (s : S) :
    MayEnd (· = s) p (p.run s).1 := by
  induction p with
  | ret a => exact rfl
  | raise e => exact rfl
  | exec f k ih =>
    refine ⟨s, rfl, ?_⟩
    rw [run, h.1]
    exact ih _ (h.2 _)

/-- The outcomes of a program whose statements are answered by some of the stores from
`stores n` up to `stores last`, each by the one of the statement before or a later one. -/
def MayEndBetween (stores : ℕ → S) (last : ℕ) : ℕ → Program S ε α → Except ε α → Prop
  | _, ret a, r => r = .ok a
  | _, raise e, r => r = .error e
  | n, exec f k, r =>
    ∃ m, n ≤ m ∧ m ≤ last ∧ MayEndBetween stores last m (k (f (stores m)).1) r

@[simp] theorem mayEndBetween_query_bind {stores : ℕ → S} {last n : ℕ} (f : S → γ)
    (q : γ → Program S ε β) (r : Except ε β) : MayEndBetween stores last n (query f >>= q) r ↔
      ∃ m, n ≤ m ∧ m ≤ last ∧ MayEndBetween stores last m (q (f (stores m))) r := Iff.rfl

theorem MayEndBetween.of_le {stores : ℕ → S} {last n m : ℕ} (h : n ≤ m) {p : Program S ε α}
    {r : Except ε α} (hp : MayEndBetween stores last m p r) : MayEndBetween stores last n p r := by
  cases p with
  | ret a => exact hp
  | raise e => exact hp
  | exec f k =>
    obtain ⟨m', hm', hk⟩ := hp
    exact ⟨m', Nat.le_trans h hm', hk⟩

/-- A reader beside a writer: the store is the one the writer has got to, and what is
left of the reader is what its answers so far lead to. -/
theorem Interleave.mayEndBetween {stores : ℕ → S} {n : ℕ} {w w' : Program S ε α}
    {r r' : Program S ε β} {s' : S} (h : Interleave w r (stores n) w' r' s')
    (hw : Passes stores n w) (hr : r.ReadOnly) :
    ∃ m, s' = stores m ∧ Passes stores m w' ∧ r'.ReadOnly ∧ ∀ last res, m ≤ last →
      MayEndBetween stores last m r' res → MayEndBetween stores last n r res := by
  induction h with
  | refl => exact ⟨n, rfl, hw, hr, fun _ _ _ h => h⟩
  | left _ hs ih =>
    obtain ⟨m, rfl, hw', hr', hres⟩ := ih
    -- The writer moves on to its next store.
    cases hs
    refine ⟨m + 1, hw'.1, hw'.2, hr', fun last res hlast h => ?_⟩
    exact hres last res (Nat.le_of_succ_le hlast) (h.of_le (Nat.le_succ m))
  | right _ hs ih =>
    obtain ⟨m, rfl, hw', hr', hres⟩ := ih
    cases hs with
    | exec f k =>
      -- The reader is answered by the store of the writer and changes nothing.
      refine ⟨m, hr'.1 _, hw', hr'.2 _, fun last res hlast h => hres last res hlast ?_⟩
      exact ⟨m, Nat.le_refl m, hlast, h⟩

/-- The program that has ended with an outcome. -/
def final : Except ε α → Program S ε α
  | .ok a => ret a
  | .error e => raise e

/-- **How a reader beside a writer can end** is decided by what its statements are
answered on stores the writer has passed through, in this order. -/
theorem Interleave.mayEndBetween_final {stores : ℕ → S} {n : ℕ} {w w' : Program S ε α}
    {r : Program S ε β} {res : Except ε β} {s' : S}
    (h : Interleave w r (stores n) w' (final res) s') (hw : Passes stores n w)
    (hr : r.ReadOnly) : ∃ last, s' = stores last ∧ MayEndBetween stores last n r res := by
  obtain ⟨m, rfl, -, -, hres⟩ := h.mayEndBetween hw hr
  refine ⟨m, rfl, hres m res (Nat.le_refl m) ?_⟩
  cases res with
  | ok b => exact rfl
  | error e => exact rfl

/-- What is left of a program after its next `n` statements, and the store then. -/
def advance : ℕ → Program S ε α → S → Program S ε α × S
  | n + 1, exec f k, s => advance n (k (f s).1) (f s).2
  | _, p, s => (p, s)

/-- The left program issues `n` statements in a row. -/
theorem Interleave.advance_left {p p' : Program S ε α} {q q' : Program S ε β} {s s' : S}
    (h : Interleave p q s p' q' s') (n : ℕ) :
    Interleave p q s (advance n p' s').1 q' (advance n p' s').2 := by
  induction n generalizing p' s' with
  | zero => cases p' <;> exact h
  | succ n ih =>
    cases p' with
    | ret a => exact h
    | raise e => exact h
    | exec f k => exact ih (h.left (.exec f k s'))

/-- The right program goes on undisturbed until it ends. -/
theorem Interleave.run_right {p p' : Program S ε α} {q q' : Program S ε β} {s s' : S}
    (h : Interleave p q s p' q' s') :
    Interleave p q s p' (final (q'.run s').1) (q'.run s').2 := by
  induction q' generalizing s' with
  | ret b => exact h
  | raise e => exact h
  | exec f k ih => exact ih _ (h.right (.exec f k s'))

end Program
