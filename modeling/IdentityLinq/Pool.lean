/-
Any number of programs that insert into one store, taking turns.

A `Pool` keeps, for every program, what is left of it and the rows its
statements have added so far, with the ids they got (`wrote`).  A step is one
statement of one program, or a program that stops with an error.

`Writes I Q p L` is the logic of one of the programs, `L` being the rows it has
written: whatever ids the store gives its rows, `I` holds of them all along and
`Q` once it returns; a program that issues the inserts `ds`, whatever ids they get
(`Inserts`), has written the first of them.  The other programs do not appear in
it, since

* `sound_of_reaches` — in every interleaving the rows of the store are those of
  the start and those of the programs, each row of one program only;
* `Sound.filter_perm` — so rows that only one program can have written are the
  ones in its own log, and in the same order (`Sound.filter_eq`), and all rows
  together are those of the start and of the logs (`Sound.rows_perm`);
* `Beside.mayEnd` — a program that only reads is answered by stores that the pool
  passes through.
-/
import IdentityLinq.Store
import Mathlib.Data.List.Perm.Lattice
import Mathlib.Logic.Relation

variable {ι : Type} {ρ : ι → Type} {ε α β κ : Type}

/-- Rows of every table, with their ids. -/
abbrev Log (ρ : ι → Type) : Type := Delta fun i => Row (ρ i)

namespace Delta

/-- The new rows under the ids they get in `s`. -/
def numbered (δ : Delta ρ) (s : Store ρ) : Log ρ := fun i => number (s i).next (δ i)

@[simp] theorem numbered_apply (δ : Delta ρ) (s : Store ρ) (i : ι) :
    δ.numbered s i = number (s i).next (δ i) := rfl

theorem numbered_single [DecidableEq ι] (i : ι) (xs : List (ρ i)) (s : Store ρ) :
    (single i xs).numbered s = single i (number (s i).next xs) := by
  funext j
  by_cases hj : j = i
  · subst hj
    simp
  · simp [hj]

end Delta

namespace Log

/-- The rows without their ids. -/
def cols (L : Log ρ) : Delta ρ := fun i => (L i).map Row.cols

@[simp] theorem cols_nil : cols (.nil : Log ρ) = .nil := rfl

@[simp] theorem cols_append (L L' : Log ρ) : cols (L ++ L') = cols L ++ cols L' :=
  funext fun _ => List.map_append

@[simp] theorem cols_single [DecidableEq ι] (i : ι) (ys : List (Row (ρ i))) :
    cols (.single i ys) = .single i (ys.map Row.cols) := by
  funext j
  by_cases hj : j = i
  · subst hj
    simp [cols]
  · simp [cols, hj]

@[simp] theorem cols_numbered (δ : Delta ρ) (s : Store ρ) : cols (δ.numbered s) = δ :=
  funext fun i => map_cols_number _ (δ i)

end Log

/-- The rows that `s'` has after those of `s`. -/
def added (s s' : Store ρ) : Log ρ := fun i => (s' i).rows.drop (s i).rows.length

theorem added_addTo (δ : Delta ρ) (s : Store ρ) : added s (δ.addTo s) = δ.numbered s :=
  funext fun _ => List.drop_left

/-! ### One program -/

/-- Having written the rows `L`, the program only inserts, with `I` of its rows
before and after every statement and `Q` when it returns. -/
def Writes (I : Log ρ → Prop) (Q : α → Log ρ → Prop) : Program (Store ρ) ε α → Log ρ → Prop
  | .ret a, L => I L ∧ Q a L
  | .raise _, L => I L
  | .exec f k, L => I L ∧ ∀ s, ∃ δ : Delta ρ, (f s).2 = δ.addTo s ∧
      Writes I Q (k (f s).1) (L ++ δ.numbered s)

namespace Writes

variable {I : Log ρ → Prop} {Q : α → Log ρ → Prop} {L : Log ρ}

theorem start {p : Program (Store ρ) ε α} (h : Writes I Q p L) : I L := by
  cases p with
  | ret a => exact h.1
  | raise e => exact h
  | exec f k => exact h.1

/-- Sequencing: the second program takes over the rows of the first. -/
theorem bind {R : β → Log ρ → Prop} {p : Program (Store ρ) ε α}
    {q : α → Program (Store ρ) ε β}
    (hp : Writes I (fun a L => Writes I R (q a) L) p L) : Writes I R (p >>= q) L := by
  induction p generalizing L with
  | ret a => exact hp.2
  | raise e => exact hp
  | exec f k ih =>
    refine ⟨hp.1, fun s => ?_⟩
    obtain ⟨δ, hδ, hk⟩ := hp.2 s
    exact ⟨δ, hδ, ih _ hk⟩

/-- Less may be asked of the rows. -/
theorem weaken {J : Log ρ → Prop} {p : Program (Store ρ) ε α} (h : Writes I Q p L)
    (hI : ∀ L, I L → J L) : Writes J (fun _ _ => True) p L := by
  induction p generalizing L with
  | ret a => exact ⟨hI L h.1, trivial⟩
  | raise e => exact hI L h
  | exec f k ih =>
    refine ⟨hI L h.1, fun s => ?_⟩
    obtain ⟨δ, hδ, hk⟩ := h.2 s
    exact ⟨δ, hδ, ih _ hk⟩

theorem mono {R : α → Log ρ → Prop} {p : Program (Store ρ) ε α} (h : Writes I Q p L)
    (hQ : ∀ a L, I L → Q a L → R a L) : Writes I R p L := by
  induction p generalizing L with
  | ret a => exact ⟨h.1, hQ a L h.1 h.2⟩
  | raise e => exact h
  | exec f k ih =>
    refine ⟨h.1, fun s => ?_⟩
    obtain ⟨δ, hδ, hk⟩ := h.2 s
    exact ⟨δ, hδ, ih _ hk⟩

/-- Rows of one table, under some ids. -/
theorem insertRows_bind [DecidableEq ι] {i : ι} {xs : List (ρ i)}
    {q : Unit → Program (Store ρ) ε α} (hI : I L)
    (hq : ∀ ys : List (Row (ρ i)), ys.map Row.cols = xs → Writes I Q (q ()) (L ++ .single i ys)) :
    Writes I Q (insertRows (.single i xs) >>= q) L := by
  refine ⟨hI, fun s => ⟨_, rfl, ?_⟩⟩
  rw [Delta.numbered_single]
  exact hq _ (map_cols_number _ xs)

/-- One row; the rest of the program is told its id. -/
theorem insertWithIdentity_bind [DecidableEq ι] {i : ι} {x : ρ i}
    {q : ℕ → Program (Store ρ) ε α} (hI : I L)
    (hq : ∀ n, Writes I Q (q n) (L ++ .single i [⟨n, x⟩])) :
    Writes I Q (insertWithIdentity i x >>= q) L := by
  refine ⟨hI, fun s => ⟨_, rfl, ?_⟩⟩
  rw [Delta.numbered_single]
  exact hq (s i).next

/-- A loop over `xs`, with the turns it has behind it in the invariant. -/
theorem forM {turn : List β → Log ρ → Prop} {body : β → Program (Store ρ) ε Unit}
    (hI : ∀ done L, turn done L → I L)
    (hbody : ∀ done x L, turn done L →
      Writes I (fun _ => turn (done ++ [x])) (body x) L) :
    ∀ (xs done : List β) (L : Log ρ), turn done L →
      Writes I (fun _ => turn (done ++ xs)) (forM xs body) L
  | [], done, L, h => by
    rw [List.append_nil]
    exact ⟨hI done L h, h⟩
  | x :: xs, done, L, h => by
    rw [List.forM_cons]
    refine Writes.bind ((hbody done x L h).mono fun _ L' _ h' => ?_)
    have hrest := forM hI hbody xs (done ++ [x]) L' h'
    rwa [List.append_assoc] at hrest

end Writes

/-! ### A program with its inserts in order -/

/-- Whatever stores its statements run on, they are the inserts `ds`; an error may end
the program before. -/
def Inserts : Program (Store ρ) ε α → List (Delta ρ) → Prop
  | .ret _, ds => ds = []
  | .raise _, _ => True
  | .exec _ _, [] => False
  | .exec f k, δ :: ds => ∀ s, (f s).2 = δ.addTo s ∧ Inserts (k (f s).1) ds

namespace Inserts

theorem insertRows (δ : Delta ρ) : Inserts (insertRows δ : Program (Store ρ) ε Unit) [δ] :=
  fun _ => ⟨rfl, rfl⟩

theorem bind {p : Program (Store ρ) ε α} {q : α → Program (Store ρ) ε β} {ds ds' : List (Delta ρ)}
    (hp : Inserts p ds) (hq : ∀ a, Inserts (q a) ds') : Inserts (p >>= q) (ds ++ ds') := by
  induction p generalizing ds with
  | ret a =>
    obtain rfl : ds = [] := hp
    exact hq a
  | raise e => exact trivial
  | exec f k ih =>
    cases ds with
    | nil => exact absurd hp id
    | cons δ ds =>
      intro s
      obtain ⟨hδ, hk⟩ := hp s
      exact ⟨hδ, ih _ hk⟩

/-- **What the program has written** are at any time its first inserts. -/
theorem writes {p : Program (Store ρ) ε α} {ds done : List (Delta ρ)} {L : Log ρ}
    (h : Inserts p ds) (hL : L.cols = Delta.sum done) :
    Writes (fun L => ∃ n, L.cols = Delta.sum ((done ++ ds).take n)) (fun _ _ => True) p L := by
  have hnow : ∃ n, L.cols = Delta.sum ((done ++ ds).take n) :=
    ⟨done.length, by rw [List.take_left, hL]⟩
  induction p generalizing ds done L with
  | ret a => exact ⟨hnow, trivial⟩
  | raise e => exact hnow
  | exec f k ih =>
    cases ds with
    | nil => exact absurd h id
    | cons δ ds =>
      refine ⟨hnow, fun s => ?_⟩
      obtain ⟨hδ, hk⟩ := h s
      -- One insert more is done.
      have hnext : (L ++ δ.numbered s).cols = Delta.sum (done ++ [δ]) := by
        rw [Log.cols_append, Log.cols_numbered, hL, Delta.sum_append, Delta.sum_cons,
          Delta.sum_nil, Delta.append_nil]
      have hrest := ih _ hk hnext ⟨(done ++ [δ]).length, by rw [List.take_left, hnext]⟩
      rw [List.append_assoc] at hrest
      exact ⟨δ, hδ, hrest⟩

end Inserts

/-! ### The pool -/

/-- Programs `κ` over one store. -/
structure Pool (ρ : ι → Type) (ε α κ : Type) where
  store : Store ρ
  /-- what each program has left to do -/
  left : κ → Program (Store ρ) ε α
  /-- the rows its statements have added -/
  wrote : κ → Log ρ

namespace Pool

/-- The programs before their first statement. -/
def start (s : Store ρ) (programs : κ → Program (Store ρ) ε α) : Pool ρ ε α κ :=
  { store := s, left := programs, wrote := fun _ => .nil }

variable [DecidableEq κ]

/-- One program issues a statement, or stops. -/
inductive Step (x : Pool ρ ε α κ) : Pool ρ ε α κ → Prop where
  | statement {k : κ} {p : Program (Store ρ) ε α} {s : Store ρ} :
      Program.Step (x.left k) x.store p s →
      Step x
        { store := s
          left := Function.update x.left k p
          wrote := Function.update x.wrote k (x.wrote k ++ added x.store s) }
  | stop (k : κ) (e : ε) : Step x { x with left := Function.update x.left k (.raise e) }

/-- From one pool to another, step by step. -/
abbrev Reaches (x y : Pool ρ ε α κ) : Prop := Relation.ReflTransGen Step x y

omit [DecidableEq κ] in
/-- What holds in every interleaving of programs that started on `s₀`. -/
structure Sound (s₀ : Store ρ) (I : κ → Log ρ → Prop) (Q : κ → α → Log ρ → Prop)
    (x : Pool ρ ε α κ) : Prop where
  mem_rows_iff : ∀ i r, r ∈ (x.store i).rows ↔ r ∈ (s₀ i).rows ∨ ∃ k, r ∈ x.wrote k i
  next_le : ∀ i, (s₀ i).next ≤ (x.store i).next
  next_le_id : ∀ k i, ∀ r ∈ x.wrote k i, (s₀ i).next ≤ r.id
  nodup : ∀ k i, ((x.wrote k i).map Row.id).Nodup
  disjoint : ∀ k k' i r, r ∈ x.wrote k i → r ∈ x.wrote k' i → k = k'
  writes : ∀ k, Writes (I k) (Q k) (x.left k) (x.wrote k)

variable {s₀ : Store ρ} {I : κ → Log ρ → Prop} {Q : κ → α → Log ρ → Prop}
  {x y : Pool ρ ε α κ}

omit [DecidableEq κ] in
theorem sound_start {programs : κ → Program (Store ρ) ε α}
    (h : ∀ k, Writes (I k) (Q k) (programs k) .nil) : Sound s₀ I Q (start s₀ programs) where
  mem_rows_iff := fun _ _ => ⟨.inl, fun hr => hr.resolve_right fun ⟨_, hr⟩ => nomatch hr⟩
  next_le := fun _ => le_refl _
  next_le_id := fun _ _ _ hr => nomatch hr
  nodup := fun _ _ => List.nodup_nil
  disjoint := fun _ _ _ _ hr => nomatch hr
  writes := h

theorem mem_update_wrote {wrote : κ → Log ρ} {k : κ} {new : Log ρ} {k' : κ} {i : ι}
    {r : Row (ρ i)} : r ∈ Function.update wrote k (wrote k ++ new) k' i ↔
      r ∈ wrote k' i ∨ k' = k ∧ r ∈ new i := by
  by_cases hk : k' = k
  · subst hk
    rw [Function.update_self, Delta.append_apply, List.mem_append]
    simp
  · rw [Function.update_of_ne hk]
    simp [hk]

omit [DecidableEq κ] in
theorem Sound.id_lt_next (h : Sound s₀ I Q x) {k : κ} {i : ι} {r : Row (ρ i)}
    (hr : r ∈ x.wrote k i) : r.id < (x.store i).next :=
  (x.store i).lt_next r ((h.mem_rows_iff i r).mpr (.inr ⟨k, hr⟩))

/-- A statement of one program: the new rows get new ids, which no other program
has. -/
theorem Sound.statement (h : Sound s₀ I Q x) {k : κ} {p : Program (Store ρ) ε α}
    {δ : Delta ρ} (hp : Writes (I k) (Q k) p (x.wrote k ++ δ.numbered x.store)) :
    Sound s₀ I Q
      { store := δ.addTo x.store
        left := Function.update x.left k p
        wrote := Function.update x.wrote k (x.wrote k ++ δ.numbered x.store) } where
  mem_rows_iff := by
    intro i r
    simp only [Delta.addTo_apply, Table.rows_bulkCopy, List.mem_append, h.mem_rows_iff,
      mem_update_wrote, exists_or, exists_eq_left, Delta.numbered_apply, or_assoc]
  next_le := fun i => le_trans (h.next_le i) (Nat.le_add_right _ _)
  next_le_id := by
    intro k' i r hr
    rcases mem_update_wrote.mp hr with hold | ⟨-, hnew⟩
    · exact h.next_le_id k' i r hold
    · exact le_trans (h.next_le i) (number_id_bounds hnew).1
  nodup := by
    intro k' i
    show ((Function.update x.wrote k (x.wrote k ++ δ.numbered x.store) k' i).map Row.id).Nodup
    by_cases hk : k' = k
    · subst hk
      rw [Function.update_self, Delta.append_apply, List.map_append, List.nodup_append]
      refine ⟨h.nodup k' i, number_ids_nodup _ _, ?_⟩
      intro n hn m hm
      obtain ⟨r, hr, rfl⟩ := List.mem_map.mp hn
      obtain ⟨q, hq, rfl⟩ := List.mem_map.mp hm
      exact Nat.ne_of_lt (lt_of_lt_of_le (h.id_lt_next hr) (number_id_bounds hq).1)
    · rw [Function.update_of_ne hk]
      exact h.nodup k' i
  disjoint := by
    intro k₁ k₂ i r h₁ h₂
    have hfresh : ∀ k', r ∈ x.wrote k' i → r ∈ δ.numbered x.store i → False := by
      intro k' hold hnew
      have hlt := h.id_lt_next hold
      have hle := (number_id_bounds hnew).1
      omega
    rcases mem_update_wrote.mp h₁ with hold₁ | ⟨rfl, hnew₁⟩
    · rcases mem_update_wrote.mp h₂ with hold₂ | ⟨rfl, hnew₂⟩
      · exact h.disjoint k₁ k₂ i r hold₁ hold₂
      · exact (hfresh k₁ hold₁ hnew₂).elim
    · rcases mem_update_wrote.mp h₂ with hold₂ | ⟨rfl, -⟩
      · exact (hfresh k₂ hold₂ hnew₁).elim
      · rfl
  writes := by
    intro k'
    by_cases hk : k' = k
    · subst hk
      simp only [Function.update_self]
      exact hp
    · simp only [Function.update_of_ne hk]
      exact h.writes k'

theorem Sound.step (h : Sound s₀ I Q x) (hs : Step x y) : Sound s₀ I Q y := by
  cases hs with
  | @statement k p s hs =>
    have hk := h.writes k
    generalize x.left k = left at hs hk
    cases hs with
    | exec f q =>
      obtain ⟨δ, hδ, hp⟩ := hk.2 x.store
      rw [hδ, added_addTo]
      exact h.statement hp
  | stop k e =>
    refine { h with writes := fun k' => ?_ }
    by_cases hk : k' = k
    · subst hk
      simp only [Function.update_self]
      exact (h.writes k').start
    · simp only [Function.update_of_ne hk]
      exact h.writes k'

/-- **Every interleaving is sound.** -/
theorem sound_of_reaches {programs : κ → Program (Store ρ) ε α}
    (h : ∀ k, Writes (I k) (Q k) (programs k) .nil) (hx : Reaches (start s₀ programs) x) :
    Sound s₀ I Q x := by
  induction hx with
  | refl => exact sound_start h
  | tail _ hs ih => exact ih.step hs

omit [DecidableEq κ] in
/-- **Rows that one program only can have written** are those in its log. -/
theorem Sound.filter_perm (h : Sound s₀ I Q x) {k : κ} {i : ι} {p : Row (ρ i) → Bool}
    (hp : ∀ r ∈ (x.store i).rows, p r = true → r ∈ x.wrote k i) :
    ((x.store i).rows.filter p).Perm ((x.wrote k i).filter p) := by
  have hstore : ((x.store i).rows.filter p).Nodup := (x.store i).nodup.of_map.filter _
  have hlog : ((x.wrote k i).filter p).Nodup := (h.nodup k i).of_map.filter _
  rw [List.perm_ext_iff_of_nodup hstore hlog]
  intro r
  rw [List.mem_filter, List.mem_filter]
  constructor
  · rintro ⟨hr, hpr⟩
    exact ⟨hp r hr hpr, hpr⟩
  · rintro ⟨hr, hpr⟩
    exact ⟨(h.mem_rows_iff i r).mpr (.inr ⟨k, hr⟩), hpr⟩

omit [DecidableEq κ] in
/-- The rows of the store, program by program. -/
theorem Sound.rows_perm (h : Sound s₀ I Q x) {order : List κ} (hnodup : order.Nodup)
    (hall : ∀ k, k ∈ order) (i : ι) :
    ((x.store i).rows).Perm ((s₀ i).rows ++ order.flatMap fun k => x.wrote k i) := by
  have hlogs : (order.flatMap fun k => x.wrote k i).Nodup := by
    refine List.nodup_flatMap.mpr ⟨fun k _ => (h.nodup k i).of_map, hnodup.imp fun hne => ?_⟩
    exact fun r hr hr' => hne (h.disjoint _ _ i r hr hr')
  have hboth : ((s₀ i).rows ++ order.flatMap fun k => x.wrote k i).Nodup := by
    refine List.nodup_append.mpr ⟨(s₀ i).nodup.of_map, hlogs, ?_⟩
    rintro r hr r' hr' rfl
    -- A row of a program has a later id than those of the start.
    obtain ⟨k, -, hk⟩ := List.mem_flatMap.mp hr'
    have hlt := (s₀ i).lt_next r hr
    have hle := h.next_le_id k i r hk
    omega
  rw [List.perm_ext_iff_of_nodup (x.store i).nodup.of_map hboth]
  intro r
  rw [h.mem_rows_iff, List.mem_append, List.mem_flatMap]
  refine or_congr_right ?_
  constructor
  · rintro ⟨k, hk⟩
    exact ⟨k, hall k, hk⟩
  · rintro ⟨k, -, hk⟩
    exact ⟨k, hk⟩

/-! ### What a program keeps -/

/-- The rows of the start stay where they are; the others are the programs' own. -/
theorem rows_of_reaches {programs : κ → Program (Store ρ) ε α}
    (h : ∀ k, Writes (I k) (Q k) (programs k) .nil) (hx : Reaches (start s₀ programs) x) (i : ι) :
    ∃ new, (x.store i).rows = (s₀ i).rows ++ new ∧ ∀ r ∈ new, ∃ k, r ∈ x.wrote k i := by
  induction hx with
  | refl => exact ⟨[], (List.append_nil _).symm, fun r hr => absurd hr List.not_mem_nil⟩
  | @tail x y hx hs ih =>
    obtain ⟨new, hrows, hnew⟩ := ih
    cases hs with
    | @statement k p s hs =>
      have hk := (sound_of_reaches h hx).writes k
      generalize x.left k = left at hs hk
      cases hs with
      | exec f q =>
        obtain ⟨δ, hδ, -⟩ := hk.2 x.store
        rw [hδ, added_addTo]
        refine ⟨new ++ δ.numbered x.store i, ?_, fun r hr => ?_⟩
        · show (x.store i).rows ++ δ.numbered x.store i = _
          rw [hrows, List.append_assoc]
        · rcases List.mem_append.mp hr with hold | hlast
          · obtain ⟨k', hk'⟩ := hnew r hold
            exact ⟨k', mem_update_wrote.mpr (.inl hk')⟩
          · exact ⟨k, mem_update_wrote.mpr (.inr ⟨rfl, hlast⟩)⟩
    | stop k e => exact ⟨new, hrows, hnew⟩

omit [DecidableEq κ] in
/-- Every program finds its rows in the order in which it wrote them. -/
def Ordered (x : Pool ρ ε α κ) : Prop := ∀ k i, (x.wrote k i).Sublist (x.store i).rows

theorem Sound.ordered_step (h : Sound s₀ I Q x) (ho : Ordered x) (hs : Step x y) : Ordered y := by
  cases hs with
  | @statement k p s hs =>
    have hk := h.writes k
    generalize x.left k = left at hs hk
    cases hs with
    | exec f q =>
      obtain ⟨δ, hδ, -⟩ := hk.2 x.store
      rw [hδ, added_addTo]
      intro k' i
      show (Function.update x.wrote k (x.wrote k ++ δ.numbered x.store) k' i).Sublist
        ((x.store i).rows ++ number (x.store i).next (δ i))
      by_cases hk' : k' = k
      · subst hk'
        rw [Function.update_self]
        exact (ho k' i).append (List.Sublist.refl _)
      · rw [Function.update_of_ne hk']
        exact (ho k' i).trans (List.sublist_append_left _ _)
  | stop k e => exact ho

theorem ordered_of_reaches {programs : κ → Program (Store ρ) ε α}
    (h : ∀ k, Writes (I k) (Q k) (programs k) .nil) (hx : Reaches (start s₀ programs) x) :
    Ordered x := by
  induction hx with
  | refl => exact fun _ _ => List.nil_sublist _
  | tail hx hs ih => exact (sound_of_reaches h hx).ordered_step ih hs

omit [DecidableEq κ] in
/-- The rows that one program only can have written, in their order. -/
theorem Sound.filter_eq (h : Sound s₀ I Q x) (ho : Ordered x) {k : κ} {i : ι}
    {p : Row (ρ i) → Bool} (hp : ∀ r ∈ (x.store i).rows, p r = true → r ∈ x.wrote k i) :
    (x.store i).rows.filter p = (x.wrote k i).filter p :=
  (((ho k i).filter p).eq_of_length (h.filter_perm hp).length_eq.symm).symm

/-- What programs return is decided by the programs. -/
theorem yields_of_reaches {programs : κ → Program (Store ρ) ε α} {R : κ → α → Prop}
    (h : ∀ k, (programs k).Yields (R k)) (hx : Reaches (start s₀ programs) x) (k : κ) :
    (x.left k).Yields (R k) := by
  induction hx with
  | refl => exact h k
  | @tail x y _ hs ih =>
    cases hs with
    | @statement k' p s hs =>
      by_cases hk : k = k'
      · subst hk
        simp only [Function.update_self]
        generalize x.left k = left at hs ih
        cases hs with
        | exec f q => exact ih _
      · simp only [Function.update_of_ne hk]
        exact ih
    | stop k' e =>
      by_cases hk : k = k'
      · subst hk
        simp only [Function.update_self]
        exact trivial
      · simp only [Function.update_of_ne hk]
        exact ih

omit [DecidableEq κ] in
/-- The program issues no more statements. -/
def Ended (x : Pool ρ ε α κ) (k : κ) : Prop := ∃ r, x.left k = Program.final r

theorem Ended.step {k : κ} (h : Ended x k) (hs : Step x y) : Ended y k ∧ y.wrote k = x.wrote k := by
  obtain ⟨r, hr⟩ := h
  cases hs with
  | @statement k' p s hs =>
    have hk : k ≠ k' := by
      rintro rfl
      rw [hr] at hs
      cases r <;> cases hs
    exact ⟨⟨r, by rw [← hr]; exact Function.update_of_ne hk ..⟩, Function.update_of_ne hk ..⟩
  | stop k' e =>
    by_cases hk : k = k'
    · subst hk
      exact ⟨⟨.error e, Function.update_self ..⟩, rfl⟩
    · exact ⟨⟨r, by rw [← hr]; exact Function.update_of_ne hk ..⟩, rfl⟩

/-- It never does again. -/
theorem Ended.reaches {k : κ} (h : Ended x k) (hxy : Reaches x y) :
    Ended y k ∧ y.wrote k = x.wrote k := by
  induction hxy with
  | refl => exact ⟨h, rfl⟩
  | tail _ hs ih => exact ⟨(ih.1.step hs).1, (ih.1.step hs).2.trans ih.2⟩

theorem Ended.wrote_eq {k : κ} (h : Ended x k) (hxy : Reaches x y) : y.wrote k = x.wrote k :=
  (h.reaches hxy).2

/-! ### A reader beside the pool -/

/-- `Beside x p y p'`: from `x` on, the programs of the pool and the program `p` have
issued some of their statements, in some order. -/
inductive Beside {β : Type} (x : Pool ρ ε α κ) (p : Program (Store ρ) ε β) :
    Pool ρ ε α κ → Program (Store ρ) ε β → Prop where
  | refl : Beside x p x p
  | pool {y z : Pool ρ ε α κ} {p' : Program (Store ρ) ε β} :
      Beside x p y p' → Step y z → Beside x p z p'
  | reader {y : Pool ρ ε α κ} {p' p'' : Program (Store ρ) ε β} {s : Store ρ} :
      Beside x p y p' → Program.Step p' y.store p'' s → Beside x p { y with store := s } p''

/-- **What a reader beside the pool returns** is decided by what its statements are
answered by stores that the pool passes through. -/
theorem Beside.mayEnd {p p' : Program (Store ρ) ε β} (hp : p.ReadOnly) (h : Beside x p y p') :
    Reaches x y ∧ p'.ReadOnly ∧ ∀ res,
      p'.MayEnd (fun s => ∃ z, Reaches x z ∧ z.store = s) res →
      p.MayEnd (fun s => ∃ z, Reaches x z ∧ z.store = s) res := by
  induction h with
  | refl => exact ⟨.refl, hp, fun _ h => h⟩
  | pool _ hs ih => exact ⟨ih.1.tail hs, ih.2⟩
  | reader _ hs ih =>
    obtain ⟨hreach, hread, hres⟩ := ih
    cases hs with
    | exec f q =>
      rw [hread.1]
      exact ⟨hreach, hread.2 _, fun res h => hres res ⟨_, ⟨_, hreach, rfl⟩, h⟩⟩

theorem Beside.mayEnd_final {p : Program (Store ρ) ε β} (hp : p.ReadOnly) {res : Except ε β}
    (h : Beside x p y (Program.final res)) :
    p.MayEnd (fun s => ∃ z, Reaches x z ∧ z.store = s) res := by
  refine (h.mayEnd hp).2.2 res ?_
  cases res with
  | ok b => exact rfl
  | error e => exact rfl

/-- Nothing keeps a program from running to its end. -/
theorem exists_ended (x : Pool ρ ε α κ) (k : κ) :
    ∃ y, Reaches x y ∧ y.left k = Program.final ((x.left k).run x.store).1 ∧
      y.store = ((x.left k).run x.store).2 ∧ ∀ k', k' ≠ k → y.left k' = x.left k' := by
  generalize hp : x.left k = p
  induction p generalizing x with
  | ret a => exact ⟨x, .refl, hp, rfl, fun _ _ => rfl⟩
  | raise e => exact ⟨x, .refl, hp, rfl, fun _ _ => rfl⟩
  | exec f q ih =>
    set x' : Pool ρ ε α κ :=
      { store := (f x.store).2
        left := Function.update x.left k (q (f x.store).1)
        wrote := Function.update x.wrote k (x.wrote k ++ added x.store (f x.store).2) } with hx'
    have hstep : Step x x' := .statement (hp ▸ Program.Step.exec f q x.store)
    have hnext : x'.left k = q (f x.store).1 := Function.update_self ..
    obtain ⟨y, hy, hleft, hstore, hothers⟩ := ih _ x' hnext
    refine ⟨y, .head hstep hy, hleft, hstore, fun k' hk' => ?_⟩
    rw [hothers k' hk']
    exact Function.update_of_ne hk' ..

/-- The reader goes on undisturbed until it ends. -/
theorem Beside.run_reader {p p' : Program (Store ρ) ε β} (h : Beside x p y p') :
    Beside x p { y with store := (p'.run y.store).2 } (Program.final (p'.run y.store).1) := by
  induction p' generalizing y with
  | ret b => exact h
  | raise e => exact h
  | exec f q ih => exact ih _ (h.reader (.exec f q y.store))

end Pool
