/-
Stores of several tables, and programs that only insert into them.

A `Store ρ` is a table for every name `i : ι`, with rows of type `ρ i`; a
`Delta ρ` is a list of new rows for every table, and `Delta.addTo` writes one
into a store.  The statements are

* `insertRows δ` — write the rows `δ` (`BulkCopy`, `Insert`);
* `insertWithIdentity i x` — write one row and return its id.

`Issues p s ds` is the program logic of such programs: started on `s`, the
statements of the program are the inserts `ds`, one after the other, unless it
throws on the way.  So what it leaves behind after `n` statements are the rows of
the first `n` inserts (`Issues.ends_take`), and all of them if it returns
(`Issues.run_ok`).  `Issues.bind` chains two programs, `Issues.forM` is the rule
for a loop.
-/
import IdentityLinq.Program
import IdentityLinq.Table

variable {ι : Type} {ρ : ι → Type}

/-- A table for every table name. -/
def Store (ρ : ι → Type) : Type := ∀ i, Table (ρ i)

/-- New rows for every table. -/
def Delta (ρ : ι → Type) : Type := ∀ i, List (ρ i)

/-- The store of new tables. -/
def Store.empty : Store ρ := fun _ => Table.empty

namespace Delta

/-- No rows. -/
def nil : Delta ρ := fun _ => []

instance : Append (Delta ρ) := ⟨fun δ δ' i => δ i ++ δ' i⟩

/-- Rows for one table only. -/
def single [DecidableEq ι] (i : ι) (xs : List (ρ i)) : Delta ρ := Function.update nil i xs

/-- The rows of several inserts. -/
def sum (ds : List (Delta ρ)) : Delta ρ := ds.foldr (· ++ ·) nil

/-- Write the rows. -/
def addTo (δ : Delta ρ) (s : Store ρ) : Store ρ := fun i => (s i).bulkCopy (δ i)

@[simp] theorem append_apply (δ δ' : Delta ρ) (i : ι) : (δ ++ δ') i = δ i ++ δ' i := rfl

@[simp] theorem single_self [DecidableEq ι] (i : ι) (xs : List (ρ i)) :
    (single i xs : Delta ρ) i = xs := @Function.update_self ι (fun i => List (ρ i)) _ i xs nil

@[simp] theorem single_of_ne [DecidableEq ι] {i j : ι} (h : j ≠ i) (xs : List (ρ i)) :
    (single i xs : Delta ρ) j = [] :=
  @Function.update_of_ne ι (fun i => List (ρ i)) _ j i h xs nil

theorem single_nil [DecidableEq ι] (i : ι) : (single i [] : Delta ρ) = nil := by
  funext j
  by_cases hj : j = i
  · subst hj
    exact single_self ..
  · exact single_of_ne hj _

theorem append_assoc (δ₁ δ₂ δ₃ : Delta ρ) : δ₁ ++ δ₂ ++ δ₃ = δ₁ ++ (δ₂ ++ δ₃) :=
  funext fun i => List.append_assoc (δ₁ i) (δ₂ i) (δ₃ i)

@[simp] theorem nil_apply (i : ι) : (nil : Delta ρ) i = [] := rfl

@[simp] theorem append_nil (δ : Delta ρ) : δ ++ nil = δ := funext fun i => List.append_nil (δ i)

@[simp] theorem nil_append (δ : Delta ρ) : nil ++ δ = δ := rfl

@[simp] theorem sum_nil : sum ([] : List (Delta ρ)) = nil := rfl

@[simp] theorem sum_cons (δ : Delta ρ) (ds : List (Delta ρ)) : sum (δ :: ds) = δ ++ sum ds := rfl

theorem sum_append (ds ds' : List (Delta ρ)) : sum (ds ++ ds') = sum ds ++ sum ds' := by
  induction ds with
  | nil => rfl
  | cons δ ds ih => rw [List.cons_append, sum_cons, ih, sum_cons, append_assoc]

theorem sum_apply (ds : List (Delta ρ)) (i : ι) : sum ds i = ds.flatMap fun δ => δ i := by
  induction ds with
  | nil => rfl
  | cons δ ds ih => rw [sum_cons, append_apply, ih, List.flatMap_cons]

/-- Inserts into other tables only. -/
theorem sum_apply_eq_nil {ds : List (Delta ρ)} {i : ι} (h : ∀ δ ∈ ds, δ i = []) :
    sum ds i = [] := by
  rw [sum_apply, List.flatMap_eq_nil_iff]
  exact h

@[simp] theorem addTo_apply (δ : Delta ρ) (s : Store ρ) (i : ι) :
    δ.addTo s i = (s i).bulkCopy (δ i) := rfl

@[simp] theorem nil_addTo (s : Store ρ) : (nil : Delta ρ).addTo s = s :=
  funext fun i => Table.bulkCopy_nil (s i)

theorem append_addTo (δ δ' : Delta ρ) (s : Store ρ) : (δ ++ δ').addTo s = δ'.addTo (δ.addTo s) :=
  funext fun i => Table.bulkCopy_append (s i) (δ i) (δ' i)

end Delta

/-! ### Insert statements -/

section Programs

variable {ε α β : Type}

/-- Write rows. -/
def insertRows (δ : Delta ρ) : Program (Store ρ) ε Unit := Program.update δ.addTo

/-- Write one row; the answer is the id it got. -/
def insertWithIdentity [DecidableEq ι] (i : ι) (x : ρ i) : Program (Store ρ) ε ℕ :=
  Program.exec (fun s => ((s i).next, (Delta.single i [x]).addTo s)) Program.ret

/-- The store `s` with the rows of a first part of the inserts `ds`. -/
def Written (s : Store ρ) (ds : List (Delta ρ)) (s' : Store ρ) : Prop :=
  ∃ ds', ds' <+: ds ∧ s' = (Delta.sum ds').addTo s

theorem Written.start (s : Store ρ) (ds : List (Delta ρ)) : Written s ds s :=
  ⟨[], List.nil_prefix, (Delta.nil_addTo s).symm⟩

/-- A table that none of the inserts is for stays as it is. -/
theorem Written.apply_eq {s s' : Store ρ} {ds : List (Delta ρ)} (h : Written s ds s') {i : ι}
    (hi : ∀ δ ∈ ds, δ i = []) : s' i = s i := by
  obtain ⟨ds', hpre, rfl⟩ := h
  rw [Delta.addTo_apply, Delta.sum_apply_eq_nil fun δ hδ => hi δ (hpre.subset hδ),
    Table.bulkCopy_nil]

/-- The store `s` with the rows of the first `n` of the inserts `ds`. -/
def storeAfter (s : Store ρ) (ds : List (Delta ρ)) (n : ℕ) : Store ρ :=
  (Delta.sum (ds.take n)).addTo s

@[simp] theorem storeAfter_zero (s : Store ρ) (ds : List (Delta ρ)) : storeAfter s ds 0 = s := by
  rw [storeAfter, List.take_zero, Delta.sum_nil, Delta.nil_addTo]

/-- Inserts into other tables only, one table each. -/
theorem single_apply_eq_nil [DecidableEq ι] {xs : List (Σ i, List (ρ i))} {i : ι}
    (hi : i ∉ xs.map Sigma.fst) :
    ∀ δ ∈ xs.map fun x => (Delta.single x.1 x.2 : Delta ρ), δ i = [] := by
  intro δ hδ
  obtain ⟨x, hx, rfl⟩ := List.mem_map.mp hδ
  refine Delta.single_of_ne (fun hix => hi ?_) _
  rw [hix]
  exact List.mem_map_of_mem hx

/-- Where every insert is for another table, a table gets what its insert says. -/
theorem sum_single_of_mem [DecidableEq ι] {xs : List (Σ i, List (ρ i))}
    (hxs : (xs.map Sigma.fst).Nodup) {i : ι} {ys : List (ρ i)} (h : ⟨i, ys⟩ ∈ xs) :
    Delta.sum (xs.map fun x => Delta.single x.1 x.2) i = ys := by
  induction xs with
  | nil => exact absurd h List.not_mem_nil
  | cons x xs ih =>
    rw [List.map_cons, List.nodup_cons] at hxs
    rw [List.map_cons, Delta.sum_cons, Delta.append_apply]
    rcases List.mem_cons.mp h with rfl | h
    · rw [Delta.single_self, Delta.sum_apply_eq_nil (single_apply_eq_nil hxs.1), List.append_nil]
    · have hne : i ≠ x.1 := fun hi => hxs.1 (hi ▸ List.mem_map_of_mem h)
      rw [Delta.single_of_ne hne, List.nil_append]
      exact ih hxs.2 h

/-- Started on `s`, the statements of the program are the inserts `ds`; an error may
end it before. -/
def Issues : Program (Store ρ) ε α → Store ρ → List (Delta ρ) → Prop
  | .ret _, _, ds => ds = []
  | .raise _, _, _ => True
  | .exec _ _, _, [] => False
  | .exec f k, s, δ :: ds => (f s).2 = δ.addTo s ∧ Issues (k (f s).1) (f s).2 ds

namespace Issues

theorem ret (a : α) (s : Store ρ) : Issues (Program.ret a : Program (Store ρ) ε α) s [] := rfl

/-- A failing program never gets to issue what is still missing. -/
theorem raise (e : ε) (s : Store ρ) (ds : List (Delta ρ)) :
    Issues (Program.raise e : Program (Store ρ) ε α) s ds := trivial

theorem insertRows (δ : Delta ρ) (s : Store ρ) :
    Issues (insertRows δ : Program (Store ρ) ε Unit) s [δ] := ⟨rfl, rfl⟩

/-- Sequencing: the second program continues on what the first one wrote. -/
theorem bind {p : Program (Store ρ) ε α} {q : α → Program (Store ρ) ε β} {s : Store ρ}
    {ds ds' : List (Delta ρ)} (hp : Issues p s ds)
    (hq : ∀ a, p.run s = (.ok a, (Delta.sum ds).addTo s) →
      Issues (q a) ((Delta.sum ds).addTo s) ds') :
    Issues (p >>= q) s (ds ++ ds') := by
  induction p generalizing s ds with
  | ret a =>
    obtain rfl : ds = [] := hp
    rw [Delta.sum_nil, Delta.nil_addTo] at hq
    exact hq a rfl
  | raise e => exact trivial
  | exec f k ih =>
    cases ds with
    | nil => exact absurd hp id
    | cons δ ds =>
      obtain ⟨hδ, hk⟩ := hp
      -- `q` starts where the rest of `p` ends, from the store after `δ`.
      rw [Delta.sum_cons, Delta.append_addTo, ← hδ] at hq
      exact ⟨hδ, ih _ hk hq⟩

/-- An insert whose id the rest of the program uses. -/
theorem insertWithIdentity_bind [DecidableEq ι] {i : ι} {x : ρ i}
    {q : ℕ → Program (Store ρ) ε β} {s : Store ρ} {ds : List (Delta ρ)}
    (hq : Issues (q (s i).next) ((Delta.single i [x]).addTo s) ds) :
    Issues (insertWithIdentity i x >>= q) s (.single i [x] :: ds) := ⟨rfl, hq⟩

/-- A loop over `xs` whose turns are numbered from `n` on: `turn n` holds of the
store before turn `n`, which issues `ds n x`. -/
theorem forM (turn : ℕ → Store ρ → Prop) {body : β → Program (Store ρ) ε Unit}
    {ds : ℕ → β → List (Delta ρ)}
    (hbody : ∀ n x s, turn n s →
      Issues (body x) s (ds n x) ∧ turn (n + 1) ((Delta.sum (ds n x)).addTo s)) :
    ∀ (xs : List β) (n : ℕ) (s : Store ρ), turn n s →
      Issues (forM xs body) s ((xs.zipIdx n).flatMap fun x => ds x.2 x.1)
  | [], _, s, _ => ret () s
  | x :: xs, n, s, h => by
    rw [List.forM_cons, List.zipIdx_cons, List.flatMap_cons]
    exact (hbody n x s h).1.bind fun _ _ => forM turn hbody xs (n + 1) _ (hbody n x s h).2

/-- **What is left behind** when the program ends after `n` statements: the rows of
its first `n` inserts. -/
theorem ends_take {p : Program (Store ρ) ε α} {s s' : Store ρ} {ds : List (Delta ρ)} {n : ℕ}
    {r : Except ε α} (h : Issues p s ds) (he : Program.Ends p s n r s') :
    n ≤ ds.length ∧ s' = (Delta.sum (ds.take n)).addTo s := by
  induction he generalizing ds with
  | ret a s => exact ⟨Nat.zero_le _, (Delta.nil_addTo s).symm⟩
  | raise e s => exact ⟨Nat.zero_le _, (Delta.nil_addTo s).symm⟩
  | exec _ ih =>
    cases ds with
    | nil => exact absurd h id
    | cons δ ds =>
      obtain ⟨hδ, hk⟩ := h
      obtain ⟨hle, hs'⟩ := ih hk
      refine ⟨Nat.succ_le_succ hle, ?_⟩
      rw [List.take_succ_cons, Delta.sum_cons, Delta.append_addTo, ← hδ]
      exact hs'
  | rejected f k s e => exact ⟨Nat.zero_le _, (Delta.nil_addTo s).symm⟩

/-- The program goes through the stores with the rows of its first inserts. -/
theorem passes {p : Program (Store ρ) ε α} {s : Store ρ} {ds : List (Delta ρ)}
    (h : Issues p s ds) : Program.Passes (storeAfter s ds) 0 p := by
  have hrest : ∀ n, Issues p (storeAfter s ds n) (ds.drop n) →
      Program.Passes (storeAfter s ds) n p := by
    clear h
    induction p with
    | ret a => exact fun _ _ => trivial
    | raise e => exact fun _ _ => trivial
    | exec f k ih =>
      intro n h
      cases hdrop : ds.drop n with
      | nil =>
        rw [hdrop] at h
        exact absurd h id
      | cons δ rest =>
        rw [hdrop] at h
        obtain ⟨hδ, hk⟩ := h
        -- One more insert is among the first ones.
        obtain ⟨htake, hrest⟩ : ds.take (n + 1) = ds.take n ++ [δ] ∧ ds.drop (n + 1) = rest := by
          have hat : ds[n]? = some δ := by
            rw [← Nat.add_zero n, ← List.getElem?_drop, hdrop]
            rfl
          exact ⟨by rw [List.take_add_one, hat]; rfl, by rw [← List.tail_drop, hdrop]; rfl⟩
        have hnext : (f (storeAfter s ds n)).2 = storeAfter s ds (n + 1) := by
          rw [hδ, storeAfter, storeAfter, htake, Delta.sum_append, Delta.append_addTo,
            Delta.sum_cons, Delta.sum_nil, Delta.append_nil]
        refine ⟨hnext, ih _ _ ?_⟩
        rwa [hrest, ← hnext]
  exact hrest 0 (by rwa [storeAfter_zero])

theorem run {p : Program (Store ρ) ε α} {s : Store ρ} {ds : List (Delta ρ)}
    (h : Issues p s ds) : Written s ds (p.run s).2 := by
  obtain ⟨n, hn⟩ := Program.ends_run p s
  exact ⟨ds.take n, List.take_prefix n ds, (h.ends_take hn).2⟩

/-- A program that returns has issued everything. -/
theorem run_ok {p : Program (Store ρ) ε α} {s : Store ρ} {ds : List (Delta ρ)} {a : α}
    (h : Issues p s ds) (hr : (p.run s).1 = .ok a) : (p.run s).2 = (Delta.sum ds).addTo s := by
  induction p generalizing s ds with
  | ret b =>
    obtain rfl : ds = [] := h
    exact (Delta.nil_addTo s).symm
  | raise e => exact nomatch hr
  | exec f k ih =>
    cases ds with
    | nil => exact absurd h id
    | cons δ ds =>
      obtain ⟨hδ, hk⟩ := h
      rw [Delta.sum_cons, Delta.append_addTo, ← hδ]
      exact ih _ hk hr

end Issues

end Programs
