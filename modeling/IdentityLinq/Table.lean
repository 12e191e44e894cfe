/-
Relational tables with an identity column, and the queries over them.

A `Table ρ` holds rows `Row ρ` (an `id` next to the other columns `ρ`) and the
number its identity column hands out next.  The structure carries that ids
are unique and below `next`, so a badly numbered table cannot be built:

* `Table.bulkCopy` — append rows, numbering them;
* `innerJoin` — the relational inner join on a pair of keys;
* `groupBy`, `tryGetValue` — the dictionary that a grouped result is put in.

What the last two return is characterised by `filter`s of their input:
`innerJoin_filter_key` (how often a row comes back depends on how often its key
occurs on the other side), `coe_innerJoin_snd` (the same as a multiset) and
`tryGetValue_groupBy`.
-/
import Mathlib.Data.List.Nodup
import Mathlib.Data.Multiset.Bind
import Mathlib.Data.Multiset.Filter
import Mathlib.Algebra.Order.BigOperators.Group.Multiset
import Mathlib.Algebra.Order.Group.Nat

/-- A row: its identity column and the other columns. -/
structure Row (ρ : Type) where
  id : ℕ
  cols : ρ
deriving DecidableEq, Repr

/-- The rows `xs`, numbered from `n` on. -/
def number {ρ : Type} (n : ℕ) : List ρ → List (Row ρ)
  | [] => []
  | x :: xs => ⟨n, x⟩ :: number (n + 1) xs

section Number

variable {ρ : Type}

@[simp] theorem number_nil (n : ℕ) : number n ([] : List ρ) = [] := rfl

@[simp] theorem number_cons (n : ℕ) (x : ρ) (xs : List ρ) :
    number n (x :: xs) = ⟨n, x⟩ :: number (n + 1) xs := rfl

@[simp] theorem map_cols_number (n : ℕ) (xs : List ρ) : (number n xs).map Row.cols = xs := by
  induction xs generalizing n with
  | nil => rfl
  | cons x xs ih => rw [number_cons, List.map_cons, ih]

theorem mem_of_mem_number {n : ℕ} {xs : List ρ} {r : Row ρ} (h : r ∈ number n xs) :
    r.cols ∈ xs := by
  rw [← map_cols_number n xs]
  exact List.mem_map_of_mem h

theorem number_append (n : ℕ) (xs ys : List ρ) :
    number n (xs ++ ys) = number n xs ++ number (n + xs.length) ys := by
  induction xs generalizing n with
  | nil => rfl
  | cons x xs ih =>
    rw [List.cons_append, number_cons, ih, number_cons, List.cons_append, List.length_cons]
    rw [show n + 1 + xs.length = n + (xs.length + 1) by omega]

theorem number_id_bounds {n : ℕ} {xs : List ρ} {r : Row ρ} (h : r ∈ number n xs) :
    n ≤ r.id ∧ r.id < n + xs.length := by
  induction xs generalizing n with
  | nil => simp at h
  | cons x xs ih =>
    rw [List.length_cons]
    rcases List.mem_cons.mp h with rfl | h
    · simp
    · have := ih h
      omega

theorem number_ids_nodup (n : ℕ) (xs : List ρ) : ((number n xs).map Row.id).Nodup := by
  induction xs generalizing n with
  | nil => exact List.nodup_nil
  | cons x xs ih =>
    rw [number_cons, List.map_cons, List.nodup_cons]
    refine ⟨fun hmem => ?_, ih (n + 1)⟩
    obtain ⟨r, hr, hid⟩ := List.mem_map.mp hmem
    have := number_id_bounds hr
    simp only at hid
    omega

theorem map_cols_filter (rows : List (Row ρ)) (p : ρ → Bool) :
    (rows.filter fun r => p r.cols).map Row.cols = (rows.map Row.cols).filter p := by
  rw [List.filter_map]
  rfl

end Number

/-- Where a key is unique, it selects one element. -/
theorem filter_key_eq_singleton {α κ : Type} [DecidableEq κ] {key : α → κ} {xs : List α} {a : α}
    (h : (xs.map key).Nodup) (ha : a ∈ xs) : (xs.filter fun x => decide (key x = key a)) = [a] := by
  induction xs with
  | nil => exact absurd ha List.not_mem_nil
  | cons x xs ih =>
    rw [List.map_cons, List.nodup_cons] at h
    rcases List.mem_cons.mp ha with rfl | ha
    · rw [List.filter_cons_of_pos (by simp), List.filter_eq_nil_iff.mpr]
      intro y hy hkey
      exact h.1 (List.mem_map.mpr ⟨y, hy, of_decide_eq_true hkey⟩)
    · have hne : ¬ key x = key a := fun he => h.1 (he ▸ List.mem_map_of_mem ha)
      rw [List.filter_cons_of_neg (by simpa using hne), ih h.2 ha]

theorem coe_flatten_replicate {α : Type} (m : ℕ) (xs : List α) :
    (((List.replicate m xs).flatten : List α) : Multiset α) = m • (xs : Multiset α) := by
  induction m with
  | zero => simp
  | succ m ih =>
    rw [List.replicate_succ, List.flatten_cons, ← Multiset.coe_add, ih, succ_nsmul, add_comm]

/-- A table with an identity column. -/
@[ext] structure Table (ρ : Type) where
  rows : List (Row ρ)
  /-- what the identity column hands out next -/
  next : ℕ
  nodup : (rows.map Row.id).Nodup
  lt_next : ∀ r ∈ rows, r.id < next

namespace Table

variable {ρ : Type}

/-- A new table; identity columns count from 1. -/
def empty : Table ρ := ⟨[], 1, List.nodup_nil, fun _ h => absurd h List.not_mem_nil⟩

/-- Append the rows `xs`, each under the next id. -/
def bulkCopy (t : Table ρ) (xs : List ρ) : Table ρ where
  rows := t.rows ++ number t.next xs
  next := t.next + xs.length
  nodup := by
    rw [List.map_append, List.nodup_append]
    refine ⟨t.nodup, number_ids_nodup _ _, ?_⟩
    intro i hi j hj
    obtain ⟨r, hr, rfl⟩ := List.mem_map.mp hi
    obtain ⟨q, hq, rfl⟩ := List.mem_map.mp hj
    -- The ids in use are below `next`, the new ones are not.
    exact Nat.ne_of_lt (lt_of_lt_of_le (t.lt_next r hr) (number_id_bounds hq).1)
  lt_next := by
    intro r hr
    rcases List.mem_append.mp hr with h | h
    · exact lt_of_lt_of_le (t.lt_next r h) (Nat.le_add_right _ _)
    · exact (number_id_bounds h).2

/-- A number that the identity column has yet to hand out is no id. -/
theorem not_exists_id {t : Table ρ} {n : ℕ} (h : t.next ≤ n) : ¬ ∃ r ∈ t.rows, r.id = n := by
  rintro ⟨r, hr, rfl⟩
  exact absurd (t.lt_next r hr) (Nat.not_lt.mpr h)

/-- The rows without their ids. -/
def values (t : Table ρ) : List ρ := t.rows.map Row.cols

@[simp] theorem values_empty : (empty : Table ρ).values = [] := rfl

@[simp] theorem rows_bulkCopy (t : Table ρ) (xs : List ρ) :
    (t.bulkCopy xs).rows = t.rows ++ number t.next xs := rfl

@[simp] theorem next_bulkCopy (t : Table ρ) (xs : List ρ) :
    (t.bulkCopy xs).next = t.next + xs.length := rfl

@[simp] theorem values_bulkCopy (t : Table ρ) (xs : List ρ) :
    (t.bulkCopy xs).values = t.values ++ xs := by
  rw [values, rows_bulkCopy, List.map_append, map_cols_number, values]

@[simp] theorem bulkCopy_nil (t : Table ρ) : t.bulkCopy [] = t :=
  Table.ext (List.append_nil _) rfl

theorem bulkCopy_append (t : Table ρ) (xs ys : List ρ) :
    t.bulkCopy (xs ++ ys) = (t.bulkCopy xs).bulkCopy ys := by
  apply Table.ext
  · simp only [rows_bulkCopy, next_bulkCopy, number_append, List.append_assoc]
  · simp only [next_bulkCopy, List.length_append, Nat.add_assoc]

/-- Ids identify rows. -/
theorem eq_of_id_eq (t : Table ρ) {r q : Row ρ} (hr : r ∈ t.rows) (hq : q ∈ t.rows)
    (h : r.id = q.id) : r = q :=
  List.inj_on_of_nodup_map t.nodup hr hq h

/-- Every id occurs at most once. -/
theorem countP_id_le_one (t : Table ρ) (k : ℕ) :
    t.rows.countP (fun q => decide (q.id = k)) ≤ 1 := by
  have h := List.nodup_iff_count_le_one.mp t.nodup k
  rw [List.count, List.countP_map] at h
  refine le_of_eq_of_le (List.countP_congr fun q _ => ?_) h
  simp

theorem countP_id (t : Table ρ) {r : Row ρ} (hr : r ∈ t.rows) :
    t.rows.countP (fun q => decide (q.id = r.id)) = 1 := by
  have hpos : 0 < t.rows.countP fun q => decide (q.id = r.id) :=
    List.countP_pos_iff.mpr ⟨r, hr, decide_eq_true rfl⟩
  have hle := t.countP_id_le_one r.id
  omega

end Table

/-! ### Inner joins -/

section Join

variable {α β κ : Type} [DecidableEq κ]

/-- `join b in inner on outerKey a equals innerKey b`. -/
def innerJoin (outer : List α) (inner : List β) (outerKey : α → κ) (innerKey : β → κ) :
    List (α × β) :=
  outer.flatMap fun a =>
    (inner.filter fun b => decide (innerKey b = outerKey a)).map fun b => (a, b)

@[simp] theorem innerJoin_nil (inner : List β) (f : α → κ) (g : β → κ) :
    innerJoin [] inner f g = [] := rfl

theorem innerJoin_cons (a : α) (outer : List α) (inner : List β) (f : α → κ) (g : β → κ) :
    innerJoin (a :: outer) inner f g
      = ((inner.filter fun b => decide (g b = f a)).map fun b => (a, b))
        ++ innerJoin outer inner f g := rfl

/-- A join pairs rows of the two sides whose keys agree. -/
theorem mem_innerJoin {outer : List α} {inner : List β} {f : α → κ} {g : β → κ} {p : α × β} :
    p ∈ innerJoin outer inner f g ↔ p.1 ∈ outer ∧ p.2 ∈ inner ∧ g p.2 = f p.1 := by
  rw [innerJoin, List.mem_flatMap]
  constructor
  · rintro ⟨a, ha, hp⟩
    obtain ⟨b, hb, rfl⟩ := List.mem_map.mp hp
    obtain ⟨hb, hkey⟩ := List.mem_filter.mp hb
    exact ⟨ha, hb, of_decide_eq_true hkey⟩
  · rintro ⟨ha, hb, hkey⟩
    exact ⟨p.1, ha, List.mem_map.mpr ⟨p.2, List.mem_filter.mpr ⟨hb, decide_eq_true hkey⟩, rfl⟩⟩

theorem mem_of_mem_innerJoin_snd {outer : List α} {inner : List β} {f : α → κ} {g : β → κ} {b : β}
    (h : b ∈ (innerJoin outer inner f g).map Prod.snd) : b ∈ inner := by
  obtain ⟨p, hp, rfl⟩ := List.mem_map.mp h
  exact (mem_innerJoin.mp hp).2.1

theorem mem_of_mem_innerJoin_fst {outer : List α} {inner : List β} {f : α → κ} {g : β → κ} {a : α}
    (h : a ∈ (innerJoin outer inner f g).map Prod.fst) : a ∈ outer := by
  obtain ⟨p, hp, rfl⟩ := List.mem_map.mp h
  exact (mem_innerJoin.mp hp).1

/-- The inner sides of a join, one outer row at a time. -/
theorem innerJoin_cons_snd (a : α) (outer : List α) (inner : List β) (f : α → κ) (g : β → κ) :
    (innerJoin (a :: outer) inner f g).map Prod.snd
      = (inner.filter fun b => decide (g b = f a)) ++ (innerJoin outer inner f g).map Prod.snd := by
  rw [innerJoin_cons, List.map_append, List.map_map]
  exact congrArg (· ++ _) (List.map_id _)

/-- Selecting from the inner side commutes with joining. -/
theorem innerJoin_filter_snd (outer : List α) (inner : List β) (f : α → κ) (g : β → κ)
    (p : β → Bool) :
    ((innerJoin outer inner f g).map Prod.snd).filter p
      = (innerJoin outer (inner.filter p) f g).map Prod.snd := by
  induction outer with
  | nil => rfl
  | cons a outer ih =>
    rw [innerJoin_cons_snd, innerJoin_cons_snd, List.filter_append, ih]
    rw [List.filter_filter, List.filter_filter]
    simp only [Bool.and_comm]

/-- **The rows of one key**: each comes back once for every outer row that has
the key. -/
theorem innerJoin_filter_key (outer : List α) (inner : List β) (f : α → κ) (g : β → κ) (k : κ) :
    ((innerJoin outer inner f g).map Prod.snd).filter (fun b => decide (g b = k))
      = (List.replicate (outer.countP fun a => decide (f a = k))
          (inner.filter fun b => decide (g b = k))).flatten := by
  induction outer with
  | nil => rfl
  | cons a outer ih =>
    rw [innerJoin_cons_snd, List.filter_append, ih, List.countP_cons]
    -- The first outer row adds the rows of `k` once more, or none of them.
    by_cases h : f a = k
    · subst h
      simp only [decide_true, if_true, List.replicate_succ, List.flatten_cons, List.filter_filter,
        Bool.and_self]
    · have hempty : (inner.filter fun b => decide (g b = f a)).filter (fun b => decide (g b = k))
          = [] := by
        rw [List.filter_filter, List.filter_eq_nil_iff]
        intro b _ hb
        simp only [Bool.and_eq_true, decide_eq_true_eq] at hb
        exact h (hb.2.symm.trans hb.1)
      rw [hempty, List.nil_append]
      simp only [h, decide_false, Bool.false_eq_true, if_false, Nat.add_zero]

/-- Selecting pairs by their inner side and keeping the outer one: each outer row
comes back once for every inner row that matches it. -/
theorem innerJoin_filter_fst (outer : List α) (inner : List β) (f : α → κ) (g : β → κ)
    (p : β → Bool) :
    ((innerJoin outer inner f g).filter fun x => p x.2).map Prod.fst
      = outer.flatMap fun a =>
          List.replicate (inner.countP fun b => decide (g b = f a) && p b) a := by
  induction outer with
  | nil => rfl
  | cons a outer ih =>
    rw [innerJoin_cons, List.filter_append, List.map_append, ih, List.flatMap_cons]
    congr 1
    rw [List.filter_map, List.map_map, List.countP_eq_length_filter]
    rw [show (fun x : α × β => p x.2) ∘ (fun b => (a, b)) = p from rfl, List.filter_filter]
    simp only [Bool.and_comm]
    exact List.eq_replicate_iff.mpr ⟨by simp, by simp⟩

/-- Repeating every element as often as its key says. -/
theorem countP_flatMap_replicate (xs : List α) (key : α → κ) (n : κ → ℕ) (k : κ) :
    (xs.flatMap fun a => List.replicate (n (key a)) a).countP (fun a => decide (key a = k))
      = n k * xs.countP fun a => decide (key a = k) := by
  induction xs with
  | nil => simp
  | cons a xs ih =>
    rw [List.flatMap_cons, List.countP_append, ih, List.countP_replicate, List.countP_cons]
    by_cases h : key a = k
    · subst h
      simp only [decide_true, if_true, Nat.mul_add, Nat.mul_one]
      omega
    · simp [h]

/-- The outer rows of one key, as a multiset: each as often as the key occurs on
the inner side. -/
theorem coe_innerJoin_fst_filter_key (outer : List α) (inner : List β) (f : α → κ) (g : β → κ)
    (k : κ) :
    ((((innerJoin outer inner f g).map Prod.fst).filter fun a => decide (f a = k) : List α) :
        Multiset α)
      = (inner.countP fun b => decide (g b = k)) •
          ((outer.filter fun a => decide (f a = k) : List α) : Multiset α) := by
  induction outer with
  | nil => simp
  | cons a outer ih =>
    -- The first outer row comes back once for every inner row with its key.
    have hfst : (((inner.filter fun b => decide (g b = f a)).map fun b => (a, b)).map Prod.fst)
        = List.replicate (inner.countP fun b => decide (g b = f a)) a := by
      rw [List.map_map, List.countP_eq_length_filter]
      exact List.eq_replicate_iff.mpr ⟨by simp, by simp⟩
    rw [innerJoin_cons, List.map_append, hfst, List.filter_append, ← Multiset.coe_add, ih]
    by_cases h : f a = k
    · subst h
      rw [List.filter_cons_of_pos (by simp), ← Multiset.cons_coe, Multiset.nsmul_cons,
        Multiset.nsmul_singleton, List.filter_eq_self.mpr]
      · rfl
      · intro b hb
        rw [List.eq_of_mem_replicate hb]
        exact decide_eq_true rfl
    · rw [List.filter_cons_of_neg (by simpa using h), List.filter_eq_nil_iff.mpr]
      · simp
      · intro b hb
        rw [List.eq_of_mem_replicate hb]
        simpa using h

/-- Taking every element once or not at all is selecting. -/
theorem bind_replicate_ite (s : Multiset β) (p : β → Prop) [DecidablePred p] :
    (s.bind fun b => Multiset.replicate (if p b then 1 else 0) b) = s.filter p := by
  induction s using Multiset.induction with
  | empty => rfl
  | cons b s ih =>
    rw [Multiset.cons_bind, ih]
    by_cases h : p b
    · rw [Multiset.filter_cons_of_pos s h, if_pos h, Multiset.replicate_one,
        Multiset.singleton_add]
    · rw [Multiset.filter_cons_of_neg s h, if_neg h, Multiset.replicate_zero, zero_add]

/-- The inner sides of a join as a multiset: every inner row, as often as its
key occurs among the outer rows. -/
theorem coe_innerJoin_snd (outer : List α) (inner : List β) (f : α → κ) (g : β → κ) :
    (((innerJoin outer inner f g).map Prod.snd : List β) : Multiset β)
      = (inner : Multiset β).bind fun b =>
          Multiset.replicate (outer.countP fun a => decide (f a = g b)) b := by
  induction outer with
  | nil => simp
  | cons a outer ih =>
    rw [innerJoin_cons_snd, ← Multiset.coe_add, ih]
    simp only [List.countP_cons, Multiset.replicate_add, Multiset.bind_add, decide_eq_true_eq]
    rw [bind_replicate_ite, add_comm, ← Multiset.filter_coe]
    simp only [eq_comm]

/-- If every element of one multiset occurs at most as often as its counterpart
in another, the two are equal only if all the counts are. -/
theorem eq_of_bind_replicate_eq {s : Multiset α} {m m' : α → ℕ} {F F' : α → β}
    (hle : ∀ a ∈ s, m a ≤ m' a)
    (h : (s.bind fun a => Multiset.replicate (m a) (F a))
      = s.bind fun a => Multiset.replicate (m' a) (F' a)) : ∀ a ∈ s, m a = m' a := by
  have hsum : (s.map m).sum = (s.map m').sum := by
    have hcard := congrArg Multiset.card h
    rw [Multiset.card_bind, Multiset.card_bind] at hcard
    simpa [Function.comp_def] using hcard
  -- Were one count smaller, so would be the sum.
  intro a ha
  by_contra hne
  have hlt : m a < m' a := lt_of_le_of_ne (hle a ha) hne
  exact absurd hsum (Multiset.sum_lt_sum hle ⟨a, ha, hlt⟩).ne

end Join

/-! ### Grouping into a dictionary -/

section Group

variable {α β γ κ : Type} [DecidableEq κ]

/-- Add one element to the group of its key, at the end if the group is new. -/
def addToGroup (k : κ) (b : β) : List (κ × List β) → List (κ × List β)
  | [] => [(k, [b])]
  | (k', bs) :: gs => if k' = k then (k', bs ++ [b]) :: gs else (k', bs) :: addToGroup k b gs

/-- `xs.GroupBy(key, elem).ToDictionary(_ => _.Key, _ => _.ToList())`. -/
def groupBy (key : α → κ) (elem : α → β) (xs : List α) : List (κ × List β) :=
  xs.foldl (fun gs a => addToGroup (key a) (elem a) gs) []

/-- `dictionary.TryGetValue(k)`. -/
def tryGetValue (d : List (κ × γ)) (k : κ) : Option γ :=
  (d.find? fun e => decide (e.1 = k)).map Prod.snd

theorem tryGetValue_addToGroup (k k' : κ) (b : β) (gs : List (κ × List β)) :
    tryGetValue (addToGroup k b gs) k'
      = if k = k' then some ((tryGetValue gs k).getD [] ++ [b]) else tryGetValue gs k' := by
  induction gs with
  | nil =>
    by_cases h : k = k'
    · simp [addToGroup, tryGetValue, h]
    · simp [addToGroup, tryGetValue, h]
  | cons g gs ih =>
    obtain ⟨l, bs⟩ := g
    simp only [tryGetValue] at ih ⊢
    rw [addToGroup]
    -- Whether the first group is that of `k`, and whether it is the one asked for.
    by_cases hl : l = k
    · subst hl
      by_cases h : l = k'
      · simp [h]
      · simp [h]
    · rw [if_neg hl]
      by_cases h : l = k'
      · subst h
        simp [Ne.symm hl]
      · simp [h, hl, ih]

/-- **What a dictionary of groups holds under a key**: the elements with that
key, in order. -/
theorem tryGetValue_groupBy (key : α → κ) (elem : α → β) (xs : List α) (k : κ) :
    (tryGetValue (groupBy key elem xs) k).getD []
      = (xs.filter fun a => decide (key a = k)).map elem := by
  induction xs using List.reverseRecOn with
  | nil => rfl
  | append_singleton xs a ih =>
    rw [groupBy, List.foldl_append, List.foldl_cons, List.foldl_nil, ← groupBy]
    rw [tryGetValue_addToGroup, List.filter_append, List.map_append]
    by_cases h : key a = k
    · subst h
      rw [if_pos rfl, Option.getD_some, ih]
      simp
    · rw [if_neg h, ih]
      simp [h]

theorem tryGetValue_map (f : β → γ) (d : List (κ × β)) (k : κ) :
    tryGetValue (d.map fun e => (e.1, f e.2)) k = (tryGetValue d k).map f := by
  rw [tryGetValue, tryGetValue, List.find?_map, Option.map_map, Option.map_map]
  rfl

end Group
