/-
Tables with a primary key, and what a history leaves under one key.

A `KeyedTable key` holds rows with different keys; the structure carries that
they differ.  Its operations are

* `get` — the row of a key;
* `insertOrReplace` — insert a row, or update the row that has its key;
* `deleteWhere` — delete the rows that match.

By `get_insertOrReplace` and `get_deleteWhere` the row of one key develops by
itself, as a *cell*: some operations store into it, the others may delete what is
there (`cell`).  `foldl_cell_eq_some_iff` says what a history leaves in a cell:
what the last store wrote, if nothing deleted it since.
-/
import Mathlib.Data.List.Induction
import Mathlib.Data.List.Nodup

/-- Rows with different keys. -/
structure KeyedTable {ρ κ : Type} (key : ρ → κ) where
  rows : List ρ
  nodup : (rows.map key).Nodup

namespace KeyedTable

variable {ρ κ : Type} {key : ρ → κ}

def empty : KeyedTable key := ⟨[], List.nodup_nil⟩

/-- `Where(p).Delete()`. -/
def deleteWhere (t : KeyedTable key) (p : ρ → Bool) : KeyedTable key where
  rows := t.rows.filter fun r => !p r
  nodup := t.nodup.sublist (List.filter_sublist.map key)

variable [DecidableEq κ]

/-- `FirstOrDefault(r => key r == k)`. -/
def get (t : KeyedTable key) (k : κ) : Option ρ := t.rows.find? fun r => decide (key r = k)

theorem get_eq_some_iff (t : KeyedTable key) {k : κ} {r : ρ} :
    t.get k = some r ↔ r ∈ t.rows ∧ key r = k := by
  constructor
  · intro h
    exact ⟨List.mem_of_find?_eq_some h, by simpa using List.find?_some h⟩
  · rintro ⟨hr, rfl⟩
    cases hget : t.get (key r) with
    | none =>
      have hne := List.find?_eq_none.mp hget r hr
      simp at hne
    | some q =>
      have hkey : key q = key r := by simpa using List.find?_some hget
      exact congrArg some
        (List.inj_on_of_nodup_map t.nodup (List.mem_of_find?_eq_some hget) hr hkey)

theorem get_eq_none_iff (t : KeyedTable key) {k : κ} :
    t.get k = none ↔ ∀ r ∈ t.rows, key r ≠ k := by
  rw [get, List.find?_eq_none]
  simp

/-- Insert `x`, or update the row that has its key. -/
def insertOrReplace (update : ρ → ρ → ρ) (hupdate : ∀ x r, key (update x r) = key r) (x : ρ)
    (t : KeyedTable key) : KeyedTable key :=
  if h : t.get (key x) = none then
    { rows := t.rows ++ [x]
      nodup := by
        rw [List.map_append, List.nodup_append]
        refine ⟨t.nodup, List.nodup_singleton _, ?_⟩
        intro k hk k' hk'
        obtain ⟨r, hr, rfl⟩ := List.mem_map.mp hk
        rw [List.mem_singleton.mp hk']
        exact t.get_eq_none_iff.mp h r hr }
  else
    { rows := t.rows.map fun r => if key r = key x then update x r else r
      nodup := by
        have hkeys : (t.rows.map fun r => if key r = key x then update x r else r).map key
            = t.rows.map key := by
          rw [List.map_map]
          refine List.map_congr_left fun r _ => ?_
          rw [Function.comp_apply]
          split
          · exact hupdate x r
          · rfl
        rw [hkeys]
        exact t.nodup }

/-- What the statement leaves under the key of `x`. -/
def written (update : ρ → ρ → ρ) (x : ρ) : Option ρ → ρ
  | none => x
  | some r => update x r

/-- **One key at a time**: only the row under the key of `x` changes. -/
theorem get_insertOrReplace {update : ρ → ρ → ρ} (hupdate : ∀ x r, key (update x r) = key r)
    (x : ρ) (t : KeyedTable key) (k : κ) :
    (t.insertOrReplace update hupdate x).get k
      = if key x = k then some (written update x (t.get k)) else t.get k := by
  split
  · next hk =>
    -- Under the key of `x`: the new row, or the updated one.
    subst hk
    rw [get_eq_some_iff, insertOrReplace]
    split
    · next hnone =>
      rw [hnone]
      exact ⟨List.mem_append_right _ List.mem_cons_self, rfl⟩
    · next hsome =>
      obtain ⟨r, hr⟩ := Option.ne_none_iff_exists'.mp hsome
      obtain ⟨hmem, hkey⟩ := t.get_eq_some_iff.mp hr
      rw [hr, written, hupdate]
      exact ⟨List.mem_map.mpr ⟨r, hmem, if_pos hkey⟩, hkey⟩
  · next hk =>
    -- Under any other key the rows are the same before and after.
    refine Option.ext fun r => ?_
    rw [get_eq_some_iff, get_eq_some_iff, insertOrReplace]
    split
    · simp only [List.mem_append, List.mem_singleton]
      constructor
      · rintro ⟨hr | rfl, hkey⟩
        · exact ⟨hr, hkey⟩
        · exact absurd hkey hk
      · exact fun ⟨hr, hkey⟩ => ⟨.inl hr, hkey⟩
    · simp only [List.mem_map]
      constructor
      · rintro ⟨⟨q, hq, rfl⟩, hkey⟩
        split at hkey
        · next hq' => exact absurd (hq'.symm.trans ((hupdate x q).symm.trans hkey)) hk
        · next hq' => rw [if_neg hq']; exact ⟨hq, hkey⟩
      · rintro ⟨hr, rfl⟩
        exact ⟨⟨r, hr, if_neg fun he => hk he.symm⟩, rfl⟩

theorem get_deleteWhere (t : KeyedTable key) (p : ρ → Bool) (k : κ) :
    (t.deleteWhere p).get k = (t.get k).filter fun r => !p r := by
  refine Option.ext fun r => ?_
  rw [get_eq_some_iff, Option.filter_eq_some_iff, get_eq_some_iff, deleteWhere, List.mem_filter]
  constructor
  · exact fun ⟨⟨hr, hp⟩, hk⟩ => ⟨⟨hr, hk⟩, hp⟩
  · exact fun ⟨⟨hr, hk⟩, hp⟩ => ⟨⟨hr, hp⟩, hk⟩

end KeyedTable

/-! ### Cells -/

section Cell

variable {Op γ ρ : Type} (stores : Op → Option γ) (write : γ → Option ρ → ρ)
  (deletes : Op → ρ → Bool)

/-- One operation on a cell: it stores a `γ` there or may delete what is there. -/
def cell (v : Option ρ) (op : Op) : Option ρ :=
  match stores op with
  | some g => some (write g v)
  | none => v.filter fun r => !deletes op r

variable {stores write deletes}

theorem cell_of_stores {op : Op} {g : γ} (h : stores op = some g) (v : Option ρ) :
    cell stores write deletes v op = some (write g v) := by rw [cell, h]

theorem cell_of_not_stores {op : Op} (h : stores op = none) (v : Option ρ) :
    cell stores write deletes v op = v.filter fun r => !deletes op r := by rw [cell, h]

/-- **What a history leaves in a cell**: what the last store wrote, if nothing
deleted it since. -/
theorem foldl_cell_eq_some_iff (h : List Op) (r : ρ) :
    h.foldl (cell stores write deletes) none = some r ↔
      ∃ pre op post g, h = pre ++ op :: post ∧ stores op = some g ∧
        r = write g (pre.foldl (cell stores write deletes) none) ∧
        ∀ op' ∈ post, stores op' = none ∧ deletes op' r = false := by
  induction h using List.reverseRecOn with
  | nil =>
    constructor
    · intro h
      exact nomatch h
    · rintro ⟨pre, op, post, g, h, -⟩
      simp at h
  | append_singleton h op ih =>
    rw [List.foldl_append, List.foldl_cons, List.foldl_nil]
    constructor
    · intro hcell
      cases hop : stores op with
      | some g =>
        rw [cell_of_stores hop, Option.some.injEq] at hcell
        exact ⟨h, op, [], g, rfl, hop, hcell.symm, fun _ hmem => absurd hmem List.not_mem_nil⟩
      | none =>
        rw [cell_of_not_stores hop, Option.filter_eq_some_iff] at hcell
        -- What is there was there before, and `op` did not delete it.
        obtain ⟨pre, op', post, g, rfl, hop', hr, hpost⟩ := ih.mp hcell.1
        refine ⟨pre, op', post ++ [op], g, by simp, hop', hr, fun op'' hmem => ?_⟩
        rcases List.mem_append.mp hmem with hmem | hmem
        · exact hpost op'' hmem
        · rw [List.mem_singleton.mp hmem]
          exact ⟨hop, by simpa using hcell.2⟩
    · rintro ⟨pre, op', post, g, heq, hop', hr, hpost⟩
      -- The last operation of the history is the store itself, or comes after it.
      rcases List.eq_nil_or_concat post with rfl | ⟨post, op'', rfl⟩
      · obtain ⟨rfl, hlast⟩ := List.append_inj' heq rfl
        obtain rfl : op = op' := (List.cons.inj hlast).1
        rw [cell_of_stores hop', hr]
      · rw [List.concat_eq_append, ← List.cons_append, ← List.append_assoc] at heq
        obtain ⟨rfl, hlast⟩ := List.append_inj' heq rfl
        obtain rfl : op = op'' := (List.cons.inj hlast).1
        have hop := hpost op (by simp)
        rw [cell_of_not_stores hop.1, Option.filter_eq_some_iff]
        refine ⟨ih.mpr ⟨pre, op', post, g, rfl, hop', hr, fun q hq => hpost q (by simp [hq])⟩, ?_⟩
        rw [hop.2]
        rfl

end Cell
