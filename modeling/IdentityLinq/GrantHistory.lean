/-
The persisted grants as a function of their history.

Under every key the table holds what the most recent `StoreAsync` stored, except
that the row keeps the `ClientId` of the `StoreAsync` that created it
(`get_runGrants_eq_some`).  From this:

* `grantsRefine` — which keys have a row after a run, what is in it, and what the
  two read methods return;
* `removeAllAsync_exact` — which grants `RemoveAllAsync` revokes.
-/
import IdentityLinq.PersistedGrantStore

namespace IdentityLinq

/-! ### What the calls said -/

/-- The grant of the most recent `StoreAsync` for the key. -/
def lastStore (k : String) (ops : List GrantOp) : Option PersistedGrant :=
  (ops.filterMap (GrantOp.stores k)).getLast?

/-- The grants whose `StoreAsync` found no row under the key, in a run from `db`. -/
def creations (k : String) (db : GrantDb) : List GrantOp → List PersistedGrant
  | [] => []
  | op :: ops =>
    (if (db.get k).isNone then (op.stores k).toList else []) ++ creations k (op.run db) ops

/-- The grant of the `StoreAsync` that created the row of the key. -/
def creator (k : String) (ops : List GrantOp) : Option PersistedGrant :=
  (creations k KeyedTable.empty ops).getLast?

theorem stores_eq_some_iff {k : String} {op : GrantOp} {token : PersistedGrant} :
    op.stores k = some token ↔ op = .store token ∧ token.key = k := by
  constructor
  · intro h
    cases op with
    | store token' =>
      rw [GrantOp.stores] at h
      split at h
      · next hk =>
        obtain rfl := Option.some.inj h
        exact ⟨rfl, hk⟩
      · simp at h
    | remove | removeAll | removeAllOfType | clearTokens =>
      simp [GrantOp.stores] at h
  · rintro ⟨rfl, hk⟩
    exact if_pos hk

theorem lastStore_concat_some {k : String} {ops : List GrantOp} {op : GrantOp}
    {token : PersistedGrant} (h : op.stores k = some token) :
    lastStore k (ops ++ [op]) = some token := by
  simp [lastStore, h]

theorem lastStore_concat_none {k : String} {ops : List GrantOp} {op : GrantOp}
    (h : op.stores k = none) : lastStore k (ops ++ [op]) = lastStore k ops := by
  simp [lastStore, h]

theorem creations_concat (k : String) (op : GrantOp) (ops : List GrantOp) (db : GrantDb) :
    creations k db (ops ++ [op]) = creations k db ops ++
      if ((ops.foldl GrantOp.run db).get k).isNone then (op.stores k).toList else [] := by
  induction ops generalizing db with
  | nil => simp [creations]
  | cons op' ops ih => rw [List.cons_append, creations, creations, ih, List.append_assoc]; rfl

theorem creator_concat_created {k : String} {ops : List GrantOp} {op : GrantOp}
    {token : PersistedGrant} (hnone : (runGrants ops).get k = none)
    (h : op.stores k = some token) : creator k (ops ++ [op]) = some token := by
  rw [creator, creations_concat, ← runGrants, hnone, h]
  simp

theorem creator_concat_kept {k : String} {ops : List GrantOp} {op : GrantOp}
    (h : (runGrants ops).get k ≠ none ∨ op.stores k = none) :
    creator k (ops ++ [op]) = creator k ops := by
  rw [creator, creator, creations_concat, ← runGrants]
  rcases h with h | h
  · simp [Option.isNone_iff_eq_none, h]
  · simp [h]

/-- **What is in a row**: the grant stored last, with the `ClientId` of the grant
that created the row. -/
theorem get_runGrants_eq_some {ops : List GrantOp} {k : String} {row : PersistedGrant}
    (h : (runGrants ops).get k = some row) :
    ∃ latest first, lastStore k ops = some latest ∧ creator k ops = some first ∧
      row = { latest with clientId := first.clientId } := by
  induction ops using List.reverseRecOn generalizing row with
  | nil => exact nomatch h
  | append_singleton ops op ih =>
    rw [runGrants_concat, op.get_run] at h
    cases hop : op.stores k with
    | some token =>
      rw [cell_of_stores hop, Option.some.injEq] at h
      cases hget : (runGrants ops).get k with
      | none =>
        -- `op` creates the row.
        rw [hget] at h
        exact ⟨token, token, lastStore_concat_some hop, creator_concat_created hget hop, h.symm⟩
      | some old =>
        -- `op` updates the row, which keeps its client.
        obtain ⟨latest, first, -, hfirst, hold⟩ := ih hget
        refine ⟨token, first, lastStore_concat_some hop, ?_, ?_⟩
        · rw [creator_concat_kept (.inl (by simp [hget])), hfirst]
        · have hkey : old.key = token.key := by
            rw [((runGrants ops).get_eq_some_iff.mp hget).2, (stores_eq_some_iff.mp hop).2]
          have hrow : row = updateColumns token old := by rw [← h, hget]; rfl
          rw [hrow, updateColumns_eq, hkey, hold]
    | none =>
      rw [cell_of_not_stores hop, Option.filter_eq_some_iff] at h
      rw [lastStore_concat_none hop, creator_concat_kept (.inr hop)]
      exact ih h.1

/-- What a `StoreAsync` leaves under its key. -/
theorem writeGrant_eq {k : String} {op : GrantOp} {token : PersistedGrant} (ops : List GrantOp)
    (h : op.stores k = some token) : ∃ first, creator k (ops ++ [op]) = some first ∧
      writeGrant token ((runGrants ops).get k) = { token with clientId := first.clientId } := by
  have hget : (runGrants (ops ++ [op])).get k
      = some (writeGrant token ((runGrants ops).get k)) := by
    rw [runGrants_concat, op.get_run, cell_of_stores h]
  obtain ⟨latest, first, hlatest, hfirst, hrow⟩ := get_runGrants_eq_some hget
  rw [lastStore_concat_some h] at hlatest
  obtain rfl := Option.some.inj hlatest
  exact ⟨first, hfirst, hrow⟩

theorem exists_creator {ops : List GrantOp} {k : String} {latest : PersistedGrant}
    (h : lastStore k ops = some latest) : ∃ first, creator k ops = some first := by
  induction ops using List.reverseRecOn generalizing latest with
  | nil => exact nomatch h
  | append_singleton ops op ih =>
    cases hop : op.stores k with
    | some token =>
      obtain ⟨first, hfirst, -⟩ := writeGrant_eq ops hop
      exact ⟨first, hfirst⟩
    | none =>
      rw [lastStore_concat_none hop] at h
      rw [creator_concat_kept (.inr hop)]
      exact ih h

/-- **Which row a key has**: of the grant stored last, unless something deleted it
since. -/
theorem get_runGrants_eq_some_iff {ops : List GrantOp} {k : String} {row : PersistedGrant} :
    (runGrants ops).get k = some row ↔
      ∃ pre token post first, ops = pre ++ .store token :: post ∧ token.key = k ∧
        creator k (pre ++ [.store token]) = some first ∧
        row = { token with clientId := first.clientId } ∧
        ∀ op ∈ post, op.stores k = none ∧ op.deletes row = false := by
  rw [get_runGrants, foldl_cell_eq_some_iff]
  constructor
  · rintro ⟨pre, op, post, token, rfl, hop, hwrite, hpost⟩
    obtain ⟨first, hfirst, hwritten⟩ := writeGrant_eq pre hop
    rw [← get_runGrants, hwritten] at hwrite
    obtain ⟨rfl, hk⟩ := stores_eq_some_iff.mp hop
    exact ⟨pre, token, post, first, rfl, hk, hfirst, hwrite, hpost⟩
  · rintro ⟨pre, token, post, first, rfl, hk, hfirst, hrow, hpost⟩
    have hop : (GrantOp.store token).stores k = some token := stores_eq_some_iff.mpr ⟨rfl, hk⟩
    obtain ⟨first', hfirst', hwritten⟩ := writeGrant_eq pre hop
    obtain rfl := Option.some.inj (hfirst.symm.trans hfirst')
    exact ⟨pre, _, post, token, rfl, hop, by rw [← get_runGrants, hwritten, hrow], hpost⟩

/-! ### Refinement -/

/-- The table after the calls, as the read methods show it, is what the calls
said. -/
structure GrantsRefine (ops : List GrantOp) : Prop where
  oneRowPerKey : ((runGrants ops).rows.map (·.key)).Nodup
  /-- a key has a row if it was stored and nothing has deleted what was stored last -/
  present_iff : ∀ k, (∃ row, ((getAsync k).run (runGrants ops)).1 = .ok (some row)) ↔
    ∃ pre token post first, ops = pre ++ .store token :: post ∧ token.key = k ∧
      creator k (pre ++ [.store token]) = some first ∧
      ∀ op ∈ post, op.stores k = none ∧
        op.deletes { token with clientId := first.clientId } = false
  content : ∀ k row, ((getAsync k).run (runGrants ops)).1 = .ok (some row) →
    ∃ latest first, lastStore k ops = some latest ∧ creator k ops = some first ∧
      row = { latest with clientId := first.clientId }
  /-- all the rows of a subject, each once -/
  all : ∀ subjectId, ∃ rows, ((getAllAsync subjectId).run (runGrants ops)).1 = .ok rows ∧
    rows.Nodup ∧ ∀ row, row ∈ rows ↔
      ((getAsync row.key).run (runGrants ops)).1 = .ok (some row) ∧ row.subjectId = subjectId

/-- **The table refines its history.** -/
theorem grantsRefine (ops : List GrantOp) : GrantsRefine ops where
  oneRowPerKey := (runGrants ops).nodup
  present_iff := by
    intro k
    simp only [run_getAsync, Except.ok.injEq, get_runGrants_eq_some_iff]
    constructor
    · rintro ⟨row, pre, token, post, first, hops, hk, hfirst, rfl, hpost⟩
      exact ⟨pre, token, post, first, hops, hk, hfirst, hpost⟩
    · rintro ⟨pre, token, post, first, hops, hk, hfirst, hpost⟩
      exact ⟨_, pre, token, post, first, hops, hk, hfirst, rfl, hpost⟩
  content := by
    intro k row h
    exact get_runGrants_eq_some (Except.ok.inj h)
  all := by
    intro subjectId
    refine ⟨_, by rw [run_getAllAsync], ?_, fun row => ?_⟩
    · exact (List.Nodup.of_map _ (runGrants ops).nodup).filter _
    · simp only [run_getAsync, Except.ok.injEq, KeyedTable.get_eq_some_iff, and_true,
        List.mem_filter, decide_eq_true_eq]

/-! ### Revocation -/

/-- The overload of `RemoveAllAsync` without a type, or the one with it. -/
def revoke (subjectId : Option String) (clientId : String) : Option String → GrantOp
  | none => .removeAll subjectId clientId
  | some type => .removeAllOfType subjectId clientId type

/-- A grant stored last as `latest`, in a row created for `first`, is one that
`RemoveAllAsync` is to revoke. -/
def Revoked (subjectId : Option String) (clientId : String) (type : Option String)
    (latest first : PersistedGrant) : Prop :=
  latest.subjectId = subjectId ∧ first.clientId = clientId ∧ ∀ t ∈ type, latest.type = t

/-- Neither of the read methods returns a grant with the key. -/
def Gone (db : GrantDb) (k : String) : Prop :=
  ((getAsync k).run db).1 = .ok none ∧
    ∀ subjectId rows, ((getAllAsync subjectId).run db).1 = .ok rows → ∀ row ∈ rows, row.key ≠ k

/-- Both read methods return the row. -/
def Returned (db : GrantDb) (row : PersistedGrant) : Prop :=
  ((getAsync row.key).run db).1 = .ok (some row) ∧
    ∃ rows, ((getAllAsync row.subjectId).run db).1 = .ok rows ∧ row ∈ rows

theorem gone_of_get_eq_none {db : GrantDb} {k : String} (h : db.get k = none) : Gone db k := by
  refine ⟨by rw [run_getAsync, h], fun subjectId rows hrows row hrow => ?_⟩
  rw [run_getAllAsync] at hrows
  obtain rfl := Except.ok.inj hrows
  exact db.get_eq_none_iff.mp h row (List.mem_of_mem_filter hrow)

theorem returned_of_get_eq_some {db : GrantDb} {k : String} {row : PersistedGrant}
    (h : db.get k = some row) : Returned db row := by
  obtain ⟨hmem, rfl⟩ := db.get_eq_some_iff.mp h
  refine ⟨by rw [run_getAsync, h], _, by rw [run_getAllAsync], ?_⟩
  exact List.mem_filter.mpr ⟨hmem, decide_eq_true rfl⟩

/-- The statement deletes by the row, which has the client of its creation. -/
theorem deletes_revoke_iff {subjectId : Option String} {clientId : String} {type : Option String}
    {latest first : PersistedGrant} :
    (revoke subjectId clientId type).deletes { latest with clientId := first.clientId } = true ↔
      Revoked subjectId clientId type latest first := by
  cases type with
  | none => simp [revoke, GrantOp.deletes, Revoked]
  | some type => simp [revoke, GrantOp.deletes, Revoked, and_assoc]

theorem get_revoke (ops : List GrantOp) (subjectId : Option String) (clientId : String)
    (type : Option String) (k : String) :
    (runGrants (ops ++ [revoke subjectId clientId type])).get k
      = ((runGrants ops).get k).filter fun row =>
          !(revoke subjectId clientId type).deletes row := by
  rw [runGrants_concat, GrantOp.get_run, cell_of_not_stores]
  cases type <;> rfl

/-- **What `RemoveAllAsync` revokes**: exactly the grants stored last with its
subject (and type) in a row created with its client. -/
theorem removeAllAsync_exact {ops : List GrantOp} {k : String} {latest : PersistedGrant}
    (hlatest : lastStore k ops = some latest) (subjectId : Option String) (clientId : String)
    (type : Option String) :
    ∃ first, creator k ops = some first ∧
      (Revoked subjectId clientId type latest first →
        Gone (runGrants (ops ++ [revoke subjectId clientId type])) k) ∧
      (¬ Revoked subjectId clientId type latest first → ∀ row,
        ((getAsync k).run (runGrants ops)).1 = .ok (some row) →
        Returned (runGrants (ops ++ [revoke subjectId clientId type])) row) := by
  obtain ⟨first, hfirst⟩ := exists_creator hlatest
  have hrow : ∀ row, (runGrants ops).get k = some row →
      row = { latest with clientId := first.clientId } := by
    intro row h
    obtain ⟨latest', first', hlatest', hfirst', hrow⟩ := get_runGrants_eq_some h
    rw [hlatest] at hlatest'
    rw [hfirst] at hfirst'
    rw [hrow, Option.some.inj hlatest', Option.some.inj hfirst']
  refine ⟨first, hfirst, fun hrevoked => ?_, fun hrevoked row h => ?_⟩
  · refine gone_of_get_eq_none ?_
    rw [get_revoke, Option.filter_eq_none_iff]
    intro row h
    rw [hrow row h, deletes_revoke_iff.mpr hrevoked]
    decide
  · replace h : (runGrants ops).get k = some row := Except.ok.inj h
    refine returned_of_get_eq_some (k := k) ?_
    rw [get_revoke, Option.filter_eq_some_iff]
    refine ⟨h, ?_⟩
    rw [hrow row h, Bool.not_eq_true', Bool.eq_false_iff]
    exact fun hdeletes => hrevoked (deletes_revoke_iff.mp hdeletes)

/-- A grant of one user for a client. -/
def plainGrant (clientId : String) : PersistedGrant where
  key := "key"
  type := "refresh_token"
  subjectId := some "alice"
  clientId := clientId
  creationTime := 0
  expiration := none
  data := ""

/-- Stored again for another client, the grant is revoked by the client it was stored for
first. -/
theorem gone_plainGrant :
    Gone (runGrants ([.store (plainGrant "app"), .store (plainGrant "web")] ++
      [revoke (some "alice") "app" none])) "key" := by
  have hlatest : lastStore "key" [.store (plainGrant "app"), .store (plainGrant "web")]
      = some (plainGrant "web") := by decide
  obtain ⟨first, hfirst, hgone, -⟩ := removeAllAsync_exact hlatest (some "alice") "app" none
  obtain rfl : first = plainGrant "app" := Option.some.inj (hfirst.symm.trans (by decide))
  exact hgone ⟨rfl, rfl, fun _ h => nomatch h⟩

/-- And not by the client it was stored for last. -/
theorem not_gone_plainGrant_restored :
    lastStore "key" [.store (plainGrant "app"), .store (plainGrant "web")]
        = some (plainGrant "web") ∧
      ¬ Gone (runGrants ([.store (plainGrant "app"), .store (plainGrant "web")] ++
        [revoke (some "alice") "web" none])) "key" := by
  refine ⟨by decide, fun h => ?_⟩
  exact absurd h.1 (by decide)

end IdentityLinq
