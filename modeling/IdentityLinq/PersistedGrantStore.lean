/-
`PersistedGrantStore` and the table it shares with the token cleanup.

`ApplyDefaultEntitiesMappings` makes `Key` the primary key of `PersistedGrant` and
marks `ClientId` to be skipped on updates; `InsertOrReplace` follows these flags.
Every method issues one statement, so callers that run side by side are a list
of calls (`GrantOp`).

* `get_run` — what one call does to the row of one key;
* `get_runGrants` — hence what a run does: the row of a key is a cell.
-/
import IdentityLinq.Entities
import IdentityLinq.Keyed

namespace IdentityLinq

/-- `IdentityServer4.Models.PersistedGrant`.  Grants that no user stands behind
have a null `SubjectId`. -/
structure PersistedGrant where
  key : String
  type : String
  subjectId : Option String
  clientId : String
  creationTime : DateTime
  expiration : Option DateTime
  data : String
deriving DecidableEq, Repr

/-! ### The mapping -/

/-- A mapped property of `PersistedGrant`: how a statement copies it, and the flags
the mapping sets on it. -/
structure GrantColumn where
  /-- the row with this column taken from the grant -/
  copy : PersistedGrant → PersistedGrant → PersistedGrant
  isPrimaryKey : Bool
  hasSkipOnUpdate : Bool

/-- `ApplyDefaultEntitiesMappings`. -/
def applyDefaultEntitiesMappings : List GrantColumn :=
  [{ copy := fun token row => { row with key := token.key }
     isPrimaryKey := true, hasSkipOnUpdate := false },
   { copy := fun token row => { row with clientId := token.clientId }
     isPrimaryKey := false, hasSkipOnUpdate := true },
   { copy := fun token row => { row with creationTime := token.creationTime }
     isPrimaryKey := false, hasSkipOnUpdate := false },
   { copy := fun token row => { row with data := token.data }
     isPrimaryKey := false, hasSkipOnUpdate := false },
   { copy := fun token row => { row with expiration := token.expiration }
     isPrimaryKey := false, hasSkipOnUpdate := false },
   { copy := fun token row => { row with subjectId := token.subjectId }
     isPrimaryKey := false, hasSkipOnUpdate := false },
   { copy := fun token row => { row with type := token.type }
     isPrimaryKey := false, hasSkipOnUpdate := false }]

/-- The update half of `InsertOrReplace`: every column but the primary key and the
skipped ones is taken from the grant. -/
def updateColumns (token row : PersistedGrant) : PersistedGrant :=
  (applyDefaultEntitiesMappings.filter fun c => !c.isPrimaryKey && !c.hasSkipOnUpdate).foldl
    (fun row c => c.copy token row) row

/-- All but the key and the client is replaced. -/
theorem updateColumns_eq (token row : PersistedGrant) :
    updateColumns token row = { token with key := row.key, clientId := row.clientId } := rfl

theorem key_updateColumns (token row : PersistedGrant) :
    (updateColumns token row).key = row.key := rfl

/-! ### The code -/

/-- The operational database: the table `PersistedGrant`. -/
abbrev GrantDb : Type := KeyedTable PersistedGrant.key

/-- `StoreAsync(token)`. -/
def storeAsync (token : PersistedGrant) : Program GrantDb Error Unit :=
  Program.update (KeyedTable.insertOrReplace updateColumns key_updateColumns token)

/-- `GetAsync(key)`. -/
def getAsync (key : String) : Program GrantDb Error (Option PersistedGrant) :=
  Program.query (·.get key)

/-- `GetAllAsync(subjectId)`. -/
def getAllAsync (subjectId : Option String) : Program GrantDb Error (List PersistedGrant) :=
  Program.query fun db => db.rows.filter fun x => decide (x.subjectId = subjectId)

/-- `RemoveAsync(key)`. -/
def removeAsync (key : String) : Program GrantDb Error Unit :=
  Program.update (·.deleteWhere fun x => decide (x.key = key))

/-- `RemoveAllAsync(subjectId, clientId)`. -/
def removeAllAsync (subjectId : Option String) (clientId : String) : Program GrantDb Error Unit :=
  Program.update (·.deleteWhere fun x =>
    decide (x.subjectId = subjectId) && decide (x.clientId = clientId))

/-- `RemoveAllAsync(subjectId, clientId, type)`. -/
def removeAllOfTypeAsync (subjectId : Option String) (clientId type : String) :
    Program GrantDb Error Unit :=
  Program.update (·.deleteWhere fun x =>
    decide (x.subjectId = subjectId) && decide (x.clientId = clientId) && decide (x.type = type))

/-- The statement of `TokenCleanup.ClearTokens` at the time `now`; a null
`Expiration` is not less than anything. -/
def clearTokens (now : DateTime) : Program GrantDb Error Unit :=
  Program.update (·.deleteWhere fun x => match x.expiration with
    | some expiration => decide (expiration < now)
    | none => false)

/-! ### Runs -/

/-- A call that changes the table. -/
inductive GrantOp where
  | store (token : PersistedGrant)
  | remove (key : String)
  | removeAll (subjectId : Option String) (clientId : String)
  | removeAllOfType (subjectId : Option String) (clientId type : String)
  | clearTokens (now : DateTime)
deriving DecidableEq, Repr

/-- The table after the call. -/
def GrantOp.run (db : GrantDb) : GrantOp → GrantDb
  | store token => ((storeAsync token).run db).2
  | remove key => ((removeAsync key).run db).2
  | removeAll subjectId clientId => ((removeAllAsync subjectId clientId).run db).2
  | removeAllOfType subjectId clientId type =>
    ((removeAllOfTypeAsync subjectId clientId type).run db).2
  | clearTokens now => ((IdentityLinq.clearTokens now).run db).2

/-- The table after a run of calls, from an empty table. -/
def runGrants (ops : List GrantOp) : GrantDb := ops.foldl GrantOp.run KeyedTable.empty

/-- The grant the call stores under the key `k`. -/
def GrantOp.stores (k : String) : GrantOp → Option PersistedGrant
  | store token => if token.key = k then some token else none
  | _ => none

/-- The call deletes the row. -/
def GrantOp.deletes : GrantOp → PersistedGrant → Bool
  | store _, _ => false
  | remove key, x => decide (x.key = key)
  | removeAll subjectId clientId, x =>
    decide (x.subjectId = subjectId) && decide (x.clientId = clientId)
  | removeAllOfType subjectId clientId type, x =>
    decide (x.subjectId = subjectId) && decide (x.clientId = clientId) && decide (x.type = type)
  | clearTokens now, x => match x.expiration with
    | some expiration => decide (expiration < now)
    | none => false

/-- What `StoreAsync` leaves where it finds `row`. -/
abbrev writeGrant (token : PersistedGrant) (row : Option PersistedGrant) : PersistedGrant :=
  KeyedTable.written updateColumns token row

/-- One call, seen from one key. -/
theorem GrantOp.get_run (op : GrantOp) (db : GrantDb) (k : String) :
    (op.run db).get k = cell (GrantOp.stores k) writeGrant GrantOp.deletes (db.get k) op := by
  cases op with
  | store token =>
    rw [cell, GrantOp.stores]
    refine (KeyedTable.get_insertOrReplace key_updateColumns token db k).trans ?_
    split
    · rfl
    · cases db.get k <;> rfl
  | remove key => exact KeyedTable.get_deleteWhere db _ k
  | removeAll subjectId clientId => exact KeyedTable.get_deleteWhere db _ k
  | removeAllOfType subjectId clientId type => exact KeyedTable.get_deleteWhere db _ k
  | clearTokens now => exact KeyedTable.get_deleteWhere db _ k

/-- **The row of a key over a run** develops as a cell. -/
theorem get_runGrants (ops : List GrantOp) (k : String) :
    (runGrants ops).get k
      = ops.foldl (cell (GrantOp.stores k) writeGrant GrantOp.deletes) none := by
  induction ops using List.reverseRecOn with
  | nil => rfl
  | append_singleton ops op ih =>
    rw [runGrants, List.foldl_append, List.foldl_append, List.foldl_cons, List.foldl_nil,
      ← runGrants, op.get_run, ih]
    rfl

theorem runGrants_concat (ops : List GrantOp) (op : GrantOp) :
    runGrants (ops ++ [op]) = op.run (runGrants ops) := by
  rw [runGrants, List.foldl_append]
  rfl

@[simp] theorem run_getAsync (k : String) (db : GrantDb) :
    (getAsync k).run db = (.ok (db.get k), db) := rfl

@[simp] theorem run_getAllAsync (subjectId : Option String) (db : GrantDb) :
    (getAllAsync subjectId).run db
      = (.ok (db.rows.filter fun x => decide (x.subjectId = subjectId)), db) := rfl

end IdentityLinq
