/-
Identity resources over whole runs of `ComplexInsert` calls.

A call writes one row of `IdentityResource` and the rows of its claims under the
id of that row, which it is told (`storedIdentity_run`); no other call writes
under this id.  The store regroups the claims of all selected resources by it,
and every resource is selected once, whatever the list of names looks like.  So

* `storedIdentities_runCalls` — after a run the table has the identity resources
  of the run, in their order, each with its own claims;
* `identityResources_runCalls_exact` — and they are what the store returns.
-/
import IdentityLinq.ResourceStore

namespace IdentityLinq

variable {P : Platform}

/-! ### Contents -/

/-- What a caller sees of an identity resource. -/
@[ext] structure IdentityResourceContent (P : Platform) where
  columns : Models.ResourceColumns P.IdentityResourceScalars
  userClaims : Option (Multiset String)

def Models.IdentityResource.content (r : Models.IdentityResource P) :
    IdentityResourceContent P where
  columns := r.toResourceColumns
  userClaims := r.userClaims.map (↑)

/-- The identity resource as it is stored: null claims make the call throw when
the row is in already, which stays without claims. -/
def Models.IdentityResource.stored (r : Models.IdentityResource P) : Models.IdentityResource P :=
  { r with userClaims := some (r.userClaims.getD []) }

/-- The content of a row of `IdentityResource`. -/
def storedIdentity (db : Db P) (row : IdentityResourceRow P) : IdentityResourceContent P where
  columns := row.cols
  userClaims := some ↑((ownedBy db .identityClaims (.identityResource row.id)).map (·.type))

/-! ### What a run stores -/

/-- The identity resource the call inserts. -/
def Call.identityResources : Call P → List (Models.IdentityResource P)
  | client _ => []
  | apiResource _ => []
  | identityResource r => [r]

/-- Whether the call returns or throws, its rows are in. -/
theorem Call.run_identityResource (r : Models.IdentityResource P) (db : Db P) :
    (Call.identityResource r).run db
      = (Delta.sum (r.inserts (db .identityResources).next)).addTo db := by
  cases hclaims : r.userClaims with
  | none =>
    -- The call stops after the first insert; the second would have no rows.
    rw [Call.run, complexInsertIdentityResource, hclaims, Models.IdentityResource.inserts, hclaims,
      Delta.sum_cons, Delta.append_addTo]
    funext t
    by_cases ht : t = .identityClaims
    · subst ht
      simp [Program.run, insertWithIdentity, bulkCopy, select]
    · simp [Program.run, insertWithIdentity, bulkCopy, select, ht]
  | some claims =>
    refine (Call.identityResource r).run_of_complete ?_ db
    rw [Call.Complete, Models.IdentityResource.Complete, hclaims]
    rfl

theorem Call.rows_identityResources_run (call : Call P) (db : Db P) :
    (call.run db .identityResources).rows = (db .identityResources).rows ++
      number (db .identityResources).next
        (call.identityResources.map fun r => r.toResourceColumns) := by
  cases call with
  | client c =>
    rw [((Call.client c).written_run db).apply_eq]
    · simp [Call.identityResources]
    · simp [Call.inserts, Models.Client.inserts, Models.Client.childInserts]
  | apiResource r =>
    rw [((Call.apiResource r).written_run db).apply_eq]
    · simp [Call.identityResources]
    · refine List.forall_mem_cons.mpr ⟨Delta.single_of_ne (by simp) _, ?_⟩
      exact r.childInserts_of_ne (by simp) (by simp) (by simp) (by simp) _ _
  | identityResource r =>
    rw [Call.run_identityResource]
    simp [Models.IdentityResource.inserts, Call.identityResources]

/-- The call for an identity resource stores it under its new id. -/
theorem storedIdentity_run {db : Db P} (h : Owned db) (r : Models.IdentityResource P) :
    storedIdentity ((Call.identityResource r).run db)
      ⟨(db .identityResources).next, r.toResourceColumns⟩ = r.stored.content := by
  have hnew : ¬ HasOwner db (.identityResource (db .identityResources).next) :=
    Table.not_exists_id (Nat.le_refl _)
  have hclaims : Delta.sum (r.inserts (db .identityResources).next) .identityClaims
      = (r.userClaims.getD []).map fun x => ⟨x, (db .identityResources).next⟩ := by
    simp [Models.IdentityResource.inserts]
  rw [storedIdentity, Call.run_identityResource, ownedBy_addTo, h.ownedBy_eq_nil hnew,
    List.nil_append, hclaims, filter_owner_map fun _ => rfl, List.map_map]
  simp [Models.IdentityResource.content, Models.IdentityResource.stored, Function.comp_def]

/-- No call touches the identity resources that are there. -/
theorem storedIdentity_run_of_mem {db : Db P} {row : IdentityResourceRow P}
    (hrow : row ∈ (db .identityResources).rows) (call : Call P) :
    storedIdentity (call.run db) row = storedIdentity db row := by
  have hown : HasOwner db (.identityResource row.id) := ⟨row, hrow, rfl⟩
  have hmay : ¬ call.MayOwn db (.identityResource row.id) :=
    Call.not_mayOwn_of_hasOwner hown fun _ => by simp
  have hkeep := children_run_of_not_mayOwn hmay .identityClaims
  rw [storedIdentity, storedIdentity, ownedBy, hkeep, ownedBy]

theorem storedIdentities_run {db : Db P} (h : Owned db) (call : Call P) :
    (call.run db .identityResources).rows.map (storedIdentity (call.run db))
      = (db .identityResources).rows.map (storedIdentity db)
        ++ call.identityResources.map fun r => r.stored.content := by
  rw [call.rows_identityResources_run, List.map_append]
  congr 1
  · exact List.map_congr_left fun row hrow => storedIdentity_run_of_mem hrow call
  · cases call with
    | client c => rfl
    | apiResource r => rfl
    | identityResource r =>
      simp only [Call.identityResources, List.map_cons, List.map_nil, number_cons, number_nil]
      rw [storedIdentity_run h]

/-- **After a run** the identity resources of the run are stored, each with its own
claims. -/
theorem storedIdentities_runCalls (calls : List (Call P)) {db : Db P} (h : Owned db) :
    (runCalls calls db .identityResources).rows.map (storedIdentity (runCalls calls db))
      = (db .identityResources).rows.map (storedIdentity db)
        ++ (calls.flatMap Call.identityResources).map fun r => r.stored.content := by
  induction calls generalizing db with
  | nil => exact (List.append_nil _).symm
  | cons call calls ih =>
    rw [runCalls_cons, ih (h.run call), storedIdentities_run h, List.flatMap_cons, List.map_append,
      List.append_assoc]

/-! ### What the store returns -/

/-- A resource that is selected once comes back with its own claims. -/
theorem content_loadIdentityResource {query : Db P → List (IdentityResourceRow P)} {db : Db P}
    (hquery : (query db).Sublist (db .identityResources).rows) {row : IdentityResourceRow P}
    (hrow : row ∈ query db) :
    (loadIdentityResource query db row).content = storedIdentity db row := by
  have howned : ownedBy db .identityClaims (.identityResource row.id)
      = (db .identityClaims).values.filter fun x => decide (x.identityResourceId = row.id) :=
    ownedBy_eq_filter_key db (fun _ _ => Owner.identityResource.inj) (fun _ => rfl) row.id
  have hle : (query db).countP (fun x => decide (x.id = row.id)) ≤ 1 :=
    le_trans hquery.countP_le ((db .identityResources).countP_id_le_one row.id)
  have hpos : 0 < (query db).countP fun x => decide (x.id = row.id) :=
    List.countP_pos_iff.mpr ⟨row, hrow, decide_eq_true rfl⟩
  have hone : (query db).countP (fun x => decide (x.id = row.id)) = 1 := by omega
  refine IdentityResourceContent.ext rfl ?_
  show some _ = some _
  rw [innerJoin_filter_key, hone, List.replicate_one, List.flatten_singleton, howned]

theorem map_content_loadIdentityResource {query : Db P → List (IdentityResourceRow P)} {db : Db P}
    (hquery : (query db).Sublist (db .identityResources).rows) :
    ((query db).map (loadIdentityResource query db)).map (fun x => x.content)
      = (query db).map (storedIdentity db) := by
  rw [List.map_map]
  exact List.map_congr_left fun row hrow => content_loadIdentityResource hquery hrow

/-- **Identity resources are stored and found exactly.**  After a run, looking up
names returns the resources of the run that have one of the names, each once, and
`GetAllResources` all resources of the run. -/
theorem identityResources_runCalls_exact (calls : List (Call P)) (scopeNames : List String) :
    (∃ xs, (findIdentityResourcesByScopeAsync scopeNames).run (runCalls calls (Store.empty : Db P))
        = (.ok xs, runCalls calls Store.empty) ∧
      (xs.map fun x => x.content).Perm
        (((calls.flatMap Call.identityResources).filter fun r => decide (r.name ∈ scopeNames)).map
          fun r => r.stored.content)) ∧
    ∃ all, getAllResources.run (runCalls calls (Store.empty : Db P))
        = (.ok all, runCalls calls Store.empty) ∧
      (all.identityResources.map fun x => x.content).Perm
        ((calls.flatMap Call.identityResources).map fun r => r.stored.content) := by
  have hstored := storedIdentities_runCalls calls (owned_empty (P := P))
  rw [show ((Store.empty : Db P) .identityResources).rows = [] from rfl, List.map_nil,
    List.nil_append] at hstored
  generalize runCalls calls (Store.empty : Db P) = db at hstored
  constructor
  · refine ⟨_, run_findIdentityResourcesByScopeAsync scopeNames db, List.Perm.of_eq ?_⟩
    rw [map_content_loadIdentityResource List.filter_sublist, identityResourcesByScope]
    -- Both sides keep the contents whose name is in the list.
    have hfilter := congrArg (List.filter fun x : IdentityResourceContent P =>
      decide (x.columns.name ∈ scopeNames)) hstored
    rw [List.filter_map, List.filter_map] at hfilter
    exact hfilter
  · refine ⟨_, run_getAllResources db, List.Perm.of_eq ?_⟩
    rw [map_content_loadIdentityResource (List.Sublist.refl _)]
    exact hstored

end IdentityLinq
