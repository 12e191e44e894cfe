/-
`ResourceStore`: reading API resources and identity resources back.

`Upload` runs the query it is given once for the resources and once more, joined,
for each kind of child row; the child rows are put in dictionaries by foreign
key and handed out from there.  For the scopes of API resources the join is on
the scope's own `Id` (`scopesQuery`), not on its `ApiResourceId`.

* `run_uploadApiResources`, `run_uploadIdentityResources` — what `Upload` returns
  on a database, one resource at a time (`loadApiResource`,
  `loadIdentityResource`);
* `run_findApiResourceAsync` and its siblings — the same for the four methods
  of the store.
-/
import IdentityLinq.Ownership

namespace IdentityLinq

variable {P : Platform}

/-! ### The code -/

/-- A row of `ApiResource`. -/
abbrev ApiResourceRow (P : Platform) : Type := Row (Models.ResourceColumns P.ApiResourceScalars)

/-- A row of `IdentityResource`. -/
abbrev IdentityResourceRow (P : Platform) : Type :=
  Row (Models.ResourceColumns P.IdentityResourceScalars)

/-- The object linq2db builds from a row; a new object has empty collections. -/
def Entities.ApiResource.ofRow (row : ApiResourceRow P) : Entities.ApiResource P where
  toResourceColumns := row.cols
  id := row.id
  apiSecrets := some []
  scopes := some []
  userClaims := some []

def Entities.IdentityResource.ofRow (row : IdentityResourceRow P) :
    Entities.IdentityResource P where
  toResourceColumns := row.cols
  id := row.id
  userClaims := some []

/-- The scope object linq2db builds from a row. -/
def Models.Scope.ofRow (row : Row Entities.ApiScope) : Models.Scope where
  toScopeColumns := row.cols.toScopeColumns
  userClaims := some []

/-- The body of the loop over the identity resources. -/
def attachClaims (claims : List (ℕ × List String)) (row : IdentityResourceRow P) :
    Entities.IdentityResource P :=
  let resource := Entities.IdentityResource.ofRow row
  match tryGetValue claims resource.id with
  | some c => { resource with userClaims := some c }
  | none => resource

/-- `Upload(IQueryable<IdentityResource>)`. -/
def uploadIdentityResources (query : Db P → List (IdentityResourceRow P)) :
    Program (Db P) Error (List (Entities.IdentityResource P)) := do
  let claims ← Program.query fun db =>
    (innerJoin (query db) (db .identityClaims).values Row.id (·.identityResourceId)).map Prod.snd
  let claims := groupBy (·.identityResourceId) (·.type) claims
  let resources ← Program.query query
  return resources.map (attachClaims claims)

/-- `from a in query join scope in ApiScope on a.Id equals scope.Id select scope`. -/
def scopesQuery (query : Db P → List (ApiResourceRow P)) (db : Db P) :
    List (Row Entities.ApiScope) :=
  (innerJoin (query db) (db .apiScopes).rows Row.id Row.id).map Prod.snd

/-- The body of the loop over the loaded scopes. -/
def attachScopeClaims (scopeClaims : List (ℕ × List String)) (scope : Row Entities.ApiScope) :
    Models.Scope :=
  match tryGetValue scopeClaims scope.id with
  | some claims => { Models.Scope.ofRow scope with userClaims := some claims }
  | none => Models.Scope.ofRow scope

/-- The body of the loop over the API resources. -/
def attachChildren (apiSecrets : List (ℕ × List Models.Secret))
    (apiScopes : List (ℕ × List Models.Scope)) (apiClaims : List (ℕ × List String))
    (row : ApiResourceRow P) : Entities.ApiResource P :=
  let apiResource := Entities.ApiResource.ofRow row
  let apiResource := match tryGetValue apiSecrets apiResource.id with
    | some secrets => { apiResource with apiSecrets := some secrets }
    | none => apiResource
  let apiResource := match tryGetValue apiScopes apiResource.id with
    | some scopes => { apiResource with scopes := some scopes }
    | none => apiResource
  match tryGetValue apiClaims apiResource.id with
  | some claims => { apiResource with userClaims := some claims }
  | none => apiResource

/-- `Upload(IQueryable<ApiResource>)`. -/
def uploadApiResources (query : Db P → List (ApiResourceRow P)) :
    Program (Db P) Error (List (Entities.ApiResource P)) := do
  let apis ← Program.query query
  if apis.length = 0 then
    return apis.map Entities.ApiResource.ofRow
  let apiSecrets ← Program.query fun db =>
    (innerJoin (query db) (db .apiSecrets).values Row.id (·.apiResourceId)).map Prod.snd
  let apiSecrets := groupBy (·.apiResourceId) (·.toSecret) apiSecrets
  let apiScopes ← Program.query (scopesQuery query)
  let apiScopes := groupBy (·.cols.apiResourceId) (fun scope => scope) apiScopes
  let scopeClaims ← Program.query fun db =>
    (innerJoin (db .apiScopeClaims).values (scopesQuery query db) (·.apiScopeId) Row.id).map
      Prod.fst
  let scopeClaims := groupBy (·.apiScopeId) (·.type) scopeClaims
  let apiClaims ← Program.query fun db =>
    (innerJoin (query db) (db .apiResourceClaims).values Row.id (·.apiResourceId)).map Prod.snd
  let apiClaims := groupBy (·.apiResourceId) (·.type) apiClaims
  -- The scope objects of the dictionary get their claims in place.
  let apiScopes := apiScopes.map fun e => (e.1, e.2.map (attachScopeClaims scopeClaims))
  return apis.map (attachChildren apiSecrets apiScopes apiClaims)

/-- The query of `FindApiResourceAsync`. -/
def apiResourceByName (name : String) (db : Db P) : List (ApiResourceRow P) :=
  (db .apiResources).rows.filter fun row => decide (row.cols.name = name)

/-- `FindApiResourceAsync(name)`. -/
def findApiResourceAsync (name : String) :
    Program (Db P) Error (Option (Entities.ApiResource P)) := do
  let apis ← uploadApiResources (apiResourceByName name)
  return apis.head?

/-- The query of `FindApiResourcesByScopeAsync`: API resources joined with their
scopes, where the scope's name is in the list. -/
def apiResourcesByScope (scopeNames : List String) (db : Db P) : List (ApiResourceRow P) :=
  ((innerJoin (db .apiResources).rows (db .apiScopes).rows Row.id (·.cols.apiResourceId)).filter
    fun p => decide (p.2.cols.name ∈ scopeNames)).map Prod.fst

/-- `FindApiResourcesByScopeAsync(scopeNames)`. -/
def findApiResourcesByScopeAsync (scopeNames : List String) :
    Program (Db P) Error (List (Entities.ApiResource P)) :=
  uploadApiResources (apiResourcesByScope scopeNames)

/-- The query of `FindIdentityResourcesByScopeAsync`. -/
def identityResourcesByScope (scopeNames : List String) (db : Db P) :
    List (IdentityResourceRow P) :=
  (db .identityResources).rows.filter fun row => decide (row.cols.name ∈ scopeNames)

/-- `FindIdentityResourcesByScopeAsync(scopeNames)`. -/
def findIdentityResourcesByScopeAsync (scopeNames : List String) :
    Program (Db P) Error (List (Entities.IdentityResource P)) :=
  uploadIdentityResources (identityResourcesByScope scopeNames)

/-- What `GetAllResources` returns. -/
structure Resources (P : Platform) where
  identityResources : List (Entities.IdentityResource P)
  apiResources : List (Entities.ApiResource P)

/-- `GetAllResources()`. -/
def getAllResources : Program (Db P) Error (Resources P) := do
  let identityResources ← uploadIdentityResources fun db => (db .identityResources).rows
  let apiResources ← uploadApiResources fun db => (db .apiResources).rows
  return { identityResources := identityResources, apiResources := apiResources }

/-! ### Only reading -/

theorem readOnly_uploadIdentityResources (query : Db P → List (IdentityResourceRow P)) :
    (uploadIdentityResources query).ReadOnly := by
  refine (Program.ReadOnly.query _).bind fun claims => ?_
  exact (Program.ReadOnly.query _).bind fun resources => trivial

theorem readOnly_uploadApiResources (query : Db P → List (ApiResourceRow P)) :
    (uploadApiResources query).ReadOnly := by
  refine (Program.ReadOnly.query _).bind fun apis => ?_
  split
  · exact trivial
  · refine (Program.ReadOnly.query _).bind fun apiSecrets => ?_
    refine (Program.ReadOnly.query _).bind fun apiScopes => ?_
    refine (Program.ReadOnly.query _).bind fun scopeClaims => ?_
    exact (Program.ReadOnly.query _).bind fun apiClaims => trivial

theorem readOnly_getAllResources : (getAllResources (P := P)).ReadOnly :=
  (readOnly_uploadIdentityResources _).bind fun _ =>
    (readOnly_uploadApiResources _).bind fun _ => trivial

/-! ### What `Upload` returns on a database -/

/-- The claims loaded for the scope row `id` when the scopes of `query` are
loaded. -/
def loadScopeClaims (query : Db P → List (ApiResourceRow P)) (db : Db P) (id : ℕ) : List String :=
  (((innerJoin (db .apiScopeClaims).values (scopesQuery query db) (·.apiScopeId) Row.id).map
    Prod.fst).filter fun c => decide (c.apiScopeId = id)).map (·.type)

/-- The scope loaded from a row. -/
def loadScope (query : Db P → List (ApiResourceRow P)) (db : Db P) (row : Row Entities.ApiScope) :
    Models.Scope where
  toScopeColumns := row.cols.toScopeColumns
  userClaims := some (loadScopeClaims query db row.id)

/-- The API resource loaded from a row when `query` is loaded. -/
def loadApiResource (query : Db P → List (ApiResourceRow P)) (db : Db P) (row : ApiResourceRow P) :
    Entities.ApiResource P where
  toResourceColumns := row.cols
  id := row.id
  apiSecrets := some ((((innerJoin (query db) (db .apiSecrets).values Row.id
    (·.apiResourceId)).map Prod.snd).filter fun x => decide (x.apiResourceId = row.id)).map
      (·.toSecret))
  scopes := some (((scopesQuery query db).filter fun s =>
    decide (s.cols.apiResourceId = row.id)).map (loadScope query db))
  userClaims := some ((((innerJoin (query db) (db .apiResourceClaims).values Row.id
    (·.apiResourceId)).map Prod.snd).filter fun x => decide (x.apiResourceId = row.id)).map
      (·.type))

/-- The identity resource loaded from a row when `query` is loaded. -/
def loadIdentityResource (query : Db P → List (IdentityResourceRow P)) (db : Db P)
    (row : IdentityResourceRow P) : Entities.IdentityResource P where
  toResourceColumns := row.cols
  id := row.id
  userClaims := some ((((innerJoin (query db) (db .identityClaims).values Row.id
    (·.identityResourceId)).map Prod.snd).filter fun x =>
      decide (x.identityResourceId = row.id)).map (·.type))

theorem attachClaims_eq (claims : List (ℕ × List String)) (row : IdentityResourceRow P) :
    attachClaims claims row
      = { toResourceColumns := row.cols
          id := row.id
          userClaims := some ((tryGetValue claims row.id).getD []) } := by
  simp only [attachClaims, Entities.IdentityResource.ofRow]
  cases tryGetValue claims row.id with
  | none => rfl
  | some c => rfl

theorem run_uploadIdentityResources (query : Db P → List (IdentityResourceRow P)) (db : Db P) :
    (uploadIdentityResources query).run db
      = (.ok ((query db).map (loadIdentityResource query db)), db) := by
  rw [uploadIdentityResources, Program.run_query_bind, Program.run_query_bind, Program.pure_eq,
    Program.run_ret]
  refine Prod.ext (congrArg Except.ok (List.map_congr_left fun row _ => ?_)) rfl
  rw [attachClaims_eq, tryGetValue_groupBy]
  rfl

theorem attachScopeClaims_eq (scopeClaims : List (ℕ × List String))
    (scope : Row Entities.ApiScope) :
    attachScopeClaims scopeClaims scope
      = { toScopeColumns := scope.cols.toScopeColumns
          userClaims := some ((tryGetValue scopeClaims scope.id).getD []) } := by
  rw [attachScopeClaims]
  cases tryGetValue scopeClaims scope.id with
  | none => rfl
  | some claims => rfl

theorem attachChildren_eq (apiSecrets : List (ℕ × List Models.Secret))
    (apiScopes : List (ℕ × List Models.Scope)) (apiClaims : List (ℕ × List String))
    (row : ApiResourceRow P) :
    attachChildren apiSecrets apiScopes apiClaims row
      = { toResourceColumns := row.cols
          id := row.id
          apiSecrets := some ((tryGetValue apiSecrets row.id).getD [])
          scopes := some ((tryGetValue apiScopes row.id).getD [])
          userClaims := some ((tryGetValue apiClaims row.id).getD []) } := by
  simp only [attachChildren, Entities.ApiResource.ofRow]
  cases tryGetValue apiSecrets row.id <;> cases tryGetValue apiScopes row.id <;>
    cases tryGetValue apiClaims row.id <;> rfl

/-- The scopes of the dictionary, each with its claims. -/
theorem tryGetValue_attachScopeClaims (query : Db P → List (ApiResourceRow P)) (db : Db P)
    (id : ℕ) :
    (tryGetValue ((groupBy (·.cols.apiResourceId) (fun scope => scope) (scopesQuery query db)).map
        fun e => (e.1, e.2.map (attachScopeClaims (groupBy (·.apiScopeId) (·.type)
          ((innerJoin (db .apiScopeClaims).values (scopesQuery query db) (·.apiScopeId)
            Row.id).map Prod.fst))))) id).getD []
      = ((scopesQuery query db).filter fun s => decide (s.cols.apiResourceId = id)).map
          (loadScope query db) := by
  have hgroup := tryGetValue_groupBy (·.cols.apiResourceId) (fun scope => scope)
    (scopesQuery query db) id
  rw [List.map_id'] at hgroup
  rw [← hgroup, tryGetValue_map (List.map _)]
  have hload : ∀ scope, attachScopeClaims (groupBy (·.apiScopeId) (·.type)
      ((innerJoin (db .apiScopeClaims).values (scopesQuery query db) (·.apiScopeId)
        Row.id).map Prod.fst)) scope = loadScope query db scope := by
    intro scope
    rw [attachScopeClaims_eq, tryGetValue_groupBy]
    rfl
  cases tryGetValue _ id with
  | none => rfl
  | some scopes => exact List.map_congr_left fun scope _ => hload scope

theorem run_uploadApiResources (query : Db P → List (ApiResourceRow P)) (db : Db P) :
    (uploadApiResources query).run db
      = (.ok ((query db).map (loadApiResource query db)), db) := by
  rw [uploadApiResources, Program.run_query_bind]
  split
  · next h =>
    rw [List.length_eq_zero_iff.mp h]
    rfl
  · simp only [Program.run_query_bind, Program.pure_eq, Program.run_ret]
    refine Prod.ext (congrArg Except.ok (List.map_congr_left fun row _ => ?_)) rfl
    rw [attachChildren_eq, tryGetValue_groupBy, tryGetValue_groupBy,
      tryGetValue_attachScopeClaims]
    rfl

theorem run_findApiResourceAsync (name : String) (db : Db P) :
    (findApiResourceAsync name).run db
      = (.ok ((apiResourceByName name db).map
          (loadApiResource (apiResourceByName name) db)).head?, db) := by
  rw [findApiResourceAsync, Program.run_bind, run_uploadApiResources]
  rfl

theorem run_findApiResourcesByScopeAsync (scopeNames : List String) (db : Db P) :
    (findApiResourcesByScopeAsync scopeNames).run db
      = (.ok ((apiResourcesByScope scopeNames db).map
          (loadApiResource (apiResourcesByScope scopeNames) db)), db) :=
  run_uploadApiResources _ _

theorem run_findIdentityResourcesByScopeAsync (scopeNames : List String) (db : Db P) :
    (findIdentityResourcesByScopeAsync scopeNames).run db
      = (.ok ((identityResourcesByScope scopeNames db).map
          (loadIdentityResource (identityResourcesByScope scopeNames) db)), db) :=
  run_uploadIdentityResources _ _

theorem run_getAllResources (db : Db P) :
    getAllResources.run db
      = (.ok { identityResources := (db .identityResources).rows.map
                 (loadIdentityResource (fun db => (db .identityResources).rows) db)
               apiResources := (db .apiResources).rows.map
                 (loadApiResource (fun db => (db .apiResources).rows) db) }, db) := by
  rw [getAllResources, Program.run_bind, run_uploadIdentityResources]
  simp only [Program.run_bind, run_uploadApiResources, Program.pure_eq, Program.run_ret]

end IdentityLinq
