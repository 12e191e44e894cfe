/-
Where the data comes from that `ResourceStore` attaches to a resource.

`Upload` collects the child rows of all resources together, in one join for each
kind of child, and hands them out by dictionary.  The ids of API resources, API
scopes and identity resources are counted separately, so the same numbers stand
for different owners.  Still nothing gets to the wrong owner, on any database,
orphaned rows included:

* `ownApiData_loadApiResource`, `ownClaims_loadIdentityResource` — whatever query
  is uploaded, what is attached to a resource was built from rows that name it;
* `resourceStore_attaches_own` — so for every method of the store.
-/
import IdentityLinq.ResourceStore

namespace IdentityLinq

variable {P : Platform}

/-- The collection is built by `f` from rows whose foreign key is `id`. -/
def BuiltFrom {ρ α : Type} (rows : List ρ) (key : ρ → ℕ) (id : ℕ) (f : ρ → α)
    (xs : Collection α) : Prop :=
  ∃ own : List ρ, xs = some (own.map f) ∧ ∀ row ∈ own, row ∈ rows ∧ key row = id

/-- What is attached to an API resource, and to its scopes, are rows that name the
resource, and the scope. -/
structure OwnApiData (db : Db P) (x : Entities.ApiResource P) : Prop where
  apiSecrets : BuiltFrom (db .apiSecrets).values (·.apiResourceId) x.id (·.toSecret) x.apiSecrets
  scopes : ∃ own : List (Row Entities.ApiScope × Models.Scope), x.scopes = some (own.map Prod.snd) ∧
    ∀ s ∈ own, s.1 ∈ (db .apiScopes).rows ∧ s.1.cols.apiResourceId = x.id ∧
      s.2.toScopeColumns = s.1.cols.toScopeColumns ∧
      BuiltFrom (db .apiScopeClaims).values (·.apiScopeId) s.1.id (·.type) s.2.userClaims
  userClaims : BuiltFrom (db .apiResourceClaims).values (·.apiResourceId) x.id (·.type) x.userClaims

/-- The claims of an identity resource are rows that name it. -/
def OwnClaims (db : Db P) (x : Entities.IdentityResource P) : Prop :=
  BuiltFrom (db .identityClaims).values (·.identityResourceId) x.id (·.type) x.userClaims

/-- A dictionary entry is built from the rows that were grouped under its key. -/
theorem builtFrom_filter {ρ α : Type} {rows grouped : List ρ} (key : ρ → ℕ) (id : ℕ) (f : ρ → α)
    (h : ∀ row ∈ grouped, row ∈ rows) :
    BuiltFrom rows key id f (some ((grouped.filter fun row => decide (key row = id)).map f)) := by
  refine ⟨_, rfl, fun row hrow => ?_⟩
  obtain ⟨hmem, hkey⟩ := List.mem_filter.mp hrow
  exact ⟨h row hmem, of_decide_eq_true hkey⟩

/-- **What is attached to an API resource is its own**, whatever query is
uploaded. -/
theorem ownApiData_loadApiResource (query : Db P → List (ApiResourceRow P)) (db : Db P)
    (row : ApiResourceRow P) : OwnApiData db (loadApiResource query db row) where
  apiSecrets := builtFrom_filter _ _ _ fun _ => mem_of_mem_innerJoin_snd
  scopes := by
    refine ⟨((scopesQuery query db).filter fun s => decide (s.cols.apiResourceId = row.id)).map
      fun s => (s, loadScope query db s), ?_, ?_⟩
    · rw [List.map_map]
      rfl
    · intro s hs
      obtain ⟨scope, hscope, rfl⟩ := List.mem_map.mp hs
      obtain ⟨hmem, hkey⟩ := List.mem_filter.mp hscope
      have hclaims : BuiltFrom (db .apiScopeClaims).values (·.apiScopeId) scope.id (·.type)
          (loadScope query db scope).userClaims :=
        builtFrom_filter _ _ _ fun _ => mem_of_mem_innerJoin_fst
      exact ⟨mem_of_mem_innerJoin_snd hmem, of_decide_eq_true hkey, rfl, hclaims⟩
  userClaims := builtFrom_filter _ _ _ fun _ => mem_of_mem_innerJoin_snd

theorem ownClaims_loadIdentityResource (query : Db P → List (IdentityResourceRow P)) (db : Db P)
    (row : IdentityResourceRow P) : OwnClaims db (loadIdentityResource query db row) :=
  builtFrom_filter _ _ _ fun _ => mem_of_mem_innerJoin_snd

/-- The same for all resources of an upload. -/
theorem ownApiData_of_mem {query : Db P → List (ApiResourceRow P)} {db : Db P}
    {rows : List (ApiResourceRow P)} :
    ∀ x ∈ rows.map (loadApiResource query db), OwnApiData db x := by
  intro x hx
  obtain ⟨row, -, rfl⟩ := List.mem_map.mp hx
  exact ownApiData_loadApiResource query db row

theorem ownClaims_of_mem {query : Db P → List (IdentityResourceRow P)} {db : Db P}
    {rows : List (IdentityResourceRow P)} :
    ∀ x ∈ rows.map (loadIdentityResource query db), OwnClaims db x := by
  intro x hx
  obtain ⟨row, -, rfl⟩ := List.mem_map.mp hx
  exact ownClaims_loadIdentityResource query db row

/-- **No method of the store attaches another owner's data.** -/
theorem resourceStore_attaches_own (db : Db P) (name : String) (scopeNames : List String) :
    (∃ found, (findApiResourceAsync name).run db = (.ok found, db) ∧
        ∀ x ∈ found, OwnApiData db x) ∧
      (∃ xs, (findApiResourcesByScopeAsync scopeNames).run db = (.ok xs, db) ∧
        ∀ x ∈ xs, OwnApiData db x) ∧
      (∃ xs, (findIdentityResourcesByScopeAsync scopeNames).run db = (.ok xs, db) ∧
        ∀ x ∈ xs, OwnClaims db x) ∧
      ∃ all, getAllResources.run db = (.ok all, db) ∧
        (∀ x ∈ all.apiResources, OwnApiData db x) ∧
        ∀ x ∈ all.identityResources, OwnClaims db x := by
  refine ⟨⟨_, run_findApiResourceAsync name db, fun x hx => ?_⟩,
    ⟨_, run_findApiResourcesByScopeAsync scopeNames db, ownApiData_of_mem⟩,
    ⟨_, run_findIdentityResourcesByScopeAsync scopeNames db, ownClaims_of_mem⟩,
    ⟨_, run_getAllResources db, ownApiData_of_mem, ownClaims_of_mem⟩⟩
  exact ownApiData_of_mem x (List.mem_of_head? hx)

end IdentityLinq
