/-
`DataContextExtensions.ComplexInsert`, for clients, API resources and identity
resources.

Each overload inserts a parent row and then, statement by statement, the rows
of its collections.  There is no transaction around the statements, and LINQ
throws on a null collection, so a call can stop between any two of them.

For every overload the module says

* which inserts it issues, in order (`issues_complexInsertClient` and its
  siblings) — with the ids it threads through them;
* when it returns: exactly when no collection is null and, for a client, its
  grant types are accepted (`complexInsertClient_returns_iff` and siblings).
-/
import IdentityLinq.Entities

namespace IdentityLinq

variable {P : Platform} {α β : Type}

/-! ### The code -/

/-- `source.Select(f)`, which throws on a null source. -/
def select {S : Type} (source : Collection α) (f : α → β) : Program S Error (List β) :=
  match source with
  | none => .raise .argumentNull
  | some xs => .ret (xs.map f)

/-- `db.BulkCopy(source.Select(f))`. -/
def bulkCopy (t : TableName) (source : Collection α) (f : α → t.Columns P) :
    Program (Db P) Error Unit := do
  let rows ← select source f
  insertRows (.single t rows)

/-- The setter of `Client.AllowedGrantTypes`. -/
def setAllowedGrantTypes {S : Type} (P : Platform) (value : Collection String) :
    Program S Error (Collection String) :=
  if P.validateGrantTypes value then .ret value else .raise .invalidOperation

/-- `ComplexInsert(Client)`. -/
def complexInsertClient (client : Models.Client P (Collection String)) :
    Program (Db P) Error (Entities.Client P (Collection String)) := do
  let columns := getSimpleMap P.clientModel P.client P.newClient client.toClientColumns
  let allowedGrantTypes ← setAllowedGrantTypes P client.allowedGrantTypes
  let res : Entities.Client P (Collection String) :=
    { toClientColumns := columns
      allowedScopes := client.allowedScopes
      allowedCorsOrigins := client.allowedCorsOrigins
      allowedGrantTypes := allowedGrantTypes
      claims := client.claims
      clientSecrets := client.clientSecrets
      identityProviderRestrictions := client.identityProviderRestrictions
      postLogoutRedirectUris := client.postLogoutRedirectUris
      redirectUris := client.redirectUris }
  -- The row is inserted from the model, not from its copy.
  insertRows (.single .clients [client.toClientColumns])
  bulkCopy .clientCorsOrigins client.allowedCorsOrigins fun x =>
    { clientId := client.clientId, origin := x }
  bulkCopy .clientGrantTypes client.allowedGrantTypes fun x =>
    { clientId := client.clientId, grantType := x }
  bulkCopy .clientScopes client.allowedScopes fun x =>
    { clientId := client.clientId, scope := x }
  bulkCopy .clientClaims client.claims fun x =>
    { type := x.type, value := x.value, clientId := client.clientId }
  bulkCopy .clientSecrets client.clientSecrets fun x =>
    { clientId := client.clientId
      description := x.description
      expiration := x.expiration
      type := x.type
      value := x.value }
  bulkCopy .clientIdPRestrictions client.identityProviderRestrictions fun x =>
    { clientId := client.clientId, provider := x }
  bulkCopy .clientPostLogoutRedirectUris client.postLogoutRedirectUris fun x =>
    { clientId := client.clientId, postLogoutRedirectUri := x }
  bulkCopy .clientRedirectUris client.redirectUris fun x =>
    { clientId := client.clientId, redirectUri := x }
  return res

/-- The body of the loop over the scopes: `s` is the new `ApiScope` and its
`UserClaims`. -/
def insertScope (s : Entities.ApiScope × Collection String) : Program (Db P) Error Unit := do
  let scopeId ← insertWithIdentity .apiScopes s.1
  bulkCopy .apiScopeClaims s.2 fun x => { apiScopeId := scopeId, type := x }

/-- `ComplexInsert(ApiResource)`. -/
def complexInsertApiResource (resource : Models.ApiResource P) :
    Program (Db P) Error (Entities.ApiResource P) := do
  let row := getSimpleMap P.apiResourceModel P.apiResource ⟨0, P.newApiResource⟩
    resource.toResourceColumns
  let res : Entities.ApiResource P :=
    { toResourceColumns := row.cols
      id := row.id
      apiSecrets := resource.apiSecrets
      scopes := resource.scopes
      userClaims := resource.userClaims }
  let id ← insertWithIdentity .apiResources res.toResourceColumns
  bulkCopy .apiSecrets resource.apiSecrets fun x =>
    { apiResourceId := id
      description := x.description
      expiration := x.expiration
      type := x.type
      value := x.value }
  -- `Select` throws on a null source, before the loop starts.
  let scopes ← select resource.scopes fun x =>
    (({ apiResourceId := id
        description := x.description
        displayName := x.displayName
        emphasize := x.emphasize
        name := x.name
        required := x.required
        showInDiscoveryDocument := x.showInDiscoveryDocument } : Entities.ApiScope), x.userClaims)
  forM scopes insertScope
  bulkCopy .apiResourceClaims resource.userClaims fun x => { apiResourceId := id, type := x }
  return res

/-- `ComplexInsert(IdentityResource)`. -/
def complexInsertIdentityResource (resource : Models.IdentityResource P) :
    Program (Db P) Error (Entities.IdentityResource P) := do
  let row := getSimpleMap P.identityResourceModel P.identityResource ⟨0, P.newIdentityResource⟩
    resource.toResourceColumns
  let res : Entities.IdentityResource P :=
    { toResourceColumns := row.cols
      id := row.id
      userClaims := resource.userClaims }
  -- Again the model is inserted, not its copy.
  let id ← insertWithIdentity .identityResources resource.toResourceColumns
  bulkCopy .identityClaims resource.userClaims fun x => { identityResourceId := id, type := x }
  return res

/-! ### The inserts of a model -/

/-- The inserts for the collections of a client; a null collection has no rows. -/
def Models.Client.childInserts (c : Models.Client P (Collection String)) : List (Rows P) :=
  [.single .clientCorsOrigins ((c.allowedCorsOrigins.getD []).map fun x => ⟨x, c.clientId⟩),
   .single .clientGrantTypes ((c.allowedGrantTypes.getD []).map fun x => ⟨x, c.clientId⟩),
   .single .clientScopes ((c.allowedScopes.getD []).map fun x => ⟨x, c.clientId⟩),
   .single .clientClaims ((c.claims.getD []).map fun x => ⟨x, c.clientId⟩),
   .single .clientSecrets ((c.clientSecrets.getD []).map fun x => ⟨x, c.clientId⟩),
   .single .clientIdPRestrictions
     ((c.identityProviderRestrictions.getD []).map fun x => ⟨x, c.clientId⟩),
   .single .clientPostLogoutRedirectUris
     ((c.postLogoutRedirectUris.getD []).map fun x => ⟨x, c.clientId⟩),
   .single .clientRedirectUris ((c.redirectUris.getD []).map fun x => ⟨x, c.clientId⟩)]

/-- The inserts `ComplexInsert(Client)` issues. -/
def Models.Client.inserts (c : Models.Client P (Collection String)) : List (Rows P) :=
  .single .clients [c.toClientColumns] :: c.childInserts

/-- The inserts of the scope that becomes row `n`, owned by API resource `id`. -/
def Models.Scope.inserts (id n : ℕ) (s : Models.Scope) : List (Rows P) :=
  [.single .apiScopes [⟨s.toScopeColumns, id⟩],
   .single .apiScopeClaims ((s.userClaims.getD []).map fun x => ⟨x, n⟩)]

/-- The inserts for the collections of the API resource that becomes row `id`,
its scopes numbered from `n` on. -/
def Models.ApiResource.childInserts (r : Models.ApiResource P) (id n : ℕ) : List (Rows P) :=
  .single .apiSecrets ((r.apiSecrets.getD []).map fun x => ⟨x, id⟩)
    :: (((r.scopes.getD []).zipIdx n).flatMap fun s => s.1.inserts id s.2)
    ++ [.single .apiResourceClaims ((r.userClaims.getD []).map fun x => ⟨x, id⟩)]

/-- The inserts `ComplexInsert(ApiResource)` issues. -/
def Models.ApiResource.inserts (r : Models.ApiResource P) (id n : ℕ) : List (Rows P) :=
  .single .apiResources [r.toResourceColumns] :: r.childInserts id n

/-- The inserts `ComplexInsert(IdentityResource)` issues when the identity
resource becomes row `id`. -/
def Models.IdentityResource.inserts (r : Models.IdentityResource P) (id : ℕ) : List (Rows P) :=
  [.single .identityResources [r.toResourceColumns],
   .single .identityClaims ((r.userClaims.getD []).map fun x => ⟨x, id⟩)]

/-- The collections of an API resource go into four tables. -/
theorem Models.ApiResource.childInserts_of_ne (r : Models.ApiResource P) {t : TableName}
    (hsecrets : t ≠ .apiSecrets) (hscopes : t ≠ .apiScopes) (hscopeClaims : t ≠ .apiScopeClaims)
    (hclaims : t ≠ .apiResourceClaims) (id n : ℕ) : ∀ δ ∈ r.childInserts id n, δ t = [] := by
  intro δ hδ
  simp only [Models.ApiResource.childInserts, List.mem_append, List.mem_cons, List.not_mem_nil,
    or_false, List.mem_flatMap] at hδ
  rcases hδ with (rfl | ⟨s, -, hδ⟩) | rfl
  · exact Delta.single_of_ne hsecrets _
  · simp only [Models.Scope.inserts, List.mem_cons, List.not_mem_nil, or_false] at hδ
    rcases hδ with rfl | rfl
    · exact Delta.single_of_ne hscopes _
    · exact Delta.single_of_ne hscopeClaims _
  · exact Delta.single_of_ne hclaims _

theorem issues_bulkCopy (t : TableName) (source : Collection α) (f : α → t.Columns P)
    (db : Db P) : Issues (bulkCopy t source f) db [.single t ((source.getD []).map f)] := by
  cases source with
  | none => exact Issues.raise _ _ _
  | some xs => exact Issues.insertRows _ db

theorem issues_setAllowedGrantTypes (value : Collection String) (db : Db P) :
    Issues (setAllowedGrantTypes P value) db [] := by
  rw [setAllowedGrantTypes]
  split
  · exact Issues.ret _ db
  · exact Issues.raise _ _ _

theorem issues_insertScope {id : ℕ} (s : Models.Scope) (db : Db P) :
    Issues (insertScope (⟨s.toScopeColumns, id⟩, s.userClaims)) db
      (s.inserts id (db .apiScopes).next) :=
  Issues.insertWithIdentity_bind (issues_bulkCopy _ _ _ _)

theorem next_apiScopes_inserts (s : Models.Scope) (id n : ℕ) (db : Db P) :
    ((Delta.sum (s.inserts id n)).addTo db .apiScopes).next = (db .apiScopes).next + 1 := by
  simp [Models.Scope.inserts]

theorem issues_forM_insertScope (id : ℕ) (scopes : List Models.Scope) (db : Db P) :
    Issues (forM (scopes.map fun s => ((⟨s.toScopeColumns, id⟩ : Entities.ApiScope), s.userClaims))
        insertScope) db
      ((scopes.zipIdx (db .apiScopes).next).flatMap fun s => s.1.inserts id s.2) := by
  rw [List.forM_map]
  -- Every turn finds the scope id counted up by one.
  refine Issues.forM (fun n db => (db .apiScopes).next = n) ?_ scopes _ db rfl
  rintro n s db rfl
  exact ⟨issues_insertScope s db, next_apiScopes_inserts s id _ db⟩

/-- `ComplexInsert(Client)` checks the grant types, inserts the client row, then the
origins and the grant types, and then the rows of the other collections. -/
theorem complexInsertClient_eq_copies (c : Models.Client P (Collection String)) :
    ∃ q : Collection String → Program (Db P) Error (Entities.Client P (Collection String)),
      complexInsertClient c = (setAllowedGrantTypes P c.allowedGrantTypes >>= fun g =>
        insertRows (.single .clients [c.toClientColumns]) >>= fun _ =>
        bulkCopy .clientCorsOrigins c.allowedCorsOrigins (fun x => ⟨x, c.clientId⟩) >>= fun _ =>
        bulkCopy .clientGrantTypes c.allowedGrantTypes (fun x => ⟨x, c.clientId⟩) >>= fun _ =>
        q g) ∧
      ∀ g db, Issues (q g) db (c.childInserts.drop 2) := by
  refine ⟨_, rfl, fun g db => ?_⟩
  refine (issues_bulkCopy .clientScopes _ _ _).bind fun _ _ => ?_
  refine (issues_bulkCopy .clientClaims _ _ _).bind fun _ _ => ?_
  refine (issues_bulkCopy .clientSecrets _ _ _).bind fun _ _ => ?_
  refine (issues_bulkCopy .clientIdPRestrictions _ _ _).bind fun _ _ => ?_
  refine (issues_bulkCopy .clientPostLogoutRedirectUris _ _ _).bind fun _ _ => ?_
  exact (issues_bulkCopy .clientRedirectUris _ _ _).bind fun _ _ => Issues.ret _ _

theorem complexInsertClient_eq (c : Models.Client P (Collection String)) :
    ∃ q : Collection String → Program (Db P) Error (Entities.Client P (Collection String)),
      complexInsertClient c = (setAllowedGrantTypes P c.allowedGrantTypes >>= fun g =>
        insertRows (.single .clients [c.toClientColumns]) >>= fun _ => q g) ∧
      ∀ g db, Issues (q g) db c.childInserts := by
  obtain ⟨q, heq, hq⟩ := complexInsertClient_eq_copies c
  refine ⟨_, heq, fun g db => ?_⟩
  refine (issues_bulkCopy .clientCorsOrigins _ _ _).bind fun _ _ => ?_
  exact (issues_bulkCopy .clientGrantTypes _ _ _).bind fun _ _ => hq g _

/-- **What `ComplexInsert(Client)` writes.** -/
theorem issues_complexInsertClient (c : Models.Client P (Collection String)) (db : Db P) :
    Issues (complexInsertClient c) db c.inserts := by
  obtain ⟨q, heq, hq⟩ := complexInsertClient_eq c
  rw [heq]
  refine (issues_setAllowedGrantTypes c.allowedGrantTypes db).bind fun g _ => ?_
  exact (Issues.insertRows _ _).bind fun _ _ => hq g _

/-- The client row is written unless the grant types are rejected. -/
theorem written_complexInsertClient (c : Models.Client P (Collection String)) (db : Db P) :
    if P.validateGrantTypes c.allowedGrantTypes then
      Written ((Delta.single .clients [c.toClientColumns]).addTo db) c.childInserts
        ((complexInsertClient c).run db).2
    else ((complexInsertClient c).run db).2 = db := by
  obtain ⟨q, heq, hq⟩ := complexInsertClient_eq c
  rw [heq, setAllowedGrantTypes]
  split
  · exact (hq _ _).run
  · rfl

/-- `ComplexInsert(ApiResource)` inserts the parent row first, whatever the
collections are, and then the rows of the collections. -/
theorem complexInsertApiResource_eq (r : Models.ApiResource P) :
    ∃ q : ℕ → Program (Db P) Error (Entities.ApiResource P),
      complexInsertApiResource r
        = (insertWithIdentity .apiResources r.toResourceColumns >>= q) ∧
      ∀ id db, Issues (q id) db (r.childInserts id (db .apiScopes).next) := by
  have hcols := P.apiResource_inherits.base_getSimpleMap ⟨0, P.newApiResource⟩ r.toResourceColumns
  simp only [complexInsertApiResource, hcols]
  refine ⟨_, rfl, fun id db => ?_⟩
  refine (issues_bulkCopy .apiSecrets _ _ _).bind fun _ _ => ?_
  cases r.scopes with
  | none => exact Issues.raise _ _ _
  | some scopes =>
    refine (issues_forM_insertScope _ scopes _).bind fun _ _ => ?_
    exact (issues_bulkCopy .apiResourceClaims _ _ _).bind fun _ _ => Issues.ret _ _

/-- **What `ComplexInsert(ApiResource)` writes**: the scopes' claims go under the
ids the scopes get, one after the other. -/
theorem issues_complexInsertApiResource (r : Models.ApiResource P) (db : Db P) :
    Issues (complexInsertApiResource r) db
      (r.inserts (db .apiResources).next (db .apiScopes).next) := by
  obtain ⟨q, heq, hq⟩ := complexInsertApiResource_eq r
  rw [heq]
  exact Issues.insertWithIdentity_bind (hq _ _)

/-- The parent row is written even if the call throws. -/
theorem written_complexInsertApiResource (r : Models.ApiResource P) (db : Db P) :
    Written ((Delta.single .apiResources [r.toResourceColumns]).addTo db)
      (r.childInserts (db .apiResources).next (db .apiScopes).next)
      ((complexInsertApiResource r).run db).2 := by
  obtain ⟨q, heq, hq⟩ := complexInsertApiResource_eq r
  rw [heq]
  exact (hq _ _).run

/-- **What `ComplexInsert(IdentityResource)` writes.** -/
theorem issues_complexInsertIdentityResource (r : Models.IdentityResource P) (db : Db P) :
    Issues (complexInsertIdentityResource r) db (r.inserts (db .identityResources).next) := by
  refine Issues.insertWithIdentity_bind ?_
  exact (issues_bulkCopy .identityClaims _ _ _).bind fun _ _ => Issues.ret _ _

/-! ### When a call returns -/

/-- No collection is null and the grant types are accepted. -/
def Models.Client.Complete (c : Models.Client P (Collection String)) : Prop :=
  P.validateGrantTypes c.allowedGrantTypes = true ∧ c.allowedCorsOrigins.isSome ∧
    c.allowedGrantTypes.isSome ∧ c.allowedScopes.isSome ∧ c.claims.isSome ∧
    c.clientSecrets.isSome ∧ c.identityProviderRestrictions.isSome ∧
    c.postLogoutRedirectUris.isSome ∧ c.redirectUris.isSome

/-- No collection is null, nor is the `UserClaims` of a scope. -/
def Models.ApiResource.Complete (r : Models.ApiResource P) : Prop :=
  r.apiSecrets.isSome ∧ r.scopes.isSome ∧
    (∀ s ∈ r.scopes.getD [], s.userClaims.isSome) ∧ r.userClaims.isSome

/-- The user claims are not null. -/
def Models.IdentityResource.Complete (r : Models.IdentityResource P) : Prop :=
  r.userClaims.isSome

/-- A bulk copy goes through exactly if its source is not null. -/
theorem returns_bulkCopy_bind (t : TableName) (source : Collection α) (f : α → t.Columns P)
    (q : Unit → Program (Db P) Error β) (db : Db P) :
    (bulkCopy t source f >>= q).Returns db ↔ source.isSome ∧
      (q ()).Returns ((Delta.single t ((source.getD []).map f)).addTo db) := by
  cases source with
  | none => simp [bulkCopy, select]
  | some xs => simp [bulkCopy, select, insertRows, Program.update]

theorem returns_setAllowedGrantTypes_bind (value : Collection String)
    (q : Collection String → Program (Db P) Error β) (db : Db P) :
    (setAllowedGrantTypes P value >>= q).Returns db ↔
      P.validateGrantTypes value = true ∧ (q value).Returns db := by
  rw [setAllowedGrantTypes]
  split
  · next h => simp [h]
  · next h => simp [h]

theorem returns_insertRows_bind (δ : Rows P) (q : Unit → Program (Db P) Error β) (db : Db P) :
    (insertRows δ >>= q).Returns db ↔ (q ()).Returns (δ.addTo db) := Iff.rfl

theorem returns_insertWithIdentity_bind {t : TableName} (x : t.Columns P)
    (q : ℕ → Program (Db P) Error β) (db : Db P) :
    (insertWithIdentity t x >>= q).Returns db ↔
      (q (db t).next).Returns ((Delta.single t [x]).addTo db) := Iff.rfl

theorem complexInsertClient_returns_iff (c : Models.Client P (Collection String)) (db : Db P) :
    (complexInsertClient c).Returns db ↔ c.Complete := by
  simp only [complexInsertClient, returns_setAllowedGrantTypes_bind, returns_insertRows_bind,
    returns_bulkCopy_bind, Program.pure_eq, Program.returns_ret, and_true, Models.Client.Complete]

/-- The loop over the scopes goes through if no scope has null claims. -/
theorem returns_forM_insertScope_bind {X : Prop} {q : PUnit → Program (Db P) Error β}
    (hq : ∀ db, (q ⟨⟩).Returns db ↔ X) :
    ∀ (scopes : List (Entities.ApiScope × Collection String)) (db : Db P),
      (forM scopes insertScope >>= q).Returns db ↔ (∀ s ∈ scopes, s.2.isSome) ∧ X
  | [], db => by simp [hq]
  | s :: scopes, db => by
    rw [List.forM_cons, insertScope, bind_assoc, bind_assoc, returns_insertWithIdentity_bind,
      returns_bulkCopy_bind, returns_forM_insertScope_bind hq scopes, List.forall_mem_cons,
      and_assoc]

theorem complexInsertApiResource_returns_iff (r : Models.ApiResource P) (db : Db P) :
    (complexInsertApiResource r).Returns db ↔ r.Complete := by
  simp only [complexInsertApiResource, returns_insertWithIdentity_bind, returns_bulkCopy_bind,
    Models.ApiResource.Complete]
  refine and_congr_right fun _ => ?_
  cases r.scopes with
  | none => simp [select]
  | some scopes =>
    rw [select, Program.ret_bind, returns_forM_insertScope_bind (X := r.userClaims.isSome)]
    · simp
    · intro db
      rw [returns_bulkCopy_bind, Program.pure_eq]
      exact and_iff_left (Program.returns_ret _ _)

theorem complexInsertIdentityResource_returns_iff (r : Models.IdentityResource P) (db : Db P) :
    (complexInsertIdentityResource r).Returns db ↔ r.Complete := by
  simp only [complexInsertIdentityResource, returns_insertWithIdentity_bind,
    returns_bulkCopy_bind, Program.pure_eq, Program.returns_ret, and_true,
    Models.IdentityResource.Complete]

end IdentityLinq
