/-
`ClientStore`: reading a client back.

`FindClientByIdAsync` issues one statement for the client and one for each of
its collections.  The grant types are assigned as a query that has not run yet:
the setter of `AllowedGrantTypes` runs it once to check the list, and whoever
enumerates the property later runs it again.  So a found client holds its grant
types as a function of the database (`FoundClient`).

* `run_findClientByIdAsync` — what the method returns on a database;
* `loadClient` — the collections of a found client are the rows its `ClientId`
  owns, but every claim has lost its type and value, which a row object of
  `ClientClaim` cannot be given;
* `Models.Client.content_blank_eq_iff` — that loss shows unless all claims were
  empty to begin with.
-/
import IdentityLinq.Ownership
import Mathlib.Data.Multiset.Replicate

namespace IdentityLinq

variable {P : Platform}

/-! ### The code -/

/-- A client as the store returns it. -/
abbrev FoundClient (P : Platform) : Type := Entities.Client P (Db P → List String)

/-- `from` one table of client rows, `Where(_ => _.ClientId == clientId)`. -/
def clientRows (t : TableName) (key : t.Columns P → String) (clientId : String) (db : Db P) :
    List (t.Columns P) :=
  (db t).values.filter fun x => decide (key x = clientId)

/-- The query behind `AllowedGrantTypes`. -/
def grantTypesQuery (clientId : String) (db : Db P) : List String :=
  (clientRows .clientGrantTypes (·.clientId) clientId db).map (·.grantType)

/-- `FindClientByIdAsync(clientId)`. -/
def findClientByIdAsync (clientId : String) : Program (Db P) Error (Option (FoundClient P)) := do
  let client ← Program.query fun db =>
    (db .clients).values.find? fun x => decide (x.clientId = clientId)
  match client with
  | none => return none
  | some client =>
    -- The setter enumerates the query to check it; the client keeps the query.
    let grantTypes ← Program.query (grantTypesQuery clientId)
    let _ ← setAllowedGrantTypes P (some grantTypes)
    let redirectUris ← Program.query (clientRows .clientRedirectUris (·.clientId) clientId)
    let postLogoutRedirectUris ←
      Program.query (clientRows .clientPostLogoutRedirectUris (·.clientId) clientId)
    let allowedScopes ← Program.query (clientRows .clientScopes (·.clientId) clientId)
    let clientSecrets ← Program.query (clientRows .clientSecrets (·.clientId) clientId)
    -- A claim object is built from its row without a type and a value.
    let claims ← Program.query (clientRows .clientClaims (·.clientId) clientId)
    let identityProviderRestrictions ←
      Program.query (clientRows .clientIdPRestrictions (·.clientId) clientId)
    let allowedCorsOrigins ←
      Program.query (clientRows .clientCorsOrigins (·.clientId) clientId)
    return some
      { toClientColumns := client
        allowedGrantTypes := grantTypesQuery clientId
        redirectUris := some (redirectUris.map (·.redirectUri))
        postLogoutRedirectUris := some (postLogoutRedirectUris.map (·.postLogoutRedirectUri))
        allowedScopes := some (allowedScopes.map (·.scope))
        clientSecrets := some (clientSecrets.map (·.toSecret))
        claims := some (claims.map fun x => (Entities.ClientClaim.ofRow x).toClaim)
        identityProviderRestrictions := some (identityProviderRestrictions.map (·.provider))
        allowedCorsOrigins := some (allowedCorsOrigins.map (·.origin)) }

/-! ### What the store returns on a database -/

/-- The client found on `db`, from its row of `Client`. -/
def loadClient (db : Db P) (client : Models.ClientColumns P.ClientScalars) : FoundClient P where
  toClientColumns := client
  allowedGrantTypes := grantTypesQuery client.clientId
  redirectUris := some
    ((ownedBy db .clientRedirectUris (.client client.clientId)).map (·.redirectUri))
  postLogoutRedirectUris := some ((ownedBy db .clientPostLogoutRedirectUris
    (.client client.clientId)).map (·.postLogoutRedirectUri))
  allowedScopes := some ((ownedBy db .clientScopes (.client client.clientId)).map (·.scope))
  clientSecrets := some ((ownedBy db .clientSecrets (.client client.clientId)).map (·.toSecret))
  claims := some ((ownedBy db .clientClaims (.client client.clientId)).map fun _ => ⟨"", ""⟩)
  identityProviderRestrictions := some
    ((ownedBy db .clientIdPRestrictions (.client client.clientId)).map (·.provider))
  allowedCorsOrigins := some
    ((ownedBy db .clientCorsOrigins (.client client.clientId)).map (·.origin))

theorem clientRows_eq_ownedBy {t : TableName} {key : t.Columns P → String}
    (hkey : ∀ x, owner t x = some (.client (key x))) (clientId : String) (db : Db P) :
    clientRows t key clientId db = ownedBy db t (.client clientId) :=
  (ownedBy_eq_filter_key db (fun _ _ => Owner.client.inj) hkey clientId).symm

theorem grantTypesQuery_eq (clientId : String) (db : Db P) :
    grantTypesQuery clientId db
      = (ownedBy db .clientGrantTypes (.client clientId)).map (·.grantType) := by
  rw [grantTypesQuery, clientRows_eq_ownedBy fun _ => rfl]

theorem run_findClientByIdAsync_none {clientId : String} {db : Db P}
    (h : ∀ x ∈ (db .clients).values, x.clientId ≠ clientId) :
    (findClientByIdAsync clientId).run db = (.ok none, db) := by
  have hfind : (db .clients).values.find? (fun x => decide (x.clientId = clientId)) = none := by
    rw [List.find?_eq_none]
    exact fun x hx hid => h x hx (of_decide_eq_true hid)
  rw [findClientByIdAsync, Program.run_query_bind, hfind]
  rfl

theorem run_findClientByIdAsync_some {clientId : String} {db : Db P}
    {client : Models.ClientColumns P.ClientScalars}
    (h : (db .clients).values.find? (fun x => decide (x.clientId = clientId)) = some client) :
    (findClientByIdAsync clientId).run db
      = if P.validateGrantTypes (some (grantTypesQuery clientId db)) then
          (.ok (some (loadClient db client)), db)
        else (.error .invalidOperation, db) := by
  have hid : client.clientId = clientId := by simpa using List.find?_some h
  subst hid
  rw [findClientByIdAsync, Program.run_query_bind, h]
  simp only [Program.run_query_bind, setAllowedGrantTypes]
  split
  · simp only [Program.ret_bind, Program.run_query_bind, Program.pure_eq, Program.run_ret]
    rw [clientRows_eq_ownedBy (t := .clientRedirectUris) fun _ => rfl,
      clientRows_eq_ownedBy (t := .clientPostLogoutRedirectUris) fun _ => rfl,
      clientRows_eq_ownedBy (t := .clientScopes) fun _ => rfl,
      clientRows_eq_ownedBy (t := .clientSecrets) fun _ => rfl,
      clientRows_eq_ownedBy (t := .clientClaims) fun _ => rfl,
      clientRows_eq_ownedBy (t := .clientIdPRestrictions) fun _ => rfl,
      clientRows_eq_ownedBy (t := .clientCorsOrigins) fun _ => rfl]
    rfl
  · rfl

/-- A client that is found is the one loaded from a row of `Client` under its id. -/
theorem eq_loadClient_of_found {clientId : String} {db : Db P} {x : FoundClient P}
    (h : ((findClientByIdAsync clientId).run db).1 = .ok (some x)) :
    ∃ client ∈ (db .clients).values, client.clientId = clientId ∧ x = loadClient db client := by
  cases hfind : (db .clients).values.find? (fun c => decide (c.clientId = clientId)) with
  | none =>
    have hnone : ∀ c ∈ (db .clients).values, c.clientId ≠ clientId := by
      intro c hc hid
      exact absurd (decide_eq_true hid) (List.find?_eq_none.mp hfind c hc)
    rw [run_findClientByIdAsync_none hnone] at h
    simp at h
  | some client =>
    have hid : client.clientId = clientId := by simpa using List.find?_some hfind
    refine ⟨client, List.mem_of_find?_eq_some hfind, hid, ?_⟩
    rw [run_findClientByIdAsync_some hfind] at h
    split at h
    · exact (Option.some.inj (Except.ok.inj h)).symm
    · simp at h

theorem readOnly_findClientByIdAsync (clientId : String) :
    (findClientByIdAsync (P := P) clientId).ReadOnly := by
  refine (Program.ReadOnly.query _).bind fun client => ?_
  cases client with
  | none => exact trivial
  | some client =>
    refine (Program.ReadOnly.query _).bind fun grantTypes => ?_
    rw [setAllowedGrantTypes]
    split
    · exact ⟨fun _ => rfl, fun _ => ⟨fun _ => rfl, fun _ => ⟨fun _ => rfl, fun _ =>
        ⟨fun _ => rfl, fun _ => ⟨fun _ => rfl, fun _ => ⟨fun _ => rfl, fun _ =>
          ⟨fun _ => rfl, fun _ => trivial⟩⟩⟩⟩⟩⟩⟩
    · exact trivial

/-! ### Contents -/

/-- What a caller sees of a client. -/
@[ext] structure ClientContent (P : Platform) where
  columns : Models.ClientColumns P.ClientScalars
  allowedGrantTypes : Option (Multiset String)
  redirectUris : Option (Multiset String)
  postLogoutRedirectUris : Option (Multiset String)
  allowedScopes : Option (Multiset String)
  clientSecrets : Option (Multiset Models.Secret)
  claims : Option (Multiset Models.Claim)
  identityProviderRestrictions : Option (Multiset String)
  allowedCorsOrigins : Option (Multiset String)

def Models.Client.content (c : Models.Client P (Collection String)) : ClientContent P where
  columns := c.toClientColumns
  allowedGrantTypes := c.allowedGrantTypes.map (↑)
  redirectUris := c.redirectUris.map (↑)
  postLogoutRedirectUris := c.postLogoutRedirectUris.map (↑)
  allowedScopes := c.allowedScopes.map (↑)
  clientSecrets := c.clientSecrets.map (↑)
  claims := c.claims.map (↑)
  identityProviderRestrictions := c.identityProviderRestrictions.map (↑)
  allowedCorsOrigins := c.allowedCorsOrigins.map (↑)

/-- The content of a found client whose grant types are enumerated on `db`. -/
def contentOn (db : Db P) (x : FoundClient P) : ClientContent P :=
  Models.Client.content { x with allowedGrantTypes := some (x.allowedGrantTypes db) }

/-- Every claim is the empty one. -/
def Models.Client.BlankClaims (c : Models.Client P (Collection String)) : Prop :=
  ∀ x ∈ c.claims.getD [], x = ⟨"", ""⟩

/-- The client with its claims blanked. -/
def Models.Client.blank (c : Models.Client P (Collection String)) :
    Models.Client P (Collection String) :=
  { c with claims := c.claims.map fun claims => claims.map fun _ => ⟨"", ""⟩ }

/-- Blanking shows unless there was nothing to blank. -/
theorem Models.Client.content_blank_eq_iff (c : Models.Client P (Collection String)) :
    c.blank.content = c.content ↔ c.BlankClaims := by
  constructor
  · intro h x hx
    have hclaims := congrArg ClientContent.claims h
    cases hc : c.claims with
    | none =>
      rw [hc] at hx
      exact absurd hx List.not_mem_nil
    | some claims =>
      rw [hc] at hx
      rw [Models.Client.content, Models.Client.content, Models.Client.blank, hc] at hclaims
      -- `x` is among the blanked claims, since these are the same multiset.
      have hmem : x ∈ (claims.map fun _ => (⟨"", ""⟩ : Models.Claim) : Multiset Models.Claim) := by
        rw [Option.some.inj hclaims]
        exact Multiset.mem_coe.mpr hx
      obtain ⟨y, -, hy⟩ := List.mem_map.mp (Multiset.mem_coe.mp hmem)
      exact hy.symm
  · intro h
    refine ClientContent.ext rfl rfl rfl rfl rfl rfl ?_ rfl rfl
    cases hc : c.claims with
    | none => simp only [Models.Client.content, Models.Client.blank, hc, Option.map_none]
    | some claims =>
      have hmap : (claims.map fun _ => (⟨"", ""⟩ : Models.Claim)) = claims := by
        conv_rhs => rw [← List.map_id claims]
        refine List.map_congr_left fun x hx => (h x ?_).symm
        rw [hc]
        exact hx
      simp only [Models.Client.content, Models.Client.blank, hc, Option.map_some, hmap]

end IdentityLinq
