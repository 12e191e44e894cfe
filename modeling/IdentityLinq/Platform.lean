/-
A platform on which the library can be run.

`Platform.plain` gives every model class one Boolean member beside its key and
checks grant types by the rules IdentityServer4 documents.  Its descriptors are
built from two general ones: `plainColumns` for a model class and
`entityColumns` for the entity class that adds an `Id` to it, with the
inheritance facts `plainColumns_inherits` and `entityColumns_inherits`.
-/
import IdentityLinq.ComplexInsert

namespace IdentityLinq

/-- Column values of `Platform.plain`. -/
inductive ColumnValue where
  | string (s : String)
  | bool (b : Bool)
  | int (n : ℕ)
deriving DecidableEq, Repr

/-- A readable and writable scalar property. -/
def plainColumn {τ V : Type} (name : String) (get : τ → V) (set : V → τ → τ) : Column τ V where
  memberName := name
  isScalar := true
  hasGetter := true
  hasSetter := true
  isIdentity := false
  get := get
  set := set

/-- A key property and one Boolean property. -/
def plainColumns {τ : Type} (keyName flagName : String) (key : τ → String) (flag : τ → Bool)
    (mk : String → Bool → τ) : List (Column τ ColumnValue) :=
  [plainColumn keyName (fun x => .string (key x)) fun v x =>
      match v with
      | .string s => mk s (flag x)
      | _ => x,
   plainColumn flagName (fun x => .bool (flag x)) fun v x =>
      match v with
      | .bool b => mk (key x) b
      | _ => x]

/-- A model column, seen on the entity that inherits it. -/
def entityColumn {τ V : Type} (c : Column τ V) : Column (Row τ) V where
  memberName := c.memberName
  isScalar := c.isScalar
  hasGetter := c.hasGetter
  hasSetter := c.hasSetter
  isIdentity := c.isIdentity
  get := fun r => c.get r.cols
  set := fun v r => { r with cols := c.set v r.cols }

/-- The columns of an entity class that adds an `Id` to a model class. -/
def entityColumns {τ : Type} (model : List (Column τ ColumnValue)) :
    List (Column (Row τ) ColumnValue) :=
  { memberName := "Id"
    isScalar := true
    hasGetter := true
    hasSetter := true
    isIdentity := true
    get := fun r => .int r.id
    set := fun v r => match v with
      | .int n => { r with id := n }
      | _ => r } :: model.map entityColumn

section Plain

variable {τ : Type} {keyName flagName : String} {key : τ → String} {flag : τ → Bool}
  {mk : String → Bool → τ}

theorem plainColumns_inherits (hne : keyName ≠ flagName) (hkey : ∀ s b, key (mk s b) = s)
    (hflag : ∀ s b, flag (mk s b) = b) (hmk : ∀ x, mk (key x) (flag x) = x) :
    Inherits (plainColumns keyName flagName key flag mk)
      (plainColumns keyName flagName key flag mk) id fun _ => () where
  nodup := by simp [plainColumns, plainColumn, hne]
  readable := by simp [plainColumns, plainColumn]
  assignable := by simp [plainColumns, plainColumn, findColumn, hne]
  get_set := by simp [plainColumns, plainColumn, findColumn, hne, hkey, hflag]
  get_set_ne := by
    simp only [plainColumns, plainColumn, findColumn, List.mem_cons, List.not_mem_nil, or_false]
    rintro c (rfl | rfl) d hd c' (rfl | rfl) hname v res
    · exact absurd rfl hname
    · simp only [List.find?_cons, decide_true, Option.some.injEq] at hd
      subst hd
      cases v <;> simp [hflag]
    · simp only [List.find?_cons, hne, decide_false, decide_true, Option.some.injEq] at hd
      subst hd
      cases v <;> simp [hkey]
    · exact absurd rfl hname
  own_set := fun _ _ _ _ _ _ => rfl
  ext := by
    intro x y h
    have hk := h _ List.mem_cons_self
    have hf := h _ (List.mem_cons_of_mem _ List.mem_cons_self)
    simp only [plainColumn, ColumnValue.string.injEq, ColumnValue.bool.injEq] at hk hf
    rw [← hmk x, ← hmk y, hk, hf]

/-- The `Id` column is never the one that is looked up. -/
theorem findColumn_entityColumns {model : List (Column τ ColumnValue)}
    (hid : "Id" ∉ model.map Column.memberName) {c : Column τ ColumnValue} (hc : c ∈ model) :
    findColumn (entityColumns model) c = (findColumn model c).map entityColumn := by
  have hne : "Id" ≠ c.memberName := fun he => hid (he ▸ List.mem_map_of_mem hc)
  rw [findColumn, entityColumns, List.find?_cons_of_neg (by simpa using hne), List.find?_map]
  rfl

theorem entityColumns_inherits {model : List (Column τ ColumnValue)}
    (h : Inherits model model id fun _ => ()) (hid : "Id" ∉ model.map Column.memberName) :
    Inherits model (entityColumns model) Row.cols Row.id where
  nodup := h.nodup
  readable := h.readable
  assignable := by
    intro c hc
    obtain ⟨d, hd, hset⟩ := h.assignable c hc
    exact ⟨entityColumn d, by rw [findColumn_entityColumns hid hc, hd]; rfl, hset⟩
  get_set := by
    intro c hc d hd x res
    rw [findColumn_entityColumns hid hc] at hd
    obtain ⟨d', hd', rfl⟩ := Option.map_eq_some_iff.mp hd
    exact h.get_set c hc d' hd' x res.cols
  get_set_ne := by
    intro c hc d hd c' hc' hname v res
    rw [findColumn_entityColumns hid hc] at hd
    obtain ⟨d', hd', rfl⟩ := Option.map_eq_some_iff.mp hd
    exact h.get_set_ne c hc d' hd' c' hc' hname v res.cols
  own_set := by
    intro c hc d hd v res
    rw [findColumn_entityColumns hid hc] at hd
    obtain ⟨d', hd', rfl⟩ := Option.map_eq_some_iff.mp hd
    rfl
  ext := h.ext

end Plain

/-- The rules of the grant type setter: at least one type, no spaces, no
duplicates, and no two of the flows that must not be combined. -/
def plainValidateGrantTypes : Collection String → Bool
  | none => false
  | some types =>
    !types.isEmpty && types.all (fun t => !t.toList.contains ' ') && decide types.Nodup &&
      !(types.contains "implicit" && types.contains "authorization_code") &&
      !(types.contains "implicit" && types.contains "hybrid") &&
      !(types.contains "authorization_code" && types.contains "hybrid")

/-- A platform whose model classes have one Boolean member beside their key. -/
def Platform.plain : Platform where
  ClientScalars := Bool
  ApiResourceScalars := Bool
  IdentityResourceScalars := Bool
  Value := ColumnValue
  clientModel := plainColumns "ClientId" "Enabled" (·.clientId) (·.scalars) .mk
  client := plainColumns "ClientId" "Enabled" (·.clientId) (·.scalars) .mk
  newClient := ⟨"", true⟩
  client_inherits :=
    plainColumns_inherits (by decide) (fun _ _ => rfl) (fun _ _ => rfl) fun _ => rfl
  apiResourceModel := plainColumns "Name" "Enabled" (·.name) (·.scalars) .mk
  apiResource := entityColumns (plainColumns "Name" "Enabled" (·.name) (·.scalars) .mk)
  newApiResource := ⟨"", true⟩
  apiResource_inherits := entityColumns_inherits
    (plainColumns_inherits (by decide) (fun _ _ => rfl) (fun _ _ => rfl) fun _ => rfl) (by decide)
  identityResourceModel := plainColumns "Name" "Enabled" (·.name) (·.scalars) .mk
  identityResource := entityColumns (plainColumns "Name" "Enabled" (·.name) (·.scalars) .mk)
  newIdentityResource := ⟨"", true⟩
  identityResource_inherits := entityColumns_inherits
    (plainColumns_inherits (by decide) (fun _ _ => rfl) (fun _ _ => rfl) fun _ => rfl) (by decide)
  validateGrantTypes := plainValidateGrantTypes

/-! ### Models of the plain platform -/

/-- A scope without claims. -/
def plainScope (name : String) : Models.Scope where
  name := name
  displayName := none
  description := none
  required := false
  emphasize := false
  showInDiscoveryDocument := true
  userClaims := some []

/-- An API resource with nothing but scopes. -/
def plainApiResource (name : String) (scopeNames : List String) :
    Models.ApiResource Platform.plain where
  name := name
  scalars := true
  apiSecrets := some []
  scopes := some (scopeNames.map plainScope)
  userClaims := some []

/-- An API resource with something in every collection, and in those of its scopes. -/
def fullApiResource (name : String) (scopeNames : List String) :
    Models.ApiResource Platform.plain where
  name := name
  scalars := false
  apiSecrets := some [⟨some "first", some "K7gNU3sd", none, some "SharedSecret"⟩,
    ⟨none, some "fU7fXK2e", some 5, some "SharedSecret"⟩]
  scopes := some (scopeNames.map fun scopeName =>
    { plainScope scopeName with userClaims := some ["name", "email"] })
  userClaims := some ["role", "email"]

/-- An identity resource with user claims. -/
def plainIdentityResource (name : String) (userClaims : List String) :
    Models.IdentityResource Platform.plain where
  name := name
  scalars := true
  userClaims := some userClaims

/-- A client with nothing but a grant type and claims. -/
def plainClient (clientId : String) (claims : List Models.Claim) :
    Models.Client Platform.plain (Collection String) where
  clientId := clientId
  scalars := true
  allowedGrantTypes := some ["client_credentials"]
  redirectUris := some []
  postLogoutRedirectUris := some []
  allowedScopes := some []
  clientSecrets := some []
  claims := some claims
  identityProviderRestrictions := some []
  allowedCorsOrigins := some []

/-- A client with something in every collection. -/
def fullClient (clientId : String) (claims : List Models.Claim) :
    Models.Client Platform.plain (Collection String) where
  clientId := clientId
  scalars := false
  allowedGrantTypes := some ["hybrid", "client_credentials"]
  redirectUris := some ["https://app/signin", "https://app/silent"]
  postLogoutRedirectUris := some ["https://app/signout"]
  allowedScopes := some ["openid", "api"]
  clientSecrets := some [⟨some "first", some "K7gNU3sd", none, some "SharedSecret"⟩,
    ⟨none, some "fU7fXK2e", some 5, some "SharedSecret"⟩]
  claims := some claims
  identityProviderRestrictions := some ["oidc"]
  allowedCorsOrigins := some ["https://app", "https://www"]

theorem fullClient_complete (clientId : String) (claims : List Models.Claim) :
    (fullClient clientId claims).Complete :=
  ⟨rfl, rfl, rfl, rfl, rfl, rfl, rfl, rfl, rfl⟩

theorem plainClient_complete (clientId : String) (claims : List Models.Claim) :
    (plainClient clientId claims).Complete :=
  ⟨rfl, rfl, rfl, rfl, rfl, rfl, rfl, rfl, rfl⟩

end IdentityLinq
