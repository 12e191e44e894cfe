/-
The mappers of the host: models to entities and back, by AutoMapper.

A profile lists, member by member, the query that gives the value; AutoMapper
maps the elements of a collection one by one, and an element that should become a
string by its `ToString()`.  The entity classes inherit their collections from the
model classes, so what a profile wraps in an entity of its own becomes a string
again, and as these classes do not override `ToString`, the string is the name of
the class (`fullName`).

* `ClientMappers.toModel_toEntity` and its siblings — what comes back of a model;
* `hostMappers_inverse_iff` — it is the model exactly if every string that is
  wrapped was that name already (a resource without user claims, say).
-/
import IdentityLinq.Platform

namespace IdentityLinq

variable {P : Platform}

/-! ### AutoMapper -/

/-- The full name of an entity class, which is the `ToString()` of its objects. -/
def fullName (className : String) : String :=
  "IdentityServer4.Contrib.LinqToDB.Entities." ++ className

instance : ToString Entities.ClientGrantType := ⟨fun _ => fullName "ClientGrantType"⟩
instance : ToString Entities.ClientRedirectUri := ⟨fun _ => fullName "ClientRedirectUri"⟩
instance : ToString Entities.ClientPostLogoutRedirectUri :=
  ⟨fun _ => fullName "ClientPostLogoutRedirectUri"⟩
instance : ToString Entities.ClientScope := ⟨fun _ => fullName "ClientScope"⟩
instance : ToString Entities.ApiResourceClaim := ⟨fun _ => fullName "ApiResourceClaim"⟩
instance : ToString Entities.IdentityClaim := ⟨fun _ => fullName "IdentityClaim"⟩

/-- `opt.MapFrom(src => src.Member.Select(select))` for a collection of `γ`, to which
the elements are converted.  A null collection gives an empty one. -/
def mapFrom {α β γ : Type} (src : Collection α) (select : α → β) (convert : β → γ) :
    Collection γ :=
  some (((src.getD []).map select).map convert)

/-- The same for a collection of strings. -/
def mapToStrings {α β : Type} [ToString β] (src : Collection α) (select : α → β) :
    Collection String :=
  mapFrom src select toString

/-- The setter of `Client.AllowedGrantTypes`, called by AutoMapper. -/
def assignAllowedGrantTypes (P : Platform) (value : Collection String) :
    Except Error (Collection String) :=
  if P.validateGrantTypes value then .ok value else .error .invalidOperation

/-! ### The profiles -/

namespace ClientMapperProfile

/-- `CreateMap<Client, Models.Client>(MemberList.Destination)` -/
def entityToModel (src : Entities.Client P (Collection String)) :
    Except Error (Models.Client P (Collection String)) := do
  let allowedGrantTypes ← assignAllowedGrantTypes P
    (mapToStrings src.allowedGrantTypes fun x => x)
  return {
    toClientColumns := src.toClientColumns
    allowedGrantTypes := allowedGrantTypes
    redirectUris := mapToStrings src.redirectUris fun x => x
    postLogoutRedirectUris := mapToStrings src.postLogoutRedirectUris fun x => x
    allowedScopes := mapToStrings src.allowedScopes fun x => x
    clientSecrets := mapFrom src.clientSecrets (fun x => x) id
    claims := mapFrom src.claims (fun x => (⟨x.type, x.value⟩ : Models.Claim)) id
    identityProviderRestrictions := mapToStrings src.identityProviderRestrictions fun x => x
    allowedCorsOrigins := mapToStrings src.allowedCorsOrigins fun x => x }

/-- `CreateMap<Models.Client, Client>(MemberList.Source)`.  The `ClientId` of the new
objects is left alone; nothing reads it. -/
def modelToEntity (src : Models.Client P (Collection String)) :
    Except Error (Entities.Client P (Collection String)) := do
  let allowedGrantTypes ← assignAllowedGrantTypes P
    (mapToStrings src.allowedGrantTypes fun x => (⟨x, ""⟩ : Entities.ClientGrantType))
  return {
    toClientColumns := src.toClientColumns
    allowedGrantTypes := allowedGrantTypes
    redirectUris := mapToStrings src.redirectUris fun x => (⟨x, ""⟩ : Entities.ClientRedirectUri)
    postLogoutRedirectUris := mapToStrings src.postLogoutRedirectUris fun x =>
      (⟨x, ""⟩ : Entities.ClientPostLogoutRedirectUri)
    allowedScopes := mapToStrings src.allowedScopes fun x => (⟨x, ""⟩ : Entities.ClientScope)
    -- There is no option for the secrets: the member of the same name is taken.
    clientSecrets := mapFrom src.clientSecrets id id
    claims := mapFrom src.claims (fun x => x) id
    identityProviderRestrictions := mapToStrings src.identityProviderRestrictions fun x => x
    allowedCorsOrigins := mapToStrings src.allowedCorsOrigins fun x => x }

end ClientMapperProfile

namespace ApiResourceMapperProfile

/-- `CreateMap<ApiResource, Models.ApiResource>(MemberList.Destination)` -/
def entityToModel (src : Entities.ApiResource P) : Models.ApiResource P where
  toResourceColumns := src.toResourceColumns
  apiSecrets := mapFrom src.apiSecrets (fun x => x) id
  scopes := mapFrom src.scopes (fun x => x) id
  userClaims := mapToStrings src.userClaims fun x => x

/-- `CreateMap<Models.ApiResource, ApiResource>(MemberList.Source)` -/
def modelToEntity (src : Models.ApiResource P) : Entities.ApiResource P where
  id := 0
  toResourceColumns := src.toResourceColumns
  apiSecrets := mapFrom src.apiSecrets (fun x => x) id
  -- A scope is mapped to a scope, with the claims it has.
  scopes := mapFrom src.scopes (fun x => x) id
  userClaims := mapToStrings src.userClaims fun x => (⟨x, 0⟩ : Entities.ApiResourceClaim)

end ApiResourceMapperProfile

namespace IdentityResourceMapperProfile

/-- `CreateMap<IdentityResource, Models.IdentityResource>(MemberList.Destination)` -/
def entityToModel (src : Entities.IdentityResource P) : Models.IdentityResource P where
  toResourceColumns := src.toResourceColumns
  userClaims := mapToStrings src.userClaims fun x => x

/-- `CreateMap<Models.IdentityResource, IdentityResource>(MemberList.Source)` -/
def modelToEntity (src : Models.IdentityResource P) : Entities.IdentityResource P where
  id := 0
  toResourceColumns := src.toResourceColumns
  userClaims := mapToStrings src.userClaims fun x => (⟨x, 0⟩ : Entities.IdentityClaim)

end IdentityResourceMapperProfile

/-! ### The mappers -/

def ClientMappers.toModel (client : Entities.Client P (Collection String)) :
    Except Error (Models.Client P (Collection String)) :=
  ClientMapperProfile.entityToModel client

def ClientMappers.toEntity (client : Models.Client P (Collection String)) :
    Except Error (Entities.Client P (Collection String)) :=
  ClientMapperProfile.modelToEntity client

def ApiResourceMappers.toModel (resource : Option (Entities.ApiResource P)) :
    Option (Models.ApiResource P) :=
  match resource with
  | none => none
  | some resource => some (ApiResourceMapperProfile.entityToModel resource)

def ApiResourceMappers.toEntity (resource : Option (Models.ApiResource P)) :
    Option (Entities.ApiResource P) :=
  match resource with
  | none => none
  | some resource => some (ApiResourceMapperProfile.modelToEntity resource)

def IdentityResourceMappers.toModel (resource : Option (Entities.IdentityResource P)) :
    Option (Models.IdentityResource P) :=
  match resource with
  | none => none
  | some resource => some (IdentityResourceMapperProfile.entityToModel resource)

def IdentityResourceMappers.toEntity (resource : Option (Models.IdentityResource P)) :
    Option (Entities.IdentityResource P) :=
  match resource with
  | none => none
  | some resource => some (IdentityResourceMapperProfile.modelToEntity resource)

/-! ### What comes back -/

/-- The collection, empty if it is null. -/
def orEmpty {α : Type} (xs : Collection α) : Collection α := some (xs.getD [])

/-- The collection with every element replaced by the name of a class. -/
def renamed (className : String) (xs : Collection String) : Collection String :=
  some ((xs.getD []).map fun _ => fullName className)

theorem orEmpty_of_isSome {α : Type} {xs : Collection α} (h : xs.isSome) : orEmpty xs = xs := by
  obtain ⟨xs, rfl⟩ := Option.isSome_iff_exists.mp h
  rfl

theorem renamed_eq_iff {className : String} {xs : Collection String} (h : xs.isSome) :
    renamed className xs = xs ↔ ∀ x ∈ xs.getD [], x = fullName className := by
  obtain ⟨xs, rfl⟩ := Option.isSome_iff_exists.mp h
  rw [renamed, Option.getD_some, Option.some.injEq]
  constructor
  · intro hmap x hx
    rw [← hmap] at hx
    obtain ⟨-, -, rfl⟩ := List.mem_map.mp hx
    rfl
  · intro hall
    exact (List.map_congr_left fun x hx => (hall x hx).symm).trans (List.map_id _)

theorem mapFrom_id {α : Type} (src : Collection α) : mapFrom src (fun x => x) id = orEmpty src := by
  rw [mapFrom, List.map_id, List.map_id', orEmpty]

theorem mapToStrings_id (src : Collection String) :
    mapToStrings src (fun x => x) = orEmpty src :=
  mapFrom_id src

/-- Wrapping loses the strings. -/
theorem mapToStrings_wrap {β : Type} [ToString β] {select : String → β} {className : String}
    (h : ∀ x, toString (select x) = fullName className) (src : Collection String) :
    mapToStrings src select = renamed className src := by
  rw [mapToStrings, mapFrom, renamed, List.map_map]
  exact congrArg some (List.map_congr_left fun x _ => h x)

/-- A client as it comes back. -/
def Models.Client.renamed (m : Models.Client P (Collection String)) :
    Models.Client P (Collection String) where
  toClientColumns := m.toClientColumns
  allowedGrantTypes := IdentityLinq.renamed "ClientGrantType" m.allowedGrantTypes
  redirectUris := IdentityLinq.renamed "ClientRedirectUri" m.redirectUris
  postLogoutRedirectUris :=
    IdentityLinq.renamed "ClientPostLogoutRedirectUri" m.postLogoutRedirectUris
  allowedScopes := IdentityLinq.renamed "ClientScope" m.allowedScopes
  clientSecrets := orEmpty m.clientSecrets
  claims := orEmpty m.claims
  identityProviderRestrictions := orEmpty m.identityProviderRestrictions
  allowedCorsOrigins := orEmpty m.allowedCorsOrigins

theorem ClientMappers.toModel_toEntity (m : Models.Client P (Collection String)) :
    (ClientMappers.toEntity m >>= ClientMappers.toModel)
      = if P.validateGrantTypes (renamed "ClientGrantType" m.allowedGrantTypes) then
          .ok m.renamed
        else .error .invalidOperation := by
  have hgrants : mapToStrings m.allowedGrantTypes (fun x => (⟨x, ""⟩ : Entities.ClientGrantType))
      = renamed "ClientGrantType" m.allowedGrantTypes := mapToStrings_wrap (fun _ => rfl) _
  have hredirect : mapToStrings m.redirectUris (fun x => (⟨x, ""⟩ : Entities.ClientRedirectUri))
      = renamed "ClientRedirectUri" m.redirectUris := mapToStrings_wrap (fun _ => rfl) _
  have hlogout : mapToStrings m.postLogoutRedirectUris
        (fun x => (⟨x, ""⟩ : Entities.ClientPostLogoutRedirectUri))
      = renamed "ClientPostLogoutRedirectUri" m.postLogoutRedirectUris :=
    mapToStrings_wrap (fun _ => rfl) _
  have hscopes : mapToStrings m.allowedScopes (fun x => (⟨x, ""⟩ : Entities.ClientScope))
      = renamed "ClientScope" m.allowedScopes := mapToStrings_wrap (fun _ => rfl) _
  rw [ClientMappers.toEntity, ClientMapperProfile.modelToEntity, hgrants, assignAllowedGrantTypes]
  split
  · next hvalid =>
    -- The setter of the model is given the same names and accepts them again.
    have hagain : P.validateGrantTypes
        (orEmpty (renamed "ClientGrantType" m.allowedGrantTypes)) = true := hvalid
    show ClientMappers.toModel _ = _
    rw [ClientMappers.toModel, ClientMapperProfile.entityToModel]
    simp only [mapToStrings_id, assignAllowedGrantTypes, if_pos hagain, hredirect, hlogout, hscopes]
    exact congrArg Except.ok (by simp [Models.Client.renamed, mapFrom, orEmpty, renamed])
  · rfl

theorem ApiResourceMappers.toModel_toEntity (m : Models.ApiResource P) :
    ApiResourceMappers.toModel (ApiResourceMappers.toEntity (some m))
      = some { toResourceColumns := m.toResourceColumns
               apiSecrets := orEmpty m.apiSecrets
               scopes := orEmpty m.scopes
               userClaims := renamed "ApiResourceClaim" m.userClaims } := by
  have hclaims : mapToStrings m.userClaims (fun x => (⟨x, 0⟩ : Entities.ApiResourceClaim))
      = renamed "ApiResourceClaim" m.userClaims := mapToStrings_wrap (fun _ => rfl) _
  simp only [ApiResourceMappers.toModel, ApiResourceMappers.toEntity,
    ApiResourceMapperProfile.entityToModel, ApiResourceMapperProfile.modelToEntity, hclaims,
    mapFrom_id, mapToStrings_id]
  rfl

theorem IdentityResourceMappers.toModel_toEntity (m : Models.IdentityResource P) :
    IdentityResourceMappers.toModel (IdentityResourceMappers.toEntity (some m))
      = some { toResourceColumns := m.toResourceColumns
               userClaims := renamed "IdentityClaim" m.userClaims } := by
  have hclaims : mapToStrings m.userClaims (fun x => (⟨x, 0⟩ : Entities.IdentityClaim))
      = renamed "IdentityClaim" m.userClaims := mapToStrings_wrap (fun _ => rfl) _
  simp only [IdentityResourceMappers.toModel, IdentityResourceMappers.toEntity,
    IdentityResourceMapperProfile.entityToModel, IdentityResourceMapperProfile.modelToEntity,
    hclaims, mapToStrings_id]
  rfl

/-! ### When it is the model -/

def Models.Client.NonNull (m : Models.Client P (Collection String)) : Prop :=
  m.allowedGrantTypes.isSome ∧ m.redirectUris.isSome ∧ m.postLogoutRedirectUris.isSome ∧
    m.allowedScopes.isSome ∧ m.clientSecrets.isSome ∧ m.claims.isSome ∧
    m.identityProviderRestrictions.isSome ∧ m.allowedCorsOrigins.isSome

def Models.ApiResource.NonNull (m : Models.ApiResource P) : Prop :=
  m.apiSecrets.isSome ∧ m.scopes.isSome ∧ m.userClaims.isSome

def Models.IdentityResource.NonNull (m : Models.IdentityResource P) : Prop :=
  m.userClaims.isSome

/-- Every string that the profile wraps is the name of the class it is wrapped in. -/
def Models.Client.NamesClasses (m : Models.Client P (Collection String)) : Prop :=
  (∀ x ∈ m.allowedGrantTypes.getD [], x = fullName "ClientGrantType") ∧
    (∀ x ∈ m.redirectUris.getD [], x = fullName "ClientRedirectUri") ∧
    (∀ x ∈ m.postLogoutRedirectUris.getD [], x = fullName "ClientPostLogoutRedirectUri") ∧
    ∀ x ∈ m.allowedScopes.getD [], x = fullName "ClientScope"

theorem Models.Client.renamed_eq_iff {m : Models.Client P (Collection String)} (h : m.NonNull) :
    m.renamed = m ↔ m.NamesClasses := by
  obtain ⟨hgrants, hredirect, hlogout, hscopes, hsecrets, hclaims, hidp, hcors⟩ := h
  rw [NamesClasses, ← IdentityLinq.renamed_eq_iff hgrants,
    ← IdentityLinq.renamed_eq_iff hredirect, ← IdentityLinq.renamed_eq_iff hlogout,
    ← IdentityLinq.renamed_eq_iff hscopes]
  constructor
  · intro heq
    exact ⟨congrArg Models.Client.allowedGrantTypes heq, congrArg Models.Client.redirectUris heq,
      congrArg Models.Client.postLogoutRedirectUris heq, congrArg Models.Client.allowedScopes heq⟩
  · rintro ⟨h₁, h₂, h₃, h₄⟩
    rw [Models.Client.renamed, h₁, h₂, h₃, h₄, orEmpty_of_isSome hsecrets,
      orEmpty_of_isSome hclaims, orEmpty_of_isSome hidp, orEmpty_of_isSome hcors]

/-- A client comes back exactly if its own grant types are accepted and the wrapped
strings name their classes. -/
theorem ClientMappers.inverse_iff {m : Models.Client P (Collection String)} (h : m.NonNull) :
    (ClientMappers.toEntity m >>= ClientMappers.toModel) = .ok m ↔
      P.validateGrantTypes m.allowedGrantTypes = true ∧ m.NamesClasses := by
  have hnames := Models.Client.renamed_eq_iff h
  rw [ClientMappers.toModel_toEntity]
  constructor
  · intro hback
    split at hback
    · next hvalid =>
      have heq : m.renamed = m := Except.ok.inj hback
      have hgrants : IdentityLinq.renamed "ClientGrantType" m.allowedGrantTypes
          = m.allowedGrantTypes := congrArg Models.Client.allowedGrantTypes heq
      exact ⟨hgrants ▸ hvalid, hnames.mp heq⟩
    · simp at hback
  · rintro ⟨hvalid, hclasses⟩
    have heq : m.renamed = m := hnames.mpr hclasses
    have hgrants : IdentityLinq.renamed "ClientGrantType" m.allowedGrantTypes
        = m.allowedGrantTypes := congrArg Models.Client.allowedGrantTypes heq
    rw [hgrants, if_pos hvalid, heq]

theorem ApiResourceMappers.inverse_iff {m : Models.ApiResource P} (h : m.NonNull) :
    ApiResourceMappers.toModel (ApiResourceMappers.toEntity (some m)) = some m ↔
      ∀ x ∈ m.userClaims.getD [], x = fullName "ApiResourceClaim" := by
  obtain ⟨hsecrets, hscopes, hclaims⟩ := h
  rw [ApiResourceMappers.toModel_toEntity, ← renamed_eq_iff hclaims, Option.some.injEq,
    orEmpty_of_isSome hsecrets, orEmpty_of_isSome hscopes]
  constructor
  · intro heq
    exact congrArg Models.ApiResource.userClaims heq
  · intro hnames
    rw [hnames]

theorem IdentityResourceMappers.inverse_iff {m : Models.IdentityResource P} (h : m.NonNull) :
    IdentityResourceMappers.toModel (IdentityResourceMappers.toEntity (some m)) = some m ↔
      ∀ x ∈ m.userClaims.getD [], x = fullName "IdentityClaim" := by
  rw [IdentityResourceMappers.toModel_toEntity, ← renamed_eq_iff h, Option.some.injEq]
  constructor
  · intro heq
    exact congrArg Models.IdentityResource.userClaims heq
  · intro hnames
    rw [hnames]

/-- **When the mappers are inverse to each other.** -/
theorem hostMappers_inverse_iff :
    (∀ m : Models.Client P (Collection String), m.NonNull →
      ((ClientMappers.toEntity m >>= ClientMappers.toModel) = .ok m ↔
        P.validateGrantTypes m.allowedGrantTypes = true ∧ m.NamesClasses)) ∧
    (∀ m : Models.ApiResource P, m.NonNull →
      (ApiResourceMappers.toModel (ApiResourceMappers.toEntity (some m)) = some m ↔
        ∀ x ∈ m.userClaims.getD [], x = fullName "ApiResourceClaim")) ∧
    ∀ m : Models.IdentityResource P, m.NonNull →
      (IdentityResourceMappers.toModel (IdentityResourceMappers.toEntity (some m)) = some m ↔
        ∀ x ∈ m.userClaims.getD [], x = fullName "IdentityClaim") :=
  ⟨fun _ h => ClientMappers.inverse_iff h, fun _ h => ApiResourceMappers.inverse_iff h,
    fun _ h => IdentityResourceMappers.inverse_iff h⟩

theorem hostMappers_inverse_iff_plain :
    ApiResourceMappers.toModel
        (ApiResourceMappers.toEntity (some (plainApiResource "api" ["read"])))
        = some (plainApiResource "api" ["read"]) ∧
      (ClientMappers.toEntity (plainClient "app" []) >>= ClientMappers.toModel)
        ≠ .ok (plainClient "app" []) := by
  constructor
  · exact (hostMappers_inverse_iff.2.1 _ ⟨rfl, rfl, rfl⟩).mpr fun x hx =>
      absurd hx List.not_mem_nil
  · intro hback
    have hnames := (hostMappers_inverse_iff.1 _ ⟨rfl, rfl, rfl, rfl, rfl, rfl, rfl, rfl⟩).mp hback
    exact absurd (hnames.2.1 "client_credentials" List.mem_cons_self) (by decide)

/-- A client comes back with the name of a class for its grant type, and with two
grant types it is rejected; an identity resource loses its user claims. -/
theorem not_hostMappers_inverse_plain :
    (∃ m, (ClientMappers.toEntity (plainClient "app" []) >>= ClientMappers.toModel) = .ok m ∧
      m.allowedGrantTypes = some ["IdentityServer4.Contrib.LinqToDB.Entities.ClientGrantType"] ∧
      m ≠ plainClient "app" []) ∧
    (ClientMappers.toEntity { plainClient "app" [] with
        allowedGrantTypes := some ["client_credentials", "password"] } >>= ClientMappers.toModel)
      = .error .invalidOperation ∧
    ∃ m, IdentityResourceMappers.toModel (IdentityResourceMappers.toEntity
        (some (plainIdentityResource "profile" ["name"]))) = some m ∧
      m.userClaims = some ["IdentityServer4.Contrib.LinqToDB.Entities.IdentityClaim"] ∧
      m ≠ plainIdentityResource "profile" ["name"] := by
  refine ⟨⟨_, rfl, by decide, fun heq => ?_⟩, rfl, ⟨_, rfl, by decide, fun heq => ?_⟩⟩
  · exact absurd (congrArg Models.Client.allowedGrantTypes heq) (by decide)
  · exact absurd (congrArg Models.IdentityResource.userClaims heq) (by decide)

end IdentityLinq
