/-
The model classes of IdentityServer4 and the entities they are stored as.

`Models.*` are the objects the application works with, `Entities.*` the rows
and row objects of this library.  A row is an entity without its identity
column, which `Row` adds.  Most entities inherit a model class and add only an
`Id` or a foreign key.

The model classes belong to a package.  Of their members the library names the
collections and the key that its queries filter on (`ClientId`, `Name`); what
other scalar members they have, how linq2db lists their columns and which grant
types `Client.AllowedGrantTypes` accepts is a `Platform`.  Every result holds
for every platform; `Platform.plain` is one of them.

A collection is null or a list (`Collection`).  Strings that no query filters
on may be null as well.
-/
import IdentityLinq.Mapping
import IdentityLinq.Store

namespace IdentityLinq

/-- A moment in time, in ticks. -/
abbrev DateTime : Type := ℕ

/-- An `ICollection<T>`, or null. -/
abbrev Collection (α : Type) : Type := Option (List α)

/-! ### Models -/

namespace Models

structure Secret where
  description : Option String
  value : Option String
  expiration : Option DateTime
  type : Option String
deriving DecidableEq, Repr

/-- `System.Security.Claims.Claim`: both members are set by the constructor
only. -/
structure Claim where
  type : String
  value : String
deriving DecidableEq, Repr

/-- The scalar members of `Scope`. -/
structure ScopeColumns where
  name : String
  displayName : Option String
  description : Option String
  required : Bool
  emphasize : Bool
  showInDiscoveryDocument : Bool
deriving DecidableEq, Repr

structure Scope extends ScopeColumns where
  userClaims : Collection String
deriving DecidableEq, Repr

/-- The scalar members of `Client`: the one the library names, and the rest. -/
structure ClientColumns (σ : Type) where
  clientId : String
  scalars : σ
deriving DecidableEq, Repr

/-- The scalar members of `ApiResource` and of `IdentityResource`. -/
structure ResourceColumns (σ : Type) where
  name : String
  scalars : σ
deriving DecidableEq, Repr

end Models

/-- What the library takes over from linq2db and IdentityServer4. -/
structure Platform where
  ClientScalars : Type
  ApiResourceScalars : Type
  IdentityResourceScalars : Type
  /-- column values -/
  Value : Type
  /-- the columns of `Models.Client` and of `Entities.Client`, which adds none -/
  clientModel : List (Column (Models.ClientColumns ClientScalars) Value)
  client : List (Column (Models.ClientColumns ClientScalars) Value)
  newClient : Models.ClientColumns ClientScalars
  client_inherits : Inherits clientModel client id fun _ => ()
  /-- the columns of `Models.ApiResource` and of `Entities.ApiResource` -/
  apiResourceModel : List (Column (Models.ResourceColumns ApiResourceScalars) Value)
  apiResource : List (Column (Row (Models.ResourceColumns ApiResourceScalars)) Value)
  newApiResource : Models.ResourceColumns ApiResourceScalars
  apiResource_inherits : Inherits apiResourceModel apiResource Row.cols Row.id
  /-- the columns of `Models.IdentityResource` and of `Entities.IdentityResource` -/
  identityResourceModel : List (Column (Models.ResourceColumns IdentityResourceScalars) Value)
  identityResource : List (Column (Row (Models.ResourceColumns IdentityResourceScalars)) Value)
  newIdentityResource : Models.ResourceColumns IdentityResourceScalars
  identityResource_inherits : Inherits identityResourceModel identityResource Row.cols Row.id
  /-- whether the setter of `Client.AllowedGrantTypes` accepts a value -/
  validateGrantTypes : Collection String → Bool

namespace Models

/-- A client; `γ` is how its grant types are held. -/
structure Client (P : Platform) (γ : Type) extends ClientColumns P.ClientScalars where
  allowedGrantTypes : γ
  redirectUris : Collection String
  postLogoutRedirectUris : Collection String
  allowedScopes : Collection String
  clientSecrets : Collection Secret
  claims : Collection Claim
  identityProviderRestrictions : Collection String
  allowedCorsOrigins : Collection String

structure ApiResource (P : Platform) extends ResourceColumns P.ApiResourceScalars where
  apiSecrets : Collection Secret
  scopes : Collection Scope
  userClaims : Collection String

structure IdentityResource (P : Platform) extends ResourceColumns P.IdentityResourceScalars where
  userClaims : Collection String

end Models

/-! ### Entities -/

namespace Entities

/-- `Entities.Client` adds nothing to the model. -/
abbrev Client (P : Platform) (γ : Type) : Type := Models.Client P γ

structure ApiResource (P : Platform) extends Models.ApiResource P where
  id : ℕ

structure IdentityResource (P : Platform) extends Models.IdentityResource P where
  id : ℕ

structure ClientClaim extends Models.Claim where
  clientId : String
deriving DecidableEq, Repr

structure ClientCorsOrigin where
  origin : String
  clientId : String
deriving DecidableEq, Repr

structure ClientGrantType where
  grantType : String
  clientId : String
deriving DecidableEq, Repr

structure ClientIdentityProviderRestrictions where
  provider : String
  clientId : String
deriving DecidableEq, Repr

structure ClientPostLogoutRedirectUri where
  postLogoutRedirectUri : String
  clientId : String
deriving DecidableEq, Repr

structure ClientRedirectUri where
  redirectUri : String
  clientId : String
deriving DecidableEq, Repr

structure ClientScope where
  scope : String
  clientId : String
deriving DecidableEq, Repr

structure ClientSecret extends Models.Secret where
  clientId : String
deriving DecidableEq, Repr

structure ApiSecret extends Models.Secret where
  apiResourceId : ℕ
deriving DecidableEq, Repr

structure ApiScope extends Models.ScopeColumns where
  apiResourceId : ℕ
deriving DecidableEq, Repr

structure ApiResourceClaim where
  type : String
  apiResourceId : ℕ
deriving DecidableEq, Repr

structure ApiScopeClaim where
  type : String
  apiScopeId : ℕ
deriving DecidableEq, Repr

structure IdentityClaim where
  type : String
  identityResourceId : ℕ
deriving DecidableEq, Repr

/-- `new ClientClaim()`, which is `this(string.Empty, string.Empty)`. -/
def ClientClaim.new : ClientClaim := { type := "", value := "", clientId := "" }

/-- The object linq2db builds from a row of `ClientClaim`: the parameterless
constructor, then the columns that have a setter.  `Type` and `Value` have
none. -/
def ClientClaim.ofRow (row : ClientClaim) : ClientClaim :=
  { ClientClaim.new with clientId := row.clientId }

end Entities

/-! ### The configuration database -/

/-- The tables of the configuration store. -/
inductive TableName where
  | clients | clientClaims | clientCorsOrigins | clientGrantTypes | clientIdPRestrictions
  | clientPostLogoutRedirectUris | clientRedirectUris | clientScopes | clientSecrets
  | apiResources | apiResourceClaims | apiScopes | apiScopeClaims | apiSecrets
  | identityClaims | identityResources
deriving DecidableEq, Repr

/-- The columns of a table, its identity column apart.  (`Client` declares no
identity column; the numbers of its rows are seen by no query.) -/
abbrev TableName.Columns (P : Platform) : TableName → Type
  | .clients => Models.ClientColumns P.ClientScalars
  | .clientClaims => Entities.ClientClaim
  | .clientCorsOrigins => Entities.ClientCorsOrigin
  | .clientGrantTypes => Entities.ClientGrantType
  | .clientIdPRestrictions => Entities.ClientIdentityProviderRestrictions
  | .clientPostLogoutRedirectUris => Entities.ClientPostLogoutRedirectUri
  | .clientRedirectUris => Entities.ClientRedirectUri
  | .clientScopes => Entities.ClientScope
  | .clientSecrets => Entities.ClientSecret
  | .apiResources => Models.ResourceColumns P.ApiResourceScalars
  | .apiResourceClaims => Entities.ApiResourceClaim
  | .apiScopes => Entities.ApiScope
  | .apiScopeClaims => Entities.ApiScopeClaim
  | .apiSecrets => Entities.ApiSecret
  | .identityClaims => Entities.IdentityClaim
  | .identityResources => Models.ResourceColumns P.IdentityResourceScalars

/-- The configuration database. -/
abbrev Db (P : Platform) : Type := Store (TableName.Columns P)

/-- New rows of the configuration database. -/
abbrev Rows (P : Platform) : Type := Delta (TableName.Columns P)

/-- What can go wrong in a call. -/
inductive Error where
  /-- `ArgumentNullException`: LINQ on a null collection -/
  | argumentNull
  /-- `InvalidOperationException`: of the grant type setter, or of a call out of turn -/
  | invalidOperation
  /-- the database rejects a statement -/
  | database
deriving DecidableEq, Repr

end IdentityLinq
