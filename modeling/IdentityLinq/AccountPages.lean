/-
The login pages of the host.

A browser is signed in by `Login`, with a password, or by `ExternalLoginCallback`, with
what an external provider has left in the temporary cookie; `Logout` ends it, and the
cookies expire.  Any of the actions can be called with any parameters, and users, clients
and options may change in between.

* `account_signedIn` — who is signed in has shown a password or an external identity in
  some step of the run, and has not been signed out since;
* `account_signedOut` — what can end the session of a user: no link to `Logout` does who
  should have been asked;
* `account_offered` — a browser that only uses what the login pages show gets in only by
  what one of them has shown, and was allowed to.
-/
import IdentityLinq.ConsentPage

namespace IdentityLinq.Quickstart

variable {P : Platform}

/-! ### What the pages work with -/

/-- The members of `AccountOptions` that can be set. -/
structure AccountOptions where
  allowLocalLogin : Bool := true
  allowRememberLogin : Bool := true
  /-- 30 days -/
  rememberMeLoginDuration : ℕ := 30 * 24 * 60 * 60 * 10000000
  showLogoutPrompt : Bool := true
  automaticRedirectAfterSignOut : Bool := false
  windowsAuthenticationEnabled : Bool := false
  invalidCredentialsErrorMessage : String := "Invalid username or password"
deriving DecidableEq, Repr

def windowsAuthenticationSchemes : List String := ["Negotiate", "NTLM"]

def windowsAuthenticationProviderName : String := "Windows"

def windowsAuthenticationDisplayName : String := "Windows"

/-- `IdentityServerConstants.LocalIdentityProvider` -/
def localIdentityProvider : String := "local"

/-- An authentication scheme, or the link to it on the login page. -/
structure ExternalProvider where
  displayName : Option String
  authenticationScheme : String
deriving DecidableEq, Repr

structure TestUser where
  subjectId : String
  username : String
deriving DecidableEq, Repr

/-- The claim types that the pages name, and the others. -/
inductive ClaimType where
  | subject
  | nameIdentifier
  | name
  | sessionId
  | other (type : String)
deriving DecidableEq, Repr

structure UserClaim where
  type : ClaimType
  value : String
deriving DecidableEq, Repr

/-- What is in the temporary cookie of an external authentication. -/
structure AuthenticateInfo where
  claims : List UserClaim
  /-- `Properties.Items["scheme"]` -/
  scheme : Option String
  idToken : Option String
deriving DecidableEq, Repr

/-- What is in the authentication cookie. -/
structure UserSession where
  subjectId : String
  username : String
  idp : String
  additionalClaims : List UserClaim
  /-- the explicit expiration of a persistent cookie -/
  expiresUtc : Option DateTime
  idToken : Option String
deriving DecidableEq, Repr

structure LogoutRequest where
  clientId : Option String
  postLogoutRedirectUri : Option String
  signOutIFrameUrl : Option String
  showSignoutPrompt : Bool
deriving DecidableEq, Repr

/-- What `SignOutAsync` of an external provider may throw. -/
inductive SignOutException where
  | notSupported
  | invalidOperation
  | other
deriving DecidableEq, Repr

/-- The options, and what the services, the stores and the user store answer while one HTTP
request is handled. -/
structure AccountWorld (P : Platform) where
  options : AccountOptions
  utcNow : DateTime
  getAuthorizationContextAsync : Option String → Option AuthorizationRequest
  findEnabledClientByIdAsync : Option String → Option (Models.Client P (Collection String))
  getAuthenticationSchemes : List ExternalProvider
  /-- there is a handler that takes a challenge with the scheme -/
  handlesChallenge : String → Bool
  /-- of a URL; null is not valid -/
  isValidReturnUrl : String → Bool
  validateCredentials : String → String → Bool
  findByUsername : String → Option TestUser
  findByExternalProvider : String → String → Option TestUser
  autoProvisionUser : String → String → List UserClaim → TestUser
  /-- `HttpContext.User`, if it is a `WindowsPrincipal` -/
  windowsUser : Option String
  getLogoutContextAsync : Option String → Option LogoutRequest
  createLogoutContextAsync : String
  signOutAsync : String → Option SignOutException

/-! ### `AccountService` -/

structure LoginInputModel where
  username : Option String
  password : Option String
  rememberLogin : Bool
  returnUrl : Option String
deriving DecidableEq, Repr

structure LoginViewModel extends LoginInputModel where
  allowRememberLogin : Bool
  enableLocalLogin : Bool
  externalProviders : List ExternalProvider
deriving DecidableEq, Repr

/-- `char.IsWhiteSpace(c)` -/
def isWhiteSpace (c : Char) : Bool :=
  (0x09 ≤ c.toNat && c.toNat ≤ 0x0D) || (0x2000 ≤ c.toNat && c.toNat ≤ 0x200A) ||
    [0x20, 0x85, 0xA0, 0x1680, 0x2028, 0x2029, 0x202F, 0x205F, 0x3000].contains c.toNat

/-- `string.IsNullOrWhiteSpace(value)` -/
def isNullOrWhiteSpace : Option String → Bool
  | none => true
  | some value => value.toList.all isWhiteSpace

def LoginViewModel.visibleExternalProviders (vm : LoginViewModel) : List ExternalProvider :=
  vm.externalProviders.filter fun x => !isNullOrWhiteSpace x.displayName

/-- `BuildLoginViewModelAsync(returnUrl)`; `enableLocalLogin` reads that member of a client. -/
def buildLoginViewModelAsync (enableLocalLogin : P.ClientScalars → Bool)
    (world : AccountWorld P) (returnUrl : Option String) : LoginViewModel :=
  let context := world.getAuthorizationContextAsync returnUrl
  match context.bind (·.idP) with
  | some idP =>
    { username := context.bind (·.loginHint)
      password := none
      rememberLogin := false
      returnUrl := returnUrl
      allowRememberLogin := false
      enableLocalLogin := false
      externalProviders := [{ displayName := none, authenticationScheme := idP }] }
  | none =>
    let schemes := world.getAuthenticationSchemes
    let providers := schemes.filter fun x =>
      x.displayName.isSome && !windowsAuthenticationSchemes.contains x.authenticationScheme
    let providers :=
      if world.options.windowsAuthenticationEnabled && schemes.any (fun s =>
          windowsAuthenticationSchemes.contains s.authenticationScheme) then
        providers ++ [{ displayName := windowsAuthenticationDisplayName
                        authenticationScheme := windowsAuthenticationSchemes.headD "" }]
      else providers
    let client := (context.bind (·.clientId)).bind fun id => world.findEnabledClientByIdAsync id
    let allowLocal := (client.map fun client => enableLocalLogin client.scalars).getD true
    let restrictions := (client.bind (·.identityProviderRestrictions)).getD []
    let providers :=
      if restrictions ≠ [] then
        providers.filter fun provider => restrictions.contains provider.authenticationScheme
      else providers
    { username := context.bind (·.loginHint)
      password := none
      rememberLogin := false
      returnUrl := returnUrl
      allowRememberLogin := world.options.allowRememberLogin
      enableLocalLogin := allowLocal && world.options.allowLocalLogin
      externalProviders := providers }

structure LogoutViewModel where
  logoutId : Option String
  showLogoutPrompt : Bool
deriving DecidableEq, Repr

/-- `BuildLogoutViewModelAsync(logoutId)`, for the user of the request. -/
def buildLogoutViewModelAsync (world : AccountWorld P) (user : Option UserSession)
    (logoutId : Option String) : LogoutViewModel where
  logoutId := logoutId
  showLogoutPrompt :=
    if user = none then false
    else if (world.getLogoutContextAsync logoutId).map (·.showSignoutPrompt) = some false then false
    else world.options.showLogoutPrompt

structure LoggedOutViewModel where
  postLogoutRedirectUri : Option String
  clientName : Option String
  signOutIframeUrl : Option String
  automaticRedirectAfterSignOut : Bool
  logoutId : Option String
  externalAuthenticationScheme : Option String
deriving DecidableEq, Repr

/-- `BuildLoggedOutViewModelAsync(logoutId)` -/
def buildLoggedOutViewModelAsync (world : AccountWorld P) (user : Option UserSession)
    (logoutId : Option String) : LoggedOutViewModel :=
  let logout := world.getLogoutContextAsync logoutId
  let idp := (user.map (·.idp)).filter (· ≠ localIdentityProvider)
  { postLogoutRedirectUri := logout.bind (·.postLogoutRedirectUri)
    clientName := logout.bind (·.clientId)
    signOutIframeUrl := logout.bind (·.signOutIFrameUrl)
    automaticRedirectAfterSignOut := world.options.automaticRedirectAfterSignOut
    logoutId := if idp.isSome then logoutId.getD world.createLogoutContextAsync else logoutId
    externalAuthenticationScheme := idp }

/-! ### `AccountController` -/

/-- What the actions can throw. -/
inductive AccountError where
  /-- `Exception("External authentication error")` -/
  | externalAuthentication
  /-- `Exception("Unknown userid")` -/
  | unknownUserid
  | keyNotFound
  | nullReference
  /-- a challenge with a scheme that is null or empty -/
  | argument
  /-- a challenge with a scheme that no handler takes -/
  | invalidOperation
  /-- what `SignOutAsync` of an external provider has thrown -/
  | signOut
deriving DecidableEq, Repr

/-- What the browser has been answered. -/
inductive AccountPage where
  | blank
  | login (vm : LoginViewModel) (errors : List String)
  | logout (vm : LogoutViewModel)
  | loggedOut (vm : LoggedOutViewModel)
  | redirected (url : String)
  /-- `Redirect("~/")` -/
  | home
  /-- a redirect to `Url.Action("ExternalLoginCallback", new {returnUrl})` -/
  | callback (returnUrl : Option String)
  /-- a challenge to authenticate with one of the schemes -/
  | challenged (schemes : List String)
  | thrown (e : AccountError)
deriving DecidableEq, Repr

/-- A browser at the pages, with its cookies. -/
structure AccountSession where
  page : AccountPage
  cookie : Option UserSession
  externalCookie : Option AuthenticateInfo
  /-- the providers it has been sent to, with the return URL of the round trip -/
  challenges : List (String × Option String)
deriving DecidableEq, Repr

def AccountSession.init : AccountSession :=
  { page := .blank, cookie := none, externalCookie := none, challenges := [] }

/-- The last lines of `Login` and `ExternalLoginCallback`. -/
def redirectBack (world : AccountWorld P) (returnUrl : Option String) : AccountPage :=
  match returnUrl.filter world.isValidReturnUrl with
  | some url => .redirected url
  | none => .home

/-- What is signed in for a Windows user. -/
def windowsInfo (name : String) : AuthenticateInfo where
  claims := [{ type := .nameIdentifier, value := name }, { type := .name, value := name }]
  scheme := windowsAuthenticationProviderName
  idToken := none

/-- `ChallengeAsync(scheme)` -/
def AccountWorld.challengeAsync (world : AccountWorld P) (scheme : Option String) :
    Except AccountError String :=
  match scheme.filter (· ≠ "") with
  | none => .error .argument
  | some scheme => if world.handlesChallenge scheme then .ok scheme else .error .invalidOperation

/-- `ExternalLogin(provider, returnUrl)` -/
def AccountSession.externalLogin (world : AccountWorld P) (provider : Option String)
    (returnUrl : Option String) (s : AccountSession) : AccountSession :=
  if provider.any (windowsAuthenticationSchemes.contains ·) then
    match world.windowsUser with
    | some name => { s with externalCookie := windowsInfo name, page := .callback returnUrl }
    | none =>
      -- Both are challenged, one after the other.
      if windowsAuthenticationSchemes.all world.handlesChallenge then
        { s with page := .challenged windowsAuthenticationSchemes }
      else { s with page := .thrown .invalidOperation }
  else
    match world.challengeAsync provider with
    | .ok scheme => { s with
        page := .challenged [scheme]
        challenges := (scheme, returnUrl) :: s.challenges }
    | .error e => { s with page := .thrown e }

/-- `ExternalLoginScheme`, if `IsExternalLoginOnly`. -/
def LoginViewModel.onlyScheme (vm : LoginViewModel) : Option String :=
  match vm.enableLocalLogin, vm.externalProviders with
  | false, [provider] => provider.authenticationScheme
  | _, _ => none

/-- `Login(returnUrl)` -/
def AccountSession.getLogin (enableLocalLogin : P.ClientScalars → Bool) (world : AccountWorld P)
    (returnUrl : Option String) (s : AccountSession) : AccountSession :=
  let vm := buildLoginViewModelAsync enableLocalLogin world returnUrl
  match vm.onlyScheme with
  | some scheme => s.externalLogin world scheme returnUrl
  | none => { s with page := .login vm [] }

/-- A value that has passed `[Required]`. -/
def required (value : Option String) : Option String :=
  if isNullOrWhiteSpace value then none else value

/-- What `Login(model)` signs in. -/
def localSession (world : AccountWorld P) (model : LoginInputModel) (user : TestUser) :
    UserSession where
  subjectId := user.subjectId
  username := user.username
  idp := localIdentityProvider
  additionalClaims := []
  expiresUtc := if world.options.allowRememberLogin && model.rememberLogin then
      some (world.utcNow + world.options.rememberMeLoginDuration) else none
  idToken := none

/-- `Login(model)`; both strings are required.  (The messages for missing ones are not
among the errors here.) -/
def AccountSession.postLogin (enableLocalLogin : P.ClientScalars → Bool) (world : AccountWorld P)
    (model : LoginInputModel) (s : AccountSession) : AccountSession :=
  let vm := { buildLoginViewModelAsync enableLocalLogin world model.returnUrl with
    username := model.username, rememberLogin := model.rememberLogin }
  match required model.username, required model.password with
  | some username, some password =>
    if world.validateCredentials username password then
      match world.findByUsername username with
      | some user => { s with
          cookie := localSession world model user
          page := redirectBack world model.returnUrl }
      | none => { s with page := .thrown .nullReference }
    else { s with page := .login vm [world.options.invalidCredentialsErrorMessage] }
  | _, _ => { s with page := .login vm [] }

/-- `Logout(model)` -/
def AccountSession.postLogout (world : AccountWorld P) (logoutId : Option String)
    (s : AccountSession) : AccountSession :=
  let vm := buildLoggedOutViewModelAsync world s.cookie logoutId
  match vm.externalAuthenticationScheme.bind world.signOutAsync with
  | some .other => { s with page := .thrown .signOut }
  | _ => { s with cookie := none, page := .loggedOut vm }

/-- `Logout(logoutId)` -/
def AccountSession.getLogout (world : AccountWorld P) (logoutId : Option String)
    (s : AccountSession) : AccountSession :=
  let vm := buildLogoutViewModelAsync world s.cookie logoutId
  if vm.showLogoutPrompt then { s with page := .logout vm } else s.postLogout world logoutId

/-- The claim with the id of an external user. -/
def AuthenticateInfo.userIdClaim (info : AuthenticateInfo) : Option UserClaim :=
  (info.claims.find? (·.type = .subject)).or (info.claims.find? (·.type = .nameIdentifier))

/-- What `ExternalLoginCallback` signs in. -/
def externalSession (world : AccountWorld P) (info : AuthenticateInfo) (provider : String)
    (userIdClaim : UserClaim) : UserSession :=
  let claims := info.claims.erase userIdClaim
  let user := (world.findByExternalProvider provider userIdClaim.value).getD
    (world.autoProvisionUser provider userIdClaim.value claims)
  { subjectId := user.subjectId
    username := user.username
    idp := provider
    additionalClaims := (claims.find? (·.type = .sessionId)).toList
    expiresUtc := none
    idToken := info.idToken }

/-- `ExternalLoginCallback(returnUrl)` -/
def AccountSession.externalLoginCallback (world : AccountWorld P) (returnUrl : Option String)
    (s : AccountSession) : AccountSession :=
  match s.externalCookie with
  | none => { s with page := .thrown .externalAuthentication }
  | some info =>
    match info.userIdClaim with
    | none => { s with page := .thrown .unknownUserid }
    | some userIdClaim =>
      match info.scheme with
      | none => { s with page := .thrown .keyNotFound }
      | some provider => { s with
          cookie := externalSession world info provider userIdClaim
          externalCookie := none
          page := redirectBack world returnUrl }

inductive AccountAction (P : Platform) where
  | getLogin (world : AccountWorld P) (returnUrl : Option String)
  | postLogin (world : AccountWorld P) (model : LoginInputModel)
  | getLogout (world : AccountWorld P) (logoutId : Option String)
  | postLogout (world : AccountWorld P) (logoutId : Option String)
  | externalLogin (world : AccountWorld P) (provider returnUrl : Option String)
  | externalLoginCallback (world : AccountWorld P) (returnUrl : Option String)
  /-- an external provider has answered a challenge -/
  | authenticated (info : AuthenticateInfo)
  /-- the authentication cookie has expired -/
  | expired (utcNow : DateTime)
  /-- the temporary cookie has expired -/
  | externalCookieExpired

/-- The cookie of the session is still accepted. -/
def AccountSession.AcceptedAt (s : AccountSession) (utcNow : DateTime) : Prop :=
  ∀ user ∈ s.cookie, ∀ expiresUtc ∈ user.expiresUtc, utcNow ≤ expiresUtc

instance (s : AccountSession) (utcNow : DateTime) : Decidable (s.AcceptedAt utcNow) :=
  inferInstanceAs (Decidable (∀ user ∈ s.cookie, ∀ expiresUtc ∈ user.expiresUtc,
    utcNow ≤ expiresUtc))

/-- The steps of a browser at the pages.  A request finds no cookie that has expired.  One
without an explicit expiration lives as long as the cookie middleware or the browser let it:
it may expire at any time. -/
inductive AccountStep (enableLocalLogin : P.ClientScalars → Bool) :
    AccountSession → AccountAction P → AccountSession → Prop where
  | getLogin {s : AccountSession} (world : AccountWorld P) (returnUrl : Option String) :
      s.AcceptedAt world.utcNow → AccountStep enableLocalLogin s (.getLogin world returnUrl)
        (s.getLogin enableLocalLogin world returnUrl)
  | postLogin {s : AccountSession} (world : AccountWorld P) (model : LoginInputModel) :
      s.AcceptedAt world.utcNow → AccountStep enableLocalLogin s (.postLogin world model)
        (s.postLogin enableLocalLogin world model)
  | getLogout {s : AccountSession} (world : AccountWorld P) (logoutId : Option String) :
      s.AcceptedAt world.utcNow → AccountStep enableLocalLogin s (.getLogout world logoutId)
        (s.getLogout world logoutId)
  | postLogout {s : AccountSession} (world : AccountWorld P) (logoutId : Option String) :
      s.AcceptedAt world.utcNow → AccountStep enableLocalLogin s (.postLogout world logoutId)
        (s.postLogout world logoutId)
  | externalLogin {s : AccountSession} (world : AccountWorld P)
      (provider returnUrl : Option String) :
      s.AcceptedAt world.utcNow →
      AccountStep enableLocalLogin s (.externalLogin world provider returnUrl)
        (s.externalLogin world provider returnUrl)
  | externalLoginCallback {s : AccountSession} (world : AccountWorld P)
      (returnUrl : Option String) :
      s.AcceptedAt world.utcNow →
      AccountStep enableLocalLogin s (.externalLoginCallback world returnUrl)
        (s.externalLoginCallback world returnUrl)
  | authenticated {s : AccountSession} {provider : String} {returnUrl : Option String}
      (info : AuthenticateInfo) :
      (provider, returnUrl) ∈ s.challenges → info.scheme = some provider →
      AccountStep enableLocalLogin s (.authenticated info)
        { s with externalCookie := info, page := .callback returnUrl }
  | expired {s : AccountSession} {user : UserSession} (utcNow : DateTime) :
      s.cookie = some user → (∀ expiresUtc, user.expiresUtc = some expiresUtc →
        expiresUtc < utcNow) →
      AccountStep enableLocalLogin s (.expired utcNow) { s with cookie := none }
  | externalCookieExpired {s : AccountSession} :
      AccountStep enableLocalLogin s .externalCookieExpired { s with externalCookie := none }

/-! ### What a step can do -/

section Step

variable {enableLocalLogin : P.ClientScalars → Bool} {s s' : AccountSession}
  {a : AccountAction P}

/-- The action posts the credentials of the user who is signed in by it. -/
def PasswordSignIn (a : AccountAction P) (user : UserSession) : Prop :=
  ∃ world model username password testUser, a = .postLogin world model ∧
    model.username = some username ∧ model.password = some password ∧
    world.validateCredentials username password = true ∧
    world.findByUsername username = some testUser ∧ user = localSession world model testUser

/-- The action signs in the user of the external identity in the temporary cookie. -/
def ExternalSignIn (s : AccountSession) (a : AccountAction P) (info : AuthenticateInfo)
    (user : UserSession) : Prop :=
  ∃ world returnUrl provider userIdClaim, a = .externalLoginCallback world returnUrl ∧
    s.externalCookie = some info ∧ info.userIdClaim = some userIdClaim ∧
    info.scheme = some provider ∧ user = externalSession world info provider userIdClaim

/-- The identity comes from a provider that the browser has been sent to, or from Windows. -/
def ExternalIdentity (enableLocalLogin : P.ClientScalars → Bool) (s : AccountSession)
    (a : AccountAction P) (info : AuthenticateInfo) : Prop :=
  (a = .authenticated info ∧ ∃ provider returnUrl, (provider, returnUrl) ∈ s.challenges ∧
    info.scheme = some provider) ∨
  ∃ world provider returnUrl name, provider ∈ windowsAuthenticationSchemes ∧
    (a = .externalLogin world (some provider) returnUrl ∨ a = .getLogin world returnUrl ∧
      (buildLoginViewModelAsync enableLocalLogin world returnUrl).onlyScheme = some provider) ∧
    world.windowsUser = some name ∧ info = windowsInfo name

theorem required_eq_some {value : Option String} {x : String} (h : required value = some x) :
    value = some x := by
  rw [required] at h
  split at h
  · exact absurd h (by simp)
  · exact h

/-! The outcomes of each action. -/

theorem postLogin_cases (world : AccountWorld P) (model : LoginInputModel) (s : AccountSession) :
    (∃ username password user, model.username = some username ∧ model.password = some password ∧
      world.validateCredentials username password = true ∧
      world.findByUsername username = some user ∧
      s.postLogin enableLocalLogin world model = { s with
        cookie := localSession world model user
        page := redirectBack world model.returnUrl }) ∨
    (∃ e, s.postLogin enableLocalLogin world model = { s with page := .thrown e }) ∨
    ∃ vm errors, s.postLogin enableLocalLogin world model = { s with page := .login vm errors } ∧
      vm.enableLocalLogin
        = (buildLoginViewModelAsync enableLocalLogin world model.returnUrl).enableLocalLogin ∧
      vm.externalProviders
        = (buildLoginViewModelAsync enableLocalLogin world model.returnUrl).externalProviders := by
  rw [AccountSession.postLogin]
  split
  · next username password husername hpassword =>
    split
    · next hvalid =>
      split
      · next user hfound =>
        exact .inl ⟨username, password, user, required_eq_some husername,
          required_eq_some hpassword, hvalid, hfound, rfl⟩
      · exact .inr (.inl ⟨_, rfl⟩)
    · exact .inr (.inr ⟨_, _, rfl, rfl, rfl⟩)
  · exact .inr (.inr ⟨_, _, rfl, rfl, rfl⟩)

theorem externalLogin_cases (world : AccountWorld P) (provider returnUrl : Option String)
    (s : AccountSession) :
    (∃ scheme ∈ windowsAuthenticationSchemes, provider = some scheme ∧
      ((∃ name, world.windowsUser = some name ∧ s.externalLogin world provider returnUrl
          = { s with externalCookie := windowsInfo name, page := .callback returnUrl }) ∨
        s.externalLogin world provider returnUrl
          = { s with page := .challenged windowsAuthenticationSchemes })) ∨
    (∃ scheme, scheme ∉ windowsAuthenticationSchemes ∧ provider = some scheme ∧
      s.externalLogin world provider returnUrl = { s with
        page := .challenged [scheme]
        challenges := (scheme, returnUrl) :: s.challenges }) ∨
    ∃ e, s.externalLogin world provider returnUrl = { s with page := .thrown e } := by
  rw [AccountSession.externalLogin]
  split
  · next hwindows =>
    obtain ⟨scheme, rfl, hscheme⟩ := (Option.any_eq_true _ _).mp hwindows
    have hmem := List.contains_iff_mem.mp hscheme
    split
    · next name hname => exact .inl ⟨scheme, hmem, rfl, .inl ⟨name, hname, rfl⟩⟩
    · split
      · exact .inl ⟨scheme, hmem, rfl, .inr rfl⟩
      · exact .inr (.inr ⟨_, rfl⟩)
  · next hother =>
    split
    · next scheme hchallenge =>
      refine .inr (.inl ⟨scheme, ?_⟩)
      rw [AccountWorld.challengeAsync] at hchallenge
      split at hchallenge
      · exact absurd hchallenge (by simp)
      · next scheme' hprovider =>
        obtain ⟨rfl, -⟩ := Option.filter_eq_some_iff.mp hprovider
        split at hchallenge
        · obtain rfl := Except.ok.inj hchallenge
          refine ⟨fun hmem => hother ?_, rfl, rfl⟩
          exact List.contains_iff_mem.mpr hmem
        · exact absurd hchallenge (by simp)
    · exact .inr (.inr ⟨_, rfl⟩)

theorem getLogin_cases (world : AccountWorld P) (returnUrl : Option String) (s : AccountSession) :
    (∃ scheme,
      (buildLoginViewModelAsync enableLocalLogin world returnUrl).onlyScheme = some scheme ∧
      s.getLogin enableLocalLogin world returnUrl = s.externalLogin world (some scheme) returnUrl) ∨
    s.getLogin enableLocalLogin world returnUrl = { s with
      page := .login (buildLoginViewModelAsync enableLocalLogin world returnUrl) [] } := by
  rw [AccountSession.getLogin]
  split
  · next scheme hscheme => exact .inl ⟨scheme, hscheme, rfl⟩
  · exact .inr rfl

theorem postLogout_cases (world : AccountWorld P) (logoutId : Option String) (s : AccountSession) :
    (∃ e, s.postLogout world logoutId = { s with page := .thrown e }) ∨
    ∃ vm, s.postLogout world logoutId = { s with cookie := none, page := .loggedOut vm } := by
  rw [AccountSession.postLogout]
  split
  · exact .inl ⟨_, rfl⟩
  · exact .inr ⟨_, rfl⟩

theorem getLogout_cases (world : AccountWorld P) (logoutId : Option String) (s : AccountSession) :
    (∃ vm, s.getLogout world logoutId = { s with page := .logout vm }) ∨
    s.getLogout world logoutId = s.postLogout world logoutId ∧
      (s.cookie = none ∨ world.options.showLogoutPrompt = false ∨
        ∃ request, world.getLogoutContextAsync logoutId = some request ∧
          request.showSignoutPrompt = false) := by
  rw [AccountSession.getLogout]
  split
  · exact .inl ⟨_, rfl⟩
  · next hprompt =>
    refine .inr ⟨rfl, ?_⟩
    rw [buildLogoutViewModelAsync] at hprompt
    dsimp only at hprompt
    split at hprompt
    · next hnobody => exact .inl hnobody
    · split at hprompt
      · next hcontext =>
        obtain ⟨request, hrequest, hshow⟩ := Option.map_eq_some_iff.mp hcontext
        exact .inr (.inr ⟨request, hrequest, hshow⟩)
      · exact .inr (.inl (Bool.eq_false_iff.mpr hprompt))

theorem externalLoginCallback_cases (world : AccountWorld P) (returnUrl : Option String)
    (s : AccountSession) :
    (∃ info userIdClaim provider, s.externalCookie = some info ∧
      info.userIdClaim = some userIdClaim ∧ info.scheme = some provider ∧
      s.externalLoginCallback world returnUrl = { s with
        cookie := externalSession world info provider userIdClaim
        externalCookie := none
        page := redirectBack world returnUrl }) ∨
    ∃ e, s.externalLoginCallback world returnUrl = { s with page := .thrown e } := by
  rw [AccountSession.externalLoginCallback]
  split
  · exact .inr ⟨_, rfl⟩
  · next info hinfo =>
    split
    · exact .inr ⟨_, rfl⟩
    · next userIdClaim hclaim =>
      split
      · exact .inr ⟨_, rfl⟩
      · next provider hscheme =>
        exact .inl ⟨info, userIdClaim, provider, hinfo, hclaim, hscheme, rfl⟩

theorem cookie_externalLogin (world : AccountWorld P) (provider returnUrl : Option String)
    (s : AccountSession) : (s.externalLogin world provider returnUrl).cookie = s.cookie := by
  rcases externalLogin_cases world provider returnUrl s with
    ⟨_, -, -, ⟨_, -, h⟩ | h⟩ | ⟨_, -, -, h⟩ | ⟨_, h⟩ <;> rw [h]

theorem cookie_getLogin (world : AccountWorld P) (returnUrl : Option String)
    (s : AccountSession) : (s.getLogin enableLocalLogin world returnUrl).cookie = s.cookie := by
  rcases @getLogin_cases _ enableLocalLogin world returnUrl s with ⟨scheme, -, h⟩ | h
  · rw [h, cookie_externalLogin]
  · rw [h]

theorem cookie_postLogout_ne {world : AccountWorld P} {logoutId : Option String}
    {user : UserSession} (h : (s.postLogout world logoutId).cookie = some user) :
    s.cookie = some user := by
  rcases postLogout_cases world logoutId s with ⟨e, heq⟩ | ⟨vm, heq⟩
  · rwa [heq] at h
  · rw [heq] at h
    exact absurd h (by simp)

/-- Who is signed in after a step was so before, or is signed in by it. -/
theorem AccountStep.cookie_eq_some (h : AccountStep enableLocalLogin s a s') {user : UserSession}
    (hcookie : s'.cookie = some user) :
    s.cookie = some user ∨ PasswordSignIn a user ∨ ∃ info, ExternalSignIn s a info user := by
  cases h with
  | getLogin world returnUrl =>
    rw [cookie_getLogin] at hcookie
    exact .inl hcookie
  | postLogin world model =>
    rcases @postLogin_cases _ enableLocalLogin world model s with
      ⟨username, password, testUser, husername, hpassword, hvalid, hfound, h⟩ | ⟨e, h⟩ |
        ⟨vm, errors, h, -⟩
    · rw [h] at hcookie
      exact .inr (.inl ⟨world, model, username, password, testUser, rfl, husername, hpassword,
        hvalid, hfound, (Option.some.inj hcookie).symm⟩)
    · rw [h] at hcookie
      exact .inl hcookie
    · rw [h] at hcookie
      exact .inl hcookie
  | getLogout world logoutId =>
    refine .inl ?_
    rcases getLogout_cases world logoutId s with ⟨vm, h⟩ | ⟨h, -⟩
    · rwa [h] at hcookie
    · rw [h] at hcookie
      exact cookie_postLogout_ne hcookie
  | postLogout world logoutId => exact .inl (cookie_postLogout_ne hcookie)
  | externalLogin world provider returnUrl =>
    rw [cookie_externalLogin] at hcookie
    exact .inl hcookie
  | externalLoginCallback world returnUrl =>
    rcases externalLoginCallback_cases world returnUrl s with
      ⟨info, userIdClaim, provider, hinfo, hclaim, hscheme, h⟩ | ⟨e, h⟩
    · rw [h] at hcookie
      exact .inr (.inr ⟨info, world, returnUrl, provider, userIdClaim, rfl, hinfo, hclaim, hscheme,
        (Option.some.inj hcookie).symm⟩)
    · rw [h] at hcookie
      exact .inl hcookie
  | authenticated info _ _ => exact .inl hcookie
  | expired utcNow _ _ => exact absurd hcookie (by simp)
  | externalCookieExpired => exact .inl hcookie

theorem externalCookie_externalLogin {world : AccountWorld P} {provider returnUrl : Option String}
    {info : AuthenticateInfo}
    (h : (s.externalLogin world provider returnUrl).externalCookie = some info) :
    s.externalCookie = some info ∨ ∃ scheme ∈ windowsAuthenticationSchemes,
      provider = some scheme ∧ ∃ name, world.windowsUser = some name ∧ info = windowsInfo name := by
  rcases externalLogin_cases world provider returnUrl s with
    ⟨scheme, hmem, hprovider, ⟨name, hname, heq⟩ | heq⟩ | ⟨_, -, -, heq⟩ | ⟨_, heq⟩
  · rw [heq] at h
    exact .inr ⟨scheme, hmem, hprovider, name, hname, (Option.some.inj h).symm⟩
  · exact .inl (by rwa [heq] at h)
  · exact .inl (by rwa [heq] at h)
  · exact .inl (by rwa [heq] at h)

theorem externalCookie_postLogout (world : AccountWorld P) (logoutId : Option String)
    (s : AccountSession) : (s.postLogout world logoutId).externalCookie = s.externalCookie := by
  rcases postLogout_cases world logoutId s with ⟨_, h⟩ | ⟨_, h⟩ <;> rw [h]

/-- Where the identity in the temporary cookie comes from. -/
theorem AccountStep.externalCookie_eq_some (h : AccountStep enableLocalLogin s a s')
    {info : AuthenticateInfo} (hinfo : s'.externalCookie = some info) :
    s.externalCookie = some info ∨ ExternalIdentity enableLocalLogin s a info := by
  cases h with
  | getLogin world returnUrl =>
    rcases @getLogin_cases _ enableLocalLogin world returnUrl s with ⟨provider, honly, h⟩ | h
    · rw [h] at hinfo
      refine (externalCookie_externalLogin hinfo).imp_right fun hwindows => .inr ?_
      obtain ⟨scheme, hmem, hscheme, name, hname, hinfo⟩ := hwindows
      obtain rfl := Option.some.inj hscheme
      exact ⟨world, _, returnUrl, name, hmem, .inr ⟨rfl, honly⟩, hname, hinfo⟩
    · rw [h] at hinfo
      exact .inl hinfo
  | postLogin world model =>
    refine .inl ?_
    rcases @postLogin_cases _ enableLocalLogin world model s with
      ⟨_, _, _, -, -, -, -, h⟩ | ⟨_, h⟩ | ⟨_, _, h, -⟩ <;> rwa [h] at hinfo
  | getLogout world logoutId =>
    refine .inl ?_
    rcases getLogout_cases world logoutId s with ⟨vm, h⟩ | ⟨h, -⟩
    · rwa [h] at hinfo
    · rwa [h, externalCookie_postLogout] at hinfo
  | postLogout world logoutId =>
    rw [externalCookie_postLogout] at hinfo
    exact .inl hinfo
  | externalLogin world provider returnUrl =>
    refine (externalCookie_externalLogin hinfo).imp_right fun hwindows => .inr ?_
    obtain ⟨scheme, hmem, rfl, name, hname, hinfo⟩ := hwindows
    exact ⟨world, scheme, returnUrl, name, hmem, .inl rfl, hname, hinfo⟩
  | externalLoginCallback world returnUrl =>
    refine .inl ?_
    rcases externalLoginCallback_cases world returnUrl s with ⟨_, _, _, -, -, -, h⟩ | ⟨_, h⟩
    · rw [h] at hinfo
      exact absurd hinfo (by simp)
    · rwa [h] at hinfo
  | @authenticated provider returnUrl info' hmem hscheme =>
    obtain rfl := Option.some.inj hinfo
    exact .inr (.inl ⟨rfl, provider, returnUrl, hmem, hscheme⟩)
  | expired utcNow _ _ => exact .inl hinfo
  | externalCookieExpired => exact absurd hinfo (by simp)

/-- A link to `Logout` that nobody is asked about: the logout request does not demand a
prompt, or the options do not. -/
def UnpromptedLogout (a : AccountAction P) : Prop :=
  ∃ world logoutId, a = .getLogout world logoutId ∧ (world.options.showLogoutPrompt = false ∨
    ∃ request, world.getLogoutContextAsync logoutId = some request ∧
      request.showSignoutPrompt = false)

/-- The action makes the user's cookie expire, at a time when it may. -/
def Expires (a : AccountAction P) (user : UserSession) : Prop :=
  ∃ utcNow, a = .expired utcNow ∧
    ∀ expiresUtc, user.expiresUtc = some expiresUtc → expiresUtc < utcNow

/-- What can end the session of a user: a logout, the expiration of the cookie, or the
sign-in of another one. -/
theorem AccountStep.session_ended (h : AccountStep enableLocalLogin s a s') {user : UserSession}
    (hbefore : s.cookie = some user) (hafter : s'.cookie ≠ some user) :
    (∃ world logoutId, a = .postLogout world logoutId) ∨ UnpromptedLogout a ∨ Expires a user ∨
    ∃ user', s'.cookie = some user' ∧
      (PasswordSignIn a user' ∨ ∃ info, ExternalSignIn s a info user') := by
  have hother : ∀ user', s'.cookie = some user' → ∃ user', s'.cookie = some user' ∧
      (PasswordSignIn a user' ∨ ∃ info, ExternalSignIn s a info user') := by
    intro user' hcookie
    have hne : s.cookie ≠ some user' := by
      rwa [hbefore, ← hcookie, ne_comm]
    exact ⟨user', hcookie, (h.cookie_eq_some hcookie).resolve_left hne⟩
  cases h with
  | getLogin world returnUrl =>
    rw [cookie_getLogin] at hafter
    exact absurd hbefore hafter
  | postLogin world model =>
    rcases @postLogin_cases _ enableLocalLogin world model s with
      ⟨_, _, _, -, -, -, -, h⟩ | ⟨_, h⟩ | ⟨_, _, h, -⟩
    · exact .inr (.inr (.inr (hother _ (by rw [h]))))
    · exact absurd hbefore (by rwa [h] at hafter)
    · exact absurd hbefore (by rwa [h] at hafter)
  | getLogout world logoutId =>
    rcases getLogout_cases world logoutId s with ⟨_, h⟩ | ⟨-, hprompt⟩
    · exact absurd hbefore (by rwa [h] at hafter)
    · refine .inr (.inl ⟨world, logoutId, rfl, hprompt.resolve_left ?_⟩)
      rw [hbefore]
      exact Option.some_ne_none user
  | postLogout world logoutId => exact .inl ⟨world, logoutId, rfl⟩
  | externalLogin world provider returnUrl =>
    rw [cookie_externalLogin] at hafter
    exact absurd hbefore hafter
  | externalLoginCallback world returnUrl =>
    rcases externalLoginCallback_cases world returnUrl s with ⟨_, _, _, -, -, -, h⟩ | ⟨_, h⟩
    · exact .inr (.inr (.inr (hother _ (by rw [h]))))
    · exact absurd hbefore (by rwa [h] at hafter)
  | authenticated info _ _ => exact absurd hbefore hafter
  | expired utcNow huser hexpired =>
    obtain rfl := Option.some.inj (huser.symm.trans hbefore)
    exact .inr (.inr (.inl ⟨utcNow, rfl, hexpired⟩))
  | externalCookieExpired => exact absurd hbefore hafter

end Step

/-! ### Who is signed in -/

section Runs

variable {enableLocalLogin : P.ClientScalars → Bool} {s : AccountSession}
  {ts : List (Transition AccountSession (AccountAction P))}

/-- The identity in the temporary cookie has been put there in some step of the run. -/
theorem externalIdentity_of_run (hrun : Run (AccountStep enableLocalLogin) .init ts s)
    {info : AuthenticateInfo} (hinfo : s.externalCookie = some info) :
    ∃ t ∈ ts, ExternalIdentity enableLocalLogin t.before t.label info := by
  have hinit : AccountSession.init.externalCookie ≠ some info := by
    show (none : Option AuthenticateInfo) ≠ some info
    simp
  obtain ⟨pre, t, post, rfl, hbefore, hafter, -⟩ :=
    @Run.exists_start _ _ _ _ _ _ (fun s => s.externalCookie = some info) hinit hrun hinfo
  obtain ⟨-, hstep, -⟩ := hrun.split
  exact ⟨t, by simp, (hstep.externalCookie_eq_some hafter).resolve_left hbefore⟩

/-- Some step of the run has signed in the user of the cookie, which has been there since. -/
theorem exists_signIn (hrun : Run (AccountStep enableLocalLogin) .init ts s)
    {user : UserSession} (huser : s.cookie = some user) :
    ∃ pre t post, ts = pre ++ t :: post ∧ Run (AccountStep enableLocalLogin) .init pre t.before ∧
      (∀ t' ∈ post, t'.after.cookie = some user) ∧
      (PasswordSignIn t.label user ∨ ∃ info, ExternalSignIn t.before t.label info user) := by
  have hinit : AccountSession.init.cookie ≠ some user := by
    show (none : Option UserSession) ≠ some user
    simp
  obtain ⟨pre, t, post, rfl, hbefore, hafter, hpost⟩ :=
    @Run.exists_start _ _ _ _ _ _ (fun s => s.cookie = some user) hinit hrun huser
  obtain ⟨hpre, hstep, -⟩ := hrun.split
  exact ⟨pre, t, post, rfl, hpre, hpost, (hstep.cookie_eq_some hafter).resolve_left hbefore⟩

/-- **Who is signed in has signed in.**  At the end of any run the user of the cookie was
signed in by a step of it, which posted the user's credentials or followed an external
authentication of an earlier step, with a provider that the browser had been sent to; and
the cookie has been there since. -/
theorem account_signedIn (hrun : Run (AccountStep enableLocalLogin) .init ts s)
    {user : UserSession} (huser : s.cookie = some user) :
    ∃ pre t post, ts = pre ++ t :: post ∧ (∀ t' ∈ post, t'.after.cookie = some user) ∧
      (PasswordSignIn t.label user ∨ ∃ info, ExternalSignIn t.before t.label info user ∧
        ∃ t₀ ∈ pre, ExternalIdentity enableLocalLogin t₀.before t₀.label info) := by
  obtain ⟨pre, t, post, rfl, hpre, hpost, hsignIn⟩ := exists_signIn hrun huser
  refine ⟨pre, t, post, rfl, hpost, ?_⟩
  rcases hsignIn with hpassword | ⟨info, hexternal⟩
  · exact .inl hpassword
  · obtain ⟨world, returnUrl, provider, userIdClaim, -, hinfo, -⟩ := id hexternal
    exact .inr ⟨info, hexternal, externalIdentity_of_run hpre hinfo⟩

/-- **What ends a session.**  Where the session of a user is not there any more at the end
of a run, some step of it has ended it: a post to `Logout`, a link to it that nobody is
asked about, the expiration of the cookie, or the sign-in of another session, which has
shown a password or an external identity. -/
theorem account_signedOut {s₀ : AccountSession} (hrun : Run (AccountStep enableLocalLogin) s₀ ts s)
    {user : UserSession} (hbefore : s₀.cookie = some user) (hafter : s.cookie ≠ some user) :
    ∃ t ∈ ts, t.before.cookie = some user ∧ t.after.cookie ≠ some user ∧
      ((∃ world logoutId, t.label = .postLogout world logoutId) ∨ UnpromptedLogout t.label ∨
        Expires t.label user ∨
        ∃ user', t.after.cookie = some user' ∧
          (PasswordSignIn t.label user' ∨ ∃ info, ExternalSignIn t.before t.label info user')) := by
  obtain ⟨pre, t, post, rfl, hsome, hended⟩ :=
    @Run.exists_break _ _ _ _ _ _ (fun s => s.cookie = some user) hbefore hrun hafter
  obtain ⟨-, hstep, -⟩ := hrun.split
  exact ⟨t, by simp, hsome, hended, hstep.session_ended hsome hended⟩

end Runs

/-! ### What the login pages offer -/

section Offered

variable {enableLocalLogin : P.ClientScalars → Bool} {world : AccountWorld P}
  {returnUrl : Option String}

/-- The client that the request of the URL comes from, if it is enabled. -/
def RequestedBy (world : AccountWorld P) (returnUrl : Option String)
    (client : Models.Client P (Collection String)) : Prop :=
  ∃ request clientId, world.getAuthorizationContextAsync returnUrl = some request ∧
    request.clientId = some clientId ∧ world.findEnabledClientByIdAsync clientId = some client

/-- Options and client allow a login with a password. -/
def LocalLoginAllowed (enableLocalLogin : P.ClientScalars → Bool) (world : AccountWorld P)
    (returnUrl : Option String) : Prop :=
  world.options.allowLocalLogin = true ∧
  ∀ client, RequestedBy world returnUrl client → enableLocalLogin client.scalars = true

/-- The scheme is registered under a name, or stands for Windows authentication, which is
enabled and registered. -/
def ProviderRegistered (world : AccountWorld P) (scheme : String) : Prop :=
  (scheme ∉ windowsAuthenticationSchemes ∧ ∃ x ∈ world.getAuthenticationSchemes,
    x.authenticationScheme = scheme ∧ x.displayName ≠ none) ∨
  (windowsAuthenticationSchemes.head? = some scheme ∧
    world.options.windowsAuthenticationEnabled = true ∧ ∃ x ∈ world.getAuthenticationSchemes,
      x.authenticationScheme ∈ windowsAuthenticationSchemes)

/-- The request names the provider, or it is registered and the client does not exclude it. -/
def ProviderAllowed (world : AccountWorld P) (returnUrl : Option String) (scheme : String) : Prop :=
  (∃ request, world.getAuthorizationContextAsync returnUrl = some request ∧
    request.idP = some scheme) ∨
  (ProviderRegistered world scheme ∧
    ∀ client restrictions, RequestedBy world returnUrl client →
      client.identityProviderRestrictions = some restrictions → restrictions ≠ [] →
        scheme ∈ restrictions)

theorem localLoginAllowed_of_enabled
    (h : (buildLoginViewModelAsync enableLocalLogin world returnUrl).enableLocalLogin = true) :
    LocalLoginAllowed enableLocalLogin world returnUrl := by
  rw [buildLoginViewModelAsync] at h
  dsimp only at h
  split at h
  · exact absurd h (by simp)
  · obtain ⟨hclient, hoption⟩ := Bool.and_eq_true_iff.mp h
    refine ⟨hoption, ?_⟩
    rintro client ⟨request, clientId, hrequest, hid, hfound⟩
    simp only [hrequest, Option.bind_some, hid, hfound, Option.map_some,
      Option.getD_some] at hclient
    exact hclient

/-- The providers of a login page, before the client restricts them. -/
def AccountWorld.providers (world : AccountWorld P) : List ExternalProvider :=
  let schemes := world.getAuthenticationSchemes
  let providers := schemes.filter fun x =>
    x.displayName.isSome && !windowsAuthenticationSchemes.contains x.authenticationScheme
  if world.options.windowsAuthenticationEnabled && schemes.any (fun s =>
      windowsAuthenticationSchemes.contains s.authenticationScheme) then
    providers ++ [{ displayName := windowsAuthenticationDisplayName
                    authenticationScheme := windowsAuthenticationSchemes.headD "" }]
  else providers

theorem providerRegistered_of_mem {x : ExternalProvider} (h : x ∈ world.providers) :
    ProviderRegistered world x.authenticationScheme := by
  have hnamed : x ∈ world.getAuthenticationSchemes.filter (fun x => x.displayName.isSome &&
      !windowsAuthenticationSchemes.contains x.authenticationScheme) →
      ProviderRegistered world x.authenticationScheme := by
    intro hx
    simp only [List.mem_filter, Bool.and_eq_true, Bool.not_eq_true', List.contains_eq_mem,
      decide_eq_false_iff_not] at hx
    exact .inl ⟨hx.2.2, x, hx.1, rfl, Option.isSome_iff_ne_none.mp hx.2.1⟩
  rw [AccountWorld.providers] at h
  split at h
  · next hwindows =>
    rcases List.mem_append.mp h with hx | hx
    · exact hnamed hx
    · rw [List.mem_singleton.mp hx]
      simp only [Bool.and_eq_true, List.any_eq_true, List.contains_eq_mem,
        decide_eq_true_eq] at hwindows
      exact .inr ⟨rfl, hwindows⟩
  · exact hnamed h

theorem providerAllowed_of_mem {x : ExternalProvider}
    (h : x ∈ (buildLoginViewModelAsync enableLocalLogin world returnUrl).externalProviders) :
    ProviderAllowed world returnUrl x.authenticationScheme := by
  rw [buildLoginViewModelAsync] at h
  dsimp only at h
  split at h
  · next idP hidP =>
    obtain ⟨request, hrequest, hidP⟩ := Option.bind_eq_some_iff.mp hidP
    rw [List.mem_singleton.mp h]
    exact .inl ⟨request, hrequest, hidP⟩
  · rw [← AccountWorld.providers] at h
    refine .inr ⟨?_, ?_⟩
    · split at h
      · exact providerRegistered_of_mem (List.mem_filter.mp h).1
      · exact providerRegistered_of_mem h
    · rintro client restrictions ⟨request, clientId, hrequest, hid, hfound⟩ hrestrictions hne
      simp only [hrequest, Option.bind_some, hid, hfound, hrestrictions, Option.getD_some,
        if_pos hne] at h
      exact List.contains_iff_mem.mp (List.mem_filter.mp h).2

end Offered

/-- The login page that an action may show: the services it asks, and the return URL. -/
def AccountAction.shows : AccountAction P → Option (AccountWorld P × Option String)
  | getLogin world returnUrl => some (world, returnUrl)
  | postLogin world model => some (world, model.returnUrl)
  | _ => none

/-- The browser does what the page is for: the form is posted if there is one, and the
links are followed that are shown; a Windows challenge makes it repeat its request. -/
def FollowsPage (s : AccountSession) : AccountAction P → Prop
  | .postLogin _ _ => ∃ vm errors, s.page = .login vm errors ∧ vm.enableLocalLogin = true
  | .externalLogin _ provider _ =>
    (∃ vm errors, s.page = .login vm errors ∧
      ∃ x ∈ vm.visibleExternalProviders, provider = some x.authenticationScheme) ∨
    ∃ schemes, s.page = .challenged schemes ∧ ∃ scheme ∈ schemes, provider = some scheme
  | _ => True

section Follows

variable {enableLocalLogin : P.ClientScalars → Bool} {s s' : AccountSession}
  {a : AccountAction P} {ts ts' : List (Transition AccountSession (AccountAction P))}

/-- A login page of the run had the form, and options and client allowed it. -/
def FormShown (enableLocalLogin : P.ClientScalars → Bool)
    (ts : List (Transition AccountSession (AccountAction P))) : Prop :=
  ∃ t ∈ ts, ∃ world returnUrl, t.label.shows = some (world, returnUrl) ∧
    (∃ vm errors, t.after.page = .login vm errors ∧ vm.enableLocalLogin = true) ∧
    LocalLoginAllowed enableLocalLogin world returnUrl

/-- The step shows a login page with a link to the provider, or is a request for one that
sends the browser to its only provider at once. -/
def Leads (enableLocalLogin : P.ClientScalars → Bool) (world : AccountWorld P)
    (returnUrl : Option String) (scheme : String)
    (t : Transition AccountSession (AccountAction P)) : Prop :=
  (∃ vm errors, t.after.page = .login vm errors ∧
    ∃ x ∈ vm.visibleExternalProviders, x.authenticationScheme = scheme) ∨
  (t.label = .getLogin world returnUrl ∧
    (buildLoginViewModelAsync enableLocalLogin world returnUrl).onlyScheme = some scheme)

/-- A login page of the run led to the provider, and request, options and client allowed
it. -/
def ProviderShown (enableLocalLogin : P.ClientScalars → Bool)
    (ts : List (Transition AccountSession (AccountAction P))) (scheme : String) : Prop :=
  ∃ t ∈ ts, ∃ world returnUrl, t.label.shows = some (world, returnUrl) ∧
    Leads enableLocalLogin world returnUrl scheme t ∧ ProviderAllowed world returnUrl scheme

/-- A page led to the scheme, or to another one for Windows authentication if it is one. -/
def SchemeShown (enableLocalLogin : P.ClientScalars → Bool)
    (ts : List (Transition AccountSession (AccountAction P))) (scheme : String) : Prop :=
  ProviderShown enableLocalLogin ts scheme ∨
  (scheme ∈ windowsAuthenticationSchemes ∧
    ∃ scheme ∈ windowsAuthenticationSchemes, ProviderShown enableLocalLogin ts scheme)

/-- A page led to the identity provider, or to Windows authentication. -/
def IdpShown (enableLocalLogin : P.ClientScalars → Bool)
    (ts : List (Transition AccountSession (AccountAction P))) (idp : String) : Prop :=
  ProviderShown enableLocalLogin ts idp ∨ (idp = windowsAuthenticationProviderName ∧
    ∃ scheme ∈ windowsAuthenticationSchemes, ProviderShown enableLocalLogin ts scheme)

theorem FormShown.mono (hts : ts ⊆ ts') (h : FormShown enableLocalLogin ts) :
    FormShown enableLocalLogin ts' := by
  obtain ⟨t, ht, hshown⟩ := h
  exact ⟨t, hts ht, hshown⟩

theorem ProviderShown.mono {scheme : String} (hts : ts ⊆ ts')
    (h : ProviderShown enableLocalLogin ts scheme) : ProviderShown enableLocalLogin ts' scheme := by
  obtain ⟨t, ht, hshown⟩ := h
  exact ⟨t, hts ht, hshown⟩

theorem SchemeShown.mono {scheme : String} (hts : ts ⊆ ts')
    (h : SchemeShown enableLocalLogin ts scheme) : SchemeShown enableLocalLogin ts' scheme := by
  refine h.imp (·.mono hts) ?_
  rintro ⟨hwindows, scheme', hmem, hshown⟩
  exact ⟨hwindows, scheme', hmem, hshown.mono hts⟩

theorem IdpShown.mono {idp : String} (hts : ts ⊆ ts') (h : IdpShown enableLocalLogin ts idp) :
    IdpShown enableLocalLogin ts' idp := by
  refine h.imp (·.mono hts) ?_
  rintro ⟨hidp, scheme, hmem, hshown⟩
  exact ⟨hidp, scheme, hmem, hshown.mono hts⟩

/-- What the browser holds goes back to what login pages have had. -/
structure OnlyShown (enableLocalLogin : P.ClientScalars → Bool)
    (ts : List (Transition AccountSession (AccountAction P))) (s : AccountSession) : Prop where
  login : ∀ vm errors, s.page = .login vm errors →
    (vm.enableLocalLogin = true → FormShown enableLocalLogin ts) ∧
    ∀ x ∈ vm.visibleExternalProviders, ProviderShown enableLocalLogin ts x.authenticationScheme
  challenged : ∀ schemes, s.page = .challenged schemes → ∀ scheme ∈ schemes,
    SchemeShown enableLocalLogin ts scheme
  challenges : ∀ c ∈ s.challenges, ProviderShown enableLocalLogin ts c.1
  externalCookie : ∀ info, s.externalCookie = some info →
    ∃ provider, info.scheme = some provider ∧ IdpShown enableLocalLogin ts provider

theorem onlyShown_init : OnlyShown enableLocalLogin ts .init where
  login := fun _ _ h => absurd h (by simp [AccountSession.init])
  challenged := fun _ h => absurd h (by simp [AccountSession.init])
  challenges := fun _ h => absurd h List.not_mem_nil
  externalCookie := fun _ h => absurd h (by simp [AccountSession.init])

theorem OnlyShown.mono (hts : ts ⊆ ts') (h : OnlyShown enableLocalLogin ts s) :
    OnlyShown enableLocalLogin ts' s where
  login := by
    intro vm errors hpage
    obtain ⟨hlocal, hproviders⟩ := h.login vm errors hpage
    exact ⟨fun henabled => (hlocal henabled).mono hts, fun x hx => (hproviders x hx).mono hts⟩
  challenged := fun schemes hpage scheme hscheme =>
    (h.challenged schemes hpage scheme hscheme).mono hts
  challenges := fun c hc => (h.challenges c hc).mono hts
  externalCookie := by
    intro info hinfo
    obtain ⟨provider, hscheme, hshown⟩ := h.externalCookie info hinfo
    exact ⟨provider, hscheme, hshown.mono hts⟩

/-- Another page, which is no login page and no challenge. -/
theorem OnlyShown.withPage (h : OnlyShown enableLocalLogin ts s) (page : AccountPage)
    (hlogin : ∀ vm errors, page ≠ .login vm errors)
    (hchallenged : ∀ schemes, page ≠ .challenged schemes) :
    OnlyShown enableLocalLogin ts { s with page := page } :=
  { h with
    login := fun vm errors hpage => absurd hpage (hlogin vm errors)
    challenged := fun schemes hpage => absurd hpage (hchallenged schemes) }

theorem OnlyShown.thrown (h : OnlyShown enableLocalLogin ts s) (e : AccountError) :
    OnlyShown enableLocalLogin ts { s with page := .thrown e } :=
  h.withPage _ (by simp) (by simp)

/-- The login page, as it is built in a step of the run. -/
theorem OnlyShown.showLogin (h : OnlyShown enableLocalLogin ts s)
    {t : Transition AccountSession (AccountAction P)} (ht : t ∈ ts) {world : AccountWorld P}
    {returnUrl : Option String} (hshows : t.label.shows = some (world, returnUrl))
    {vm : LoginViewModel} {errors : List String}
    (hafter : t.after = { s with page := .login vm errors })
    (hlocal : vm.enableLocalLogin
      = (buildLoginViewModelAsync enableLocalLogin world returnUrl).enableLocalLogin)
    (hproviders : vm.externalProviders
      = (buildLoginViewModelAsync enableLocalLogin world returnUrl).externalProviders) :
    OnlyShown enableLocalLogin ts { s with page := .login vm errors } :=
  { h with
    login := by
      have hpage : t.after.page = .login vm errors := by rw [hafter]
      intro vm' errors' hsame
      obtain ⟨rfl, rfl⟩ := AccountPage.login.inj hsame
      refine ⟨fun henabled => ?_, fun x hx => ?_⟩
      · exact ⟨t, ht, world, returnUrl, hshows, ⟨_, _, hpage, henabled⟩,
          localLoginAllowed_of_enabled (hlocal ▸ henabled)⟩
      · have hmem := (List.mem_filter.mp hx).1
        exact ⟨t, ht, world, returnUrl, hshows, .inl ⟨_, _, hpage, x, hx, rfl⟩,
          providerAllowed_of_mem (hproviders ▸ hmem)⟩
    challenged := fun schemes hpage => absurd hpage (by simp) }

theorem OnlyShown.externalLogin (h : OnlyShown enableLocalLogin ts s)
    (world : AccountWorld P) {provider : String} (hshown : SchemeShown enableLocalLogin ts provider)
    (returnUrl : Option String) :
    OnlyShown enableLocalLogin ts (s.externalLogin world (some provider) returnUrl) := by
  have hwindows : provider ∈ windowsAuthenticationSchemes →
      ∃ scheme ∈ windowsAuthenticationSchemes, ProviderShown enableLocalLogin ts scheme :=
    fun hmem => hshown.elim (fun hpage => ⟨provider, hmem, hpage⟩) (·.2)
  rcases externalLogin_cases world (some provider) returnUrl s with
    ⟨scheme, hmem, hscheme, ⟨name, -, heq⟩ | heq⟩ | ⟨scheme, hother, hscheme, heq⟩ | ⟨e, heq⟩
  · -- Whichever scheme was asked for, a page has led to Windows authentication.
    obtain rfl := Option.some.inj hscheme
    rw [heq]
    refine { h.withPage (.callback returnUrl) (by simp) (by simp) with externalCookie := ?_ }
    intro info hinfo
    obtain rfl := Option.some.inj hinfo
    exact ⟨_, rfl, .inr ⟨rfl, hwindows hmem⟩⟩
  · obtain rfl := Option.some.inj hscheme
    rw [heq]
    refine { h with login := fun vm errors hpage => absurd hpage (by simp), challenged := ?_ }
    intro schemes hpage scheme hscheme
    obtain rfl := AccountPage.challenged.inj hpage
    exact .inr ⟨hscheme, hwindows hmem⟩
  · obtain rfl := Option.some.inj hscheme
    have hpage : ProviderShown enableLocalLogin ts provider :=
      hshown.resolve_right fun hwindows => hother hwindows.1
    rw [heq]
    refine { h with
      login := fun vm errors hpage => absurd hpage (by simp)
      challenged := ?_
      challenges := List.forall_mem_cons.mpr ⟨hpage, h.challenges⟩ }
    intro schemes hchallenged scheme hscheme
    obtain rfl := AccountPage.challenged.inj hchallenged
    exact List.mem_singleton.mp hscheme ▸ .inl hpage
  · rw [heq]
    exact h.thrown e

theorem OnlyShown.postLogout (h : OnlyShown enableLocalLogin ts s) (world : AccountWorld P)
    (logoutId : Option String) :
    OnlyShown enableLocalLogin ts (s.postLogout world logoutId) := by
  rcases postLogout_cases world logoutId s with ⟨e, heq⟩ | ⟨vm, heq⟩
  · rw [heq]
    exact h.thrown e
  · rw [heq]
    exact { h.withPage (.loggedOut vm) (by simp) (by simp) with }

theorem redirectBack_ne (world : AccountWorld P) (returnUrl : Option String) :
    (∀ vm errors, redirectBack world returnUrl ≠ .login vm errors) ∧
    ∀ schemes, redirectBack world returnUrl ≠ .challenged schemes := by
  rw [redirectBack]
  split <;> simp

/-- The one scheme of a login page is one of its providers. -/
theorem onlyScheme_eq_some {vm : LoginViewModel} {scheme : String}
    (h : vm.onlyScheme = some scheme) :
    ∃ x ∈ vm.externalProviders, x.authenticationScheme = scheme := by
  rw [LoginViewModel.onlyScheme] at h
  split at h
  · next x _ hproviders => exact ⟨x, by simp [hproviders], Option.some.inj h⟩
  · exact absurd h (by simp)

/-- A step that does what the page is for. -/
theorem OnlyShown.step (h : OnlyShown enableLocalLogin ts s)
    (hs : AccountStep enableLocalLogin s a s') (hfollows : FollowsPage s a) :
    OnlyShown enableLocalLogin (ts ++ [⟨s, a, s'⟩]) s' := by
  have hlast : (⟨s, a, s'⟩ : Transition AccountSession (AccountAction P)) ∈ ts ++ [⟨s, a, s'⟩] :=
    List.mem_append_right _ List.mem_cons_self
  have hkept := h.mono (List.subset_append_left ts [⟨s, a, s'⟩])
  generalize ts ++ [⟨s, a, s'⟩] = ts' at hlast hkept
  cases hs with
  | getLogin world returnUrl =>
    rcases @getLogin_cases _ enableLocalLogin world returnUrl s with ⟨scheme, hscheme, heq⟩ | heq
    · obtain ⟨x, hx, rfl⟩ := onlyScheme_eq_some hscheme
      have hshown : ProviderShown enableLocalLogin ts' x.authenticationScheme :=
        ⟨_, hlast, world, returnUrl, rfl, .inr ⟨rfl, hscheme⟩, providerAllowed_of_mem hx⟩
      rw [heq]
      exact hkept.externalLogin world (.inl hshown) returnUrl
    · have hlogin := hkept.showLogin hlast rfl heq rfl rfl
      rwa [← heq] at hlogin
  | postLogin world model =>
    rcases @postLogin_cases _ enableLocalLogin world model s with
      ⟨_, _, user, -, -, -, -, heq⟩ | ⟨e, heq⟩ | ⟨vm, errors, heq, hlocal, hproviders⟩
    · obtain ⟨hlogin, hchallenged⟩ := redirectBack_ne world model.returnUrl
      rw [heq]
      exact { hkept.withPage _ hlogin hchallenged with }
    · rw [heq]
      exact hkept.thrown e
    · have hlogin := hkept.showLogin hlast rfl heq hlocal hproviders
      rwa [← heq] at hlogin
  | getLogout world logoutId =>
    rcases getLogout_cases world logoutId s with ⟨vm, heq⟩ | ⟨heq, -⟩
    · rw [heq]
      exact hkept.withPage _ (by simp) (by simp)
    · rw [heq]
      exact hkept.postLogout world logoutId
  | postLogout world logoutId => exact hkept.postLogout world logoutId
  | externalLogin world provider returnUrl =>
    rcases hfollows with ⟨vm, errors, hpage, x, hx, rfl⟩ | ⟨schemes, hpage, scheme, hscheme, rfl⟩
    · exact hkept.externalLogin world (.inl ((hkept.login vm errors hpage).2 x hx)) returnUrl
    · exact hkept.externalLogin world (hkept.challenged schemes hpage scheme hscheme) returnUrl
  | externalLoginCallback world returnUrl =>
    rcases externalLoginCallback_cases world returnUrl s with
      ⟨info, _, provider, -, -, -, heq⟩ | ⟨e, heq⟩
    · obtain ⟨hlogin, hchallenged⟩ := redirectBack_ne world returnUrl
      rw [heq]
      exact { hkept.withPage _ hlogin hchallenged with
        externalCookie := fun info hnone => absurd hnone (by simp) }
    · rw [heq]
      exact hkept.thrown e
  | @authenticated provider returnUrl info hmem hscheme =>
    refine { hkept.withPage _ (by simp) (by simp) with externalCookie := ?_ }
    intro info' hinfo
    obtain rfl := Option.some.inj hinfo
    exact ⟨provider, hscheme, .inl (hkept.challenges _ hmem)⟩
  | expired utcNow _ _ => exact { hkept with }
  | externalCookieExpired =>
    exact { hkept with externalCookie := fun info hinfo => absurd hinfo (by simp) }

theorem onlyShown_of_run (hrun : Run (AccountStep enableLocalLogin) .init ts s)
    (hfollows : ∀ t ∈ ts, FollowsPage t.before t.label) : OnlyShown enableLocalLogin ts s := by
  induction hrun with
  | nil => exact onlyShown_init
  | concat _ hs ih =>
    rw [List.forall_mem_append, List.forall_mem_singleton] at hfollows
    exact (ih hfollows.1).step hs hfollows.2

/-- Whoever is signed in by doing what the page is for has been shown the way. -/
theorem OnlyShown.signIn (h : OnlyShown enableLocalLogin ts s) (hfollows : FollowsPage s a)
    {user : UserSession}
    (hsignIn : PasswordSignIn a user ∨ ∃ info, ExternalSignIn s a info user) :
    (PasswordSignIn a user ∧ FormShown enableLocalLogin ts) ∨
    ((∃ info, ExternalSignIn s a info user) ∧ IdpShown enableLocalLogin ts user.idp) := by
  rcases hsignIn with hpassword | ⟨info, hexternal⟩
  · obtain ⟨world, model, username, password, testUser, rfl, -⟩ := id hpassword
    -- The form was there, so a page has had it.
    obtain ⟨vm, errors, hpage, henabled⟩ := hfollows
    exact .inl ⟨hpassword, (h.login vm errors hpage).1 henabled⟩
  · obtain ⟨world, returnUrl, provider, userIdClaim, rfl, hinfo, -, hscheme, rfl⟩ := id hexternal
    obtain ⟨provider', hscheme', hshown⟩ := h.externalCookie info hinfo
    obtain rfl := Option.some.inj (hscheme.symm.trans hscheme')
    exact .inr ⟨⟨info, hexternal⟩, hshown⟩

/-- **Nobody gets in by what was not offered.**  The user that a browser which does what
the pages are for is signed in as was signed in with a password only if some login page
before had the form, which the options and the client allowed then; and by an identity
provider only if some login page before had a link to it, or nothing but it: the request
named it, or it was registered and the client admitted it then. -/
theorem account_offered (hrun : Run (AccountStep enableLocalLogin) .init ts s)
    (hfollows : ∀ t ∈ ts, FollowsPage t.before t.label) {user : UserSession}
    (huser : s.cookie = some user) :
    ∃ pre t post, ts = pre ++ t :: post ∧ (∀ t' ∈ post, t'.after.cookie = some user) ∧
      ((PasswordSignIn t.label user ∧ FormShown enableLocalLogin pre) ∨
        ((∃ info, ExternalSignIn t.before t.label info user) ∧
          IdpShown enableLocalLogin pre user.idp)) := by
  obtain ⟨pre, t, post, rfl, hpre, hpost, hsignIn⟩ := exists_signIn hrun huser
  obtain ⟨hbefore, hlater⟩ := List.forall_mem_append.mp hfollows
  have hfollows := hlater t List.mem_cons_self
  exact ⟨pre, t, post, rfl, hpost, (onlyShown_of_run hpre hbefore).signIn hfollows hsignIn⟩

end Follows

/-! ### A visit to the login pages -/

/-- Two providers, of which the client accepts one, and a user with a password. -/
def plainAccountWorld : AccountWorld Platform.plain where
  options := {}
  utcNow := 0
  getAuthorizationContextAsync := plainWorld.getAuthorizationContextAsync
  findEnabledClientByIdAsync := fun _ => some
    { plainClient "app" [] with identityProviderRestrictions := some ["google"] }
  getAuthenticationSchemes :=
    [{ displayName := "Google", authenticationScheme := "google" },
     { displayName := "Twitter", authenticationScheme := "twitter" }]
  handlesChallenge := fun scheme => ["google", "twitter"].contains scheme
  isValidReturnUrl := fun url => url == "/authorize"
  validateCredentials := fun username password => username == "alice" && password == "secret"
  findByUsername := fun username =>
    if username = "alice" then some { subjectId := "1", username := "alice" } else none
  findByExternalProvider := fun _ _ => none
  autoProvisionUser := fun provider userId _ => { subjectId := userId, username := provider }
  windowsUser := none
  getLogoutContextAsync := fun _ => none
  createLogoutContextAsync := "logout"
  signOutAsync := fun _ => none

def plainInfo : AuthenticateInfo :=
  { claims := [{ type := .subject, value := "42" }], scheme := "google", idToken := none }

def plainEnableLocalLogin : Platform.plain.ClientScalars → Bool := fun scalars => scalars

def plainLoginPage : AccountSession :=
  AccountSession.init.getLogin plainEnableLocalLogin plainAccountWorld "/authorize"

def plainChallenged : AccountSession :=
  plainLoginPage.externalLogin plainAccountWorld "google" "/authorize"

def plainAuthenticated : AccountSession :=
  { plainChallenged with externalCookie := plainInfo, page := .callback "/authorize" }

def plainSignedIn : AccountSession :=
  plainAuthenticated.externalLoginCallback plainAccountWorld "/authorize"

def plainUser : UserSession :=
  { subjectId := "42", username := "google", idp := "google", additionalClaims := []
    expiresUtc := none, idToken := none }

/-- By way of the one provider that is offered. -/
def plainLoginRun : List (Transition AccountSession (AccountAction Platform.plain)) :=
  [⟨.init, .getLogin plainAccountWorld "/authorize", plainLoginPage⟩,
   ⟨plainLoginPage, .externalLogin plainAccountWorld "google" "/authorize", plainChallenged⟩,
   ⟨plainChallenged, .authenticated plainInfo, plainAuthenticated⟩,
   ⟨plainAuthenticated, .externalLoginCallback plainAccountWorld "/authorize", plainSignedIn⟩]

theorem run_plainLoginRun :
    Run (AccountStep plainEnableLocalLogin) .init plainLoginRun plainSignedIn := by
  have hlogin : AccountStep plainEnableLocalLogin .init
      (.getLogin plainAccountWorld "/authorize") plainLoginPage := .getLogin _ _ (by decide)
  have hexternal : AccountStep plainEnableLocalLogin plainLoginPage
      (.externalLogin plainAccountWorld "google" "/authorize") plainChallenged :=
    .externalLogin _ _ _ (by decide)
  have hauthenticated : AccountStep plainEnableLocalLogin plainChallenged
      (.authenticated plainInfo) plainAuthenticated :=
    .authenticated _ (show ("google", some "/authorize") ∈ plainChallenged.challenges by decide) rfl
  have hcallback : AccountStep plainEnableLocalLogin plainAuthenticated
      (.externalLoginCallback plainAccountWorld "/authorize") plainSignedIn :=
    .externalLoginCallback _ _ (by decide)
  exact (((Run.nil.concat hlogin).concat hexternal).concat hauthenticated).concat hcallback

def plainModel : LoginInputModel :=
  { username := "alice", password := "secret", rememberLogin := true, returnUrl := "/authorize" }

def plainLoginAgain : AccountSession :=
  plainSignedIn.getLogin plainEnableLocalLogin plainAccountWorld "/authorize"

def plainRemembered : AccountSession :=
  plainLoginAgain.postLogin plainEnableLocalLogin plainAccountWorld plainModel

def plainAlice : UserSession :=
  { subjectId := "1", username := "alice", idp := "local", additionalClaims := []
    expiresUtc := some 25920000000000, idToken := none }

/-- Another user logs in, with a password. -/
def plainPasswordRun : List (Transition AccountSession (AccountAction Platform.plain)) :=
  [⟨plainSignedIn, .getLogin plainAccountWorld "/authorize", plainLoginAgain⟩,
   ⟨plainLoginAgain, .postLogin plainAccountWorld plainModel, plainRemembered⟩]

theorem run_plainPasswordRun {s₀ : AccountSession}
    {ts : List (Transition AccountSession (AccountAction Platform.plain))}
    (hrun : Run (AccountStep plainEnableLocalLogin) s₀ ts plainSignedIn) :
    Run (AccountStep plainEnableLocalLogin) s₀ (ts ++ plainPasswordRun) plainRemembered := by
  have hlogin : AccountStep plainEnableLocalLogin plainSignedIn
      (.getLogin plainAccountWorld "/authorize") plainLoginAgain := .getLogin _ _ (by decide)
  have hpost : AccountStep plainEnableLocalLogin plainLoginAgain
      (.postLogin plainAccountWorld plainModel) plainRemembered := .postLogin _ _ (by decide)
  have hboth := (hrun.concat hlogin).concat hpost
  rwa [List.append_assoc] at hboth

theorem account_signedIn_plainLoginRun :
    (∃ pre t post, plainLoginRun = pre ++ t :: post ∧
      (PasswordSignIn t.label plainUser ∨
        ∃ info, ExternalSignIn t.before t.label info plainUser ∧
          ∃ t₀ ∈ pre, ExternalIdentity plainEnableLocalLogin t₀.before t₀.label info)) ∧
    ∃ pre t post, plainLoginRun ++ plainPasswordRun = pre ++ t :: post ∧
      (PasswordSignIn t.label plainAlice ∨
        ∃ info, ExternalSignIn t.before t.label info plainAlice ∧
          ∃ t₀ ∈ pre, ExternalIdentity plainEnableLocalLogin t₀.before t₀.label info) := by
  have huser : plainSignedIn.cookie = some plainUser := by decide
  have halice : plainRemembered.cookie = some plainAlice := by decide
  obtain ⟨pre, t, post, hts, -, hsignIn⟩ := account_signedIn run_plainLoginRun huser
  obtain ⟨pre', t', post', hts', -, hsignIn'⟩ :=
    account_signedIn (run_plainPasswordRun run_plainLoginRun) halice
  exact ⟨⟨pre, t, post, hts, hsignIn⟩, pre', t', post', hts', hsignIn'⟩

/-- By a logout, by the login of another user, and by the end of the 30 days. -/
theorem account_signedOut_plainSignedIn :
    (∃ ts, Run (AccountStep plainEnableLocalLogin) plainSignedIn ts
        (plainSignedIn.postLogout plainAccountWorld none) ∧
      ∃ t ∈ ts, t.before.cookie = some plainUser ∧ t.after.cookie ≠ some plainUser) ∧
    (∃ t ∈ plainPasswordRun, t.before.cookie = some plainUser ∧ t.after.cookie ≠ some plainUser) ∧
    ∃ ts, Run (AccountStep plainEnableLocalLogin) plainRemembered ts
        { plainRemembered with cookie := none } ∧
      ∃ t ∈ ts, t.before.cookie = some plainAlice ∧ t.after.cookie ≠ some plainAlice := by
  have huser : plainSignedIn.cookie = some plainUser := by decide
  have halice : plainRemembered.cookie = some plainAlice := by decide
  refine ⟨?_, ?_, ?_⟩
  · have hlogout : AccountStep plainEnableLocalLogin plainSignedIn
        (.postLogout plainAccountWorld none) (plainSignedIn.postLogout plainAccountWorld none) :=
      .postLogout _ _ (by decide)
    have hrun := Run.nil.concat hlogout
    obtain ⟨t, ht, hbefore, hafter, -⟩ := account_signedOut hrun huser (by decide)
    exact ⟨_, hrun, t, ht, hbefore, hafter⟩
  · obtain ⟨t, ht, hbefore, hafter, -⟩ :=
      account_signedOut (run_plainPasswordRun .nil) huser (by decide)
    exact ⟨t, ht, hbefore, hafter⟩
  · have hexpired : AccountStep plainEnableLocalLogin plainRemembered
        (.expired 25920000000001) { plainRemembered with cookie := none } := by
      refine .expired _ halice fun expiresUtc h => ?_
      obtain rfl := Option.some.inj h
      decide
    have hrun := Run.nil.concat hexpired
    obtain ⟨t, ht, hbefore, hafter, -⟩ := account_signedOut hrun halice (by decide)
    exact ⟨_, hrun, t, ht, hbefore, hafter⟩

theorem followsPage_plainLoginRun : ∀ t ∈ plainLoginRun, FollowsPage t.before t.label := by
  have hpage : ∃ vm, plainLoginPage.page = .login vm [] ∧
      ∃ x ∈ vm.visibleExternalProviders, some "google" = some x.authenticationScheme :=
    ⟨_, rfl, { displayName := "Google", authenticationScheme := "google" }, by decide, rfl⟩
  obtain ⟨vm, hvm, hlink⟩ := hpage
  intro t ht
  simp only [plainLoginRun, List.mem_cons, List.not_mem_nil, or_false] at ht
  rcases ht with rfl | rfl | rfl | rfl
  · exact trivial
  · exact .inl ⟨vm, [], hvm, hlink⟩
  · exact trivial
  · exact trivial

theorem followsPage_plainPasswordRun : ∀ t ∈ plainPasswordRun, FollowsPage t.before t.label := by
  have hpage : ∃ vm, plainLoginAgain.page = .login vm [] ∧ vm.enableLocalLogin = true :=
    ⟨_, rfl, by decide⟩
  obtain ⟨vm, hvm, henabled⟩ := hpage
  intro t ht
  simp only [plainPasswordRun, List.mem_cons, List.not_mem_nil, or_false] at ht
  rcases ht with rfl | rfl
  · exact trivial
  · exact ⟨vm, [], hvm, henabled⟩

theorem account_offered_plainLoginRun :
    (∃ pre t post, plainLoginRun = pre ++ t :: post ∧
      ((PasswordSignIn t.label plainUser ∧ FormShown plainEnableLocalLogin pre) ∨
        ((∃ info, ExternalSignIn t.before t.label info plainUser) ∧
          IdpShown plainEnableLocalLogin pre plainUser.idp))) ∧
    ∃ pre t post, plainLoginRun ++ plainPasswordRun = pre ++ t :: post ∧
      ((PasswordSignIn t.label plainAlice ∧ FormShown plainEnableLocalLogin pre) ∨
        ((∃ info, ExternalSignIn t.before t.label info plainAlice) ∧
          IdpShown plainEnableLocalLogin pre plainAlice.idp)) := by
  have huser : plainSignedIn.cookie = some plainUser := by decide
  have halice : plainRemembered.cookie = some plainAlice := by decide
  have hfollows : ∀ t ∈ plainLoginRun ++ plainPasswordRun, FollowsPage t.before t.label :=
    List.forall_mem_append.mpr ⟨followsPage_plainLoginRun, followsPage_plainPasswordRun⟩
  obtain ⟨pre, t, post, hts, -, hshown⟩ :=
    account_offered run_plainLoginRun followsPage_plainLoginRun huser
  obtain ⟨pre', t', post', hts', -, hshown'⟩ :=
    account_offered (run_plainPasswordRun run_plainLoginRun) hfollows halice
  exact ⟨⟨pre, t, post, hts, hshown⟩, pre', t', post', hts', hshown'⟩

end IdentityLinq.Quickstart
