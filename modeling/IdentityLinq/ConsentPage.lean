/-
The consent page of the host.

The page lists the scopes that a client asks for, each with a checkbox; the browser
posts back which of them are checked, and `ProcessConsent` hands the decision to
IdentityServer or shows the page again.  Clients, resources, requests and options may
change while the page is open, and a post may have been edited on its way.

* `consent_informed` — what is granted by pressing a button of the page is what was
  checked on it, all of it scopes the page has offered, for the request that its return
  URL stands for;
* `consent_answered` — and when a button is pressed this is granted unless the request is
  gone or nothing is checked, in which case the page comes back with nothing lost but
  the decision to remember.
-/
import IdentityLinq.Platform
import IdentityLinq.Transition

namespace IdentityLinq.Quickstart

variable {P : Platform}

/-! ### What the page works with -/

/-- The scalar members of clients and identity resources that the page shows. -/
structure ShownMembers (P : Platform) where
  clientName : P.ClientScalars → Option String
  clientUri : P.ClientScalars → Option String
  logoUri : P.ClientScalars → Option String
  allowRememberConsent : P.ClientScalars → Bool
  displayName : P.IdentityResourceScalars → Option String
  description : P.IdentityResourceScalars → Option String
  emphasize : P.IdentityResourceScalars → Bool
  required : P.IdentityResourceScalars → Bool

/-- An authorization request, as far as the pages read it. -/
structure AuthorizationRequest where
  clientId : Option String
  scopesRequested : List String
  idP : Option String
  loginHint : Option String
deriving DecidableEq, Repr

structure Resources (P : Platform) where
  identityResources : List (Models.IdentityResource P)
  apiResources : List (Models.ApiResource P)
  offlineAccess : Bool

/-- A decision, as IdentityServer is told. -/
structure ConsentResponse where
  rememberConsent : Bool
  scopesConsented : Collection String
deriving DecidableEq, Repr

/-- `ConsentResponse.Denied` -/
def ConsentResponse.denied : ConsentResponse :=
  { rememberConsent := false, scopesConsented := none }

/-- `IdentityServerConstants.StandardScopes.OfflineAccess` -/
def offlineAccess : String := "offline_access"

/-- The members of `ConsentOptions` that can be set. -/
structure ConsentOptions where
  enableOfflineAccess : Bool := true
  offlineAccessDisplayName : String := "Offline Access"
  offlineAccessDescription : String :=
    "Access to your applications and resources, even when you are offline"
deriving DecidableEq, Repr

def mustChooseOneErrorMessage : String := "You must pick at least one permission"

def invalidSelectionErrorMessage : String := "Invalid selection"

/-- The options, and what the interaction service and the stores answer while one HTTP
request is handled. -/
structure World (P : Platform) where
  options : ConsentOptions
  getAuthorizationContextAsync : Option String → Option AuthorizationRequest
  findEnabledClientByIdAsync : Option String → Option (Models.Client P (Collection String))
  findEnabledResourcesByScopeAsync : List String → Option (Resources P)
  /-- no authorization request comes without a URL -/
  context_none : getAuthorizationContextAsync none = none

/-- What the handling of a request can throw. -/
inductive PageError where
  /-- `NullReferenceException`, on an API resource whose `Scopes` are null -/
  | nullReference
  /-- `InvalidOperationException`, of `Aggregate` on no elements -/
  | invalidOperation
deriving DecidableEq, Repr

/-! ### `ConsentService` -/

structure ConsentInputModel where
  button : Option String
  scopesConsented : Collection String
  rememberConsent : Bool
  returnUrl : Option String
deriving DecidableEq, Repr

structure ScopeViewModel where
  name : String
  displayName : Option String
  description : Option String
  emphasize : Bool
  required : Bool
  checked : Bool
deriving DecidableEq, Repr

structure ConsentViewModel extends ConsentInputModel where
  clientName : Option String
  clientUrl : Option String
  clientLogoUrl : Option String
  allowRememberConsent : Bool
  identityScopes : List ScopeViewModel
  resourceScopes : List ScopeViewModel
deriving DecidableEq, Repr

/-- `CreateScopeViewModel(identity, check)` -/
def createIdentityScopeViewModel (members : ShownMembers P) (identity : Models.IdentityResource P)
    (check : Bool) : ScopeViewModel where
  name := identity.name
  displayName := members.displayName identity.scalars
  description := members.description identity.scalars
  emphasize := members.emphasize identity.scalars
  required := members.required identity.scalars
  checked := check || members.required identity.scalars

/-- `CreateScopeViewModel(scope, check)` -/
def createScopeViewModel (scope : Models.Scope) (check : Bool) : ScopeViewModel where
  name := scope.name
  displayName := scope.displayName
  description := scope.description
  emphasize := scope.emphasize
  required := scope.required
  checked := check || scope.required

def getOfflineAccessScope (options : ConsentOptions) (check : Bool) : ScopeViewModel where
  name := offlineAccess
  displayName := options.offlineAccessDisplayName
  description := options.offlineAccessDescription
  emphasize := true
  required := false
  checked := check

/-- `CreateConsentViewModel(model, returnUrl, request, client, resources)`.  (The `Union`
compares scope view models by reference, so it appends.) -/
def createConsentViewModel (members : ShownMembers P) (options : ConsentOptions)
    (model : Option ConsentInputModel) (returnUrl : Option String)
    (client : Models.Client P (Collection String)) (resources : Resources P) :
    Except PageError ConsentViewModel :=
  let scopesConsented := (model.bind (·.scopesConsented)).getD []
  let check (name : String) : Bool := decide (name ∈ scopesConsented) || model.isNone
  match resources.apiResources.mapM (m := Option) (·.scopes) with
  | none => .error .nullReference
  | some scopes => .ok {
      button := none
      scopesConsented := some scopesConsented
      rememberConsent := (model.map (·.rememberConsent)).getD true
      returnUrl := returnUrl
      clientName := members.clientName client.scalars
      clientUrl := members.clientUri client.scalars
      clientLogoUrl := members.logoUri client.scalars
      allowRememberConsent := members.allowRememberConsent client.scalars
      identityScopes := resources.identityResources.map fun x =>
        createIdentityScopeViewModel members x (check x.name)
      resourceScopes := (scopes.flatten.map fun x => createScopeViewModel x (check x.name))
        ++ if options.enableOfflineAccess && resources.offlineAccess then
            [getOfflineAccessScope options (check offlineAccess)] else [] }

/-- The last lines of `BuildViewModelAsync`: the message lists the scopes requested with
`Aggregate`, which throws if there are none. -/
def logNoScopesMatching (request : AuthorizationRequest) :
    Except PageError (Option ConsentViewModel) :=
  if request.scopesRequested = [] then .error .invalidOperation else .ok none

/-- `BuildViewModelAsync(returnUrl, model)` -/
def buildViewModelAsync (members : ShownMembers P) (world : World P) (returnUrl : Option String)
    (model : Option ConsentInputModel) : Except PageError (Option ConsentViewModel) :=
  match world.getAuthorizationContextAsync returnUrl with
  | none => .ok none
  | some request =>
    match world.findEnabledClientByIdAsync request.clientId with
    | none => .ok none
    | some client =>
      match world.findEnabledResourcesByScopeAsync request.scopesRequested with
      | none => logNoScopesMatching request
      | some resources =>
        if resources.identityResources ≠ [] ∨ resources.apiResources ≠ [] then
          (createConsentViewModel members world.options model returnUrl client resources).map some
        else logNoScopesMatching request

/-- What `ProcessConsent` makes of the post: the decision, or a validation error. -/
def grantedConsent (options : ConsentOptions) (model : ConsentInputModel) :
    Except String ConsentResponse :=
  if model.button = some "no" then .ok .denied
  else if model.button = some "yes" then
    let scopes := model.scopesConsented.getD []
    if scopes ≠ [] then .ok {
      rememberConsent := model.rememberConsent
      scopesConsented := some (if options.enableOfflineAccess then scopes
        else scopes.filter (· ≠ offlineAccess)) }
    else .error mustChooseOneErrorMessage
  else .error invalidSelectionErrorMessage

structure ProcessConsentResult where
  redirectUri : Option String := none
  viewModel : Option ConsentViewModel := none
  validationError : Option String := none

/-- The decisions IdentityServer has been told, each with its request. -/
abbrev Granted : Type := List (AuthorizationRequest × ConsentResponse)

/-- `ProcessConsent(model)`, with the decisions that have been told before and after. -/
def processConsent (members : ShownMembers P) (world : World P) (model : ConsentInputModel)
    (granted : Granted) : Except PageError ProcessConsentResult × Granted :=
  match grantedConsent world.options model with
  | .ok grantedConsent =>
    match world.getAuthorizationContextAsync model.returnUrl with
    | none => (.ok {}, granted)
    | some request =>
      (.ok { redirectUri := model.returnUrl }, granted ++ [(request, grantedConsent)])
  | .error validationError =>
    ((buildViewModelAsync members world model.returnUrl (some model)).map fun viewModel =>
      { viewModel := viewModel, validationError := some validationError }, granted)

/-! ### `ConsentController` and the browser -/

/-- What the browser shows. -/
inductive ConsentPage where
  | blank
  /-- the view `Index`, with its checkboxes as they are now, and the validation errors -/
  | consent (vm : ConsentViewModel) (errors : List String)
  /-- the view `Error` -/
  | error
  /-- another page, where it has been redirected to -/
  | redirected (url : String)
  /-- the handling of the request has thrown -/
  | thrown (e : PageError)
deriving DecidableEq, Repr

/-- `Index(returnUrl)`, for a get -/
def index (members : ShownMembers P) (world : World P) (returnUrl : Option String) : ConsentPage :=
  match buildViewModelAsync members world returnUrl none with
  | .ok (some vm) => .consent vm []
  | .ok none => .error
  | .error e => .thrown e

/-- What `Index(model)` returns. -/
def ProcessConsentResult.page (result : ProcessConsentResult) : ConsentPage :=
  match result.redirectUri with
  | some url => .redirected url
  | none =>
    match result.viewModel with
    | some vm => .consent vm result.validationError.toList
    | none => .error

/-- A browser at the page, and the decisions told so far. -/
structure ConsentSession where
  page : ConsentPage
  granted : Granted
deriving DecidableEq, Repr

def ConsentSession.init : ConsentSession := { page := .blank, granted := [] }

/-- `Index(model)`, for a post -/
def ConsentSession.indexPost (members : ShownMembers P) (world : World P)
    (model : ConsentInputModel) (s : ConsentSession) : ConsentSession :=
  let (result, granted) := processConsent members world model s.granted
  match result with
  | .ok result => { page := result.page, granted := granted }
  | .error e => { page := .thrown e, granted := granted }

/-- A click on the checkbox of a scope; it is disabled if the scope is required. -/
def ScopeViewModel.click (scope : ScopeViewModel) : ScopeViewModel :=
  if scope.required then scope else { scope with checked := !scope.checked }

/-- The list items of the page, in order. -/
def ConsentViewModel.scopes (vm : ConsentViewModel) : List ScopeViewModel :=
  vm.identityScopes ++ vm.resourceScopes

/-- The buttons of the page. -/
inductive ConsentButton where
  | yes
  | no
deriving DecidableEq, Repr

def ConsentButton.value : ConsentButton → String
  | yes => "yes"
  | no => "no"

/-- What the browser posts for a list item: a disabled checkbox is not sent, and beside it
there is a hidden input of the same name and value. -/
def ScopeViewModel.inputs (scope : ScopeViewModel) : List String :=
  (if scope.checked && !scope.required then [scope.name] else [])
    ++ if scope.required then [scope.name] else []

/-- The model bound from the form.  Without a field of its name a collection is null; the
checkbox for `RememberConsent` is not always there. -/
def ConsentViewModel.form (vm : ConsentViewModel) (button : ConsentButton) : ConsentInputModel where
  button := button.value
  scopesConsented :=
    let inputs := vm.scopes.flatMap (·.inputs)
    if inputs = [] then none else some inputs
  rememberConsent := vm.allowRememberConsent && vm.rememberConsent
  returnUrl := vm.returnUrl

inductive ConsentAction (P : Platform) where
  /-- the browser is sent to the page -/
  | get (world : World P) (returnUrl : Option String)
  | clickIdentityScope (i : ℕ)
  | clickResourceScope (i : ℕ)
  | clickRememberConsent
  /-- a button of the page is pressed -/
  | press (world : World P) (button : ConsentButton)
  /-- a post whose fields are not those of the page -/
  | edited (world : World P) (model : ConsentInputModel)

/-- Something on the page is filled in. -/
def ConsentPage.fill (fill : ConsentViewModel → ConsentViewModel) : ConsentPage → ConsentPage
  | consent vm errors => .consent (fill vm) errors
  | page => page

def ConsentViewModel.clickIdentityScope (vm : ConsentViewModel) (i : ℕ) : ConsentViewModel :=
  { vm with identityScopes := vm.identityScopes.modify i ScopeViewModel.click }

def ConsentViewModel.clickResourceScope (vm : ConsentViewModel) (i : ℕ) : ConsentViewModel :=
  { vm with resourceScopes := vm.resourceScopes.modify i ScopeViewModel.click }

def ConsentViewModel.clickRememberConsent (vm : ConsentViewModel) : ConsentViewModel :=
  if vm.allowRememberConsent then { vm with rememberConsent := !vm.rememberConsent } else vm

def ConsentSession.step (members : ShownMembers P) (s : ConsentSession) :
    ConsentAction P → ConsentSession
  | .get world returnUrl => { s with page := index members world returnUrl }
  | .clickIdentityScope i => { s with page := s.page.fill (·.clickIdentityScope i) }
  | .clickResourceScope i => { s with page := s.page.fill (·.clickResourceScope i) }
  | .clickRememberConsent => { s with page := s.page.fill (·.clickRememberConsent) }
  | .press world button =>
    match s.page with
    | .consent vm _ => s.indexPost members world (vm.form button)
    | _ => s
  | .edited world model => s.indexPost members world model

def ConsentSession.steps (members : ShownMembers P) (s : ConsentSession)
    (actions : List (ConsentAction P)) : ConsentSession :=
  actions.foldl (fun s a => s.step members a) s

/-- The steps of a browser at the page. -/
def ConsentStep (members : ShownMembers P) (s : ConsentSession) (a : ConsentAction P)
    (s' : ConsentSession) : Prop :=
  s' = s.step members a

/-! ### The page as it was made -/

/-- The page offers a scope of that name if it is shown now. -/
def Offered (world : World P) (returnUrl : Option String) (name : String) : Prop :=
  ∃ request client resources,
    world.getAuthorizationContextAsync returnUrl = some request ∧
    world.findEnabledClientByIdAsync request.clientId = some client ∧
    world.findEnabledResourcesByScopeAsync request.scopesRequested = some resources ∧
    ((∃ r ∈ resources.identityResources, r.name = name) ∨
      (∃ a ∈ resources.apiResources, ∃ scope ∈ a.scopes.getD [], scope.name = name) ∨
      (world.options.enableOfflineAccess = true ∧ resources.offlineAccess = true ∧
        name = offlineAccess))

/-- What the page keeps while it is filled in: its scopes have been offered, and the
required ones are checked. -/
structure MadeIn (world : World P) (vm : ConsentViewModel) : Prop where
  offered : ∀ scope ∈ vm.scopes, Offered world vm.returnUrl scope.name
  required : ∀ scope ∈ vm.scopes, scope.required = true → scope.checked = true

theorem ScopeViewModel.name_click (scope : ScopeViewModel) : scope.click.name = scope.name := by
  rw [click]
  split <;> rfl

theorem ScopeViewModel.checked_click {scope : ScopeViewModel}
    (h : scope.required = true → scope.checked = true) :
    scope.click.required = true → scope.click.checked = true := by
  rw [click]
  split
  · exact h
  · next hnot => exact fun hreq => absurd hreq hnot

/-- A list item after a click somewhere in the list. -/
theorem exists_of_mem_modify_click {scopes : List ScopeViewModel} {i : ℕ} {scope : ScopeViewModel}
    (h : scope ∈ scopes.modify i ScopeViewModel.click) :
    ∃ scope' ∈ scopes, scope = scope' ∨ scope = scope'.click := by
  obtain ⟨j, hj, rfl⟩ := List.getElem_of_mem h
  rw [List.length_modify] at hj
  refine ⟨scopes[j], List.getElem_mem hj, ?_⟩
  rw [List.getElem_modify]
  split
  · exact .inr rfl
  · exact .inl rfl

/-- Where every list item is one of before, perhaps clicked, the page is as it was made. -/
theorem MadeIn.of_clicked {world : World P} {vm vm' : ConsentViewModel} (h : MadeIn world vm)
    (hurl : vm'.returnUrl = vm.returnUrl)
    (hscopes : ∀ scope ∈ vm'.scopes, ∃ scope' ∈ vm.scopes, scope = scope' ∨ scope = scope'.click) :
    MadeIn world vm' where
  offered := by
    intro scope hscope
    obtain ⟨scope', hmem, rfl | rfl⟩ := hscopes scope hscope
    · exact hurl ▸ h.offered _ hmem
    · rw [hurl, ScopeViewModel.name_click]
      exact h.offered _ hmem
  required := by
    intro scope hscope
    obtain ⟨scope', hmem, rfl | rfl⟩ := hscopes scope hscope
    · exact h.required _ hmem
    · exact ScopeViewModel.checked_click (h.required _ hmem)

section MadeIn

variable {world : World P} {vm : ConsentViewModel}

theorem MadeIn.clickIdentityScope (h : MadeIn world vm) (i : ℕ) :
    MadeIn world (vm.clickIdentityScope i) := by
  refine h.of_clicked rfl fun scope hscope => ?_
  rcases List.mem_append.mp hscope with hidentity | hresource
  · obtain ⟨scope', hmem, heq⟩ := exists_of_mem_modify_click hidentity
    exact ⟨scope', List.mem_append_left _ hmem, heq⟩
  · exact ⟨scope, List.mem_append_right _ hresource, .inl rfl⟩

theorem MadeIn.clickResourceScope (h : MadeIn world vm) (i : ℕ) :
    MadeIn world (vm.clickResourceScope i) := by
  refine h.of_clicked rfl fun scope hscope => ?_
  rcases List.mem_append.mp hscope with hidentity | hresource
  · exact ⟨scope, List.mem_append_left _ hidentity, .inl rfl⟩
  · obtain ⟨scope', hmem, heq⟩ := exists_of_mem_modify_click hresource
    exact ⟨scope', List.mem_append_right _ hmem, heq⟩

theorem MadeIn.clickRememberConsent (h : MadeIn world vm) :
    MadeIn world vm.clickRememberConsent := by
  rw [ConsentViewModel.clickRememberConsent]
  split
  · exact { h with }
  · exact h

end MadeIn

theorem mapM_eq_some_iff {α β : Type} {f : α → Option β} {xs : List α} {ys : List β} :
    xs.mapM (m := Option) f = some ys ↔ xs.map f = ys.map some := by
  induction xs generalizing ys with
  | nil => cases ys <;> simp
  | cons x xs ih =>
    cases ys with
    | nil => simp [Option.bind_eq_some_iff]
    | cons y ys => simp [Option.bind_eq_some_iff, ← ih]

section BuildViewModel

variable {members : ShownMembers P} {options : ConsentOptions} {model : Option ConsentInputModel}
  {returnUrl : Option String} {client : Models.Client P (Collection String)}
  {resources : Resources P} {world : World P} {vm : ConsentViewModel}

/-- Where a list item of the page comes from, and when it is checked. -/
theorem mem_scopes_create
    (h : createConsentViewModel members options model returnUrl client resources = .ok vm)
    {scope : ScopeViewModel} (hscope : scope ∈ vm.scopes) :
    ((∃ r ∈ resources.identityResources, r.name = scope.name) ∨
      (∃ a ∈ resources.apiResources, ∃ x ∈ a.scopes.getD [], x.name = scope.name) ∨
      (options.enableOfflineAccess = true ∧ resources.offlineAccess = true ∧
        scope.name = offlineAccess)) ∧
    scope.checked = ((decide (scope.name ∈ (model.bind (·.scopesConsented)).getD [])
      || model.isNone) || scope.required) := by
  rw [createConsentViewModel] at h
  split at h
  · exact absurd h (by simp)
  · next scopes hscopes =>
    obtain rfl := Except.ok.inj h
    rcases List.mem_append.mp hscope with hidentity | hresource
    · obtain ⟨r, hr, rfl⟩ := List.mem_map.mp hidentity
      exact ⟨.inl ⟨r, hr, rfl⟩, rfl⟩
    · rcases List.mem_append.mp hresource with hapi | hoffline
      · obtain ⟨x, hx, rfl⟩ := List.mem_map.mp hapi
        obtain ⟨xs, hxs, hmem⟩ := List.mem_flatten.mp hx
        have hsome : some xs ∈ resources.apiResources.map (·.scopes) := by
          rw [mapM_eq_some_iff.mp hscopes]
          exact List.mem_map_of_mem hxs
        obtain ⟨a, ha, hxs⟩ := List.mem_map.mp hsome
        refine ⟨.inr (.inl ⟨a, ha, x, ?_, rfl⟩), rfl⟩
        rw [hxs]
        exact hmem
      · split at hoffline
        · next henabled =>
          obtain rfl := List.mem_singleton.mp hoffline
          obtain ⟨henable, hoffline⟩ := Bool.and_eq_true_iff.mp henabled
          exact ⟨.inr (.inr ⟨henable, hoffline, rfl⟩), (Bool.or_false _).symm⟩
        · exact absurd hoffline List.not_mem_nil

theorem returnUrl_create
    (h : createConsentViewModel members options model returnUrl client resources = .ok vm) :
    vm.returnUrl = returnUrl ∧ vm.rememberConsent = (model.map (·.rememberConsent)).getD true := by
  rw [createConsentViewModel] at h
  split at h
  · exact absurd h (by simp)
  · obtain rfl := Except.ok.inj h
    exact ⟨rfl, rfl⟩

theorem logNoScopesMatching_ne (request : AuthorizationRequest) :
    logNoScopesMatching request ≠ .ok (some vm) := by
  rw [logNoScopesMatching]
  split <;> simp

/-- A view model is built only for a request of an enabled client. -/
theorem buildViewModelAsync_eq_some
    (h : buildViewModelAsync members world returnUrl model = .ok (some vm)) :
    ∃ request client resources,
      world.getAuthorizationContextAsync returnUrl = some request ∧
      world.findEnabledClientByIdAsync request.clientId = some client ∧
      world.findEnabledResourcesByScopeAsync request.scopesRequested = some resources ∧
      createConsentViewModel members world.options model returnUrl client resources = .ok vm := by
  rw [buildViewModelAsync] at h
  split at h
  · exact absurd h (by simp)
  · next request hrequest =>
    split at h
    · exact absurd h (by simp)
    · next client hclient =>
      split at h
      · exact absurd h (logNoScopesMatching_ne request)
      · next resources hresources =>
        split at h
        · refine ⟨request, client, resources, hrequest, hclient, hresources, ?_⟩
          cases hcreate : createConsentViewModel members world.options model returnUrl client
              resources with
          | error e => rw [hcreate] at h; exact absurd h (by simp [Except.map])
          | ok vm' => rw [hcreate] at h; exact congrArg _ (Option.some.inj (Except.ok.inj h))
        · exact absurd h (logNoScopesMatching_ne request)

/-- **The page as it is shown**, at first or again. -/
theorem madeIn_of_buildViewModelAsync
    (h : buildViewModelAsync members world returnUrl model = .ok (some vm)) :
    MadeIn world vm := by
  obtain ⟨request, client, resources, hrequest, hclient, hresources, hcreate⟩ :=
    buildViewModelAsync_eq_some h
  have hurl := (returnUrl_create hcreate).1
  constructor
  · intro scope hscope
    rw [hurl]
    exact ⟨request, client, resources, hrequest, hclient, hresources,
      (mem_scopes_create hcreate hscope).1⟩
  · intro scope hscope hrequired
    rw [(mem_scopes_create hcreate hscope).2, hrequired, Bool.or_true]

end BuildViewModel

/-! ### Posts -/

section Post

variable {members : ShownMembers P} {world : World P} {vm : ConsentViewModel}

/-- The names whose boxes are checked. -/
def ConsentViewModel.checkedScopes (vm : ConsentViewModel) : List String :=
  (vm.scopes.filter (·.checked)).map (·.name)

/-- What pressing a button of the page means. -/
def ConsentViewModel.decision (vm : ConsentViewModel) (options : ConsentOptions) :
    ConsentButton → ConsentResponse
  | .no => .denied
  | .yes =>
    { rememberConsent := vm.allowRememberConsent && vm.rememberConsent
      scopesConsented := some (if options.enableOfflineAccess then vm.checkedScopes
        else vm.checkedScopes.filter (· ≠ offlineAccess)) }

/-- Whether pressing the button is a decision at all. -/
def ConsentViewModel.Decided (vm : ConsentViewModel) (button : ConsentButton) : Prop :=
  button = .no ∨ vm.checkedScopes ≠ []

/-- What is posted is what is checked: a required scope is posted once. -/
theorem MadeIn.flatMap_inputs (h : MadeIn world vm) :
    vm.scopes.flatMap (·.inputs) = vm.checkedScopes := by
  have hinputs : ∀ scope ∈ vm.scopes,
      scope.inputs = if scope.checked then [scope.name] else [] := by
    intro scope hscope
    have hrequired := h.required scope hscope
    rw [ScopeViewModel.inputs]
    cases hr : scope.required with
    | false => simp
    | true => simp [hrequired hr]
  rw [ConsentViewModel.checkedScopes]
  generalize vm.scopes = scopes at hinputs
  induction scopes with
  | nil => rfl
  | cons scope scopes ih =>
    obtain ⟨hfirst, hrest⟩ := List.forall_mem_cons.mp hinputs
    rw [List.flatMap_cons, hfirst, ih hrest, List.filter_cons]
    split <;> rfl

theorem MadeIn.scopesConsented_form (h : MadeIn world vm) (button : ConsentButton) :
    (vm.form button).scopesConsented.getD [] = vm.checkedScopes := by
  simp only [ConsentViewModel.form, h.flatMap_inputs]
  split
  · next hnil => exact hnil.symm
  · rfl

theorem MadeIn.grantedConsent_form (h : MadeIn world vm) (options : ConsentOptions)
    {button : ConsentButton} (hdecided : vm.Decided button) :
    grantedConsent options (vm.form button) = .ok (vm.decision options button) := by
  cases button with
  | no => rfl
  | yes =>
    have hsome : vm.checkedScopes ≠ [] := hdecided.resolve_left (by simp)
    have hno : (vm.form .yes).button ≠ some "no" := by
      show some "yes" ≠ some "no"
      simp
    have hyes : (vm.form .yes).button = some "yes" := rfl
    rw [grantedConsent, if_neg hno, if_pos hyes, h.scopesConsented_form, if_pos hsome]
    rfl

theorem MadeIn.grantedConsent_form_of_not (h : MadeIn world vm) (options : ConsentOptions)
    {button : ConsentButton} (hdecided : ¬ vm.Decided button) :
    grantedConsent options (vm.form button) = .error mustChooseOneErrorMessage := by
  obtain ⟨hbutton, hnil⟩ := not_or.mp hdecided
  cases button with
  | no => exact absurd rfl hbutton
  | yes =>
    have hno : (vm.form .yes).button ≠ some "no" := by
      show some "yes" ≠ some "no"
      simp
    have hyes : (vm.form .yes).button = some "yes" := rfl
    rw [grantedConsent, if_neg hno, if_pos hyes, h.scopesConsented_form, if_neg hnil]

variable {s : ConsentSession} {model : ConsentInputModel}

/-- A decision for a request that is still there. -/
theorem index_of_ok {response : ConsentResponse} {request : AuthorizationRequest}
    (hresponse : grantedConsent world.options model = .ok response)
    (hrequest : world.getAuthorizationContextAsync model.returnUrl = some request) :
    ∃ url, model.returnUrl = some url ∧ s.indexPost members world model
      = { page := .redirected url, granted := s.granted ++ [(request, response)] } := by
  cases hurl : model.returnUrl with
  | none =>
    rw [hurl, world.context_none] at hrequest
    exact absurd hrequest (by simp)
  | some url =>
    rw [hurl] at hrequest
    refine ⟨url, rfl, ?_⟩
    rw [ConsentSession.indexPost, processConsent, hresponse]
    simp [hrequest, hurl, ProcessConsentResult.page]

/-- Where the request is gone, nothing is decided. -/
theorem index_of_context_none
    (hnone : world.getAuthorizationContextAsync model.returnUrl = none) :
    s.indexPost members world model = { page := .error, granted := s.granted } := by
  cases hresponse : grantedConsent world.options model with
  | ok response =>
    rw [ConsentSession.indexPost, processConsent, hresponse]
    simp [hnone, ProcessConsentResult.page]
  | error message =>
    rw [ConsentSession.indexPost, processConsent, hresponse]
    simp [buildViewModelAsync, hnone, Except.map, ProcessConsentResult.page]

/-- Where nothing is decided, the page may come again. -/
theorem index_of_error {message : String}
    (hresponse : grantedConsent world.options model = .error message) :
    s.indexPost members world model
      = { page := match buildViewModelAsync members world model.returnUrl (some model) with
            | .ok (some vm) => .consent vm [message]
            | .ok none => .error
            | .error e => .thrown e
          granted := s.granted } := by
  rw [ConsentSession.indexPost, processConsent, hresponse]
  rcases buildViewModelAsync members world model.returnUrl (some model) with e | _ | vm <;> rfl

end Post

/-! ### Runs -/

section Runs

variable {members : ShownMembers P} {s : ConsentSession}
  {ts : List (Transition ConsentSession (ConsentAction P))}

/-- What the packages answer in a step, if the server takes part in it. -/
def ConsentAction.world : ConsentAction P → Option (World P)
  | get world _ => some world
  | press world _ => some world
  | edited world _ => some world
  | _ => none

/-- The page that is shown has been made in one of the steps. -/
def ShownBy (ts : List (Transition ConsentSession (ConsentAction P))) (page : ConsentPage) : Prop :=
  ∀ vm errors, page = .consent vm errors →
    ∃ t ∈ ts, ∃ world, t.label.world = some world ∧ MadeIn world vm

theorem ShownBy.fill {page : ConsentPage} (h : ShownBy ts page)
    {fill : ConsentViewModel → ConsentViewModel}
    (hfill : ∀ (world : World P) vm, MadeIn world vm → MadeIn world (fill vm))
    (t : Transition ConsentSession (ConsentAction P)) : ShownBy (ts ++ [t]) (page.fill fill) := by
  intro vm errors hvm
  cases page with
  | consent vm₀ errors₀ =>
    obtain ⟨rfl, -⟩ := ConsentPage.consent.inj hvm
    obtain ⟨t₀, ht₀, world, hworld, hmade⟩ := h vm₀ errors₀ rfl
    exact ⟨t₀, List.mem_append_left _ ht₀, world, hworld, hfill world vm₀ hmade⟩
  | _ => exact absurd hvm (by simp [ConsentPage.fill])

theorem shownBy_index_get {t : Transition ConsentSession (ConsentAction P)} {world : World P}
    (ht : t.label.world = some world) (returnUrl : Option String) :
    ShownBy (ts ++ [t]) (index members world returnUrl) := by
  intro vm errors hvm
  rw [index] at hvm
  split at hvm
  · next vm' hbuild =>
    obtain ⟨rfl, -⟩ := ConsentPage.consent.inj hvm
    exact ⟨t, by simp, world, ht, madeIn_of_buildViewModelAsync hbuild⟩
  · exact absurd hvm (by simp)
  · exact absurd hvm (by simp)

theorem shownBy_index_post {t : Transition ConsentSession (ConsentAction P)} {world : World P}
    (ht : t.label.world = some world) (model : ConsentInputModel) :
    ShownBy (ts ++ [t]) (s.indexPost members world model).page := by
  intro vm errors hvm
  cases hresponse : grantedConsent world.options model with
  | ok response =>
    cases hrequest : world.getAuthorizationContextAsync model.returnUrl with
    | none =>
      rw [index_of_context_none hrequest] at hvm
      exact absurd hvm (by simp)
    | some request =>
      obtain ⟨url, -, hindex⟩ := @index_of_ok _ members _ s _ _ _ hresponse hrequest
      rw [hindex] at hvm
      exact absurd hvm (by simp)
  | error message =>
    rw [index_of_error hresponse] at hvm
    dsimp only at hvm
    split at hvm
    · next vm' hbuild =>
      obtain ⟨rfl, -⟩ := ConsentPage.consent.inj hvm
      exact ⟨t, by simp, world, ht, madeIn_of_buildViewModelAsync hbuild⟩
    · exact absurd hvm (by simp)
    · exact absurd hvm (by simp)

theorem shownBy_of_run (h : Run (ConsentStep members) .init ts s) : ShownBy ts s.page := by
  induction h with
  | nil => exact fun vm errors hvm => absurd hvm (by simp [ConsentSession.init])
  | @concat ts s s' a _ hs ih =>
    rw [ConsentStep] at hs
    subst hs
    cases a with
    | get world returnUrl => exact shownBy_index_get rfl returnUrl
    | clickIdentityScope i => exact ih.fill (fun _ _ hmade => hmade.clickIdentityScope i) _
    | clickResourceScope i => exact ih.fill (fun _ _ hmade => hmade.clickResourceScope i) _
    | clickRememberConsent => exact ih.fill (fun _ _ hmade => hmade.clickRememberConsent) _
    | press world button =>
      intro vm errors hvm
      cases hpage : s.page with
      | consent vm₀ errors₀ =>
        have hstep : s.step members (.press world button)
            = s.indexPost members world (vm₀.form button) := by
          rw [ConsentSession.step, hpage]
        rw [hstep] at hvm ⊢
        exact shownBy_index_post rfl _ vm errors hvm
      | _ =>
        have hstep : s.step members (.press world button) = s := by
          rw [ConsentSession.step, hpage]
        rw [hstep, hpage] at hvm
        exact absurd hvm (by simp)
    | edited world model => exact shownBy_index_post rfl model

/-- A post tells at most one decision, and it answers with a redirect. -/
theorem granted_index (members : ShownMembers P) (world : World P) (model : ConsentInputModel)
    (s : ConsentSession) : (s.indexPost members world model).granted = s.granted ∨
    ∃ request response url, s.indexPost members world model
        = { page := .redirected url, granted := s.granted ++ [(request, response)] } ∧
      grantedConsent world.options model = .ok response ∧ model.returnUrl = some url ∧
      world.getAuthorizationContextAsync (some url) = some request := by
  cases hresponse : grantedConsent world.options model with
  | error message =>
    rw [index_of_error hresponse]
    exact .inl rfl
  | ok response =>
    cases hrequest : world.getAuthorizationContextAsync model.returnUrl with
    | none =>
      rw [index_of_context_none hrequest]
      exact .inl rfl
    | some request =>
      obtain ⟨url, hurl, hindex⟩ := @index_of_ok _ members _ s _ _ _ hresponse hrequest
      exact .inr ⟨request, response, url, hindex, rfl, hurl, hurl ▸ hrequest⟩

/-- **Consent is informed.**  Whenever IdentityServer has been told a decision in a run, a
step has told it that posted edited fields, or pressed a button of the page: then it is the
decision the page showed at that moment, for the request its return URL stands for, and the
browser was redirected there.  The scopes of the page have been offered in an earlier
step of the run, and the required ones are checked. -/
theorem consent_informed (hrun : Run (ConsentStep members) .init ts s)
    {g : AuthorizationRequest × ConsentResponse}
    {told later : List (AuthorizationRequest × ConsentResponse)}
    (hg : s.granted = told ++ g :: later) :
    ∃ pre t post, ts = pre ++ t :: post ∧ t.before.granted = told ∧ t.after.granted = told ++ [g] ∧
      ((∃ world model, t.label = .edited world model) ∨
        ∃ world button vm errors url, t.label = .press world button ∧
          t.before.page = .consent vm errors ∧ vm.returnUrl = some url ∧
          world.getAuthorizationContextAsync (some url) = some g.1 ∧
          g.2 = vm.decision world.options button ∧ t.after.page = .redirected url ∧
          ∃ t₀ ∈ pre, ∃ world₀, t₀.label.world = some world₀ ∧ MadeIn world₀ vm) := by
  have hinit : ¬ (told ++ [g] <+: ConsentSession.init.granted) := by
    simp [ConsentSession.init]
  have hend : told ++ [g] <+: s.granted := ⟨later, by simp [hg]⟩
  obtain ⟨pre, t, post, rfl, hbefore, hafter⟩ :=
    @Run.exists_break _ _ _ _ _ _ (fun s => ¬ (told ++ [g] <+: s.granted)) hinit hrun
      (not_not_intro hend)
  obtain ⟨hpre, hstep, -⟩ := hrun.split
  rw [not_not] at hafter
  have hchanged : t.after.granted ≠ t.before.granted := fun hsame => hbefore (hsame ▸ hafter)
  -- The step has told one decision, which is this one.
  have hlast : ∀ g', t.after.granted = t.before.granted ++ [g'] →
      t.before.granted = told ∧ g' = g := by
    intro g' hadded
    rw [hadded, List.prefix_concat_iff] at hafter
    obtain ⟨htold, hsame⟩ := List.append_inj' (hafter.resolve_right hbefore) rfl
    exact ⟨htold.symm, (List.singleton_inj.mp hsame).symm⟩
  rw [ConsentStep] at hstep
  cases hlabel : t.label with
  | get world returnUrl => exact absurd (by rw [hstep, hlabel]; rfl) hchanged
  | clickIdentityScope i => exact absurd (by rw [hstep, hlabel]; rfl) hchanged
  | clickResourceScope i => exact absurd (by rw [hstep, hlabel]; rfl) hchanged
  | clickRememberConsent => exact absurd (by rw [hstep, hlabel]; rfl) hchanged
  | edited world model =>
    have hindex : t.after = t.before.indexPost members world model := by
      rw [hstep, hlabel]
      rfl
    rcases granted_index members world model t.before with hsame | ⟨request, response, url, h, -⟩
    · exact absurd (hindex ▸ hsame) hchanged
    · have hadded : t.after.granted = t.before.granted ++ [(request, response)] := by
        rw [hindex, h]
      obtain ⟨htold, rfl⟩ := hlast _ hadded
      exact ⟨pre, t, post, rfl, htold, htold ▸ hadded, .inl ⟨world, model, hlabel⟩⟩
  | press world button =>
    cases hpage : t.before.page with
    | consent vm errors =>
      have hindex : t.after = t.before.indexPost members world (vm.form button) := by
        rw [hstep, hlabel, ConsentSession.step, hpage]
      rcases granted_index members world (vm.form button) t.before with
        hsame | ⟨request, response, url, h, hresponse, hurl, hrequest⟩
      · exact absurd (hindex ▸ hsame) hchanged
      · obtain ⟨t₀, ht₀, world₀, hworld, hmade⟩ := shownBy_of_run hpre vm errors hpage
        have hdecided : vm.Decided button := by
          by_contra hnot
          rw [hmade.grantedConsent_form_of_not world.options hnot] at hresponse
          exact absurd hresponse (by simp)
        rw [hmade.grantedConsent_form world.options hdecided] at hresponse
        have hadded : t.after.granted = t.before.granted ++ [(request, response)] := by
          rw [hindex, h]
        obtain ⟨htold, rfl⟩ := hlast _ hadded
        refine ⟨pre, t, post, rfl, htold, htold ▸ hadded, .inr ?_⟩
        exact ⟨world, button, vm, errors, url, hlabel, hpage, hurl, hrequest,
          (Except.ok.inj hresponse).symm, by rw [hindex, h], t₀, ht₀, world₀, hworld, hmade⟩
    | _ =>
      have hidle : t.after = t.before := by
        rw [hstep, hlabel, ConsentSession.step, hpage]
      exact absurd (by rw [hidle]) hchanged

/-- **Every press is answered.**  Wherever a run has led, the decision of the page is
told if its request is still there and a box is checked or the answer is no; else nothing
is told, and the page that may come back has the same return URL and no boxes checked but
those of required scopes. -/
theorem consent_answered (hrun : Run (ConsentStep members) .init ts s) {vm : ConsentViewModel}
    {errors : List String} (hpage : s.page = .consent vm errors) (world : World P)
    (button : ConsentButton) :
    (∀ request, world.getAuthorizationContextAsync vm.returnUrl = some request →
      vm.Decided button → ∃ url, vm.returnUrl = some url ∧
        s.step members (.press world button)
          = { page := .redirected url
              granted := s.granted ++ [(request, vm.decision world.options button)] }) ∧
    (world.getAuthorizationContextAsync vm.returnUrl = none →
      s.step members (.press world button) = { page := .error, granted := s.granted }) ∧
    (¬ vm.Decided button →
      (s.step members (.press world button)).granted = s.granted ∧
      (∀ url, (s.step members (.press world button)).page ≠ .redirected url) ∧
      ∀ vm' errors', (s.step members (.press world button)).page = .consent vm' errors' →
        errors' = [mustChooseOneErrorMessage] ∧ vm'.returnUrl = vm.returnUrl ∧
        vm'.rememberConsent = (vm.allowRememberConsent && vm.rememberConsent) ∧
        ∀ scope ∈ vm'.scopes, scope.checked = scope.required) := by
  have hindex : s.step members (.press world button)
      = s.indexPost members world (vm.form button) := by
    rw [ConsentSession.step, hpage]
  obtain ⟨t, -, world₀, -, hmade⟩ := shownBy_of_run hrun vm errors hpage
  rw [hindex]
  refine ⟨fun request hrequest hdecided => ?_, fun hnone => ?_, fun hnot => ?_⟩
  · exact index_of_ok (hmade.grantedConsent_form world.options hdecided) hrequest
  · exact index_of_context_none hnone
  · have herror := hmade.grantedConsent_form_of_not world.options hnot
    rw [index_of_error herror]
    refine ⟨rfl, fun url => ?_, fun vm' errors' hvm => ?_⟩
    · dsimp only
      split <;> simp
    · dsimp only at hvm
      split at hvm
      · next vm'' hbuild =>
        obtain ⟨rfl, rfl⟩ := ConsentPage.consent.inj hvm
        obtain ⟨request, client, resources, -, -, -, hcreate⟩ := buildViewModelAsync_eq_some hbuild
        obtain ⟨hurl, hremember⟩ := returnUrl_create hcreate
        refine ⟨rfl, hurl, hremember, fun scope hscope => ?_⟩
        -- Nothing was posted, so nothing is checked for having been.
        have hnil : (vm.form button).scopesConsented.getD [] = [] := by
          rw [hmade.scopesConsented_form]
          exact not_not.mp (not_or.mp hnot).2
        rw [(mem_scopes_create hcreate hscope).2]
        show ((decide (scope.name ∈ (vm.form button).scopesConsented.getD []) || false)
          || scope.required) = _
        rw [hnil]
        rfl
      · exact absurd hvm (by simp)
      · exact absurd hvm (by simp)

/-! ### A visit -/

/-- A series of actions is a run. -/
theorem exists_run (members : ShownMembers P) (s : ConsentSession)
    (actions : List (ConsentAction P)) :
    ∃ ts, Run (ConsentStep members) s ts (s.steps members actions) := by
  induction actions using List.reverseRecOn with
  | nil => exact ⟨[], .nil⟩
  | append_singleton actions a ih =>
    obtain ⟨ts, hrun⟩ := ih
    rw [ConsentSession.steps, List.foldl_append, ← ConsentSession.steps]
    exact ⟨_, hrun.concat rfl⟩

end Runs

/-- On the plain platform identity resources are required. -/
def plainMembers : ShownMembers Platform.plain where
  clientName := fun _ => "App"
  clientUri := fun _ => none
  logoUri := fun _ => none
  allowRememberConsent := fun scalars => scalars
  displayName := fun _ => none
  description := fun _ => none
  emphasize := fun _ => false
  required := fun scalars => scalars

/-- Every URL stands for a request of one client. -/
def plainWorld : World Platform.plain where
  options := {}
  getAuthorizationContextAsync := fun returnUrl => returnUrl.map fun _ =>
    { clientId := "app", scopesRequested := ["openid", "api.read"], idP := none, loginHint := none }
  findEnabledClientByIdAsync := fun _ => some (plainClient "app" [])
  findEnabledResourcesByScopeAsync := fun _ => some
    { identityResources := [plainIdentityResource "openid" []]
      apiResources := [plainApiResource "api" ["api.read", "api.write"]]
      offlineAccess := true }
  context_none := rfl

/-- The page with a box unchecked, of an optional scope, and a click on a required one. -/
def plainVisit : List (ConsentAction Platform.plain) :=
  [.get plainWorld "/authorize", .clickIdentityScope 0, .clickResourceScope 1]

def plainRequest : AuthorizationRequest :=
  { clientId := "app", scopesRequested := ["openid", "api.read"], idP := none, loginHint := none }

def plainConsent : ConsentResponse :=
  { rememberConsent := true, scopesConsented := some ["openid", "api.read", "offline_access"] }

def plainVisits : List (ConsentAction Platform.plain) :=
  plainVisit ++ [.press plainWorld .yes] ++ plainVisit ++ [.press plainWorld .yes]

/-- The same decision is told twice, each time by a press. -/
theorem consent_informed_plainVisit :
    ∃ ts s, Run (ConsentStep plainMembers) .init ts s ∧
      s.granted = [(plainRequest, plainConsent), (plainRequest, plainConsent)] ∧
      ∃ pre t post, ts = pre ++ t :: post ∧ t.before.granted = [(plainRequest, plainConsent)] ∧
        ((∃ world model, t.label = .edited world model) ∨
          ∃ world button vm errors, t.label = .press world button ∧
            t.before.page = .consent vm errors ∧
            plainConsent = vm.decision world.options button) := by
  obtain ⟨ts, hrun⟩ := exists_run plainMembers .init plainVisits
  have hgranted : (ConsentSession.init.steps plainMembers plainVisits).granted
      = [(plainRequest, plainConsent)] ++ (plainRequest, plainConsent) :: [] := by
    decide
  obtain ⟨pre, t, post, hts, hbefore, -, htold⟩ := consent_informed hrun hgranted
  refine ⟨ts, _, hrun, hgranted, pre, t, post, hts, hbefore, htold.imp_right ?_⟩
  rintro ⟨world, button, vm, errors, -, hlabel, hpage, -, -, hdecision, -⟩
  exact ⟨world, button, vm, errors, hlabel, hpage, hdecision⟩

theorem consent_answered_plainVisit :
    ∃ (s : ConsentSession) (vm : ConsentViewModel), s.page = .consent vm [] ∧
      s.step plainMembers (.press plainWorld .yes)
      = { page := .redirected "/authorize", granted := [(plainRequest, plainConsent)] } := by
  obtain ⟨ts, hrun⟩ := exists_run plainMembers .init plainVisit
  have hpage : ∃ vm, (ConsentSession.init.steps plainMembers plainVisit).page = .consent vm [] ∧
      vm.returnUrl = "/authorize" ∧ vm.checkedScopes = ["openid", "api.read", "offline_access"] ∧
      vm.decision {} .yes = plainConsent := ⟨_, rfl, by decide, by decide, by decide⟩
  obtain ⟨vm, hpage, hurl, hchecked, hdecision⟩ := hpage
  have hrequest : plainWorld.getAuthorizationContextAsync vm.returnUrl = some plainRequest := by
    rw [hurl]
    rfl
  obtain ⟨hdecided, -⟩ := consent_answered hrun hpage plainWorld .yes
  obtain ⟨url, hurl', hstep⟩ := hdecided plainRequest hrequest (.inr (by simp [hchecked]))
  obtain rfl := Option.some.inj (hurl'.symm.trans hurl)
  refine ⟨_, vm, hpage, ?_⟩
  rw [hstep, show plainWorld.options = {} from rfl, hdecision]
  rfl

end IdentityLinq.Quickstart
