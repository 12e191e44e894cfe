/-
The consent page of the host on the host's own database.

IdentityServer finds the resources for a request by asking the resource store, and the
store asks the database that `EnsureSeedData` has filled and other calls have added to.
So what the page offers goes back to rows, and a row of `ApiScope` goes back to a
`ComplexInsert`, of which there was none for the API resources of the seed.

* `mem_apiScopes_seeded` — whose scopes there are in the database;
* `consentPage_seeded` — and hence on the page, wherever a run has led.
-/
import IdentityLinq.ConsentPage
import IdentityLinq.SeedData

namespace IdentityLinq

variable {P : Platform}

/-! ### The rows of `ApiScope` -/

/-- The scopes of the call. -/
def Call.scopes : Call P → List Models.Scope
  | client _ => []
  | apiResource r => r.scopes.getD []
  | identityResource _ => []

/-- The rows a call has written are from its own scopes, wherever it stopped. -/
theorem mem_apiScopes_run {call : Call P} {db : Db P} {row : Row Entities.ApiScope}
    (h : row ∈ (call.run db .apiScopes).rows) :
    row ∈ (db .apiScopes).rows ∨
      ∃ scope ∈ call.scopes, scope.toScopeColumns = row.cols.toScopeColumns := by
  obtain ⟨ds, hds, hrun⟩ := call.written_run db
  rw [hrun, Delta.addTo_apply, Table.rows_bulkCopy] at h
  refine (List.mem_append.mp h).imp_right fun hnew => ?_
  have hcols := mem_of_mem_number hnew
  rw [Delta.sum_apply] at hcols
  obtain ⟨δ, hδ, hcols⟩ := List.mem_flatMap.mp hcols
  have hall : row.cols ∈ Delta.sum (call.inserts db) .apiScopes := by
    rw [Delta.sum_apply]
    exact List.mem_flatMap.mpr ⟨δ, hds.subset hδ, hcols⟩
  cases call with
  | client c => simp [Call.inserts, Models.Client.inserts, Models.Client.childInserts] at hall
  | apiResource r =>
    rw [Call.inserts, Models.ApiResource.inserts_eq, sum_inserts_apiScopes] at hall
    obtain ⟨⟨scope, n⟩, hscope, hrow⟩ := List.mem_map.mp hall
    have hmem : scope ∈ r.scopes.getD [] := (List.mem_zipIdx hscope).2.2 ▸ List.getElem_mem _
    exact ⟨scope, hmem, congrArg Entities.ApiScope.toScopeColumns hrow⟩
  | identityResource r => simp [Call.inserts, Models.IdentityResource.inserts] at hall

theorem mem_apiScopes_runCalls {calls : List (Call P)} {db : Db P} {row : Row Entities.ApiScope}
    (h : row ∈ (runCalls calls db .apiScopes).rows) :
    row ∈ (db .apiScopes).rows ∨
      ∃ scope ∈ calls.flatMap Call.scopes, scope.toScopeColumns = row.cols.toScopeColumns := by
  induction calls generalizing db with
  | nil => exact .inl h
  | cons call calls ih =>
    rw [runCalls_cons] at h
    rw [List.flatMap_cons]
    rcases ih h with hbefore | ⟨scope, hscope, hcols⟩
    · refine (mem_apiScopes_run hbefore).imp_right ?_
      rintro ⟨scope, hscope, hcols⟩
      exact ⟨scope, List.mem_append_left _ hscope, hcols⟩
    · exact .inr ⟨scope, List.mem_append_right _ hscope, hcols⟩

section Seeded

variable {clients : List (Models.Client P (Collection String))}
  {identityResources : List (Models.IdentityResource P)}
  {apiResources : List (Models.ApiResource P)}

/-- Every scope in the database has been inserted since the seed. -/
theorem mem_apiScopes_seeded {calls : List (Call P)} {row : Row Entities.ApiScope}
    (h : row ∈ (runCalls calls (seeded clients identityResources apiResources) .apiScopes).rows) :
    ∃ scope ∈ calls.flatMap Call.scopes, scope.toScopeColumns = row.cols.toScopeColumns := by
  refine (mem_apiScopes_runCalls h).resolve_left fun hseed => ?_
  have hclients := @runCalls_clients_apply P .apiScopes
    (by simp [Models.Client.inserts, Models.Client.childInserts]) clients Store.empty
  simp [seeded, hclients, Store.empty, Table.empty] at hseed

/-- A scope that the store attaches to an API resource is a row of `ApiScope`. -/
theorem exists_apiScope_of_mem_scopes {db : Db P} {scopeNames : List String}
    {apis : List (Entities.ApiResource P)}
    (hapis : ((findApiResourcesByScopeAsync scopeNames).run db).1 = .ok apis)
    {a : Entities.ApiResource P} (ha : a ∈ apis) {scope : Models.Scope}
    (hscope : scope ∈ a.scopes.getD []) :
    ∃ row ∈ (db .apiScopes).rows, row.cols.toScopeColumns = scope.toScopeColumns := by
  rw [run_findApiResourcesByScopeAsync, Except.ok.injEq] at hapis
  subst hapis
  obtain ⟨r, -, rfl⟩ := List.mem_map.mp ha
  obtain ⟨row, hrow, rfl⟩ := List.mem_map.mp hscope
  have hquery : row ∈ scopesQuery (apiResourcesByScope scopeNames) db :=
    List.mem_of_mem_filter hrow
  exact ⟨row, mem_of_mem_innerJoin_snd hquery, rfl⟩

end Seeded

namespace Quickstart

/-! ### IdentityServer and the stores -/

/-- IdentityServer answers from the stores on `db`: with the resources they find for the
scopes, but for those that are disabled, and with the scopes that were asked for. -/
structure World.AnswersFrom (world : World P) (db : Db P) : Prop where
  identityResources : ∀ scopeNames resources,
    world.findEnabledResourcesByScopeAsync scopeNames = some resources →
    ∃ found, ((findIdentityResourcesByScopeAsync scopeNames).run db).1 = .ok found ∧
      ∀ r ∈ resources.identityResources, ∃ x ∈ found, x.toIdentityResource = r
  apiResources : ∀ scopeNames resources,
    world.findEnabledResourcesByScopeAsync scopeNames = some resources →
    ∃ found, ((findApiResourcesByScopeAsync scopeNames).run db).1 = .ok found ∧
      ∀ a ∈ resources.apiResources, ∃ x ∈ found, a = { x.toApiResource with
        scopes := x.scopes.map (List.filter fun scope => decide (scope.name ∈ scopeNames)) }
  offlineAccess : ∀ scopeNames resources,
    world.findEnabledResourcesByScopeAsync scopeNames = some resources →
    resources.offlineAccess = true → offlineAccess ∈ scopeNames

section HostConsent

variable {clients : List (Models.Client P (Collection String))}
  {identityResources : List (Models.IdentityResource P)}
  {apiResources : List (Models.ApiResource P)} {calls : List (HostCall P)} {db : HostDb P}

/-- There is something of that name to consent to: offline access, an identity resource
of the seed or inserted since, or a scope of an API resource inserted since. -/
def Consentable (identityResources : List (Models.IdentityResource P))
    (calls : List (HostCall P)) (name : String) : Prop :=
  name = offlineAccess ∨
  (∃ r ∈ identityResources ++ (calls.flatMap HostCall.inserts).flatMap Call.identityResources,
    r.name = name) ∨
  ∃ scope ∈ (calls.flatMap HostCall.inserts).flatMap Call.scopes, scope.name = name

/-- With more calls there is not less. -/
theorem Consentable.mono {calls' : List (HostCall P)} {name : String}
    (h : Consentable identityResources calls name) (hcalls : calls <+: calls') :
    Consentable identityResources calls' name := by
  obtain ⟨rest, rfl⟩ := hcalls
  refine h.imp_right (Or.imp ?_ ?_)
  · rintro ⟨r, hr, hname⟩
    refine ⟨r, ?_, hname⟩
    rw [List.flatMap_append, List.flatMap_append, ← List.append_assoc]
    exact List.mem_append_left _ hr
  · rintro ⟨scope, hscope, hname⟩
    refine ⟨scope, ?_, hname⟩
    rw [List.flatMap_append, List.flatMap_append]
    exact List.mem_append_left _ hscope

/-- What a page made from the database offers. -/
theorem Offered.consentable {world : World P} {returnUrl : Option String} {name : String}
    (h : Offered world returnUrl name) (hclients : ∀ c ∈ clients, c.Complete)
    (hdb : db.Seeded clients identityResources apiResources calls)
    (hworld : world.AnswersFrom db.configuration) :
    ∃ request, world.getAuthorizationContextAsync returnUrl = some request ∧
      name ∈ request.scopesRequested ∧ Consentable identityResources calls name := by
  have hconfiguration := congrArg HostDb.configuration (hdb.eq_withTables hclients)
  obtain ⟨request, client, resources, hrequest, -, hresources, hname⟩ := h
  refine ⟨request, hrequest, ?_⟩
  rcases hname with ⟨r, hr, rfl⟩ | ⟨a, ha, scope, hscope, rfl⟩ | ⟨-, hoffline, rfl⟩
  · -- An identity resource: its content is stored.
    obtain ⟨found, hfound, hall⟩ := hworld.identityResources _ _ hresources
    obtain ⟨x, hx, rfl⟩ := hall r hr
    rw [hconfiguration] at hfound
    obtain ⟨xs, hxs, hcontents⟩ := @exists_identityResourcesByScope_seeded _ clients
      identityResources apiResources (calls.flatMap HostCall.inserts) request.scopesRequested
    obtain rfl : xs = found := Except.ok.inj (hxs.symm.trans hfound)
    have hmem := List.mem_map_of_mem (f := fun x => x.content) hx
    rw [hcontents] at hmem
    obtain ⟨r, hr, hcontent⟩ := List.mem_map.mp hmem
    obtain ⟨hr, hrequested⟩ := List.mem_filter.mp hr
    have hsame : r.name = x.name := congrArg (fun x => x.columns.name) hcontent
    rw [hsame] at hrequested
    refine ⟨of_decide_eq_true hrequested, .inr (.inl ?_)⟩
    rcases List.mem_append.mp hr with hseed | hlater
    · obtain ⟨r', hr', rfl⟩ := List.mem_map.mp hseed
      exact ⟨r', List.mem_append_left _ hr', hsame⟩
    · exact ⟨r, List.mem_append_right _ hlater, hsame⟩
  · -- A scope of an API resource: there is a row for it, of a later call.
    obtain ⟨found, hfound, hall⟩ := hworld.apiResources _ _ hresources
    obtain ⟨x, hx, rfl⟩ := hall a ha
    have hkept : scope ∈ x.scopes.getD [] ∧ scope.name ∈ request.scopesRequested := by
      cases hscopes : x.scopes with
      | none => simp [hscopes] at hscope
      | some scopes => simpa [hscopes] using hscope
    obtain ⟨row, hrow, hcols⟩ := exists_apiScope_of_mem_scopes hfound hx hkept.1
    rw [hconfiguration] at hrow
    obtain ⟨inserted, hinserted, hcols'⟩ := mem_apiScopes_seeded hrow
    exact ⟨hkept.2, .inr (.inr ⟨inserted, hinserted,
      congrArg Models.ScopeColumns.name (hcols'.trans hcols)⟩)⟩
  · exact ⟨hworld.offlineAccess _ _ hresources hoffline, .inl rfl⟩

variable {members : ShownMembers P} {s : ConsentSession}
  {ts : List (Transition ConsentSession (ConsentAction P))}

/-- **What the host asks consent for.**  Wherever a run at the consent page has led, with
calls that add clients and resources in between: a scope on the page has been requested,
and it is offline access, an identity resource of the database, or a scope of an API
resource inserted since the seed.  The API resources of the seed are never on it. -/
theorem consentPage_seeded (hclients : ∀ c ∈ clients, c.Complete)
    (hrun : Run (ConsentStep members) .init ts s)
    (hworlds : ∀ t ∈ ts, ∀ world, t.label.world = some world → ∃ calls' db, calls' <+: calls ∧
      HostDb.Seeded clients identityResources apiResources calls' db ∧
      world.AnswersFrom db.configuration)
    {vm : ConsentViewModel} {errors : List String} (hpage : s.page = .consent vm errors) :
    ∃ t ∈ ts, ∃ world, t.label.world = some world ∧ ∀ scope ∈ vm.scopes,
      ∃ request, world.getAuthorizationContextAsync vm.returnUrl = some request ∧
        scope.name ∈ request.scopesRequested ∧
        Consentable identityResources calls scope.name := by
  obtain ⟨t, ht, world, hworld, hmade⟩ := shownBy_of_run hrun vm errors hpage
  obtain ⟨calls', db, hcalls, hdb, hanswers⟩ := hworlds t ht world hworld
  refine ⟨t, ht, world, hworld, fun scope hscope => ?_⟩
  obtain ⟨request, hrequest, hrequested, hname⟩ :=
    (hmade.offered scope hscope).consentable hclients hdb hanswers
  exact ⟨request, hrequest, hrequested, hname.mono hcalls⟩

end HostConsent

/-- An API resource with two scopes, inserted into the database of the host. -/
def lateApiResource : Call Platform.plain :=
  .apiResource (plainApiResource "late" ["late.read", "late.write"])

def consentHost : HostDb Platform.plain :=
  runHost [.insert lateApiResource] ((ensureSeedData [plainClient "app" []]
    [plainIdentityResource "profile" ["name"]] [plainApiResource "api" ["api.read"]]).run
      HostDb.new).2

theorem configuration_consentHost : consentHost.configuration
    = runCalls [lateApiResource] (seeded [plainClient "app" []]
        [plainIdentityResource "profile" ["name"]] [plainApiResource "api" ["api.read"]]) := by
  have hseeded : consentHost.Seeded [plainClient "app" []]
      [plainIdentityResource "profile" ["name"]] [plainApiResource "api" ["api.read"]]
      [.insert lateApiResource] := rfl
  rw [hseeded.eq_withTables plainClient_mem_complete, List.flatMap_singleton]
  rfl

/-- All that the stores find, none of it disabled. -/
def findResourcesByScopeAsync (db : Db P) (scopeNames : List String) : Option (Resources P) :=
  match ((findIdentityResourcesByScopeAsync scopeNames).run db).1,
    ((findApiResourcesByScopeAsync scopeNames).run db).1 with
  | .ok identity, .ok apis => some {
      identityResources := identity.map (·.toIdentityResource)
      apiResources := apis.map fun x => { x.toApiResource with
        scopes := x.scopes.map (List.filter fun scope => decide (scope.name ∈ scopeNames)) }
      offlineAccess := decide (offlineAccess ∈ scopeNames) }
  | _, _ => none

def consentWorld : World Platform.plain where
  options := {}
  getAuthorizationContextAsync := fun returnUrl => returnUrl.map fun _ =>
    { clientId := "app", scopesRequested := ["profile", "api.read", "late.write"]
      idP := none, loginHint := none }
  findEnabledClientByIdAsync := fun _ => some (plainClient "app" [])
  findEnabledResourcesByScopeAsync := findResourcesByScopeAsync
    (runCalls [lateApiResource] (seeded [plainClient "app" []]
      [plainIdentityResource "profile" ["name"]] [plainApiResource "api" ["api.read"]]))
  context_none := rfl

theorem answersFrom_consentWorld : consentWorld.AnswersFrom consentHost.configuration := by
  have hfound : ∀ scopeNames, consentWorld.findEnabledResourcesByScopeAsync scopeNames
      = findResourcesByScopeAsync consentHost.configuration scopeNames := by
    intro scopeNames
    rw [configuration_consentHost]
    rfl
  refine ⟨fun scopeNames resources h => ?_, fun scopeNames resources h => ?_,
    fun scopeNames resources h hoffline => ?_⟩
  all_goals
    rw [hfound, findResourcesByScopeAsync, run_findIdentityResourcesByScopeAsync,
      run_findApiResourcesByScopeAsync] at h
    obtain rfl := Option.some.inj h
  · refine ⟨_, by rw [run_findIdentityResourcesByScopeAsync], fun r hr => ?_⟩
    exact List.mem_map.mp hr
  · refine ⟨_, by rw [run_findApiResourcesByScopeAsync], fun a ha => ?_⟩
    obtain ⟨x, hx, rfl⟩ := List.mem_map.mp ha
    exact ⟨x, hx, rfl⟩
  · exact of_decide_eq_true hoffline

/-- The page for this request: of the later scopes it shows one, of the seed's none. -/
def consentHostPage : ConsentViewModel where
  button := none
  scopesConsented := some []
  rememberConsent := true
  returnUrl := "/authorize"
  clientName := "App"
  clientUrl := none
  clientLogoUrl := none
  allowRememberConsent := true
  identityScopes := [⟨"profile", none, none, false, true, true⟩]
  resourceScopes := [⟨"late.write", none, none, false, false, true⟩]

theorem consentPage_seeded_consentHost :
    (ConsentSession.init.step plainMembers (.get consentWorld "/authorize")).page
        = .consent consentHostPage [] ∧
      ∀ scope ∈ consentHostPage.scopes, Consentable [plainIdentityResource "profile" ["name"]]
        [.insert lateApiResource] scope.name := by
  have hpage : (ConsentSession.init.step plainMembers (.get consentWorld "/authorize")).page
      = .consent consentHostPage [] := by
    decide
  refine ⟨hpage, fun scope hscope => ?_⟩
  have hrun : Run (ConsentStep plainMembers) .init _ _ :=
    Run.nil.concat (a := .get consentWorld "/authorize") rfl
  obtain ⟨t, -, world, -, hscopes⟩ := consentPage_seeded plainClient_mem_complete hrun (by
    intro t ht world hworld
    obtain rfl := List.mem_singleton.mp ht
    obtain rfl := Option.some.inj hworld
    exact ⟨_, consentHost, List.prefix_refl _, rfl, answersFrom_consentWorld⟩) hpage
  obtain ⟨request, -, -, hname⟩ := hscopes scope hscope
  exact hname

end Quickstart

end IdentityLinq
