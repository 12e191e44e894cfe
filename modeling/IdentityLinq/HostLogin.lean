/-
The login pages of the host, with its client store.

A login page shows what the client of its request allows, and the client is what the
store finds.  `ComplexInsert` copies the restrictions of a client in its seventh
statement; where a call has ended before, there is a client without any, and a client
without restrictions admits every provider.

* `loginPage_beside_calls` — what the pages for a client show, wherever its call has ended;
* `login_beside_calls` — whom the pages let in once the calls have returned.
-/
import IdentityLinq.AccountPages
import IdentityLinq.StoppedCalls

namespace IdentityLinq

variable {P : Platform}

/-- The client lets its users in by the provider. -/
def Models.Client.Admits {G : Type} (c : Models.Client P G) (scheme : String) : Prop :=
  c.identityProviderRestrictions.getD [] = [] ∨ scheme ∈ c.identityProviderRestrictions.getD []

namespace Quickstart

/-! ### The login page -/

section LoginPage

variable {enableLocalLogin : P.ClientScalars → Bool} {world : AccountWorld P}
  {returnUrl : Option String} {clientId : String}

/-- The page is for a request of the client, which names no provider. -/
def RequestOf (world : AccountWorld P) (returnUrl : Option String) (clientId : String) : Prop :=
  ∃ request, world.getAuthorizationContextAsync returnUrl = some request ∧
    request.idP = none ∧ request.clientId = some clientId

theorem RequestOf.enableLocalLogin_iff (h : RequestOf world returnUrl clientId) :
    (buildLoginViewModelAsync enableLocalLogin world returnUrl).enableLocalLogin = true ↔
      world.options.allowLocalLogin = true ∧
      ∀ client, world.findEnabledClientByIdAsync clientId = some client →
        enableLocalLogin client.scalars = true := by
  obtain ⟨request, hrequest, hidP, hid⟩ := h
  simp only [buildLoginViewModelAsync, hrequest, Option.bind_some, hidP, hid]
  cases world.findEnabledClientByIdAsync clientId <;> simp [and_comm]

theorem RequestOf.mem_externalProviders_iff (h : RequestOf world returnUrl clientId)
    {x : ExternalProvider} :
    x ∈ (buildLoginViewModelAsync enableLocalLogin world returnUrl).externalProviders ↔
      x ∈ world.providers ∧
      ∀ client, world.findEnabledClientByIdAsync clientId = some client →
        client.Admits x.authenticationScheme := by
  obtain ⟨request, hrequest, hidP, hid⟩ := h
  simp only [buildLoginViewModelAsync, hrequest, Option.bind_some, hidP, hid]
  rw [← AccountWorld.providers]
  cases world.findEnabledClientByIdAsync clientId with
  | none => simp
  | some client =>
    simp only [Option.bind_some, Option.some.injEq, forall_eq', Models.Client.Admits]
    split
    · next hne => simp [hne]
    · next hnil => simp [not_not.mp hnil]

end LoginPage

/-! ### The client store -/

section Store

variable {κ : Type} [DecidableEq κ] {calls : κ → Call P} {db₀ : Db P}
  {x z : Pool (TableName.Columns P) Error Unit κ} {k : κ} {c : Models.Client P (Collection String)}
  {enabled enableLocalLogin : P.ClientScalars → Bool} {world : AccountWorld P}
  {returnUrl : Option String}

/-- `FindEnabledClientByIdAsync(clientId)` answers with what a lookup beside the calls has
found; `enabled` reads that member of a client. -/
def FoundEnabled (enabled : P.ClientScalars → Bool)
    (x : Pool (TableName.Columns P) Error Unit κ) (clientId : String)
    (answer : Option (Models.Client P (Collection String))) : Prop :=
  ∃ y found z, Pool.Beside x (findClientByIdAsync clientId) y (Program.final (.ok found)) ∧
    Pool.Reaches x z ∧ answer = (found.filter fun client => enabled client.scalars).map
      fun client => { client with allowedGrantTypes := some (client.allowedGrantTypes z.store) }

/-- What the answer says of a client when its call has ended. -/
theorem FoundEnabled.content_eq (h₀ : Owned db₀) (hnew : NewClient db₀ calls c.clientId)
    (hx : Pool.Reaches (.start db₀ fun k => (calls k).program) x) (hcall : calls k = .client c)
    (hend : Pool.Ended x k) {n : ℕ} (hn : Log.cols (x.wrote k) = Delta.sum (c.inserts.take n))
    (hz : Pool.Reaches x z) {answer : Option (Models.Client P (Collection String))}
    (h : FoundEnabled enabled z c.clientId answer) :
    ∃ found, c.foundAfter n = .ok found ∧
      answer.map (·.content) = found.filter fun content => enabled content.columns.scalars := by
  obtain ⟨y, found, z', hbeside, hz', rfl⟩ := h
  obtain ⟨hended, hwrote⟩ := hend.reaches hz
  have hfound := foundAfter_of_ended h₀ hnew (hx.trans hz) hcall hended (hwrote ▸ hn) hbeside hz'
  refine ⟨found.map (contentOn z'.store), hfound.symm, ?_⟩
  cases found with
  | none => rfl
  | some found =>
    rw [Option.filter_some, Option.map_some, Option.filter_some]
    show Option.map _ (Option.map _ (if enabled found.scalars then some found else none))
      = if enabled found.scalars then some _ else none
    split <;> rfl

/-- Nobody is found, or the client as far as its call has come. -/
theorem FoundEnabled.cases (h₀ : Owned db₀) (hnew : NewClient db₀ calls c.clientId)
    (hx : Pool.Reaches (.start db₀ fun k => (calls k).program) x) (hcall : calls k = .client c)
    (hend : Pool.Ended x k) {n : ℕ} (hn : Log.cols (x.wrote k) = Delta.sum (c.inserts.take n))
    (hz : Pool.Reaches x z) {answer : Option (Models.Client P (Collection String))}
    (h : FoundEnabled enabled z c.clientId answer) :
    (answer = none ∧ ¬ (0 < n ∧ enabled c.scalars = true)) ∨
    ∃ client, answer = some client ∧ (0 < n ∧ enabled c.scalars = true) ∧
      client.scalars = c.scalars ∧
      ∀ scheme, client.Admits scheme ↔ (6 < n → c.Admits scheme) := by
  obtain ⟨found, hfound, hanswer⟩ := h.content_eq h₀ hnew hx hcall hend hn hz
  cases n with
  | zero =>
    obtain rfl := Except.ok.inj hfound
    exact .inl ⟨Option.map_eq_none_iff.mp hanswer, fun h => absurd h.1 (lt_irrefl 0)⟩
  | succ n =>
    rw [Models.Client.foundAfter] at hfound
    split at hfound
    · obtain rfl := Except.ok.inj hfound
      rw [Option.filter_some] at hanswer
      split at hanswer
      · next henabled =>
        obtain ⟨client, rfl, hcontent⟩ := Option.map_eq_some_iff.mp hanswer
        refine .inr ⟨client, rfl, ⟨Nat.succ_pos n, henabled⟩, ?_, fun scheme => ?_⟩
        · exact congrArg (·.columns.scalars) hcontent
        · have hrestrictions := congrArg ClientContent.identityProviderRestrictions hcontent
          obtain ⟨restrictions, hsome, hperm⟩ := Option.map_eq_some_iff.mp hrestrictions
          rw [Multiset.coe_eq_coe] at hperm
          have hnil : restrictions = [] ↔ _ = [] :=
            ⟨fun h => List.nil_perm.mp (h ▸ hperm), fun h => List.perm_nil.mp (h ▸ hperm)⟩
          rw [Models.Client.Admits, hsome, Option.getD_some, hperm.mem_iff, hnil]
          split <;> simp [*, Models.Client.Admits]
      · next hdisabled =>
        exact .inl ⟨Option.map_eq_none_iff.mp hanswer, fun h => hdisabled h.2⟩
    · exact absurd hfound (by simp)

/-- **What the login pages for a client show** from the end of its call on, wherever that
was.  The form is there unless the client was in and forbids it; a provider is there
unless the restrictions of the client were in as well and exclude it. -/
theorem loginPage_beside_calls (h₀ : Owned db₀) (hnew : NewClient db₀ calls c.clientId)
    (hx : Pool.Reaches (.start db₀ fun k => (calls k).program) x) (hcall : calls k = .client c)
    (hend : Pool.Ended x k) :
    ∃ n, Log.cols (x.wrote k) = Delta.sum (c.inserts.take n) ∧
      ∀ z (world : AccountWorld P) returnUrl, Pool.Reaches x z →
        RequestOf world returnUrl c.clientId →
        FoundEnabled enabled z c.clientId (world.findEnabledClientByIdAsync c.clientId) →
        ((buildLoginViewModelAsync enableLocalLogin world returnUrl).enableLocalLogin = true ↔
          world.options.allowLocalLogin = true ∧
          (0 < n → enabled c.scalars = true → enableLocalLogin c.scalars = true)) ∧
        ∀ p, p ∈ (buildLoginViewModelAsync enableLocalLogin world returnUrl).externalProviders ↔
          p ∈ world.providers ∧
          (6 < n → enabled c.scalars = true → c.Admits p.authenticationScheme) := by
  obtain ⟨n, hn⟩ := exists_cols_of_reaches hx hcall
  refine ⟨n, hn, fun z world returnUrl hz hrequest hfound => ?_⟩
  rw [hrequest.enableLocalLogin_iff]
  simp only [hrequest.mem_externalProviders_iff]
  rcases hfound.cases h₀ hnew hx hcall hend hn hz with
    ⟨hnone, hgone⟩ | ⟨client, hsome, ⟨hpos, henabled⟩, hscalars, hadmits⟩
  · rw [hnone]
    have hlate : 6 < n → enabled c.scalars ≠ true := fun hn h => hgone ⟨by omega, h⟩
    have hin : 0 < n → enabled c.scalars ≠ true := fun hn h => hgone ⟨hn, h⟩
    simp +contextual [hlate, hin]
  · rw [hsome]
    simp [hscalars, hadmits, hpos, henabled]

/-- **Whom the login pages let in.**  Once the call for an enabled client has returned, a
browser that does what the login pages for this client are for is signed in only as the
client allows: with a password if it enables that, by an identity provider if it admits
it. -/
theorem login_beside_calls (h₀ : Owned db₀) (hnew : NewClient db₀ calls c.clientId)
    (hx : Pool.Reaches (.start db₀ fun k => (calls k).program) x) (hcall : calls k = .client c)
    (hret : x.left k = .ret ()) (henabled : enabled c.scalars = true)
    {ts : List (Transition AccountSession (AccountAction P))} {s : AccountSession}
    (hrun : Run (AccountStep enableLocalLogin) .init ts s)
    (hfollows : ∀ t ∈ ts, FollowsPage t.before t.label)
    (hpages : ∀ t ∈ ts, ∀ world returnUrl, t.label.shows = some (world, returnUrl) →
      RequestOf world returnUrl c.clientId ∧ ∃ z, Pool.Reaches x z ∧
        FoundEnabled enabled z c.clientId (world.findEnabledClientByIdAsync c.clientId))
    {user : UserSession} (huser : s.cookie = some user) :
    ∃ pre t post, ts = pre ++ t :: post ∧ (∀ t' ∈ post, t'.after.cookie = some user) ∧
      ((PasswordSignIn t.label user ∧ enableLocalLogin c.scalars = true) ∨
        ((∃ info, ExternalSignIn t.before t.label info user) ∧
          (c.Admits user.idp ∨ (user.idp = windowsAuthenticationProviderName ∧
            ∃ scheme ∈ windowsAuthenticationSchemes, c.Admits scheme)))) := by
  have hsettled := settled_of_reaches hx hret .refl
  have hwrote := hsettled.wrote
  rw [hcall] at hwrote
  have hn : Log.cols (x.wrote k) = Delta.sum (c.inserts.take 9) := hwrote
  -- Every page was made for the client with all its collections.
  have hclient : ∀ t ∈ ts, ∀ world returnUrl, t.label.shows = some (world, returnUrl) →
      RequestOf world returnUrl c.clientId ∧ ∃ client,
        RequestedBy world returnUrl client ∧ client.scalars = c.scalars ∧
        ∀ scheme, client.Admits scheme ↔ c.Admits scheme := by
    intro t ht world returnUrl hshows
    obtain ⟨hrequest, z, hz, hfound⟩ := hpages t ht world returnUrl hshows
    refine ⟨hrequest, ?_⟩
    obtain ⟨request, hcontext, -, hid⟩ := hrequest
    rcases hfound.cases h₀ hnew hx hcall ⟨.ok (), hret⟩ hn hz with
      ⟨-, hgone⟩ | ⟨client, hsome, -, hscalars, hadmits⟩
    · exact absurd ⟨by omega, henabled⟩ hgone
    · refine ⟨client, ⟨request, c.clientId, hcontext, hid, hsome⟩, hscalars, fun scheme => ?_⟩
      rw [hadmits]
      simp
  have hadmits : ∀ scheme, ProviderShown enableLocalLogin ts scheme → c.Admits scheme := by
    rintro scheme ⟨t, ht, world, returnUrl, hshows, -, hallowed⟩
    obtain ⟨⟨request, hcontext, hidP, -⟩, client, hby, -, hiff⟩ :=
      hclient t ht world returnUrl hshows
    rcases hallowed with ⟨request', hcontext', hidP'⟩ | ⟨-, hrestrictions⟩
    · obtain rfl := Option.some.inj (hcontext.symm.trans hcontext')
      exact nomatch hidP.symm.trans hidP'
    · rw [← hiff]
      by_cases hnil : client.identityProviderRestrictions.getD [] = []
      · exact .inl hnil
      · obtain ⟨restrictions, hsome⟩ : ∃ restrictions,
            client.identityProviderRestrictions = some restrictions := by
          cases hnone : client.identityProviderRestrictions with
          | none => exact absurd (by rw [hnone]; rfl) hnil
          | some restrictions => exact ⟨restrictions, rfl⟩
        rw [hsome, Option.getD_some] at hnil
        refine .inr ?_
        rw [hsome]
        exact hrestrictions client restrictions hby hsome hnil
  obtain ⟨pre, t, post, rfl, hpre, hpost, hsignIn⟩ := exists_signIn hrun huser
  obtain ⟨hbefore, hlater⟩ := List.forall_mem_append.mp hfollows
  have hmono := List.subset_append_left pre (t :: post)
  refine ⟨pre, t, post, rfl, hpost, ((onlyShown_of_run hpre hbefore).signIn
    (hlater t List.mem_cons_self) hsignIn).imp (And.imp_right fun hform => ?_)
    (And.imp_right fun hidp => (hidp.mono hmono).imp (hadmits _) ?_)⟩
  · obtain ⟨t, ht, world, returnUrl, hshows, -, -, hallowed⟩ := hform.mono hmono
    obtain ⟨-, client, hby, hscalars, -⟩ := hclient t ht world returnUrl hshows
    exact hscalars ▸ hallowed client hby
  · rintro ⟨hidp, scheme, hscheme, hshown⟩
    exact ⟨hidp, scheme, hscheme, hadmits scheme hshown⟩

end Store

/-! ### A client of one provider -/

/-- The host with two providers, and what the store finds: the client of one of them. -/
def hostWorld : AccountWorld Platform.plain :=
  { plainAccountWorld with
    findEnabledClientByIdAsync := fun _ => some (fullClient "app" [])
    getAuthenticationSchemes :=
      [{ displayName := "Google", authenticationScheme := "google" },
       { displayName := "OpenID Connect", authenticationScheme := "oidc" }]
    handlesChallenge := fun scheme => ["google", "oidc"].contains scheme }

def hostCalls : Unit → Call Platform.plain := fun _ => .client (fullClient "app" [])

theorem newClient_hostCalls : NewClient Store.empty hostCalls "app" where
  distinct := fun _ _ _ _ => rfl
  notStored := by
    rintro ⟨c, hc, -⟩
    exact absurd hc List.not_mem_nil

theorem requestOf_hostWorld : RequestOf hostWorld "/authorize" "app" :=
  ⟨plainRequest, rfl, rfl, rfl⟩

/-- When the call has returned the store finds the client. -/
theorem exists_foundEnabled_hostCalls :
    ∃ x, Pool.Reaches (.start Store.empty fun k => (hostCalls k).program) x ∧
      x.left () = .ret () ∧
      FoundEnabled (fun scalars => !scalars) x "app" (some (fullClient "app" [])) := by
  obtain ⟨x, hx, hret, hstore, -⟩ := Pool.exists_ended
    (.start Store.empty fun k => (hostCalls k).program) ()
  have hfound : ∃ found : FoundClient Platform.plain,
      ((findClientByIdAsync "app").run x.store).1 = .ok (some found) ∧
      (fullClient "app" [] : Models.Client Platform.plain (Collection String))
        = { found with allowedGrantTypes := some (found.allowedGrantTypes x.store) } ∧
      found.scalars = false := by
    rw [hstore]
    exact ⟨_, rfl, rfl, rfl⟩
  obtain ⟨found, hrun, hclient, hscalars⟩ := hfound
  have hreader := (Pool.Beside.refl (x := x) (p := findClientByIdAsync "app")).run_reader
  rw [hrun] at hreader
  refine ⟨x, hx, hret, _, _, x, hreader, .refl, ?_⟩
  simp [Option.filter_some, hscalars, hclient]

theorem loginPage_beside_calls_hostCalls :
    { displayName := some "OpenID Connect", authenticationScheme := "oidc" } ∈
      (buildLoginViewModelAsync plainEnableLocalLogin hostWorld
        "/authorize").externalProviders := by
  obtain ⟨x, hx, hret, hfound⟩ := exists_foundEnabled_hostCalls
  obtain ⟨n, -, hpage⟩ := @loginPage_beside_calls _ _ _ _ _ _ _ (fullClient "app" [])
    (fun scalars => !scalars) plainEnableLocalLogin owned_empty newClient_hostCalls hx rfl
    ⟨.ok (), hret⟩
  refine ((hpage x hostWorld "/authorize" .refl requestOf_hostWorld hfound).2 _).mpr ⟨?_, ?_⟩
  · decide
  · intro _ _
    exact .inr (by decide)

def hostInfo : AuthenticateInfo :=
  { claims := [{ type := .subject, value := "42" }], scheme := "oidc", idToken := none }

/-- The login page has one provider only, so it sends the browser there. -/
def hostChallenged : AccountSession :=
  AccountSession.init.getLogin plainEnableLocalLogin hostWorld "/authorize"

def hostAuthenticated : AccountSession :=
  { hostChallenged with externalCookie := hostInfo, page := .callback "/authorize" }

def hostSignedIn : AccountSession :=
  hostAuthenticated.externalLoginCallback hostWorld "/authorize"

def hostLoginRun : List (Transition AccountSession (AccountAction Platform.plain)) :=
  [⟨.init, .getLogin hostWorld "/authorize", hostChallenged⟩,
   ⟨hostChallenged, .authenticated hostInfo, hostAuthenticated⟩,
   ⟨hostAuthenticated, .externalLoginCallback hostWorld "/authorize", hostSignedIn⟩]

theorem run_hostLoginRun :
    Run (AccountStep plainEnableLocalLogin) .init hostLoginRun hostSignedIn := by
  have hlogin : AccountStep plainEnableLocalLogin .init
      (.getLogin hostWorld "/authorize") hostChallenged := .getLogin _ _ (by decide)
  have hauthenticated : AccountStep plainEnableLocalLogin hostChallenged
      (.authenticated hostInfo) hostAuthenticated :=
    .authenticated _ (show ("oidc", some "/authorize") ∈ hostChallenged.challenges by decide) rfl
  have hcallback : AccountStep plainEnableLocalLogin hostAuthenticated
      (.externalLoginCallback hostWorld "/authorize") hostSignedIn :=
    .externalLoginCallback _ _ (by decide)
  exact ((Run.nil.concat hlogin).concat hauthenticated).concat hcallback

theorem login_beside_calls_hostLoginRun :
    ∃ user, hostSignedIn.cookie = some user ∧ user.idp = "oidc" ∧
      ∃ pre t post, hostLoginRun = pre ++ t :: post ∧
        ((PasswordSignIn t.label user ∧ plainEnableLocalLogin false = true) ∨
          ((∃ info, ExternalSignIn t.before t.label info user) ∧
            ((fullClient "app" []).Admits user.idp ∨
              (user.idp = windowsAuthenticationProviderName ∧
                ∃ scheme ∈ windowsAuthenticationSchemes,
                  (fullClient "app" []).Admits scheme)))) := by
  obtain ⟨x, hx, hret, hfound⟩ := exists_foundEnabled_hostCalls
  have huser : ∃ user, hostSignedIn.cookie = some user ∧ user.idp = "oidc" :=
    ⟨_, rfl, rfl⟩
  obtain ⟨user, huser, hidp⟩ := huser
  have hfollows : ∀ t ∈ hostLoginRun, FollowsPage t.before t.label := by
    intro t ht
    simp only [hostLoginRun, List.mem_cons, List.not_mem_nil, or_false] at ht
    rcases ht with rfl | rfl | rfl <;> exact trivial
  have hpages : ∀ t ∈ hostLoginRun, ∀ world returnUrl,
      t.label.shows = some (world, returnUrl) → RequestOf world returnUrl "app" ∧
        ∃ z, Pool.Reaches x z ∧ FoundEnabled (fun scalars => !scalars) z "app"
          (world.findEnabledClientByIdAsync (some "app")) := by
    intro t ht world returnUrl hshows
    simp only [hostLoginRun, List.mem_cons, List.not_mem_nil, or_false] at ht
    rcases ht with rfl | rfl | rfl
    · obtain ⟨rfl, rfl⟩ := Prod.mk.inj (Option.some.inj hshows)
      exact ⟨requestOf_hostWorld, x, .refl, hfound⟩
    · exact nomatch hshows
    · exact nomatch hshows
  obtain ⟨pre, t, post, hts, -, hallowed⟩ :=
    @login_beside_calls _ _ _ _ _ _ _ (fullClient "app" []) (fun scalars => !scalars)
      plainEnableLocalLogin owned_empty newClient_hostCalls hx rfl hret rfl _ _ run_hostLoginRun
      hfollows hpages _ huser
  exact ⟨user, huser, hidp, pre, t, post, hts, hallowed⟩

end Quickstart

end IdentityLinq
