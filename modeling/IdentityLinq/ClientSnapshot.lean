/-
What becomes of a client after `FindClientByIdAsync` has returned it.

The method fills eight collections from queries on a connection that its `using`
block disposes at the end.  Seven of them are lists by then (`ToList`).  The
grant types are assigned as a query (`AsEnumerable`), which every enumeration runs
again, on that connection and on the database as it then is, if the property keeps
what it is assigned: that is up to its setter, which is not part of the store.

* `snapshot_iff` — under a setter that keeps the query, whatever happens to the database
  later, a returned client is a snapshot exactly as long as nobody enumerates its grant
  types; their elements stay the same as long as the stored ones do;
* `snapshot_of_copies` — under one that keeps a copy it is always a snapshot.
-/
import IdentityLinq.ClientRuns
import IdentityLinq.Transition

namespace IdentityLinq

variable {P : Platform}

/-! ### The code -/

/-- A sequence in a property: a query on a connection, or a list. -/
inductive Sequence (P : Platform) (α : Type) where
  | query (connection : ℕ) (q : Db P → List α)
  | list (xs : List α)

namespace Sequence

variable {α β : Type}

/-- What an enumeration returns. -/
def elements (db : Db P) : Sequence P α → List α
  | query _ q => q db
  | list xs => xs

/-- The connection an enumeration uses. -/
def connection : Sequence P α → Option ℕ
  | query connection _ => some connection
  | list _ => none

/-- `AsEnumerable()`, which executes nothing. -/
def asEnumerable (xs : Sequence P α) : Sequence P α := xs

/-- `Select(f)`, or a `Cast` that does `f`. -/
def select (f : α → β) : Sequence P α → Sequence P β
  | query connection q => query connection fun db => (q db).map f
  | list xs => list (xs.map f)

/-- `ToList()`, which enumerates once and keeps the elements. -/
def toList (db : Db P) (xs : Sequence P α) : Sequence P α := list (xs.elements db)

end Sequence

/-- What the setter of `Client.AllowedGrantTypes` leaves in the property when it accepts
the value. -/
abbrev GrantTypesSetter (P : Platform) : Type := Db P → Sequence P String → Sequence P String

/-- The property is the sequence that was assigned. -/
def GrantTypesSetter.KeepsAssigned (setter : GrantTypesSetter P) : Prop :=
  ∀ db value, setter db value = value

/-- The property is a list of the elements. -/
def GrantTypesSetter.Copies (setter : GrantTypesSetter P) : Prop :=
  ∀ db value, setter db value = value.toList db

/-- A client as `FindClientByIdAsync` returns it, with the sequences in its properties. -/
structure ReturnedClient (P : Platform) extends Models.ClientColumns P.ClientScalars where
  allowedGrantTypes : Sequence P String
  redirectUris : Sequence P String
  postLogoutRedirectUris : Sequence P String
  allowedScopes : Sequence P String
  clientSecrets : Sequence P Models.Secret
  claims : Sequence P Models.Claim
  identityProviderRestrictions : Sequence P String
  allowedCorsOrigins : Sequence P String

/-- The collections of a client. -/
inductive ClientCollection where
  | allowedGrantTypes | redirectUris | postLogoutRedirectUris | allowedScopes | clientSecrets
  | claims | identityProviderRestrictions | allowedCorsOrigins
deriving DecidableEq, Repr

abbrev ClientCollection.Element : ClientCollection → Type
  | .clientSecrets => Models.Secret
  | .claims => Models.Claim
  | _ => String

/-- The getter of a collection. -/
def ReturnedClient.get (x : ReturnedClient P) : (k : ClientCollection) → Sequence P k.Element
  | .allowedGrantTypes => x.allowedGrantTypes
  | .redirectUris => x.redirectUris
  | .postLogoutRedirectUris => x.postLogoutRedirectUris
  | .allowedScopes => x.allowedScopes
  | .clientSecrets => x.clientSecrets
  | .claims => x.claims
  | .identityProviderRestrictions => x.identityProviderRestrictions
  | .allowedCorsOrigins => x.allowedCorsOrigins

/-- The database and its connections, numbered as they are opened. -/
structure Session (P : Platform) where
  db : Db P
  opened : ℕ
  disposed : List ℕ

/-- `FindClientByIdAsync(clientId)` with nobody beside it: its `using` block opens a
connection and disposes it however the block is left. -/
def Session.findClientByIdAsync (setter : GrantTypesSetter P) (s : Session P) (clientId : String) :
    Except Error (Option (ReturnedClient P)) × Session P :=
  let db := s.opened
  let after : Session P := { s with opened := s.opened + 1, disposed := db :: s.disposed }
  -- The row comes over a context of its own.
  match (s.db .clients).values.find? fun x => decide (x.clientId = clientId) with
  | none => (.ok none, after)
  | some client =>
    let allowedGrantTypes := ((Sequence.query db
      (clientRows .clientGrantTypes (·.clientId) clientId)).select (·.grantType)).asEnumerable
    -- The setter enumerates what it checks.
    if P.validateGrantTypes (some (allowedGrantTypes.elements s.db)) then
      (.ok (some
        { toClientColumns := client
          allowedGrantTypes := setter s.db allowedGrantTypes
          redirectUris := ((Sequence.query db
            (clientRows .clientRedirectUris (·.clientId) clientId)).select
              (·.redirectUri)).toList s.db
          postLogoutRedirectUris := ((Sequence.query db
            (clientRows .clientPostLogoutRedirectUris (·.clientId) clientId)).select
              (·.postLogoutRedirectUri)).toList s.db
          allowedScopes := ((Sequence.query db
            (clientRows .clientScopes (·.clientId) clientId)).select (·.scope)).toList s.db
          clientSecrets := ((Sequence.query db
            (clientRows .clientSecrets (·.clientId) clientId)).asEnumerable.select
              (·.toSecret)).toList s.db
          claims := ((Sequence.query db
            (clientRows .clientClaims (·.clientId) clientId)).asEnumerable.select
              fun x => (Entities.ClientClaim.ofRow x).toClaim).toList s.db
          identityProviderRestrictions := ((Sequence.query db
            (clientRows .clientIdPRestrictions (·.clientId) clientId)).select
              (·.provider)).toList s.db
          allowedCorsOrigins := ((Sequence.query db
            (clientRows .clientCorsOrigins (·.clientId) clientId)).select
              (·.origin)).toList s.db }), after)
    else (.error .invalidOperation, after)

/-- The client with the elements its collections have on `db`. -/
def ReturnedClient.elementsOn (db : Db P) (x : ReturnedClient P) :
    Models.Client P (Collection String) where
  toClientColumns := x.toClientColumns
  allowedGrantTypes := some (x.allowedGrantTypes.elements db)
  redirectUris := some (x.redirectUris.elements db)
  postLogoutRedirectUris := some (x.postLogoutRedirectUris.elements db)
  allowedScopes := some (x.allowedScopes.elements db)
  clientSecrets := some (x.clientSecrets.elements db)
  claims := some (x.claims.elements db)
  identityProviderRestrictions := some (x.identityProviderRestrictions.elements db)
  allowedCorsOrigins := some (x.allowedCorsOrigins.elements db)

/-- **The same client** as the statements of the lookup find, one after the other, when
its grant types are enumerated at once. -/
theorem Session.map_elementsOn_findClientByIdAsync {setter : GrantTypesSetter P}
    (hsetter : ∀ db value, (setter db value).elements db = value.elements db) (s : Session P)
    (clientId : String) :
    (s.findClientByIdAsync setter clientId).1.map (Option.map (·.elementsOn s.db))
      = ((IdentityLinq.findClientByIdAsync clientId).run s.db).1.map
          (Option.map fun x =>
            { x with allowedGrantTypes := some (x.allowedGrantTypes s.db) }) := by
  rw [Session.findClientByIdAsync, IdentityLinq.findClientByIdAsync, Program.run_query_bind]
  cases hfind : (s.db .clients).values.find? fun x => decide (x.clientId = clientId) with
  | none => rfl
  | some client =>
    simp only [Program.run_query_bind, setAllowedGrantTypes]
    have hgrants : ((Sequence.query s.opened
        (clientRows .clientGrantTypes (·.clientId) clientId)).select
          (·.grantType)).asEnumerable.elements s.db = grantTypesQuery clientId s.db := rfl
    rw [hgrants]
    split
    · simp only [Except.map, Option.map_some, ReturnedClient.elementsOn, hsetter]
      rfl
    · rfl

/-! ### Afterwards -/

/-- What may happen after the call. -/
inductive Later (P : Platform) where
  /-- inserts, updates and deletes -/
  | change (f : Db P → Db P)
  /-- somebody enumerates a collection of the client -/
  | enumerate (k : ClientCollection)

inductive Later.Step : Session P → Later P → Session P → Prop where
  | change (f : Db P → Db P) (s : Session P) : Step s (.change f) { s with db := f s.db }
  | enumerate (k : ClientCollection) (s : Session P) : Step s (.enumerate k) s

/-- The enumeration, if the step is one, returns what the collection had on `s₀`. -/
def SameElements (x : ReturnedClient P) (s₀ : Session P) (t : Transition (Session P) (Later P)) :
    Prop :=
  ∀ k, t.label = .enumerate k →
    (x.get k).elements t.before.db = (x.get k).elements s₀.db

/-- And it does so without a disposed connection. -/
def IsSnapshot (x : ReturnedClient P) (s₀ : Session P) (t : Transition (Session P) (Later P)) :
    Prop :=
  SameElements x s₀ t ∧
    ∀ k, t.label = .enumerate k → ∀ c ∈ (x.get k).connection, c ∉ t.before.disposed

section Snapshot

variable {setter : GrantTypesSetter P} {clientId : String} {s s₀ s' : Session P}
  {x : ReturnedClient P} {ts : List (Transition (Session P) (Later P))}

/-- What the method has left behind: the grant types as the setter keeps the query, the
other collections as lists, and a disposed connection. -/
structure ReturnedBy (setter : GrantTypesSetter P) (clientId : String) (s s₀ : Session P)
    (x : ReturnedClient P) : Prop where
  allowedGrantTypes : x.allowedGrantTypes
    = setter s.db (.query s.opened (grantTypesQuery clientId))
  lists : ∀ k, k ≠ .allowedGrantTypes → ∃ xs, x.get k = .list xs
  db_eq : s₀.db = s.db
  disposed : s.opened ∈ s₀.disposed

theorem returned_of_find (h : s.findClientByIdAsync setter clientId = (.ok (some x), s₀)) :
    ReturnedBy setter clientId s s₀ x := by
  rw [Session.findClientByIdAsync] at h
  split at h
  · simp at h
  · dsimp only at h
    split at h
    · simp only [Prod.mk.injEq, Except.ok.injEq, Option.some.injEq] at h
      obtain ⟨rfl, rfl⟩ := h
      refine ⟨rfl, fun k hk => ?_, rfl, List.mem_cons_self⟩
      cases k with
      | allowedGrantTypes => exact absurd rfl hk
      | redirectUris => exact ⟨_, rfl⟩
      | postLogoutRedirectUris => exact ⟨_, rfl⟩
      | allowedScopes => exact ⟨_, rfl⟩
      | clientSecrets => exact ⟨_, rfl⟩
      | claims => exact ⟨_, rfl⟩
      | identityProviderRestrictions => exact ⟨_, rfl⟩
      | allowedCorsOrigins => exact ⟨_, rfl⟩
    · simp at h

/-- Nothing that comes later brings a disposed connection back. -/
theorem disposed_before {c : ℕ} (hc : c ∈ s₀.disposed) (hrun : Run Later.Step s₀ ts s') :
    ∀ t ∈ ts, c ∈ t.before.disposed := by
  refine hrun.forall_before (J := fun s => c ∈ s.disposed) hc fun s a s' hs hstep => ?_
  cases hstep with
  | change f => exact hs
  | enumerate k => exact hs

/-- Enumerating a list does not ask anybody. -/
theorem isSnapshot_of_lists {t : Transition (Session P) (Later P)}
    (hlist : ∀ k, t.label = .enumerate k → ∃ xs, x.get k = .list xs) : IsSnapshot x s₀ t := by
  refine ⟨fun k hk => ?_, fun k hk c hc => ?_⟩
  · obtain ⟨xs, hxs⟩ := hlist k hk
    rw [hxs]
    rfl
  · obtain ⟨xs, hxs⟩ := hlist k hk
    rw [hxs] at hc
    exact absurd hc (by simp [Sequence.connection])

/-- Where the setter copies, the client is a snapshot for good. -/
theorem snapshot_of_copies (hsetter : setter.Copies)
    (h : s.findClientByIdAsync setter clientId = (.ok (some x), s₀))
    (t : Transition (Session P) (Later P)) : IsSnapshot x s₀ t := by
  have hx := returned_of_find h
  refine isSnapshot_of_lists fun k _ => ?_
  by_cases hk : k = .allowedGrantTypes
  · subst hk
    exact ⟨_, hx.allowedGrantTypes.trans (hsetter _ _)⟩
  · exact hx.lists k hk

/-- **When a returned client is a snapshot**, all along a run of later events: as
long as its grant types are not enumerated.  What they enumerate to stays the
same as long as the grant types in the database do. -/
theorem snapshot_iff (hsetter : setter.KeepsAssigned)
    (h : s.findClientByIdAsync setter clientId = (.ok (some x), s₀))
    (hrun : Run Later.Step s₀ ts s') :
    ((∀ t ∈ ts, IsSnapshot x s₀ t) ↔ ∀ t ∈ ts, t.label ≠ .enumerate .allowedGrantTypes) ∧
      ((∀ t ∈ ts, SameElements x s₀ t) ↔ ∀ t ∈ ts, t.label = .enumerate .allowedGrantTypes →
        grantTypesQuery clientId t.before.db = grantTypesQuery clientId s.db) := by
  have hx := returned_of_find h
  have hgrants : x.get .allowedGrantTypes = .query s.opened (grantTypesQuery clientId) :=
    hx.allowedGrantTypes.trans (hsetter _ _)
  constructor
  · refine forall₂_congr fun t ht => ⟨fun hsnap hlabel => ?_, fun hnot => ?_⟩
    · have hopen := hsnap.2 _ hlabel s.opened (by rw [hgrants]; rfl)
      exact hopen (disposed_before hx.disposed hrun t ht)
    · exact isSnapshot_of_lists fun k hk => hx.lists k fun he => hnot (he ▸ hk)
  · refine forall₂_congr fun t ht => ⟨fun hsame hlabel => ?_, fun hrows k hk => ?_⟩
    · have heq := hsame _ hlabel
      rwa [hgrants, hx.db_eq] at heq
    · by_cases hgt : k = .allowedGrantTypes
      · subst hgt
        rw [hgrants, hx.db_eq]
        exact hrows hk
      · obtain ⟨xs, hxs⟩ := hx.lists k hgt
        rw [hxs]
        rfl

end Snapshot

/-- A setter that keeps what it is assigned. -/
def plainSetter : GrantTypesSetter Platform.plain := fun _ value => value

/-- A session with two stored clients. -/
def plainSession : Session Platform.plain where
  db := runCalls [.client (fullClient "app" []), .client (plainClient "web" [])] Store.empty
  opened := 0
  disposed := []

/-- The scopes are enumerated after somebody has deleted all rows. -/
theorem snapshot_iff_plainSession :
    ∃ x s₀ s', plainSession.findClientByIdAsync plainSetter "app" = (.ok (some x), s₀) ∧
      IsSnapshot x s₀ ⟨s', .enumerate .allowedScopes, s'⟩ ∧
      (x.get .allowedScopes).elements s'.db = ["openid", "api"] ∧
      (s'.db .clientScopes).values = [] := by
  have hfound : plainSession.findClientByIdAsync plainSetter "app" = (.ok (some _), _) := rfl
  have hrun := (Run.nil.concat (Later.Step.change (fun _ => Store.empty)
    (plainSession.findClientByIdAsync plainSetter "app").2)).concat (.enumerate .allowedScopes _)
  have hall := (snapshot_iff (fun _ _ => rfl) hfound hrun).1.mpr (by simp)
  exact ⟨_, _, _, hfound, hall _ (List.mem_append_right _ List.mem_cons_self), rfl, rfl⟩

/-- Somebody deletes all rows; then the client has no grant types any more, and
enumerating them takes the disposed connection. -/
theorem not_isSnapshot_plainSession :
    ∃ x s₀ s', plainSession.findClientByIdAsync plainSetter "app" = (.ok (some x), s₀) ∧
      Run Later.Step s₀ [⟨s₀, .change fun _ => Store.empty, s'⟩,
        ⟨s', .enumerate .allowedGrantTypes, s'⟩] s' ∧
      (x.get .allowedGrantTypes).elements s₀.db = ["hybrid", "client_credentials"] ∧
      (x.get .allowedGrantTypes).elements s'.db = [] ∧
      ¬ IsSnapshot x s₀ ⟨s', .enumerate .allowedGrantTypes, s'⟩ := by
  refine ⟨_, _, _, rfl, (Run.nil.concat (.change _ _)).concat (.enumerate _ _), rfl, rfl, ?_⟩
  rintro ⟨-, hopen⟩
  exact hopen _ rfl 0 rfl List.mem_cons_self

end IdentityLinq
