/-
What is seen of a `ComplexInsert` call that does not get to its end, or is not
there yet.

The statements of a call run in no transaction.  So

* `throws_leaves` — a call that ends with an exception leaves the rows of the
  inserts it issued before;
* `lookup_beside_insert` — a lookup beside a call finds every collection as far as the
  call had come when it was read; later statements do not find the call less far.
-/
import IdentityLinq.ClientRuns
import IdentityLinq.ResourceStore

namespace IdentityLinq

variable {P : Platform}

/-! ### Calls that throw -/

/-- On `db` the call ends with the exception `e`, of its own or of the database,
after `n` statements, and leaves `db'`. -/
def Call.Throws (db : Db P) (n : ℕ) (e : Error) (db' : Db P) : Call P → Prop
  | client c => (complexInsertClient c).Ends db n (.error e) db'
  | apiResource r => (complexInsertApiResource r).Ends db n (.error e) db'
  | identityResource r => (complexInsertIdentityResource r).Ends db n (.error e) db'

/-- **What a call leaves behind when it throws** after `n` statements: the rows of
its first `n` inserts, in every table after the rows that were there. -/
theorem throws_leaves {call : Call P} {db db' : Db P} {n : ℕ} {e : Error}
    (h : call.Throws db n e db') :
    n ≤ (call.inserts db).length ∧ ∀ t, (db' t).rows = (db t).rows ++
      number (db t).next (((call.inserts db).take n).flatMap fun δ => δ t) := by
  have htake : n ≤ (call.inserts db).length ∧
      db' = (Delta.sum ((call.inserts db).take n)).addTo db := by
    cases call with
    | client c => exact (issues_complexInsertClient c db).ends_take h
    | apiResource r => exact (issues_complexInsertApiResource r db).ends_take h
    | identityResource r => exact (issues_complexInsertIdentityResource r db).ends_take h
  refine ⟨htake.1, fun t => ?_⟩
  rw [htake.2, Delta.addTo_apply, Table.rows_bulkCopy, Delta.sum_apply]

/-- A client whose redirect URIs are null. -/
def clientWithoutUris : Models.Client Platform.plain (Collection String) :=
  { plainClient "app" [] with redirectUris := none }

theorem throws_leaves_clientWithoutUris :
    ∃ n db', (Call.client clientWithoutUris).Throws Store.empty n .argumentNull db' ∧
      n ≤ clientWithoutUris.inserts.length ∧
      ∀ t, (db' t).rows
        = number 1 ((clientWithoutUris.inserts.take n).flatMap fun δ => δ t) := by
  obtain ⟨n, hn⟩ := Program.ends_run (complexInsertClient clientWithoutUris) Store.empty
  have hthrows : (Call.client clientWithoutUris).Throws Store.empty n .argumentNull _ := hn
  exact ⟨n, _, hthrows, throws_leaves hthrows⟩

/-- The last collection is null, and the client row stays behind. -/
theorem not_unchanged_clientWithoutUris :
    ∃ n e db', (Call.client clientWithoutUris).Throws Store.empty n e db' ∧
      ¬ ∀ t, (db' t).rows = (Store.empty t : Table (TableName.Columns Platform.plain t)).rows := by
  obtain ⟨n, hn⟩ := Program.ends_run (complexInsertClient clientWithoutUris) Store.empty
  exact ⟨n, .argumentNull, _, hn, fun h => absurd (congrArg List.length (h .clients)) (by decide)⟩

/-! ### Lookups beside a call -/

/-- The client with the collections that the first `n` statements of its insertion have
copied; the first one is for its row. -/
def Models.Client.upTo (n : ℕ) (c : Models.Client P (Collection String)) :
    Models.Client P (Collection String) :=
  { c with
    allowedCorsOrigins := some (if 1 < n then c.allowedCorsOrigins.getD [] else [])
    allowedGrantTypes := some (if 2 < n then c.allowedGrantTypes.getD [] else [])
    allowedScopes := some (if 3 < n then c.allowedScopes.getD [] else [])
    claims := some (if 4 < n then c.claims.getD [] else [])
    clientSecrets := some (if 5 < n then c.clientSecrets.getD [] else [])
    identityProviderRestrictions :=
      some (if 6 < n then c.identityProviderRestrictions.getD [] else [])
    postLogoutRedirectUris := some (if 7 < n then c.postLogoutRedirectUris.getD [] else [])
    redirectUris := some (if 8 < n then c.redirectUris.getD [] else []) }

/-- Its inserts are the first inserts of the call. -/
theorem Models.Client.sum_upTo (c : Models.Client P (Collection String)) (n : ℕ) :
    Delta.sum (c.upTo (n + 1)).inserts = Delta.sum (c.inserts.take (n + 1)) := by
  rw [Models.Client.inserts, Models.Client.inserts, List.take_succ_cons, Delta.sum_cons,
    Delta.sum_cons]
  refine congrArg _ ?_
  rcases n with _ | _ | _ | _ | _ | _ | _ | _ | n
  all_goals simp [Models.Client.childInserts, Models.Client.upTo, Delta.single_nil]

/-- How many statements of an insertion were executed when each statement of the lookup
was: never fewer than for the statement before. -/
structure Positions where
  client : ℕ
  allowedGrantTypes : ℕ
  redirectUris : ℕ
  postLogoutRedirectUris : ℕ
  allowedScopes : ℕ
  clientSecrets : ℕ
  claims : ℕ
  identityProviderRestrictions : ℕ
  allowedCorsOrigins : ℕ
  sorted : [client, allowedGrantTypes, redirectUris, postLogoutRedirectUris, allowedScopes,
    clientSecrets, claims, identityProviderRestrictions, allowedCorsOrigins].IsChain (· ≤ ·)

/-- The client `c` as a lookup beside its insertion returns it: every collection as far
as it was copied when it was read. -/
structure SeenBeside (db : Db P) (c : Models.Client P (Collection String)) (n : Positions)
    (x : FoundClient P) : Prop where
  columns : x.toClientColumns = c.toClientColumns
  accepted : P.validateGrantTypes (c.upTo n.allowedGrantTypes).allowedGrantTypes = true
  redirectUris : x.redirectUris = (c.upTo n.redirectUris).redirectUris
  postLogoutRedirectUris :
    x.postLogoutRedirectUris = (c.upTo n.postLogoutRedirectUris).postLogoutRedirectUris
  allowedScopes : x.allowedScopes = (c.upTo n.allowedScopes).allowedScopes
  clientSecrets : x.clientSecrets = (c.upTo n.clientSecrets).clientSecrets
  claims : x.claims = (c.upTo n.claims).blank.claims
  identityProviderRestrictions : x.identityProviderRestrictions
    = (c.upTo n.identityProviderRestrictions).identityProviderRestrictions
  allowedCorsOrigins : x.allowedCorsOrigins = (c.upTo n.allowedCorsOrigins).allowedCorsOrigins
  /-- the grant types are read again whenever they are asked for -/
  allowedGrantTypes : ∀ m, n.allowedCorsOrigins ≤ m →
    some (x.allowedGrantTypes (storeAfter db c.inserts m)) = (c.upTo m).allowedGrantTypes

/-- How a lookup beside the insertion of `c` ends: with null if the row was not there,
else with the client or, where it does not accept the grant types there were, with the
setter's exception. -/
def LookupOutcome (db : Db P) (c : Models.Client P (Collection String)) (n : Positions) :
    Except Error (Option (FoundClient P)) → Prop
  | .ok none => n.client = 0
  | .ok (some x) => 0 < n.client ∧ SeenBeside db c n x
  | .error e => 0 < n.client ∧ e = .invalidOperation ∧
      P.validateGrantTypes (c.upTo n.allowedGrantTypes).allowedGrantTypes = false

section Client

variable {db : Db P} {c : Models.Client P (Collection String)} {n : Positions}

/-- After some statements of its insertion the client is stored as far as it goes. -/
theorem storedClient_storeAfter (hnew : NotStored db c.clientId) {m : ℕ} (hm : 0 < m) :
    StoredClient (storeAfter db c.inserts m) (c.upTo m) := by
  obtain ⟨m, rfl⟩ := Nat.exists_eq_succ_of_ne_zero (Nat.pos_iff_ne_zero.mp hm)
  rw [storeAfter, ← c.sum_upTo]
  exact @storedClient_inserts _ (c.upTo (m + 1)) _ hnew

/-- Whatever stores of the insertion answer its statements, in their order, the lookup
ends so. -/
theorem lookupOutcome_of_mayEndBetween (hnew : NotStored db c.clientId) {last : ℕ}
    {res : Except Error (Option (FoundClient P))}
    (h : Program.MayEndBetween (storeAfter db c.inserts) last 0
      (findClientByIdAsync c.clientId) res) :
    ∃ n, n.allowedCorsOrigins ≤ last ∧ LookupOutcome db c n res := by
  have hreads : ∀ m, 0 < m → ClientReads (storeAfter db c.inserts m) c.clientId (c.upTo m) :=
    fun m hm => (storedClient_storeAfter hnew hm).reads
  -- The first statement finds the client or does not.
  obtain ⟨n₀, -, hlast, h⟩ := (Program.mayEndBetween_query_bind _ _ _).mp h
  rcases Nat.eq_zero_or_pos n₀ with rfl | hn₀
  · have hnone : (storeAfter db c.inserts 0 .clients).values.find?
        (fun x => decide (x.clientId = c.clientId)) = none := by
      rw [storeAfter_zero, List.find?_eq_none]
      exact fun x hx hid => hnew.1 x hx (of_decide_eq_true hid)
    rw [hnone] at h
    obtain rfl : res = .ok none := h
    exact ⟨⟨0, 0, 0, 0, 0, 0, 0, 0, 0, by simp⟩, Nat.zero_le _, rfl⟩
  have hfind : (storeAfter db c.inserts n₀ .clients).values.find?
      (fun x => decide (x.clientId = c.clientId)) = some c.toClientColumns :=
    (storedClient_storeAfter hnew hn₀).find
  rw [hfind] at h
  -- The second one reads grant types for the setter to check.
  obtain ⟨n₁, hn₁, hlast, h⟩ := (Program.mayEndBetween_query_bind _ _ _).mp h
  have hgrants : some (grantTypesQuery c.clientId (storeAfter db c.inserts n₁))
      = (c.upTo n₁).allowedGrantTypes := by
    rw [(hreads n₁ (by omega)).allowedGrantTypes]
    rfl
  rw [hgrants, setAllowedGrantTypes] at h
  split at h
  · next hvalid =>
    -- Seven statements follow, none answered by an earlier store than the one before.
    obtain ⟨n₂, hn₂, hlast, h⟩ := (Program.mayEndBetween_query_bind _ _ _).mp h
    obtain ⟨n₃, hn₃, hlast, h⟩ := (Program.mayEndBetween_query_bind _ _ _).mp h
    obtain ⟨n₄, hn₄, hlast, h⟩ := (Program.mayEndBetween_query_bind _ _ _).mp h
    obtain ⟨n₅, hn₅, hlast, h⟩ := (Program.mayEndBetween_query_bind _ _ _).mp h
    obtain ⟨n₆, hn₆, hlast, h⟩ := (Program.mayEndBetween_query_bind _ _ _).mp h
    obtain ⟨n₇, hn₇, hlast, h⟩ := (Program.mayEndBetween_query_bind _ _ _).mp h
    obtain ⟨n₈, hn₈, hlast, h⟩ := (Program.mayEndBetween_query_bind _ _ _).mp h
    obtain rfl : res = .ok _ := h
    refine ⟨⟨n₀, n₁, n₂, n₃, n₄, n₅, n₆, n₇, n₈, by simp; omega⟩, hlast, hn₀, ?_⟩
    refine
      { columns := rfl
        accepted := hvalid
        redirectUris := congrArg some (hreads n₂ (by omega)).redirectUris
        postLogoutRedirectUris := congrArg some (hreads n₃ (by omega)).postLogoutRedirectUris
        allowedScopes := congrArg some (hreads n₄ (by omega)).allowedScopes
        clientSecrets := congrArg some (hreads n₅ (by omega)).clientSecrets
        claims := congrArg some (hreads n₆ (by omega)).claims
        identityProviderRestrictions :=
          congrArg some (hreads n₇ (by omega)).identityProviderRestrictions
        allowedCorsOrigins := congrArg some (hreads n₈ (by omega)).allowedCorsOrigins
        allowedGrantTypes := fun m hm => congrArg some (hreads m ?_).allowedGrantTypes }
    have hm : n₈ ≤ m := hm
    omega
  · next hinvalid =>
    obtain rfl : res = .error .invalidOperation := h
    refine ⟨⟨n₀, n₁, n₁, n₁, n₁, n₁, n₁, n₁, n₁, by simp; omega⟩, hlast, hn₀, rfl, ?_⟩
    simpa using hinvalid

/-- A setter that rejects the empty list lets no client through without its origins. -/
theorem SeenBeside.allowedCorsOrigins_eq {x : FoundClient P} (h : SeenBeside db c n x)
    (hempty : P.validateGrantTypes (some []) = false) :
    x.allowedCorsOrigins = some (c.allowedCorsOrigins.getD []) := by
  have hcopied : 2 < n.allowedGrantTypes := by
    by_contra hle
    have haccepted := h.accepted
    rw [Models.Client.upTo, if_neg hle, hempty] at haccepted
    exact nomatch haccepted
  have hsorted := n.sorted
  simp only [List.isChain_cons_cons] at hsorted
  rw [h.allowedCorsOrigins]
  exact congrArg some (if_pos (by omega))

/-- After the last statement nothing is missing. -/
theorem Models.Client.upTo_of_lt (c : Models.Client P (Collection String)) {m : ℕ} (h : 8 < m) :
    c.upTo m = c.upTo 9 := by
  simp [Models.Client.upTo, h, show 1 < m by omega, show 2 < m by omega, show 3 < m by omega,
    show 4 < m by omega, show 5 < m by omega, show 6 < m by omega, show 7 < m by omega]

/-- The redirect URIs are copied last and read first: where there are some, nothing is
missing. -/
theorem SeenBeside.content_eq {x : FoundClient P} (h : SeenBeside db c n x)
    (hsome : x.redirectUris ≠ some []) :
    contentOn (storeAfter db c.inserts n.allowedCorsOrigins) x = (c.upTo 9).blank.content := by
  have hcopied : 8 < n.redirectUris := by
    by_contra hle
    rw [h.redirectUris, Models.Client.upTo, if_neg hle] at hsome
    exact hsome rfl
  have hsorted := n.sorted
  simp only [List.isChain_cons_cons] at hsorted
  have hgrants := h.allowedGrantTypes _ (le_refl _)
  obtain ⟨hcolumns, -, hredirect, hlogout, hscopes, hsecrets, hclaims, hidp, hcors, -⟩ := h
  rw [c.upTo_of_lt (by omega)] at hgrants hredirect hlogout hscopes hsecrets hclaims hidp hcors
  refine ClientContent.ext hcolumns ?_ ?_ ?_ ?_ ?_ ?_ ?_ ?_
  · exact congrArg (Option.map Multiset.ofList) hgrants
  · exact congrArg (Option.map Multiset.ofList) hredirect
  · exact congrArg (Option.map Multiset.ofList) hlogout
  · exact congrArg (Option.map Multiset.ofList) hscopes
  · exact congrArg (Option.map Multiset.ofList) hsecrets
  · exact congrArg (Option.map Multiset.ofList) hclaims
  · exact congrArg (Option.map Multiset.ofList) hidp
  · exact congrArg (Option.map Multiset.ofList) hcors

/-- The grant types of `c` do not make a lookup throw: if the setter accepts them, it has
been given an empty list that it rejects. -/
theorem LookupOutcome.rejects_nil {e : Error} (h : LookupOutcome db c n (.error e))
    (hvalid : P.validateGrantTypes (some (c.allowedGrantTypes.getD [])) = true) :
    n.allowedGrantTypes ≤ 2 ∧ P.validateGrantTypes (some []) = false := by
  obtain ⟨-, -, hrejected⟩ := h
  by_cases hcopied : 2 < n.allowedGrantTypes
  · rw [Models.Client.upTo, if_pos hcopied, hvalid] at hrejected
    exact nomatch hrejected
  · rw [Models.Client.upTo, if_neg hcopied] at hrejected
    exact ⟨by omega, hrejected⟩

end Client

/-- `Upload` loads the claims of the store that answers its first statement for the rows
of the one that answers the second. -/
theorem eq_of_mayEndBetween_upload {stores : ℕ → Db P} {last n : ℕ}
    {query : Db P → List (IdentityResourceRow P)}
    {res : Except Error (List (Entities.IdentityResource P))}
    (h : Program.MayEndBetween stores last n (uploadIdentityResources query) res) :
    ∃ n₀ n₁, n₀ ≤ n₁ ∧ n₁ ≤ last ∧
      res = .ok ((query (stores n₁)).map (loadIdentityResource query (stores n₀))) := by
  obtain ⟨n₀, -, -, h⟩ := (Program.mayEndBetween_query_bind _ _ _).mp h
  obtain ⟨n₁, hn₁, hlast, h⟩ := (Program.mayEndBetween_query_bind _ _ _).mp h
  obtain rfl : res = .ok _ := h
  refine ⟨n₀, n₁, hn₁, hlast, congrArg Except.ok (List.map_congr_left fun row _ => ?_)⟩
  rw [attachClaims_eq, tryGetValue_groupBy]
  rfl

/-- The identity resource `r` as a lookup finds it that has read the claims after `n`
statements of the insertion. -/
def Models.IdentityResource.seenAfter (r : Models.IdentityResource P) (id n : ℕ) :
    Entities.IdentityResource P where
  toResourceColumns := r.toResourceColumns
  id := id
  userClaims := some (if 1 < n then r.userClaims.getD [] else [])

section IdentityResource

variable {db : Db P} {r : Models.IdentityResource P}

/-- The rows with the new id that a lookup reads. -/
theorem filter_id_storeAfter (scopeNames : List String) (n : ℕ) :
    (identityResourcesByScope scopeNames
      (storeAfter db (r.inserts (db .identityResources).next) n)).filter
        (fun row => decide (row.id = (db .identityResources).next))
      = if 0 < n ∧ r.name ∈ scopeNames then [⟨(db .identityResources).next, r.toResourceColumns⟩]
        else [] := by
  have hrows : (storeAfter db (r.inserts (db .identityResources).next) n .identityResources).rows
      = (db .identityResources).rows ++
        if 0 < n then [⟨(db .identityResources).next, r.toResourceColumns⟩] else [] := by
    rw [storeAfter, Delta.addTo_apply, Table.rows_bulkCopy]
    rcases n with _ | _ | n
    all_goals simp [Models.IdentityResource.inserts]
  have hold : (db .identityResources).rows.filter
      (fun row => decide (row.id = (db .identityResources).next)) = [] := by
    rw [List.filter_eq_nil_iff]
    intro row hrow hid
    have hlt := (db .identityResources).lt_next row hrow
    have heq := of_decide_eq_true hid
    omega
  rw [identityResourcesByScope, List.filter_comm, hrows, List.filter_append, hold,
    List.nil_append]
  by_cases hn : 0 < n
  · by_cases hname : r.name ∈ scopeNames <;> simp [hn, hname]
  · simp [hn]

/-- The claims under the new id. -/
theorem filter_claims_storeAfter
    (hnew : children db .identityClaims (.identityResource (db .identityResources).next) = [])
    (n : ℕ) :
    (storeAfter db (r.inserts (db .identityResources).next) n .identityClaims).values.filter
        (fun x => decide (x.identityResourceId = (db .identityResources).next))
      = if 1 < n then (r.userClaims.getD []).map fun x => ⟨x, (db .identityResources).next⟩
        else [] := by
  have hold : (db .identityClaims).values.filter
      (fun x => decide (x.identityResourceId = (db .identityResources).next)) = [] := by
    rw [← ownedBy_eq_filter_key db (fun _ _ => Owner.identityResource.inj) (fun _ => rfl),
      ownedBy, hnew, List.map_nil]
  rw [storeAfter, Delta.addTo_apply, Table.values_bulkCopy, List.filter_append, hold,
    List.nil_append]
  rcases n with _ | _ | n
  · rfl
  · simp [Models.IdentityResource.inserts]
  · simp [Models.IdentityResource.inserts]

/-- What a lookup that has read the claims after `n` statements makes of the new row. -/
theorem loadIdentityResource_storeAfter
    (hnew : children db .identityClaims (.identityResource (db .identityResources).next) = [])
    {scopeNames : List String} (hname : r.name ∈ scopeNames) (n : ℕ) :
    loadIdentityResource (identityResourcesByScope scopeNames)
        (storeAfter db (r.inserts (db .identityResources).next) n)
        ⟨(db .identityResources).next, r.toResourceColumns⟩
      = r.seenAfter (db .identityResources).next n := by
  have hcount : (identityResourcesByScope scopeNames
      (storeAfter db (r.inserts (db .identityResources).next) n)).countP
        (fun row => decide (row.id = (db .identityResources).next)) = if 0 < n then 1 else 0 := by
    rw [List.countP_eq_length_filter, filter_id_storeAfter]
    by_cases hn : 0 < n <;> simp [hn, hname]
  rw [loadIdentityResource, innerJoin_filter_key, hcount, filter_claims_storeAfter hnew,
    Models.IdentityResource.seenAfter]
  rcases n with _ | _ | n
  · rfl
  · rfl
  · simp [Function.comp_def]

end IdentityResource

/-! ### The two lookups -/

/-- **What a lookup beside a call sees.**  A lookup of a client while the client is being
inserted ends as `LookupOutcome` says for some positions, none beyond the statements that
have left the store as it is then; a lookup of identity resources while one of them is
being inserted reads the claims at one position and the rows at the same or a later one. -/
theorem lookup_beside_insert :
    (∀ (c : Models.Client P (Collection String)) (db : Db P), NotStored db c.clientId →
      ∀ w s res, Program.Interleave (complexInsertClient c) (findClientByIdAsync c.clientId) db
        w (.final res) s → ∃ n last, s = storeAfter db c.inserts last ∧
          n.allowedCorsOrigins ≤ last ∧ LookupOutcome db c n res) ∧
    (∀ (r : Models.IdentityResource P) (db : Db P),
      children db .identityClaims (.identityResource (db .identityResources).next) = [] →
      ∀ scopeNames w s res, Program.Interleave (complexInsertIdentityResource r)
        (findIdentityResourcesByScopeAsync scopeNames) db w (.final res) s →
        ∃ n₀ n₁ last resources, n₀ ≤ n₁ ∧ n₁ ≤ last ∧
          s = storeAfter db (r.inserts (db .identityResources).next) last ∧
          res = .ok resources ∧
          resources.filter (fun x => decide (x.id = (db .identityResources).next))
            = if 0 < n₁ ∧ r.name ∈ scopeNames then
                [r.seenAfter (db .identityResources).next n₀] else []) := by
  constructor
  · intro c db hnew w s res h
    rw [← storeAfter_zero db c.inserts] at h
    obtain ⟨last, hs, hres⟩ := h.mayEndBetween_final
      (issues_complexInsertClient c db).passes (readOnly_findClientByIdAsync _)
    obtain ⟨n, hlast, houtcome⟩ := lookupOutcome_of_mayEndBetween hnew hres
    exact ⟨n, last, hs, hlast, houtcome⟩
  · intro r db hnew scopeNames w s res h
    rw [← storeAfter_zero db (r.inserts (db .identityResources).next)] at h
    obtain ⟨last, hs, hres⟩ := h.mayEndBetween_final
      (issues_complexInsertIdentityResource r db).passes (readOnly_uploadIdentityResources _)
    obtain ⟨n₀, n₁, hle, hlast, rfl⟩ := eq_of_mayEndBetween_upload hres
    refine ⟨n₀, n₁, last, _, hle, hlast, hs, rfl, ?_⟩
    -- Loading a row keeps its id.
    have hid : ((fun x : Entities.IdentityResource P =>
        decide (x.id = (db .identityResources).next)) ∘
        loadIdentityResource (identityResourcesByScope scopeNames)
          (storeAfter db (r.inserts (db .identityResources).next) n₀))
        = fun row => decide (row.id = (db .identityResources).next) := rfl
    rw [List.filter_map, hid, filter_id_storeAfter]
    split
    · next hfound => rw [List.map_singleton, loadIdentityResource_storeAfter hnew hfound.2]
    · rfl

theorem notStored_empty (clientId : String) : NotStored (Store.empty : Db P) clientId :=
  ⟨fun _ hx => absurd hx List.not_mem_nil, fun _ => rfl⟩

theorem lookup_beside_insert_plain :
    (∃ n, LookupOutcome Store.empty (fullClient "app" []) n (.error .invalidOperation)) ∧
    (∃ n x, LookupOutcome Store.empty (fullClient "app" []) n (.ok (some x)) ∧
      x.allowedCorsOrigins = some ["https://app", "https://www"] ∧ x.redirectUris = some []) ∧
    ∃ (n₀ n₁ : ℕ) (resources : List (Entities.IdentityResource Platform.plain)),
      n₀ ≤ n₁ ∧ resources.map (·.userClaims) = [some []] ∧
      resources.filter (fun x => decide (x.id = 1))
        = if 0 < n₁ ∧ "profile" ∈ ["profile"] then
            [(plainIdentityResource "profile" ["name"]).seenAfter 1 n₀] else [] := by
  have hclient := (@lookup_beside_insert Platform.plain).1 (fullClient "app" []) Store.empty
    (notStored_empty _)
  refine ⟨?_, ?_, ?_⟩
  · obtain ⟨n, -, -, -, hn⟩ := hclient _ _ _ (Program.Interleave.refl.advance_left 1).run_right
    exact ⟨n, hn⟩
  · obtain ⟨n, -, -, -, hn⟩ := hclient _ _ _ (Program.Interleave.refl.advance_left 8).run_right
    exact ⟨n, _, hn, rfl, rfl⟩
  · obtain ⟨n₀, n₁, -, resources, hle, -, -, hres, hseen⟩ :=
      lookup_beside_insert.2 (plainIdentityResource "profile" ["name"]) Store.empty rfl
        ["profile"] _ _ _ (Program.Interleave.refl.advance_left 1).run_right
    cases hres
    exact ⟨n₀, n₁, _, hle, rfl, hseen⟩

/-- A lookup after the client row finds no grant types and throws; a lookup before
the last statement finds no redirect URI. -/
theorem lookup_beside_insert_fullClient :
    NotStored (Store.empty : Db Platform.plain) (fullClient "app" []).clientId ∧
    (∃ w s, Program.Interleave (complexInsertClient (fullClient "app" []))
      (findClientByIdAsync "app") Store.empty w (.final (.error .invalidOperation)) s) ∧
    ∃ w s x, Program.Interleave (complexInsertClient (fullClient "app" []))
      (findClientByIdAsync "app") Store.empty w (.final (.ok (some x))) s ∧
        x.redirectUris ≠ (fullClient "app" []).redirectUris :=
  ⟨notStored_empty _, ⟨_, _, (Program.Interleave.refl.advance_left 1).run_right⟩,
    _, _, _, (Program.Interleave.refl.advance_left 8).run_right, by decide⟩

end IdentityLinq
