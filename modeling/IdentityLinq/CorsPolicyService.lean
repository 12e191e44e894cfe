/-
`CorsPolicyService`: which origins are allowed.

`IsOriginAllowedAsync` looks for the origin in the table of origins and asks
for no client.  `FindClientByIdAsync` reads the same table, but for one client
and only if the client has a row of its own.

* `allowed_of_find` — on every database, what a client that is found lists as an
  origin is allowed;
* `isOriginAllowedAsync_iff_of_owned` — the converse takes two things: every row has
  its owner, and every client that has a row is found;
* `isOriginAllowedAsync_iff` — so the two agree after every run of calls for
  distinct ids that all returned.
-/
import IdentityLinq.ClientRuns

namespace IdentityLinq

variable {P : Platform}

/-- `IsOriginAllowedAsync(origin)`. -/
def isOriginAllowedAsync (origin : String) : Program (Db P) Error Bool := do
  let isAllowed ← Program.query fun db =>
    (db .clientCorsOrigins).values.any fun x => decide (x.origin = origin)
  return isAllowed

/-- The answer of `IsOriginAllowedAsync` on `db` is yes. -/
def OriginAllowed (db : Db P) (origin : String) : Prop :=
  (isOriginAllowedAsync origin).run db = (.ok true, db)

/-- `FindClientByIdAsync` returns `x` on `db`. -/
def Finds (db : Db P) (clientId : String) (x : FoundClient P) : Prop :=
  ((findClientByIdAsync clientId).run db).1 = .ok (some x)

/-- The client lists the origin. -/
def FoundClient.Lists (x : FoundClient P) (origin : String) : Prop :=
  ∃ origins, x.allowedCorsOrigins = some origins ∧ origin ∈ origins

/-! ### The two queries -/

theorem originAllowed_iff {db : Db P} {origin : String} :
    OriginAllowed db origin ↔ ∃ x ∈ (db .clientCorsOrigins).values, x.origin = origin := by
  have hrun : (isOriginAllowedAsync origin).run db
      = (.ok ((db .clientCorsOrigins).values.any fun x => decide (x.origin = origin)), db) := rfl
  rw [OriginAllowed, hrun, Prod.mk.injEq, Except.ok.injEq, List.any_eq_true]
  simp only [decide_eq_true_eq, and_true]

/-- The origins of a client that is found are those of the rows that carry its id. -/
theorem Finds.lists_iff {db : Db P} {clientId : String} {x : FoundClient P}
    (h : Finds db clientId x) (origin : String) :
    x.Lists origin ↔
      ∃ y ∈ (db .clientCorsOrigins).values, y.clientId = clientId ∧ y.origin = origin := by
  obtain ⟨client, -, rfl, rfl⟩ := eq_loadClient_of_found h
  have hrows : ∀ y, y ∈ ownedBy db .clientCorsOrigins (.client client.clientId) ↔
      y ∈ (db .clientCorsOrigins).values ∧ y.clientId = client.clientId := by
    intro y
    rw [← clientRows_eq_ownedBy (t := .clientCorsOrigins) fun _ => rfl, clientRows,
      List.mem_filter, decide_eq_true_eq]
  constructor
  · rintro ⟨origins, horigins, hmem⟩
    obtain rfl := Option.some.inj horigins
    obtain ⟨y, hy, rfl⟩ := List.mem_map.mp hmem
    exact ⟨y, ((hrows y).mp hy).1, ((hrows y).mp hy).2, rfl⟩
  · rintro ⟨y, hy, hid, rfl⟩
    exact ⟨_, rfl, List.mem_map.mpr ⟨y, (hrows y).mpr ⟨hy, hid⟩, rfl⟩⟩

theorem allowed_of_find {db : Db P} {clientId origin : String} {x : FoundClient P}
    (h : Finds db clientId x) (hlists : x.Lists origin) : OriginAllowed db origin := by
  obtain ⟨y, hy, -, horigin⟩ := (h.lists_iff origin).mp hlists
  exact originAllowed_iff.mpr ⟨y, hy, horigin⟩

/-- Where rows have their owners and clients are found, an allowed origin is listed by
a client that is found. -/
theorem isOriginAllowedAsync_iff_of_owned {db : Db P} (howned : Owned db)
    (hfound : ∀ client ∈ (db .clients).values, ∃ x, Finds db client.clientId x)
    (origin : String) :
    OriginAllowed db origin ↔ ∃ clientId x, Finds db clientId x ∧ x.Lists origin := by
  constructor
  · intro hallowed
    obtain ⟨y, hy, horigin⟩ := originAllowed_iff.mp hallowed
    -- The row of the origin names a client, which has a row and so is found.
    obtain ⟨client, hclient, hid⟩ := howned .clientCorsOrigins y hy (.client y.clientId) rfl
    obtain ⟨x, hx⟩ := hfound client hclient
    refine ⟨client.clientId, x, hx, (hx.lists_iff origin).mpr ?_⟩
    exact ⟨y, hy, hid.symm, horigin⟩
  · rintro ⟨clientId, x, hx, hlists⟩
    exact allowed_of_find hx hlists

/-! ### Runs -/

/-- After a run of calls for distinct ids that returned, every client is found. -/
theorem exists_finds_runCalls {calls : List (Call P)}
    (hids : (calls.flatMap Call.clientIds).Nodup)
    (hcomplete : ∀ c, .client c ∈ calls → c.Complete) :
    ∀ client ∈ (runCalls calls (Store.empty : Db P) .clients).values,
      ∃ x, Finds (runCalls calls Store.empty) client.clientId x := by
  intro client hclient
  rw [values_clients_runCalls] at hclient
  obtain ⟨call, hcall, hmem⟩ := List.mem_flatMap.mp hclient
  have hid := Call.clientId_of_mem_clientColumns hmem
  cases call with
  | client c =>
    rw [Call.clientIds, List.mem_singleton] at hid
    rw [hid]
    obtain ⟨pre, post, heq⟩ := List.append_of_mem hcall
    obtain ⟨hpre, hpost⟩ := notMem_of_nodup_clientIds (heq ▸ hids)
    obtain ⟨x, hx, -⟩ := findClientByIdAsync_runCalls (hcomplete c hcall) hpre hpost
      (congrArg (runCalls · Store.empty) heq)
    exact ⟨x, by rw [Finds, hx]⟩
  | apiResource r => exact absurd hid List.not_mem_nil
  | identityResource r => exact absurd hid List.not_mem_nil

/-- **The check of an origin and the client store agree**: after a run of calls for
distinct ids that returned, an origin is allowed exactly if some client that is found
lists it. -/
theorem isOriginAllowedAsync_iff {calls : List (Call P)}
    (hids : (calls.flatMap Call.clientIds).Nodup)
    (hcomplete : ∀ c, .client c ∈ calls → c.Complete) (origin : String) :
    OriginAllowed (runCalls calls Store.empty) origin ↔
      ∃ clientId x, Finds (runCalls calls Store.empty) clientId x ∧ x.Lists origin :=
  isOriginAllowedAsync_iff_of_owned (owned_runCalls calls) (exists_finds_runCalls hids hcomplete)
    origin

/-- Two clients that share an origin. -/
def clientsSharingOrigin : List (Call Platform.plain) :=
  [.client { plainClient "app" [] with
      allowedCorsOrigins := some ["https://a.example", "https://shared.example"] },
   .client { plainClient "spa" [] with allowedCorsOrigins := some ["https://shared.example"] }]

theorem isOriginAllowedAsync_iff_sharedOrigin :
    (∃ clientId x, Finds (runCalls clientsSharingOrigin Store.empty) clientId x ∧
        x.Lists "https://shared.example") ∧
      ¬ ∃ clientId x, Finds (runCalls clientsSharingOrigin Store.empty) clientId x ∧
        x.Lists "https://other.example" := by
  have hcomplete : ∀ c, .client c ∈ clientsSharingOrigin → c.Complete := by
    intro c hc
    simp only [clientsSharingOrigin, List.mem_cons, List.not_mem_nil, or_false,
      Call.client.injEq] at hc
    rcases hc with rfl | rfl
    · exact ⟨rfl, rfl, rfl, rfl, rfl, rfl, rfl, rfl, rfl⟩
    · exact ⟨rfl, rfl, rfl, rfl, rfl, rfl, rfl, rfl, rfl⟩
  constructor
  · exact (isOriginAllowedAsync_iff (by decide) hcomplete _).mp rfl
  · rw [← isOriginAllowedAsync_iff (by decide) hcomplete, originAllowed_iff]
    decide

end IdentityLinq
