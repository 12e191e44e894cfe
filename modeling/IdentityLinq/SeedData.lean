/-
The database of the host.

`EnsureSeedData` creates tables one by one and fills them: the clients with
`ComplexInsert`, the resources with a `BulkCopy` of their own rows only.  The table of
grants is not among those it creates.  A statement on a table that does not exist is
rejected, and so is the creation of one that does.

* `run_ensureSeedData` — what it leaves on a new database;
* `seeded_rejects` — from then on it throws when it is called again, and so does every
  call of the grant store; the cleanup ticks without effect, and the configuration store
  works as ever;
* `seeded_lookups` — the clients are found; the identity resources are found without
  claims; no API resource is found by scope, whatever is inserted later.
-/
import IdentityLinq.ConcurrentLookups
import IdentityLinq.GrantHistory
import IdentityLinq.TokenCleanup

namespace IdentityLinq

variable {P : Platform} {α : Type}

/-! ### The code -/

/-- The tables of the host. -/
inductive HostTable where
  | configuration (t : TableName)
  | secrets
  | persistedGrants
deriving DecidableEq, Repr

/-- The database, with the tables created so far. -/
structure HostDb (P : Platform) where
  created : List HostTable
  configuration : Db P
  grants : GrantDb

def HostDb.new : HostDb P := { created := [], configuration := Store.empty, grants := .empty }

/-- The database with a new table. -/
def HostDb.create (db : HostDb P) : HostTable → HostDb P
  | .configuration t =>
    { db with
      created := db.created ++ [.configuration t]
      configuration := Function.update db.configuration t Table.empty }
  | .secrets => { db with created := db.created ++ [.secrets] }
  | .persistedGrants => { db with created := db.created ++ [.persistedGrants], grants := .empty }

/-- `db.CreateTable<T>()`. -/
def createTable (t : HostTable) : Program (HostDb P) Error Unit :=
  .exec (fun db => if t ∈ db.created then (false, db) else (true, db.create t)) fun accepted =>
    if accepted then .ret () else .raise .database

/-- A part of the database: some of the tables, with a view of their rows. -/
structure DbPart (P : Platform) (S : Type) where
  tables : List HostTable
  get : HostDb P → S
  set : HostDb P → S → HostDb P
  get_set : ∀ db s, get (set db s) = s
  set_get : ∀ db, set db (get db) = db
  set_set : ∀ db s s', set (set db s) s' = set db s'
  created_set : ∀ db s, (set db s).created = db.created

/-- A program on a part of the database; its statements are rejected unless the tables
of that part exist. -/
def DbPart.on {S : Type} (part : DbPart P S) : Program S Error α → Program (HostDb P) Error α
  | .ret a => .ret a
  | .raise e => .raise e
  | .exec f k => .exec
      (fun db => if ∀ t ∈ part.tables, t ∈ db.created then
          (some (f (part.get db)).1, part.set db (f (part.get db)).2)
        else (none, db)) fun answer =>
      match answer with
      | some b => part.on (k b)
      | none => .raise .database

/-- The tables of `ComplexInsert`. -/
def configurationTables : List HostTable :=
  [.configuration .apiResources, .configuration .apiResourceClaims, .configuration .apiScopes,
   .configuration .apiScopeClaims, .configuration .apiSecrets, .configuration .clients,
   .configuration .clientClaims, .configuration .clientCorsOrigins,
   .configuration .clientGrantTypes, .configuration .clientIdPRestrictions,
   .configuration .clientPostLogoutRedirectUris, .configuration .clientRedirectUris,
   .configuration .clientScopes, .configuration .clientSecrets, .configuration .identityClaims,
   .configuration .identityResources]

/-- The tables of the configuration store. -/
def configurationPart : DbPart P (Db P) where
  tables := configurationTables
  get := (·.configuration)
  set := fun db s => { db with configuration := s }
  get_set := fun _ _ => rfl
  set_get := fun _ => rfl
  set_set := fun _ _ _ => rfl
  created_set := fun _ _ => rfl

/-- The table of the operational store. -/
def grantsPart : DbPart P GrantDb where
  tables := [.persistedGrants]
  get := (·.grants)
  set := fun db s => { db with grants := s }
  get_set := fun _ _ => rfl
  set_get := fun _ => rfl
  set_set := fun _ _ _ => rfl
  created_set := fun _ _ => rfl

/-- The tables `EnsureSeedData` creates, in its order. -/
def seedTables : List HostTable := configurationTables ++ [.secrets]

/-- `EnsureSeedData(context)`, for the clients and resources of the configuration. -/
def ensureSeedData (clients : List (Models.Client P (Collection String)))
    (identityResources : List (Models.IdentityResource P))
    (apiResources : List (Models.ApiResource P)) : Program (HostDb P) Error Unit := do
  forM seedTables createTable
  forM clients fun client => configurationPart.on (Call.client client).program
  configurationPart.on (bulkCopy .identityResources (some identityResources) (·.toResourceColumns))
  configurationPart.on (bulkCopy .apiResources (some apiResources) (·.toResourceColumns))

/-! ### Programs on existing tables -/

section DbPart

variable {S : Type} {part : DbPart P S} {db : HostDb P}

theorem DbPart.run_on (p : Program S Error α) (h : ∀ t ∈ part.tables, t ∈ db.created) :
    (part.on p).run db = ((p.run (part.get db)).1, part.set db (p.run (part.get db)).2) := by
  induction p generalizing db with
  | ret a => exact Prod.ext rfl (part.set_get db).symm
  | raise e => exact Prod.ext rfl (part.set_get db).symm
  | exec f k ih =>
    rw [DbPart.on, Program.run, if_pos h]
    have hrest := @ih (f (part.get db)).1 (part.set db (f (part.get db)).2) (by
      rwa [part.created_set])
    rw [part.get_set, part.set_set] at hrest
    exact hrest

theorem DbPart.run_on_of_missing {t : HostTable} (ht : t ∈ part.tables) (hnot : t ∉ db.created)
    {β : Type} (f : S → β × S) (k : β → Program S Error α) :
    (part.on (.exec f k)).run db = (.error .database, db) := by
  rw [DbPart.on, Program.run, if_neg fun h => hnot (h t ht)]
  rfl

end DbPart

/-! ### `EnsureSeedData` on a new database -/

theorem run_createTable_of_notMem {t : HostTable} {db : HostDb P} (h : t ∉ db.created) :
    (createTable t).run db = (.ok (), db.create t) := by
  rw [createTable, Program.run, if_neg h]
  rfl

theorem run_createTable_of_mem {t : HostTable} {db : HostDb P} (h : t ∈ db.created) :
    (createTable t).run db = (.error .database, db) := by
  rw [createTable, Program.run, if_pos h]
  rfl

theorem created_create (db : HostDb P) (t : HostTable) :
    (db.create t).created = db.created ++ [t] := by
  cases t <;> rfl

/-- Creating tables that are not there. -/
theorem run_forM_createTable {tables : List HostTable} (hnodup : tables.Nodup) {db : HostDb P}
    (h : ∀ t ∈ tables, t ∉ db.created) :
    (forM tables createTable).run db = (.ok (), tables.foldl HostDb.create db) := by
  induction tables generalizing db with
  | nil => rfl
  | cons t tables ih =>
    obtain ⟨hnot, hnodup⟩ := List.nodup_cons.mp hnodup
    rw [List.forM_cons, Program.run_bind, run_createTable_of_notMem (h t List.mem_cons_self)]
    refine ih hnodup fun t' ht' hin => ?_
    rw [created_create] at hin
    rcases List.mem_append.mp hin with hold | hnew
    · exact h t' (List.mem_cons_of_mem _ ht') hold
    · exact hnot (List.mem_singleton.mp hnew ▸ ht')

/-- The database with the tables of `EnsureSeedData`. -/
def HostDb.withTables (configuration : Db P) : HostDb P :=
  { created := seedTables, configuration := configuration, grants := .empty }

theorem foldl_create_new :
    seedTables.foldl HostDb.create (HostDb.new : HostDb P) = .withTables Store.empty := by
  have hempty : ∀ t : TableName, Function.update (Store.empty : Db P) t Table.empty
      = Store.empty := fun t => Function.update_eq_self t Store.empty
  simp only [seedTables, configurationTables, List.cons_append, List.nil_append,
    List.foldl_cons, List.foldl_nil, HostDb.create, HostDb.new, hempty, HostDb.withTables]

/-- The configuration that `EnsureSeedData` leaves. -/
def seeded (clients : List (Models.Client P (Collection String)))
    (identityResources : List (Models.IdentityResource P))
    (apiResources : List (Models.ApiResource P)) : Db P :=
  (Delta.single .apiResources (apiResources.map (·.toResourceColumns))).addTo
    ((Delta.single .identityResources (identityResources.map (·.toResourceColumns))).addTo
      (runCalls (clients.map .client) Store.empty))

theorem run_on_withTables (p : Program (Db P) Error α) (s : Db P) :
    (configurationPart.on p).run (.withTables s) = ((p.run s).1, .withTables (p.run s).2) :=
  DbPart.run_on p fun _ ht => List.mem_append_left _ ht

theorem run_bulkCopy_some (t : TableName) (xs : List α) (f : α → t.Columns P) (s : Db P) :
    (bulkCopy t (some xs) f).run s = (.ok (), (Delta.single t (xs.map f)).addTo s) := rfl

/-- A call that returns on the configuration tables. -/
theorem run_program_of_complete {call : Call P} (hcall : call.Complete) (s : Db P) :
    call.program.run s = (.ok (), call.run s) := by
  have hreturns : ∀ {β : Type} {p : Program (Db P) Error β}, p.Returns s →
      (p >>= fun _ => .ret ()).run s = (.ok (), (p.run s).2) := by
    rintro β p ⟨a, ha⟩
    have hrun : p.run s = (.ok a, (p.run s).2) := Prod.ext ha rfl
    rw [Program.run_bind, hrun]
    rfl
  cases call with
  | client c => exact hreturns ((complexInsertClient_returns_iff c s).mpr hcall)
  | apiResource r => exact hreturns ((complexInsertApiResource_returns_iff r s).mpr hcall)
  | identityResource r =>
    exact hreturns ((complexInsertIdentityResource_returns_iff r s).mpr hcall)

theorem run_forM_complexInsert {clients : List (Models.Client P (Collection String))}
    (hclients : ∀ c ∈ clients, c.Complete) (s : Db P) :
    (forM clients fun client => configurationPart.on (Call.client client).program).run
        (.withTables s)
      = (.ok (), .withTables (runCalls (clients.map .client) s)) := by
  induction clients generalizing s with
  | nil => rfl
  | cons c clients ih =>
    obtain ⟨hc, hclients⟩ := List.forall_mem_cons.mp hclients
    have hfirst : (configurationPart.on (Call.client c).program).run (.withTables s)
        = (.ok (), HostDb.withTables ((Call.client c).run s)) := by
      rw [run_on_withTables, @run_program_of_complete _ (.client c) hc s]
    rw [List.forM_cons, Program.run_bind, hfirst]
    exact ih hclients _

/-- **What `EnsureSeedData` leaves on a new database.** -/
theorem run_ensureSeedData {clients : List (Models.Client P (Collection String))}
    (hclients : ∀ c ∈ clients, c.Complete) (identityResources : List (Models.IdentityResource P))
    (apiResources : List (Models.ApiResource P)) :
    (ensureSeedData clients identityResources apiResources).run HostDb.new
      = (.ok (), .withTables (seeded clients identityResources apiResources)) := by
  have hnodup : seedTables.Nodup := by decide
  rw [ensureSeedData, Program.run_bind,
    run_forM_createTable hnodup fun t _ hin => absurd hin List.not_mem_nil, foldl_create_new]
  simp only [Program.run_bind, run_forM_complexInsert hclients, run_on_withTables,
    run_bulkCopy_some, seeded]

/-! ### What happens to the database later -/

/-- A call that changes the grants, as a program on the database.  A tick catches what its
statement throws. -/
def GrantOp.program : GrantOp → Program (HostDb P) Error Unit
  | store token => grantsPart.on (storeAsync token)
  | remove key => grantsPart.on (removeAsync key)
  | removeAll subjectId clientId => grantsPart.on (removeAllAsync subjectId clientId)
  | removeAllOfType subjectId clientId type =>
    grantsPart.on (removeAllOfTypeAsync subjectId clientId type)
  | clearTokens now => TokenCleanup.clearTokens (grantsPart.on (IdentityLinq.clearTokens now))

/-- A lookup of the configuration store. -/
inductive Lookup where
  | findClientByIdAsync (clientId : String)
  | findApiResourceAsync (name : String)
  | findApiResourcesByScopeAsync (scopeNames : List String)
  | findIdentityResourcesByScopeAsync (scopeNames : List String)
  | getAllResources
  | isOriginAllowedAsync (origin : String)

/-- The statements of the lookup, its result dropped. -/
def Lookup.program : Lookup → Program (Db P) Error Unit
  | findClientByIdAsync clientId => IdentityLinq.findClientByIdAsync clientId >>= fun _ => .ret ()
  | findApiResourceAsync name => IdentityLinq.findApiResourceAsync name >>= fun _ => .ret ()
  | findApiResourcesByScopeAsync scopeNames =>
    IdentityLinq.findApiResourcesByScopeAsync scopeNames >>= fun _ => .ret ()
  | findIdentityResourcesByScopeAsync scopeNames =>
    IdentityLinq.findIdentityResourcesByScopeAsync scopeNames >>= fun _ => .ret ()
  | getAllResources => IdentityLinq.getAllResources >>= fun _ => .ret ()
  | isOriginAllowedAsync origin => IdentityLinq.isOriginAllowedAsync origin >>= fun _ => .ret ()

/-- A call of the host, of an application that configures it, or of one of the stores. -/
inductive HostCall (P : Platform) where
  | ensureSeedData (clients : List (Models.Client P (Collection String)))
      (identityResources : List (Models.IdentityResource P))
      (apiResources : List (Models.ApiResource P))
  | insert (call : Call P)
  | lookup (lookup : Lookup)
  | grants (op : GrantOp)
  | getAsync (key : String)
  | getAllAsync (subjectId : Option String)

/-- The statements of the call, its result dropped. -/
def HostCall.program : HostCall P → Program (HostDb P) Error Unit
  | ensureSeedData clients identityResources apiResources =>
    IdentityLinq.ensureSeedData clients identityResources apiResources
  | insert call => configurationPart.on call.program
  | lookup l => configurationPart.on l.program
  | grants op => op.program
  | getAsync key => grantsPart.on (IdentityLinq.getAsync key >>= fun _ => .ret ())
  | getAllAsync subjectId => grantsPart.on (IdentityLinq.getAllAsync subjectId >>= fun _ => .ret ())

/-- The database after the calls, whether they returned or threw. -/
def runHost (calls : List (HostCall P)) (db : HostDb P) : HostDb P :=
  calls.foldl (fun db call => (call.program.run db).2) db

/-- The `ComplexInsert` of the call. -/
def HostCall.inserts : HostCall P → List (Call P)
  | insert call => [call]
  | _ => []

/-- The call is one of the grant store, or creates the tables of the host again. -/
def HostCall.Rejected : HostCall P → Prop
  | ensureSeedData _ _ _ => True
  | grants op => ∀ now, op ≠ .clearTokens now
  | getAsync _ => True
  | getAllAsync _ => True
  | insert _ => False
  | lookup _ => False

/-- The table of grants is not among those of `EnsureSeedData`. -/
theorem run_grantsPart_withTables {β : Type} (f : GrantDb → β × GrantDb)
    (k : β → Program GrantDb Error α) (s : Db P) :
    (grantsPart.on (.exec f k)).run (HostDb.withTables s)
      = (.error .database, .withTables s) := by
  have hmissing : .persistedGrants ∉ (HostDb.withTables s).created := by
    show .persistedGrants ∉ seedTables
    decide
  exact DbPart.run_on_of_missing List.mem_cons_self hmissing f k

theorem HostCall.Rejected.run_withTables {call : HostCall P} (h : call.Rejected) (s : Db P) :
    call.program.run (.withTables s) = (.error .database, .withTables s) := by
  cases call with
  | ensureSeedData clients identityResources apiResources =>
    have hfirst : .configuration .apiResources ∈ (HostDb.withTables s).created := List.mem_cons_self
    have hcreate := run_createTable_of_mem hfirst
    rw [HostCall.program, IdentityLinq.ensureSeedData, seedTables, configurationTables,
      List.cons_append, List.forM_cons, bind_assoc, Program.run_bind, hcreate]
  | insert call => exact h.elim
  | lookup l => exact h.elim
  | grants op =>
    cases op with
    | clearTokens now => exact absurd rfl (h now)
    | store token => exact run_grantsPart_withTables _ _ s
    | remove key => exact run_grantsPart_withTables _ _ s
    | removeAll subjectId clientId => exact run_grantsPart_withTables _ _ s
    | removeAllOfType subjectId clientId type => exact run_grantsPart_withTables _ _ s
  | getAsync key => exact run_grantsPart_withTables _ _ s
  | getAllAsync subjectId => exact run_grantsPart_withTables _ _ s

/-- The statement of a tick is rejected as well, and the rejection caught. -/
theorem run_tick_withTables (now : DateTime) (s : Db P) :
    (HostCall.grants (.clearTokens now)).program.run (.withTables s)
      = (.ok (), .withTables s) := by
  have hstatement : (grantsPart.on (clearTokens now)).run (HostDb.withTables s)
      = (.error .database, .withTables s) := run_grantsPart_withTables _ _ s
  rw [HostCall.program, GrantOp.program, TokenCleanup.run_clearTokens, hstatement]

theorem Lookup.readOnly (l : Lookup) : (l.program : Program (Db P) Error Unit).ReadOnly := by
  cases l with
  | findClientByIdAsync clientId =>
    exact (readOnly_findClientByIdAsync clientId).bind fun _ => trivial
  | findApiResourceAsync name =>
    have hfind : (IdentityLinq.findApiResourceAsync (P := P) name).ReadOnly :=
      (readOnly_uploadApiResources _).bind fun _ => trivial
    exact hfind.bind fun _ => trivial
  | findApiResourcesByScopeAsync scopeNames =>
    exact (readOnly_uploadApiResources _).bind fun _ => trivial
  | findIdentityResourcesByScopeAsync scopeNames =>
    exact (readOnly_uploadIdentityResources _).bind fun _ => trivial
  | getAllResources => exact readOnly_getAllResources.bind fun _ => trivial
  | isOriginAllowedAsync origin =>
    have hallowed : (IdentityLinq.isOriginAllowedAsync (P := P) origin).ReadOnly :=
      (Program.ReadOnly.query _).bind fun _ => trivial
    exact hallowed.bind fun _ => trivial

theorem run_program_snd (call : Call P) (s : Db P) : (call.program.run s).2 = call.run s := by
  have hdrop : ∀ {β : Type} (p : Program (Db P) Error β),
      ((p >>= fun _ => .ret ()).run s).2 = (p.run s).2 := by
    intro β p
    rw [Program.run_bind]
    rcases p.run s with ⟨_ | _, _⟩ <;> rfl
  cases call with
  | client c => exact hdrop _
  | apiResource r => exact hdrop _
  | identityResource r => exact hdrop _

/-- Of all calls only the inserts change the database. -/
theorem HostCall.run_snd_withTables (call : HostCall P) (s : Db P) :
    (call.program.run (.withTables s)).2 = .withTables (runCalls call.inserts s) := by
  by_cases h : call.Rejected
  · have hinserts : call.inserts = [] := by
      cases call with
      | insert call => exact h.elim
      | _ => rfl
    rw [h.run_withTables, hinserts]
    rfl
  · cases call with
    | insert call =>
      rw [HostCall.program, run_on_withTables, run_program_snd]
      rfl
    | lookup l =>
      rw [HostCall.program, run_on_withTables, l.readOnly.run_snd]
      rfl
    | grants op =>
      obtain ⟨now, rfl⟩ : ∃ now, op = .clearTokens now := by simpa [HostCall.Rejected] using h
      rw [run_tick_withTables]
      rfl
    | ensureSeedData | getAsync | getAllAsync => exact absurd trivial h

theorem runHost_withTables (calls : List (HostCall P)) (s : Db P) :
    runHost calls (.withTables s)
      = .withTables (runCalls (calls.flatMap HostCall.inserts) s) := by
  induction calls generalizing s with
  | nil => rfl
  | cons call calls ih =>
    rw [runHost, List.foldl_cons, call.run_snd_withTables, List.flatMap_cons, runCalls_append]
    exact ih _

/-- The database of the host when it has been seeded and `calls` have been made since. -/
def HostDb.Seeded (clients : List (Models.Client P (Collection String)))
    (identityResources : List (Models.IdentityResource P))
    (apiResources : List (Models.ApiResource P)) (calls : List (HostCall P)) (db : HostDb P) :
    Prop :=
  db = runHost calls ((ensureSeedData clients identityResources apiResources).run HostDb.new).2

section Seeded

variable {clients : List (Models.Client P (Collection String))}
  {identityResources : List (Models.IdentityResource P)}
  {apiResources : List (Models.ApiResource P)} {calls : List (HostCall P)} {db : HostDb P}

theorem HostDb.Seeded.eq_withTables (h : db.Seeded clients identityResources apiResources calls)
    (hclients : ∀ c ∈ clients, c.Complete) :
    db = .withTables (runCalls (calls.flatMap HostCall.inserts)
      (seeded clients identityResources apiResources)) := by
  rw [h, run_ensureSeedData hclients, runHost_withTables]

/-- **What works on the database of the host**, whatever came before.  The table of grants
is not created: the calls of the grant store throw, and so does another `EnsureSeedData`;
a tick of the cleanup goes by.  All these change nothing.  What needs the tables of the
configuration only, a `ComplexInsert` or a lookup, runs as it does on these tables. -/
theorem seeded_rejects (h : db.Seeded clients identityResources apiResources calls)
    (hclients : ∀ c ∈ clients, c.Complete) :
    (∀ call : HostCall P, call.Rejected → call.program.run db = (.error .database, db)) ∧
    (∀ now, (HostCall.grants (.clearTokens now)).program.run db = (.ok (), db)) ∧
    ∀ {β : Type} (p : Program (Db P) Error β), (configurationPart.on p).run db
      = ((p.run db.configuration).1, { db with configuration := (p.run db.configuration).2 }) := by
  rw [h.eq_withTables hclients]
  refine ⟨fun call hcall => hcall.run_withTables _, fun now => run_tick_withTables now _, ?_⟩
  exact fun p => run_on_withTables p _

/-! ### Clients of the seed -/

section StoredClient

variable {s : Db P} {c : Models.Client P (Collection String)}

/-- New rows that are not about the client. -/
theorem StoredClient.addTo (h : StoredClient s c) {δ : Rows P} (hδ : OwnersIn δ fun _ => False) :
    StoredClient (δ.addTo s) c where
  find := by
    rw [Delta.addTo_apply, Table.values_bulkCopy, List.find?_append, h.find]
    rfl
  rows := by
    intro t
    rw [ownedBy_addTo, h.rows, List.filter_eq_nil_iff.mpr, List.append_nil]
    intro x hx hdec
    exact hδ t x hx _ (of_decide_eq_true hdec)

end StoredClient

theorem flatMap_clientIds_map_client (clients : List (Models.Client P (Collection String))) :
    (clients.map Call.client).flatMap Call.clientIds = clients.map (·.clientId) := by
  induction clients with
  | nil => rfl
  | cons c clients ih => rw [List.map_cons, List.flatMap_cons, ih]; rfl

theorem ownersIn_parents (xs : List (Models.ResourceColumns P.IdentityResourceScalars))
    (ys : List (Models.ResourceColumns P.ApiResourceScalars)) (p : Owner → Prop) :
    OwnersIn (.single .identityResources xs) p ∧ OwnersIn (.single .apiResources ys) p :=
  ⟨.single_none fun _ => rfl, .single_none fun _ => rfl⟩

theorem storedClient_seeded (hclients : ∀ c ∈ clients, c.Complete)
    (hids : (clients.map (·.clientId)).Nodup) {c : Models.Client P (Collection String)}
    (hc : c ∈ clients) : StoredClient (seeded clients identityResources apiResources) c := by
  obtain ⟨pre, post, rfl⟩ := List.append_of_mem hc
  rw [List.map_append, List.map_cons] at hids
  obtain ⟨-, hcons, hdisjoint⟩ := List.nodup_append.mp hids
  have hpre : c.clientId ∉ (pre.map Call.client).flatMap Call.clientIds := by
    rw [flatMap_clientIds_map_client]
    exact fun hin => hdisjoint _ hin _ List.mem_cons_self rfl
  have hpost : c.clientId ∉ (post.map Call.client).flatMap Call.clientIds := by
    rw [flatMap_clientIds_map_client]
    exact (List.nodup_cons.mp hcons).1
  have hnew : ¬ HasOwner (Store.empty : Db P) (.client c.clientId) := by
    rintro ⟨x, hx, -⟩
    exact List.not_mem_nil hx
  have hstored := storedClient_runCalls owned_empty (hclients c hc) hnew hpre hpost
  have hparents := ownersIn_parents (identityResources.map (·.toResourceColumns))
    (apiResources.map (·.toResourceColumns)) fun _ => False
  rw [seeded, List.map_append, List.map_cons]
  exact (hstored.addTo hparents.1).addTo hparents.2

/-! ### Resources of the seed -/

/-- The resources as `BulkCopy` stores them. -/
def Models.IdentityResource.bare (r : Models.IdentityResource P) : Models.IdentityResource P :=
  { r with userClaims := some [] }

def Models.ApiResource.bare (r : Models.ApiResource P) : Models.ApiResource P :=
  { r with apiSecrets := some [], scopes := some [], userClaims := some [] }

theorem owned_seeded : Owned (seeded clients identityResources apiResources) := by
  have hparents := fun s : Db P => ownersIn_parents (identityResources.map (·.toResourceColumns))
    (apiResources.map (·.toResourceColumns)) (HasOwner s)
  exact ((owned_runCalls _).addTo (hparents _).1).addTo (hparents _).2

/-- The clients of the seed leave tables alone that are not about clients. -/
theorem runCalls_clients_apply {t : TableName}
    (ht : ∀ c : Models.Client P (Collection String), ∀ δ ∈ c.inserts, δ t = [])
    (clients : List (Models.Client P (Collection String))) (s : Db P) :
    runCalls (clients.map .client) s t = s t := by
  induction clients generalizing s with
  | nil => rfl
  | cons c clients ih =>
    rw [List.map_cons, runCalls_cons, ih]
    exact ((Call.client c).written_run s).apply_eq (ht c)

theorem identityResources_seeded :
    seeded clients identityResources apiResources .identityResources
      = Table.empty.bulkCopy (identityResources.map (·.toResourceColumns)) := by
  have hclients := @runCalls_clients_apply P .identityResources
    (by simp [Models.Client.inserts, Models.Client.childInserts]) clients Store.empty
  simp [seeded, hclients, Store.empty]

theorem apiResources_seeded :
    seeded clients identityResources apiResources .apiResources
      = Table.empty.bulkCopy (apiResources.map (·.toResourceColumns)) := by
  have hclients := @runCalls_clients_apply P .apiResources
    (by simp [Models.Client.inserts, Models.Client.childInserts]) clients Store.empty
  simp [seeded, hclients, Store.empty]

theorem length_apiResources_seeded :
    (seeded clients identityResources apiResources .apiResources).rows.length
      = apiResources.length := by
  rw [← @List.length_map _ _ _ Row.cols, apiResources_seeded, Table.rows_bulkCopy, Table.empty,
    List.nil_append, map_cols_number, List.length_map]

theorem children_addTo_of_ownersIn {δ : Rows P} (hδ : OwnersIn δ fun _ => False) (s : Db P)
    (t : TableName) (o : Owner) : children (δ.addTo s) t o = children s t o := by
  rw [children_addTo, List.filter_eq_nil_iff.mpr, List.append_nil]
  intro x hx hdec
  exact hδ t x.cols (mem_of_mem_number hx) o (of_decide_eq_true hdec)

/-- The resources of the seed have no rows but their own. -/
theorem children_seeded {o : Owner} (ho : ∀ id, o ≠ .client id) (t : TableName) :
    children (seeded clients identityResources apiResources) t o = [] := by
  have hparents := ownersIn_parents (identityResources.map (·.toResourceColumns))
    (apiResources.map (·.toResourceColumns)) fun _ => False
  rw [seeded, children_addTo_of_ownersIn hparents.2, children_addTo_of_ownersIn hparents.1]
  refine (owned_runCalls _).children_eq_nil (fun hown => ?_) t
  have htable : ∀ t : TableName,
      (∀ c : Models.Client P (Collection String), ∀ δ ∈ c.inserts, δ t = []) →
      (runCalls (clients.map .client) (Store.empty : Db P) t).rows = [] := by
    intro t ht
    rw [runCalls_clients_apply ht]
    rfl
  cases o with
  | client id => exact ho id rfl
  | apiResource id =>
    obtain ⟨r, hr, -⟩ := hown
    rw [htable .apiResources (by simp [Models.Client.inserts, Models.Client.childInserts])] at hr
    exact absurd hr List.not_mem_nil
  | apiScope id =>
    obtain ⟨r, hr, -⟩ := hown
    rw [htable .apiScopes (by simp [Models.Client.inserts, Models.Client.childInserts])] at hr
    exact absurd hr List.not_mem_nil
  | identityResource id =>
    obtain ⟨r, hr, -⟩ := hown
    rw [htable .identityResources
      (by simp [Models.Client.inserts, Models.Client.childInserts])] at hr
    exact absurd hr List.not_mem_nil

/-- Nor do they get any later. -/
theorem children_runCalls_seeded {row : ApiResourceRow P}
    (hrow : row ∈ (seeded clients identityResources apiResources .apiResources).rows)
    (calls : List (Call P)) (t : TableName) :
    children (runCalls calls (seeded clients identityResources apiResources)) t
      (.apiResource row.id) = [] := by
  have hown : HasOwner (seeded clients identityResources apiResources) (.apiResource row.id) :=
    ⟨row, hrow, rfl⟩
  rw [children_runCalls_of_hasOwner hown fun _ => by simp]
  exact children_seeded (fun _ => by simp) t

/-- An API resource of the later database is one of the seed, or has a greater id. -/
theorem mem_apiResources_seeded {calls : List (Call P)} {row : ApiResourceRow P}
    (hrow : row ∈ (runCalls calls (seeded clients identityResources apiResources)
      .apiResources).rows) :
    row ∈ (seeded clients identityResources apiResources .apiResources).rows ∨
      apiResources.length < row.id := by
  rw [apiResources_runCalls, Table.rows_bulkCopy] at hrow
  refine (List.mem_append.mp hrow).imp_right fun hnew => ?_
  have hle := (number_id_bounds hnew).1
  rw [apiResources_seeded, Table.next_bulkCopy, List.length_map] at hle
  exact lt_of_lt_of_le (Nat.lt_add_of_pos_left Nat.one_pos) hle

/-- Loaded without children. -/
theorem contentUnder_of_children_eq_nil {s : Db P} {row : ApiResourceRow P}
    (h : ∀ t, children s t (.apiResource row.id) = []) (m : ℕ → ℕ) :
    contentUnder m s row = ⟨row.cols, some 0, some 0, some 0⟩ := by
  simp [contentUnder, ownedBy, h]

theorem storedIdentities_seeded :
    (seeded clients identityResources apiResources .identityResources).rows.map
        (storedIdentity (seeded clients identityResources apiResources))
      = (identityResources.map Models.IdentityResource.bare).map fun r => r.stored.content := by
  have hbare : storedIdentity (seeded clients identityResources apiResources)
      = (fun cols => ⟨cols, some 0⟩) ∘ Row.cols := by
    funext row
    rw [storedIdentity, ownedBy, children_seeded fun _ => by simp]
    rfl
  rw [hbare, identityResources_seeded, Table.rows_bulkCopy, Table.empty, List.nil_append,
    ← List.map_map, map_cols_number, List.map_map, List.map_map]
  exact List.map_congr_left fun r _ => rfl

/-- The identity resources found after the seed and some inserts. -/
theorem exists_identityResourcesByScope_seeded (inserts : List (Call P))
    (scopeNames : List String) :
    ∃ xs, ((findIdentityResourcesByScopeAsync scopeNames).run
        (runCalls inserts (seeded clients identityResources apiResources))).1 = .ok xs ∧
      xs.map (fun x => x.content)
        = ((identityResources.map Models.IdentityResource.bare
            ++ inserts.flatMap Call.identityResources).filter
              fun r => decide (r.name ∈ scopeNames)).map fun r => r.stored.content := by
  have hstored := storedIdentities_runCalls inserts
    (@owned_seeded _ clients identityResources apiResources)
  rw [storedIdentities_seeded, ← List.map_append] at hstored
  obtain ⟨xs, hxs, hcontents⟩ := exists_identityResourcesByScope
    (runCalls inserts (seeded clients identityResources apiResources)) scopeNames
  refine ⟨xs, hxs, ?_⟩
  rw [hcontents, hstored, List.filter_map]
  rfl

/-- **What the host's database can be asked for.**  After `EnsureSeedData` and whatever
other calls: the clients are found as they were, their claims blanked; the identity
resources are found, without claims; of the API resources `GetAllResources` returns the
scalar members, and no lookup by scope returns one of them. -/
theorem seeded_lookups (h : db.Seeded clients identityResources apiResources calls)
    (hclients : ∀ c ∈ clients, c.Complete)
    (hids : (clients.map (·.clientId)
      ++ (calls.flatMap HostCall.inserts).flatMap Call.clientIds).Nodup) :
    (∀ c ∈ clients, ∃ x, ((findClientByIdAsync c.clientId).run db.configuration).1
        = .ok (some x) ∧ contentOn db.configuration x = c.blank.content) ∧
    (∀ scopeNames, ∃ xs, ((findIdentityResourcesByScopeAsync scopeNames).run
        db.configuration).1 = .ok xs ∧
      xs.map (fun x => x.content)
        = ((identityResources.map Models.IdentityResource.bare
            ++ (calls.flatMap HostCall.inserts).flatMap Call.identityResources).filter
              fun r => decide (r.name ∈ scopeNames)).map fun r => r.stored.content) ∧
    (∀ scopeNames, ∃ apis, ((findApiResourcesByScopeAsync scopeNames).run
        db.configuration).1 = .ok apis ∧ ∀ a ∈ apis, apiResources.length < a.id) ∧
    ∃ all, (getAllResources.run db.configuration).1 = .ok all ∧
      (all.apiResources.take apiResources.length).map (fun x => x.content)
        = apiResources.map fun r => r.bare.content := by
  have hdb : db.configuration = runCalls (calls.flatMap HostCall.inserts)
      (seeded clients identityResources apiResources) :=
    congrArg HostDb.configuration (h.eq_withTables hclients)
  rw [hdb]
  generalize calls.flatMap HostCall.inserts = inserts at hids
  obtain ⟨hclientIds, -, hdisjoint⟩ := List.nodup_append.mp hids
  refine ⟨fun c hc => ?_, fun scopeNames => ?_, fun scopeNames => ?_, ?_⟩
  · have hnot : c.clientId ∉ inserts.flatMap Call.clientIds :=
      fun hin => hdisjoint _ (List.mem_map_of_mem hc) _ hin rfl
    have hstored := (@storedClient_seeded _ _ identityResources apiResources hclients hclientIds
      c hc).runCalls hnot
    obtain ⟨x, hx, hcontent⟩ := hstored.run_find (hclients c hc)
    exact ⟨x, by rw [hx], hcontent⟩
  · exact exists_identityResourcesByScope_seeded inserts scopeNames
  · refine ⟨_, by rw [run_findApiResourcesByScopeAsync], fun a ha => ?_⟩
    obtain ⟨row, hrow, rfl⟩ := List.mem_map.mp ha
    obtain ⟨hmem, hpos⟩ := mem_apiResourcesByScope.mp hrow
    refine (mem_apiResources_seeded hmem).resolve_left fun hseed => ?_
    -- A resource of the seed has no scope that could match.
    obtain ⟨scope, hscope, hid, -⟩ := matchingScopes_pos_iff.mp hpos
    have hchild : scope ∈ children (runCalls inserts
        (seeded clients identityResources apiResources)) .apiScopes (.apiResource row.id) :=
      List.mem_filter.mpr ⟨hscope, decide_eq_true (by rw [owner, hid])⟩
    rw [children_runCalls_seeded hseed] at hchild
    exact List.not_mem_nil hchild
  · refine ⟨_, by rw [run_getAllResources], ?_⟩
    have hrows : ((runCalls inserts (seeded clients identityResources apiResources)
        .apiResources).rows).take apiResources.length
          = (seeded clients identityResources apiResources .apiResources).rows := by
      rw [apiResources_runCalls, Table.rows_bulkCopy]
      exact List.take_left' length_apiResources_seeded
    have hbare : ∀ row ∈ (seeded clients identityResources apiResources .apiResources).rows,
        (loadApiResource (fun db => (db .apiResources).rows)
          (runCalls inserts (seeded clients identityResources apiResources)) row).content
          = ((fun cols => ⟨cols, some 0, some 0, some 0⟩) ∘ Row.cols) row := by
      intro row hrow
      rw [content_loadApiResource,
        contentUnder_of_children_eq_nil (children_runCalls_seeded hrow _)]
      rfl
    rw [← List.map_take, hrows, List.map_map]
    refine (List.map_congr_left hbare).trans ?_
    rw [← List.map_map, apiResources_seeded, Table.rows_bulkCopy, Table.empty, List.nil_append,
      map_cols_number, List.map_map]
    exact List.map_congr_left fun r _ => rfl

end Seeded

/-- A host with one client and two resources, which inserts another API resource later. -/
def plainHost : HostDb Platform.plain :=
  runHost [.insert (.apiResource (plainApiResource "late" ["late.read"]))]
    ((ensureSeedData [plainClient "app" []] [plainIdentityResource "profile" ["name"]]
      [plainApiResource "api" ["api.read"]]).run HostDb.new).2

theorem plainClient_mem_complete :
    ∀ c ∈ [plainClient "app" []], c.Complete := by
  intro c hc
  rw [List.mem_singleton.mp hc]
  exact plainClient_complete _ _

/-- A grant cannot be stored; a tick goes by; the client of the seed is found. -/
theorem seeded_rejects_plainHost :
    (HostCall.grants (.store (plainGrant "app"))).program.run plainHost
      = (.error .database, plainHost) ∧
    (HostCall.grants (.clearTokens 1)).program.run plainHost = (.ok (), plainHost) ∧
    ∃ x, ((configurationPart.on (findClientByIdAsync "app")).run plainHost).1 = .ok (some x) := by
  have hseeded : plainHost.Seeded _ _ _ _ := rfl
  obtain ⟨hrejected, htick, hrun⟩ := seeded_rejects hseeded plainClient_mem_complete
  refine ⟨hrejected _ fun _ => ?_, htick 1, ?_⟩
  · simp
  · rw [hrun, hseeded.eq_withTables plainClient_mem_complete]
    exact ⟨_, rfl⟩

/-- The API resource of the seed is not found by its scope, the later one is. -/
theorem seeded_lookups_plainHost :
    (∃ x, ((findClientByIdAsync "app").run plainHost.configuration).1 = .ok (some x)) ∧
    ∃ apis, ((findApiResourcesByScopeAsync ["api.read", "late.read"]).run
        plainHost.configuration).1 = .ok apis ∧ apis.length = 1 ∧ ∀ a ∈ apis, 1 < a.id := by
  obtain ⟨hclient, -, hapi, -⟩ := seeded_lookups (show plainHost.Seeded _ _ _ _ from rfl)
    plainClient_mem_complete (by decide)
  obtain ⟨x, hx, -⟩ := hclient _ List.mem_cons_self
  obtain ⟨apis, hapis, hid⟩ := hapi ["api.read", "late.read"]
  have hone : ∃ apis, ((findApiResourcesByScopeAsync ["api.read", "late.read"]).run
      plainHost.configuration).1 = .ok apis ∧ apis.length = 1 := by
    rw [(show plainHost.Seeded _ _ _ _ from rfl).eq_withTables plainClient_mem_complete]
    exact ⟨_, rfl, rfl⟩
  obtain ⟨apis', hapis', hlength⟩ := hone
  obtain rfl : apis = apis' := Except.ok.inj (hapis.symm.trans hapis')
  exact ⟨⟨x, hx⟩, apis, hapis, hlength, hid⟩

end IdentityLinq
