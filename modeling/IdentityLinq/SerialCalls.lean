/-
Concurrent `ComplexInsert` calls against calls one after the other.

When all the calls have returned, the store they have filled together is asked the same
questions as one that was filled by the calls in some order, one by one.  The rows are
not in the same order and have other ids; but a client has the same rows of its own in
both, the tables without ids of others have the same rows, and an identity resource
has its claims under its own id, whatever it is.

* `SameClient.lookup_eq` — a lookup depends on the client's own rows only;
* `lookups_serializable` — so clients, origins and identity resources are found as after
  the calls one by one, in any order.

API resources are not found so: see `apiResource_beside_calls_iff`.
-/
import IdentityLinq.ConcurrentLookups

namespace IdentityLinq

variable {P : Platform}

/-! ### What a lookup depends on -/

/-- What `FindClientByIdAsync` returns on `s`, to a caller who enumerates it there. -/
def lookupClient (s : Db P) (clientId : String) : Except Error (Option (ClientContent P)) :=
  ((findClientByIdAsync clientId).run s).1.map (Option.map (contentOn s))

/-- Both stores have the same rows for the client. -/
structure SameClient (s s' : Db P) (clientId : String) : Prop where
  find : (s .clients).values.find? (fun x => decide (x.clientId = clientId))
    = (s' .clients).values.find? (fun x => decide (x.clientId = clientId))
  rows : ∀ t, ownedBy s t (.client clientId) = ownedBy s' t (.client clientId)

theorem SameClient.lookup_eq {s s' : Db P} {clientId : String} (h : SameClient s s' clientId) :
    lookupClient s clientId = lookupClient s' clientId := by
  have hnone : ∀ s : Db P, (s .clients).values.find? (fun x => decide (x.clientId = clientId))
      = none → lookupClient s clientId = .ok none := by
    intro s hfind
    have hnot : ∀ x ∈ (s .clients).values, x.clientId ≠ clientId := by
      intro x hx hid
      exact absurd (decide_eq_true hid) (List.find?_eq_none.mp hfind x hx)
    rw [lookupClient, run_findClientByIdAsync_none hnot]
    rfl
  cases hfind : (s .clients).values.find? (fun x => decide (x.clientId = clientId)) with
  | none => rw [hnone s hfind, hnone s' (h.find ▸ hfind)]
  | some client =>
    have hid : client.clientId = clientId := by simpa using List.find?_some hfind
    have hcontent : contentOn s (loadClient s client) = contentOn s' (loadClient s' client) := by
      simp only [contentOn, Models.Client.content, loadClient, grantTypesQuery_eq, hid, h.rows]
    rw [lookupClient, lookupClient, run_findClientByIdAsync_some hfind,
      run_findClientByIdAsync_some (h.find ▸ hfind), grantTypesQuery_eq, grantTypesQuery_eq,
      h.rows]
    split
    · show Except.ok (some _) = Except.ok (some _)
      rw [hcontent]
    · rfl

theorem StoredClient.sameClient {s s' : Db P} {c : Models.Client P (Collection String)}
    (h : StoredClient s c) (h' : StoredClient s' c) : SameClient s s' c.clientId where
  find := h.find.trans h'.find.symm
  rows := fun t => (h.rows t).trans (h'.rows t).symm

/-! ### The calls one by one -/

section Serial

variable {κ : Type} {calls : κ → Call P} {db₀ : Db P} {order : List κ}

theorem mem_clientIds_map {id : String} :
    id ∈ (order.map calls).flatMap Call.clientIds ↔ ∃ k ∈ order, id ∈ (calls k).clientIds := by
  rw [List.flatMap_map, List.mem_flatMap]

/-- No other call of the order is for the client. -/
theorem NewClient.notMem {id : String} (hnew : NewClient db₀ calls id) {k : κ}
    (hid : id ∈ (calls k).clientIds) (hk : k ∉ order) :
    id ∉ (order.map calls).flatMap Call.clientIds := by
  intro hmem
  obtain ⟨k', hk', hid'⟩ := mem_clientIds_map.mp hmem
  obtain rfl := hnew.distinct k k' hid hid'
  exact hk hk'

/-- A client of the calls is stored when it has had its turn. -/
theorem storedClient_serial (h₀ : Owned db₀) {c : Models.Client P (Collection String)}
    (hnew : NewClient db₀ calls c.clientId) (hnodup : order.Nodup) {k : κ} (hk : k ∈ order)
    (hcall : calls k = .client c) (hc : c.Complete) :
    StoredClient (runCalls (order.map calls) db₀) c := by
  obtain ⟨pre, post, rfl⟩ := List.append_of_mem hk
  have hid : c.clientId ∈ (calls k).clientIds := by simp [hcall, Call.clientIds]
  obtain ⟨-, hcons, hdisjoint⟩ := List.nodup_append.mp hnodup
  have hpre : c.clientId ∉ (pre.map calls).flatMap Call.clientIds :=
    hnew.notMem hid fun hin => hdisjoint k hin k List.mem_cons_self rfl
  have hpost := hnew.notMem hid (List.nodup_cons.mp hcons).1
  rw [List.map_append, List.map_cons, hcall]
  exact storedClient_runCalls h₀ hc hnew.notStored hpre hpost

/-- A client of none of the calls has the rows it had. -/
theorem sameClient_runCalls {id : String} (hid : ∀ k, id ∉ (calls k).clientIds) :
    SameClient (runCalls (order.map calls) db₀) db₀ id := by
  have hnot : id ∉ (order.map calls).flatMap Call.clientIds := by
    intro hmem
    obtain ⟨k, -, hk⟩ := mem_clientIds_map.mp hmem
    exact hid k hk
  constructor
  · have hnone : ((order.map calls).flatMap Call.clientColumns).find?
        (fun x => decide (x.clientId = id)) = none := by
      rw [List.find?_eq_none]
      intro x hx hdec
      exact hnot (of_decide_eq_true hdec ▸ clientId_of_mem_flatMap hx)
    rw [clients_runCalls, Table.values_bulkCopy, List.find?_append, hnone, Option.or_none]
  · intro t
    rw [ownedBy, children_runCalls_of_notMem hnot, ownedBy]

/-- The rows the call adds to the table of origins when it returns. -/
def Call.corsOrigins : Call P → List Entities.ClientCorsOrigin
  | client c => (c.allowedCorsOrigins.getD []).map fun x => ⟨x, c.clientId⟩
  | apiResource _ => []
  | identityResource _ => []

theorem Models.ApiResource.sum_corsOrigins (r : Models.ApiResource P) (id : ℕ)
    (scopes : List (Models.Scope × ℕ)) :
    Delta.sum (r.insertsUnder id scopes) .clientCorsOrigins = [] := by
  rw [sum_inserts_apply]
  simp [Models.Scope.inserts]

theorem Models.Client.sum_corsOrigins (c : Models.Client P (Collection String)) :
    Delta.sum c.inserts .clientCorsOrigins = (Call.client c).corsOrigins :=
  Models.Client.sum_inserts (by simp [Models.Client.tableRows, Call.corsOrigins])

theorem Call.corsOrigins_run {call : Call P} (hcall : call.Complete) (db : Db P) :
    (call.run db .clientCorsOrigins).values
      = (db .clientCorsOrigins).values ++ call.corsOrigins := by
  rw [call.run_of_complete hcall, Delta.addTo_apply, Table.values_bulkCopy]
  congr 1
  cases call with
  | client c => exact c.sum_corsOrigins
  | apiResource r =>
    rw [Call.inserts, Models.ApiResource.inserts_eq]
    exact r.sum_corsOrigins _ _
  | identityResource r => simp [Call.inserts, Models.IdentityResource.inserts, Call.corsOrigins]

theorem corsOrigins_runCalls {calls : List (Call P)} (hcalls : ∀ call ∈ calls, call.Complete)
    (db : Db P) : (runCalls calls db .clientCorsOrigins).values
      = (db .clientCorsOrigins).values ++ calls.flatMap Call.corsOrigins := by
  induction calls generalizing db with
  | nil => exact (List.append_nil _).symm
  | cons call calls ih =>
    obtain ⟨hcall, hcalls⟩ := List.forall_mem_cons.mp hcalls
    rw [runCalls_cons, ih hcalls, call.corsOrigins_run hcall, List.flatMap_cons, List.append_assoc]

/-- And in every interleaving. -/
theorem Call.Wrote.corsOrigins {call : Call P} {L : CallLog P} (h : call.Wrote L) :
    Log.cols L .clientCorsOrigins = call.corsOrigins := by
  cases call with
  | client c => exact (congrFun h _).trans c.sum_corsOrigins
  | apiResource r =>
    obtain ⟨id, scopes, -, hsum, -, -⟩ := h
    rw [hsum]
    exact r.sum_corsOrigins _ _
  | identityResource r =>
    obtain ⟨id, hsum, -⟩ := h
    rw [hsum]
    simp [Models.IdentityResource.inserts, Call.corsOrigins]

end Serial

/-! ### The calls at the same time -/

section Pool

variable {κ : Type} {calls : κ → Call P} {db₀ : Db P}
  {x : Pool (TableName.Columns P) Error Unit κ} {order : List κ}

/-- What is known of the pool once all calls have returned. -/
structure Finished (db₀ : Db P) (calls : κ → Call P)
    (x : Pool (TableName.Columns P) Error Unit κ) : Prop where
  sound : CallsSound db₀ calls x
  ordered : Pool.Ordered x
  rows : ∀ t, ∃ new, (x.store t).rows = (db₀ t).rows ++ new ∧ ∀ r ∈ new, ∃ k, r ∈ x.wrote k t
  complete : ∀ k, (calls k).Complete
  wrote : ∀ k, (calls k).Wrote (x.wrote k)

theorem finished_of_reaches [DecidableEq κ]
    (hx : Pool.Reaches (.start db₀ fun k => (calls k).program) x)
    (hret : ∀ k, x.left k = .ret ()) : Finished db₀ calls x where
  sound := Pool.sound_of_reaches (fun k => (calls k).writes_program) hx
  ordered := Pool.ordered_of_reaches (fun k => (calls k).writes_program) hx
  rows := Pool.rows_of_reaches (fun k => (calls k).writes_program) hx
  complete := fun k => (settled_of_reaches hx (hret k) .refl).complete
  wrote := fun k => (settled_of_reaches hx (hret k) .refl).wrote

/-- An owner that no call has written has the rows it had. -/
theorem Finished.children_eq (h : Finished db₀ calls x) {o : Owner}
    (ho : ∀ k, ¬ HasOwnerIn (x.wrote k) o) (t : TableName) :
    children x.store t o = children db₀ t o := by
  obtain ⟨new, hrows, hnew⟩ := h.rows t
  have hnone : new.filter (fun r => decide (owner t r.cols = some o)) = [] := by
    rw [List.filter_eq_nil_iff]
    intro r hr hdec
    obtain ⟨k, hk⟩ := hnew r hr
    exact ho k ((h.sound.owns k).owned t r hk o (of_decide_eq_true hdec))
  rw [children, hrows, List.filter_append, hnone, List.append_nil, children]

/-- A client of none of the calls. -/
theorem Finished.sameClient (h : Finished db₀ calls x) {id : String}
    (hid : ∀ k, id ∉ (calls k).clientIds) : SameClient x.store db₀ id := by
  have hnone : ∀ k, ¬ HasOwnerIn (x.wrote k) (.client id) := by
    rintro k ⟨r, hr, rfl⟩
    exact hid k ((h.sound.owns k).clientIds r hr)
  refine ⟨?_, fun t => ?_⟩
  · obtain ⟨new, hrows, hnew⟩ := h.rows .clients
    have hnew' : (new.map Row.cols).find? (fun x => decide (x.clientId = id)) = none := by
      rw [List.find?_eq_none]
      intro c hc hdec
      obtain ⟨r, hr, rfl⟩ := List.mem_map.mp hc
      obtain ⟨k, hk⟩ := hnew r hr
      exact hnone k ⟨r, hk, of_decide_eq_true hdec⟩
    rw [Table.values, hrows, List.map_append, List.find?_append, hnew', Option.or_none]
    rfl
  · rw [ownedBy, h.children_eq hnone, ownedBy]

theorem Finished.corsOrigins_perm (h : Finished db₀ calls x) (hnodup : order.Nodup)
    (hall : ∀ k, k ∈ order) :
    ((x.store .clientCorsOrigins).values).Perm
      ((db₀ .clientCorsOrigins).values ++ (order.map calls).flatMap Call.corsOrigins) := by
  have hperm := (h.sound.rows_perm hnodup hall .clientCorsOrigins).map Row.cols
  rw [List.map_append, List.map_flatMap] at hperm
  have hlogs : (order.flatMap fun k => (x.wrote k .clientCorsOrigins).map Row.cols)
      = (order.map calls).flatMap Call.corsOrigins := by
    rw [List.flatMap_map]
    exact congrArg (List.flatMap · order) (funext fun k => (h.wrote k).corsOrigins)
  rwa [hlogs] at hperm

/-! ### Identity resources -/

/-- The rows that one call has added, with their claims. -/
theorem Finished.storedIdentities_wrote (h : Finished db₀ calls x) (h₀ : Owned db₀) (k : κ) :
    (x.wrote k .identityResources).map (storedIdentity x.store)
      = (calls k).identityResources.map fun r => r.stored.content := by
  have hwrote := h.wrote k
  have hcomplete := h.complete k
  cases hcall : calls k with
  | client c =>
    rw [hcall] at hwrote
    have hcols : Log.cols (x.wrote k) .identityResources = [] := by
      rw [show Log.cols (x.wrote k) = _ from hwrote]
      simp [Models.Client.inserts, Models.Client.childInserts]
    rw [List.map_eq_nil_iff.mp hcols]
    rfl
  | apiResource r =>
    rw [hcall] at hwrote
    obtain ⟨id, scopes, -, hsum, -, -⟩ := hwrote
    have hcols : Log.cols (x.wrote k) .identityResources = [] := by
      rw [hsum, sum_inserts_apply]
      simp [Models.Scope.inserts]
    rw [List.map_eq_nil_iff.mp hcols]
    rfl
  | identityResource r =>
    rw [hcall] at hwrote hcomplete
    obtain ⟨id, hsum, hids⟩ := hwrote
    have hrow : x.wrote k .identityResources = [⟨id, r.toResourceColumns⟩] := by
      refine eq_singleton_of_ids_of_cols hids ((congrFun hsum _).trans ?_)
      simp [Models.IdentityResource.inserts]
    have hstored := h.sound.storedResource h.ordered h₀ hsum hrow
    rw [hrow, List.map_singleton, storedIdentity, hstored.claims, List.map_map]
    simp [Call.identityResources, Models.IdentityResource.content, Models.IdentityResource.stored,
      Function.comp_def]

theorem Finished.storedIdentities_perm (h : Finished db₀ calls x) (h₀ : Owned db₀)
    (hnodup : order.Nodup) (hall : ∀ k, k ∈ order) :
    ((x.store .identityResources).rows.map (storedIdentity x.store)).Perm
      ((runCalls (order.map calls) db₀ .identityResources).rows.map
        (storedIdentity (runCalls (order.map calls) db₀))) := by
  have hperm := (h.sound.rows_perm hnodup hall .identityResources).map (storedIdentity x.store)
  have hlogs : (order.flatMap fun k => (x.wrote k .identityResources).map (storedIdentity x.store))
      = ((order.map calls).flatMap Call.identityResources).map fun r => r.stored.content := by
    rw [List.map_flatMap, List.flatMap_map]
    exact congrArg (List.flatMap · order) (funext fun k => h.storedIdentities_wrote h₀ k)
  have hstart : (db₀ .identityResources).rows.map (storedIdentity x.store)
      = (db₀ .identityResources).rows.map (storedIdentity db₀) := by
    refine List.map_congr_left fun row hrow => ?_
    have hnone : ∀ k, ¬ HasOwnerIn (x.wrote k) (.identityResource row.id) :=
      fun k hk => h.sound.not_hasOwner_start hk trivial ⟨row, hrow, rfl⟩
    rw [storedIdentity, ownedBy, h.children_eq hnone, ← ownedBy, storedIdentity]
  rw [List.map_append, List.map_flatMap, hlogs, hstart] at hperm
  rwa [storedIdentities_runCalls _ h₀]

/-! ### Serializability -/

variable [DecidableEq κ]

/-- **Concurrent calls can be put in any order.**  When all calls have returned, clients,
origins and identity resources are looked up as if the calls had been made one after
another.  The clients looked up are those of one call that were not there before, and
those of no call. -/
theorem lookups_serializable (h₀ : Owned db₀)
    (hx : Pool.Reaches (.start db₀ fun k => (calls k).program) x)
    (hret : ∀ k, x.left k = .ret ()) (hnodup : order.Nodup) (hall : ∀ k, k ∈ order) :
    (∀ clientId, (∀ k, clientId ∈ (calls k).clientIds → NewClient db₀ calls clientId) →
      lookupClient x.store clientId
        = lookupClient (runCalls (order.map calls) db₀) clientId) ∧
    (∀ origin, OriginAllowed x.store origin
      ↔ OriginAllowed (runCalls (order.map calls) db₀) origin) ∧
    (∀ scopeNames, ∃ xs ys,
      ((findIdentityResourcesByScopeAsync scopeNames).run x.store).1 = .ok xs ∧
      ((findIdentityResourcesByScopeAsync scopeNames).run
        (runCalls (order.map calls) db₀)).1 = .ok ys ∧
      (xs.map fun x => x.content).Perm (ys.map fun x => x.content)) ∧
    ∃ all all', (getAllResources.run x.store).1 = .ok all ∧
      (getAllResources.run (runCalls (order.map calls) db₀)).1 = .ok all' ∧
      (all.identityResources.map fun x => x.content).Perm
        (all'.identityResources.map fun x => x.content) := by
  have h := finished_of_reaches hx hret
  have hstored := h.storedIdentities_perm h₀ hnodup hall
  refine ⟨fun clientId hnew => ?_, fun origin => ?_, fun scopeNames => ?_, ?_⟩
  · by_cases hin : ∃ k, clientId ∈ (calls k).clientIds
    · obtain ⟨k, hk⟩ := hin
      cases hcall : calls k with
      | client c =>
        have hnew := hnew k hk
        rw [hcall] at hk
        obtain rfl : clientId = c.clientId := List.mem_singleton.mp hk
        have hwrote := h.wrote k
        have hcomplete := h.complete k
        rw [hcall] at hwrote hcomplete
        have hstored := h.sound.storedClient h.ordered h₀ hnew hwrote
        have hserial := storedClient_serial h₀ hnew hnodup (hall k) hcall hcomplete
        exact (hstored.sameClient hserial).lookup_eq
      | apiResource r => exact absurd (hcall ▸ hk) List.not_mem_nil
      | identityResource r => exact absurd (hcall ▸ hk) List.not_mem_nil
    · have hnone : ∀ k, clientId ∉ (calls k).clientIds := fun k hk => hin ⟨k, hk⟩
      have hserial : SameClient (runCalls (order.map calls) db₀) db₀ clientId :=
        sameClient_runCalls hnone
      exact (h.sameClient hnone).lookup_eq.trans hserial.lookup_eq.symm
  · have hperm := h.corsOrigins_perm hnodup hall
    have hcomplete : ∀ call ∈ order.map calls, call.Complete := by
      intro call hcall
      obtain ⟨k, -, rfl⟩ := List.mem_map.mp hcall
      exact h.complete k
    rw [← corsOrigins_runCalls hcomplete] at hperm
    simp only [originAllowed_iff, hperm.mem_iff]
  · obtain ⟨xs, hxs, hcontents⟩ := exists_identityResourcesByScope x.store scopeNames
    obtain ⟨ys, hys, hcontents'⟩ :=
      exists_identityResourcesByScope (runCalls (order.map calls) db₀) scopeNames
    refine ⟨xs, ys, hxs, hys, ?_⟩
    rw [hcontents, hcontents']
    exact hstored.filter _
  · refine ⟨_, _, by rw [run_getAllResources], by rw [run_getAllResources], ?_⟩
    rwa [map_content_loadIdentityResource (List.Sublist.refl _),
      map_content_loadIdentityResource (List.Sublist.refl _)]

/-- The client is inserted between the two statements for the identity resource. -/
theorem lookups_serializable_clientBesideResource :
    ∃ x, Pool.Reaches (.start Store.empty fun k => (clientBesideResource k).program) x ∧
      (∀ k, x.left k = .ret ()) ∧
      ∀ clientId, lookupClient x.store clientId = lookupClient
        (runCalls ([true, false].map clientBesideResource) Store.empty) clientId := by
  have hclient : ∀ {w : Pool (TableName.Columns Platform.plain) Error Unit Bool},
      Pool.Reaches (.start Store.empty fun k => (clientBesideResource k).program) w →
      ∃ y, Pool.Reaches (.start Store.empty fun k => (clientBesideResource k).program) y ∧
        y.left true = Program.final ((w.left true).run w.store).1 ∧
        y.left false = w.left false := by
    intro w hw
    obtain ⟨y, hy, hleft, -, hothers⟩ := Pool.exists_ended w true
    exact ⟨y, hw.trans hy, hleft, hothers false (by simp)⟩
  obtain ⟨y, hy, hleft, hother⟩ := hclient (.single (.statement (k := false) (.exec _ _ _)))
  obtain ⟨x, hx, hresource, -, hothers⟩ := Pool.exists_ended y false
  rw [hother] at hresource
  have hret : ∀ k, x.left k = .ret ()
    | true => (hothers true (by simp)).trans hleft
    | false => hresource
  have hreaches := hy.trans hx
  refine ⟨x, hreaches, hret, fun clientId => ?_⟩
  exact (lookups_serializable owned_empty hreaches hret (show [true, false].Nodup by simp)
    fun k => by cases k <;> simp).1 clientId fun _ => newClients_clientBesideResource.newClient

end Pool

end IdentityLinq
