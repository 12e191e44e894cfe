/-
Clients over whole runs of `ComplexInsert` calls.

Everything a client has is stored under its `ClientId`, and nothing makes that
id a key.  As long as the ids of a run are distinct, a client is found with what
was inserted for it, its claims blanked (`findClientByIdAsync_runCalls`):

* `findClientByIdAsync_roundTrip_iff` — so a run gives all its clients back, and
  nothing else, exactly if the calls that write return and the clients have no claims
  but empty ones.
-/
import IdentityLinq.ClientStore
import IdentityLinq.Platform

namespace IdentityLinq

variable {P : Platform} {α : Type}

/-! ### The rows of `Client` -/

/-- The `ClientId` the call is about. -/
def Call.clientIds : Call P → List String
  | client c => [c.clientId]
  | apiResource _ => []
  | identityResource _ => []

/-- The row the call adds to `Client`: none if the grant types are rejected. -/
def Call.clientColumns : Call P → List (Models.ClientColumns P.ClientScalars)
  | client c => if P.validateGrantTypes c.allowedGrantTypes then [c.toClientColumns] else []
  | apiResource _ => []
  | identityResource _ => []

/-- A row of `Client` is written by a call whose grant types are accepted. -/
theorem Call.exists_of_mem_clientColumns {call : Call P}
    {x : Models.ClientColumns P.ClientScalars} (hx : x ∈ call.clientColumns) :
    ∃ c, call = .client c ∧ P.validateGrantTypes c.allowedGrantTypes = true ∧
      x = c.toClientColumns := by
  cases call with
  | client c =>
    rw [Call.clientColumns] at hx
    split at hx
    · next hvalid => exact ⟨c, rfl, hvalid, List.mem_singleton.mp hx⟩
    · exact absurd hx List.not_mem_nil
  | apiResource r => exact absurd hx List.not_mem_nil
  | identityResource r => exact absurd hx List.not_mem_nil

theorem Call.clientId_of_mem_clientColumns {call : Call P}
    {x : Models.ClientColumns P.ClientScalars} (hx : x ∈ call.clientColumns) :
    x.clientId ∈ call.clientIds := by
  obtain ⟨c, rfl, -, rfl⟩ := Call.exists_of_mem_clientColumns hx
  exact List.mem_singleton.mpr rfl

theorem Call.run_clients (call : Call P) (db : Db P) :
    call.run db .clients = (db .clients).bulkCopy call.clientColumns := by
  cases call with
  | client c =>
    have hwritten := written_complexInsertClient c db
    rw [Call.clientColumns, Call.run]
    split at hwritten
    · next h =>
      rw [hwritten.apply_eq, Delta.addTo_apply, Delta.single_self, if_pos h]
      simp [Models.Client.childInserts]
    · next h => rw [hwritten, if_neg h, Table.bulkCopy_nil]
  | apiResource r =>
    rw [Call.clientColumns, Table.bulkCopy_nil]
    refine ((Call.apiResource r).written_run db).apply_eq (List.forall_mem_cons.mpr ⟨?_, ?_⟩)
    · exact Delta.single_of_ne (by decide) _
    · exact r.childInserts_of_ne (by decide) (by decide) (by decide) (by decide) _ _
  | identityResource r =>
    rw [Call.clientColumns, Table.bulkCopy_nil]
    refine ((Call.identityResource r).written_run db).apply_eq ?_
    simp [Call.inserts, Models.IdentityResource.inserts]

/-- The `Client` table after a run. -/
theorem clients_runCalls (calls : List (Call P)) (db : Db P) :
    runCalls calls db .clients
      = (db .clients).bulkCopy (calls.flatMap Call.clientColumns) :=
  runCalls_apply Call.run_clients calls db

theorem values_clients_runCalls (calls : List (Call P)) :
    (runCalls calls (Store.empty : Db P) .clients).values = calls.flatMap Call.clientColumns := by
  rw [clients_runCalls, Table.values_bulkCopy]
  rfl

theorem clientId_of_mem_flatMap {calls : List (Call P)} {x : Models.ClientColumns P.ClientScalars}
    (hx : x ∈ calls.flatMap Call.clientColumns) : x.clientId ∈ calls.flatMap Call.clientIds := by
  obtain ⟨call, hcall, hx⟩ := List.mem_flatMap.mp hx
  exact List.mem_flatMap.mpr ⟨call, hcall, Call.clientId_of_mem_clientColumns hx⟩

/-! ### What one call stores -/

/-- The inserts of a client, as pairs of a table and its rows. -/
def Models.Client.tableRows (c : Models.Client P (Collection String)) :
    List (Σ t : TableName, List (t.Columns P)) :=
  [⟨.clients, [c.toClientColumns]⟩,
   ⟨.clientCorsOrigins, (c.allowedCorsOrigins.getD []).map fun x => ⟨x, c.clientId⟩⟩,
   ⟨.clientGrantTypes, (c.allowedGrantTypes.getD []).map fun x => ⟨x, c.clientId⟩⟩,
   ⟨.clientScopes, (c.allowedScopes.getD []).map fun x => ⟨x, c.clientId⟩⟩,
   ⟨.clientClaims, (c.claims.getD []).map fun x => ⟨x, c.clientId⟩⟩,
   ⟨.clientSecrets, (c.clientSecrets.getD []).map fun x => ⟨x, c.clientId⟩⟩,
   ⟨.clientIdPRestrictions,
     (c.identityProviderRestrictions.getD []).map fun x => ⟨x, c.clientId⟩⟩,
   ⟨.clientPostLogoutRedirectUris,
     (c.postLogoutRedirectUris.getD []).map fun x => ⟨x, c.clientId⟩⟩,
   ⟨.clientRedirectUris, (c.redirectUris.getD []).map fun x => ⟨x, c.clientId⟩⟩]

theorem Models.Client.tableRows_nodup (c : Models.Client P (Collection String)) :
    (c.tableRows.map Sigma.fst).Nodup := by
  show [TableName.clients, .clientCorsOrigins, .clientGrantTypes, .clientScopes, .clientClaims,
    .clientSecrets, .clientIdPRestrictions, .clientPostLogoutRedirectUris,
    .clientRedirectUris].Nodup
  decide

/-- What the call adds to one of its tables. -/
theorem Models.Client.sum_inserts {c : Models.Client P (Collection String)} {t : TableName}
    {rows : List (t.Columns P)} (h : ⟨t, rows⟩ ∈ c.tableRows) : Delta.sum c.inserts t = rows :=
  sum_single_of_mem c.tableRows_nodup h

theorem some_getD {α : Type} {xs : Collection α} (h : xs.isSome) : some (xs.getD []) = xs := by
  obtain ⟨xs, rfl⟩ := Option.isSome_iff_exists.mp h
  rfl

/-- The content of a client without null collections. -/
theorem Models.Client.Complete.content_blank {c : Models.Client P (Collection String)}
    (hc : c.Complete) : c.blank.content =
      { columns := c.toClientColumns
        allowedGrantTypes := some ↑(c.allowedGrantTypes.getD [])
        redirectUris := some ↑(c.redirectUris.getD [])
        postLogoutRedirectUris := some ↑(c.postLogoutRedirectUris.getD [])
        allowedScopes := some ↑(c.allowedScopes.getD [])
        clientSecrets := some ↑(c.clientSecrets.getD [])
        claims := some ↑((c.claims.getD []).map fun _ => (⟨"", ""⟩ : Models.Claim))
        identityProviderRestrictions := some ↑(c.identityProviderRestrictions.getD [])
        allowedCorsOrigins := some ↑(c.allowedCorsOrigins.getD []) } := by
  obtain ⟨-, hcors, hgrants, hscopes, hclaims, hsecrets, hidp, hlogout, hredirect⟩ := hc
  simp only [Models.Client.content, Models.Client.blank]
  rw [← some_getD hcors, ← some_getD hgrants, ← some_getD hscopes, ← some_getD hclaims,
    ← some_getD hsecrets, ← some_getD hidp, ← some_getD hlogout, ← some_getD hredirect]
  rfl

/-! ### The rows a client owns -/

theorem Call.not_mayOwn_client {call : Call P} {id : String} (h : id ∉ call.clientIds)
    (db : Db P) : ¬ call.MayOwn db (.client id) := by
  cases call with
  | client c =>
    intro howner
    exact h (List.mem_singleton.mpr (Owner.client.inj howner))
  | apiResource r => exact fun howner => howner
  | identityResource r => exact fun howner => howner

/-- Calls for other clients leave a client's rows alone. -/
theorem children_runCalls_of_notMem {calls : List (Call P)} {id : String}
    (h : id ∉ calls.flatMap Call.clientIds) (db : Db P) (t : TableName) :
    children (runCalls calls db) t (.client id) = children db t (.client id) := by
  induction calls generalizing db with
  | nil => rfl
  | cons call calls ih =>
    rw [List.flatMap_cons, List.mem_append, not_or] at h
    rw [runCalls_cons, ih h.2, children_run_of_not_mayOwn (Call.not_mayOwn_client h.1 db)]

/-- The row found under the id of a client whose grant types are accepted, if no
earlier call is for that id. -/
theorem find_clients_runCalls {pre : List (Call P)} {c : Models.Client P (Collection String)}
    (hc : P.validateGrantTypes c.allowedGrantTypes = true)
    (hpre : c.clientId ∉ pre.flatMap Call.clientIds) (post : List (Call P)) :
    (runCalls (pre ++ .client c :: post) (Store.empty : Db P) .clients).values.find?
      (fun x => decide (x.clientId = c.clientId)) = some c.toClientColumns := by
  have hnone : (pre.flatMap Call.clientColumns).find? (fun x => decide (x.clientId = c.clientId))
      = none := by
    rw [List.find?_eq_none]
    intro x hx hid
    exact hpre (of_decide_eq_true hid ▸ clientId_of_mem_flatMap hx)
  rw [values_clients_runCalls, List.flatMap_append, List.find?_append, hnone,
    List.flatMap_cons, Call.clientColumns, if_pos hc]
  simp

/-! ### Stored clients -/

/-- Of the rows a client's call writes, its client owns all but the row of
`Client`. -/
theorem Models.Client.filter_owner_inserts (c : Models.Client P (Collection String))
    (t : TableName) :
    (Delta.sum c.inserts t).filter (fun x => decide (owner t x = some (.client c.clientId)))
      = Delta.sum c.childInserts t := by
  have hparent : (Delta.single .clients [c.toClientColumns] t : List (t.Columns P)).filter
      (fun x => decide (owner t x = some (.client c.clientId))) = [] := by
    by_cases ht : t = .clients
    · subst ht
      simp [owner]
    · rw [Delta.single_of_ne ht, List.filter_nil]
  rw [Models.Client.inserts, Delta.sum_cons, Delta.append_apply, List.filter_append, hparent,
    List.nil_append, List.filter_eq_self]
  intro x hx
  rw [Delta.sum_apply] at hx
  obtain ⟨δ, hδ, hx⟩ := List.mem_flatMap.mp hx
  have hsingle : ∀ {α : Type} {t' : TableName} {xs : List α} {f : α → t'.Columns P},
      (∀ a, owner t' (f a) = some (.client c.clientId)) →
      x ∈ (Delta.single t' (xs.map f) : Rows P) t →
      decide (owner t x = some (.client c.clientId)) = true := by
    intro α t' xs f hf hmem
    by_cases ht : t = t'
    · subst ht
      rw [Delta.single_self] at hmem
      obtain ⟨a, -, rfl⟩ := List.mem_map.mp hmem
      exact decide_eq_true (hf a)
    · rw [Delta.single_of_ne ht] at hmem
      exact absurd hmem List.not_mem_nil
  simp only [Models.Client.childInserts, List.mem_cons, List.not_mem_nil, or_false] at hδ
  rcases hδ with rfl | rfl | rfl | rfl | rfl | rfl | rfl | rfl
  all_goals exact hsingle (fun _ => rfl) hx

/-- No table has a row for the client. -/
def NotStored (db : Db P) (clientId : String) : Prop :=
  (∀ x ∈ (db .clients).values, x.clientId ≠ clientId) ∧
    ∀ t, children db t (.client clientId) = []

/-- The store has the row of the client and, in order, the rows of its collections. -/
structure StoredClient (db : Db P) (c : Models.Client P (Collection String)) : Prop where
  find : (db .clients).values.find? (fun x => decide (x.clientId = c.clientId))
    = some c.toClientColumns
  rows : ∀ t, ownedBy db t (.client c.clientId) = Delta.sum c.childInserts t

section StoredClient

variable {c : Models.Client P (Collection String)} {s : Db P}

/-- One collection of a stored client. -/
theorem StoredClient.map_clientRows (h : StoredClient s c) {t : TableName} (xs : List α)
    (f : α → t.Columns P) (hrows : ⟨t, xs.map f⟩ ∈ c.tableRows) {key : t.Columns P → String}
    (hkey : ∀ x, owner t x = some (.client (key x))) (hf : ∀ x, key (f x) = c.clientId)
    {β : Type} {g : t.Columns P → β} {ys : List β} (hg : xs.map (fun x => g (f x)) = ys) :
    (clientRows t key c.clientId s).map g = ys := by
  have howner : ∀ x, owner t (f x) = some (.client c.clientId) := fun x => by rw [hkey, hf]
  rw [clientRows_eq_ownedBy hkey, h.rows, ← c.filter_owner_inserts,
    Models.Client.sum_inserts hrows, filter_owner_map howner, List.map_map]
  exact hg

/-- What the statements of a lookup for `clientId` read. -/
structure ClientReads (s : Db P) (clientId : String) (c : Models.Client P (Collection String)) :
    Prop where
  allowedGrantTypes : grantTypesQuery clientId s = c.allowedGrantTypes.getD []
  redirectUris : (clientRows .clientRedirectUris (·.clientId) clientId s).map (·.redirectUri)
    = c.redirectUris.getD []
  postLogoutRedirectUris : (clientRows .clientPostLogoutRedirectUris (·.clientId) clientId s).map
    (·.postLogoutRedirectUri) = c.postLogoutRedirectUris.getD []
  allowedScopes : (clientRows .clientScopes (·.clientId) clientId s).map (·.scope)
    = c.allowedScopes.getD []
  clientSecrets : (clientRows .clientSecrets (·.clientId) clientId s).map (·.toSecret)
    = c.clientSecrets.getD []
  claims : (clientRows .clientClaims (·.clientId) clientId s).map
    (fun x => (Entities.ClientClaim.ofRow x).toClaim) = (c.claims.getD []).map fun _ => ⟨"", ""⟩
  identityProviderRestrictions : (clientRows .clientIdPRestrictions (·.clientId) clientId s).map
    (·.provider) = c.identityProviderRestrictions.getD []
  allowedCorsOrigins : (clientRows .clientCorsOrigins (·.clientId) clientId s).map (·.origin)
    = c.allowedCorsOrigins.getD []

theorem StoredClient.reads (h : StoredClient s c) : ClientReads s c.clientId c where
  allowedGrantTypes := h.map_clientRows (t := .clientGrantTypes) (c.allowedGrantTypes.getD [])
    (fun x => ⟨x, c.clientId⟩) (by simp [Models.Client.tableRows]) (fun _ => rfl) (fun _ => rfl)
    (List.map_id _)
  redirectUris := h.map_clientRows (t := .clientRedirectUris) (c.redirectUris.getD [])
    (fun x => ⟨x, c.clientId⟩) (by simp [Models.Client.tableRows]) (fun _ => rfl) (fun _ => rfl)
    (List.map_id _)
  postLogoutRedirectUris := h.map_clientRows (t := .clientPostLogoutRedirectUris)
    (c.postLogoutRedirectUris.getD []) (fun x => ⟨x, c.clientId⟩)
    (by simp [Models.Client.tableRows]) (fun _ => rfl) (fun _ => rfl) (List.map_id _)
  allowedScopes := h.map_clientRows (t := .clientScopes) (c.allowedScopes.getD [])
    (fun x => ⟨x, c.clientId⟩) (by simp [Models.Client.tableRows]) (fun _ => rfl) (fun _ => rfl)
    (List.map_id _)
  clientSecrets := h.map_clientRows (t := .clientSecrets) (c.clientSecrets.getD [])
    (fun x => ⟨x, c.clientId⟩) (by simp [Models.Client.tableRows]) (fun _ => rfl) (fun _ => rfl)
    (List.map_id _)
  claims := h.map_clientRows (t := .clientClaims) (c.claims.getD [])
    (fun x => ⟨x, c.clientId⟩) (by simp [Models.Client.tableRows]) (fun _ => rfl) (fun _ => rfl) rfl
  identityProviderRestrictions := h.map_clientRows (t := .clientIdPRestrictions)
    (c.identityProviderRestrictions.getD []) (fun x => ⟨x, c.clientId⟩)
    (by simp [Models.Client.tableRows]) (fun _ => rfl) (fun _ => rfl) (List.map_id _)
  allowedCorsOrigins := h.map_clientRows (t := .clientCorsOrigins) (c.allowedCorsOrigins.getD [])
    (fun x => ⟨x, c.clientId⟩) (by simp [Models.Client.tableRows]) (fun _ => rfl) (fun _ => rfl)
    (List.map_id _)

/-- A lookup that is answered by stores of the client finds it, whichever of them
answers which statement. -/
theorem found_of_mayEnd (hc : c.Complete) {I : Db P → Prop} (hI : ∀ s, I s → StoredClient s c)
    {res : Except Error (Option (FoundClient P))}
    (h : Program.MayEnd I (findClientByIdAsync c.clientId) res) :
    ∃ y, res = .ok (some y) ∧ ∀ s, I s → contentOn s y = c.blank.content := by
  have hreads : ∀ s, I s → ClientReads s c.clientId c := fun s hs => (hI s hs).reads
  obtain ⟨s₁, hs₁, h⟩ := (Program.mayEnd_query_bind _ _ _).mp h
  rw [(hI s₁ hs₁).find] at h
  obtain ⟨s₂, hs₂, h⟩ := (Program.mayEnd_query_bind _ _ _).mp h
  -- The setter accepts what it accepted from the caller of `ComplexInsert`.
  have hvalid : P.validateGrantTypes (some (grantTypesQuery c.clientId s₂)) = true := by
    rw [(hreads s₂ hs₂).allowedGrantTypes, some_getD hc.2.2.1]
    exact hc.1
  rw [setAllowedGrantTypes, if_pos hvalid] at h
  -- Seven statements follow, each answered by a store of its own.
  obtain ⟨s₃, hs₃, h⟩ := (Program.mayEnd_query_bind _ _ _).mp h
  obtain ⟨s₄, hs₄, h⟩ := (Program.mayEnd_query_bind _ _ _).mp h
  obtain ⟨s₅, hs₅, h⟩ := (Program.mayEnd_query_bind _ _ _).mp h
  obtain ⟨s₆, hs₆, h⟩ := (Program.mayEnd_query_bind _ _ _).mp h
  obtain ⟨s₇, hs₇, h⟩ := (Program.mayEnd_query_bind _ _ _).mp h
  obtain ⟨s₈, hs₈, h⟩ := (Program.mayEnd_query_bind _ _ _).mp h
  obtain ⟨s₉, hs₉, h⟩ := (Program.mayEnd_query_bind _ _ _).mp h
  obtain rfl : res = .ok _ := h
  refine ⟨_, rfl, fun s hs => ?_⟩
  rw [hc.content_blank, (hreads s₃ hs₃).redirectUris, (hreads s₄ hs₄).postLogoutRedirectUris,
    (hreads s₅ hs₅).allowedScopes, (hreads s₆ hs₆).clientSecrets, (hreads s₇ hs₇).claims,
    (hreads s₈ hs₈).identityProviderRestrictions, (hreads s₉ hs₉).allowedCorsOrigins]
  simp [contentOn, Models.Client.content, (hreads s hs).allowedGrantTypes]

/-- A lookup alone. -/
theorem StoredClient.run_find (h : StoredClient s c) (hc : c.Complete) :
    ∃ x, (findClientByIdAsync c.clientId).run s = (.ok (some x), s) ∧
      contentOn s x = c.blank.content := by
  have hread := (readOnly_findClientByIdAsync (P := P) c.clientId)
  obtain ⟨x, hx, hcontent⟩ := @found_of_mayEnd _ _ hc (· = s) (fun _ hs => hs ▸ h) _
    (hread.mayEnd_run s)
  exact ⟨x, Prod.ext hx (hread.run_snd s), hcontent s rfl⟩

/-- Later calls for other clients leave it as it is. -/
theorem StoredClient.runCalls (h : StoredClient s c) {calls : List (Call P)}
    (hnot : c.clientId ∉ calls.flatMap Call.clientIds) : StoredClient (runCalls calls s) c where
  find := by
    rw [clients_runCalls, Table.values_bulkCopy, List.find?_append, h.find]
    rfl
  rows := by
    intro t
    rw [ownedBy, children_runCalls_of_notMem hnot, ← ownedBy, h.rows]

/-- The inserts of a client that is not stored yet. -/
theorem storedClient_inserts (hnew : NotStored s c.clientId) :
    StoredClient ((Delta.sum c.inserts).addTo s) c := by
  constructor
  · have hnone : (s .clients).values.find? (fun x => decide (x.clientId = c.clientId)) = none := by
      rw [List.find?_eq_none]
      exact fun x hx hid => hnew.1 x hx (of_decide_eq_true hid)
    rw [Delta.addTo_apply, Table.values_bulkCopy, List.find?_append, hnone, Option.none_or,
      Models.Client.sum_inserts (c := c) List.mem_cons_self]
    simp
  · intro t
    have hbefore : ownedBy s t (.client c.clientId) = [] := by rw [ownedBy, hnew.2, List.map_nil]
    rw [ownedBy_addTo, hbefore, List.nil_append, c.filter_owner_inserts]

/-- A client that is not stored, in the middle of calls for other clients. -/
theorem storedClient_runCalls (h : Owned s) (hc : c.Complete)
    (hnew : ¬ HasOwner s (.client c.clientId)) {pre post : List (Call P)}
    (hpre : c.clientId ∉ pre.flatMap Call.clientIds)
    (hpost : c.clientId ∉ post.flatMap Call.clientIds) :
    StoredClient (IdentityLinq.runCalls (pre ++ .client c :: post) s) c := by
  -- The calls before it have written nothing under its id.
  have hnot : NotStored (IdentityLinq.runCalls pre s) c.clientId := by
    refine ⟨fun x hx hid => ?_, fun t => ?_⟩
    · rw [clients_runCalls, Table.values_bulkCopy] at hx
      rcases List.mem_append.mp hx with hold | hlater
      · exact hnew ⟨x, hold, hid⟩
      · exact hpre (hid ▸ clientId_of_mem_flatMap hlater)
    · rw [children_runCalls_of_notMem hpre]
      exact h.children_eq_nil hnew t
  rw [runCalls_append, runCalls_cons]
  rw [(Call.client c).run_of_complete hc, Call.inserts]
  exact (storedClient_inserts hnot).runCalls hpost

/-- **A client as it comes back** after a run in which no other call is for its
id: with its claims blanked. -/
theorem findClientByIdAsync_runCalls {pre post : List (Call P)} (hc : c.Complete)
    (hpre : c.clientId ∉ pre.flatMap Call.clientIds)
    (hpost : c.clientId ∉ post.flatMap Call.clientIds) {db : Db P}
    (hdb : db = runCalls (pre ++ .client c :: post) Store.empty) :
    ∃ x, (findClientByIdAsync c.clientId).run db = (.ok (some x), db) ∧
      contentOn db x = c.blank.content := by
  have hnew : ¬ HasOwner (Store.empty : Db P) (.client c.clientId) := by
    rintro ⟨x, hx, -⟩
    exact absurd hx List.not_mem_nil
  rw [hdb]
  exact (storedClient_runCalls owned_empty hc hnew hpre hpost).run_find hc

end StoredClient

/-! ### Round trips -/

theorem notMem_of_nodup_clientIds {pre post : List (Call P)}
    {c : Models.Client P (Collection String)}
    (h : ((pre ++ .client c :: post).flatMap Call.clientIds).Nodup) :
    c.clientId ∉ pre.flatMap Call.clientIds ∧ c.clientId ∉ post.flatMap Call.clientIds := by
  rw [List.flatMap_append, List.flatMap_cons, Call.clientIds] at h
  obtain ⟨-, hcons, hdisjoint⟩ := List.nodup_append.mp h
  refine ⟨fun hpre => hdisjoint _ hpre _ List.mem_cons_self rfl, ?_⟩
  exact (List.nodup_cons.mp hcons).1

/-- With distinct ids, the clients of a run are found with their claims blanked. -/
theorem find_of_nodup_clientIds {calls : List (Call P)}
    (hids : (calls.flatMap Call.clientIds).Nodup) {c : Models.Client P (Collection String)}
    (hmem : .client c ∈ calls) (hc : c.Complete) {db : Db P}
    (hdb : db = runCalls calls Store.empty) :
    ∃ x, ((findClientByIdAsync c.clientId).run db).1 = .ok (some x) ∧
      contentOn db x = c.blank.content := by
  obtain ⟨pre, post, rfl⟩ := List.append_of_mem hmem
  obtain ⟨hpre, hpost⟩ := notMem_of_nodup_clientIds hids
  obtain ⟨x, hx, hcontent⟩ := findClientByIdAsync_runCalls hc hpre hpost hdb
  exact ⟨x, by rw [hx], hcontent⟩

/-- A call that has written the row of a client is noticed, even if it throws. -/
theorem find_ne_none {calls : List (Call P)} (hids : (calls.flatMap Call.clientIds).Nodup)
    {c : Models.Client P (Collection String)} (hmem : .client c ∈ calls)
    (hvalid : P.validateGrantTypes c.allowedGrantTypes = true) :
    ((findClientByIdAsync c.clientId).run (runCalls calls (Store.empty : Db P))).1
      ≠ .ok none := by
  obtain ⟨pre, post, rfl⟩ := List.append_of_mem hmem
  obtain ⟨hpre, -⟩ := notMem_of_nodup_clientIds hids
  rw [run_findClientByIdAsync_some (find_clients_runCalls hvalid hpre post)]
  split <;> simp

/-- The call for an id, if it is the only one. -/
theorem eq_of_nodup_clientIds {calls : List (Call P)} (hids : (calls.flatMap Call.clientIds).Nodup)
    {c c' : Models.Client P (Collection String)} (hc : .client c ∈ calls)
    (hc' : .client c' ∈ calls) (hid : c'.clientId = c.clientId) : c' = c := by
  obtain ⟨pre, post, rfl⟩ := List.append_of_mem hc
  obtain ⟨hpre, hpost⟩ := notMem_of_nodup_clientIds hids
  have hnot : ∀ calls : List (Call P), c.clientId ∉ calls.flatMap Call.clientIds →
      .client c' ∉ calls := by
    intro calls hnot hin
    exact hnot (List.mem_flatMap.mpr ⟨_, hin, List.mem_singleton.mpr hid.symm⟩)
  rcases List.mem_append.mp hc' with hin | hin
  · exact absurd hin (hnot pre hpre)
  · rcases List.mem_cons.mp hin with heq | hin
    · exact Call.client.inj heq
    · exact absurd hin (hnot post hpost)

/-- **When a run gives its clients back.**  For distinct ids, every client whose call
returns is found as it was, and under no other id anything is found, exactly if every
call that writes has no null collection and no claim with a type or a value. -/
theorem findClientByIdAsync_roundTrip_iff {calls : List (Call P)}
    (hids : (calls.flatMap Call.clientIds).Nodup) {db : Db P}
    (hdb : db = runCalls calls Store.empty) :
    ((∀ c, .client c ∈ calls → c.Complete → ∃ x,
        ((findClientByIdAsync c.clientId).run db).1 = .ok (some x) ∧ contentOn db x = c.content) ∧
      ∀ id, (∀ c, .client c ∈ calls → c.Complete → c.clientId ≠ id) →
        ((findClientByIdAsync id).run db).1 = .ok none) ↔
      ∀ c, .client c ∈ calls → P.validateGrantTypes c.allowedGrantTypes = true →
        c.Complete ∧ c.BlankClaims := by
  constructor
  · rintro ⟨hround, hnone⟩ c hmem hvalid
    have hc : c.Complete := by
      by_contra hc
      refine find_ne_none hids hmem hvalid (hdb ▸ hnone c.clientId fun c' hmem' hc' hid => hc ?_)
      exact eq_of_nodup_clientIds hids hmem hmem' hid ▸ hc'
    obtain ⟨x, hx, hcontent⟩ := hround c hmem hc
    obtain ⟨x', hx', hcontent'⟩ := find_of_nodup_clientIds hids hmem hc hdb
    have heq : x = x' := Option.some.inj (Except.ok.inj (hx.symm.trans hx'))
    rw [← heq, hcontent] at hcontent'
    exact ⟨hc, c.content_blank_eq_iff.mp hcontent'.symm⟩
  · intro hkept
    refine ⟨fun c hmem hc => ?_, fun id hid => ?_⟩
    · obtain ⟨x, hx, hcontent⟩ := find_of_nodup_clientIds hids hmem hc hdb
      have hblank := (hkept c hmem hc.1).2
      exact ⟨x, hx, hcontent.trans (c.content_blank_eq_iff.mpr hblank)⟩
    · rw [hdb, run_findClientByIdAsync_none]
      intro x hx hxid
      -- The row is there since a call wrote it, and such a call returns.
      rw [values_clients_runCalls] at hx
      obtain ⟨call, hmem, hx⟩ := List.mem_flatMap.mp hx
      obtain ⟨c, rfl, hvalid, rfl⟩ := Call.exists_of_mem_clientColumns hx
      exact hid c hmem (hkept c hmem hvalid).1 hxid

/-- Two clients, a call whose grant types are rejected, and an identity resource. -/
def plainCalls : List (Call Platform.plain) :=
  [.client (fullClient "app" [⟨"", ""⟩]),
   .client { plainClient "spa" [⟨"role", "admin"⟩] with allowedGrantTypes := some [] },
   .identityResource (plainIdentityResource "profile" ["name"]),
   .client (fullClient "web" [])]

theorem findClientByIdAsync_roundTrip_plainCalls :
    (∃ x, ((findClientByIdAsync "web").run (runCalls plainCalls Store.empty)).1 = .ok (some x) ∧
      contentOn (runCalls plainCalls Store.empty) x = (fullClient "web" []).content) ∧
    ((findClientByIdAsync "spa").run (runCalls plainCalls Store.empty)).1 = .ok none := by
  have hclients : ∀ c, .client c ∈ plainCalls → c = fullClient "app" [⟨"", ""⟩] ∨
      c = fullClient "web" [] ∨
        (¬ Platform.plain.validateGrantTypes c.allowedGrantTypes = true) := by
    intro c hc
    simp only [plainCalls, List.mem_cons, Call.client.injEq, reduceCtorEq, List.not_mem_nil,
      false_or, or_false] at hc
    rcases hc with rfl | rfl | rfl
    · exact .inl rfl
    · exact .inr (.inr (by decide))
    · exact .inr (.inl rfl)
  have hkept : ∀ c, .client c ∈ plainCalls →
      Platform.plain.validateGrantTypes c.allowedGrantTypes = true →
        c.Complete ∧ c.BlankClaims := by
    intro c hc hvalid
    rcases hclients c hc with rfl | rfl | hinvalid
    · exact ⟨fullClient_complete _ _, fun x hx => List.mem_singleton.mp hx⟩
    · exact ⟨fullClient_complete _ _, fun x hx => absurd hx List.not_mem_nil⟩
    · exact absurd hvalid hinvalid
  obtain ⟨hround, hnone⟩ := (findClientByIdAsync_roundTrip_iff (by decide) rfl).mpr hkept
  refine ⟨hround (fullClient "web" []) (by simp [plainCalls]) (fullClient_complete _ _), ?_⟩
  refine hnone "spa" fun c hc hcomplete => ?_
  rcases hclients c hc with rfl | rfl | hinvalid
  · decide
  · decide
  · exact absurd hcomplete.1 hinvalid

/-- A client with a role: the claim comes back empty. -/
def clientWithRole : Models.Client Platform.plain (Collection String) :=
  plainClient "app" [⟨"role", "admin"⟩]

theorem not_findClientByIdAsync_roundTrip_clientWithRole :
    clientWithRole.Complete ∧
      ¬ ∃ x, ((findClientByIdAsync "app").run
          (runCalls [.client clientWithRole] Store.empty)).1 = .ok (some x) ∧
        contentOn (runCalls [.client clientWithRole] Store.empty) x = clientWithRole.content := by
  refine ⟨plainClient_complete _ _, ?_⟩
  rintro ⟨x, hx, hcontent⟩
  have hblank : ∃ x, ((findClientByIdAsync "app").run
      (runCalls [.client clientWithRole] Store.empty)).1 = .ok (some x) ∧
        x.claims = some [⟨"", ""⟩] := ⟨_, rfl, rfl⟩
  obtain ⟨x', hx', hclaims⟩ := hblank
  have heq : x = x' := Option.some.inj (Except.ok.inj (hx.symm.trans hx'))
  have hsame : x.claims.map Multiset.ofList = some {⟨"role", "admin"⟩} :=
    congrArg ClientContent.claims hcontent
  rw [heq, hclaims, Option.map_some, Option.some.injEq, Multiset.coe_singleton,
    Multiset.singleton_inj] at hsame
  exact absurd hsame (by decide)

end IdentityLinq
