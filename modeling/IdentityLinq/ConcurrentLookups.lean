/-
Lookups beside `ComplexInsert` calls that run at the same time.

A call that has returned has left all its rows, in the order in which it wrote
them, and whatever the other calls go on to do, no row is added to its own.  A
lookup issues several statements, and other calls may get in between; but all
stores that answer it have the rows of the calls that had returned before.  So

* `client_beside_calls` — a client whose call has returned is found complete, by
  lookups whose statements are interleaved with those of any other calls;
* `identityResource_beside_calls` — and so is an identity resource, once;
* `apiResource_beside_calls_iff` — an API resource is found as it was inserted if
  its scopes have got its own id from the store, which is up to the other calls.
-/
import IdentityLinq.Atomicity
import IdentityLinq.ConcurrentCalls
import IdentityLinq.CorsPolicyService
import IdentityLinq.IdentityResourceRuns

namespace IdentityLinq

variable {P : Platform} {α β : Type}

/-! ### Calls that return -/

/-- A bulk copy that goes through has a source. -/
theorem yields_bulkCopy_bind {R : β → Prop} {t : TableName} {source : Collection α}
    {f : α → t.Columns P} {q : Unit → Program (Db P) Error β}
    (hq : source.isSome → (q ()).Yields R) : (bulkCopy t source f >>= q).Yields R := by
  cases source with
  | none => exact trivial
  | some xs => exact fun _ => hq rfl

theorem yields_complexInsertClient (c : Models.Client P (Collection String)) :
    (complexInsertClient c).Yields fun _ => c.Complete := by
  rw [complexInsertClient, setAllowedGrantTypes]
  split
  · next hvalid =>
    intro _
    refine yields_bulkCopy_bind fun hcors => yields_bulkCopy_bind fun hgrants => ?_
    refine yields_bulkCopy_bind fun hscopes => yields_bulkCopy_bind fun hclaims => ?_
    refine yields_bulkCopy_bind fun hsecrets => yields_bulkCopy_bind fun hidp => ?_
    refine yields_bulkCopy_bind fun hlogout => yields_bulkCopy_bind fun hredirect => ?_
    exact ⟨hvalid, hcors, hgrants, hscopes, hclaims, hsecrets, hidp, hlogout, hredirect⟩
  · exact trivial

/-- The loop over the scopes goes through if no scope has null claims. -/
theorem yields_forM_insertScope_bind {R : β → Prop} {q : PUnit → Program (Db P) Error β} :
    ∀ scopes : List (Entities.ApiScope × Collection String),
      ((∀ s ∈ scopes, s.2.isSome) → (q ⟨⟩).Yields R) →
      (forM scopes insertScope >>= q).Yields R
  | [], hq => hq (fun _ hs => absurd hs List.not_mem_nil)
  | s :: scopes, hq => by
    rw [List.forM_cons, insertScope, bind_assoc, bind_assoc]
    intro id
    refine yields_bulkCopy_bind fun hclaims => ?_
    exact yields_forM_insertScope_bind scopes fun hrest =>
      hq (List.forall_mem_cons.mpr ⟨hclaims, hrest⟩)

theorem yields_complexInsertApiResource (r : Models.ApiResource P) :
    (complexInsertApiResource r).Yields fun _ => r.Complete := by
  rw [complexInsertApiResource]
  intro id
  refine yields_bulkCopy_bind fun hsecrets => ?_
  cases hscopes : r.scopes with
  | none => exact trivial
  | some scopes =>
    rw [select, Program.ret_bind]
    refine yields_forM_insertScope_bind _ fun hscopeClaims => ?_
    refine yields_bulkCopy_bind fun hclaims => ⟨hsecrets, ?_, ?_, hclaims⟩
    · rw [hscopes]
      rfl
    · intro s hs
      rw [hscopes, Option.getD_some] at hs
      exact hscopeClaims _ (List.mem_map_of_mem hs)

theorem yields_complexInsertIdentityResource (r : Models.IdentityResource P) :
    (complexInsertIdentityResource r).Yields fun _ => r.Complete :=
  fun _ => yields_bulkCopy_bind fun hclaims => hclaims

/-- **Only complete calls return**, whatever else happens to the store. -/
theorem Call.yields_program (call : Call P) : call.program.Yields fun _ => call.Complete := by
  cases call with
  | client c => exact (yields_complexInsertClient c).andThen fun _ h => h
  | apiResource r => exact (yields_complexInsertApiResource r).andThen fun _ h => h
  | identityResource r => exact (yields_complexInsertIdentityResource r).andThen fun _ h => h

/-! ### The rows of a call that has returned -/

section Pool

variable {κ : Type} {calls : κ → Call P} {db₀ : Db P}
  {x y z : Pool (TableName.Columns P) Error Unit κ} {k : κ}

/-- What an owner owns, in the order in which the call wrote it. -/
theorem CallsSound.children_eq (hx : CallsSound db₀ calls x) (ho : Pool.Ordered x) (h₀ : Owned db₀)
    {o : Owner} (hown : HasOwnerIn (x.wrote k) o) (hnew : NewOwner db₀ calls o) (t : TableName) :
    children x.store t o = (x.wrote k t).filter fun r => decide (owner t r.cols = some o) := by
  refine hx.filter_eq ho fun r hr hdec => ?_
  have howner : owner t r.cols = some o := of_decide_eq_true hdec
  rcases (hx.mem_rows_iff t r).mp hr with hold | ⟨k', hk'⟩
  · have hown' := h₀ t r.cols (List.mem_map_of_mem hold) o howner
    exact absurd hown' (hx.not_hasOwner_start hown hnew)
  · have hown' := (hx.owns k').owned t r hk' o howner
    obtain rfl := hx.eq_of_hasOwnerIn hown hown' hnew
    exact hk'

theorem CallsSound.ownedBy_eq (hx : CallsSound db₀ calls x) (ho : Pool.Ordered x) (h₀ : Owned db₀)
    {o : Owner} (hown : HasOwnerIn (x.wrote k) o) (hnew : NewOwner db₀ calls o) (t : TableName) :
    ownedBy x.store t o
      = (Log.cols (x.wrote k) t).filter fun c => decide (owner t c = some o) := by
  rw [ownedBy, hx.children_eq ho h₀ hown hnew]
  exact map_cols_filter (x.wrote k t) fun c => decide (owner t c = some o)

theorem CallsSound.storedClient (hx : CallsSound db₀ calls x) (ho : Pool.Ordered x)
    (h₀ : Owned db₀) {c : Models.Client P (Collection String)}
    (hnew : NewClient db₀ calls c.clientId) (hw : (Call.client c).Wrote (x.wrote k)) :
    StoredClient x.store c := by
  have hcols : ∀ t, Log.cols (x.wrote k) t = Delta.sum c.inserts t := fun t => congrFun hw t
  have hrow : (x.wrote k .clients).map Row.cols = [c.toClientColumns] := by
    rw [← Models.Client.sum_inserts (c := c) List.mem_cons_self, ← hcols]
    rfl
  have hmem : c.toClientColumns ∈ (x.wrote k .clients).map Row.cols := by simp [hrow]
  obtain ⟨row, hin, hcol⟩ := List.mem_map.mp hmem
  have hown : HasOwnerIn (x.wrote k) (.client c.clientId) := ⟨row, hin, by rw [hcol]⟩
  refine ⟨?_, fun t => ?_⟩
  · -- No other row has this id.
    have hfilter := hx.filter_eq ho (i := .clients) (k := k)
      (p := fun r => decide (r.cols.clientId = c.clientId)) fun r hr hdec => by
        have hrid : r.cols.clientId = c.clientId := of_decide_eq_true hdec
        rcases (hx.mem_rows_iff _ r).mp hr with hold | ⟨k', hk'⟩
        · exact absurd ⟨r.cols, List.mem_map_of_mem hold, hrid⟩ hnew.notStored
        · obtain rfl := hx.eq_of_hasOwnerIn hown ⟨r, hk', hrid⟩ hnew
          exact hk'
    have hvalues := congrArg (List.map Row.cols) hfilter
    rw [map_cols_filter (x.store .clients).rows fun c' => decide (c'.clientId = c.clientId),
      map_cols_filter (x.wrote k .clients) fun c' => decide (c'.clientId = c.clientId),
      hrow] at hvalues
    rw [← List.head?_filter, Table.values, hvalues]
    simp
  · rw [hx.ownedBy_eq ho h₀ hown hnew, hcols, c.filter_owner_inserts]

variable [DecidableEq κ]

/-- What is known of the pool once the call has returned. -/
structure Settled (db₀ : Db P) (calls : κ → Call P) (k : κ)
    (x : Pool (TableName.Columns P) Error Unit κ) : Prop where
  sound : CallsSound db₀ calls x
  ordered : Pool.Ordered x
  complete : (calls k).Complete
  wrote : (calls k).Wrote (x.wrote k)

/-- It stays known while the other calls go on. -/
theorem settled_of_reaches (hx : Pool.Reaches (.start db₀ fun k => (calls k).program) x)
    (hret : x.left k = .ret ()) (hz : Pool.Reaches x z) : Settled db₀ calls k z := by
  have hprograms := fun k => (calls k).writes_program
  have hsound : CallsSound db₀ calls x := Pool.sound_of_reaches hprograms hx
  have hwrites := hsound.writes k
  have hyields := Pool.yields_of_reaches (fun k => (calls k).yields_program) hx k
  rw [hret] at hwrites hyields
  have hended : Pool.Ended x k := ⟨.ok (), hret⟩
  refine ⟨Pool.sound_of_reaches hprograms (hx.trans hz),
    Pool.ordered_of_reaches hprograms (hx.trans hz), hyields, ?_⟩
  rw [hended.wrote_eq hz]
  exact hwrites.2

end Pool

/-! ### Clients -/

section Client

variable {c : Models.Client P (Collection String)} {s : Db P}

/-- The origins of a stored client are allowed. -/
theorem StoredClient.originAllowed (h : StoredClient s c) {origin : String}
    (ho : origin ∈ c.allowedCorsOrigins.getD []) : OriginAllowed s origin := by
  rw [← h.reads.allowedCorsOrigins] at ho
  obtain ⟨x, hx, rfl⟩ := List.mem_map.mp ho
  exact originAllowed_iff.mpr ⟨x, List.mem_of_mem_filter hx, rfl⟩

variable {κ : Type} [DecidableEq κ] {calls : κ → Call P} {db₀ : Db P}
  {x y : Pool (TableName.Columns P) Error Unit κ} {k : κ}

/-- **Clients among concurrent calls.**  Once the call for a client has returned, every
lookup finds the client complete, its claims blanked, and all its origins are allowed,
whatever statements of the other calls come in between. -/
theorem client_beside_calls (h₀ : Owned db₀) (hnew : NewClient db₀ calls c.clientId)
    (hx : Pool.Reaches (.start db₀ fun k => (calls k).program) x) (hcall : calls k = .client c)
    (hret : x.left k = .ret ()) :
    (∀ y res, Pool.Beside x (findClientByIdAsync c.clientId) y (Program.final res) →
      ∃ found, res = .ok (some found) ∧
        ∀ z, Pool.Reaches x z → contentOn z.store found = c.blank.content) ∧
    ∀ z, Pool.Reaches x z → ∀ origin ∈ c.allowedCorsOrigins.getD [],
      OriginAllowed z.store origin := by
  have hstored : ∀ z, Pool.Reaches x z → StoredClient z.store c := by
    intro z hz
    have hsettled := settled_of_reaches hx hret hz
    have hwrote := hsettled.wrote
    rw [hcall] at hwrote
    exact hsettled.sound.storedClient hsettled.ordered h₀ hnew hwrote
  constructor
  · intro y res h
    have hcomplete : c.Complete := by
      have hsettled := settled_of_reaches hx hret .refl
      have hc := hsettled.complete
      rwa [hcall] at hc
    have hstores : ∀ s, (∃ z, Pool.Reaches x z ∧ z.store = s) → StoredClient s c := by
      rintro s ⟨z, hz, rfl⟩
      exact hstored z hz
    obtain ⟨found, hres, hcontent⟩ := found_of_mayEnd hcomplete hstores
      (h.mayEnd_final (readOnly_findClientByIdAsync _))
    exact ⟨found, hres, fun z hz => hcontent z.store ⟨z, hz, rfl⟩⟩
  · intro z hz origin ho
    exact (hstored z hz).originAllowed ho

/-- The identity resource is inserted after the first statement of the lookup. -/
theorem client_beside_calls_clientBesideResource :
    ∃ x, Pool.Reaches (.start Store.empty fun k => (clientBesideResource k).program) x ∧
      x.left true = .ret () ∧
      ∃ y found, Pool.Beside x (findClientByIdAsync "app") y (Program.final (.ok (some found))) ∧
        contentOn x.store found = (plainClient "app" []).blank.content := by
  obtain ⟨x, hx, hret, -, hothers⟩ := Pool.exists_ended
    (.start Store.empty fun k => (clientBesideResource k).program) true
  have hother : x.left false = (clientBesideResource false).program := hothers false (by simp)
  obtain ⟨p, s, hstatement⟩ : ∃ p s,
      Program.Step (clientBesideResource false).program x.store p s := ⟨_, _, .exec _ _ _⟩
  rw [← hother] at hstatement
  have hreader : Pool.Beside x (findClientByIdAsync "app") _ _ := .reader .refl (.exec _ _ _)
  have hinserted := hreader.pool (.statement hstatement)
  have hnew := newClients_clientBesideResource.newClient (k := true) (List.mem_singleton.mpr rfl)
  have hfound := (client_beside_calls owned_empty hnew hx (k := true) rfl hret).1 _ _
    hinserted.run_reader
  obtain ⟨found, hres, hcontent⟩ := hfound
  have hend := hinserted.run_reader
  rw [hres] at hend
  exact ⟨x, hx, hret, _, found, hend, hcontent x .refl⟩

end Client

/-! ### Identity resources -/

section IdentityResource

variable {r : Models.IdentityResource P} {s : Db P} {id : ℕ}

/-- A lookup for names, by the contents stored. -/
theorem exists_identityResourcesByScope (s : Db P) (scopeNames : List String) :
    ∃ xs, ((findIdentityResourcesByScopeAsync scopeNames).run s).1 = .ok xs ∧
      xs.map (fun x => x.content)
        = ((s .identityResources).rows.map (storedIdentity s)).filter
            fun x => decide (x.columns.name ∈ scopeNames) := by
  refine ⟨_, by rw [run_findIdentityResourcesByScopeAsync], ?_⟩
  rw [map_content_loadIdentityResource List.filter_sublist, identityResourcesByScope,
    List.filter_map]
  rfl

/-- The store has the row of the identity resource and its claims. -/
structure StoredResource (s : Db P) (r : Models.IdentityResource P) (id : ℕ) : Prop where
  row : ⟨id, r.toResourceColumns⟩ ∈ (s .identityResources).rows
  claims : ownedBy s .identityClaims (.identityResource id)
    = (r.userClaims.getD []).map fun x => ⟨x, id⟩

theorem StoredResource.filter_id (h : StoredResource s r id)
    {p : Models.ResourceColumns P.IdentityResourceScalars → Bool}
    (hp : p r.toResourceColumns = true) :
    ((s .identityResources).rows.filter fun row => p row.cols).filter
      (fun row => decide (row.id = id)) = [⟨id, r.toResourceColumns⟩] := by
  have hmem : (⟨id, r.toResourceColumns⟩ : IdentityResourceRow P)
      ∈ (s .identityResources).rows.filter fun row => p row.cols := List.mem_filter.mpr ⟨h.row, hp⟩
  have hnodup : (((s .identityResources).rows.filter fun row => p row.cols).map Row.id).Nodup :=
    (s .identityResources).nodup.sublist (List.filter_sublist.map _)
  exact filter_key_eq_singleton hnodup hmem

/-- A lookup that is answered by stores of the resource returns it once, with all its
claims. -/
theorem filter_of_mayEnd (hr : r.Complete) {I : Db P → Prop} (hI : ∀ s, I s → StoredResource s r id)
    {scopeNames : List String} (hname : r.name ∈ scopeNames)
    {res : Except Error (List (Entities.IdentityResource P))}
    (h : Program.MayEnd I (findIdentityResourcesByScopeAsync scopeNames) res) :
    ∃ found, res = .ok found ∧
      (found.filter fun x => decide (x.id = id)).map (fun x => x.content) = [r.content] := by
  obtain ⟨s₁, hs₁, h⟩ := (Program.mayEnd_query_bind _ _ _).mp h
  obtain ⟨s₂, hs₂, h⟩ := (Program.mayEnd_query_bind _ _ _).mp h
  obtain rfl : res = .ok _ := h
  refine ⟨_, rfl, ?_⟩
  have hselect : ∀ s, I s → (identityResourcesByScope scopeNames s).filter
      (fun row => decide (row.id = id)) = [⟨id, r.toResourceColumns⟩] :=
    fun s hs => (hI s hs).filter_id (p := fun cols => decide (cols.name ∈ scopeNames))
      (decide_eq_true hname)
  have hone : (identityResourcesByScope scopeNames s₁).countP (fun row => decide (row.id = id))
      = 1 := by
    rw [List.countP_eq_length_filter, hselect s₁ hs₁, List.length_singleton]
  have hclaims : (s₁ .identityClaims).values.filter (fun x => decide (x.identityResourceId = id))
      = (r.userClaims.getD []).map fun x => ⟨x, id⟩ := by
    rw [← (hI s₁ hs₁).claims]
    exact (ownedBy_eq_filter_key s₁ (fun _ _ => Owner.identityResource.inj) (fun _ => rfl) id).symm
  -- The loop keeps the ids, so the selected row becomes the one object with this id.
  have hid : ∀ claims, ((fun x : Entities.IdentityResource P => decide (x.id = id))
      ∘ attachClaims claims) = fun row => decide (row.id = id) := by
    intro claims
    funext row
    rw [Function.comp_apply, attachClaims_eq]
  rw [List.filter_map, hid, hselect s₂ hs₂, List.map_singleton, List.map_singleton, attachClaims_eq,
    tryGetValue_groupBy, innerJoin_filter_key, hone, List.replicate_one, List.flatten_singleton,
    hclaims]
  obtain ⟨claims, hr⟩ := Option.isSome_iff_exists.mp hr
  simp [Models.IdentityResource.content, hr, Function.comp_def]

variable {κ : Type} {calls : κ → Call P} {db₀ : Db P}
  {x y : Pool (TableName.Columns P) Error Unit κ} {k : κ}

theorem CallsSound.storedResource (hx : CallsSound db₀ calls x) (ho : Pool.Ordered x)
    (h₀ : Owned db₀) (hsum : Log.cols (x.wrote k) = Delta.sum (r.inserts id))
    (hrow : x.wrote k .identityResources = [⟨id, r.toResourceColumns⟩]) :
    StoredResource x.store r id := by
  have hmem : ⟨id, r.toResourceColumns⟩ ∈ x.wrote k .identityResources := by simp [hrow]
  refine ⟨(hx.mem_rows_iff _ _).mpr (.inr ⟨k, hmem⟩), ?_⟩
  have hcols : Log.cols (x.wrote k) .identityClaims
      = (r.userClaims.getD []).map fun x => ⟨x, id⟩ := by
    rw [hsum]
    simp [Models.IdentityResource.inserts]
  have hown : HasOwnerIn (x.wrote k) (.identityResource id) := ⟨_, hmem, rfl⟩
  rw [hx.ownedBy_eq ho h₀ hown trivial, hcols, filter_owner_map fun _ => rfl]

variable [DecidableEq κ]

/-- **Identity resources among concurrent calls.**  Once the call for an identity
resource has returned, every lookup for its name returns it once and complete, whatever
statements of the other calls come in between. -/
theorem identityResource_beside_calls (h₀ : Owned db₀)
    (hx : Pool.Reaches (.start db₀ fun k => (calls k).program) x)
    (hcall : calls k = .identityResource r) (hret : x.left k = .ret ()) :
    ∃ id, x.wrote k .identityResources = [⟨id, r.toResourceColumns⟩] ∧
      ∀ scopeNames y res, r.name ∈ scopeNames →
        Pool.Beside x (findIdentityResourcesByScopeAsync scopeNames) y (Program.final res) →
        ∃ found, res = .ok found ∧
          (found.filter fun x => decide (x.id = id)).map (fun x => x.content) = [r.content] := by
  have hsettled := settled_of_reaches hx hret .refl
  have hwrote := hsettled.wrote
  have hcomplete := hsettled.complete
  rw [hcall] at hwrote hcomplete
  obtain ⟨id, hsum, hids⟩ := hwrote
  have hrow : x.wrote k .identityResources = [⟨id, r.toResourceColumns⟩] := by
    refine eq_singleton_of_ids_of_cols hids ((congrFun hsum _).trans ?_)
    simp [Models.IdentityResource.inserts]
  refine ⟨id, hrow, fun scopeNames y res hname h => ?_⟩
  have hstores : ∀ s, (∃ z, Pool.Reaches x z ∧ z.store = s) → StoredResource s r id := by
    rintro s ⟨z, hz, rfl⟩
    -- The log of the call is the one it had when it returned.
    have hkept := Pool.Ended.wrote_eq ⟨.ok (), hret⟩ hz
    have hsettled' := settled_of_reaches hx hret hz
    exact hsettled'.sound.storedResource hsettled'.ordered h₀ (by rw [hkept, hsum])
      (by rw [hkept, hrow])
  exact filter_of_mayEnd hcomplete hstores hname
    (h.mayEnd_final (readOnly_uploadIdentityResources _))

theorem identityResource_beside_calls_clientBesideResource :
    ∃ x, Pool.Reaches (.start Store.empty fun k => (clientBesideResource k).program) x ∧
      x.left false = .ret () ∧
      ∃ y found, Pool.Beside x (findIdentityResourcesByScopeAsync ["profile"]) y
          (Program.final (.ok found)) ∧
        (plainIdentityResource "profile" ["name"]).content ∈ found.map fun x => x.content := by
  obtain ⟨x, hx, hret, -, hothers⟩ := Pool.exists_ended
    (.start Store.empty fun k => (clientBesideResource k).program) false
  have hother : x.left true = (clientBesideResource true).program := hothers true (by simp)
  obtain ⟨p, s, hstatement⟩ : ∃ p s,
      Program.Step (clientBesideResource true).program x.store p s := ⟨_, _, .exec _ _ _⟩
  rw [← hother] at hstatement
  have hreader : Pool.Beside x (findIdentityResourcesByScopeAsync ["profile"]) _ _ :=
    .reader .refl (.exec _ _ _)
  have hend := (hreader.pool (.statement hstatement)).run_reader
  obtain ⟨id, -, hfound⟩ := identityResource_beside_calls owned_empty hx (k := false) rfl hret
  obtain ⟨found, hres, hcontent⟩ := hfound ["profile"] _ _ List.mem_cons_self hend
  rw [hres] at hend
  refine ⟨x, hx, hret, _, found, hend, ?_⟩
  have hmem : (plainIdentityResource "profile" ["name"]).content
      ∈ (found.filter fun x => decide (x.id = id)).map fun x => x.content := by
    rw [hcontent]
    exact List.mem_singleton.mpr rfl
  exact (List.filter_sublist.map _).subset hmem

end IdentityResource

/-! ### API resources -/

section ApiResource

variable {r : Models.ApiResource P} {κ : Type} {calls : κ → Call P} {db₀ : Db P}
  {x z : Pool (TableName.Columns P) Error Unit κ} {k : κ}

/-- What is stored for a resource is its content. -/
theorem storedContent_of_stored {db : Db P} {id : ℕ} {scopes : List (Models.Scope × ℕ)}
    (hr : r.Complete)
    (hsecrets : (ownedBy db .apiSecrets (.apiResource id)).Perm
      ((r.apiSecrets.getD []).map fun x => ⟨x, id⟩))
    (hclaims : (ownedBy db .apiResourceClaims (.apiResource id)).Perm
      ((r.userClaims.getD []).map fun x => ⟨x, id⟩))
    (hscopes : scopes.map Prod.fst = r.scopes.getD [])
    (hrows : (children db .apiScopes (.apiResource id)).Perm
      (scopes.map fun s => ⟨s.2, ⟨s.1.toScopeColumns, id⟩⟩))
    (hscopeClaims : ∀ s ∈ scopes, (ownedBy db .apiScopeClaims (.apiScope s.2)).Perm
      ((s.1.userClaims.getD []).map fun x => ⟨x, s.2⟩)) :
    storedContent db ⟨id, r.toResourceColumns⟩ = r.content := by
  obtain ⟨hsomeSecrets, hsomeScopes, hsomeScopeClaims, hsomeClaims⟩ := hr
  rw [storedContent_eq]
  refine ApiResourceContent.ext rfl ?_ ?_ ?_
  · show some _ = r.apiSecrets.map _
    rw [← some_getD hsomeSecrets, Option.map_some, Multiset.coe_eq_coe.mpr (hsecrets.map _)]
    simp [Function.comp_def]
  · show some _ = r.scopes.map _
    rw [← some_getD hsomeScopes, Option.map_some, Multiset.coe_eq_coe.mpr (hrows.map _), ← hscopes,
      List.map_map, List.map_map]
    refine congrArg some (congrArg _ (List.map_congr_left fun s hs => ?_))
    have hsome : s.1.userClaims.isSome :=
      hsomeScopeClaims s.1 (hscopes ▸ List.mem_map_of_mem hs)
    refine ScopeContent.ext rfl ?_
    show some _ = s.1.userClaims.map _
    rw [← some_getD hsome, Option.map_some, Multiset.coe_eq_coe.mpr ((hscopeClaims s hs).map _)]
    simp [Function.comp_def]
  · show some _ = r.userClaims.map _
    rw [← some_getD hsomeClaims, Option.map_some, Multiset.coe_eq_coe.mpr (hclaims.map _)]
    simp [Function.comp_def]

/-- Looking up a name gives back the stored content if all scopes of the resource carry
its id. -/
theorem findApiResourceAsync_stored_iff {db : Db P} (hunique : UniqueNames db)
    {row : ApiResourceRow P} (hrow : row ∈ (db .apiResources).rows) :
    (∃ found, ((findApiResourceAsync row.cols.name).run db).1 = .ok (some found) ∧
        found.content = storedContent db row) ↔
      ∀ s ∈ children db .apiScopes (.apiResource row.id), s.id = row.id := by
  have hname : apiResourceByName row.cols.name db = [row] := filter_key_eq_singleton hunique hrow
  have hselected := selected_byName hunique hrow
  simp only [run_findApiResourceAsync, hname, List.map_cons, List.map_nil, List.head?_cons,
    Except.ok.injEq, Option.some.injEq, exists_eq_left', content_loadApiResource]
  rw [storedContent, contentUnder_eq_iff]
  · refine forall₂_congr fun s _ => ?_
    rw [hselected]
    simp
  · rw [hselected, if_pos rfl]
  · intro s _
    rw [hselected]
    split <;> omega

variable [DecidableEq κ]

/-- **API resources among concurrent calls.**  Once the call for an API resource has
returned, looking up its name gives back what was inserted as long as no scope has an id
other than the resource's own.  Which ids the scopes get depends on the other calls. -/
theorem apiResource_beside_calls_iff (h₀ : Owned db₀)
    (hx : Pool.Reaches (.start db₀ fun k => (calls k).program) x)
    (hcall : calls k = .apiResource r) (hret : x.left k = .ret ()) :
    ∃ id, x.wrote k .apiResources = [⟨id, r.toResourceColumns⟩] ∧
      ∀ z, Pool.Reaches x z → UniqueNames z.store →
        ((∃ found, ((findApiResourceAsync r.name).run z.store).1 = .ok (some found) ∧
            found.content = r.content) ↔ ∀ s ∈ x.wrote k .apiScopes, s.id = id) := by
  have hsettled := settled_of_reaches hx hret .refl
  have hwrote := hsettled.wrote
  have hcomplete := hsettled.complete
  rw [hcall] at hwrote hcomplete
  obtain ⟨id, scopes, hscopes, hsum, hid, hids⟩ := hwrote
  have hcols : ∀ t, Log.cols (x.wrote k) t = Delta.sum (r.insertsUnder id scopes) t :=
    fun t => congrFun hsum t
  have hrow : x.wrote k .apiResources = [⟨id, r.toResourceColumns⟩] :=
    eq_singleton_of_ids_of_cols hid ((hcols _).trans (sum_inserts_apiResources r _ _))
  have hscopeRows : x.wrote k .apiScopes = scopes.map fun s => ⟨s.2, ⟨s.1.toScopeColumns, id⟩⟩ :=
    eq_map_of_ids_of_cols hids ((hcols _).trans (sum_inserts_apiScopes r _ _))
  refine ⟨id, hrow, fun z hz hunique => ?_⟩
  have hkept := Pool.Ended.wrote_eq ⟨.ok (), hret⟩ hz
  have hsettled' := settled_of_reaches hx hret hz
  have hwrote' := hsettled'.wrote
  rw [hcall] at hwrote'
  -- What is stored now is what the call wrote.
  obtain ⟨id', scopes', hrow', hsecrets, hclaims, hscopes', hchildren, hscopeClaims⟩ :=
    hsettled'.sound.stored_apiResource h₀ hwrote'
  obtain rfl : id' = id := by
    rw [hkept, hrow] at hrow'
    exact (Row.mk.inj (List.singleton_inj.mp hrow')).1.symm
  have hcontent := storedContent_of_stored hcomplete hsecrets hclaims hscopes' hchildren
    hscopeClaims
  have hmem : ⟨id', r.toResourceColumns⟩ ∈ z.wrote k .apiResources := by simp [hrow']
  have hown : HasOwnerIn (z.wrote k) (.apiResource id') := ⟨_, hmem, rfl⟩
  have hscopesOf : children z.store .apiScopes (.apiResource id') = x.wrote k .apiScopes := by
    rw [hsettled'.sound.children_eq hsettled'.ordered h₀ hown trivial, hkept, hscopeRows,
      List.filter_eq_self]
    intro row hrow
    obtain ⟨s, -, rfl⟩ := List.mem_map.mp hrow
    exact decide_eq_true rfl
  have hiff := findApiResourceAsync_stored_iff hunique
    ((hsettled'.sound.mem_rows_iff _ _).mpr (.inr ⟨k, hmem⟩))
  rw [hcontent, hscopesOf] at hiff
  exact hiff

/-- Two API resources with a scope each, inserted at the same time. -/
def apiBesideApi : Bool → Call Platform.plain
  | true => .apiResource (plainApiResource "web" ["web.read"])
  | false => .apiResource (plainApiResource "api" ["api.read"])

/-- The second call gets its scope in first, and the first resource is found without its
scope. -/
theorem apiResource_beside_calls_iff_apiBesideApi :
    ∃ x, Pool.Reaches (.start Store.empty fun k => (apiBesideApi k).program) x ∧
      x.left false = .ret () ∧
      ¬ ∃ found, ((findApiResourceAsync "api").run x.store).1 = .ok (some found) ∧
        found.content = (plainApiResource "api" ["api.read"]).content := by
  have hrows : Pool.Reaches (.start Store.empty fun k => (apiBesideApi k).program) _ :=
    (Relation.ReflTransGen.single (.statement (k := false) (.exec _ _ _))).tail
      (.statement (k := true) (.exec _ _ _))
  have hscope := (hrows.tail (.statement (k := true) (.exec _ _ _))).tail
    (.statement (k := true) (.exec _ _ _))
  have hsecrets := hscope.tail (.statement (k := false) (.exec _ _ _))
  have hown := hsecrets.tail (.statement (k := false) (.exec _ _ _))
  have hx := (hown.tail (.statement (k := false) (.exec _ _ _))).tail
    (.statement (k := false) (.exec _ _ _))
  obtain ⟨id, hrow, hiff⟩ := apiResource_beside_calls_iff owned_empty hx (k := false)
    (r := plainApiResource "api" ["api.read"]) rfl rfl
  have hids : [1] = [id] := congrArg (List.map Row.id) hrow
  obtain rfl : 1 = id := List.singleton_inj.mp hids
  refine ⟨_, hx, rfl, fun hfound => ?_⟩
  have hall := (hiff _ .refl (show ["api", "web"].Nodup by simp)).mp hfound
  -- The scope of the first resource is the second row.
  exact absurd (hall ⟨2, ⟨(plainScope "api.read").toScopeColumns, 1⟩⟩ List.mem_cons_self) (by simp)

end ApiResource

end IdentityLinq
