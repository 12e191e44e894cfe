/-
Runs of `ComplexInsert` calls, and who owns the rows they write.

The tables have no foreign keys.  A row of a child table names its owner all
the same: a client by its `ClientId`, an API resource, an API scope or an
identity resource by its `Id` (`owner`).  `Owned db` says that every child row
has its owner, and `children db t o` are the rows of table `t` that `o` owns
(`ownedBy db t o` without their ids).

* `owned_runCalls` — every run from new tables reaches an owned database, calls
  that throw half way included;
* `children_run_of_not_mayOwn` — a call leaves the children of every owner it does
  not write for alone;
* `children_runCalls_of_hasOwner` — so API resources, scopes and identity
  resources keep their children through every later run.
-/
import IdentityLinq.ComplexInsert

namespace IdentityLinq

variable {P : Platform}

/-! ### Calls -/

/-- A call of one of the overloads. -/
inductive Call (P : Platform) where
  | client (c : Models.Client P (Collection String))
  | apiResource (r : Models.ApiResource P)
  | identityResource (r : Models.IdentityResource P)

/-- The database after the call, whether it returned or threw. -/
def Call.run (db : Db P) : Call P → Db P
  | client c => ((complexInsertClient c).run db).2
  | apiResource r => ((complexInsertApiResource r).run db).2
  | identityResource r => ((complexInsertIdentityResource r).run db).2

/-- The calls one after the other. -/
def runCalls (calls : List (Call P)) (db : Db P) : Db P := calls.foldl Call.run db

/-- The call returns (see `complexInsertClient_returns_iff` and its siblings). -/
def Call.Complete : Call P → Prop
  | client c => c.Complete
  | apiResource r => r.Complete
  | identityResource r => r.Complete

/-- The inserts the call issues on `db`. -/
def Call.inserts (db : Db P) : Call P → List (Rows P)
  | client c => c.inserts
  | apiResource r => r.inserts (db .apiResources).next (db .apiScopes).next
  | identityResource r => r.inserts (db .identityResources).next

@[simp] theorem runCalls_cons (call : Call P) (calls : List (Call P)) (db : Db P) :
    runCalls (call :: calls) db = runCalls calls (call.run db) := rfl

theorem runCalls_append (calls calls' : List (Call P)) (db : Db P) :
    runCalls (calls ++ calls') db = runCalls calls' (runCalls calls db) :=
  List.foldl_append

/-- A table to which every call adds the rows `cols` says. -/
theorem runCalls_apply {t : TableName} {cols : Call P → List (t.Columns P)}
    (h : ∀ (call : Call P) (db : Db P), call.run db t = (db t).bulkCopy (cols call))
    (calls : List (Call P)) (db : Db P) :
    runCalls calls db t = (db t).bulkCopy (calls.flatMap cols) := by
  induction calls generalizing db with
  | nil => exact (Table.bulkCopy_nil _).symm
  | cons call calls ih => rw [runCalls_cons, ih, h, List.flatMap_cons, Table.bulkCopy_append]

theorem Call.written_run (call : Call P) (db : Db P) :
    Written db (call.inserts db) (call.run db) := by
  cases call with
  | client c => exact (issues_complexInsertClient c db).run
  | apiResource r => exact (issues_complexInsertApiResource r db).run
  | identityResource r => exact (issues_complexInsertIdentityResource r db).run

/-- A call that returns has issued all its inserts. -/
theorem Call.run_of_complete (call : Call P) (h : call.Complete) (db : Db P) :
    call.run db = (Delta.sum (call.inserts db)).addTo db := by
  cases call with
  | client c =>
    obtain ⟨a, ha⟩ := (complexInsertClient_returns_iff c db).mpr h
    exact (issues_complexInsertClient c db).run_ok ha
  | apiResource r =>
    obtain ⟨a, ha⟩ := (complexInsertApiResource_returns_iff r db).mpr h
    exact (issues_complexInsertApiResource r db).run_ok ha
  | identityResource r =>
    obtain ⟨a, ha⟩ := (complexInsertIdentityResource_returns_iff r db).mpr h
    exact (issues_complexInsertIdentityResource r db).run_ok ha

/-! ### Owners -/

/-- What a child row points to. -/
inductive Owner where
  | client (id : String)
  | apiResource (id : ℕ)
  | apiScope (id : ℕ)
  | identityResource (id : ℕ)
deriving DecidableEq, Repr

/-- The owner a row names; rows of `Client`, `ApiResource` and `IdentityResource`
have none. -/
def owner : (t : TableName) → t.Columns P → Option Owner
  | .clients, _ => none
  | .clientClaims, x => some (.client x.clientId)
  | .clientCorsOrigins, x => some (.client x.clientId)
  | .clientGrantTypes, x => some (.client x.clientId)
  | .clientIdPRestrictions, x => some (.client x.clientId)
  | .clientPostLogoutRedirectUris, x => some (.client x.clientId)
  | .clientRedirectUris, x => some (.client x.clientId)
  | .clientScopes, x => some (.client x.clientId)
  | .clientSecrets, x => some (.client x.clientId)
  | .apiResources, _ => none
  | .apiResourceClaims, x => some (.apiResource x.apiResourceId)
  | .apiScopes, x => some (.apiResource x.apiResourceId)
  | .apiScopeClaims, x => some (.apiScope x.apiScopeId)
  | .apiSecrets, x => some (.apiResource x.apiResourceId)
  | .identityClaims, x => some (.identityResource x.identityResourceId)
  | .identityResources, _ => none

/-- The owner's own row exists. -/
def HasOwner (db : Db P) : Owner → Prop
  | .client id => ∃ c ∈ (db .clients).values, c.clientId = id
  | .apiResource id => ∃ r ∈ (db .apiResources).rows, r.id = id
  | .apiScope id => ∃ r ∈ (db .apiScopes).rows, r.id = id
  | .identityResource id => ∃ r ∈ (db .identityResources).rows, r.id = id

/-- The rows of `t` that `o` owns. -/
def children (db : Db P) (t : TableName) (o : Owner) : List (Row (t.Columns P)) :=
  (db t).rows.filter fun x => decide (owner t x.cols = some o)

/-- The same without the rows' own ids. -/
def ownedBy (db : Db P) (t : TableName) (o : Owner) : List (t.Columns P) :=
  (children db t o).map Row.cols

/-- Every child row has its owner. -/
def Owned (db : Db P) : Prop :=
  ∀ t, ∀ x ∈ (db t).values, ∀ o, owner t x = some o → HasOwner db o

/-- The owners in `δ` satisfy `p`. -/
def OwnersIn (δ : Rows P) (p : Owner → Prop) : Prop :=
  ∀ t, ∀ x ∈ δ t, ∀ o, owner t x = some o → p o

theorem OwnersIn.mono {δ : Rows P} {p q : Owner → Prop} (h : OwnersIn δ p)
    (hpq : ∀ o, p o → q o) : OwnersIn δ q := fun t x hx o ho => hpq o (h t x hx o ho)

theorem OwnersIn.single {t : TableName} {xs : List (t.Columns P)} {p : Owner → Prop}
    (h : ∀ x ∈ xs, ∀ o, owner t x = some o → p o) : OwnersIn (.single t xs) p := by
  intro t' x hx
  by_cases ht : t' = t
  · subst ht
    rw [Delta.single_self] at hx
    exact h x hx
  · rw [Delta.single_of_ne ht] at hx
    exact absurd hx List.not_mem_nil

theorem OwnersIn.single_none {t : TableName} {xs : List (t.Columns P)} {p : Owner → Prop}
    (h : ∀ x : t.Columns P, owner t x = none) : OwnersIn (.single t xs) p :=
  .single fun x _ o ho => by rw [h x] at ho; exact nomatch ho

theorem OwnersIn.single_map {α : Type} {t : TableName} {xs : List α} {f : α → t.Columns P}
    {p : Owner → Prop} (o : Owner) (hf : ∀ a, owner t (f a) = some o) (hp : p o) :
    OwnersIn (.single t (xs.map f)) p := by
  refine .single fun x hx o' ho' => ?_
  obtain ⟨a, -, rfl⟩ := List.mem_map.mp hx
  rw [hf a, Option.some.injEq] at ho'
  exact ho' ▸ hp

theorem HasOwner.addTo {db : Db P} {o : Owner} (h : HasOwner db o) (δ : Rows P) :
    HasOwner (δ.addTo db) o := by
  cases o with
  | client id =>
    obtain ⟨c, hc, rfl⟩ := h
    exact ⟨c, by simp [hc], rfl⟩
  | apiResource id =>
    obtain ⟨r, hr, rfl⟩ := h
    exact ⟨r, List.mem_append_left _ hr, rfl⟩
  | apiScope id =>
    obtain ⟨r, hr, rfl⟩ := h
    exact ⟨r, List.mem_append_left _ hr, rfl⟩
  | identityResource id =>
    obtain ⟨r, hr, rfl⟩ := h
    exact ⟨r, List.mem_append_left _ hr, rfl⟩

theorem children_addTo (δ : Rows P) (db : Db P) (t : TableName) (o : Owner) :
    children (δ.addTo db) t o = children db t o ++
      (number (db t).next (δ t)).filter fun x => decide (owner t x.cols = some o) := by
  rw [children, Delta.addTo_apply, Table.rows_bulkCopy, List.filter_append]
  rfl

theorem ownedBy_eq_filter (db : Db P) (t : TableName) (o : Owner) :
    ownedBy db t o = (db t).values.filter fun x => decide (owner t x = some o) :=
  map_cols_filter (db t).rows fun x => decide (owner t x = some o)

/-- Where the owner is read off a foreign key, owning is having that key. -/
theorem ownedBy_eq_filter_key {κ : Type} [DecidableEq κ] (db : Db P) {t : TableName}
    {key : t.Columns P → κ} {mk : κ → Owner} (hmk : Function.Injective mk)
    (hkey : ∀ x, owner t x = some (mk (key x))) (k : κ) :
    ownedBy db t (mk k) = (db t).values.filter fun x => decide (key x = k) := by
  rw [ownedBy_eq_filter]
  refine List.filter_congr fun x _ => decide_eq_decide.mpr ?_
  rw [hkey x, Option.some.injEq, hmk.eq_iff]

/-- Rows built for `o` are all owned by `o`. -/
theorem filter_owner_map {α : Type} {t : TableName} {o : Owner} {f : α → t.Columns P}
    (hf : ∀ x, owner t (f x) = some o) (xs : List α) :
    (xs.map f).filter (fun x => decide (owner t x = some o)) = xs.map f := by
  rw [List.filter_eq_self]
  intro y hy
  obtain ⟨x, -, rfl⟩ := List.mem_map.mp hy
  exact decide_eq_true (hf x)

theorem ownedBy_addTo (δ : Rows P) (db : Db P) (t : TableName) (o : Owner) :
    ownedBy (δ.addTo db) t o
      = ownedBy db t o ++ (δ t).filter fun x => decide (owner t x = some o) := by
  rw [ownedBy_eq_filter, ownedBy_eq_filter, Delta.addTo_apply, Table.values_bulkCopy,
    List.filter_append]

/-- An owner without a row has no children either. -/
theorem Owned.children_eq_nil {db : Db P} (h : Owned db) {o : Owner} (ho : ¬ HasOwner db o)
    (t : TableName) : children db t o = [] := by
  rw [children, List.filter_eq_nil_iff]
  intro x hx hdec
  exact ho (h t x.cols (List.mem_map_of_mem hx) o (of_decide_eq_true hdec))

theorem Owned.ownedBy_eq_nil {db : Db P} (h : Owned db) {o : Owner} (ho : ¬ HasOwner db o)
    (t : TableName) : ownedBy db t o = [] := by
  rw [ownedBy, h.children_eq_nil ho, List.map_nil]

/-! ### Inserts in an order that keeps ownership -/

/-- Each of the inserts finds the owners of its rows in place. -/
def Owning (db : Db P) : List (Rows P) → Prop
  | [] => True
  | δ :: ds => OwnersIn δ (HasOwner db) ∧ Owning (δ.addTo db) ds

theorem Owned.addTo {db : Db P} (h : Owned db) {δ : Rows P} (hδ : OwnersIn δ (HasOwner db)) :
    Owned (δ.addTo db) := by
  intro t x hx o ho
  rw [Delta.addTo_apply, Table.values_bulkCopy] at hx
  rcases List.mem_append.mp hx with hx | hx
  · exact (h t x hx o ho).addTo δ
  · exact (hδ t x hx o ho).addTo δ

/-- Ownership is kept wherever the inserts stop. -/
theorem Owned.written {db db' : Db P} (h : Owned db) {ds : List (Rows P)} (hds : Owning db ds)
    (hw : Written db ds db') : Owned db' := by
  obtain ⟨ds', hpre, rfl⟩ := hw
  induction ds' generalizing db ds with
  | nil => rwa [Delta.sum_nil, Delta.nil_addTo]
  | cons δ ds' ih =>
    obtain ⟨ds₁, rfl⟩ := hpre
    rw [List.cons_append] at hds
    rw [Delta.sum_cons, Delta.append_addTo]
    exact ih (h.addTo hds.1) hds.2 (List.prefix_append ds' ds₁)

theorem owning_of_forall {db : Db P} {ds : List (Rows P)}
    (h : ∀ δ ∈ ds, OwnersIn δ (HasOwner db)) : Owning db ds := by
  induction ds generalizing db with
  | nil => trivial
  | cons δ ds ih =>
    refine ⟨h δ List.mem_cons_self, ih fun δ' hδ' => ?_⟩
    exact (h δ' (List.mem_cons_of_mem _ hδ')).mono fun o ho => ho.addTo δ

theorem owning_append {ds ds' : List (Rows P)} : ∀ {db : Db P},
    Owning db (ds ++ ds') ↔ Owning db ds ∧ Owning ((Delta.sum ds).addTo db) ds' := by
  induction ds with
  | nil => intro db; simp [Owning]
  | cons δ ds ih =>
    intro db
    rw [List.cons_append, Owning, Owning, ih, Delta.sum_cons, Delta.append_addTo, and_assoc]

theorem mem_rows_single (db : Db P) (t : TableName) (x : t.Columns P) :
    (⟨(db t).next, x⟩ : Row (t.Columns P)) ∈ ((Delta.single t [x]).addTo db t).rows := by
  simp

theorem Models.Client.owning_inserts (c : Models.Client P (Collection String)) (db : Db P) :
    Owning db c.inserts := by
  refine ⟨.single_none fun _ => rfl, owning_of_forall fun δ hδ => ?_⟩
  -- The row of `Client` comes first, and all the others name it.
  have hc : HasOwner ((Delta.single .clients [c.toClientColumns]).addTo db) (.client c.clientId) :=
    ⟨c.toClientColumns, by simp, rfl⟩
  simp only [Models.Client.childInserts, List.mem_cons, List.not_mem_nil, or_false] at hδ
  rcases hδ with rfl | rfl | rfl | rfl | rfl | rfl | rfl | rfl
  all_goals exact .single_map _ (fun _ => rfl) hc

/-- The scopes of an API resource that is in place. -/
theorem owning_scopes (id : ℕ) (scopes : List Models.Scope) :
    ∀ (db : Db P) (n : ℕ), (db .apiScopes).next = n → HasOwner db (.apiResource id) →
      Owning db ((scopes.zipIdx n).flatMap fun s => s.1.inserts id s.2) := by
  induction scopes with
  | nil => exact fun _ _ _ _ => trivial
  | cons s scopes ih =>
    rintro db n rfl hid
    rw [List.zipIdx_cons, List.flatMap_cons, owning_append]
    -- The scope row names the resource, and its claims the scope row.
    refine ⟨⟨.single fun x hx o ho => ?_, .single_map (.apiScope _) (fun _ => rfl) ?_, trivial⟩, ?_⟩
    · obtain rfl := List.mem_singleton.mp hx
      cases ho
      exact hid
    · exact ⟨_, mem_rows_single db .apiScopes _, rfl⟩
    · exact ih _ _ (next_apiScopes_inserts s id _ db) (hid.addTo _)

theorem Models.ApiResource.owning_inserts (r : Models.ApiResource P) (db : Db P) :
    Owning db (r.inserts (db .apiResources).next (db .apiScopes).next) := by
  have hr : HasOwner ((Delta.single .apiResources [r.toResourceColumns]).addTo db)
      (.apiResource (db .apiResources).next) :=
    ⟨_, mem_rows_single db .apiResources r.toResourceColumns, rfl⟩
  refine ⟨.single_none fun _ => rfl, .single_map _ (fun _ => rfl) hr, ?_⟩
  refine owning_append.mpr ⟨owning_scopes _ _ _ _ ?_ (hr.addTo _), ?_⟩
  · simp
  · exact ⟨.single_map _ (fun _ => rfl) ((hr.addTo _).addTo _), trivial⟩

theorem Models.IdentityResource.owning_inserts (r : Models.IdentityResource P) (db : Db P) :
    Owning db (r.inserts (db .identityResources).next) := by
  refine ⟨.single_none fun _ => rfl, .single_map (.identityResource _) (fun _ => rfl) ?_, trivial⟩
  exact ⟨_, mem_rows_single db .identityResources r.toResourceColumns, rfl⟩

theorem Call.owning_inserts (call : Call P) (db : Db P) : Owning db (call.inserts db) := by
  cases call with
  | client c => exact c.owning_inserts db
  | apiResource r => exact r.owning_inserts db
  | identityResource r => exact r.owning_inserts db

theorem owned_empty : Owned (Store.empty : Db P) := by
  intro t x hx
  exact absurd hx (by simp [Store.empty])

theorem Owned.run {db : Db P} (h : Owned db) (call : Call P) : Owned (call.run db) :=
  h.written (call.owning_inserts db) (call.written_run db)

/-- **Every run keeps ownership**, calls that throw included. -/
theorem Owned.runCalls {db : Db P} (h : Owned db) (calls : List (Call P)) :
    Owned (runCalls calls db) := by
  induction calls generalizing db with
  | nil => exact h
  | cons call calls ih => exact ih (h.run call)

theorem owned_runCalls (calls : List (Call P)) : Owned (runCalls calls (Store.empty : Db P)) :=
  owned_empty.runCalls calls

/-! ### What a call leaves alone -/

/-- The owners a call may write rows for: its client, or a resource or scope
that does not exist yet. -/
def Call.MayOwn (db : Db P) : Call P → Owner → Prop
  | client c, o => o = .client c.clientId
  | apiResource _, .apiResource id => (db .apiResources).next ≤ id
  | apiResource _, .apiScope id => (db .apiScopes).next ≤ id
  | identityResource _, .identityResource id => (db .identityResources).next ≤ id
  | _, _ => False

theorem Call.ownersIn_inserts (call : Call P) (db : Db P) :
    ∀ δ ∈ call.inserts db, OwnersIn δ (call.MayOwn db) := by
  intro δ hδ
  cases call with
  | client c =>
    simp only [Call.inserts, Models.Client.inserts, Models.Client.childInserts, List.mem_cons,
      List.not_mem_nil, or_false] at hδ
    rcases hδ with rfl | rfl | rfl | rfl | rfl | rfl | rfl | rfl | rfl
    · exact .single_none fun _ => rfl
    all_goals exact .single_map _ (fun _ => rfl) rfl
  | apiResource r =>
    have hid : (Call.apiResource r).MayOwn db (.apiResource (db .apiResources).next) :=
      le_refl (db .apiResources).next
    simp only [Call.inserts, Models.ApiResource.inserts, Models.ApiResource.childInserts,
      List.mem_append, List.mem_cons, List.not_mem_nil, or_false, List.mem_flatMap] at hδ
    rcases hδ with rfl | (rfl | ⟨⟨s, n⟩, hs, hδ⟩) | rfl
    · exact .single_none fun _ => rfl
    · exact .single_map _ (fun _ => rfl) hid
    · simp only [Models.Scope.inserts, List.mem_cons, List.not_mem_nil, or_false] at hδ
      rcases hδ with rfl | rfl
      · refine .single fun x hx o ho => ?_
        obtain rfl := List.mem_singleton.mp hx
        cases ho
        exact hid
      · exact .single_map (.apiScope n) (fun _ => rfl) (List.mem_zipIdx hs).1
    · exact .single_map _ (fun _ => rfl) hid
  | identityResource r =>
    simp only [Call.inserts, Models.IdentityResource.inserts, List.mem_cons, List.not_mem_nil,
      or_false] at hδ
    have hid : (Call.identityResource r).MayOwn db
        (.identityResource (db .identityResources).next) := le_refl (db .identityResources).next
    rcases hδ with rfl | rfl
    · exact .single_none fun _ => rfl
    · exact .single_map _ (fun _ => rfl) hid

/-- Existing resources and scopes are nobody's new owners. -/
theorem Call.not_mayOwn_of_hasOwner {call : Call P} {db : Db P} {o : Owner}
    (ho : HasOwner db o) (hclient : ∀ id, o ≠ .client id) : ¬ call.MayOwn db o := by
  intro h
  -- Only a call of the owner's kind could write for it, and only under a new id.
  cases o with
  | client id => exact hclient id rfl
  | apiResource id =>
    cases call with
    | client c => exact absurd h (by simp [Call.MayOwn])
    | apiResource r => exact Table.not_exists_id h ho
    | identityResource r => exact h
  | apiScope id =>
    cases call with
    | client c => exact absurd h (by simp [Call.MayOwn])
    | apiResource r => exact Table.not_exists_id h ho
    | identityResource r => exact h
  | identityResource id =>
    cases call with
    | client c => exact absurd h (by simp [Call.MayOwn])
    | apiResource r => exact h
    | identityResource r => exact Table.not_exists_id h ho

/-- A part of the inserts has no rows for an owner the call does not write for. -/
theorem Call.filter_owner_eq_nil {call : Call P} {db : Db P} {o : Owner}
    (ho : ¬ call.MayOwn db o) {ds : List (Rows P)} (hds : ds <+: call.inserts db)
    (t : TableName) (n : ℕ) :
    (number n (Delta.sum ds t)).filter (fun x => decide (owner t x.cols = some o)) = [] := by
  rw [List.filter_eq_nil_iff]
  intro x hx hdec
  have hcols := mem_of_mem_number hx
  rw [Delta.sum_apply] at hcols
  obtain ⟨δ, hδ, hx⟩ := List.mem_flatMap.mp hcols
  exact ho (call.ownersIn_inserts db δ (hds.subset hδ) t _ hx o (of_decide_eq_true hdec))

/-- **A call leaves the children of other owners alone.** -/
theorem children_run_of_not_mayOwn {call : Call P} {db : Db P} {o : Owner}
    (ho : ¬ call.MayOwn db o) (t : TableName) : children (call.run db) t o = children db t o := by
  obtain ⟨ds, hds, hrun⟩ := call.written_run db
  rw [hrun, children_addTo, call.filter_owner_eq_nil ho hds, List.append_nil]

theorem HasOwner.run {db : Db P} {o : Owner} (h : HasOwner db o) (call : Call P) :
    HasOwner (call.run db) o := by
  obtain ⟨ds, -, hrun⟩ := call.written_run db
  rw [hrun]
  exact h.addTo _

/-- **Resources and scopes keep their children** through every later run. -/
theorem children_runCalls_of_hasOwner {db : Db P} {o : Owner} (ho : HasOwner db o)
    (hclient : ∀ id, o ≠ .client id) (calls : List (Call P)) (t : TableName) :
    children (runCalls calls db) t o = children db t o := by
  induction calls generalizing db with
  | nil => rfl
  | cons call calls ih =>
    rw [runCalls_cons, ih (ho.run call),
      children_run_of_not_mayOwn (Call.not_mayOwn_of_hasOwner ho hclient)]

end IdentityLinq
