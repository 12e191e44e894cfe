/-
API resources over whole runs of `ComplexInsert` calls.

What a call inserts for an API resource is its content, complete and under its
own ids (`storedContent_run`), and no later call touches it
(`storedContent_runCalls`).  `FindApiResourceAsync` still does not give it back
in general, since it finds a scope by the scope's own `Id`:
`findApiResourceAsync_roundTrip_iff` says when it does.
-/
import IdentityLinq.ReadPaths

namespace IdentityLinq

variable {P : Platform}

/-! ### The rows of `ApiResource` -/

/-- The row the call adds to `ApiResource`, also if it throws later on. -/
def Call.apiResourceColumns : Call P → List (Models.ResourceColumns P.ApiResourceScalars)
  | client _ => []
  | apiResource r => [r.toResourceColumns]
  | identityResource _ => []

theorem Call.run_apiResources (call : Call P) (db : Db P) :
    call.run db .apiResources = (db .apiResources).bulkCopy call.apiResourceColumns := by
  cases call with
  | client c =>
    rw [Call.apiResourceColumns, Table.bulkCopy_nil]
    refine ((Call.client c).written_run db).apply_eq ?_
    simp [Call.inserts, Models.Client.inserts, Models.Client.childInserts]
  | apiResource r =>
    -- The parent row is in place wherever the call stops.
    rw [Call.run, (written_complexInsertApiResource r db).apply_eq
      (r.childInserts_of_ne (by decide) (by decide) (by decide) (by decide) _ _),
      Delta.addTo_apply, Delta.single_self]
    rfl
  | identityResource r =>
    rw [Call.apiResourceColumns, Table.bulkCopy_nil]
    refine ((Call.identityResource r).written_run db).apply_eq ?_
    simp [Call.inserts, Models.IdentityResource.inserts]

/-- The `ApiResource` table after a run. -/
theorem apiResources_runCalls (calls : List (Call P)) (db : Db P) :
    runCalls calls db .apiResources
      = (db .apiResources).bulkCopy (calls.flatMap Call.apiResourceColumns) :=
  runCalls_apply Call.run_apiResources calls db

/-! ### What one call stores -/

/-- The rows of `ApiScopeClaim` for scopes numbered from `n` on. -/
def scopeClaimRows (scopes : List Models.Scope) (n : ℕ) : List Entities.ApiScopeClaim :=
  (scopes.zipIdx n).flatMap fun s =>
    (s.1.userClaims.getD []).map fun x => { type := x, apiScopeId := s.2 }

/-- The inserts for an API resource under `id`, with the ids its scopes get. -/
def Models.ApiResource.insertsUnder (r : Models.ApiResource P) (id : ℕ)
    (scopes : List (Models.Scope × ℕ)) : List (Rows P) :=
  .single .apiResources [r.toResourceColumns]
    :: .single .apiSecrets ((r.apiSecrets.getD []).map fun x => ⟨x, id⟩)
    :: (scopes.flatMap fun s => s.1.inserts id s.2)
    ++ [.single .apiResourceClaims ((r.userClaims.getD []).map fun x => ⟨x, id⟩)]

/-- A call alone gets consecutive ids for its scopes. -/
theorem Models.ApiResource.inserts_eq (r : Models.ApiResource P) (id n : ℕ) :
    r.inserts id n = r.insertsUnder id ((r.scopes.getD []).zipIdx n) := rfl

/-- What the call for an API resource adds to a table. -/
theorem sum_inserts_apply (r : Models.ApiResource P) (id : ℕ) (scopes : List (Models.Scope × ℕ))
    (t : TableName) :
    Delta.sum (r.insertsUnder id scopes) t
      = Delta.single .apiResources [r.toResourceColumns] t
        ++ (Delta.single .apiSecrets ((r.apiSecrets.getD []).map fun x => ⟨x, id⟩) t
        ++ (scopes.flatMap (fun s =>
            (s.1.inserts id s.2 : List (Rows P)).flatMap fun δ => δ t)
        ++ Delta.single .apiResourceClaims ((r.userClaims.getD []).map fun x => ⟨x, id⟩) t)) := by
  have hscopes : Delta.sum (scopes.flatMap fun s => (s.1.inserts id s.2 : List (Rows P))) t
      = scopes.flatMap fun s => (s.1.inserts id s.2 : List (Rows P)).flatMap fun δ => δ t := by
    rw [Delta.sum_apply, List.flatMap_assoc]
  rw [Models.ApiResource.insertsUnder, List.cons_append, List.cons_append, Delta.sum_cons,
    Delta.sum_cons, Delta.sum_append, Delta.append_apply, Delta.append_apply, Delta.append_apply,
    hscopes, Delta.sum_cons, Delta.sum_nil, Delta.append_nil]

theorem sum_inserts_apiResources (r : Models.ApiResource P) (id : ℕ)
    (scopes : List (Models.Scope × ℕ)) :
    Delta.sum (r.insertsUnder id scopes) .apiResources = [r.toResourceColumns] := by
  rw [sum_inserts_apply]
  simp [Models.Scope.inserts]

theorem sum_inserts_apiSecrets (r : Models.ApiResource P) (id : ℕ)
    (scopes : List (Models.Scope × ℕ)) :
    Delta.sum (r.insertsUnder id scopes) .apiSecrets
      = (r.apiSecrets.getD []).map fun x => ⟨x, id⟩ := by
  rw [sum_inserts_apply]
  simp [Models.Scope.inserts]

theorem sum_inserts_apiResourceClaims (r : Models.ApiResource P) (id : ℕ)
    (scopes : List (Models.Scope × ℕ)) :
    Delta.sum (r.insertsUnder id scopes) .apiResourceClaims
      = (r.userClaims.getD []).map fun x => ⟨x, id⟩ := by
  rw [sum_inserts_apply]
  simp [Models.Scope.inserts]

theorem sum_inserts_apiScopes (r : Models.ApiResource P) (id : ℕ)
    (scopes : List (Models.Scope × ℕ)) :
    Delta.sum (r.insertsUnder id scopes) .apiScopes
      = scopes.map fun s => ⟨s.1.toScopeColumns, id⟩ := by
  rw [sum_inserts_apply]
  simp [Models.Scope.inserts, ← List.map_eq_flatMap]

theorem sum_inserts_apiScopeClaims (r : Models.ApiResource P) (id : ℕ)
    (scopes : List (Models.Scope × ℕ)) :
    Delta.sum (r.insertsUnder id scopes) .apiScopeClaims
      = scopes.flatMap fun s => (s.1.userClaims.getD []).map fun x => ⟨x, s.2⟩ := by
  rw [sum_inserts_apply]
  simp [Models.Scope.inserts]

/-- Among the claims of scopes with distinct ids, every scope finds its own. -/
theorem filter_scopeClaims {scopes : List (Models.Scope × ℕ)}
    (hids : (scopes.map Prod.snd).Nodup) {s : Models.Scope × ℕ} (hs : s ∈ scopes) :
    (scopes.flatMap fun s => (s.1.userClaims.getD []).map fun x =>
        (⟨x, s.2⟩ : Entities.ApiScopeClaim)).filter (fun c => decide (c.apiScopeId = s.2))
      = (s.1.userClaims.getD []).map fun x => ⟨x, s.2⟩ := by
  have hown : ∀ s' : Models.Scope × ℕ, ((s'.1.userClaims.getD []).map fun x =>
      (⟨x, s'.2⟩ : Entities.ApiScopeClaim)).filter (fun c => decide (c.apiScopeId = s.2))
        = if s'.2 = s.2 then (s'.1.userClaims.getD []).map fun x => ⟨x, s'.2⟩ else [] := by
    intro s'
    by_cases hid : s'.2 = s.2
    · simp [hid, List.filter_map, Function.comp_def]
    · simp [hid, List.filter_map, Function.comp_def]
  induction scopes with
  | nil => exact absurd hs List.not_mem_nil
  | cons s' scopes ih =>
    rw [List.map_cons, List.nodup_cons] at hids
    rw [List.flatMap_cons, List.filter_append, hown]
    rcases List.mem_cons.mp hs with rfl | hmem
    · -- No other scope has this id.
      have hothers : (scopes.flatMap fun s => (s.1.userClaims.getD []).map fun x =>
          (⟨x, s.2⟩ : Entities.ApiScopeClaim)).filter (fun c => decide (c.apiScopeId = s.2))
            = [] := by
        rw [List.filter_flatMap, List.flatMap_eq_nil_iff]
        intro s' hs'
        have hne : s'.2 ≠ s.2 := fun hid => hids.1 (hid ▸ List.mem_map_of_mem hs')
        rw [hown, if_neg hne]
      rw [if_pos rfl, hothers, List.append_nil]
    · have hne : s'.2 ≠ s.2 := fun hid => hids.1 (hid ▸ List.mem_map_of_mem hmem)
      rw [if_neg hne, List.nil_append, ih hids.2 hmem]

/-- Consecutive numbers are given to a list as `zipIdx` does. -/
theorem number_map {α ρ : Type} (f : α → ρ) (xs : List α) (n : ℕ) :
    number n (xs.map f) = (xs.zipIdx n).map fun x => ⟨x.2, f x.1⟩ := by
  induction xs generalizing n with
  | nil => rfl
  | cons x xs ih => rw [List.map_cons, number_cons, ih, List.zipIdx_cons, List.map_cons]

/-- Every scope finds its own claims under its number. -/
theorem map_scopeContent_number (id : ℕ) (scopes : List Models.Scope)
    (h : ∀ s ∈ scopes, s.userClaims.isSome) (n : ℕ) :
    (number n (scopes.map fun s => (⟨s.toScopeColumns, id⟩ : Entities.ApiScope))).map
        (fun s => (⟨s.cols.toScopeColumns, some ↑(((scopeClaimRows scopes n).filter
          fun c => decide (c.apiScopeId = s.id)).map (·.type))⟩ : ScopeContent))
      = scopes.map Models.Scope.content := by
  have hids : ((scopes.zipIdx n).map Prod.snd).Nodup := by
    rw [List.zipIdx_map_snd]
    exact List.nodup_range'
  have hscopes : scopes = (scopes.zipIdx n).map Prod.fst := List.zipIdx_map_fst n scopes |>.symm
  conv_rhs => rw [hscopes]
  rw [number_map, List.map_map, List.map_map]
  refine List.map_congr_left fun s hs => ?_
  obtain ⟨claims, hclaims⟩ := Option.isSome_iff_exists.mp
    (h s.1 (hscopes ▸ List.mem_map_of_mem hs))
  rw [Function.comp_apply, scopeClaimRows, filter_scopeClaims hids hs, hclaims]
  simp [Models.Scope.content, hclaims, Function.comp_def]

/-- What the new resource owns in a table, if the call adds `f x` for every `x` in
`xs` there. -/
theorem ownedBy_run {db : Db P} (h : Owned db) {r : Models.ApiResource P} (hr : r.Complete)
    {α : Type} {t : TableName} {xs : List α} {f : α → t.Columns P}
    (hsum : Delta.sum (r.inserts (db .apiResources).next (db .apiScopes).next) t = xs.map f)
    (hf : ∀ x, owner t (f x) = some (.apiResource (db .apiResources).next)) :
    ownedBy ((Call.apiResource r).run db) t (.apiResource (db .apiResources).next)
      = xs.map f := by
  have hnew : ¬ HasOwner db (.apiResource (db .apiResources).next) :=
    Table.not_exists_id (Nat.le_refl _)
  rw [(Call.apiResource r).run_of_complete hr, ownedBy_addTo, h.ownedBy_eq_nil hnew,
    List.nil_append, Call.inserts, hsum, filter_owner_map hf]

theorem children_apiScopes_run {db : Db P} (h : Owned db) {r : Models.ApiResource P}
    (hr : r.Complete) :
    children ((Call.apiResource r).run db) .apiScopes (.apiResource (db .apiResources).next)
      = number (db .apiScopes).next
          ((r.scopes.getD []).map fun s => ⟨s.toScopeColumns, (db .apiResources).next⟩) := by
  have hnew : ¬ HasOwner db (.apiResource (db .apiResources).next) :=
    Table.not_exists_id (Nat.le_refl _)
  have hnil : children db .apiScopes (.apiResource (db .apiResources).next) = [] :=
    h.children_eq_nil hnew .apiScopes
  have hscopes : (((r.scopes.getD []).zipIdx (db .apiScopes).next).map fun s =>
      (⟨s.1.toScopeColumns, (db .apiResources).next⟩ : Entities.ApiScope))
        = (r.scopes.getD []).map fun s => ⟨s.toScopeColumns, (db .apiResources).next⟩ := by
    conv_rhs => rw [← List.zipIdx_map_fst (db .apiScopes).next (r.scopes.getD []), List.map_map]
    rfl
  rw [(Call.apiResource r).run_of_complete hr, children_addTo, Call.inserts, r.inserts_eq,
    sum_inserts_apiScopes, hnil, List.nil_append, hscopes, List.filter_eq_self]
  intro s hs
  obtain ⟨s', -, hs'⟩ := List.mem_map.mp (mem_of_mem_number hs)
  rw [← hs']
  exact decide_eq_true rfl

theorem ownedBy_apiScope_run {db : Db P} (h : Owned db) {r : Models.ApiResource P}
    (hr : r.Complete) {id : ℕ} (hid : (db .apiScopes).next ≤ id) :
    ownedBy ((Call.apiResource r).run db) .apiScopeClaims (.apiScope id)
      = (scopeClaimRows (r.scopes.getD []) (db .apiScopes).next).filter
          fun c => decide (c.apiScopeId = id) := by
  have hnew : ¬ HasOwner db (.apiScope id) := Table.not_exists_id hid
  rw [(Call.apiResource r).run_of_complete hr, ownedBy_addTo, h.ownedBy_eq_nil hnew,
    List.nil_append, Call.inserts, r.inserts_eq, sum_inserts_apiScopeClaims]
  refine List.filter_congr fun c _ => decide_eq_decide.mpr ?_
  rw [owner, Option.some.injEq, Owner.apiScope.injEq]

theorem storedContent_eq (db : Db P) (row : ApiResourceRow P) :
    storedContent db row =
      { columns := row.cols
        apiSecrets := some ↑((ownedBy db .apiSecrets (.apiResource row.id)).map (·.toSecret))
        scopes := some ↑((children db .apiScopes (.apiResource row.id)).map fun s =>
          (⟨s.cols.toScopeColumns,
            some ↑((ownedBy db .apiScopeClaims (.apiScope s.id)).map (·.type))⟩ : ScopeContent))
        userClaims := some
          ↑((ownedBy db .apiResourceClaims (.apiResource row.id)).map (·.type)) } := by
  simp only [storedContent, contentUnder, scopeContent, one_nsmul, Multiset.replicate_one,
    Multiset.bind_singleton, Multiset.map_coe]

/-- **A call that returns stores the resource complete.** -/
theorem storedContent_run {db : Db P} (h : Owned db) {r : Models.ApiResource P}
    (hr : r.Complete) :
    storedContent ((Call.apiResource r).run db) ⟨(db .apiResources).next, r.toResourceColumns⟩
      = r.content := by
  obtain ⟨hsecrets, hscopes, hscopeClaims, hclaims⟩ := id hr
  obtain ⟨secrets, hsecrets⟩ := Option.isSome_iff_exists.mp hsecrets
  obtain ⟨scopes, hscopes⟩ := Option.isSome_iff_exists.mp hscopes
  obtain ⟨claims, hclaims⟩ := Option.isSome_iff_exists.mp hclaims
  rw [storedContent_eq, ownedBy_run h hr (sum_inserts_apiSecrets r _ _) fun _ => rfl,
    ownedBy_run h hr (sum_inserts_apiResourceClaims r _ _) fun _ => rfl,
    children_apiScopes_run h hr]
  rw [hscopes, Option.getD_some] at hscopeClaims
  refine ApiResourceContent.ext rfl ?_ ?_ ?_
  · simp [Models.ApiResource.content, hsecrets, Function.comp_def]
  · -- The scope rows carry the numbers under which their claims were inserted.
    rw [Models.ApiResource.content, hscopes, Option.map_some, Option.getD_some,
      ← map_scopeContent_number (db .apiResources).next scopes hscopeClaims (db .apiScopes).next]
    refine congrArg some (congrArg _ (List.map_congr_left fun s hs => ?_))
    rw [ownedBy_apiScope_run h hr (number_id_bounds hs).1, hscopes, Option.getD_some]
  · simp [Models.ApiResource.content, hclaims, Function.comp_def]

/-! ### Later calls -/

/-- **Later calls leave a stored resource alone.** -/
theorem storedContent_runCalls {db : Db P} {row : ApiResourceRow P}
    (hrow : row ∈ (db .apiResources).rows) (calls : List (Call P)) :
    storedContent (runCalls calls db) row = storedContent db row := by
  have hown : HasOwner db (.apiResource row.id) := ⟨row, hrow, rfl⟩
  have hkeep : ∀ t, children (runCalls calls db) t (.apiResource row.id)
      = children db t (.apiResource row.id) :=
    children_runCalls_of_hasOwner hown (fun _ => by simp) calls
  have hkeepScope : ∀ s ∈ (db .apiScopes).rows, ∀ t,
      children (runCalls calls db) t (.apiScope s.id) = children db t (.apiScope s.id) := by
    intro s hs
    have hscope : HasOwner db (.apiScope s.id) := ⟨s, hs, rfl⟩
    exact children_runCalls_of_hasOwner hscope (fun _ => by simp) calls
  rw [storedContent_eq, storedContent_eq]
  simp only [ownedBy, hkeep]
  refine ApiResourceContent.ext rfl rfl (congrArg some (congrArg _ ?_)) rfl
  refine List.map_congr_left fun s hs => ?_
  rw [hkeepScope s (List.mem_of_mem_filter hs)]

theorem uniqueNames_runCalls {calls : List (Call P)}
    (h : ((calls.flatMap Call.apiResourceColumns).map (·.name)).Nodup) :
    UniqueNames (runCalls calls (Store.empty : Db P)) := by
  have hvalues : (runCalls calls (Store.empty : Db P) .apiResources).values
      = calls.flatMap Call.apiResourceColumns := by
    rw [apiResources_runCalls, Table.values_bulkCopy]
    rfl
  rw [← hvalues, Table.values, List.map_map] at h
  exact h

theorem forall_number_id_eq_iff {α ρ : Type} {n id : ℕ} {xs : List α} {f : α → ρ} :
    (∀ r ∈ number n (xs.map f), r.id = id) ↔ xs = [] ∨ (∃ x, xs = [x]) ∧ n = id := by
  match xs with
  | [] => simp
  | [x] => simp
  | x :: y :: zs =>
    simp only [List.map_cons, number_cons, List.mem_cons, forall_eq_or_imp, reduceCtorEq,
      List.cons.injEq, and_false, exists_false, false_and, or_false, iff_false]
    omega

/-- **When `FindApiResourceAsync` gives back what was inserted**: if the resource
has no scopes, or one only, which got the number the resource got. -/
theorem findApiResourceAsync_roundTrip_iff (pre post : List (Call P)) {r : Models.ApiResource P}
    (hr : r.Complete)
    (hnames : (((pre ++ .apiResource r :: post).flatMap Call.apiResourceColumns).map
      (·.name)).Nodup) :
    (∃ x, ((findApiResourceAsync r.name).run
        (runCalls (pre ++ .apiResource r :: post) Store.empty)).1 = .ok (some x) ∧
        x.content = r.content) ↔
      r.scopes = some [] ∨ (∃ s, r.scopes = some [s]) ∧
        (runCalls pre (Store.empty : Db P) .apiScopes).next
          = (runCalls pre (Store.empty : Db P) .apiResources).next := by
  have hunique := uniqueNames_runCalls hnames
  have howned : Owned (runCalls pre (Store.empty : Db P)) := owned_runCalls pre
  rw [runCalls_append, runCalls_cons] at *
  generalize runCalls pre (Store.empty : Db P) = before at *
  set row : ApiResourceRow P := ⟨(before .apiResources).next, r.toResourceColumns⟩ with hrow
  -- The row of `r` is there after its call and stays.
  have hmem : row ∈ (((Call.apiResource r).run before) .apiResources).rows := by
    rw [Call.run_apiResources]
    exact List.mem_append_right _ List.mem_cons_self
  have hafter : row ∈ (runCalls post ((Call.apiResource r).run before) .apiResources).rows := by
    rw [apiResources_runCalls]
    exact List.mem_append_left _ hmem
  have hname : apiResourceByName r.name (runCalls post ((Call.apiResource r).run before)) = [row] :=
    filter_key_eq_singleton hunique hafter
  -- What is stored under it is what `r` has, whatever comes later.
  have hstored : storedContent (runCalls post ((Call.apiResource r).run before)) row
      = r.content := by
    rw [storedContent_runCalls hmem, storedContent_run howned hr]
  have hchildren : children (runCalls post ((Call.apiResource r).run before)) .apiScopes
      (.apiResource row.id) = number (before .apiScopes).next
        ((r.scopes.getD []).map fun s => ⟨s.toScopeColumns, row.id⟩) := by
    have hown : HasOwner ((Call.apiResource r).run before) (.apiResource row.id) :=
      ⟨row, hmem, rfl⟩
    rw [children_runCalls_of_hasOwner hown (fun _ => by simp) post]
    exact children_apiScopes_run howned hr
  -- Found by name, a scope is selected if its number is that of the resource.
  have hiff : contentUnder (selected (apiResourceByName r.name)
        (runCalls post ((Call.apiResource r).run before)))
        (runCalls post ((Call.apiResource r).run before)) row = r.content ↔
      ∀ s ∈ number (before .apiScopes).next ((r.scopes.getD []).map fun s =>
        (⟨s.toScopeColumns, row.id⟩ : Entities.ApiScope)), s.id = row.id := by
    have hselected := selected_byName hunique hafter
    rw [← hstored, storedContent, contentUnder_eq_iff]
    · rw [hchildren]
      refine forall₂_congr fun s _ => ?_
      rw [show r.name = row.cols.name from rfl, hselected]
      simp
    · rw [show r.name = row.cols.name from rfl, hselected, if_pos rfl]
    · intro s _
      rw [show r.name = row.cols.name from rfl, hselected]
      split <;> omega
  obtain ⟨scopes, hscopes⟩ := Option.isSome_iff_exists.mp hr.2.1
  simp only [run_findApiResourceAsync, hname, List.map_cons, List.map_nil, List.head?_cons,
    Except.ok.injEq, Option.some.injEq, exists_eq_left', content_loadApiResource]
  rw [hiff, forall_number_id_eq_iff, hscopes]
  simp only [Option.getD_some, Option.some.injEq, hrow]

theorem findApiResourceAsync_roundTrip_oneScope :
    ∃ x, ((findApiResourceAsync "api").run (runCalls oneScope Store.empty)).1 = .ok (some x) ∧
      x.content = (fullApiResource "api" ["api.read"]).content :=
  (findApiResourceAsync_roundTrip_iff (oneScope.take 2) (oneScope.drop 3)
    (r := fullApiResource "api" ["api.read"]) (by unfold Models.ApiResource.Complete; decide)
    (by decide)).mpr (.inr ⟨⟨_, rfl⟩, rfl⟩)

/-- One resource with two scopes is inserted, and comes back with one. -/
theorem not_findApiResourceAsync_roundTrip_twoScopes :
    (plainApiResource "api" ["api.read", "api.write"]).Complete ∧
      ¬ ∃ x, ((findApiResourceAsync "api").run twoScopes).1 = .ok (some x) ∧
        x.content = (plainApiResource "api" ["api.read", "api.write"]).content := by
  refine ⟨by unfold Models.ApiResource.Complete; decide, ?_⟩
  rintro ⟨x, hx, hcontent⟩
  have hone : ∃ x, ((findApiResourceAsync "api").run twoScopes).1 = .ok (some x) ∧
      x.content.scopes.map Multiset.card = some 1 := ⟨_, rfl, rfl⟩
  obtain ⟨x', hx', hcard⟩ := hone
  have heq : x = x' := Option.some.inj (Except.ok.inj (hx.symm.trans hx'))
  rw [← heq, hcontent] at hcard
  exact absurd hcard (by decide)

end IdentityLinq
