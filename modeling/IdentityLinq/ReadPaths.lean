/-
The three ways to read an API resource, compared.

`FindApiResourcesByScopeAsync` selects a resource once for every one of its
scopes that is asked for (`selected_apiResourcesByScope`), since its query is a
join that keeps duplicates.  So

* `findApiResourcesByScopeAsync_exact_iff` — it returns every matching resource
  once exactly if no resource has two matching scopes;
* `readPathsAgree_iff` — it agrees with `FindApiResourceAsync` and
  `GetAllResources` on a resource only if that resource is selected once, or
  has nothing that could be repeated; and for the other two to agree, the
  resource must own no scope that carries the `Id` of another resource.
-/
import IdentityLinq.Platform
import IdentityLinq.ResourceContent

namespace IdentityLinq

variable {P : Platform}

/-! ### The query by scope names -/

/-- The number of scopes the resource `id` owns whose name is asked for. -/
def matchingScopes (scopeNames : List String) (db : Db P) (id : ℕ) : ℕ :=
  (db .apiScopes).rows.countP fun s =>
    decide (s.cols.apiResourceId = id) && decide (s.cols.name ∈ scopeNames)

theorem apiResourcesByScope_eq (scopeNames : List String) (db : Db P) :
    apiResourcesByScope scopeNames db = (db .apiResources).rows.flatMap fun a =>
      List.replicate (matchingScopes scopeNames db a.id) a :=
  innerJoin_filter_fst (db .apiResources).rows (db .apiScopes).rows Row.id (·.cols.apiResourceId)
    fun s => decide (s.cols.name ∈ scopeNames)

theorem mem_apiResourcesByScope {scopeNames : List String} {db : Db P} {a : ApiResourceRow P} :
    a ∈ apiResourcesByScope scopeNames db ↔
      a ∈ (db .apiResources).rows ∧ 0 < matchingScopes scopeNames db a.id := by
  rw [apiResourcesByScope_eq, List.mem_flatMap]
  constructor
  · rintro ⟨a', ha', hmem⟩
    obtain ⟨hpos, rfl⟩ := List.mem_replicate.mp hmem
    exact ⟨ha', Nat.pos_of_ne_zero hpos⟩
  · rintro ⟨ha, hpos⟩
    exact ⟨a, ha, List.mem_replicate.mpr ⟨hpos.ne', rfl⟩⟩

/-- Every resource is selected once for each of its matching scopes. -/
theorem selected_apiResourcesByScope (scopeNames : List String) (db : Db P) (id : ℕ) :
    selected (apiResourcesByScope scopeNames) db id
      = if ∃ row ∈ (db .apiResources).rows, row.id = id then matchingScopes scopeNames db id
        else 0 := by
  split
  · next h =>
    obtain ⟨row, hrow, rfl⟩ := h
    rw [selected, apiResourcesByScope_eq,
      countP_flatMap_replicate (db .apiResources).rows Row.id (matchingScopes scopeNames db),
      (db .apiResources).countP_id hrow, Nat.mul_one]
  · next h =>
    exact selected_eq_zero fun row hrow hid => h ⟨row, (mem_apiResourcesByScope.mp hrow).1, hid⟩

/-! ### The result of the query -/

/-- The row an API resource object was built from. -/
def Entities.ApiResource.row (x : Entities.ApiResource P) : ApiResourceRow P :=
  ⟨x.id, x.toResourceColumns⟩

@[simp] theorem row_loadApiResource (query : Db P → List (ApiResourceRow P)) (db : Db P)
    (a : ApiResourceRow P) : (loadApiResource query db a).row = a := rfl

/-- The resources that own a scope whose name is asked for. -/
def owningResources (scopeNames : List String) (db : Db P) : List (ApiResourceRow P) :=
  (db .apiResources).rows.filter fun a => decide (∃ s ∈ (db .apiScopes).rows,
    s.cols.apiResourceId = a.id ∧ s.cols.name ∈ scopeNames)

theorem matchingScopes_pos_iff {scopeNames : List String} {db : Db P} {id : ℕ} :
    0 < matchingScopes scopeNames db id ↔
      ∃ s ∈ (db .apiScopes).rows, s.cols.apiResourceId = id ∧ s.cols.name ∈ scopeNames := by
  rw [matchingScopes, List.countP_pos_iff]
  simp only [Bool.and_eq_true, decide_eq_true_eq]

/-- Repeating every element at most once is selecting. -/
theorem flatMap_replicate_eq_filter {α : Type} (xs : List α) (n : α → ℕ)
    (h : ∀ a ∈ xs, n a ≤ 1) :
    (xs.flatMap fun a => List.replicate (n a) a) = xs.filter fun a => decide (0 < n a) := by
  induction xs with
  | nil => rfl
  | cons a xs ih =>
    rw [List.flatMap_cons, ih fun b hb => h b (List.mem_cons_of_mem _ hb)]
    have ha := h a List.mem_cons_self
    rcases (show n a = 0 ∨ n a = 1 by omega) with h0 | h1
    · rw [h0, List.filter_cons_of_neg (by simp [h0])]
      rfl
    · rw [h1, List.filter_cons_of_pos (by simp [h1])]
      rfl

/-- **`FindApiResourcesByScopeAsync` is exact where no resource has two matching
scopes**, and only there: it returns the resources that own a matching scope,
each once. -/
theorem findApiResourcesByScopeAsync_exact_iff (db : Db P) (scopeNames : List String) :
    (∃ apis, ((findApiResourcesByScopeAsync scopeNames).run db).1 = .ok apis ∧
        (apis.map (·.row)).Perm (owningResources scopeNames db)) ↔
      ∀ a ∈ (db .apiResources).rows, matchingScopes scopeNames db a.id ≤ 1 := by
  have hrun : ∀ apis, ((findApiResourcesByScopeAsync scopeNames).run db).1 = .ok apis →
      apis.map (·.row) = apiResourcesByScope scopeNames db := by
    intro apis hapis
    rw [run_findApiResourcesByScopeAsync] at hapis
    cases hapis
    simp [Function.comp_def]
  constructor
  · rintro ⟨apis, hapis, hperm⟩ a ha
    rw [hrun apis hapis] at hperm
    -- The count of an id on the other side is at most its count in the table.
    have hcount := hperm.countP_eq fun b => decide (b.id = a.id)
    rw [← selected, selected_apiResourcesByScope, if_pos ⟨a, ha, rfl⟩] at hcount
    rw [hcount, ← (db .apiResources).countP_id ha]
    exact List.filter_sublist.countP_le
  · intro h
    refine ⟨_, by rw [run_findApiResourcesByScopeAsync], ?_⟩
    rw [hrun _ (by rw [run_findApiResourcesByScopeAsync]), apiResourcesByScope_eq,
      flatMap_replicate_eq_filter _ _ h]
    simp only [matchingScopes_pos_iff]
    exact List.Perm.refl _

/-- One API resource with two scopes, inserted into new tables. -/
def twoScopes : Db Platform.plain :=
  runCalls [.apiResource (plainApiResource "api" ["api.read", "api.write"])] Store.empty

/-- Asked for both scopes, the query returns the resource twice. -/
theorem not_exact_twoScopes :
    ¬ ∃ apis,
      ((findApiResourcesByScopeAsync ["api.read", "api.write"]).run twoScopes).1 = .ok apis ∧
      (apis.map (·.row)).Perm (owningResources ["api.read", "api.write"] twoScopes) := by
  rintro ⟨apis, hapis, hperm⟩
  have htwice : ∃ apis, ((findApiResourcesByScopeAsync ["api.read", "api.write"]).run twoScopes).1
      = .ok apis ∧ apis.length = 2 := ⟨_, rfl, rfl⟩
  obtain ⟨apis', hapis', hlength'⟩ := htwice
  have heq : apis = apis' := Except.ok.inj (hapis.symm.trans hapis')
  have hlength := hperm.length_eq
  rw [List.length_map, heq, hlength'] at hlength
  exact absurd hlength (by decide)

/-! ### The three paths -/

/-- One content for the resource `a`: found by name, among all resources, and in
every object that the query by scope names returns for it. -/
def ReadPathsAgree (db : Db P) (a : ApiResourceRow P) (scopeNames : List String) : Prop :=
  ∃ content : ApiResourceContent P,
    (∃ x, ((findApiResourceAsync a.cols.name).run db).1 = .ok (some x) ∧
      x.id = a.id ∧ x.content = content) ∧
    (∃ apis, ((findApiResourcesByScopeAsync scopeNames).run db).1 = .ok apis ∧
      (∃ x ∈ apis, x.id = a.id) ∧ ∀ x ∈ apis, x.id = a.id → x.content = content) ∧
    ∃ all, (getAllResources.run db).1 = .ok all ∧
      (∃ x ∈ all.apiResources, x.id = a.id) ∧
      ∀ x ∈ all.apiResources, x.id = a.id → x.content = content

/-- The scopes of `a` that carry the `Id` of an API resource carry that of `a`. -/
def ScopesInStep (db : Db P) (a : ApiResourceRow P) : Prop :=
  ∀ s ∈ children db .apiScopes (.apiResource a.id),
    (∃ b ∈ (db .apiResources).rows, b.id = s.id) → s.id = a.id

instance (db : Db P) (a : ApiResourceRow P) : Decidable (ScopesInStep db a) :=
  inferInstanceAs (Decidable (∀ s ∈ children db .apiScopes (.apiResource a.id),
    (∃ b ∈ (db .apiResources).rows, b.id = s.id) → s.id = a.id))

/-- Nothing of `a` is loaded that could be repeated. -/
def NothingToRepeat (db : Db P) (a : ApiResourceRow P) : Prop :=
  ownedBy db .apiSecrets (.apiResource a.id) = [] ∧
    ownedBy db .apiResourceClaims (.apiResource a.id) = [] ∧
    ∀ s ∈ children db .apiScopes (.apiResource a.id), s.id ≠ a.id

/-- The objects that a query returns for `a`. -/
theorem content_of_mem_load (query : Db P → List (ApiResourceRow P)) {db : Db P}
    (hquery : query db ⊆ (db .apiResources).rows) {a : ApiResourceRow P}
    (ha : a ∈ (db .apiResources).rows) {x : Entities.ApiResource P}
    (hx : x ∈ (query db).map (loadApiResource query db)) (hid : x.id = a.id) :
    x.content = contentUnder (selected query db) db a := by
  obtain ⟨row, hrow, rfl⟩ := List.mem_map.mp hx
  obtain rfl := (db .apiResources).eq_of_id_eq (hquery hrow) ha hid
  exact content_loadApiResource query db row

theorem apiResourcesByScope_subset (scopeNames : List String) (db : Db P) :
    apiResourcesByScope scopeNames db ⊆ (db .apiResources).rows :=
  fun _ ha => (mem_apiResourcesByScope.mp ha).1

/-- The paths agree if their counts have the same content. -/
theorem readPathsAgree_iff_contents {db : Db P} (hdb : UniqueNames db) {a : ApiResourceRow P}
    (ha : a ∈ (db .apiResources).rows) {scopeNames : List String}
    (hnames : 0 < matchingScopes scopeNames db a.id) :
    ReadPathsAgree db a scopeNames ↔
      contentUnder (selected (apiResourceByName a.cols.name) db) db a
        = contentUnder (selected (fun db => (db .apiResources).rows) db) db a ∧
      contentUnder (selected (apiResourceByName a.cols.name) db) db a
        = contentUnder (selected (apiResourcesByScope scopeNames) db) db a := by
  -- By name `a` alone is selected, so the other two are compared with its content there.
  have hname : apiResourceByName a.cols.name db = [a] := filter_key_eq_singleton hdb ha
  have hsub := apiResourcesByScope_subset scopeNames db
  have hmem : loadApiResource (apiResourcesByScope scopeNames) db a
      ∈ (apiResourcesByScope scopeNames db).map
          (loadApiResource (apiResourcesByScope scopeNames) db) :=
    List.mem_map_of_mem (mem_apiResourcesByScope.mpr ⟨ha, hnames⟩)
  simp only [ReadPathsAgree, run_findApiResourceAsync, run_findApiResourcesByScopeAsync,
    run_getAllResources, hname, List.map_cons, List.map_nil, List.head?_cons, Except.ok.injEq,
    Option.some.injEq, exists_eq_left']
  rw [← content_loadApiResource]
  constructor
  · rintro ⟨content, ⟨-, rfl⟩, ⟨-, hscope⟩, -, hall⟩
    refine ⟨?_, ?_⟩
    · exact (hall _ (List.mem_map_of_mem ha) rfl).symm.trans
        (content_loadApiResource (fun db => (db .apiResources).rows) db a)
    · exact (hscope _ hmem rfl).symm.trans (content_loadApiResource _ db a)
  · rintro ⟨hall, hscope⟩
    refine ⟨_, ⟨rfl, rfl⟩, ⟨⟨_, hmem, rfl⟩, fun x hx hid => ?_⟩,
      ⟨_, List.mem_map_of_mem ha, rfl⟩, fun x hx hid => ?_⟩
    · rw [content_of_mem_load _ hsub ha hx hid, hscope]
    · rw [content_of_mem_load (fun db => (db .apiResources).rows) (List.Subset.refl _)
        ha hx hid, hall]

theorem contentUnder_byName_eq_apiResources_iff {db : Db P} (hdb : UniqueNames db)
    {a : ApiResourceRow P} (ha : a ∈ (db .apiResources).rows) :
    contentUnder (selected (apiResourceByName a.cols.name) db) db a
        = contentUnder (selected (fun db => (db .apiResources).rows) db) db a ↔
      ScopesInStep db a := by
  have hcount : ∀ id, (if id = a.id then 1 else 0)
      ≤ if ∃ row ∈ (db .apiResources).rows, row.id = id then 1 else 0 := by
    intro id
    split
    · next h =>
      subst h
      rw [if_pos ⟨a, ha, rfl⟩]
    · exact Nat.zero_le _
  rw [contentUnder_eq_iff]
  · refine forall₂_congr fun s _ => ?_
    rw [selected_byName hdb ha, selected_apiResources]
    have hle := hcount s.id
    split at hle <;> split at hle <;> simp_all
  · rw [selected_byName hdb ha, selected_apiResources, if_pos rfl, if_pos ⟨a, ha, rfl⟩]
  · intro s _
    rw [selected_byName hdb ha, selected_apiResources]
    exact hcount s.id

/-- Repeating a list leaves it alone only once, or if it is empty. -/
theorem nsmul_coe_eq_iff {α : Type} {n : ℕ} {xs : List α} :
    (1 • (xs : Multiset α)) = n • (xs : Multiset α) ↔ n = 1 ∨ xs = [] := by
  constructor
  · intro h
    have hcard := congrArg Multiset.card h
    rw [Multiset.card_nsmul, Multiset.card_nsmul, Multiset.coe_card] at hcard
    rcases Nat.eq_zero_or_pos xs.length with h0 | hpos
    · exact .inr (List.length_eq_zero_iff.mp h0)
    · exact .inl (Nat.eq_of_mul_eq_mul_right hpos hcard).symm
  · rintro (rfl | rfl)
    · rfl
    · rw [Multiset.coe_nil, nsmul_zero, nsmul_zero]

/-- Finding `a` by name and by the names of its scopes. -/
theorem contentUnder_byName_eq_byScope_iff {db : Db P} (hdb : UniqueNames db)
    {a : ApiResourceRow P} (ha : a ∈ (db .apiResources).rows) {scopeNames : List String}
    (hnames : 0 < matchingScopes scopeNames db a.id) (hstep : ScopesInStep db a) :
    contentUnder (selected (apiResourceByName a.cols.name) db) db a
        = contentUnder (selected (apiResourcesByScope scopeNames) db) db a ↔
      matchingScopes scopeNames db a.id = 1 ∨ NothingToRepeat db a := by
  -- On the scopes of `a` the two count alike but for the scope with the `Id` of `a`.
  have hne : ∀ s ∈ children db .apiScopes (.apiResource a.id), s.id ≠ a.id →
      selected (apiResourceByName a.cols.name) db s.id = 0 ∧
        selected (apiResourcesByScope scopeNames) db s.id = 0 := by
    intro s hs hid
    rw [selected_byName hdb ha, selected_apiResourcesByScope, if_neg hid,
      if_neg fun h => hid (hstep s hs h)]
    exact ⟨rfl, rfl⟩
  have hrow : selected (apiResourceByName a.cols.name) db a.id = 1 :=
    (selected_byName hdb ha a.id).trans (if_pos rfl)
  have hrow' : selected (apiResourcesByScope scopeNames) db a.id
      = matchingScopes scopeNames db a.id :=
    (selected_apiResourcesByScope scopeNames db a.id).trans (if_pos ⟨a, ha, rfl⟩)
  have hle : ∀ s ∈ children db .apiScopes (.apiResource a.id),
      selected (apiResourceByName a.cols.name) db s.id
        ≤ selected (apiResourcesByScope scopeNames) db s.id := by
    intro s hs
    by_cases hid : s.id = a.id
    · rw [hid, hrow, hrow']
      exact hnames
    · rw [(hne s hs hid).1]
      exact Nat.zero_le _
  constructor
  · intro h
    have hsecrets := Option.some.inj (congrArg ApiResourceContent.apiSecrets h)
    have hclaims := Option.some.inj (congrArg ApiResourceContent.userClaims h)
    have hscopes := eq_of_bind_replicate_eq (fun s hs => hle s (Multiset.mem_coe.mp hs))
      (Option.some.inj (congrArg ApiResourceContent.scopes h))
    -- Secrets and claims are repeated like the row: that is seen unless there are none.
    rw [hrow, hrow', nsmul_coe_eq_iff, List.map_eq_nil_iff] at hsecrets hclaims
    rcases hsecrets with hone | hsecrets
    · exact .inl hone
    rcases hclaims with hone | hclaims
    · exact .inl hone
    by_cases hone : matchingScopes scopeNames db a.id = 1
    · exact .inl hone
    refine .inr ⟨hsecrets, hclaims, fun s hs hid => hone ?_⟩
    have hs' := hscopes s (Multiset.mem_coe.mpr hs)
    rw [hid, hrow, hrow'] at hs'
    exact hs'.symm
  · rintro (hone | ⟨hsecrets, hclaims, hscopes⟩)
    · refine (contentUnder_eq_iff (by rw [hrow, hrow', hone]) hle).mpr fun s hs => ?_
      by_cases hid : s.id = a.id
      · rw [hid, hrow, hrow', hone]
      · rw [(hne s hs hid).1, (hne s hs hid).2]
    · refine ApiResourceContent.ext rfl ?_ (congrArg some (Multiset.bind_congr fun s hs => ?_)) ?_
      · simp [contentUnder, hsecrets]
      · have hs' := Multiset.mem_coe.mp hs
        rw [(hne s hs' (hscopes s hs')).1, (hne s hs' (hscopes s hs')).2]
      · simp [contentUnder, hclaims]

/-- **When the three read paths agree** on a resource: its scopes carry no `Id` of
another resource, and the query by scope names selects it once or has nothing
to repeat. -/
theorem readPathsAgree_iff {db : Db P} (hdb : UniqueNames db) {a : ApiResourceRow P}
    (ha : a ∈ (db .apiResources).rows) {scopeNames : List String}
    (hnames : ∃ s ∈ (db .apiScopes).rows, s.cols.apiResourceId = a.id ∧
      s.cols.name ∈ scopeNames) :
    ReadPathsAgree db a scopeNames ↔ ScopesInStep db a ∧
      (matchingScopes scopeNames db a.id = 1 ∨ NothingToRepeat db a) := by
  replace hnames := matchingScopes_pos_iff.mpr hnames
  rw [readPathsAgree_iff_contents hdb ha hnames, contentUnder_byName_eq_apiResources_iff hdb ha]
  exact and_congr_right fun hstep => contentUnder_byName_eq_byScope_iff hdb ha hnames hstep

/-- Among others, the second API resource with one scope each. -/
def oneScope : List (Call Platform.plain) :=
  [.apiResource (fullApiResource "first" ["first.read"]), .client (fullClient "app" []),
   .apiResource (fullApiResource "api" ["api.read"]),
   .apiResource (fullApiResource "late" ["late.read", "late.write"]),
   .identityResource (plainIdentityResource "profile" ["name"])]

theorem readPathsAgree_oneScope :
    ReadPathsAgree (runCalls oneScope Store.empty)
      ⟨2, (fullApiResource "api" []).toResourceColumns⟩ ["late.read", "api.read"] :=
  (readPathsAgree_iff (by unfold UniqueNames; decide)
    (by exact List.mem_cons_of_mem _ List.mem_cons_self) (by decide)).mpr ⟨by decide, .inl rfl⟩

/-- Found by name, the resource with two scopes has one scope; found by the names
of both, it has that scope twice. -/
theorem not_readPathsAgree_twoScopes :
    UniqueNames twoScopes ∧ ∃ a ∈ (twoScopes .apiResources).rows,
      (∃ s ∈ (twoScopes .apiScopes).rows, s.cols.apiResourceId = a.id ∧
        s.cols.name ∈ ["api.read", "api.write"]) ∧
      ¬ ReadPathsAgree twoScopes a ["api.read", "api.write"] := by
  refine ⟨by unfold UniqueNames; decide, _, List.mem_singleton.mpr rfl, by decide, ?_⟩
  rintro ⟨content, ⟨x, hx, -, hcontent⟩, ⟨apis, hapis, ⟨y, hy, hid⟩, hscope⟩, -⟩
  have hone : ∃ x, ((findApiResourceAsync "api").run twoScopes).1 = .ok (some x) ∧
      x.content.scopes.map Multiset.card = some 1 := ⟨_, rfl, rfl⟩
  have htwo : ∃ apis, ((findApiResourcesByScopeAsync ["api.read", "api.write"]).run twoScopes).1
      = .ok apis ∧ ∀ y ∈ apis, y.content.scopes.map Multiset.card = some 2 := ⟨_, rfl, by decide⟩
  obtain ⟨x', hx', hcard⟩ := hone
  obtain ⟨apis', hapis', hcard'⟩ := htwo
  have hxx : x = x' := Option.some.inj (Except.ok.inj (hx.symm.trans hx'))
  have haa : apis = apis' := Except.ok.inj (hapis.symm.trans hapis')
  subst hxx haa
  have hy2 := hcard' y hy
  rw [hscope y hy hid, ← hcontent, hcard] at hy2
  exact absurd hy2 (by decide)

end IdentityLinq
