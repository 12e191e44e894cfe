/-
What the read paths of `ResourceStore` make of a stored API resource.

Every method of the store hands `Upload` another query.  What becomes of one API
resource depends on that query only through the number of times it selects each
id (`selected`): `contentUnder m db row` is the content of `row` when every id `i`
is selected `m i` times, and `content_loadApiResource` says that this is what
`Upload` returns.  So the read paths are compared by their counts:

* `contentUnder_eq_iff` — when two queries agree on a resource;
* `selected_byName`, `selected_apiResources` — what two of them select.
-/
import IdentityLinq.ResourceStore

namespace IdentityLinq

variable {P : Platform}

/-! ### Contents -/

/-- What a caller sees of a scope. -/
@[ext] structure ScopeContent where
  columns : Models.ScopeColumns
  userClaims : Option (Multiset String)

/-- What a caller sees of an API resource. -/
@[ext] structure ApiResourceContent (P : Platform) where
  columns : Models.ResourceColumns P.ApiResourceScalars
  apiSecrets : Option (Multiset Models.Secret)
  scopes : Option (Multiset ScopeContent)
  userClaims : Option (Multiset String)

def Models.Scope.content (s : Models.Scope) : ScopeContent where
  columns := s.toScopeColumns
  userClaims := s.userClaims.map (↑)

/-- The scalar members, and the collections as multisets. -/
def Models.ApiResource.content (r : Models.ApiResource P) : ApiResourceContent P where
  columns := r.toResourceColumns
  apiSecrets := r.apiSecrets.map (↑)
  scopes := r.scopes.map fun scopes => ↑(scopes.map Models.Scope.content)
  userClaims := r.userClaims.map (↑)

/-- The content of a stored scope when its row is selected `n` times. -/
def scopeContent (n : ℕ) (db : Db P) (s : Row Entities.ApiScope) : ScopeContent where
  columns := s.cols.toScopeColumns
  userClaims := some (n • ↑((ownedBy db .apiScopeClaims (.apiScope s.id)).map (·.type)))

/-- The content of a stored API resource when every id `i` is selected `m i`
times. -/
def contentUnder (m : ℕ → ℕ) (db : Db P) (row : ApiResourceRow P) : ApiResourceContent P where
  columns := row.cols
  apiSecrets := some
    (m row.id • ↑((ownedBy db .apiSecrets (.apiResource row.id)).map (·.toSecret)))
  scopes := some ((children db .apiScopes (.apiResource row.id) : Multiset _).bind fun s =>
    Multiset.replicate (m s.id) (scopeContent (m s.id) db s))
  userClaims := some
    (m row.id • ↑((ownedBy db .apiResourceClaims (.apiResource row.id)).map (·.type)))

/-- The stored content: everything counts once. -/
def storedContent (db : Db P) (row : ApiResourceRow P) : ApiResourceContent P :=
  contentUnder (fun _ => 1) db row

/-- How often the query selects an id. -/
def selected (query : Db P → List (ApiResourceRow P)) (db : Db P) (id : ℕ) : ℕ :=
  (query db).countP fun row => decide (row.id = id)

/-! ### `Upload` by counts -/

/-- A scope row comes back as often as its own id is selected. -/
theorem countP_scopesQuery (query : Db P → List (ApiResourceRow P)) (db : Db P)
    {s : Row Entities.ApiScope} (hs : s ∈ (db .apiScopes).rows) :
    (scopesQuery query db).countP (fun q => decide (q.id = s.id)) = selected query db s.id := by
  have hone : ((db .apiScopes).rows.filter fun q => decide (q.id = s.id)).length = 1 := by
    rw [← List.countP_eq_length_filter]
    exact (db .apiScopes).countP_id hs
  rw [List.countP_eq_length_filter, scopesQuery, innerJoin_filter_key, List.length_flatten,
    List.map_replicate, List.sum_replicate_nat, hone, Nat.mul_one, selected]

/-- The claims loaded for a scope, its own ones once for every time its row is
selected. -/
theorem coe_loadScopeClaims (query : Db P → List (ApiResourceRow P)) (db : Db P)
    {s : Row Entities.ApiScope} (hs : s ∈ (db .apiScopes).rows) :
    (loadScopeClaims query db s.id : Multiset String)
      = selected query db s.id •
          ↑((ownedBy db .apiScopeClaims (.apiScope s.id)).map (·.type)) := by
  have howned : ownedBy db .apiScopeClaims (.apiScope s.id)
      = (db .apiScopeClaims).values.filter fun c => decide (c.apiScopeId = s.id) :=
    ownedBy_eq_filter_key db (fun _ _ => Owner.apiScope.inj) (fun _ => rfl) s.id
  rw [loadScopeClaims, ← Multiset.map_coe, coe_innerJoin_fst_filter_key, Multiset.map_nsmul,
    Multiset.map_coe, howned, countP_scopesQuery query db hs]

theorem content_loadScope (query : Db P → List (ApiResourceRow P)) (db : Db P)
    {s : Row Entities.ApiScope} (hs : s ∈ (db .apiScopes).rows) :
    (loadScope query db s).content = scopeContent (selected query db s.id) db s := by
  rw [loadScope, Models.Scope.content, scopeContent, Option.map_some, coe_loadScopeClaims _ _ hs]

/-- The scopes loaded for a resource, each as often as its own id is selected. -/
theorem coe_loadScopes (query : Db P → List (ApiResourceRow P)) (db : Db P) (id : ℕ) :
    (((((scopesQuery query db).filter fun s => decide (s.cols.apiResourceId = id)).map
        (loadScope query db)).map Models.Scope.content : List ScopeContent) : Multiset ScopeContent)
      = (children db .apiScopes (.apiResource id) : Multiset (Row Entities.ApiScope)).bind fun s =>
          Multiset.replicate (selected query db s.id)
            (scopeContent (selected query db s.id) db s) := by
  have hchildren : children db .apiScopes (.apiResource id)
      = (db .apiScopes).rows.filter fun s => decide (s.cols.apiResourceId = id) := by
    refine List.filter_congr fun s _ => decide_eq_decide.mpr ?_
    rw [owner, Option.some.injEq, Owner.apiResource.injEq]
  -- The query joins on the `Id` of the scope, the dictionary groups by the foreign key.
  rw [List.map_map, ← Multiset.map_coe, scopesQuery, innerJoin_filter_snd, coe_innerJoin_snd,
    Multiset.map_bind, hchildren]
  refine Multiset.bind_congr fun s hs => ?_
  rw [Multiset.map_replicate, Function.comp_apply,
    content_loadScope query db (List.mem_of_mem_filter (Multiset.mem_coe.mp hs)), selected]

/-- **What `Upload` returns for a resource** depends on the query only through
how often it selects each id. -/
theorem content_loadApiResource (query : Db P → List (ApiResourceRow P)) (db : Db P)
    (row : ApiResourceRow P) :
    (loadApiResource query db row).content = contentUnder (selected query db) db row := by
  have hsecrets : ownedBy db .apiSecrets (.apiResource row.id)
      = (db .apiSecrets).values.filter fun x => decide (x.apiResourceId = row.id) :=
    ownedBy_eq_filter_key db (fun _ _ => Owner.apiResource.inj) (fun _ => rfl) row.id
  have hclaims : ownedBy db .apiResourceClaims (.apiResource row.id)
      = (db .apiResourceClaims).values.filter fun x => decide (x.apiResourceId = row.id) :=
    ownedBy_eq_filter_key db (fun _ _ => Owner.apiResource.inj) (fun _ => rfl) row.id
  refine ApiResourceContent.ext rfl ?_ ?_ ?_
  · show some _ = some _
    rw [← Multiset.map_coe, innerJoin_filter_key, coe_flatten_replicate, Multiset.map_nsmul,
      Multiset.map_coe, hsecrets, selected]
  · exact congrArg some (coe_loadScopes query db row.id)
  · show some _ = some _
    rw [← Multiset.map_coe, innerJoin_filter_key, coe_flatten_replicate, Multiset.map_nsmul,
      Multiset.map_coe, hclaims, selected]

/-! ### Comparing counts -/

/-- Two queries, the second of which selects at least as much, agree on a
resource that they select equally often exactly if they agree on the ids of its
scopes. -/
theorem contentUnder_eq_iff {m m' : ℕ → ℕ} {db : Db P} {row : ApiResourceRow P}
    (hrow : m row.id = m' row.id)
    (hle : ∀ s ∈ children db .apiScopes (.apiResource row.id), m s.id ≤ m' s.id) :
    contentUnder m db row = contentUnder m' db row ↔
      ∀ s ∈ children db .apiScopes (.apiResource row.id), m s.id = m' s.id := by
  constructor
  · intro h s hs
    -- The scopes alone decide: a scope more is seen in their number.
    have hscopes := Option.some.inj (congrArg ApiResourceContent.scopes h)
    exact eq_of_bind_replicate_eq (fun s hs => hle s (Multiset.mem_coe.mp hs)) hscopes s
      (Multiset.mem_coe.mpr hs)
  · intro h
    refine ApiResourceContent.ext rfl ?_ (congrArg some (Multiset.bind_congr fun s hs => ?_)) ?_
    · simp only [contentUnder, hrow]
    · rw [h s (Multiset.mem_coe.mp hs)]
    · simp only [contentUnder, hrow]

/-- Names are unique among the API resources. -/
def UniqueNames (db : Db P) : Prop := ((db .apiResources).rows.map (·.cols.name)).Nodup

/-- Looking up a name selects the one resource of that name. -/
theorem selected_byName {db : Db P} (hdb : UniqueNames db) {row : ApiResourceRow P}
    (hrow : row ∈ (db .apiResources).rows) (id : ℕ) :
    selected (apiResourceByName row.cols.name) db id = if id = row.id then 1 else 0 := by
  rw [selected, apiResourceByName, filter_key_eq_singleton hdb hrow, List.countP_singleton]
  simp only [decide_eq_true_eq, @eq_comm ℕ row.id]

theorem selected_eq_zero {query : Db P → List (ApiResourceRow P)} {db : Db P} {id : ℕ}
    (h : ∀ row ∈ query db, row.id ≠ id) : selected query db id = 0 := by
  rw [selected, List.countP_eq_zero]
  exact fun row hrow hid => h row hrow (of_decide_eq_true hid)

/-- Loading everything selects every id once. -/
theorem selected_apiResources (db : Db P) (id : ℕ) :
    selected (fun db => (db .apiResources).rows) db id
      = if ∃ row ∈ (db .apiResources).rows, row.id = id then 1 else 0 := by
  split
  · next h =>
    obtain ⟨row, hrow, rfl⟩ := h
    exact (db .apiResources).countP_id hrow
  · next h => exact selected_eq_zero fun row hrow hid => h ⟨row, hrow, hid⟩

end IdentityLinq
