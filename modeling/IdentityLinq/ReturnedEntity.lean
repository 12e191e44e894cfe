/-
The entity that `ComplexInsert` returns for an API resource or an identity
resource.

It is built by `GetSimpleMap` before the row is inserted, from the model, which
has no `Id`; the id of the row goes into the child rows and nowhere else.  So the
returned entity has everything the model has and the `Id` of a new object, zero
(`apiResource_returned`, `identityResource_returned`):

* `returnsStored_iff` — it is the entity that was stored exactly if the identity
  column handed out zero, to which no row pointed yet.
-/
import IdentityLinq.Platform
import IdentityLinq.ResourceRuns

namespace IdentityLinq

variable {P : Platform}

/-- The rows of `t` that `o` owns are the ones that `db'` has and `db` has not. -/
def OwnsAdded (db db' : Db P) (t : TableName) (o : Owner) : Prop :=
  ∀ c ∈ (db' t).rows, owner t c.cols = some o ↔ c ∉ (db t).rows

/-- `e` is the entity that the call for `r` stored: it has the members of `r` and the
`Id` of the row that was added, under which stand the child rows that were added. -/
structure StoredApiResource (r : Models.ApiResource P) (db db' : Db P)
    (e : Entities.ApiResource P) : Prop where
  members : e.toApiResource = r
  row : (db' .apiResources).rows = (db .apiResources).rows ++ [⟨e.id, r.toResourceColumns⟩]
  children : ∀ t ∈ [TableName.apiSecrets, .apiScopes, .apiResourceClaims],
    OwnsAdded db db' t (.apiResource e.id)

/-- The same for an identity resource. -/
structure StoredIdentityResource (r : Models.IdentityResource P) (db db' : Db P)
    (e : Entities.IdentityResource P) : Prop where
  members : e.toIdentityResource = r
  row : (db' .identityResources).rows
    = (db .identityResources).rows ++ [⟨e.id, r.toResourceColumns⟩]
  children : OwnsAdded db db' .identityClaims (.identityResource e.id)

/-! ### What is returned -/

theorem apiResource_returned {r : Models.ApiResource P} {db db' : Db P}
    {e : Entities.ApiResource P} (h : (complexInsertApiResource r).run db = (.ok e, db')) :
    e = { r with id := 0 } := by
  have hcols := P.apiResource_inherits.base_getSimpleMap ⟨0, P.newApiResource⟩ r.toResourceColumns
  have hid := P.apiResource_inherits.own_getSimpleMap ⟨0, P.newApiResource⟩ r.toResourceColumns
  have hyields : (complexInsertApiResource r).Yields (· = { r with id := 0 }) := by
    simp only [complexInsertApiResource, hcols, hid]
    refine Program.Yields.bind _ fun _ => Program.Yields.bind _ fun _ => ?_
    refine Program.Yields.bind _ fun _ => Program.Yields.bind _ fun _ => ?_
    exact Program.Yields.bind _ fun _ => rfl
  exact hyields.of_run (by rw [h])

theorem identityResource_returned {r : Models.IdentityResource P} {db db' : Db P}
    {e : Entities.IdentityResource P}
    (h : (complexInsertIdentityResource r).run db = (.ok e, db')) : e = { r with id := 0 } := by
  have hcols := P.identityResource_inherits.base_getSimpleMap ⟨0, P.newIdentityResource⟩
    r.toResourceColumns
  have hid := P.identityResource_inherits.own_getSimpleMap ⟨0, P.newIdentityResource⟩
    r.toResourceColumns
  have hyields : (complexInsertIdentityResource r).Yields (· = { r with id := 0 }) := by
    simp only [complexInsertIdentityResource, hcols, hid]
    exact Program.Yields.bind _ fun _ => Program.Yields.bind _ fun _ => rfl
  exact hyields.of_run (by rw [h])

/-! ### What is stored -/

/-- New rows that all name `o` are the ones `o` owns, unless it owned some before. -/
theorem ownsAdded_addTo_iff {db : Db P} {δ : Rows P} {t : TableName} {o : Owner}
    (hδ : ∀ x ∈ δ t, owner t x = some o) :
    OwnsAdded db (δ.addTo db) t o ↔ children db t o = [] := by
  rw [children, List.filter_eq_nil_iff]
  constructor
  · intro h c hc hdec
    exact (h c (List.mem_append_left _ hc)).mp (of_decide_eq_true hdec) hc
  · intro h c hc
    rcases List.mem_append.mp hc with hold | hnew
    · have hnot : owner t c.cols ≠ some o := fun ho => h c hold (decide_eq_true ho)
      exact iff_of_false hnot fun hn => hn hold
    · -- A new row has an id that no row had.
      refine iff_of_true (hδ _ (mem_of_mem_number hnew)) fun hold => ?_
      have hlt := (db t).lt_next c hold
      have hle := (number_id_bounds hnew).1
      omega

theorem owner_of_mem_map {α : Type} {t : TableName} {o : Owner} {xs : List α}
    {f : α → t.Columns P} (hf : ∀ a, owner t (f a) = some o) :
    ∀ x ∈ xs.map f, owner t x = some o := by
  intro x hx
  obtain ⟨a, -, rfl⟩ := List.mem_map.mp hx
  exact hf a

/-- The child rows the call adds all name the new resource. -/
theorem owner_sum_inserts (r : Models.ApiResource P) (id n : ℕ) :
    ∀ t ∈ [TableName.apiSecrets, .apiScopes, .apiResourceClaims],
      ∀ x ∈ Delta.sum (r.inserts id n) t, owner t x = some (.apiResource id) := by
  intro t ht
  simp only [List.mem_cons, List.not_mem_nil, or_false] at ht
  rw [r.inserts_eq]
  rcases ht with rfl | rfl | rfl
  · rw [sum_inserts_apiSecrets]
    exact owner_of_mem_map fun _ => rfl
  · rw [sum_inserts_apiScopes]
    exact owner_of_mem_map fun _ => rfl
  · rw [sum_inserts_apiResourceClaims]
    exact owner_of_mem_map fun _ => rfl

theorem append_singleton_id_iff {ρ : Type} {rows : List (Row ρ)} {id id' : ℕ} {x : ρ} :
    rows ++ [⟨id, x⟩] = rows ++ [⟨id', x⟩] ↔ id = id' := by
  simp

theorem storedApiResource_iff {r : Models.ApiResource P} {db db' : Db P}
    {e : Entities.ApiResource P} (h : (complexInsertApiResource r).run db = (.ok e, db')) :
    StoredApiResource r db db' e ↔ (db .apiResources).next = 0 ∧
      ∀ t ∈ [TableName.apiSecrets, .apiScopes, .apiResourceClaims],
        children db t (.apiResource 0) = [] := by
  obtain rfl := apiResource_returned h
  obtain rfl : db'
      = (Delta.sum (r.inserts (db .apiResources).next (db .apiScopes).next)).addTo db := by
    have hok : ((complexInsertApiResource r).run db).1 = .ok { r with id := 0 } := by rw [h]
    rw [← (issues_complexInsertApiResource r db).run_ok hok, h]
  have hrow : ((Delta.sum (r.inserts (db .apiResources).next (db .apiScopes).next)).addTo db
      .apiResources).rows
        = (db .apiResources).rows ++ [⟨(db .apiResources).next, r.toResourceColumns⟩] := by
    rw [Delta.addTo_apply, Table.rows_bulkCopy, r.inserts_eq, sum_inserts_apiResources]
    rfl
  -- What is asked of the `Id` zero says something about the row if zero is its `Id`.
  have howners : (db .apiResources).next = 0 →
      ∀ t ∈ [TableName.apiSecrets, .apiScopes, .apiResourceClaims],
        ∀ x ∈ Delta.sum (r.inserts (db .apiResources).next (db .apiScopes).next) t,
          owner t x = some (.apiResource 0) := by
    intro hzero t ht x hx
    rw [owner_sum_inserts r _ _ t ht x hx, hzero]
  constructor
  · intro hstored
    have hzero : (db .apiResources).next = 0 :=
      append_singleton_id_iff.mp (hrow.symm.trans hstored.row)
    refine ⟨hzero, fun t ht => ?_⟩
    exact (ownsAdded_addTo_iff (howners hzero t ht)).mp (hstored.children t ht)
  · rintro ⟨hzero, hnone⟩
    refine ⟨rfl, hrow.trans (append_singleton_id_iff.mpr hzero), fun t ht => ?_⟩
    exact (ownsAdded_addTo_iff (howners hzero t ht)).mpr (hnone t ht)

theorem storedIdentityResource_iff {r : Models.IdentityResource P} {db db' : Db P}
    {e : Entities.IdentityResource P}
    (h : (complexInsertIdentityResource r).run db = (.ok e, db')) :
    StoredIdentityResource r db db' e ↔ (db .identityResources).next = 0 ∧
      children db .identityClaims (.identityResource 0) = [] := by
  obtain rfl := identityResource_returned h
  obtain rfl : db' = (Delta.sum (r.inserts (db .identityResources).next)).addTo db := by
    have hok : ((complexInsertIdentityResource r).run db).1 = .ok { r with id := 0 } := by rw [h]
    rw [← (issues_complexInsertIdentityResource r db).run_ok hok, h]
  have hrow : ((Delta.sum (r.inserts (db .identityResources).next)).addTo db
      .identityResources).rows = (db .identityResources).rows
        ++ [⟨(db .identityResources).next, r.toResourceColumns⟩] := by
    simp [Models.IdentityResource.inserts]
  have howners : (db .identityResources).next = 0 →
      ∀ x ∈ Delta.sum (r.inserts (db .identityResources).next) .identityClaims,
        owner .identityClaims x = some (.identityResource 0) := by
    intro hzero
    simp [Models.IdentityResource.inserts, owner, hzero]
  constructor
  · intro hstored
    have hzero : (db .identityResources).next = 0 :=
      append_singleton_id_iff.mp (hrow.symm.trans hstored.row)
    exact ⟨hzero, (ownsAdded_addTo_iff (howners hzero)).mp hstored.children⟩
  · rintro ⟨hzero, hnone⟩
    refine ⟨rfl, hrow.trans (append_singleton_id_iff.mpr hzero), ?_⟩
    exact (ownsAdded_addTo_iff (howners hzero)).mpr hnone

/-- **When the returned entity is the stored one.** -/
theorem returnsStored_iff :
    (∀ (r : Models.ApiResource P) (db db' : Db P) (e : Entities.ApiResource P),
      (complexInsertApiResource r).run db = (.ok e, db') →
        (StoredApiResource r db db' e ↔ (db .apiResources).next = 0 ∧
          ∀ t ∈ [TableName.apiSecrets, .apiScopes, .apiResourceClaims],
            children db t (.apiResource 0) = [])) ∧
    ∀ (r : Models.IdentityResource P) (db db' : Db P) (e : Entities.IdentityResource P),
      (complexInsertIdentityResource r).run db = (.ok e, db') →
        (StoredIdentityResource r db db' e ↔ (db .identityResources).next = 0 ∧
          children db .identityClaims (.identityResource 0) = []) :=
  ⟨fun _ _ _ _ h => storedApiResource_iff h, fun _ _ _ _ h => storedIdentityResource_iff h⟩

/-- A database without rows whose identity columns count from 0.  No call can lead to it:
in the tables of `CreateTable` they count from 1. -/
def zeroBased : Db Platform.plain :=
  fun _ => ⟨[], 0, List.nodup_nil, fun _ h => absurd h List.not_mem_nil⟩

theorem returnsStored_iff_zeroBased :
    ∃ db' e, (complexInsertApiResource (plainApiResource "api" ["read"])).run zeroBased
        = (.ok e, db') ∧
      StoredApiResource (plainApiResource "api" ["read"]) zeroBased db' e := by
  have hrun : (complexInsertApiResource (plainApiResource "api" ["read"])).run zeroBased
      = (.ok _, _) := rfl
  exact ⟨_, _, hrun, (returnsStored_iff.1 _ _ _ _ hrun).mpr ⟨rfl, fun _ _ => rfl⟩⟩

/-- Into a database without rows: the returned objects have the `Id` 0, and the rows
have the `Id` 1. -/
theorem not_returnsStored_empty :
    (∃ db' e, (complexInsertApiResource (plainApiResource "api" ["read"])).run Store.empty
        = (.ok e, db') ∧ e.id = 0 ∧ (db' .apiResources).rows.map Row.id = [1] ∧
      ¬ StoredApiResource (plainApiResource "api" ["read"]) Store.empty db' e) ∧
    ∃ db' e, (complexInsertIdentityResource (plainIdentityResource "profile" ["name"])).run
        Store.empty = (.ok e, db') ∧ e.id = 0 ∧ (db' .identityResources).rows.map Row.id = [1] ∧
      ¬ StoredIdentityResource (plainIdentityResource "profile" ["name"]) Store.empty db' e := by
  refine ⟨⟨_, _, rfl, rfl, rfl, fun hstored => ?_⟩, ⟨_, _, rfl, rfl, rfl, fun hstored => ?_⟩⟩
  · exact absurd (congrArg (List.map Row.id) hstored.row) (by decide)
  · exact absurd (congrArg (List.map Row.id) hstored.row) (by decide)

end IdentityLinq
