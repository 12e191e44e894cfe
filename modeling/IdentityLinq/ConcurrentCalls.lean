/-
`ComplexInsert` calls that run at the same time, on connections of their own.

The statements of any number of calls come in any order, and any call may stop
with an error between two of them (`Pool.Reaches`).  No statement refers to rows
of another call, and ids are handed out once, so each call fills its own parent
row:

* `Call.Owns` — what a call keeps up: its child rows point to parents of its own;
* `writes_program` — that it does, and what it has written once it returns;
* `owned_of_reaches` — hence every child row has its owner, and the rows of the
  calls that have returned are complete and nobody else's.
-/
import IdentityLinq.ClientRuns
import IdentityLinq.Pool
import IdentityLinq.ResourceRuns

namespace IdentityLinq

variable {P : Platform}

/-- The statements of a call, its result dropped. -/
def Call.program : Call P → Program (Db P) Error Unit
  | client c => complexInsertClient c >>= fun _ => .ret ()
  | apiResource r => complexInsertApiResource r >>= fun _ => .ret ()
  | identityResource r => complexInsertIdentityResource r >>= fun _ => .ret ()

/-! ### The rows of one call -/

/-- The rows a call has written, with their ids. -/
abbrev CallLog (P : Platform) : Type := Log (TableName.Columns P)

/-- The owner's own row is among the rows written. -/
def HasOwnerIn (L : CallLog P) : Owner → Prop
  | .client id => ∃ r ∈ L .clients, r.cols.clientId = id
  | .apiResource id => ∃ r ∈ L .apiResources, r.id = id
  | .apiScope id => ∃ r ∈ L .apiScopes, r.id = id
  | .identityResource id => ∃ r ∈ L .identityResources, r.id = id

/-- The child rows point to rows of the same call, whose client rows are about its
own client. -/
structure Call.Owns (call : Call P) (L : CallLog P) : Prop where
  owned : ∀ t, ∀ r ∈ L t, ∀ o, owner t r.cols = some o → HasOwnerIn L o
  clientIds : ∀ r ∈ L .clients, r.cols.clientId ∈ call.clientIds

theorem HasOwnerIn.mono {L L' : CallLog P} {o : Owner} (h : HasOwnerIn L o)
    (hL : ∀ t, ∀ r ∈ L t, r ∈ L' t) : HasOwnerIn L' o := by
  cases o with
  | client id =>
    obtain ⟨r, hr, hid⟩ := h
    exact ⟨r, hL _ r hr, hid⟩
  | apiResource id =>
    obtain ⟨r, hr, hid⟩ := h
    exact ⟨r, hL _ r hr, hid⟩
  | apiScope id =>
    obtain ⟨r, hr, hid⟩ := h
    exact ⟨r, hL _ r hr, hid⟩
  | identityResource id =>
    obtain ⟨r, hr, hid⟩ := h
    exact ⟨r, hL _ r hr, hid⟩

theorem HasOwnerIn.append {L : CallLog P} {o : Owner} (h : HasOwnerIn L o) (L' : CallLog P) :
    HasOwnerIn (L ++ L') o := h.mono fun _ _ hr => List.mem_append_left _ hr

/-- The owners with a row in the store. -/
theorem hasOwnerIn_rows {db : Db P} {o : Owner} :
    HasOwnerIn (fun t => (db t).rows : CallLog P) o ↔ HasOwner db o := by
  cases o with
  | client id => simp [HasOwnerIn, HasOwner, Table.values]
  | apiResource id => exact Iff.rfl
  | apiScope id => exact Iff.rfl
  | identityResource id => exact Iff.rfl

theorem Call.owns_nil (call : Call P) : call.Owns .nil where
  owned := fun _ _ hr => nomatch hr
  clientIds := fun _ hr => nomatch hr

/-- Rows of a table may be added whose owners are in place. -/
theorem Call.Owns.append {call : Call P} {L : CallLog P} (h : call.Owns L) {t : TableName}
    {ys : List (Row (t.Columns P))}
    (hys : ∀ y ∈ ys, ∀ o, owner t y.cols = some o → HasOwnerIn L o)
    (hclients : ∀ r ∈ (Delta.single t ys : CallLog P) .clients,
      r.cols.clientId ∈ call.clientIds) : call.Owns (L ++ .single t ys) where
  owned := by
    intro t' r hr o ho
    refine HasOwnerIn.append ?_ _
    rcases List.mem_append.mp hr with hold | hnew
    · exact h.owned t' r hold o ho
    · by_cases ht : t' = t
      · subst ht
        rw [Delta.single_self] at hnew
        exact hys r hnew o ho
      · rw [Delta.single_of_ne ht] at hnew
        exact absurd hnew List.not_mem_nil
  clientIds := by
    intro r hr
    rcases List.mem_append.mp hr with hold | hnew
    · exact h.clientIds r hold
    · exact hclients r hnew

/-! ### The statements of one call -/

/-- What a call has written when it returns. -/
def Call.Wrote (L : CallLog P) : Call P → Prop
  | client c => Log.cols L = Delta.sum c.inserts
  | apiResource r => ∃ (id : ℕ) (scopes : List (Models.Scope × ℕ)),
      scopes.map Prod.fst = r.scopes.getD [] ∧
      Log.cols L = Delta.sum (r.insertsUnder id scopes) ∧
      (L .apiResources).map Row.id = [id] ∧
      (L .apiScopes).map Row.id = scopes.map Prod.snd
  | identityResource r => ∃ id : ℕ, Log.cols L = Delta.sum (r.inserts id) ∧
      (L .identityResources).map Row.id = [id]

variable {α β : Type} {call : Call P} {L : CallLog P} {Q : β → CallLog P → Prop}

/-- A collection whose rows are all for one owner. -/
theorem writes_bulkCopy_bind {t : TableName} {source : Collection α} {f : α → t.Columns P}
    {q : Unit → Program (Db P) Error β} (o : Owner) (hL : call.Owns L) (ho : HasOwnerIn L o)
    (hf : ∀ x, owner t (f x) = some o)
    (hq : ∀ ys : List (Row (t.Columns P)), ys.map Row.cols = (source.getD []).map f →
      call.Owns (L ++ .single t ys) → HasOwnerIn (L ++ .single t ys) o →
      Writes call.Owns Q (q ()) (L ++ .single t ys)) :
    Writes call.Owns Q (bulkCopy t source f >>= q) L := by
  cases source with
  | none => exact hL
  | some xs =>
    refine Writes.insertRows_bind hL fun ys hys => hq ys hys (hL.append ?_ ?_) (ho.append _)
    · intro y hy o' ho'
      obtain ⟨x, -, hx⟩ := List.mem_map.mp (hys ▸ List.mem_map_of_mem (f := Row.cols) hy)
      rw [← hx, hf x, Option.some.injEq] at ho'
      exact ho' ▸ ho
    · intro r hr
      by_cases ht : t = .clients
      · -- Rows of `Client` have no owner.
        subst ht
        rw [Delta.single_self] at hr
        obtain ⟨x, -, -⟩ := List.mem_map.mp (hys ▸ List.mem_map_of_mem (f := Row.cols) hr)
        exact absurd (hf x) (by simp [owner])
      · rw [Delta.single_of_ne fun h => ht h.symm] at hr
        exact absurd hr List.not_mem_nil

theorem writes_complexInsertClient (c : Models.Client P (Collection String)) :
    Writes (Call.client c).Owns (fun _ L => (Call.client c).Wrote L) (complexInsertClient c)
      .nil := by
  rw [complexInsertClient, setAllowedGrantTypes]
  split
  · refine Writes.insertRows_bind (Call.owns_nil _) fun ys hys => ?_
    obtain ⟨row, rfl⟩ : ∃ row, ys = [row] := by
      rw [← List.length_eq_one_iff, ← List.length_map (f := Row.cols), hys, List.length_singleton]
    have hrow : row.cols = c.toClientColumns := by simpa using hys
    have howns : (Call.client c).Owns (.nil ++ .single .clients [row]) := by
      refine (Call.owns_nil _).append (fun y hy o ho => absurd ho (by simp [owner])) fun r hr => ?_
      rw [Delta.single_self, List.mem_singleton] at hr
      rw [hr, hrow]
      exact List.mem_singleton.mpr rfl
    have howner : HasOwnerIn (.nil ++ .single .clients [row]) (.client c.clientId) :=
      ⟨row, by simp, by rw [hrow]⟩
    -- Every collection goes under the client's id.
    refine writes_bulkCopy_bind (.client c.clientId) howns howner (fun _ => rfl)
      fun _ h₁ hL hc => ?_
    refine writes_bulkCopy_bind (.client c.clientId) hL hc (fun _ => rfl) fun _ h₂ hL hc => ?_
    refine writes_bulkCopy_bind (.client c.clientId) hL hc (fun _ => rfl) fun _ h₃ hL hc => ?_
    refine writes_bulkCopy_bind (.client c.clientId) hL hc (fun _ => rfl) fun _ h₄ hL hc => ?_
    refine writes_bulkCopy_bind (.client c.clientId) hL hc (fun _ => rfl) fun _ h₅ hL hc => ?_
    refine writes_bulkCopy_bind (.client c.clientId) hL hc (fun _ => rfl) fun _ h₆ hL hc => ?_
    refine writes_bulkCopy_bind (.client c.clientId) hL hc (fun _ => rfl) fun _ h₇ hL hc => ?_
    refine writes_bulkCopy_bind (.client c.clientId) hL hc (fun _ => rfl) fun _ h₈ hL hc => ?_
    refine ⟨hL, ?_⟩
    simp only [Call.Wrote, Log.cols_append, Log.cols_single, Log.cols_nil, hys, h₁, h₂, h₃, h₄, h₅,
      h₆, h₇, h₈, Models.Client.inserts, Models.Client.childInserts, Delta.sum_cons, Delta.sum_nil,
      Delta.append_nil, Delta.append_assoc]
    rfl
  · exact Call.owns_nil _

/-- A row of `ApiResource` or `IdentityResource`, which have no owner. -/
theorem Call.owns_parent {t : TableName} (hnone : ∀ x : t.Columns P, owner t x = none)
    (ht : t ≠ .clients) (row : Row (t.Columns P)) : call.Owns (.nil ++ .single t [row]) := by
  refine call.owns_nil.append (fun y _ o ho => ?_) fun r hr => ?_
  · rw [hnone] at ho
    exact absurd ho (by simp)
  · rw [Delta.single_of_ne ht.symm] at hr
    exact absurd hr List.not_mem_nil

/-- What the loop over the scopes of an API resource has written after some turns;
`ds` are the inserts before the loop. -/
structure Call.ScopesWritten (call : Call P) (id : ℕ) (ds : List (Rows P))
    (done : List Models.Scope) (L : CallLog P) : Prop where
  owns : call.Owns L
  hasOwner : HasOwnerIn L (.apiResource id)
  ids : (L .apiResources).map Row.id = [id]
  scopes : ∃ scopes : List (Models.Scope × ℕ), scopes.map Prod.fst = done ∧
    Log.cols L = Delta.sum (ds ++ scopes.flatMap fun s => s.1.inserts id s.2) ∧
    (L .apiScopes).map Row.id = scopes.map Prod.snd

/-- One turn of the loop: the claims go under the id the scope just got. -/
theorem Call.ScopesWritten.insertScope {id : ℕ} {ds : List (Rows P)} {done : List Models.Scope}
    (h : call.ScopesWritten id ds done L) (s : Models.Scope) :
    Writes call.Owns (fun _ => call.ScopesWritten id ds (done ++ [s]))
      (insertScope (⟨s.toScopeColumns, id⟩, s.userClaims)) L := by
  obtain ⟨scopes, hdone, hcols, hids⟩ := h.scopes
  refine Writes.insertWithIdentity_bind h.owns fun n => ?_
  set row : Row Entities.ApiScope := ⟨n, ⟨s.toScopeColumns, id⟩⟩ with hrow
  have howns : call.Owns (L ++ .single .apiScopes [row]) := by
    refine h.owns.append (fun y hy o ho => ?_) fun r hr => absurd hr List.not_mem_nil
    obtain rfl := List.mem_singleton.mp hy
    cases ho
    exact h.hasOwner
  have hscope : HasOwnerIn (L ++ .single .apiScopes [row]) (.apiScope n) := ⟨row, by simp, rfl⟩
  rw [← bind_pure (bulkCopy _ _ _)]
  refine writes_bulkCopy_bind (.apiScope n) howns hscope (fun _ => rfl) fun ys hys hL _ => ?_
  refine ⟨hL, hL, (h.hasOwner.append _).append _, ?_, scopes ++ [(s, n)], ?_, ?_, ?_⟩
  · simpa using h.ids
  · rw [List.map_append, hdone, List.map_singleton]
  · rw [Log.cols_append, Log.cols_append, Log.cols_single, Log.cols_single, hcols, hys,
      List.flatMap_append, ← List.append_assoc, Delta.sum_append (ds ++ _), Delta.append_assoc]
    simp [Models.Scope.inserts, hrow]
  · simp [hids, hrow]

theorem writes_complexInsertApiResource (r : Models.ApiResource P) :
    Writes (Call.apiResource r).Owns (fun _ L => (Call.apiResource r).Wrote L)
      (complexInsertApiResource r) .nil := by
  have hcols := P.apiResource_inherits.base_getSimpleMap ⟨0, P.newApiResource⟩ r.toResourceColumns
  simp only [complexInsertApiResource, hcols]
  refine Writes.insertWithIdentity_bind (Call.owns_nil _) fun id => ?_
  have howns := (Call.apiResource r).owns_parent (t := .apiResources) (fun _ => rfl) (by decide)
    ⟨id, r.toResourceColumns⟩
  have hid : HasOwnerIn (.nil ++ .single .apiResources [⟨id, r.toResourceColumns⟩] : CallLog P)
      (.apiResource id) := ⟨⟨id, r.toResourceColumns⟩, by simp, rfl⟩
  refine writes_bulkCopy_bind (.apiResource id) howns hid (fun _ => rfl) fun ys hys hL hid => ?_
  cases hscopes : r.scopes with
  | none => exact hL
  | some scopes =>
    set ds : List (Rows P) := [.single .apiResources [r.toResourceColumns],
      .single .apiSecrets ((r.apiSecrets.getD []).map fun x => ⟨x, id⟩)] with hds
    have hstart : (Call.apiResource r).ScopesWritten id ds []
        (.nil ++ .single .apiResources [⟨id, r.toResourceColumns⟩] ++ .single .apiSecrets ys) := by
      refine ⟨hL, hid, by simp, [], rfl, ?_, by simp⟩
      simp only [Log.cols_append, Log.cols_single, hys, hds, List.map_singleton,
        Delta.nil_append, List.flatMap_nil, List.append_nil, Delta.sum_cons, Delta.sum_nil,
        Delta.append_nil]
    rw [select, Program.ret_bind, List.forM_map]
    refine Writes.bind ((Writes.forM (fun _ _ h => h.owns)
      (fun done s L h => h.insertScope s) scopes [] _ hstart).mono fun _ L _ hdone => ?_)
    obtain ⟨under, hunder, hcols, hids⟩ := hdone.scopes
    refine writes_bulkCopy_bind (.apiResource id) hdone.owns hdone.hasOwner (fun _ => rfl)
      fun ys hys hL _ => ?_
    refine ⟨hL, id, under, ?_, ?_, ?_, ?_⟩
    · rw [hunder, hscopes]
      rfl
    · rw [Log.cols_append, hcols, Log.cols_single, hys, Models.ApiResource.insertsUnder]
      simp only [hds, List.cons_append, List.nil_append, Delta.sum_cons, Delta.sum_append,
        Delta.sum_nil, Delta.append_nil, Delta.append_assoc]
    · simpa using hdone.ids
    · simpa using hids

theorem writes_complexInsertIdentityResource (r : Models.IdentityResource P) :
    Writes (Call.identityResource r).Owns (fun _ L => (Call.identityResource r).Wrote L)
      (complexInsertIdentityResource r) .nil := by
  refine Writes.insertWithIdentity_bind (Call.owns_nil _) fun id => ?_
  have howns := (Call.identityResource r).owns_parent (t := .identityResources) (fun _ => rfl)
    (by decide) ⟨id, r.toResourceColumns⟩
  have hid : HasOwnerIn
      (.nil ++ .single .identityResources [⟨id, r.toResourceColumns⟩] : CallLog P)
      (.identityResource id) := ⟨⟨id, r.toResourceColumns⟩, by simp, rfl⟩
  refine writes_bulkCopy_bind (.identityResource id) howns hid (fun _ => rfl)
    fun ys hys hL _ => ?_
  refine ⟨hL, id, ?_, by simp⟩
  simp only [Log.cols_append, Log.cols_single, Log.cols_nil, hys, Models.IdentityResource.inserts,
    Delta.sum_cons, Delta.sum_nil, Delta.append_nil]
  rfl

/-- **What a call keeps up, and what it has written when it returns.** -/
theorem Call.writes_program (call : Call P) :
    Writes call.Owns (fun _ L => call.Wrote L) call.program .nil := by
  cases call with
  | client c =>
    exact Writes.bind ((writes_complexInsertClient c).mono fun _ _ hL hw => ⟨hL, hw⟩)
  | apiResource r =>
    exact Writes.bind ((writes_complexInsertApiResource r).mono fun _ _ hL hw => ⟨hL, hw⟩)
  | identityResource r =>
    exact Writes.bind ((writes_complexInsertIdentityResource r).mono fun _ _ hL hw => ⟨hL, hw⟩)

/-! ### All calls together -/

/-- Up to order, the rows the call describes are the children of its parent row,
which is one of the rows it wrote itself. -/
def Call.Stored (db : Db P) (wrote : CallLog P) : Call P → Prop
  | client c => (wrote .clients).map Row.cols = [c.toClientColumns] ∧
      ∀ t, (ownedBy db t (.client c.clientId)).Perm (Delta.sum c.childInserts t)
  | apiResource r => ∃ (id : ℕ) (scopes : List (Models.Scope × ℕ)),
      wrote .apiResources = [⟨id, r.toResourceColumns⟩] ∧
      (ownedBy db .apiSecrets (.apiResource id)).Perm
        ((r.apiSecrets.getD []).map fun x => ⟨x, id⟩) ∧
      (ownedBy db .apiResourceClaims (.apiResource id)).Perm
        ((r.userClaims.getD []).map fun x => ⟨x, id⟩) ∧
      -- every scope of the model under the id of one row
      scopes.map Prod.fst = r.scopes.getD [] ∧
      (children db .apiScopes (.apiResource id)).Perm
        (scopes.map fun s => ⟨s.2, ⟨s.1.toScopeColumns, id⟩⟩) ∧
      ∀ s ∈ scopes, (ownedBy db .apiScopeClaims (.apiScope s.2)).Perm
        ((s.1.userClaims.getD []).map fun x => ⟨x, s.2⟩)
  | identityResource r => ∃ id : ℕ,
      wrote .identityResources = [⟨id, r.toResourceColumns⟩] ∧
      (ownedBy db .identityClaims (.identityResource id)).Perm
        ((r.userClaims.getD []).map fun x => ⟨x, id⟩)

section Pool

variable {κ : Type} {calls : κ → Call P} {db₀ : Db P} {x : Pool (TableName.Columns P) Error Unit κ}

/-- What holds in every interleaving of the calls. -/
abbrev CallsSound (db₀ : Db P) (calls : κ → Call P)
    (x : Pool (TableName.Columns P) Error Unit κ) : Prop :=
  x.Sound db₀ (fun k => (calls k).Owns) fun k _ L => (calls k).Wrote L

theorem CallsSound.owns (hx : CallsSound db₀ calls x) (k : κ) : (calls k).Owns (x.wrote k) :=
  (hx.writes k).start

theorem CallsSound.hasOwner (hx : CallsSound db₀ calls x) {k : κ} {o : Owner}
    (h : HasOwnerIn (x.wrote k) o) : HasOwner x.store o :=
  hasOwnerIn_rows.mp (h.mono fun t r hr => (hx.mem_rows_iff t r).mpr (.inr ⟨k, hr⟩))

/-- Every child row has its owner, in every reachable state. -/
theorem CallsSound.owned (hx : CallsSound db₀ calls x) (h₀ : Owned db₀) : Owned x.store := by
  intro t c hc o ho
  obtain ⟨r, hr, rfl⟩ := List.mem_map.mp hc
  rcases (hx.mem_rows_iff t r).mp hr with hold | ⟨k, hk⟩
  · have hown := hasOwnerIn_rows.mpr (h₀ t r.cols (List.mem_map_of_mem hold) o ho)
    exact hasOwnerIn_rows.mp (hown.mono fun t r hr => (hx.mem_rows_iff t r).mpr (.inl hr))
  · exact hx.hasOwner ((hx.owns k).owned t r hk o ho)

/-- The clients of the calls are distinct and not in the store yet. -/
structure NewClients (db₀ : Db P) (calls : κ → Call P) : Prop where
  distinct : ∀ k k' id, id ∈ (calls k).clientIds → id ∈ (calls k').clientIds → k = k'
  notStored : ∀ k, ∀ id ∈ (calls k).clientIds, ¬ HasOwner db₀ (.client id)

/-- At most one of the calls is for the client, and it is not in the store yet. -/
structure NewClient (db₀ : Db P) (calls : κ → Call P) (id : String) : Prop where
  distinct : ∀ k k', id ∈ (calls k).clientIds → id ∈ (calls k').clientIds → k = k'
  notStored : ¬ HasOwner db₀ (.client id)

theorem NewClients.newClient (hnew : NewClients db₀ calls) {k : κ} {id : String}
    (hid : id ∈ (calls k).clientIds) : NewClient db₀ calls id where
  distinct := fun k k' => hnew.distinct k k' id
  notStored := hnew.notStored k id hid

/-- Only clients bring their ids with them; the ids of the other owners come from the
store. -/
def NewOwner (db₀ : Db P) (calls : κ → Call P) : Owner → Prop
  | .client id => NewClient db₀ calls id
  | .apiResource _ | .apiScope _ | .identityResource _ => True

/-- The row of an owner is written by one call. -/
theorem CallsSound.eq_of_hasOwnerIn (hx : CallsSound db₀ calls x) {k k' : κ} {o : Owner}
    (h : HasOwnerIn (x.wrote k) o) (h' : HasOwnerIn (x.wrote k') o)
    (hnew : NewOwner db₀ calls o) : k = k' := by
  have hsame : ∀ {t : TableName} {r r' : Row (t.Columns P)}, r ∈ x.wrote k t →
      r' ∈ x.wrote k' t → r.id = r'.id → k = k' := by
    intro t r r' hr hr' hid
    have hstore := (hx.mem_rows_iff t r).mpr (.inr ⟨k, hr⟩)
    have hstore' := (hx.mem_rows_iff t r').mpr (.inr ⟨k', hr'⟩)
    obtain rfl := (x.store t).eq_of_id_eq hstore hstore' hid
    exact hx.disjoint k k' t r hr hr'
  cases o with
  | client id =>
    obtain ⟨r, hr, rfl⟩ := h
    obtain ⟨r', hr', hid⟩ := h'
    have hmem := (hx.owns k').clientIds r' hr'
    rw [hid] at hmem
    exact hnew.distinct k k' ((hx.owns k).clientIds r hr) hmem
  | apiResource id =>
    obtain ⟨r, hr, rfl⟩ := h
    obtain ⟨r', hr', hid⟩ := h'
    exact hsame hr hr' hid.symm
  | apiScope id =>
    obtain ⟨r, hr, rfl⟩ := h
    obtain ⟨r', hr', hid⟩ := h'
    exact hsame hr hr' hid.symm
  | identityResource id =>
    obtain ⟨r, hr, rfl⟩ := h
    obtain ⟨r', hr', hid⟩ := h'
    exact hsame hr hr' hid.symm

/-- And it was not there before. -/
theorem CallsSound.not_hasOwner_start (hx : CallsSound db₀ calls x) {k : κ} {o : Owner}
    (h : HasOwnerIn (x.wrote k) o) (hnew : NewOwner db₀ calls o) : ¬ HasOwner db₀ o := by
  have hfresh : ∀ {t : TableName} {r r' : Row (t.Columns P)}, r ∈ x.wrote k t →
      r' ∈ (db₀ t).rows → r'.id ≠ r.id := by
    intro t r r' hr hr' hid
    have hlt := (db₀ t).lt_next r' hr'
    have hle := hx.next_le_id k t r hr
    omega
  intro hold
  cases o with
  | client id =>
    obtain ⟨r, hr, rfl⟩ := h
    exact hnew.notStored hold
  | apiResource id =>
    obtain ⟨r, hr, rfl⟩ := h
    obtain ⟨r', hr', hid⟩ := hold
    exact hfresh hr hr' hid
  | apiScope id =>
    obtain ⟨r, hr, rfl⟩ := h
    obtain ⟨r', hr', hid⟩ := hold
    exact hfresh hr hr' hid
  | identityResource id =>
    obtain ⟨r, hr, rfl⟩ := h
    obtain ⟨r', hr', hid⟩ := hold
    exact hfresh hr hr' hid

/-- **What an owner owns** is what the call that wrote the owner's row has written
for it. -/
theorem CallsSound.children_perm (hx : CallsSound db₀ calls x) (h₀ : Owned db₀) {k : κ}
    {o : Owner} (ho : HasOwnerIn (x.wrote k) o) (hnew : NewOwner db₀ calls o) (t : TableName) :
    (children x.store t o).Perm
      ((x.wrote k t).filter fun r => decide (owner t r.cols = some o)) := by
  refine hx.filter_perm fun r hr hdec => ?_
  have howner : owner t r.cols = some o := of_decide_eq_true hdec
  rcases (hx.mem_rows_iff t r).mp hr with hold | ⟨k', hk'⟩
  · have hown := h₀ t r.cols (List.mem_map_of_mem hold) o howner
    exact absurd hown (hx.not_hasOwner_start ho hnew)
  · have hown := (hx.owns k').owned t r hk' o howner
    obtain rfl := hx.eq_of_hasOwnerIn ho hown hnew
    exact hk'

theorem CallsSound.ownedBy_perm (hx : CallsSound db₀ calls x) (h₀ : Owned db₀) {k : κ}
    {o : Owner} (ho : HasOwnerIn (x.wrote k) o) (hnew : NewOwner db₀ calls o) (t : TableName) :
    (ownedBy x.store t o).Perm
      ((Log.cols (x.wrote k) t).filter fun c => decide (owner t c = some o)) := by
  have hperm := (hx.children_perm h₀ ho hnew t).map Row.cols
  rwa [map_cols_filter (x.wrote k t) fun c => decide (owner t c = some o)] at hperm

/-- The rows of a table, from their ids and their other columns. -/
theorem eq_map_of_ids_of_cols {α ρ : Type} {rows : List (Row ρ)} {xs : List α} {f : α → ℕ}
    {g : α → ρ} (hids : rows.map Row.id = xs.map f) (hcols : rows.map Row.cols = xs.map g) :
    rows = xs.map fun x => ⟨f x, g x⟩ := by
  induction rows generalizing xs with
  | nil =>
    obtain rfl := List.map_eq_nil_iff.mp hids.symm
    rfl
  | cons row rows ih =>
    cases xs with
    | nil => exact absurd hids (List.cons_ne_nil _ _)
    | cons x xs =>
      obtain ⟨hid, hids⟩ := List.cons.inj hids
      obtain ⟨hcol, hcols⟩ := List.cons.inj hcols
      rw [List.map_cons, ← ih hids hcols, ← hid, ← hcol]

theorem eq_singleton_of_ids_of_cols {ρ : Type} {rows : List (Row ρ)} {id : ℕ} {x : ρ}
    (hids : rows.map Row.id = [id]) (hcols : rows.map Row.cols = [x]) : rows = [⟨id, x⟩] :=
  @eq_map_of_ids_of_cols Unit ρ rows [()] (fun _ => id) (fun _ => x) hids hcols

theorem CallsSound.stored_client (hx : CallsSound db₀ calls x) (h₀ : Owned db₀) {k : κ}
    {c : Models.Client P (Collection String)} (hnew : NewClient db₀ calls c.clientId)
    (hw : (Call.client c).Wrote (x.wrote k)) : (Call.client c).Stored x.store (x.wrote k) := by
  have hcols : ∀ t, Log.cols (x.wrote k) t = Delta.sum c.inserts t := fun t => congrFun hw t
  have hrow : (x.wrote k .clients).map Row.cols = [c.toClientColumns] := by
    rw [← Models.Client.sum_inserts (c := c) List.mem_cons_self, ← hcols]
    rfl
  refine ⟨hrow, fun t => ?_⟩
  have howner : HasOwnerIn (x.wrote k) (.client c.clientId) := by
    have hmem : c.toClientColumns ∈ (x.wrote k .clients).map Row.cols := by
      rw [hrow]
      exact List.mem_singleton.mpr rfl
    obtain ⟨row, hmem, hrow⟩ := List.mem_map.mp hmem
    exact ⟨row, hmem, by rw [hrow]⟩
  rw [← c.filter_owner_inserts, ← hcols]
  exact hx.ownedBy_perm h₀ howner hnew t

/-- Rows that are all built for the owner are what it owns. -/
theorem CallsSound.ownedBy_perm_map (hx : CallsSound db₀ calls x) (h₀ : Owned db₀) {k : κ}
    {o : Owner} (ho : HasOwnerIn (x.wrote k) o) (hnew : NewOwner db₀ calls o) {α : Type}
    {t : TableName} {xs : List α} {f : α → t.Columns P}
    (hf : ∀ a, owner t (f a) = some o) (hcols : Log.cols (x.wrote k) t = xs.map f) :
    (ownedBy x.store t o).Perm (xs.map f) := by
  have hperm := hx.ownedBy_perm h₀ ho hnew t
  rwa [hcols, filter_owner_map hf] at hperm

theorem CallsSound.stored_apiResource (hx : CallsSound db₀ calls x) (h₀ : Owned db₀) {k : κ}
    {r : Models.ApiResource P} (hw : (Call.apiResource r).Wrote (x.wrote k)) :
    (Call.apiResource r).Stored x.store (x.wrote k) := by
  obtain ⟨id, scopes, hscopes, hsum, hid, hids⟩ := hw
  have hcols : ∀ t, Log.cols (x.wrote k) t = Delta.sum (r.insertsUnder id scopes) t :=
    fun t => congrFun hsum t
  have hrow : x.wrote k .apiResources = [⟨id, r.toResourceColumns⟩] :=
    eq_singleton_of_ids_of_cols hid ((hcols _).trans (sum_inserts_apiResources r _ _))
  have hscopeRows : x.wrote k .apiScopes = scopes.map fun s => ⟨s.2, ⟨s.1.toScopeColumns, id⟩⟩ :=
    eq_map_of_ids_of_cols hids ((hcols _).trans (sum_inserts_apiScopes r _ _))
  have howner : HasOwnerIn (x.wrote k) (.apiResource id) :=
    ⟨⟨id, r.toResourceColumns⟩, by simp [hrow], rfl⟩
  refine ⟨id, scopes, hrow, ?_, ?_, hscopes, ?_, ?_⟩
  · exact hx.ownedBy_perm_map h₀ howner trivial (fun _ => rfl)
      ((hcols _).trans (sum_inserts_apiSecrets r _ _))
  · exact hx.ownedBy_perm_map h₀ howner trivial (fun _ => rfl)
      ((hcols _).trans (sum_inserts_apiResourceClaims r _ _))
  · have hperm := hx.children_perm h₀ howner trivial .apiScopes
    rw [hscopeRows, List.filter_eq_self.mpr] at hperm
    · exact hperm
    · intro row hrow
      obtain ⟨s, -, rfl⟩ := List.mem_map.mp hrow
      exact decide_eq_true rfl
  · intro s hs
    have hscope : HasOwnerIn (x.wrote k) (.apiScope s.2) :=
      ⟨⟨s.2, ⟨s.1.toScopeColumns, id⟩⟩, by rw [hscopeRows]; exact List.mem_map_of_mem hs, rfl⟩
    have hnodup : (scopes.map Prod.snd).Nodup := hids ▸ hx.nodup k .apiScopes
    have hperm := hx.ownedBy_perm h₀ hscope trivial .apiScopeClaims
    rw [hcols, sum_inserts_apiScopeClaims] at hperm
    have hfilter := filter_scopeClaims hnodup hs
    simp only [owner, Option.some.injEq, Owner.apiScope.injEq] at hperm
    rwa [hfilter] at hperm

theorem CallsSound.stored_identityResource (hx : CallsSound db₀ calls x) (h₀ : Owned db₀) {k : κ}
    {r : Models.IdentityResource P} (hw : (Call.identityResource r).Wrote (x.wrote k)) :
    (Call.identityResource r).Stored x.store (x.wrote k) := by
  obtain ⟨id, hsum, hid⟩ := hw
  have hcols : ∀ t, Log.cols (x.wrote k) t = Delta.sum (r.inserts id) t :=
    fun t => congrFun hsum t
  have hrow : x.wrote k .identityResources = [⟨id, r.toResourceColumns⟩] := by
    refine eq_singleton_of_ids_of_cols hid ((hcols _).trans ?_)
    simp [Models.IdentityResource.inserts]
  have howner : HasOwnerIn (x.wrote k) (.identityResource id) :=
    ⟨⟨id, r.toResourceColumns⟩, by simp [hrow], rfl⟩
  refine ⟨id, hrow, hx.ownedBy_perm_map h₀ howner trivial (fun _ => rfl) ((hcols _).trans ?_)⟩
  simp [Models.IdentityResource.inserts]

variable [DecidableEq κ]

/-- **Who owns what when calls interleave.**  However the statements of the calls
come, and wherever a call stops: every child row has its owner, and a call that
has returned has exactly its rows under its parent row. -/
theorem owned_of_reaches (h₀ : Owned db₀) (hnew : NewClients db₀ calls)
    (hx : Pool.Reaches (.start db₀ fun k => (calls k).program) x) :
    Owned x.store ∧
      ∀ k, x.left k = .ret () → (calls k).Stored x.store (x.wrote k) := by
  have hsound : CallsSound db₀ calls x :=
    Pool.sound_of_reaches (fun k => (calls k).writes_program) hx
  refine ⟨hsound.owned h₀, fun k hk => ?_⟩
  have hwrites := hsound.writes k
  rw [hk] at hwrites
  have hwrote : (calls k).Wrote (x.wrote k) := hwrites.2
  cases hcall : calls k with
  | client c =>
    have hid : c.clientId ∈ (calls k).clientIds := by simp [hcall, Call.clientIds]
    exact hsound.stored_client h₀ (hnew.newClient hid) (hcall ▸ hwrote)
  | apiResource r => exact hsound.stored_apiResource h₀ (hcall ▸ hwrote)
  | identityResource r => exact hsound.stored_identityResource h₀ (hcall ▸ hwrote)

end Pool

/-- A client and an identity resource, inserted at the same time. -/
def clientBesideResource : Bool → Call Platform.plain
  | true => .client (plainClient "app" [])
  | false => .identityResource (plainIdentityResource "profile" ["name"])

theorem newClients_clientBesideResource : NewClients Store.empty clientBesideResource where
  distinct := by
    intro k k' id h h'
    cases k <;> cases k' <;> simp [clientBesideResource, Call.clientIds] at h h' ⊢
  notStored := by
    rintro k id - ⟨c, hc, -⟩
    exact absurd hc List.not_mem_nil

theorem owned_of_reaches_clientBesideResource :
    ∃ x, Pool.Reaches (.start Store.empty fun k => (clientBesideResource k).program) x ∧
      (x.store .clients).values.length = 1 ∧ x.left false = .ret () ∧ Owned x.store ∧
      (clientBesideResource false).Stored x.store (x.wrote false) := by
  have hrow : Pool.Reaches (.start Store.empty fun k => (clientBesideResource k).program) _ :=
    .single (.statement (k := true) (.exec _ _ _))
  have hresource := hrow.tail (.statement (k := false) (.exec _ _ _))
  have hclaims := hresource.tail (.statement (k := false) (.exec _ _ _))
  have hx := owned_of_reaches owned_empty newClients_clientBesideResource hclaims
  exact ⟨_, hclaims, rfl, rfl, hx.1, hx.2 false rfl⟩

end IdentityLinq
