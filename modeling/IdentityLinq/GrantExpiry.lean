/-
Grants that expire by themselves.

To its callers the grant store is a partial function from keys to grants in which an
expired grant does not count (`GrantMap`): what they store under a key is there until it
is removed, replaced or expires, and nobody has to clear anything.  The table is not
like that: rows outlive their expiration until a tick of the cleanup deletes them, and
a row that is stored over keeps its `ClientId`.

* `GrantOp.step_apply` — one call on the table and on the map;
* `grantsAgree_iff` — so the table shows of the live grants what the map says, however
  the ticks of the cleanup come, exactly if no live grant is stored over the row of
  another client.
-/
import IdentityLinq.GrantHistory

namespace IdentityLinq

/-! ### What the store is for -/

/-- Grants by key. -/
abbrev GrantMap : Type := String → Option PersistedGrant

/-- The grant has not expired at the time `now`. -/
def PersistedGrant.live (now : DateTime) (x : PersistedGrant) : Bool :=
  match x.expiration with
  | some expiration => decide (now ≤ expiration)
  | none => true

/-- A call, as its caller means it; there is nothing to clear. -/
def GrantOp.apply (m : GrantMap) : GrantOp → GrantMap
  | store token => Function.update m token.key (some token)
  | remove key => Function.update m key none
  | removeAll subjectId clientId => fun k => (m k).filter fun x =>
      !(decide (x.subjectId = subjectId) && decide (x.clientId = clientId))
  | removeAllOfType subjectId clientId type => fun k => (m k).filter fun x =>
      !(decide (x.subjectId = subjectId) && decide (x.clientId = clientId)
        && decide (x.type = type))
  | clearTokens _ => m

/-- The grants after the calls. -/
def grantMap (ops : List GrantOp) : GrantMap := ops.foldl GrantOp.apply fun _ => none

theorem grantMap_concat (ops : List GrantOp) (op : GrantOp) :
    grantMap (ops ++ [op]) = op.apply (grantMap ops) := List.foldl_concat ..

/-- What the read methods show of the live grants is what the map says. -/
structure GrantsAgree (now : DateTime) (db : GrantDb) (m : GrantMap) : Prop where
  getAsync : ∀ k, ∃ found, ((getAsync k).run db).1 = .ok found ∧
    found.filter (·.live now) = (m k).filter (·.live now)
  getAllAsync : ∀ subjectId, ∃ rows, ((getAllAsync subjectId).run db).1 = .ok rows ∧
    ∀ x, x.live now = true → (x ∈ rows ↔ m x.key = some x ∧ x.subjectId = subjectId)

/-- All ticks so far were at `now` or before. -/
def TicksUpTo (now : DateTime) (ops : List GrantOp) : Prop :=
  ∀ t, .clearTokens t ∈ ops → t ≤ now

/-- A `StoreAsync` that finds a row of another client stores a grant which has expired
at some tick already. -/
def KeepsClients (ops : List GrantOp) : Prop :=
  ∀ pre token post, ops = pre ++ .store token :: post →
    ∀ row, (runGrants pre).get token.key = some row →
      (∀ t, .clearTokens t ∈ pre → token.live t = true) → row.clientId = token.clientId

/-! ### Live grants -/

theorem PersistedGrant.live_of_le {x : PersistedGrant} {t now : DateTime} (h : t ≤ now)
    (hlive : x.live now = true) : x.live t = true := by
  rw [live] at hlive ⊢
  cases hexp : x.expiration with
  | none => rfl
  | some expiration =>
    simp only [hexp, decide_eq_true_eq] at hlive ⊢
    exact le_trans h hlive

/-- A tick deletes what is not live. -/
theorem deletes_clearTokens (t : DateTime) (x : PersistedGrant) :
    (GrantOp.clearTokens t).deletes x = !x.live t := by
  rw [GrantOp.deletes, PersistedGrant.live]
  cases x.expiration with
  | none => rfl
  | some expiration => simp only [← decide_not, Nat.not_le]

theorem filter_live_clearTokens {t now : DateTime} (h : t ≤ now) (v : Option PersistedGrant) :
    (v.filter fun x => !(GrantOp.clearTokens t).deletes x).filter (·.live now)
      = v.filter (·.live now) := by
  cases v with
  | none => rfl
  | some x =>
    by_cases hlive : x.live now = true
    · simp [Option.filter_some, deletes_clearTokens, x.live_of_le h hlive]
    · by_cases ht : x.live t = true <;> simp [Option.filter_some, deletes_clearTokens, hlive, ht]

theorem filter_eq_of_forall {α : Type} {v : Option α} {p : α → Bool}
    (h : ∀ x, v = some x → p x = true) : v.filter p = v := by
  cases v with
  | none => rfl
  | some x => exact Option.filter_some_pos (h x rfl)

/-- Deleting by a condition on the grant does not look at expirations. -/
theorem filter_live_comm {v w : Option PersistedGrant} {now : DateTime}
    (h : v.filter (·.live now) = w.filter (·.live now)) (p : PersistedGrant → Bool) :
    (v.filter p).filter (·.live now) = (w.filter p).filter (·.live now) := by
  have hcomm : ∀ u : Option PersistedGrant,
      (u.filter p).filter (·.live now) = (u.filter (·.live now)).filter p := by
    intro u
    rw [Option.filter_filter, Option.filter_filter]
    simp only [Bool.and_comm]
  rw [hcomm v, hcomm w, h]

/-! ### One call -/

/-- Grants are kept under their own keys. -/
def GrantMap.Keyed (m : GrantMap) : Prop := ∀ k x, m k = some x → x.key = k

theorem GrantOp.apply_of_stores {op : GrantOp} {k : String} {token : PersistedGrant}
    (h : op.stores k = some token) (m : GrantMap) : op.apply m k = some token := by
  obtain ⟨rfl, rfl⟩ := stores_eq_some_iff.mp h
  exact Function.update_self ..

/-- Under the other keys a call deletes what it would delete from the table, unless it
is a tick. -/
theorem GrantOp.apply_of_not_stores {op : GrantOp} {k : String} (h : op.stores k = none)
    (htick : ∀ t, op ≠ .clearTokens t) {m : GrantMap} (hm : m.Keyed) :
    op.apply m k = (m k).filter fun x => !op.deletes x := by
  cases op with
  | store token =>
    have hk : k ≠ token.key := by
      rintro rfl
      simp [GrantOp.stores] at h
    rw [GrantOp.apply, Function.update_of_ne hk]
    exact (filter_eq_of_forall fun _ _ => rfl).symm
  | remove key =>
    rw [GrantOp.apply]
    by_cases hk : k = key
    · subst hk
      rw [Function.update_self, eq_comm, Option.filter_eq_none_iff]
      intro x hx
      simp [GrantOp.deletes, hm k x hx]
    · rw [Function.update_of_ne hk, eq_comm]
      refine filter_eq_of_forall fun x hx => ?_
      simpa [GrantOp.deletes, hm k x hx] using hk
  | removeAll subjectId clientId => rfl
  | removeAllOfType subjectId clientId type => rfl
  | clearTokens t => exact absurd rfl (htick t)

theorem GrantMap.Keyed.apply {m : GrantMap} (hm : m.Keyed) (op : GrantOp) :
    (op.apply m).Keyed := by
  intro k x hx
  cases hop : op.stores k with
  | some token =>
    rw [GrantOp.apply_of_stores hop, Option.some.injEq] at hx
    exact hx ▸ (stores_eq_some_iff.mp hop).2
  | none =>
    by_cases htick : ∀ t, op ≠ .clearTokens t
    · rw [GrantOp.apply_of_not_stores hop htick hm, Option.filter_eq_some_iff] at hx
      exact hm k x hx.1
    · obtain ⟨t, rfl⟩ : ∃ t, op = .clearTokens t := by simpa using htick
      exact hm k x hx

theorem keyed_grantMap (ops : List GrantOp) : (grantMap ops).Keyed := by
  induction ops using List.reverseRecOn with
  | nil => exact fun _ _ h => nomatch h
  | append_singleton ops op ih =>
    rw [grantMap_concat]
    exact ih.apply op

/-- **One call on the table and on the map.**  A live grant may be stored over a row of
its own client only. -/
theorem GrantOp.step_apply {op : GrantOp} {db : GrantDb} {m : GrantMap} {k : String}
    {now : DateTime} (hm : m.Keyed)
    (h : (db.get k).filter (·.live now) = (m k).filter (·.live now))
    (hstore : ∀ token, op.stores k = some token → token.live now = true →
      ∀ row, db.get k = some row → row.clientId = token.clientId)
    (htick : ∀ t, op = .clearTokens t → t ≤ now) :
    ((op.run db).get k).filter (·.live now) = (op.apply m k).filter (·.live now) := by
  rw [op.get_run]
  cases hop : op.stores k with
  | some token =>
    rw [cell_of_stores hop, op.apply_of_stores hop]
    cases hget : db.get k with
    | none => rfl
    | some row =>
      have hkey : row.key = token.key := by
        rw [(db.get_eq_some_iff.mp hget).2, (stores_eq_some_iff.mp hop).2]
      show (some (updateColumns token row)).filter _ = _
      by_cases hlive : token.live now = true
      · rw [updateColumns_eq, hkey, hstore token hop hlive row hget]
      · -- Neither of the two shows, whatever their clients are.
        have hrow : (updateColumns token row).live now = false := by
          rw [← Bool.not_eq_true]
          exact hlive
        simp [Option.filter_some, hlive, hrow]
  | none =>
    rw [cell_of_not_stores hop]
    by_cases hclear : ∀ t, op ≠ .clearTokens t
    · rw [op.apply_of_not_stores hop hclear hm]
      exact filter_live_comm h _
    · obtain ⟨t, rfl⟩ : ∃ t, op = .clearTokens t := by simpa using hclear
      rw [filter_live_clearTokens (htick t rfl)]
      exact h

/-! ### Runs -/

theorem grantsAgree_of_get {now : DateTime} {db : GrantDb} {m : GrantMap}
    (h : ∀ k, (db.get k).filter (·.live now) = (m k).filter (·.live now)) :
    GrantsAgree now db m where
  getAsync := fun k => ⟨db.get k, rfl, h k⟩
  getAllAsync := by
    intro subjectId
    refine ⟨_, by rw [run_getAllAsync], fun x hlive => ?_⟩
    have hsome : ∀ v : Option PersistedGrant,
        v = some x ↔ v.filter (·.live now) = some x := by
      intro v
      rw [Option.filter_eq_some_iff, and_iff_left hlive]
    rw [List.mem_filter, decide_eq_true_eq]
    refine and_congr_left fun _ => ?_
    -- A row is found under its key.
    rw [hsome (m x.key), ← h, ← hsome, db.get_eq_some_iff, and_iff_left rfl]

theorem KeepsClients.of_prefix {pre ops : List GrantOp} (h : KeepsClients ops)
    (hpre : pre <+: ops) : KeepsClients pre := by
  obtain ⟨rest, rfl⟩ := hpre
  intro pre' token post heq
  exact h pre' token (post ++ rest) (by rw [heq, List.append_assoc, List.cons_append])

theorem TicksUpTo.of_append {now : DateTime} {ops ops' : List GrantOp}
    (h : TicksUpTo now (ops ++ ops')) : TicksUpTo now ops :=
  fun t ht => h t (List.mem_append_left _ ht)

/-- What keeps clients shows the map's live grants. -/
theorem KeepsClients.grantsAgree {ops : List GrantOp} (h : KeepsClients ops) {now : DateTime}
    (hticks : TicksUpTo now ops) : GrantsAgree now (runGrants ops) (grantMap ops) := by
  refine grantsAgree_of_get fun k => ?_
  induction ops using List.reverseRecOn with
  | nil => rfl
  | append_singleton ops op ih =>
    rw [runGrants_concat, grantMap_concat]
    refine GrantOp.step_apply (keyed_grantMap ops)
      (ih (h.of_prefix (List.prefix_append _ _)) hticks.of_append) ?_ ?_
    · intro token hop hlive row hrow
      obtain ⟨rfl, rfl⟩ := stores_eq_some_iff.mp hop
      refine h ops token [] rfl row hrow fun t ht => ?_
      exact token.live_of_le (hticks t (List.mem_append_left _ ht)) hlive
    · rintro t rfl
      exact hticks t (by simp)

/-- A grant that is live at every tick is live at a time after all of them. -/
theorem exists_ticksUpTo {ops : List GrantOp} {token : PersistedGrant}
    (h : ∀ t, .clearTokens t ∈ ops → token.live t = true) :
    ∃ now, TicksUpTo now ops ∧ token.live now = true := by
  induction ops with
  | nil =>
    refine ⟨0, fun _ ht => absurd ht List.not_mem_nil, ?_⟩
    rw [PersistedGrant.live]
    cases token.expiration <;> simp
  | cons op ops ih =>
    obtain ⟨now, hticks, hlive⟩ := ih fun t ht => h t (List.mem_cons_of_mem _ ht)
    by_cases htick : ∃ t, op = .clearTokens t
    · obtain ⟨t, rfl⟩ := htick
      have ht := h t List.mem_cons_self
      refine ⟨max t now, ?_, ?_⟩
      · intro t' ht'
        rcases List.mem_cons.mp ht' with heq | hmem
        · exact le_trans (le_of_eq (GrantOp.clearTokens.inj heq)) (le_max_left _ _)
        · exact le_trans (hticks t' hmem) (le_max_right _ _)
      · rcases max_choice t now with hmax | hmax
        · rwa [hmax]
        · rwa [hmax]
    · refine ⟨now, fun t ht => ?_, hlive⟩
      rcases List.mem_cons.mp ht with heq | hmem
      · exact absurd ⟨t, heq.symm⟩ htick
      · exact hticks t hmem

/-- **When the cleanup is not seen.**  At every moment of a run, whatever ticks of the
cleanup it has, the table shows the live grants of the map: exactly if no grant that is
live at the ticks so far is stored over the row of another client. -/
theorem grantsAgree_iff (ops : List GrantOp) :
    (∀ pre, pre <+: ops → ∀ now, TicksUpTo now pre →
      GrantsAgree now (runGrants pre) (grantMap pre)) ↔ KeepsClients ops := by
  constructor
  · rintro h pre token post rfl row hrow hlive
    obtain ⟨now, hticks, hnow⟩ := exists_ticksUpTo hlive
    -- Ask for the key right after the grant was stored.
    have hagree := h (pre ++ [.store token]) ⟨post, by simp⟩ now fun t ht =>
      hticks t (by simpa using ht)
    obtain ⟨found, hfound, heq⟩ := hagree.getAsync token.key
    have hop : (GrantOp.store token).stores token.key = some token := if_pos rfl
    rw [run_getAsync, Except.ok.injEq, runGrants_concat, GrantOp.get_run, cell_of_stores hop,
      hrow] at hfound
    have hwritten : (writeGrant token (some row)).live now = true := hnow
    rw [← hfound, grantMap_concat, GrantOp.apply_of_stores hop, Option.filter_some_pos hwritten,
      Option.filter_some_pos hnow, Option.some.injEq] at heq
    have hclient := congrArg (fun x : PersistedGrant => x.clientId) heq
    exact hclient
  · intro h pre hpre now hticks
    exact (h.of_prefix hpre).grantsAgree hticks

/-- A grant stored for one client and then, still live, for another. -/
example : ¬ KeepsClients
    [.store (plainGrant "app"), .clearTokens 1, .store (plainGrant "web")] := by
  intro h
  have hclient := h [.store (plainGrant "app"), .clearTokens 1] (plainGrant "web") [] rfl
    (plainGrant "app") (by decide) (by simp [PersistedGrant.live, plainGrant])
  exact absurd hclient (by decide)

end IdentityLinq
