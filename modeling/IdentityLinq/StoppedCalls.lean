/-
Calls for clients that have stopped on the way.

A call may end with an exception of its own, at a null collection, or with one of the
database, at any statement.  Nothing undoes what it has written, and no other call adds to
it or takes anything away.  So it has inserted a client, if not the one it was called
with: the one with the first of its collections, the others empty (`upTo`).

* `inserts_complexInsertClient` — the inserts of the call, whatever the others do;
* `endedClient_beside_calls` — from its end on, every lookup ends as `foundAfter` says:
  with null, with the setter's exception, or with the client `upTo` where the call has
  come.
-/
import IdentityLinq.ConcurrentLookups

namespace IdentityLinq

variable {P : Platform} {α : Type}

/-! ### The client that is there -/

/-- What a lookup says of a client when `n` statements of its insertion have been
executed. -/
def Models.Client.foundAfter (c : Models.Client P (Collection String)) :
    ℕ → Except Error (Option (ClientContent P))
  | 0 => .ok none
  | n + 1 =>
    if P.validateGrantTypes (c.upTo (n + 1)).allowedGrantTypes then
      .ok (some (c.upTo (n + 1)).blank.content)
    else .error .invalidOperation

theorem Models.Client.complete_upTo {c : Models.Client P (Collection String)} {n : ℕ}
    (h : P.validateGrantTypes (c.upTo n).allowedGrantTypes = true) : (c.upTo n).Complete :=
  ⟨h, rfl, rfl, rfl, rfl, rfl, rfl, rfl, rfl⟩

/-! ### The statements of the call -/

theorem inserts_bulkCopy (t : TableName) (source : Collection α) (f : α → t.Columns P) :
    Inserts (bulkCopy t source f) [.single t ((source.getD []).map f)] := by
  cases source with
  | none => exact trivial
  | some xs => exact Inserts.insertRows _

/-- **What `ComplexInsert(Client)` writes**, whatever is written beside it. -/
theorem inserts_complexInsertClient (c : Models.Client P (Collection String)) :
    Inserts (complexInsertClient c) c.inserts := by
  rw [complexInsertClient, setAllowedGrantTypes]
  split
  · refine (Inserts.insertRows _).bind fun _ => ?_
    refine (inserts_bulkCopy .clientCorsOrigins _ _).bind fun _ => ?_
    refine (inserts_bulkCopy .clientGrantTypes _ _).bind fun _ => ?_
    refine (inserts_bulkCopy .clientScopes _ _).bind fun _ => ?_
    refine (inserts_bulkCopy .clientClaims _ _).bind fun _ => ?_
    refine (inserts_bulkCopy .clientSecrets _ _).bind fun _ => ?_
    refine (inserts_bulkCopy .clientIdPRestrictions _ _).bind fun _ => ?_
    refine (inserts_bulkCopy .clientPostLogoutRedirectUris _ _).bind fun _ => ?_
    exact (inserts_bulkCopy .clientRedirectUris _ _).bind fun _ => rfl
  · exact trivial

/-- A call for a client has written the rows of its first inserts. -/
def Call.Begun (L : CallLog P) : Call P → Prop
  | client c => ∃ n, Log.cols L = Delta.sum (c.inserts.take n)
  | apiResource _ => True
  | identityResource _ => True

theorem Call.writes_begun (call : Call P) :
    Writes call.Begun (fun _ _ => True) call.program .nil := by
  cases call with
  | client c =>
    have hinserts : Inserts (Call.client c).program (c.inserts ++ []) :=
      (inserts_complexInsertClient c).bind fun _ => rfl
    rw [List.append_nil] at hinserts
    exact @hinserts.writes _ _ _ _ _ _ [] _ rfl
  | apiResource r => exact (Call.apiResource r).writes_program.weaken fun _ _ => trivial
  | identityResource r => exact (Call.identityResource r).writes_program.weaken fun _ _ => trivial

/-! ### Lookups -/

section Lookup

variable {I : Db P → Prop}

/-- The client is in none of the stores. -/
theorem none_of_mayEnd {clientId : String}
    (hI : ∀ s, I s → ∀ x ∈ (s .clients).values, x.clientId ≠ clientId)
    {res : Except Error (Option (FoundClient P))}
    (h : Program.MayEnd I (findClientByIdAsync clientId) res) : res = .ok none := by
  obtain ⟨s, hs, h⟩ := (Program.mayEnd_query_bind _ _ _).mp h
  have hfind : (s .clients).values.find? (fun x => decide (x.clientId = clientId)) = none := by
    rw [List.find?_eq_none]
    exact fun x hx hdec => hI s hs x hx (of_decide_eq_true hdec)
  rw [hfind] at h
  exact h

/-- The setter does not accept the grant types of the client. -/
theorem error_of_mayEnd {c : Models.Client P (Collection String)}
    (hc : ¬ P.validateGrantTypes c.allowedGrantTypes = true) (hsome : c.allowedGrantTypes.isSome)
    (hI : ∀ s, I s → StoredClient s c) {res : Except Error (Option (FoundClient P))}
    (h : Program.MayEnd I (findClientByIdAsync c.clientId) res) :
    res = .error .invalidOperation := by
  obtain ⟨s₁, hs₁, h⟩ := (Program.mayEnd_query_bind _ _ _).mp h
  rw [(hI s₁ hs₁).find] at h
  obtain ⟨s₂, hs₂, h⟩ := (Program.mayEnd_query_bind _ _ _).mp h
  rw [(hI s₂ hs₂).reads.allowedGrantTypes, some_getD hsome, setAllowedGrantTypes, if_neg hc] at h
  exact h

end Lookup

section Pool

variable {κ : Type} [DecidableEq κ] {calls : κ → Call P} {db₀ : Db P}
  {x : Pool (TableName.Columns P) Error Unit κ} {k : κ} {c : Models.Client P (Collection String)}

/-- Where the call has come. -/
theorem exists_cols_of_reaches (hx : Pool.Reaches (.start db₀ fun k => (calls k).program) x)
    (hcall : calls k = .client c) : ∃ n, Log.cols (x.wrote k) = Delta.sum (c.inserts.take n) := by
  have hbegun := ((Pool.sound_of_reaches (fun k => (calls k).writes_begun) hx).writes k).start
  rwa [hcall] at hbegun

/-- What a lookup says from the end of the call on. -/
theorem foundAfter_of_ended (h₀ : Owned db₀) (hnew : NewClient db₀ calls c.clientId)
    (hx : Pool.Reaches (.start db₀ fun k => (calls k).program) x) (hcall : calls k = .client c)
    (hend : Pool.Ended x k) {n : ℕ} (hn : Log.cols (x.wrote k) = Delta.sum (c.inserts.take n))
    {y : Pool (TableName.Columns P) Error Unit κ} {res : Except Error (Option (FoundClient P))}
    (h : Pool.Beside x (findClientByIdAsync c.clientId) y (Program.final res))
    {z : Pool (TableName.Columns P) Error Unit κ} (hz : Pool.Reaches x z) :
    res.map (Option.map (contentOn z.store)) = c.foundAfter n := by
  have hid : c.clientId ∈ (calls k).clientIds := by simp [hcall, Call.clientIds]
  have hsound : ∀ {z}, Pool.Reaches x z → CallsSound db₀ calls z := fun hz =>
    Pool.sound_of_reaches (fun k => (calls k).writes_program) (hx.trans hz)
  have hmay := h.mayEnd_final (readOnly_findClientByIdAsync _)
  cases n with
  | zero =>
    -- No call has written a row of the client.
    obtain rfl : res = .ok none := by
      refine none_of_mayEnd ?_ hmay
      rintro s ⟨z, hz, rfl⟩ col hcol hcid
      obtain ⟨r, hr, rfl⟩ := List.mem_map.mp hcol
      rcases ((hsound hz).mem_rows_iff _ r).mp hr with hold | ⟨k', hk'⟩
      · exact hnew.notStored ⟨r.cols, List.mem_map_of_mem hold, hcid⟩
      · have hid' := ((hsound hz).owns k').clientIds r hk'
        rw [hcid] at hid'
        obtain rfl := hnew.distinct k k' hid hid'
        rw [hend.wrote_eq hz] at hk'
        have hnil : (x.wrote k .clients).map Row.cols = [] := congrFun hn .clients
        rw [List.map_eq_nil_iff.mp hnil] at hk'
        exact List.not_mem_nil hk'
    rfl
  | succ n =>
    have hstored : ∀ s, (∃ z, Pool.Reaches x z ∧ z.store = s) →
        StoredClient s (c.upTo (n + 1)) := by
      rintro s ⟨z, hz, rfl⟩
      have hordered := Pool.ordered_of_reaches (fun k => (calls k).writes_program) (hx.trans hz)
      refine (hsound hz).storedClient (k := k) hordered h₀ hnew ?_
      show Log.cols (z.wrote k) = _
      rw [hend.wrote_eq hz, hn, c.sum_upTo]
    rw [Models.Client.foundAfter]
    split
    · next hvalid =>
      obtain ⟨found, rfl, hcontent⟩ := found_of_mayEnd (c.complete_upTo hvalid) hstored hmay
      show Except.ok (some (contentOn z.store found)) = _
      rw [hcontent z.store ⟨z, hz, rfl⟩]
    · next hinvalid =>
      obtain rfl := error_of_mayEnd hinvalid rfl hstored hmay
      rfl

/-- **Clients whose call has ended**, returned or not: the call has executed some of its
statements, and from then on every lookup, interleaved with any other calls, ends as they
demand. -/
theorem endedClient_beside_calls (h₀ : Owned db₀) (hnew : NewClient db₀ calls c.clientId)
    (hx : Pool.Reaches (.start db₀ fun k => (calls k).program) x) (hcall : calls k = .client c)
    (hend : Pool.Ended x k) :
    ∃ n, Log.cols (x.wrote k) = Delta.sum (c.inserts.take n) ∧
      ∀ y res, Pool.Beside x (findClientByIdAsync c.clientId) y (Program.final res) →
        ∀ z, Pool.Reaches x z →
          res.map (Option.map (contentOn z.store)) = c.foundAfter n := by
  obtain ⟨n, hn⟩ := exists_cols_of_reaches hx hcall
  exact ⟨n, hn, fun y res h z hz => foundAfter_of_ended h₀ hnew hx hcall hend hn h hz⟩

/-- The database rejects the second statement for the client; from then on looking it up
throws. -/
theorem endedClient_beside_calls_clientBesideResource :
    ∃ x, Pool.Reaches (.start Store.empty fun k => (clientBesideResource k).program) x ∧
      x.left true = .raise .database ∧
      ∃ y, Pool.Beside x (findClientByIdAsync "app") y
        (Program.final (.error .invalidOperation)) := by
  have hrow : Pool.Reaches (.start Store.empty fun k => (clientBesideResource k).program) _ :=
    .single (.statement (k := true) (.exec _ _ _))
  obtain ⟨x, hx, hstop, hclients, hgrants, hother⟩ : ∃ x,
      Pool.Reaches (.start Store.empty fun k => (clientBesideResource k).program) x ∧
      x.left true = .raise .database ∧ (x.wrote true .clients).length = 1 ∧
      x.wrote true .clientGrantTypes = [] ∧
      x.left false = (clientBesideResource false).program :=
    ⟨_, hrow.tail (.stop true .database), rfl, rfl, rfl, rfl⟩
  obtain ⟨p, s, hstatement⟩ : ∃ p s,
      Program.Step (clientBesideResource false).program x.store p s := ⟨_, _, .exec _ _ _⟩
  rw [← hother] at hstatement
  have hreader : Pool.Beside x (findClientByIdAsync "app") _ _ := .reader .refl (.exec _ _ _)
  have hend := (hreader.pool (.statement hstatement)).run_reader
  have hnew := newClients_clientBesideResource.newClient (k := true) (List.mem_singleton.mpr rfl)
  obtain ⟨n, hn, hfound⟩ := endedClient_beside_calls owned_empty hnew hx (k := true)
    (c := plainClient "app" []) rfl ⟨.error .database, hstop⟩
  have hres := hfound _ _ hend x .refl
  -- The row is in, the grant types are not.
  have hafter : (plainClient "app" []).foundAfter n = .error .invalidOperation := by
    match n with
    | 0 =>
      have hnil : (x.wrote true .clients).map Row.cols = [] := congrFun hn .clients
      rw [List.map_eq_nil_iff.mp hnil] at hclients
      simp at hclients
    | 1 => rfl
    | 2 => rfl
    | n + 3 =>
      have hcols := congrFun hn .clientGrantTypes
      rw [Log.cols, hgrants] at hcols
      simp [Models.Client.inserts, Models.Client.childInserts, plainClient] at hcols
  have herror : ∀ {res : Except Error (Option (FoundClient Platform.plain))},
      res.map (Option.map (contentOn x.store)) = .error .invalidOperation →
      res = .error .invalidOperation := by
    intro res h
    cases res with
    | ok found => exact absurd h (by simp [Except.map])
    | error e => exact congrArg _ (Except.error.inj h)
  rw [herror (hres.trans hafter)] at hend
  exact ⟨x, hx, hstop, _, hend⟩

end Pool

end IdentityLinq
