/-
`ClientId` as a key of `Client`.

The README says that `ClientId` is the primary key, but no mapping makes it one,
so nothing stops a second insert under the same id.  A call whose grant types
the setter rejects writes nothing (`runCalls_accepted`); any other call writes
its row of `Client`, even if it throws afterwards.  So

* `clientsSeparate_iff` — a run keeps its clients apart exactly if the calls that
  write have distinct ids, and each of them either stores its client faithfully or
  leaves a row that no lookup returns.
-/
import IdentityLinq.ClientRuns

namespace IdentityLinq

variable {P : Platform} {c : Models.Client P (Collection String)}

/-! ### Calls that throw -/

/-- The clients whose grant types the setter accepts. -/
def accepted (cs : List (Models.Client P (Collection String))) :
    List (Models.Client P (Collection String)) :=
  cs.filter fun c => P.validateGrantTypes c.allowedGrantTypes

theorem mem_accepted {cs : List (Models.Client P (Collection String))} :
    c ∈ accepted cs ↔ c ∈ cs ∧ P.validateGrantTypes c.allowedGrantTypes = true :=
  List.mem_filter

theorem run_of_rejected (h : ¬ P.validateGrantTypes c.allowedGrantTypes = true) (db : Db P) :
    (Call.client c).run db = db := by
  have hwritten := written_complexInsertClient c db
  rwa [if_neg h] at hwritten

/-- Rejected calls leave no trace in a run. -/
theorem runCalls_accepted (cs : List (Models.Client P (Collection String))) (db : Db P) :
    runCalls (cs.map Call.client) db = runCalls ((accepted cs).map Call.client) db := by
  induction cs generalizing db with
  | nil => rfl
  | cons c cs ih =>
    rw [List.map_cons, runCalls_cons, ih, accepted, accepted, List.filter_cons]
    split
    · rfl
    · next h => rw [run_of_rejected h]

/-- The grant types the call gets to write: where the origins are null it throws
before. -/
def Models.Client.writtenGrantTypes (c : Models.Client P (Collection String)) : List String :=
  if c.allowedCorsOrigins.isSome then c.allowedGrantTypes.getD [] else []

theorem run_clientGrantTypes (h : P.validateGrantTypes c.allowedGrantTypes = true) (db : Db P) :
    (Call.client c).run db .clientGrantTypes = (db .clientGrantTypes).bulkCopy
      (c.writtenGrantTypes.map fun x => ⟨x, c.clientId⟩) := by
  obtain ⟨q, heq, hq⟩ := complexInsertClient_eq_copies c
  rw [Call.run, heq, setAllowedGrantTypes, if_pos h, Program.ret_bind,
    Models.Client.writtenGrantTypes]
  -- The call is stopped by null origins, by null grant types, or goes on.
  cases hcors : c.allowedCorsOrigins with
  | none =>
    show ((Delta.single .clients [c.toClientColumns]).addTo db) .clientGrantTypes = _
    simp
  | some origins =>
    cases hgrants : c.allowedGrantTypes with
    | none =>
      show ((Delta.single .clientCorsOrigins _).addTo ((Delta.single .clients _).addTo db))
        .clientGrantTypes = _
      simp
    | some grants =>
      refine ((hq (some grants) _).run.apply_eq (i := .clientGrantTypes) ?_).trans ?_
      · simp [Models.Client.childInserts]
      · simp

/-- The grant types found under an id after a run in which no other call is for
it. -/
theorem grantTypesQuery_runCalls {pre post : List (Call P)}
    (hc : P.validateGrantTypes c.allowedGrantTypes = true)
    (hpre : c.clientId ∉ pre.flatMap Call.clientIds)
    (hpost : c.clientId ∉ post.flatMap Call.clientIds) :
    grantTypesQuery c.clientId (runCalls (pre ++ .client c :: post) (Store.empty : Db P))
      = c.writtenGrantTypes := by
  have hbefore : ownedBy (runCalls pre (Store.empty : Db P)) .clientGrantTypes
      (.client c.clientId) = [] := by
    rw [ownedBy, children_runCalls_of_notMem hpre]
    rfl
  rw [grantTypesQuery_eq, runCalls_append, runCalls_cons, ownedBy,
    children_runCalls_of_notMem hpost, ← ownedBy, ownedBy_eq_filter, run_clientGrantTypes hc,
    Table.values_bulkCopy, List.filter_append, ← ownedBy_eq_filter, hbefore, List.nil_append,
    filter_owner_map fun _ => rfl, List.map_map]
  exact List.map_id _

/-- The call stores its client faithfully, or a row that no lookup returns: with
a null collection it throws, and what it wrote of the grant types is rejected. -/
def Models.Client.KeptApart (c : Models.Client P (Collection String)) : Prop :=
  (c.Complete → c.BlankClaims) ∧
    (¬ c.Complete → P.validateGrantTypes (some c.writtenGrantTypes) = false)

/-! ### Clients with one id -/

/-- On `db` every id has one row at most, and a client found has the content of
one of the clients `cs` whose insertion returned. -/
def ClientsSeparate (cs : List (Models.Client P (Collection String))) (db : Db P) : Prop :=
  ((db .clients).values.map (·.clientId)).Nodup ∧
    ∀ id x, ((findClientByIdAsync id).run db).1 = .ok (some x) →
      ∃ c ∈ cs, c.Complete ∧ c.clientId = id ∧ contentOn db x = c.content

/-- The database after the calls for the clients, from new tables. -/
def insertClients (cs : List (Models.Client P (Collection String))) : Db P :=
  runCalls (cs.map Call.client) Store.empty

section Lookup

variable {cs : List (Models.Client P (Collection String))}

theorem clientIds_insertClients (cs : List (Models.Client P (Collection String))) :
    (insertClients cs .clients).values.map (·.clientId) = (accepted cs).map (·.clientId) := by
  have hcolumns : ((accepted cs).map Call.client).flatMap Call.clientColumns
      = (accepted cs).map (·.toClientColumns) := by
    rw [List.flatMap_map, List.map_eq_flatMap]
    refine List.flatMap_congr fun c hc => ?_
    rw [Call.clientColumns, if_pos (mem_accepted.mp hc).2]
  rw [insertClients, runCalls_accepted, values_clients_runCalls, hcolumns, List.map_map]
  rfl

/-- The run around the one call that writes under the id of `c`. -/
theorem exists_split (hids : ((accepted cs).map (·.clientId)).Nodup) (hmem : c ∈ accepted cs) :
    ∃ pre post : List (Call P), insertClients cs = runCalls (pre ++ .client c :: post) Store.empty ∧
      c.clientId ∉ pre.flatMap Call.clientIds ∧ c.clientId ∉ post.flatMap Call.clientIds := by
  rw [insertClients, runCalls_accepted]
  obtain ⟨pre, post, heq⟩ := List.append_of_mem hmem
  rw [heq] at hids ⊢
  refine ⟨pre.map Call.client, post.map Call.client, by rw [List.map_append, List.map_cons], ?_⟩
  refine notMem_of_nodup_clientIds ?_
  rw [← List.map_cons, ← List.map_append, List.flatMap_map]
  rwa [List.map_eq_flatMap] at hids

theorem find_of_complete (hids : ((accepted cs).map (·.clientId)).Nodup) (hmem : c ∈ cs)
    (hc : c.Complete) : ∃ x, ((findClientByIdAsync c.clientId).run (insertClients cs)).1
      = .ok (some x) ∧ contentOn (insertClients cs) x = c.blank.content := by
  obtain ⟨pre, post, heq, hpre, hpost⟩ := exists_split hids (mem_accepted.mpr ⟨hmem, hc.1⟩)
  obtain ⟨x, hx, hcontent⟩ := findClientByIdAsync_runCalls hc hpre hpost heq
  exact ⟨x, by rw [hx], hcontent⟩

/-- A client whose row is there is found if the grant types in the table are
accepted. -/
theorem find_iff_of_accepted (hids : ((accepted cs).map (·.clientId)).Nodup)
    (hmem : c ∈ accepted cs) :
    (∃ x, ((findClientByIdAsync c.clientId).run (insertClients cs)).1 = .ok (some x)) ↔
      P.validateGrantTypes (some c.writtenGrantTypes) = true := by
  have hc := (mem_accepted.mp hmem).2
  obtain ⟨pre, post, heq, hpre, hpost⟩ := exists_split hids hmem
  rw [heq, run_findClientByIdAsync_some (find_clients_runCalls hc hpre post),
    grantTypesQuery_runCalls hc hpre hpost]
  split
  · next h => exact ⟨fun _ => h, fun _ => ⟨_, rfl⟩⟩
  · next h =>
    constructor
    · rintro ⟨x, hx⟩
      exact nomatch hx
    · exact fun hvalid => absurd hvalid h

/-- What is found under an id was written by an accepted call. -/
theorem mem_of_find {id : String} {x : FoundClient P}
    (hx : ((findClientByIdAsync id).run (insertClients cs)).1 = .ok (some x)) :
    ∃ c ∈ accepted cs, c.clientId = id := by
  obtain ⟨row, hrow, hid, -⟩ := eq_loadClient_of_found hx
  have hmem := List.mem_map_of_mem (f := fun row => row.clientId) hrow
  rw [clientIds_insertClients] at hmem
  obtain ⟨c, hc, hcid⟩ := List.mem_map.mp hmem
  exact ⟨c, hc, hcid.trans hid⟩

end Lookup

/-- **When clients are never merged**: all states of a run keep the clients
separate exactly if the calls that write have distinct ids and each keeps its
client apart. -/
theorem clientsSeparate_iff (cs : List (Models.Client P (Collection String))) :
    (∀ pre, pre <+: cs → ClientsSeparate pre (insertClients pre)) ↔
      ((accepted cs).map (·.clientId)).Nodup ∧ ∀ c ∈ accepted cs, c.KeptApart := by
  constructor
  · intro h
    -- The last state shows both: its rows have the ids, its lookups the clients.
    obtain ⟨hids, hfind⟩ := h cs List.prefix_rfl
    rw [clientIds_insertClients] at hids
    have hsame : ∀ c ∈ accepted cs, ∀ x,
        ((findClientByIdAsync c.clientId).run (insertClients cs)).1 = .ok (some x) →
        c.Complete ∧ contentOn (insertClients cs) x = c.content := by
      intro c hmem x hx
      obtain ⟨c', hmem', hc', hid, hcontent⟩ := hfind c.clientId x hx
      have heq : c' = c :=
        List.inj_on_of_nodup_map hids (mem_accepted.mpr ⟨hmem', hc'.1⟩) hmem hid
      exact heq ▸ ⟨hc', hcontent⟩
    refine ⟨hids, fun c hmem => ⟨fun hc => ?_, fun hc => ?_⟩⟩
    · obtain ⟨x, hx, hcontent⟩ := find_of_complete hids (mem_accepted.mp hmem).1 hc
      rw [(hsame c hmem x hx).2] at hcontent
      exact c.content_blank_eq_iff.mp hcontent.symm
    · by_contra hvalid
      obtain ⟨x, hx⟩ := (find_iff_of_accepted hids hmem).mpr (by simpa using hvalid)
      exact hc (hsame c hmem x hx).1
  · rintro ⟨hids, hapart⟩ pre hpre
    have hsublist : (accepted pre).Sublist (accepted cs) := hpre.sublist.filter _
    have hpreIds : ((accepted pre).map (·.clientId)).Nodup := hids.sublist (hsublist.map _)
    refine ⟨by rwa [clientIds_insertClients], fun id x hx => ?_⟩
    obtain ⟨c, hmem, rfl⟩ := mem_of_find hx
    obtain ⟨hblank, hthrows⟩ := hapart c (hsublist.subset hmem)
    by_cases hc : c.Complete
    · obtain ⟨x', hx', hcontent⟩ := find_of_complete hpreIds (mem_accepted.mp hmem).1 hc
      obtain rfl : x = x' := Option.some.inj (Except.ok.inj (hx.symm.trans hx'))
      exact ⟨c, (mem_accepted.mp hmem).1, hc, rfl,
        hcontent.trans (c.content_blank_eq_iff.mpr (hblank hc))⟩
    · have hvalid := (find_iff_of_accepted hpreIds hmem).mp ⟨x, hx⟩
      rw [hthrows hc] at hvalid
      exact nomatch hvalid

/-- Inserting a client twice leaves two rows with its id. -/
theorem not_clientsSeparate_twice :
    (plainClient "app" []).Complete ∧
      ¬ ∀ pre, pre <+: [plainClient "app" [], plainClient "app" []] →
        ClientsSeparate pre (insertClients pre) := by
  refine ⟨plainClient_complete _ _, fun h => ?_⟩
  have hrows := (h _ List.prefix_rfl).1
  exact absurd hrows (by decide)

end IdentityLinq
