/-
The cached `GetSimpleMap` against the plain one.

`getSimpleMap` maps an object by the columns of its two types.  The method compiles that
into a mapper and keeps it in `_mappers`, among threads that look mappers up, add them
and clear them away in any order.  A caller sees nothing of this:

* `getSimpleMap_cached` — where `ApplyDefaultEntitiesMappings` leaves the two types of a
  call alone, the call returns what the plain function returns, after at most five steps
  of its own, whatever the other threads do.
-/
import IdentityLinq.MapperCache

namespace IdentityLinq

variable {T Obj V κ : Type} [DecidableEq T] [DecidableEq κ] {new : T → Obj}
  {configure : MappingSchema T Obj V → MappingSchema T Obj V} {s s' : CacheState T Obj V κ}
  {a : κ × CacheAction T Obj} {k : κ}

/-- The schema describes the types of the call as `schema` does. -/
def SameTypes (call : MapCall T Obj) (schema schema' : MappingSchema T Obj V) : Prop :=
  schema'.getEntityDescriptor call.tSource = schema.getEntityDescriptor call.tSource ∧
    schema'.getEntityDescriptor call.tRes = schema.getEntityDescriptor call.tRes

omit [DecidableEq T] in
theorem buildMapper_of_sameTypes {call : MapCall T Obj} {schema schema' : MappingSchema T Obj V}
    (h : SameTypes call schema schema') :
    buildMapper new schema' call.tSource call.tRes
      = buildMapper new schema call.tSource call.tRes := by
  funext osrc
  rw [buildMapper, buildMapper, h.1, h.2]

/-- Steps that a call of `GetSimpleMap` has left to its return. -/
def MapPc.stepsLeft : MapPc Obj → ℕ
  | lock => 5
  | tryGetValue _ => 4
  | build _ => 3
  | tryAdd _ _ => 2
  | map _ => 1

/-- The thread has taken `n` steps of its call, and no more than five are needed. -/
def WithinFive (k : κ) (n : ℕ) (s : CacheState T Obj V κ) : Prop :=
  ∀ call pc, s.threads k = .getSimpleMap call pc → n + pc.stepsLeft ≤ 5

theorem WithinFive.step {n : ℕ} (h : WithinFive k n s) (hs : CacheStep new configure s a s')
    (ha : ∀ call, a ≠ (k, .callGetSimpleMap call)) :
    WithinFive k (n + if a.1 = k then 1 else 0) s' := by
  by_cases hk : a.1 = k
  · subst hk
    rw [if_pos rfl]
    -- Every own step brings the call nearer to its return, or ends it.
    intro call' pc' hpc'
    cases hs with
    | callGetSimpleMap call _ => exact absurd rfl (ha call)
    | found hpc _ | created hpc _ | hit hpc _ | miss hpc _ | build hpc | tryAdd hpc =>
      have hbudget := h _ _ hpc
      rw [CacheState.setThread_threads_self, ThreadPc.getSimpleMap.injEq] at hpc'
      rw [← hpc'.2]
      simp only [MapPc.stepsLeft] at hbudget ⊢
      omega
    | map _ | callApplyMappings _ | change _ | clear _ | ret _ =>
      rw [CacheState.setThread_threads_self] at hpc'
      exact absurd hpc' (by simp)
  · rw [if_neg hk, Nat.add_zero]
    intro call pc hpc
    rw [hs.threads_of_ne fun hka => hk hka.symm] at hpc
    exact h call pc hpc

theorem WithinFive.run {n : ℕ} (h : WithinFive k n s)
    {ts : List (Transition (CacheState T Obj V κ) (κ × CacheAction T Obj))}
    (hrun : Run (CacheStep new configure) s ts s')
    (hts : ∀ t ∈ ts, ∀ call, t.label ≠ (k, .callGetSimpleMap call)) :
    WithinFive k (n + ts.countP fun t => decide (t.label.1 = k)) s' := by
  induction hrun with
  | nil => exact h
  | @concat ts s' s'' a _ hs ih =>
    have hlast := hts ⟨s', a, s''⟩ (List.mem_append_right _ List.mem_cons_self)
    have hstep := (ih fun t ht => hts t (List.mem_append_left _ ht)).step hs hlast
    simpa [List.countP_append, List.countP_singleton, Nat.add_assoc] using hstep

/-- Changes that leave the types of the call alone are not seen in the schema. -/
theorem sameTypes_of_run {call : MapCall T Obj} {schema : MappingSchema T Obj V}
    (hconfigure : ∀ schema, SameTypes call schema (configure schema))
    {ts : List (Transition (CacheState T Obj V κ) (κ × CacheAction T Obj))}
    (hrun : Run (CacheStep new configure) (CacheState.init schema) ts s) :
    ∀ t ∈ ts, SameTypes call schema t.before.schema := by
  refine hrun.forall_before (J := fun s => SameTypes call schema s.schema) ⟨rfl, rfl⟩ ?_
  intro s a s' h hs
  cases hs with
  | change _ =>
    have hchange := hconfigure s.schema
    exact ⟨hchange.1.trans h.1, hchange.2.trans h.2⟩
  | tryAdd _ =>
    show SameTypes call schema (s.tryAdd _ _ _).schema
    rw [CacheState.tryAdd]
    split <;> exact h
  | _ => exact h

/-- **The cache is invisible.**  In every run of any number of threads, a call of
`GetSimpleMap` for two types that `ApplyDefaultEntitiesMappings` does not touch (begun
at `b`, returning at `m`) returns what the uncached mapping of its source gives, and
takes at most four steps in between. -/
theorem getSimpleMap_cached {schema : MappingSchema T Obj V}
    {before inCall rest : List (Transition (CacheState T Obj V κ) (κ × CacheAction T Obj))}
    {b m : Transition (CacheState T Obj V κ) (κ × CacheAction T Obj)} {call : MapCall T Obj}
    {result : Obj} (hconfigure : ∀ schema, SameTypes call schema (configure schema))
    (hrun : Run (CacheStep new configure) (CacheState.init schema)
      (before ++ b :: (inCall ++ m :: rest)) s)
    (hb : b.label = (k, .callGetSimpleMap call)) (hm : m.label = (k, .map result))
    (hcall : ∀ t ∈ inCall, ∀ call', t.label ≠ (k, .callGetSimpleMap call')) :
    result = getSimpleMap (schema.getEntityDescriptor call.tSource)
        (schema.getEntityDescriptor call.tRes) (new call.tRes) call.source ∧
      inCall.countP (fun t => decide (t.label.1 = k)) ≤ 4 := by
  have hsame := sameTypes_of_run hconfigure hrun
  obtain ⟨hbefore, hb', hafter⟩ := hrun.split
  obtain ⟨hin, hm', -⟩ := hafter.split
  rw [hb] at hb'
  rw [hm] at hm'
  have hbegun := hb'.of_callGetSimpleMap
  obtain ⟨call', mapper, hpc, rfl⟩ := hm'.of_map
  constructor
  · -- Every mapper in any dictionary was built from a schema with the same two types.
    set F : MappingSchema T Obj V → Prop := SameTypes call schema with hF
    have h₀ : CacheInv new F 0 (fun _ => call.tSource)
        (CacheState.init schema : CacheState T Obj V κ) := CacheInv.init schema
    obtain ⟨typeOf, hinv⟩ := h₀.run hbefore fun t ht => hsame t (List.mem_append_left _ ht)
    obtain ⟨typeOf', hinv'⟩ := hinv.step hb' (hsame b (by simp))
    have hserves : Serves new F 0 call (b.after.threads k) := by
      rw [hbegun]
      exact rfl
    have hend := Serves.run hinv' hserves hin (fun t ht => hsame t (by simp [ht])) hcall
    rw [hpc] at hend
    obtain ⟨rfl, schema', hschema', rfl⟩ := hend
    rw [buildMapper_of_sameTypes hschema', buildMapper]
  · have hstart : WithinFive k 0 b.after := by
      intro call' pc' hpc'
      rw [hbegun, ThreadPc.getSimpleMap.injEq] at hpc'
      rw [← hpc'.2]
      exact Nat.le_refl 5
    have hbudget := hstart.run hin hcall _ _ hpc
    rw [MapPc.stepsLeft] at hbudget
    omega

/-- The class of the grants is described without columns. -/
def noGrantColumns (schema : MappingSchema String (Models.ClientColumns Bool) ColumnValue) :
    MappingSchema String (Models.ClientColumns Bool) ColumnValue where
  getEntityDescriptor := fun t =>
    if t = "IdentityServer4.Contrib.LinqToDB.Entities.PersistedGrant" then []
    else schema.getEntityDescriptor t

theorem sameTypes_noGrantColumns
    (schema : MappingSchema String (Models.ClientColumns Bool) ColumnValue) :
    SameTypes plainMapCall schema (noGrantColumns schema) := by
  simp [SameTypes, noGrantColumns, plainMapCall]

/-- Thread 1 clears the dictionaries away between two steps of thread 0. -/
theorem getSimpleMap_cached_plainMapCall :
    ∃ ts s, Run (PlainStep noGrantColumns) (CacheState.init plainSchema) ts s ∧
      (⟨"app", false⟩ : Models.ClientColumns Bool)
        = getSimpleMap Platform.plain.clientModel Platform.plain.clientModel ⟨"", true⟩
            plainMapCall.source := by
  have hstart : Run (PlainStep noGrantColumns) (CacheState.init plainSchema) [] _ := Run.nil
  have hmiss := ((hstart.concat (.callGetSimpleMap (k := 0) plainMapCall rfl)).concat
    (.created (k := 0) rfl rfl)).concat (.miss (k := 0) rfl rfl)
  have hcleared := ((hmiss.concat (.callApplyMappings (k := 1) rfl)).concat
    (.change (k := 1) rfl)).concat (.clear (k := 1) rfl)
  have hrun := ((hcleared.concat (.build (k := 0) rfl)).concat (.tryAdd (k := 0) rfl)).concat
    (.map (k := 0) rfl)
  have hsplit : Run (PlainStep noGrantColumns) (CacheState.init plainSchema)
      ([] ++ _ :: ([_, _, _, _, _, _, _] ++ _ :: [])) _ := hrun
  exact ⟨_, _, hrun, (getSimpleMap_cached sameTypes_noGrantColumns hsplit rfl rfl (by simp)).1⟩

end IdentityLinq
