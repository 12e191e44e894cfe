/-
The cache of mappers behind `GetSimpleMap`.

`_mappers` has one dictionary of compiled mappers for every source type.  Only the
outer dictionary is protected by the lock: a call of `GetSimpleMap` takes its inner
dictionary out under the lock and then goes on with it by itself, so it may add a
mapper to a dictionary that `ApplyDefaultEntitiesMappings` has meanwhile thrown
away.  The inner dictionaries are kept by address, so that such a dictionary still
exists for the call that holds it.

* `CacheInv` — of the dictionaries created since the last `Clear`, every mapper was
  built from the schema as it was since then, and a dictionary created before is not
  in the outer one;
* `getSimpleMap_current` — so a call that begins after `ApplyDefaultEntitiesMappings`
  returned uses a mapper built from the schema as it was after the change, whatever
  other threads do.
-/
import IdentityLinq.Platform
import IdentityLinq.Transition
import Mathlib.Logic.Function.Basic

namespace IdentityLinq

variable {T Obj V κ : Type}

/-! ### The code -/

/-- A `MappingSchema`, by the columns it describes every type with. -/
structure MappingSchema (T Obj V : Type) where
  getEntityDescriptor : T → List (Column Obj V)

/-- `Func<object, object>` -/
abbrev Mapper (Obj : Type) : Type := Obj → Obj

/-- The mapper that `GetSimpleMap` compiles for two types, which `new` makes empty
objects of. -/
def buildMapper (new : T → Obj) (schema : MappingSchema T Obj V) (tSource tRes : T) : Mapper Obj :=
  fun osrc => getSimpleMap (schema.getEntityDescriptor tSource) (schema.getEntityDescriptor tRes)
    (new tRes) osrc

/-- A call of `GetSimpleMap<TSource, TRes>(source)`. -/
structure MapCall (T Obj : Type) where
  tSource : T
  tRes : T
  source : Obj

/-- Where a call of `GetSimpleMap` is, with its locals `mappers` (the address of an
inner dictionary) and `mapper`. -/
inductive MapPc (Obj : Type) where
  | lock
  | tryGetValue (mappers : ℕ)
  | build (mappers : ℕ)
  | tryAdd (mappers : ℕ) (mapper : Mapper Obj)
  | map (mapper : Mapper Obj)

/-- Where a call of `ApplyDefaultEntitiesMappings` is. -/
inductive ApplyPc where
  | change
  | clear
  | ret

inductive ThreadPc (T Obj : Type) where
  | idle
  | getSimpleMap (call : MapCall T Obj) (pc : MapPc Obj)
  | applyMappings (pc : ApplyPc)

/-- What the threads share, and where they are. -/
structure CacheState (T Obj V κ : Type) where
  /-- `MappingSchema.Default` -/
  schema : MappingSchema T Obj V
  /-- `_mappers`, with the inner dictionaries by address -/
  mappers : T → Option ℕ
  /-- the inner dictionaries -/
  inner : ℕ → T → Option (Mapper Obj)
  /-- the first address that is free -/
  allocated : ℕ
  threads : κ → ThreadPc T Obj

namespace CacheState

/-- Before the first call. -/
def init (schema : MappingSchema T Obj V) : CacheState T Obj V κ where
  schema := schema
  mappers := fun _ => none
  inner := fun _ _ => none
  allocated := 0
  threads := fun _ => .idle

def setThread [DecidableEq κ] (s : CacheState T Obj V κ) (k : κ) (pc : ThreadPc T Obj) :
    CacheState T Obj V κ :=
  { s with threads := Function.update s.threads k pc }

/-- A new inner dictionary, added to `_mappers`. -/
def create [DecidableEq T] (s : CacheState T Obj V κ) (tSource : T) : CacheState T Obj V κ :=
  { s with
    mappers := Function.update s.mappers tSource (some s.allocated)
    inner := Function.update s.inner s.allocated fun _ => none
    allocated := s.allocated + 1 }

/-- `mappers.TryAdd(typeof(TRes), mapper)`: a mapper that is there already stays. -/
def tryAdd [DecidableEq T] (s : CacheState T Obj V κ) (mappers : ℕ) (tRes : T)
    (mapper : Mapper Obj) : CacheState T Obj V κ :=
  match s.inner mappers tRes with
  | some _ => s
  | none => { s with
      inner := Function.update s.inner mappers
        (Function.update (s.inner mappers) tRes (some mapper)) }

end CacheState

inductive CacheAction (T Obj : Type) where
  | callGetSimpleMap (call : MapCall T Obj)
  | lock
  | tryGetValue
  | build
  | tryAdd
  | map (result : Obj)
  | callApplyMappings
  | change
  | clear
  | ret

/-- The steps of the threads; `configure` is what the fluent mapping of
`ApplyDefaultEntitiesMappings` does to the schema. -/
inductive CacheStep [DecidableEq T] [DecidableEq κ] (new : T → Obj)
    (configure : MappingSchema T Obj V → MappingSchema T Obj V) :
    CacheState T Obj V κ → κ × CacheAction T Obj → CacheState T Obj V κ → Prop where
  | callGetSimpleMap {s : CacheState T Obj V κ} {k : κ} (call : MapCall T Obj) :
      s.threads k = .idle →
      CacheStep new configure s (k, .callGetSimpleMap call)
        (s.setThread k (.getSimpleMap call .lock))
  | found {s : CacheState T Obj V κ} {k : κ} {call : MapCall T Obj} {mappers : ℕ} :
      s.threads k = .getSimpleMap call .lock → s.mappers call.tSource = some mappers →
      CacheStep new configure s (k, .lock)
        (s.setThread k (.getSimpleMap call (.tryGetValue mappers)))
  | created {s : CacheState T Obj V κ} {k : κ} {call : MapCall T Obj} :
      s.threads k = .getSimpleMap call .lock → s.mappers call.tSource = none →
      CacheStep new configure s (k, .lock)
        ((s.create call.tSource).setThread k (.getSimpleMap call (.tryGetValue s.allocated)))
  | hit {s : CacheState T Obj V κ} {k : κ} {call : MapCall T Obj} {mappers : ℕ}
      {mapper : Mapper Obj} :
      s.threads k = .getSimpleMap call (.tryGetValue mappers) →
      s.inner mappers call.tRes = some mapper →
      CacheStep new configure s (k, .tryGetValue)
        (s.setThread k (.getSimpleMap call (.map mapper)))
  | miss {s : CacheState T Obj V κ} {k : κ} {call : MapCall T Obj} {mappers : ℕ} :
      s.threads k = .getSimpleMap call (.tryGetValue mappers) →
      s.inner mappers call.tRes = none →
      CacheStep new configure s (k, .tryGetValue)
        (s.setThread k (.getSimpleMap call (.build mappers)))
  | build {s : CacheState T Obj V κ} {k : κ} {call : MapCall T Obj} {mappers : ℕ} :
      s.threads k = .getSimpleMap call (.build mappers) →
      CacheStep new configure s (k, .build) (s.setThread k (.getSimpleMap call
        (.tryAdd mappers (buildMapper new s.schema call.tSource call.tRes))))
  | tryAdd {s : CacheState T Obj V κ} {k : κ} {call : MapCall T Obj} {mappers : ℕ}
      {mapper : Mapper Obj} :
      s.threads k = .getSimpleMap call (.tryAdd mappers mapper) →
      CacheStep new configure s (k, .tryAdd)
        ((s.tryAdd mappers call.tRes mapper).setThread k (.getSimpleMap call (.map mapper)))
  | map {s : CacheState T Obj V κ} {k : κ} {call : MapCall T Obj} {mapper : Mapper Obj} :
      s.threads k = .getSimpleMap call (.map mapper) →
      CacheStep new configure s (k, .map (mapper call.source)) (s.setThread k .idle)
  | callApplyMappings {s : CacheState T Obj V κ} {k : κ} : s.threads k = .idle →
      CacheStep new configure s (k, .callApplyMappings)
        (s.setThread k (.applyMappings .change))
  | change {s : CacheState T Obj V κ} {k : κ} : s.threads k = .applyMappings .change →
      CacheStep new configure s (k, .change)
        ({ s with schema := configure s.schema }.setThread k (.applyMappings .clear))
  | clear {s : CacheState T Obj V κ} {k : κ} : s.threads k = .applyMappings .clear →
      CacheStep new configure s (k, .clear)
        ({ s with mappers := fun _ => none }.setThread k (.applyMappings .ret))
  | ret {s : CacheState T Obj V κ} {k : κ} : s.threads k = .applyMappings .ret →
      CacheStep new configure s (k, .ret) (s.setThread k .idle)

/-! ### What an operation leaves alone -/

section Operations

variable [DecidableEq κ] {s : CacheState T Obj V κ}

@[simp] theorem CacheState.setThread_threads_self (s : CacheState T Obj V κ) (k : κ)
    (pc : ThreadPc T Obj) : (s.setThread k pc).threads k = pc :=
  Function.update_self ..

theorem CacheState.setThread_threads_of_ne (s : CacheState T Obj V κ) {j k : κ} (h : j ≠ k)
    (pc : ThreadPc T Obj) : (s.setThread k pc).threads j = s.threads j :=
  Function.update_of_ne h ..

/-- What holds of all threads still does if it holds of the one that moved. -/
theorem CacheState.forall_setThread {p : ThreadPc T Obj → Prop} {k : κ} {pc : ThreadPc T Obj}
    (h : ∀ j, p (s.threads j)) (hpc : p pc) : ∀ j, p ((s.setThread k pc).threads j) := by
  intro j
  by_cases hj : j = k
  · rw [hj, setThread_threads_self]
    exact hpc
  · rw [s.setThread_threads_of_ne hj]
    exact h j

end Operations

section TryAdd

variable [DecidableEq T] {s : CacheState T Obj V κ} {d e : ℕ} {t u : T} {m m' : Mapper Obj}

@[simp] theorem CacheState.tryAdd_mappers : (s.tryAdd d t m).mappers = s.mappers := by
  rw [tryAdd]
  split <;> rfl

@[simp] theorem CacheState.tryAdd_allocated : (s.tryAdd d t m).allocated = s.allocated := by
  rw [tryAdd]
  split <;> rfl

@[simp] theorem CacheState.tryAdd_threads : (s.tryAdd d t m).threads = s.threads := by
  rw [tryAdd]
  split <;> rfl

/-- What is in a dictionary after `TryAdd` was there before or has been added. -/
theorem CacheState.inner_tryAdd (h : (s.tryAdd d t m).inner e u = some m') :
    s.inner e u = some m' ∨ (e = d ∧ u = t ∧ m' = m) := by
  rw [tryAdd] at h
  split at h
  · exact .inl h
  · change Function.update s.inner d _ e u = some m' at h
    by_cases he : e = d
    · subst he
      rw [Function.update_self] at h
      by_cases hu : u = t
      · subst hu
        rw [Function.update_self] at h
        exact .inr ⟨rfl, rfl, (Option.some.inj h).symm⟩
      · rw [Function.update_of_ne hu] at h
        exact .inl h
    · rw [Function.update_of_ne he] at h
      exact .inl h

end TryAdd

/-! ### The invariant -/

/-- The mapper was built for the two types from a schema that satisfies `F`. -/
def CompiledFrom (new : T → Obj) (F : MappingSchema T Obj V → Prop) (tSource tRes : T)
    (mapper : Mapper Obj) : Prop :=
  ∃ schema, F schema ∧ mapper = buildMapper new schema tSource tRes

/-- A thread holds a dictionary of its source type, and what it is about to add to a
dictionary from the address `n` on was built from `F`. -/
def ThreadOk (new : T → Obj) (F : MappingSchema T Obj V → Prop) (n : ℕ) (typeOf : ℕ → T)
    (allocated : ℕ) : ThreadPc T Obj → Prop
  | .getSimpleMap call (.tryGetValue d) => d < allocated ∧ typeOf d = call.tSource
  | .getSimpleMap call (.build d) => d < allocated ∧ typeOf d = call.tSource
  | .getSimpleMap call (.tryAdd d mapper) => (d < allocated ∧ typeOf d = call.tSource) ∧
      (n ≤ d → CompiledFrom new F call.tSource call.tRes mapper)
  | _ => True

/-- A thread stays as it should where the dictionaries that exist keep their types, and
less is asked of the mapper it is about to add. -/
theorem ThreadOk.mono {new : T → Obj} {F F' : MappingSchema T Obj V → Prop} {n n' : ℕ}
    {typeOf typeOf' : ℕ → T} {allocated allocated' : ℕ} {pc : ThreadPc T Obj}
    (h : ThreadOk new F n typeOf allocated pc)
    (hheld : ∀ d, d < allocated → d < allocated' ∧ typeOf' d = typeOf d)
    (hadd : ∀ d t u mapper, d < allocated → n' ≤ d →
      (n ≤ d → CompiledFrom new F t u mapper) → CompiledFrom new F' t u mapper) :
    ThreadOk new F' n' typeOf' allocated' pc := by
  have hholds : ∀ {d : ℕ} {tSource : T}, d < allocated ∧ typeOf d = tSource →
      d < allocated' ∧ typeOf' d = tSource := by
    rintro d tSource ⟨hlt, rfl⟩
    exact hheld d hlt
  cases pc with
  | idle => exact trivial
  | applyMappings pc => exact trivial
  | getSimpleMap call pc =>
    cases pc with
    | lock => exact trivial
    | tryGetValue d => exact hholds h
    | build d => exact hholds h
    | tryAdd d mapper => exact ⟨hholds h.1, fun hle => hadd d _ _ mapper h.1.1 hle h.2⟩
    | map mapper => exact trivial

/-- Inner dictionaries are those of one source type each (`typeOf`); the ones from the
address `n` on have only mappers built from `F`, and only they are in `_mappers`. -/
structure CacheInv (new : T → Obj) (F : MappingSchema T Obj V → Prop) (n : ℕ) (typeOf : ℕ → T)
    (s : CacheState T Obj V κ) : Prop where
  le_allocated : n ≤ s.allocated
  outer : ∀ t d, s.mappers t = some d → n ≤ d ∧ d < s.allocated ∧ typeOf d = t
  stored : ∀ d t mapper, n ≤ d → d < s.allocated → s.inner d t = some mapper →
    CompiledFrom new F (typeOf d) t mapper
  threads : ∀ k, ThreadOk new F n typeOf s.allocated (s.threads k)

namespace CacheInv

variable {new : T → Obj} {F : MappingSchema T Obj V → Prop} {n : ℕ} {typeOf : ℕ → T}
  {s : CacheState T Obj V κ}

theorem init (schema : MappingSchema T Obj V) :
    CacheInv new F 0 typeOf (CacheState.init schema : CacheState T Obj V κ) where
  le_allocated := Nat.le_refl _
  outer := fun _ _ h => absurd h (by simp [CacheState.init])
  stored := fun _ _ _ _ _ h => absurd h (by simp [CacheState.init])
  threads := fun _ => trivial

/-- Clearing `_mappers` starts anew: no dictionary created so far is in it any more, so
nothing has to be known of the mappers that were built before. -/
theorem clear (h : CacheInv new F n typeOf s) (F' : MappingSchema T Obj V → Prop) :
    CacheInv new F' s.allocated typeOf { s with mappers := fun _ => none } where
  le_allocated := Nat.le_refl _
  outer := fun _ _ hd => absurd hd (by simp)
  stored := fun d _ _ hle hlt _ => absurd hlt (Nat.not_lt.mpr hle)
  threads := by
    intro k
    refine (h.threads k).mono (fun d hlt => ⟨hlt, rfl⟩) fun d _ _ _ hlt hle _ => ?_
    exact absurd hlt (Nat.not_lt.mpr hle)

theorem setThread [DecidableEq κ] (h : CacheInv new F n typeOf s) {k : κ} {pc : ThreadPc T Obj}
    (hpc : ThreadOk new F n typeOf s.allocated pc) :
    CacheInv new F n typeOf (s.setThread k pc) where
  le_allocated := h.le_allocated
  outer := h.outer
  stored := h.stored
  threads := CacheState.forall_setThread h.threads hpc

/-- A new dictionary is empty, and its address was free. -/
theorem create [DecidableEq T] (h : CacheInv new F n typeOf s) (t : T) :
    CacheInv new F n (Function.update typeOf s.allocated t) (s.create t) where
  le_allocated := Nat.le_succ_of_le h.le_allocated
  outer := by
    intro t' d hd
    change Function.update s.mappers t (some s.allocated) t' = some d at hd
    by_cases ht : t' = t
    · rw [ht, Function.update_self, Option.some.injEq] at hd
      subst hd
      refine ⟨h.le_allocated, Nat.lt_succ_self _, ?_⟩
      rw [Function.update_self, ht]
    · rw [Function.update_of_ne ht] at hd
      obtain ⟨hle, hlt, htype⟩ := h.outer t' d hd
      refine ⟨hle, Nat.lt_succ_of_lt hlt, ?_⟩
      rw [Function.update_of_ne (Nat.ne_of_lt hlt), htype]
  stored := by
    intro d t' mapper hle hlt hd
    change Function.update s.inner s.allocated _ d t' = some mapper at hd
    by_cases hnew : d = s.allocated
    · rw [hnew, Function.update_self] at hd
      exact absurd hd (by simp)
    · have hold : d < s.allocated := by
        change d < s.allocated + 1 at hlt
        omega
      rw [Function.update_of_ne hnew] at hd
      rw [Function.update_of_ne hnew]
      exact h.stored d t' mapper hle hold hd
  threads := by
    intro k
    refine (h.threads k).mono (fun d hlt => ⟨Nat.lt_succ_of_lt hlt, ?_⟩)
      fun d _ _ _ _ hle hmapper => hmapper hle
    exact Function.update_of_ne (Nat.ne_of_lt hlt) ..

theorem tryAdd [DecidableEq T] (h : CacheInv new F n typeOf s) {d : ℕ} {t : T}
    {mapper : Mapper Obj} (hmapper : n ≤ d → CompiledFrom new F (typeOf d) t mapper) :
    CacheInv new F n typeOf (s.tryAdd d t mapper) where
  le_allocated := by simpa using h.le_allocated
  outer := by simpa using h.outer
  stored := by
    intro e u mapper' hle hlt he
    rw [CacheState.tryAdd_allocated] at hlt
    rcases CacheState.inner_tryAdd he with hold | ⟨rfl, rfl, rfl⟩
    · exact h.stored e u mapper' hle hlt hold
    · exact hmapper hle
  threads := by simpa using h.threads

/-- **Every step keeps the invariant** if the schema it finds satisfies `F`. -/
theorem step [DecidableEq T] [DecidableEq κ]
    {configure : MappingSchema T Obj V → MappingSchema T Obj V} {s' : CacheState T Obj V κ}
    {a : κ × CacheAction T Obj} (h : CacheInv new F n typeOf s)
    (hs : CacheStep new configure s a s') (hF : F s.schema) :
    ∃ typeOf', CacheInv new F n typeOf' s' := by
  cases hs with
  | callGetSimpleMap call _ => exact ⟨typeOf, h.setThread trivial⟩
  | @found k call d _ hd => exact ⟨typeOf, h.setThread (h.outer _ d hd).2⟩
  | @created k call _ _ =>
    refine ⟨_, (h.create call.tSource).setThread ⟨Nat.lt_succ_self _, ?_⟩⟩
    exact Function.update_self ..
  | hit _ _ => exact ⟨typeOf, h.setThread trivial⟩
  | @miss k call d hpc _ =>
    have hk := h.threads k
    rw [hpc] at hk
    exact ⟨typeOf, h.setThread hk⟩
  | @build k call d hpc =>
    have hk := h.threads k
    rw [hpc] at hk
    exact ⟨typeOf, h.setThread ⟨hk, fun _ => ⟨s.schema, hF, rfl⟩⟩⟩
  | @tryAdd k call d mapper hpc =>
    have hk := h.threads k
    rw [hpc] at hk
    have hmapper : n ≤ d → CompiledFrom new F (typeOf d) call.tRes mapper := by
      rw [hk.1.2]
      exact hk.2
    exact ⟨typeOf, (h.tryAdd hmapper).setThread trivial⟩
  | map _ => exact ⟨typeOf, h.setThread trivial⟩
  | callApplyMappings _ => exact ⟨typeOf, h.setThread trivial⟩
  | change _ =>
    have hsame : CacheInv new F n typeOf { s with schema := configure s.schema } :=
      ⟨h.le_allocated, h.outer, h.stored, h.threads⟩
    exact ⟨typeOf, hsame.setThread trivial⟩
  | clear _ =>
    have hnone : CacheInv new F n typeOf { s with mappers := fun _ => none } :=
      ⟨h.le_allocated, fun _ _ hd => absurd hd (by simp), h.stored, h.threads⟩
    exact ⟨typeOf, hnone.setThread trivial⟩
  | ret _ => exact ⟨typeOf, h.setThread trivial⟩

end CacheInv

/-! ### One call -/

section Call

variable [DecidableEq T] [DecidableEq κ] {new : T → Obj}
  {configure : MappingSchema T Obj V → MappingSchema T Obj V}
  {F : MappingSchema T Obj V → Prop} {n : ℕ} {typeOf : ℕ → T} {s s' : CacheState T Obj V κ}
  {a : κ × CacheAction T Obj} {k : κ} {call : MapCall T Obj}

/-- A step moves one thread. -/
theorem CacheStep.threads_of_ne (h : CacheStep new configure s a s') (hk : k ≠ a.1) :
    s'.threads k = s.threads k := by
  cases h with
  | tryAdd _ =>
    rw [CacheState.setThread_threads_of_ne _ hk, CacheState.tryAdd_threads]
  | _ => exact CacheState.setThread_threads_of_ne _ hk _

/-- If the thread is in a call of `GetSimpleMap`, it is this call, with a dictionary from
the address `n` on and a mapper built from `F`. -/
def Serves (new : T → Obj) (F : MappingSchema T Obj V → Prop) (n : ℕ) (call : MapCall T Obj) :
    ThreadPc T Obj → Prop
  | .getSimpleMap call' .lock => call' = call
  | .getSimpleMap call' (.tryGetValue d) => call' = call ∧ n ≤ d
  | .getSimpleMap call' (.build d) => call' = call ∧ n ≤ d
  | .getSimpleMap call' (.tryAdd _ mapper) =>
      call' = call ∧ CompiledFrom new F call.tSource call.tRes mapper
  | .getSimpleMap call' (.map mapper) =>
      call' = call ∧ CompiledFrom new F call.tSource call.tRes mapper
  | _ => True

theorem Serves.step (hinv : CacheInv new F n typeOf s) (h : Serves new F n call (s.threads k))
    (hs : CacheStep new configure s a s') (hF : F s.schema)
    (ha : ∀ call', a ≠ (k, .callGetSimpleMap call')) :
    Serves new F n call (s'.threads k) := by
  by_cases hk : k = a.1
  · subst hk
    cases hs with
    | callGetSimpleMap call' _ => exact absurd rfl (ha call')
    | @found _ call' d hpc hd =>
      rw [hpc] at h
      rw [CacheState.setThread_threads_self]
      exact ⟨h, (hinv.outer _ d hd).1⟩
    | @created _ call' hpc _ =>
      rw [hpc] at h
      rw [CacheState.setThread_threads_self]
      exact ⟨h, hinv.le_allocated⟩
    | @hit j call' d mapper hpc hmapper =>
      -- The dictionary is a new one, so what is found in it was built from `F`.
      have hheld := hinv.threads j
      rw [hpc] at h hheld
      obtain ⟨rfl, hle⟩ := h
      have hbuilt := hinv.stored d _ mapper hle hheld.1 hmapper
      rw [hheld.2] at hbuilt
      rw [CacheState.setThread_threads_self]
      exact ⟨rfl, hbuilt⟩
    | @miss _ call' d hpc _ =>
      rw [hpc] at h
      rw [CacheState.setThread_threads_self]
      exact h
    | @build _ call' d hpc =>
      rw [hpc] at h
      rw [CacheState.setThread_threads_self]
      obtain ⟨rfl, -⟩ := h
      exact ⟨rfl, s.schema, hF, rfl⟩
    | @tryAdd _ call' d mapper hpc =>
      rw [hpc] at h
      rw [CacheState.setThread_threads_self]
      exact h
    | map _ | callApplyMappings _ | change _ | clear _ | ret _ =>
      rw [CacheState.setThread_threads_self]
      exact trivial
  · rw [hs.threads_of_ne hk]
    exact h

/-! ### Inversion of single steps -/

theorem CacheStep.of_callGetSimpleMap
    (h : CacheStep new configure s (k, .callGetSimpleMap call) s') :
    s'.threads k = .getSimpleMap call .lock := by
  cases h with
  | callGetSimpleMap _ _ => exact CacheState.setThread_threads_self ..

theorem CacheStep.of_map {result : Obj} (h : CacheStep new configure s (k, .map result) s') :
    ∃ call mapper, s.threads k = .getSimpleMap call (.map mapper) ∧
      result = mapper call.source := by
  cases h with
  | map hpc => exact ⟨_, _, hpc, rfl⟩

theorem CacheStep.of_change (h : CacheStep new configure s (k, .change) s') :
    s'.threads k = .applyMappings .clear := by
  cases h with
  | change _ => exact CacheState.setThread_threads_self ..

theorem CacheStep.of_ret (h : CacheStep new configure s (k, .ret) s') :
    s.threads k = .applyMappings .ret := by
  cases h with
  | ret hpc => exact hpc

/-- A thread that is about to clear `_mappers` does not do anything else. -/
theorem CacheStep.eq_of_clear (h : CacheStep new configure s a s')
    (hk : s.threads k = .applyMappings .clear) (hk' : s'.threads k ≠ .applyMappings .clear) :
    s' = { s with mappers := fun _ => none }.setThread k (.applyMappings .ret) := by
  by_cases hka : k = a.1
  · subst hka
    cases h with
    | clear _ => rfl
    | callGetSimpleMap _ hpc | found hpc _ | created hpc _ | hit hpc _ | miss hpc _ | build hpc
    | tryAdd hpc | map hpc | callApplyMappings hpc | change hpc | ret hpc =>
      exact absurd (hk.symm.trans hpc) (by simp)
  · rw [h.threads_of_ne hka] at hk'
    exact absurd hk hk'

end Call

/-! ### Runs -/

section Runs

variable [DecidableEq T] [DecidableEq κ] {new : T → Obj}
  {configure : MappingSchema T Obj V → MappingSchema T Obj V}
  {F : MappingSchema T Obj V → Prop} {n : ℕ} {s s' : CacheState T Obj V κ}
  {ts : List (Transition (CacheState T Obj V κ) (κ × CacheAction T Obj))}

/-- The invariant along a run all of whose steps find a schema in `F`. -/
theorem CacheInv.run {typeOf : ℕ → T} (h : CacheInv new F n typeOf s)
    (hrun : Run (CacheStep new configure) s ts s') (hF : ∀ t ∈ ts, F t.before.schema) :
    ∃ typeOf', CacheInv new F n typeOf' s' := by
  refine hrun.invariant_of_forall (J := fun _ => True)
    (I := fun s => ∃ typeOf, CacheInv new F n typeOf s) (C := fun s _ => F s.schema)
    trivial (fun _ _ _ _ _ => trivial) ⟨typeOf, h⟩ ?_ hF
  rintro s a s' - ⟨typeOf, hinv⟩ hs hF
  exact hinv.step hs hF

/-- The same for a thread in one call of `GetSimpleMap`. -/
theorem Serves.run {typeOf : ℕ → T} {k : κ} {call : MapCall T Obj}
    (hinv : CacheInv new F n typeOf s) (h : Serves new F n call (s.threads k))
    (hrun : Run (CacheStep new configure) s ts s') (hF : ∀ t ∈ ts, F t.before.schema)
    (hts : ∀ t ∈ ts, ∀ call', t.label ≠ (k, .callGetSimpleMap call')) :
    Serves new F n call (s'.threads k) := by
  have hboth : (∃ typeOf, CacheInv new F n typeOf s') ∧ Serves new F n call (s'.threads k) := by
    refine hrun.invariant_of_forall (J := fun _ => True)
      (I := fun s => (∃ typeOf, CacheInv new F n typeOf s) ∧ Serves new F n call (s.threads k))
      (C := fun s a => F s.schema ∧ ∀ call', a ≠ (k, .callGetSimpleMap call'))
      trivial (fun _ _ _ _ _ => trivial) ⟨⟨typeOf, hinv⟩, h⟩ ?_ fun t ht => ⟨hF t ht, hts t ht⟩
    rintro s a s' - ⟨⟨typeOf, hinv⟩, h⟩ hs ⟨hF, ha⟩
    exact ⟨hinv.step hs hF, h.step hinv hs hF ha⟩
  exact hboth.2

/-- Between the change that a thread makes and its return it clears `_mappers`; from then
on the invariant holds anew. -/
theorem exists_clear {j : κ} {s₀ : CacheState T Obj V κ} {typeOf : ℕ → T}
    {before : List (Transition (CacheState T Obj V κ) (κ × CacheAction T Obj))}
    (hbefore : Run (CacheStep new configure) s₀ before s)
    (h₀ : CacheInv new (fun _ => True) 0 typeOf s₀) (hchange : s.threads j = .applyMappings .clear)
    (hrun : Run (CacheStep new configure) s ts s') (hret : s'.threads j = .applyMappings .ret)
    (F : MappingSchema T Obj V → Prop) :
    ∃ pre l post n typeOf', ts = pre ++ l :: post ∧ CacheInv new F n typeOf' l.after := by
  have hleft : ¬ s'.threads j = .applyMappings .clear := by simp [hret]
  obtain ⟨pre, l, post, rfl, hclear, hcleared⟩ :=
    hrun.exists_break (J := fun s => s.threads j = .applyMappings .clear) hchange hleft
  obtain ⟨hpre, hl, -⟩ := hrun.split
  obtain ⟨typeOf₁, h₁⟩ := h₀.run hbefore fun _ _ => trivial
  obtain ⟨typeOf₂, h₂⟩ := h₁.run hpre fun _ _ => trivial
  refine ⟨pre, l, post, l.before.allocated, typeOf₂, rfl, ?_⟩
  rw [hl.eq_of_clear hclear hcleared]
  exact (h₂.clear F).setThread trivial

/-- **The cache never serves a mapper from before a mapping change.**  In every run, a call
of `GetSimpleMap` that a thread `k` begins (`b`) after a call of
`ApplyDefaultEntitiesMappings` by a thread `j` made its change (`c`) and returned (`r`)
applies to its source a mapper that is built from the schema at some moment after the
change. -/
theorem getSimpleMap_current {schema : MappingSchema T Obj V}
    (hrun : Run (CacheStep new configure) (CacheState.init schema : CacheState T Obj V κ) ts s)
    {before during between inCall rest :
      List (Transition (CacheState T Obj V κ) (κ × CacheAction T Obj))}
    {c r b m : Transition (CacheState T Obj V κ) (κ × CacheAction T Obj)} {j k : κ}
    {call : MapCall T Obj} {result : Obj}
    (hts : ts = before ++ c :: (during ++ r :: (between ++ b :: (inCall ++ m :: rest))))
    (hc : c.label = (j, .change)) (hr : r.label = (j, .ret))
    (hb : b.label = (k, .callGetSimpleMap call)) (hm : m.label = (k, .map result))
    (hcall : ∀ t ∈ inCall, ∀ call', t.label ≠ (k, .callGetSimpleMap call')) :
    ∃ t ∈ during ++ r :: (between ++ b :: (inCall ++ [m])), ∃ mapper,
      m.before.threads k = .getSimpleMap call (.map mapper) ∧ result = mapper call.source ∧
      mapper = buildMapper new t.before.schema call.tSource call.tRes := by
  set F : MappingSchema T Obj V → Prop := fun schema =>
    ∃ t ∈ during ++ r :: (between ++ b :: (inCall ++ [m])), t.before.schema = schema
  have hmoment : ∀ t ∈ during ++ r :: (between ++ b :: (inCall ++ [m])), F t.before.schema :=
    fun t ht => ⟨t, ht, rfl⟩
  subst hts
  obtain ⟨hbefore, hc', hafter⟩ := hrun.split
  obtain ⟨hduring, hr', -⟩ := hafter.split
  rw [hc] at hc'
  rw [hr] at hr'
  have h₀ : CacheInv new (fun _ => True) 0 (fun _ => call.tSource)
      (CacheState.init schema : CacheState T Obj V κ) := CacheInv.init schema
  have hchanged := hbefore.concat hc'
  obtain ⟨pre, l, post, n, typeOf, rfl, hinv⟩ :=
    exists_clear hchanged h₀ hc'.of_change hduring hr'.of_ret F
  -- The run from the `Clear` to the beginning of the call, and the call.
  rw [List.append_assoc, List.cons_append] at hafter
  obtain ⟨-, -, hcleared⟩ := hafter.split
  rw [← List.cons_append, ← List.append_assoc] at hcleared
  obtain ⟨huntil, hb', hrest⟩ := hcleared.split
  obtain ⟨hin, hm', -⟩ := hrest.split
  rw [hb] at hb'
  rw [hm] at hm'
  have hFuntil : ∀ t ∈ post ++ r :: between, F t.before.schema := by
    intro t ht
    refine hmoment t ?_
    rcases List.mem_append.mp ht with hpost | hlate
    · exact List.mem_append_left _ (List.mem_append_right _ (List.mem_cons_of_mem _ hpost))
    · rw [← List.cons_append, ← List.append_assoc]
      exact List.mem_append_left _ (List.mem_append_right _ hlate)
  have hFin : ∀ t ∈ inCall, F t.before.schema := fun t ht => hmoment t (by simp [ht])
  obtain ⟨typeOf₁, h₁⟩ := hinv.run huntil hFuntil
  obtain ⟨typeOf₂, h₂⟩ := h₁.step hb' (hmoment b (by simp))
  have hstart : Serves new F n call (b.after.threads k) := by
    rw [hb'.of_callGetSimpleMap]
    exact rfl
  have hend := Serves.run h₂ hstart hin hFin hcall
  obtain ⟨call', mapper, hpc, rfl⟩ := hm'.of_map
  rw [hpc] at hend
  obtain ⟨rfl, schema', ⟨t, ht, rfl⟩, hmapper⟩ := hend
  exact ⟨t, ht, mapper, hpc, rfl, hmapper⟩

end Runs

/-- A client is mapped to its entity. -/
def plainMapCall : MapCall String (Models.ClientColumns Bool) where
  tSource := "IdentityServer4.Models.Client"
  tRes := "IdentityServer4.Contrib.LinqToDB.Entities.Client"
  source := ⟨"app", false⟩

def plainSchema : MappingSchema String (Models.ClientColumns Bool) ColumnValue where
  getEntityDescriptor := fun _ => Platform.plain.clientModel

/-- Three threads. -/
def PlainStep (configure : MappingSchema String (Models.ClientColumns Bool) ColumnValue →
      MappingSchema String (Models.ClientColumns Bool) ColumnValue) :
    CacheState String (Models.ClientColumns Bool) ColumnValue (Fin 3) →
    Fin 3 × CacheAction String (Models.ClientColumns Bool) →
    CacheState String (Models.ClientColumns Bool) ColumnValue (Fin 3) → Prop :=
  CacheStep (fun _ => ⟨"", true⟩) configure

/-- Only the key of a class is still a column. -/
def keyColumns (schema : MappingSchema String (Models.ClientColumns Bool) ColumnValue) :
    MappingSchema String (Models.ClientColumns Bool) ColumnValue where
  getEntityDescriptor := fun t => (schema.getEntityDescriptor t).take 1

def plainMapper (schema : MappingSchema String (Models.ClientColumns Bool) ColumnValue) :
    Mapper (Models.ClientColumns Bool) :=
  buildMapper (fun _ => ⟨"", true⟩) schema plainMapCall.tSource plainMapCall.tRes

/-- Thread 0 adds its mapper to a dictionary that thread 1 has cleared away; thread 2 does
not find it, and its client loses the member that is no column any more. -/
theorem getSimpleMap_current_plainMapCall :
    plainMapper plainSchema plainMapCall.source = ⟨"app", false⟩ ∧
    ∃ ts s, Run (PlainStep keyColumns) (CacheState.init plainSchema) ts s ∧
      ∃ t ∈ ts, ∃ m ∈ ts, m.before.threads 2
          = .getSimpleMap plainMapCall (.map (plainMapper t.before.schema)) ∧
        plainMapper t.before.schema plainMapCall.source = ⟨"app", true⟩ := by
  refine ⟨rfl, ?_⟩
  have hstart : Run (PlainStep keyColumns) (CacheState.init plainSchema) [] _ := Run.nil
  have hstale := (((hstart.concat (.callGetSimpleMap (k := 0) plainMapCall rfl)).concat
    (.created (k := 0) rfl rfl)).concat (.miss (k := 0) rfl rfl)).concat (.build (k := 0) rfl)
  have happlied := (((hstale.concat (.callApplyMappings (k := 1) rfl)).concat
    (.change (k := 1) rfl)).concat (.clear (k := 1) rfl)).concat (.ret (k := 1) rfl)
  have hbegun := (happlied.concat (.tryAdd (k := 0) rfl)).concat
    (.callGetSimpleMap (k := 2) plainMapCall rfl)
  have hrun := ((((hbegun.concat (.created (k := 2) rfl rfl)).concat
    (.miss (k := 2) rfl rfl)).concat (.build (k := 2) rfl)).concat (.tryAdd (k := 2) rfl)).concat
    (.map (k := 2) rfl)
  obtain ⟨t, ht, mapper, hpc, hresult, rfl⟩ := getSimpleMap_current hrun
    (show _ = [_, _, _, _, _] ++ _ :: ([_] ++ _ :: ([_] ++ _ :: ([_, _, _, _] ++ [_]))) from rfl)
    rfl rfl rfl rfl (by simp)
  refine ⟨_, _, hrun, t, ?_, _, List.mem_append_right _ List.mem_cons_self, hpc, hresult.symm⟩
  exact List.mem_append_right [_, _, _, _, _] (List.mem_cons_of_mem _ ht)

end IdentityLinq
