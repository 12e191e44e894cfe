/-
Column mappings: `MappingExtensions.GetSimpleMap`.

linq2db describes a class by the columns it maps (`EntityDescriptor.Columns`).
`getSimpleMap` copies an object of one class into a new object of another,
column by column, as the expression tree of `GetSimpleMap` does.

Which columns a class has is decided by linq2db and by the model classes of
IdentityServer4.  `Inherits` states what is documented of them: an entity class
inherits every column of its model class as a plain read-write property.  Then

* `base_getSimpleMap` — the copy has all the columns of the original;
* `own_getSimpleMap` — what the entity class adds (its `Id`) keeps its default.
-/
import Mathlib.Data.List.Nodup

namespace IdentityLinq

/-- A column of an entity descriptor, for a class `τ` with column values `V`:
what `GetSimpleMap` asks of it, and how the member is read and assigned. -/
structure Column (τ V : Type) where
  memberName : String
  /-- `MemberType.IsScalar(false)` -/
  isScalar : Bool
  hasGetter : Bool
  hasSetter : Bool
  isIdentity : Bool
  get : τ → V
  set : V → τ → τ

variable {τ υ ω V : Type}

/-- `destDescriptor.Columns.FirstOrDefault(_ => _.MemberName == column.MemberName)`. -/
def findColumn (dest : List (Column υ V)) (column : Column τ V) : Option (Column υ V) :=
  dest.find? fun d => decide (d.memberName = column.memberName)

/-- One turn of the `foreach` over the source columns. -/
def assignColumn (dest : List (Column υ V)) (source : τ) (res : υ) (column : Column τ V) : υ :=
  if !column.isScalar || !column.hasGetter || column.isIdentity then res
  else match findColumn dest column with
    | none => res
    | some d => if !d.hasSetter then res else d.set (column.get source) res

/-- `GetSimpleMap<TSource, TRes>(source)`; `new` is `new TRes()`. -/
def getSimpleMap (src : List (Column τ V)) (dest : List (Column υ V)) (new : υ) (source : τ) : υ :=
  src.foldl (assignColumn dest source) new

/-- The class `υ` inherits the class `τ`: `base` is the inherited part, `own` is
what `υ` adds. -/
structure Inherits (src : List (Column τ V)) (dest : List (Column υ V)) (base : υ → τ)
    (own : υ → ω) : Prop where
  nodup : (src.map Column.memberName).Nodup
  /-- every inherited column is a scalar that can be read and is no identity -/
  readable : ∀ c ∈ src, c.isScalar = true ∧ c.hasGetter = true ∧ c.isIdentity = false
  /-- and is found among the columns of `υ`, where it can be assigned -/
  assignable : ∀ c ∈ src, ∃ d, findColumn dest c = some d ∧ d.hasSetter = true
  /-- an assigned property reads back -/
  get_set : ∀ c ∈ src, ∀ d, findColumn dest c = some d → ∀ x res,
    c.get (base (d.set (c.get x) res)) = c.get x
  /-- the other properties are left alone -/
  get_set_ne : ∀ c ∈ src, ∀ d, findColumn dest c = some d → ∀ c' ∈ src,
    c'.memberName ≠ c.memberName → ∀ v res, c'.get (base (d.set v res)) = c'.get (base res)
  own_set : ∀ c ∈ src, ∀ d, findColumn dest c = some d → ∀ v res, own (d.set v res) = own res
  /-- an object is given by its columns -/
  ext : ∀ x y : τ, (∀ c ∈ src, c.get x = c.get y) → x = y

namespace Inherits

variable {src : List (Column τ V)} {dest : List (Column υ V)} {base : υ → τ} {own : υ → ω}

/-- On an inherited column the turn of the loop is one assignment. -/
theorem assignColumn_eq (h : Inherits src dest base own) {c : Column τ V} (hc : c ∈ src)
    (source : τ) (res : υ) :
    ∃ d, findColumn dest c = some d ∧
      assignColumn dest source res c = d.set (c.get source) res := by
  obtain ⟨hscalar, hgetter, hidentity⟩ := h.readable c hc
  obtain ⟨d, hd, hsetter⟩ := h.assignable c hc
  refine ⟨d, hd, ?_⟩
  simp [assignColumn, hscalar, hgetter, hidentity, hd, hsetter]

/-- A column that no later turn assigns keeps its value. -/
theorem get_foldl_of_notMem (h : Inherits src dest base own) {c : Column τ V} (hc : c ∈ src)
    (source : τ) : ∀ (cs : List (Column τ V)) (res : υ), (∀ c' ∈ cs, c' ∈ src) →
      c.memberName ∉ cs.map Column.memberName →
      c.get (base (cs.foldl (assignColumn dest source) res)) = c.get (base res)
  | [], _, _, _ => rfl
  | c' :: cs, res, hcs, hname => by
    rw [List.map_cons, List.mem_cons, not_or] at hname
    have hc' : c' ∈ src := hcs c' List.mem_cons_self
    obtain ⟨d, hd, hassign⟩ := h.assignColumn_eq hc' source res
    rw [List.foldl_cons, get_foldl_of_notMem h hc source cs _
      (fun e he => hcs e (List.mem_cons_of_mem _ he)) hname.2, hassign]
    exact h.get_set_ne c' hc' d hd c hc hname.1 _ _

/-- Every column that some turn assigns has the value of the original. -/
theorem get_foldl_of_mem (h : Inherits src dest base own) {c : Column τ V} (source : τ) :
    ∀ (cs : List (Column τ V)) (res : υ), (∀ c' ∈ cs, c' ∈ src) →
      (cs.map Column.memberName).Nodup → c ∈ cs →
      c.get (base (cs.foldl (assignColumn dest source) res)) = c.get source
  | c' :: cs, res, hcs, hnodup, hmem => by
    rw [List.map_cons, List.nodup_cons] at hnodup
    have hcs' : ∀ e ∈ cs, e ∈ src := fun e he => hcs e (List.mem_cons_of_mem _ he)
    rw [List.foldl_cons]
    rcases List.mem_cons.mp hmem with rfl | hmem
    · -- This turn assigns `c`, and no later one does.
      have hc := hcs c List.mem_cons_self
      obtain ⟨d, hd, hassign⟩ := h.assignColumn_eq hc source res
      rw [h.get_foldl_of_notMem hc source cs _ hcs' hnodup.1, hassign]
      exact h.get_set c hc d hd source res
    · exact get_foldl_of_mem h source cs _ hcs' hnodup.2 hmem

/-- **The copy has all the columns of the original.** -/
theorem base_getSimpleMap (h : Inherits src dest base own) (new : υ) (source : τ) :
    base (getSimpleMap src dest new source) = source :=
  h.ext _ _ fun _ hc => h.get_foldl_of_mem source src new (fun _ he => he) h.nodup hc

/-- The copy keeps what `new TRes()` has beside the inherited columns. -/
theorem own_getSimpleMap (h : Inherits src dest base own) (new : υ) (source : τ) :
    own (getSimpleMap src dest new source) = own new := by
  suffices ∀ (cs : List (Column τ V)) (res : υ), (∀ c ∈ cs, c ∈ src) →
      own (cs.foldl (assignColumn dest source) res) = own res from
    this src new fun _ hc => hc
  intro cs
  induction cs with
  | nil => exact fun _ _ => rfl
  | cons c cs ih =>
    intro res hcs
    have hc := hcs c List.mem_cons_self
    obtain ⟨d, hd, hassign⟩ := h.assignColumn_eq hc source res
    rw [List.foldl_cons, ih _ fun e he => hcs e (List.mem_cons_of_mem _ he), hassign]
    exact h.own_set c hc d hd _ _

end Inherits

end IdentityLinq
