import XExpr.Lib.Cells
import XExpr.Obj.Access

/-!
# The field accessors of a base

`x-base.h` reaches every field of a base by a chain of first and rest steps from the base object.
A field's *cell* is the pair `(current . saved)` that its accessor yields.

* `Field.get`: the accessor of a field, written as the macros are.
* `Field.path`: the same chain as a path, with `get_eq` for the agreement.
* `xBaseIsset`: the test that guards every chase.
-/

namespace XExpr

open Mem (bit chase walk)

/-! ## The macros -/

section Macros

variable (b : Ptr)

def xBase : M Ptr := xFirst b

def xBaseIsset : M Bool := do
  if b = nil then return false
  return (← xBase b) ≠ nil

/-! ### I/O -/

def xBaseFieldIoFields : M Ptr := do xFirst (← xRest (← xBase b))
def xBaseFieldFiles : M Ptr := do xRest (← xFirst (← xBaseFieldIoFields b))
def xBaseFieldFilein : M Ptr := do xFirst (← xBaseFieldFiles b)
def xBaseFieldFileout : M Ptr := do xFirst (← xRest (← xBaseFieldFiles b))
def xBaseFieldFileerr : M Ptr := do xFirst (← xRest (← xRest (← xBaseFieldFiles b)))
def xBaseFieldWriteBuf : M Ptr := do
  xFirst (← xRest (← xRest (← xRest (← xBaseFieldFiles b))))
def xBaseFieldBuffer : M Ptr := do
  xFirst (← xRest (← xRest (← xRest (← xRest (← xBaseFieldFiles b)))))

/-! ### Meta -/

def xBaseFieldMetaFields : M Ptr := do xRest (← xRest (← xBase b))
def xBaseFieldProfile : M Ptr := do xFirst (← xFirst (← xBaseFieldMetaFields b))
def xBaseFieldProfileAllocs : M Ptr := do xFirst (← xBaseFieldProfile b)
def xBaseFieldHooks : M Ptr := do xRest (← xFirst (← xBaseFieldMetaFields b))
def xBaseFieldHookTypeName : M Ptr := do xFirst (← xBaseFieldHooks b)
def xBaseFieldHookUnits : M Ptr := do xFirst (← xRest (← xBaseFieldHooks b))
def xBaseFieldHookLength : M Ptr := do xFirst (← xRest (← xRest (← xBaseFieldHooks b)))
def xBaseFieldHookError : M Ptr := do
  xFirst (← xRest (← xRest (← xRest (← xBaseFieldHooks b))))

/-! ### Heap -/

def xBaseFieldHeapFields : M Ptr := do xFirst (← xRest (← xBaseFieldMetaFields b))
def xBaseFieldObjMetaExtra : M Ptr := do xFirst (← xBaseFieldHeapFields b)
def xBaseFieldHeapMark : M Ptr := do xFirst (← xRest (← xBaseFieldHeapFields b))
def xBaseFieldHeapFree : M Ptr := do xFirst (← xRest (← xRest (← xBaseFieldHeapFields b)))
def xBaseFieldHeapMarkHooks : M Ptr := do
  xFirst (← xRest (← xRest (← xRest (← xBaseFieldHeapFields b))))
def xBaseFieldHeapFreeHooks : M Ptr := do
  xFirst (← xRest (← xRest (← xRest (← xRest (← xBaseFieldHeapFields b)))))
def xBaseFieldHeapMarkRoots : M Ptr := do
  xFirst (← xRest (← xRest (← xRest (← xRest (← xRest (← xBaseFieldHeapFields b))))))
def xBaseFieldHeapRootChain : M Ptr := do
  xFirst (← xRest (← xRest (← xRest (← xRest (← xRest (← xRest
    (← xBaseFieldHeapFields b)))))))

/-! ### Allocation -/

def xBaseFieldAllocFields : M Ptr := do xFirst (← xRest (← xRest (← xBaseFieldMetaFields b)))
def xBaseFieldAllocCount : M Ptr := do xFirst (← xBaseFieldAllocFields b)
def xBaseFieldAllocLimit : M Ptr := do xFirst (← xRest (← xBaseFieldAllocFields b))
def xBaseFieldAllocError : M Ptr := do
  xFirst (← xRest (← xRest (← xBaseFieldAllocFields b)))

end Macros

/-! ## The fields as data -/

/-- The fields of a base, in the order of `x-base.h`. -/
inductive Field
  | filein | fileout | fileerr | writeBuf | buffer
  | profileAllocs
  | hookTypeName | hookUnits | hookLength | hookError
  | objMetaExtra | heapMark | heapFree
  | heapMarkHooks | heapFreeHooks | heapMarkRoots | heapRootChain
  | allocCount | allocLimit | allocError
deriving DecidableEq

namespace Field

/-- The accessor of a field: `x_base_field_*`. -/
def get : Field → Ptr → M Ptr
  | filein => xBaseFieldFilein
  | fileout => xBaseFieldFileout
  | fileerr => xBaseFieldFileerr
  | writeBuf => xBaseFieldWriteBuf
  | buffer => xBaseFieldBuffer
  | profileAllocs => xBaseFieldProfileAllocs
  | hookTypeName => xBaseFieldHookTypeName
  | hookUnits => xBaseFieldHookUnits
  | hookLength => xBaseFieldHookLength
  | hookError => xBaseFieldHookError
  | objMetaExtra => xBaseFieldObjMetaExtra
  | heapMark => xBaseFieldHeapMark
  | heapFree => xBaseFieldHeapFree
  | heapMarkHooks => xBaseFieldHeapMarkHooks
  | heapFreeHooks => xBaseFieldHeapFreeHooks
  | heapMarkRoots => xBaseFieldHeapMarkRoots
  | heapRootChain => xBaseFieldHeapRootChain
  | allocCount => xBaseFieldAllocCount
  | allocLimit => xBaseFieldAllocLimit
  | allocError => xBaseFieldAllocError

/-- `x_firstobj` of an accessor: the current value. -/
def obj (f : Field) (b : Ptr) : M Ptr := do xFirst (← f.get b)

/-- `x_atomint(x_firstobj(...))` of an accessor: the current value of an integer field. -/
def int (f : Field) (b : Ptr) : M Word := do xFirst (← f.obj b)

/-- The assignment of a current value. -/
def setObj (f : Field) (b : Ptr) (v : Word) : M Unit := do setXFirst (← f.get b) v

/-- The assignment of an integer field. -/
def setInt (f : Field) (b : Ptr) (w : Word) : M Unit := do setXFirst (← f.obj b) w

/-- The fields whose current value is an atom that holds an integer. -/
def isInt : Field → Bool
  | filein | fileout | fileerr | profileAllocs | objMetaExtra | allocCount | allocLimit => true
  | _ => false

/-- The list that holds the field's cell, as a path from the base object. -/
def listPath : Field → List Bool
  | filein | fileout | fileerr | writeBuf | buffer => [false, true, false, false, true]
  | profileAllocs => [false, true, true, false, false]
  | hookTypeName | hookUnits | hookLength | hookError => [false, true, true, false, true]
  | objMetaExtra | heapMark | heapFree | heapMarkHooks | heapFreeHooks | heapMarkRoots
  | heapRootChain => [false, true, true, true, false]
  | allocCount | allocLimit | allocError => [false, true, true, true, true, false]

/-- The place of the field's cell in its list. -/
def index : Field → Nat
  | filein | profileAllocs | hookTypeName | objMetaExtra | allocCount => 0
  | fileout | hookUnits | heapMark | allocLimit => 1
  | fileerr | hookLength | heapFree | allocError => 2
  | writeBuf | hookError | heapMarkHooks => 3
  | buffer | heapFreeHooks => 4
  | heapMarkRoots => 5
  | heapRootChain => 6

/-- The path from the base object to the node of the list whose first unit is the field's. -/
def nodePath (f : Field) : List Bool := f.listPath ++ List.replicate f.index true

/-- The path from the base object to the field's cell. -/
def path (f : Field) : List Bool := f.nodePath ++ [false]

/-- The path from the base object to the field's current value. -/
def valuePath (f : Field) : List Bool := f.path ++ [false]

end Field

/-! ## Chains of steps -/

/-- A chain of first and rest steps. -/
def chaseM : Ptr → List Bool → M Word
  | w, [] => return w
  | w, b :: π => do chaseM (← xObjDataI w (bit b)) π

theorem chaseM_ok {s s' : Sys} {w u : Word} {π : List Bool} :
    chaseM w π s = .ok u s' ↔ chase s.unit w π = some u ∧ s' = s := by
  induction π generalizing w with
  | nil =>
    simp only [chaseM, chase, Prog.pure_apply, EStateM.Result.ok.injEq, Option.some.injEq]
    exact and_congr_right fun _ => eq_comm
  | cons b π ih =>
    simp only [chaseM, chase, Prog.bind_ok, xObjDataI_ok]
    cases s.unit w (bit b) with
    | none => simp
    | some v =>
      simp only [Option.some.injEq, Option.bind_some]
      constructor
      · rintro ⟨_, _, ⟨rfl, rfl⟩, h⟩; exact ih.mp h
      · intro h; exact ⟨_, _, ⟨rfl, rfl⟩, ih.mpr h⟩

theorem chaseM_append {w : Ptr} {π ρ : List Bool} :
    chaseM w (π ++ ρ) = chaseM w π >>= (chaseM · ρ) := by
  induction π generalizing w with
  | nil => simp [chaseM]
  | cons b π ih => simp [chaseM, ih]

theorem chaseM_reads {w : Ptr} {π : List Bool} : Prog.Reads (chaseM w π) := by
  induction π generalizing w with
  | nil => exact fun _ => rfl
  | cons b π ih => exact xObjDataI_reads.bind fun _ => ih

namespace Field

/-- An accessor follows its path. -/
theorem get_eq (f : Field) (b : Ptr) : f.get b = chaseM b f.path := by
  cases f <;>
    simp [get, path, nodePath, listPath, index, chaseM, List.replicate, xBase, xFirst, xRest,
      xBaseFieldIoFields, xBaseFieldFiles, xBaseFieldFilein, xBaseFieldFileout,
      xBaseFieldFileerr, xBaseFieldWriteBuf, xBaseFieldBuffer, xBaseFieldMetaFields,
      xBaseFieldProfile, xBaseFieldProfileAllocs, xBaseFieldHooks, xBaseFieldHookTypeName,
      xBaseFieldHookUnits, xBaseFieldHookLength, xBaseFieldHookError, xBaseFieldHeapFields,
      xBaseFieldObjMetaExtra, xBaseFieldHeapMark, xBaseFieldHeapFree, xBaseFieldHeapMarkHooks,
      xBaseFieldHeapFreeHooks, xBaseFieldHeapMarkRoots, xBaseFieldHeapRootChain,
      xBaseFieldAllocFields, xBaseFieldAllocCount, xBaseFieldAllocLimit, xBaseFieldAllocError]

end Field

theorem Field.get_reads {f : Field} {b : Ptr} : Prog.Reads (f.get b) := by
  rw [get_eq]
  exact chaseM_reads

/-! ## What the accessors read -/

namespace Sys

variable (s : Sys) (b : Ptr) (f : Field)

/-- The current value of a field. -/
def fieldObj : Option Ptr := chase s.unit b f.valuePath

/-- The current value of an integer field. -/
def fieldInt : Option Word := (s.fieldObj b f).bind (s.unit · 0)

/-- `x_base_isset`. -/
def IsSet : Prop := (s.unit b 0).getD nil ≠ nil

/-- Typed and set. -/
def Full : Prop := s.typeOf b ≠ nil ∧ s.IsSet b

instance : Decidable (s.IsSet b) := inferInstanceAs (Decidable (_ ≠ _))

instance : Decidable (s.Full b) := inferInstanceAs (Decidable (_ ∧ _))

variable {s b f}

theorem IsSet.live (h : s.IsSet b) : s.Live b := by
  cases hu : s.unit b 0 with
  | none => simp [IsSet, hu] at h
  | some v => exact live_of_unit hu

theorem Full.live (h : s.Full b) : s.Live b := h.2.live

theorem not_isSet_nil : ¬ s.IsSet nil := fun h => not_live_nil h.live

theorem not_full_nil : ¬ s.Full nil := fun h => not_live_nil h.live

end Sys

section Reads

variable {s s' : Sys} {b c v : Ptr} {f : Field}

theorem Field.get_ok : f.get b s = .ok c s' ↔ chase s.unit b f.path = some c ∧ s' = s := by
  rw [get_eq, chaseM_ok]

theorem Field.obj_eq (f : Field) (b : Ptr) : f.obj b = chaseM b f.valuePath := by
  rw [obj, get_eq, valuePath, chaseM_append]
  simp only [chaseM, bit, Bool.false_eq_true, if_false, bind_pure]
  rfl

theorem Field.obj_ok : f.obj b s = .ok v s' ↔ s.fieldObj b f = some v ∧ s' = s := by
  rw [obj_eq, chaseM_ok, Sys.fieldObj]

theorem Field.int_eq (f : Field) (b : Ptr) : f.int b = chaseM b (f.valuePath ++ [false]) := by
  rw [int, obj_eq, chaseM_append]
  simp only [chaseM, bit, Bool.false_eq_true, if_false, bind_pure]
  rfl

theorem Field.int_ok : f.int b s = .ok v s' ↔ s.fieldInt b f = some v ∧ s' = s := by
  simp only [int, Prog.bind_ok, obj_ok, xFirst_ok, Sys.fieldInt, Option.bind_eq_some_iff]
  constructor
  · rintro ⟨a, _, ⟨h, rfl⟩, h', rfl⟩; exact ⟨⟨a, h, h'⟩, rfl⟩
  · rintro ⟨⟨a, h, h'⟩, rfl⟩; exact ⟨a, _, ⟨h, rfl⟩, h', rfl⟩

theorem chaseM_faults {w : Ptr} {π : List Bool} : Prog.Errors Stop.IsFault (chaseM w π) := by
  induction π generalizing w with
  | nil => exact .pure _
  | cons b π ih => exact xObjDataI_faults.bind fun _ => ih

theorem Field.obj_reads : Prog.Reads (f.obj b) := f.obj_eq b ▸ chaseM_reads

theorem Field.int_reads : Prog.Reads (f.int b) := f.int_eq b ▸ chaseM_reads

theorem Field.obj_faults : Prog.Errors Stop.IsFault (f.obj b) := f.obj_eq b ▸ chaseM_faults

theorem Field.int_faults : Prog.Errors Stop.IsFault (f.int b) := f.int_eq b ▸ chaseM_faults

/-- An integer is at the end of a path. -/
theorem Sys.fieldInt_eq : s.fieldInt b f = chase s.unit b (f.valuePath ++ [false]) := by
  rw [Sys.fieldInt, Sys.fieldObj, Mem.chase_append]
  cases chase s.unit b f.valuePath with
  | none => rfl
  | some a => cases h : s.unit a 0 <;> simp [chase, h]

theorem Field.setInt_ok {w : Word} {u : Unit} : f.setInt b w s = .ok u s' ↔
    ∃ a, s.fieldObj b f = some a ∧ (∃ v, s.unit a 0 = some v) ∧ s' = s.setUnit a 0 w := by
  simp only [setInt, setXFirst, Prog.bind_ok, obj_ok, setXObjDataI_ok]
  constructor
  · rintro ⟨a, _, ⟨h, rfl⟩, h', rfl⟩; exact ⟨a, h, h', rfl⟩
  · rintro ⟨a, h, h', rfl⟩; exact ⟨a, _, ⟨h, rfl⟩, h', rfl⟩

theorem Field.setObj_ok {w : Word} {u : Unit} : f.setObj b w s = .ok u s' ↔
    ∃ c, chase s.unit b f.path = some c ∧ (∃ v, s.unit c 0 = some v) ∧ s' = s.setUnit c 0 w := by
  simp only [setObj, setXFirst, Prog.bind_ok, get_ok, setXObjDataI_ok]
  constructor
  · rintro ⟨c, _, ⟨h, rfl⟩, h', rfl⟩; exact ⟨c, h, h', rfl⟩
  · rintro ⟨c, h, h', rfl⟩; exact ⟨c, _, ⟨h, rfl⟩, h', rfl⟩

theorem Field.obj_run (h : s.fieldObj b f = some v) : f.obj b s = .ok v s := obj_ok.mpr ⟨h, rfl⟩

theorem Field.int_run (h : s.fieldInt b f = some v) : f.int b s = .ok v s := int_ok.mpr ⟨h, rfl⟩

theorem xBaseIsset_ok {r : Bool} : xBaseIsset b s = .ok r s' ↔
    (b = nil ∨ ∃ v, s.unit b 0 = some v) ∧ r = decide (s.IsSet b) ∧ s' = s := by
  unfold xBaseIsset
  by_cases hb : b = nil
  · subst hb
    simp [Sys.not_isSet_nil, eq_comm]
  · simp only [hb, if_false, xBase, Prog.bind_ok, xFirst_ok, Prog.pure_apply,
      EStateM.Result.ok.injEq, false_or]
    constructor
    · rintro ⟨v, _, ⟨h, rfl⟩, rfl, rfl⟩
      exact ⟨⟨v, h⟩, by simp [Sys.IsSet, h], rfl⟩
    · rintro ⟨⟨v, h⟩, rfl, rfl⟩
      exact ⟨v, _, ⟨h, rfl⟩, by simp [Sys.IsSet, h], rfl⟩

theorem xBaseIsset_run (h : s.IsSet b) : xBaseIsset b s = .ok true s := by
  cases hu : s.unit b 0 with
  | none => simp [Sys.IsSet, hu] at h
  | some v => exact xBaseIsset_ok.mpr ⟨.inr ⟨v, hu⟩, by simp [h], rfl⟩

end Reads

end XExpr
