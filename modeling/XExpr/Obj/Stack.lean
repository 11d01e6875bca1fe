import XExpr.Obj.Alloc

/-!
# Pair-list stacks

`x_obj_push_field` and `x_obj_pop_field` work on the address of the unit that holds the list, and
`x_obj_push` and `x_obj_pop` take that address from an atom. The address of a data unit is an
ordinary word (`slotAddr`), and a store through it finds the unit again (`xSlot`).
-/

namespace XExpr

open Sys

/-- `&x_obj_data_i(p, i)`. -/
def slotAddr (p : Ptr) (i : Nat) : Ptr := p + (sizeofObj * (xObjMetaLen + i) : Nat)

/-- The unit of an atom or a pair that is at an address. -/
def xSlot (a : Ptr) : M (Ptr × Nat) := do
  let s ← get
  if (s.unit (a - slotAddr 0 0) 0).isSome then
    return (a - slotAddr 0 0, 0)
  else if (s.unit (a - slotAddr 0 1) 1).isSome then
    return (a - slotAddr 0 1, 1)
  else if a = nil ∨ a = slotAddr nil 0 ∨ a = slotAddr nil 1 then
    fault .nilDeref
  else
    fault (.dangling a)

/-- `&x_base_field_*`. -/
def Field.addr (f : Field) (b : Ptr) : M Ptr := do return slotAddr (← chaseM b f.nodePath) 0

def xObjPushField (env : Env) (b field value : Ptr) (fl : Flags) : M Ptr := do
  let (p, i) ← xSlot field
  let new ← xMkspair env b fl value (← xObjDataI p i)
  setXObjDataI p i new
  xFirst (← xObjDataI p i)

def xObjPopField (field : Ptr) : M Ptr := do
  let (p, i) ← xSlot field
  let top ← xFirst (← xObjDataI p i)
  setXObjDataI p i (← xRest (← xObjDataI p i))
  return top

/-- The arguments are `(field-ptr value [flags])`. -/
def xObjPush (env : Env) (b args : Ptr) : M Ptr := do
  let field ← xFirst (← xFirst args)
  let value ← xFirst (← xRest args)
  let more ← xRest (← xRest args)
  let fl ← if more = nil then pure xObjFlagNone
    else (fun w => BitVec.ofInt 32 w) <$> (do xFirst (← xFirst more))
  xObjPushField env b field value fl

/-- The arguments are `(field-ptr)`. -/
def xObjPop (args : Ptr) : M Ptr := do
  xObjPopField (← xFirst (← xFirst args))

end XExpr
