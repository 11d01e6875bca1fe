import Mathlib.Order.Lattice.Nat
import XExpr.Base.Fields

/-!
# Allocation

`x_sys_malloc`, `x_sys_free`, `x_obj_error`, `x_obj_alloc`, `x_obj_make` and `x_obj_free`. What
is outside the library is in `Env`: the answers of `malloc`, the contents of fresh memory, the
order in which the compiler evaluates arguments, and the functions behind the hook atoms.

`x_obj_alloc` is cut into the steps of its body: the fields it reads (`allocFields`), the test of
a tripped ceiling (`allocTripped`), the ceiling (`allocCeiling`), a refused request
(`allocRefused`) and the object laid out in the new block (`allocLayOut`).
-/

namespace XExpr

open Sys

/-! ## The environment -/

/-- `malloc`: the requests it grants, by number, and the blocks it hands out. A block is new, and
no object is inside it. -/
structure Malloc where
  grants : Nat → Bool
  address : Sys → Nat → Ptr
  fresh : ∀ s n, 0 < address s n ∧ s.block (address s n) = none ∧
    ∀ p, address s n ≤ p → p < address s n + n → ¬ s.Live p

/-- A bound on the addresses in use. -/
def Sys.top (s : Sys) : Nat :=
  max (s.objs.keys.sup Int.natAbs) (s.blocks.keys.sup Int.natAbs)

theorem Sys.le_top {s : Sys} {p : Ptr} (h : s.Live p ∨ s.block p ≠ none) : p ≤ s.top := by
  have h₁ : p.natAbs ≤ s.top := by
    rcases h with h | h
    · exact le_max_of_le_left (Finset.le_sup (f := Int.natAbs) (Finmap.mem_keys.mpr h))
    · refine le_max_of_le_right (Finset.le_sup (f := Int.natAbs) (Finmap.mem_keys.mpr ?_))
      by_contra hn
      exact h (Finmap.lookup_eq_none.mpr hn)
  have h₂ : p ≤ (p.natAbs : Int) := Int.le_natAbs
  exact h₂.trans (Int.ofNat_le.mpr h₁)

/-- A `malloc` that grants what `grants` says and goes on past all addresses in use. -/
def Malloc.bump (grants : Nat → Bool) : Malloc where
  grants := grants
  address s _ := s.top + 64
  fresh s n := by
    have h : ∀ p : Int, (s.top : Int) + 64 ≤ p → ¬ p ≤ s.top := by omega
    have h₀ : (0 : Int) < (s.top : Int) + 64 := by omega
    refine ⟨h₀, ?_, fun p hp _ hl => h p hp (Sys.le_top (.inl hl))⟩
    by_contra hb
    exact h _ le_rfl (Sys.le_top (.inr hb))

/-- The memories differ in flags only. -/
def Sys.SameButFlags (s s' : Sys) : Prop :=
  ∀ p, (s.obj p).map (fun o => { o with flags := 0 }) =
    (s'.obj p).map (fun o => { o with flags := 0 })

/-- A mark hook of the documented form: for an object, the successors it marks with
`x_heap_tree_mark`, and the one it returns (`nil` for none). It does not look at flags. -/
structure MarkFn where
  report : Sys → Ptr → Ptr → List Ptr × Ptr
  stable : ∀ s s', s.SameButFlags s' → report s = report s'

structure Env where
  malloc : Malloc
  /-- What is in a data unit that nobody has written. -/
  fill : Ptr → Nat → Word
  /-- Arguments are evaluated from left to right, or from right to left. -/
  ltr : Bool
  /-- The functions behind the hook atoms, by the word in the atom. -/
  markFn : Word → MarkFn
  freeFn : Word → Ptr → Ptr → M Unit
  errorFn : Word → Ptr → Word → Ptr → M Unit

/-- An environment whose hooks do nothing. -/
def Env.plain (grants : Nat → Bool) : Env where
  malloc := .bump grants
  fill _ _ := 0
  ltr := true
  markFn _ := ⟨fun _ _ _ => ([], nil), fun _ _ _ => rfl⟩
  freeFn _ _ _ := return
  errorFn _ _ _ _ := return

/-! ## System calls -/

/-- `x_sys_exit` does not return. -/
def xSysExit (status : Int) : M Unit := throw (.exit status)

def xSysMalloc (env : Env) (size : Nat) : M Ptr := do
  let s ← get
  modify Sys.request
  if env.malloc.grants s.requests then
    let a := env.malloc.address s size
    modify (·.setBlock a nil)
    return a
  return nil

/-- A block goes, with the object in it. -/
def xSysFree (a : Ptr) : M Unit := do
  if a = nil then return
  match (← get).block a with
  | some p => modify fun s => (s.drop p).dropBlock a
  | none => fault (.badFree a)

def xError (message text : Word) : M Unit := log (.error message text)

/-! ## Errors -/

/-- The error hook of a set base is called with the message and the object; otherwise the message
is written, with the text of the object if it is an atom. -/
def xObjError (env : Env) (b : Ptr) (message : Word) (p : Ptr) : M Unit := do
  let hook ← if ← xBaseIsset b then Field.hookError.obj b else pure nil
  if hook ≠ nil then
    let fn ← xFirst hook
    log (.errorHook message)
    env.errorFn fn b message p
  else if p ≠ nil then
    if ← xObjTypeIssatom p then
      xError message (← xFirst p)
    else
      xError message nil
  else
    xError message nil

/-! ## `x_obj_alloc` -/

/-- A full base: typed and set. Only its fields may be chased. -/
def baseFull (b : Ptr) : M Bool := do
  if b = nil then return false
  if (← xObjType b) = nil then return false
  xBaseIsset b

/-- The conversion to `size_t`. -/
def toSizeT (w : Word) : Nat := (w % 2 ^ 64).toNat

/-- `sizeof(x_obj_t) * (extra + X_OBJ_META_LEN + units)`. -/
def xObjSize (extra units : Nat) : Nat :=
  sizeofObj * ((extra + xObjMetaLen + units) % 2 ^ 64) % 2 ^ 64

/-- What `x_obj_alloc` reads from its base. -/
structure AllocFields where
  full : Bool
  extra : Nat
  limit : Word
  msg : Ptr

def allocFields (b : Ptr) : M AllocFields := do
  if ← baseFull b then
    let extra ← Field.objMetaExtra.int b
    let limit ← Field.allocLimit.int b
    let msg ← Field.allocError.obj b
    return ⟨true, toSizeT extra, limit, msg⟩
  return ⟨false, 0, 0, nil⟩

/-- The embedder's message, if it armed one, straight to stderr. -/
def reportDirect (msg : Ptr) : M Unit :=
  if msg ≠ nil then do xError (← xFirst msg) nil else return

/-- The embedder's message, if it armed one, through the error path. -/
def reportError (env : Env) (b msg : Ptr) : M Unit :=
  if msg ≠ nil then do xObjError env b (← xFirst msg) nil else return

/-- The ceiling has tripped before. -/
def allocTripped (l : AllocFields) : M Unit :=
  if l.limit < 0 then do
    reportDirect l.msg
    xSysExit 2
  else return

/-- The ceiling trips: it is latched before the report. -/
def allocTrip (env : Env) (b : Ptr) (l : AllocFields) : M Unit := do
  Field.allocLimit.setInt b (-1)
  reportError env b l.msg
  xSysExit 2

def allocCeiling (env : Env) (b : Ptr) (l : AllocFields) : M Unit :=
  if 0 < l.limit then do
    if l.limit ≤ (← Field.allocCount.int b) then allocTrip env b l else return
  else return

/-- `malloc` has refused. -/
def allocRefused (l : AllocFields) : M Ptr :=
  if l.full then do
    reportDirect l.msg
    xSysExit 2
    return nil
  else return nil

/-- `x_atomint(x_firstobj(x_base_field_alloc_count(b))) += d`. -/
def bumpCount (b : Ptr) (d : Int) : M Unit := do
  let c ← Field.allocCount.obj b
  setXFirst c ((← xFirst c) + d)

/-- The head of the chain that a new object is linked into. -/
def chainHead (b : Ptr) : M Ptr := if b ≠ nil then xObjHeap b else return nil

/-- The object in the block `a` of `size` bytes: zeroed extra units, header, data units. A header
that the block does not hold is a store out of bounds. -/
def allocLayOut (env : Env) (b t : Ptr) (fl : Flags) (extra size : Nat) (a : Ptr) : M Ptr := do
  if size < sizeofObj * (extra + xObjMetaLen) then
    return ← fault (.overflow a)
  let p := a + (sizeofObj * extra : Nat)
  let link ← chainHead b
  let o : Obj :=
    { heap := link
      type := t
      flags := if 0 < extra then fl ||| xObjFlagMeta else fl
      extras := List.replicate extra 0
      data := (List.range (size / sizeofObj - extra - xObjMetaLen)).map (env.fill p) }
  modify fun s => (s.place p o).setBlock a p
  (if b ≠ nil then setXObjHeap b p else return)
  log (.objAlloc p a)
  return p

def xObjAlloc (env : Env) (b t : Ptr) (fl : Flags) (units : Nat) : M Ptr := do
  let l ← allocFields b
  allocTripped l
  allocCeiling env b l
  let size := xObjSize l.extra units
  let a ← xSysMalloc env size
  if a = nil then
    allocRefused l
  else
    (if l.full then bumpCount b 1 else return)
    allocLayOut env b t fl l.extra size a

/-! ## `x_obj_make` -/

/-- The data units stored one after the other. -/
def storeUnits (p : Ptr) : Nat → List Word → M Unit
  | _, [] => return
  | i, w :: data => do
    setXObjDataI p i w
    storeUnits p (i + 1) data

def xObjMake (env : Env) (b t : Ptr) (fl : Flags) (data : List Word) : M Ptr := do
  let p ← xObjAlloc env b t fl data.length
  if p = nil then
    return nil
  storeUnits p 0 data
  return p

/-- `x_mksatom`. -/
def xMksatom (env : Env) (b : Ptr) (fl : Flags) (w : Word) : M Ptr :=
  xObjMake env b xTypeAtomObj fl [w]

/-- `x_mkspair`. -/
def xMkspair (env : Env) (b : Ptr) (fl : Flags) (x y : Word) : M Ptr :=
  xObjMake env b xTypePairObj fl [x, y]

/-! ## `x_obj_free` -/

/-- The extra metadata units that `x_obj_free` steps back over. -/
def freeExtra (full : Bool) (b : Ptr) : M Nat :=
  if full then do return toSizeT (← Field.objMetaExtra.int b) else return 0

/-- The allocation that an object owns. -/
def freeOwned (p : Ptr) : M Unit := do
  if (← xObjFlags p) &&& xObjFlagOwn ≠ 0 then xSysFree (← xFirst p) else return

def xObjFree (b p : Ptr) : M Unit := do
  let full ← baseFull b
  let extra ← freeExtra full b
  (if full then bumpCount b (-1) else return)
  freeOwned p
  let alloc := if (← xObjFlags p) &&& xObjFlagMeta ≠ 0 then p - (sizeofObj * extra : Nat) else p
  log (.objFree p alloc)
  xSysFree alloc

end XExpr
