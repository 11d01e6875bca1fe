import XExpr.Base.Make

/-!
# The collector

`x_heap_tree_mark`, `x_heap_sweep`, `x_heap_chain_clear` and `x_heap_root_chain_mark`, with the
root chain and the registration of hooks and roots. Each loop of the source is a recursion on the
number of passes it may still make. The bound is one more than the number of objects, and a loop
that would need more ends in `Stop.diverge`.
-/

namespace XExpr

open Sys

/-- The function in a heap hook of the base, `nil` if the base is not set or has no such hook. -/
def heapFn (f : Field) (b : Ptr) : M Word := do
  if ← xBaseIsset b then
    let a ← f.obj b
    if a ≠ nil then xFirst a else return nil
  else return nil

/-- One more than the number of objects. -/
def passes (s : Sys) : Nat := s.objs.keys.card + 1

/-! ## Mark -/

/-- The loop of `x_heap_tree_mark`. The call on the first of a pair, and each call that a mark hook
makes, looks the hook up again. -/
def treeMarkLoop (env : Env) (b : Ptr) (flags : Flags) : Nat → Word → Ptr → M Ptr
  | 0, _, _ => throw .diverge
  | n + 1, fn, p => do
    if p = nil then return p
    let fl ← xObjFlags p
    if fl &&& flags = flags then return p
    setXObjFlags p (fl ||| flags)
    if ← xObjTypeIsspair p then
      let first ← xFirst p
      let fn' ← heapFn .heapMark b
      let _ ← treeMarkLoop env b flags n fn' first
      treeMarkLoop env b flags n fn (← xRest p)
    else if fn ≠ nil then
      let (l, q) := (env.markFn fn).report (← get) b p
      l.forM fun q => do
        let fn' ← heapFn .heapMark b
        let _ ← treeMarkLoop env b flags n fn' q
      if q ≠ nil then treeMarkLoop env b flags n fn q else return nil
    else return p

def xHeapTreeMark (env : Env) (b p : Ptr) (flags : Flags) : M Ptr := do
  let fn ← heapFn .heapMark b
  treeMarkLoop env b flags (passes (← get)) fn p

/-! ## Sweep -/

/-- The call of the free hook, if there is one. -/
def callFreeFn (env : Env) (fn : Word) (b p : Ptr) : M Unit :=
  if fn ≠ nil then do
    log (.freeHook p)
    env.freeFn fn b p
  else return

/-- The loop of `x_heap_sweep`. The base becomes `nil` when it is freed. -/
def sweepLoop (env : Env) (flags : Flags) (fn : Word) : Nat → Ptr → Ptr → Ptr → M Unit
  | 0, _, _, _ => throw .diverge
  | n + 1, b, prev, node => do
    if node = nil then return
    let fl ← xObjFlags node
    if flags ≠ 0 ∧ fl &&& flags ≠ 0 ∨ fl &&& xObjFlagShared ≠ 0 then
      setXObjFlags node (fl &&& ~~~flags)
      sweepLoop env flags fn n b node (← xObjHeap node)
    else
      callFreeFn env fn b node
      let next ← xObjHeap node
      setXObjHeap prev next
      xObjFree b node
      sweepLoop env flags fn n (if node = b then nil else b) prev next

def xHeapSweep (env : Env) (b p : Ptr) (flags : Flags) : M Ptr := do
  let fn ← heapFn .heapFree b
  let prev := if (← xObjHeap b) = p then b else p
  sweepLoop env flags fn (passes (← get)) b prev p
  return b

/-! ## Clear -/

def chainClearLoop (flags : Flags) : Nat → Ptr → M Unit
  | 0, _ => throw .diverge
  | n + 1, node => do
    if node = nil then return
    setXObjFlags node ((← xObjFlags node) &&& ~~~flags)
    chainClearLoop flags n (← xObjHeap node)

def xHeapChainClear (node : Ptr) (flags : Flags) : M Ptr := do
  chainClearLoop flags (passes (← get)) node
  return nil

/-! ## The root chain -/

/-- `x_heap_root_chain`. -/
def xHeapRootChain (b : Ptr) : M Ptr := Field.heapRootChain.obj b

/-- The assignment of `x_heap_root_chain`. -/
def setXHeapRootChain (b w : Ptr) : M Unit := do setXFirst (← Field.heapRootChain.get b) w

/-- `x_heap_root_slot`. -/
def xHeapRootSlot (b : Ptr) : M Ptr := do
  if ← xBaseIsset b then return slotAddr (← Field.heapRootChain.get b) 0 else return nil

def xHeapRootPush (slot node : Ptr) : M Unit := do
  if slot ≠ nil then
    let (p, i) ← xSlot slot
    setXObjHeap node (← xObjDataI p i)
    setXObjDataI p i node

def xHeapRootPop (slot : Ptr) : M Unit := do
  if slot ≠ nil then
    let (p, i) ← xSlot slot
    setXObjDataI p i (← xObjHeap (← xObjDataI p i))

/-- The second pass of `x_heap_root_chain_mark`. -/
def rootMarkLoop (env : Env) (b : Ptr) (flags : Flags) : Nat → Ptr → M Unit
  | 0, _ => throw .diverge
  | n + 1, node => do
    if node = nil then return
    let _ ← xHeapTreeMark env b node flags
    rootMarkLoop env b flags n (← xObjHeap node)

def xHeapRootChainMark (env : Env) (b : Ptr) (flags : Flags) : M Ptr := do
  if ← xBaseIsset b then
    let _ ← xHeapChainClear (← xHeapRootChain b) flags
    rootMarkLoop env b flags (passes (← get)) (← xHeapRootChain b)
    return nil
  else return nil

/-! ## Registration -/

/-- A value prepended to the current list of a field. -/
def heapListAdd (env : Env) (f : Field) (b value : Ptr) : M Unit := do
  let field ← f.get b
  let _ ← xObjPushField env b (slotAddr field 0) value xObjFlagNone

def xHeapMarkHookAdd (env : Env) (b hook : Ptr) : M Unit := heapListAdd env .heapMarkHooks b hook

def xHeapFreeHookAdd (env : Env) (b hook : Ptr) : M Unit := heapListAdd env .heapFreeHooks b hook

def xHeapMarkRootAdd (env : Env) (b root : Ptr) : M Unit := heapListAdd env .heapMarkRoots b root

end XExpr
