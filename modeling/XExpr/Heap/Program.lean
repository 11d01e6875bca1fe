import XExpr.Heap.Exact
import XExpr.Lib.Mutator

/-!
# Programs with registered frames

A program keeps its references in pairs on the C stack, which it registers on the root chain of a
base when a function is entered and takes off when the function is left. It works on atoms and
pairs that it makes on the base, and it may collect between any two steps.

* `Cmd.run`: a step, with calls and accessors of the library. `Cmd.runAll`: a program.
* `Cmd.op`: the same step as an operation on a heap of nodes. A collection is none.
* `Sys.view`: the heap of nodes that the program sees in a memory.
-/

namespace XExpr

open Sys
open Mutator (Var Op Obs Node)

/-- What a program can read off an object: its type, and the integer of an atom. -/
inductive Tag
  | atom (n : Word)
  | pair
deriving DecidableEq

/-- Where the C stack puts a new object: at an address with no object. -/
structure CStack where
  address : Sys → Ptr
  fresh : ∀ s, nil < address s ∧ ¬ s.Live (address s)

/-- A step of a program. Variables are units of the frames. -/
inductive Cmd
  | enter
  | leave
  /-- A jump out of the `n` newest frames, which restores the head of the root chain. -/
  | unwind (n : Nat)
  | atom (n : Word) (dst : Var)
  | cons (x y dst : Var)
  | first (src dst : Var)
  | rest (src dst : Var)
  | setFirst (obj src : Var)
  | setRest (obj src : Var)
  /-- The type of an object and the integer of an atom. -/
  | look (x : Var)
  /-- A comparison of pointers. -/
  | same (x y : Var)
  | collect

/-! ## The run -/

/-- `x_spair_t frame = x_obj_set(x_type_pair_obj, X_OBJ_FLAG_NONE, { NULL }, { NULL })`. -/
def frameObj : Obj := ⟨nil, xTypePairObj, xObjFlagNone, [], [nil, nil]⟩

/-- The value of a variable, where `K` are the frames, the newest first. -/
def getVar (K : List Ptr) (x : Var) : M Word := xObjDataI (K.getD x.depth nil) x.slot

def setVar (K : List Ptr) (x : Var) (w : Word) : M Unit :=
  setXObjDataI (K.getD x.depth nil) x.slot w

/-- The storage of frames that are left is gone. -/
def release (l : List Ptr) : M Unit := modify fun s => l.foldl Sys.drop s

def tagOf (p : Ptr) : M (Option Tag) := do
  if p = nil then return none
  if ← xObjTypeIsspair p then return some .pair
  return some (.atom (← xFirst p))

namespace Cmd

/-- A step with the frames `K` of a program on the base `b`, which marks with `F`. It returns the
frames afterwards and what the program learns. -/
def run (env : Env) (st : CStack) (F : Flags) (b : Ptr) (K : List Ptr) :
    Cmd → M (List Ptr × Option (Obs Tag))
  | enter => do
    let p := st.address (← get)
    modify (·.place p frameObj)
    xHeapRootPush (← xHeapRootSlot b) p
    return (p :: K, none)
  | leave => do
    xHeapRootPop (← xHeapRootSlot b)
    release (K.take 1)
    return (K.drop 1, none)
  | unwind n => do
    setXHeapRootChain b ((K.drop n).headD nil)
    release (K.take n)
    return (K.drop n, none)
  | atom n dst => do
    setVar K dst (← xMksatom env b xObjFlagNone n)
    return (K, none)
  | cons x y dst => do
    setVar K dst (← xMkspair env b xObjFlagNone (← getVar K x) (← getVar K y))
    return (K, none)
  | first src dst => do
    setVar K dst (← xFirst (← getVar K src))
    return (K, none)
  | rest src dst => do
    setVar K dst (← xRest (← getVar K src))
    return (K, none)
  | setFirst obj src => do
    setXObjDataI (← getVar K obj) 0 (← getVar K src)
    return (K, none)
  | setRest obj src => do
    setXObjDataI (← getVar K obj) 1 (← getVar K src)
    return (K, none)
  | look x => do
    return (K, some (.label (← tagOf (← getVar K x))))
  | same x y => do
    return (K, some (.same ((← getVar K x) = (← getVar K y))))
  | collect => do
    XExpr.collect env b F [] []
    return (K, none)

/-- The steps one after the other. -/
def runAll (env : Env) (st : CStack) (F : Flags) (b : Ptr) :
    List Cmd → List Ptr → M (List Ptr × List (Obs Tag))
  | [], K => return (K, [])
  | x :: prog, K => do
    let (K₁, o) ← x.run env st F b K
    let (K₂, os) ← runAll env st F b prog K₁
    return (K₂, o.toList ++ os)

/-- The operation that a step is. -/
def op : Cmd → Option (Op Tag)
  | enter => some (.enter 2)
  | leave => some (.leave 1)
  | unwind n => some (.leave n)
  | atom n dst => some (.make (.atom n) [] dst)
  | cons x y dst => some (.make .pair [x, y] dst)
  | first src dst => some (.load src 0 dst)
  | rest src dst => some (.load src 1 dst)
  | setFirst obj src => some (.store obj 0 src)
  | setRest obj src => some (.store obj 1 src)
  | look x => some (.look x)
  | same x y => some (.same x y)
  | collect => none

end Cmd

/-! ## The view -/

/-- The object that a unit refers to. -/
def slotOf (w : Word) : Option Ptr := if w = nil then none else some w

/-- The node that an atom or a pair is. -/
def Sys.node (s : Sys) (p : Ptr) : Option (Node Tag Ptr) :=
  if s.typeOf p = xTypePairObj then some ⟨.pair, (s.dataOf p).map slotOf⟩
  else if s.typeOf p = xTypeAtomObj then (s.unit p 0).map fun w => ⟨.atom w, []⟩
  else none

/-- The heap of nodes that a program with the frames `K` sees. -/
def Sys.view (s : Sys) (K : List Ptr) : Mutator.Heap Tag Ptr :=
  ⟨s.node, K.map fun p => (s.dataOf p).map slotOf⟩

end XExpr
