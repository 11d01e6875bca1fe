import XExpr.Heap.Sweep
import XExpr.Base.MakeLemmas

/-!
# The embedder's calls

What a program that uses the library may do with a heap, as steps on the memory and on what the
embedder keeps track of: its bases, the objects that it registered on each root chain, and the
objects that live outside the allocation chain.

* `Client`: the memory with this bookkeeping.
* `Mutate`: allocation, registration, and stores into the units of objects.
* `Collect`: marking, clearing and sweeping. A sweep takes the bases away that it frees.
* `Start`: a base made by `x_base_make(NULL, cfg)`.

A step is a call that returns. The bases are used within their documented contract: the embedder
does not store into the units that lead to the fields (`Sys.guarded`), the hook atoms are outside
the chain, and only typed bases with no extra metadata units occur.
-/

namespace XExpr

open Sys
open Mem (chase walk)

/-! ## Guarded units -/

/-- The paths that the library follows from a base on its own: to the last node of each list of
cells, and to the values that allocation and collection read. -/
def guardPaths : List (List Bool) :=
  [Field.buffer.nodePath, Field.profileAllocs.nodePath, Field.hookError.nodePath,
    Field.heapRootChain.nodePath, Field.allocError.nodePath,
    Field.heapMark.valuePath, Field.heapFree.valuePath, Field.heapRootChain.valuePath,
    Field.allocCount.valuePath, Field.objMetaExtra.valuePath ++ [false]]

/-- The units that these paths read. -/
def Sys.guarded (s : Sys) (b : Ptr) : List (Ptr × Nat) := guardPaths.flatMap (walk s.unit b)

/-! ## The state -/

structure Client where
  sys : Sys
  /-- The base made by `x_base_make(NULL, cfg)`. -/
  root : Ptr
  /-- The bases that were made and not freed. -/
  bases : List Ptr
  /-- The objects registered on the root chain of each base, newest first. -/
  roots : Ptr → List Ptr
  /-- The objects outside the allocation chain: stack and static storage. -/
  locals : List Ptr

/-- A hook that the library can read for as long as a base is there. -/
def Sys.Hook (s : Sys) (locals : List Ptr) (p : Ptr) : Prop :=
  p = nil ∨ p ∈ locals ∧ ∃ w, s.unit p 0 = some w

namespace Client

/-- Each owning object that a sweep with `F` may free holds a block of its own. -/
structure OwnReady (c : Client) (F : Flags) : Prop where
  block : ∀ p, c.sys.Live p → p ≠ c.root → p ∉ c.locals → c.sys.kept F p = false →
    c.sys.flagsOf p &&& xObjFlagOwn ≠ 0 →
    ∃ w, c.sys.unit p 0 = some w ∧ (w = nil ∨ c.sys.block w = some nil)
  apart : ∀ p q w, c.sys.kept F p = false → c.sys.kept F q = false → p ≠ q →
    c.sys.Owns p w → ¬ c.sys.Owns q w

end Client

/-! ## Steps -/

/-- Steps of the program between collections. New objects do not carry bits of `F`. -/
inductive Mutate (env : Env) (F : Flags) : Client → Client → Prop
  | alloc {c : Client} {b t p : Ptr} {fl : Flags} {units : Nat} {s' : Sys} (hb : b ∈ c.bases)
      (hF : fl &&& F = 0) (h : xObjAlloc env b t fl units c.sys = .ok p s') :
      Mutate env F c { c with sys := s' }
  | make {c : Client} {b t p : Ptr} {fl : Flags} {data : List Word} {s' : Sys} (hb : b ∈ c.bases)
      (hF : fl &&& F = 0) (h : xObjMake env b t fl data c.sys = .ok p s') :
      Mutate env F c { c with sys := s' }
  | baseMake {c : Client} {b p : Ptr} {cfg : XBaseT} {s' : Sys} (hb : b ∈ c.bases)
      (hg : env.malloc.GrantsFrom c.sys.requests 56)
      (hm : c.sys.Hook c.locals cfg.heapMark) (hf : c.sys.Hook c.locals cfg.heapFree)
      (h : xBaseMake env b cfg c.sys = .ok p s') :
      Mutate env F c { c with
        sys := s', bases := p :: c.bases, roots := Function.update c.roots p [] }
  /-- A type slot is assigned; a base may be typed if it has no extra metadata units. -/
  | setType {c : Client} {p t : Ptr} {s' : Sys}
      (hp : p ∈ c.bases → c.sys.fieldInt p .objMetaExtra = some 0)
      (h : setXObjType p t c.sys = .ok () s') : Mutate env F c { c with sys := s' }
  /-- A unit is assigned. -/
  | write {c : Client} {p : Ptr} {i : Nat} {w : Word} {s' : Sys}
      (hg : ∀ b ∈ c.bases, (p, i) ∉ c.sys.guarded b)
      (h : setXObjDataI p i w c.sys = .ok () s') : Mutate env F c { c with sys := s' }
  /-- A block that is no object. -/
  | malloc {c : Client} {a : Ptr} {size : Nat} {s' : Sys}
      (h : xSysMalloc env size c.sys = .ok a s') : Mutate env F c { c with sys := s' }
  /-- An object on the stack, or a static one. -/
  | newLocal {c : Client} {p : Ptr} {o : Obj} (hn : nil < p) (hp : ¬ c.sys.Live p)
      (hF : o.flags &&& F = 0) :
      Mutate env F c { c with sys := c.sys.place p o, locals := p :: c.locals }
  | rootPush {c : Client} {b p slot : Ptr} {s₁ s' : Sys} (hb : b ∈ c.bases) (hp : p ∈ c.locals)
      (hnew : ∀ b' ∈ c.bases, p ∉ c.roots b')
      (hs : xHeapRootSlot b c.sys = .ok slot s₁) (h : xHeapRootPush slot p s₁ = .ok () s') :
      Mutate env F c { c with sys := s', roots := Function.update c.roots b (p :: c.roots b) }
  | rootPop {c : Client} {b p slot : Ptr} {K : List Ptr} {s₁ s' : Sys} (hb : b ∈ c.bases)
      (hK : c.roots b = p :: K)
      (hs : xHeapRootSlot b c.sys = .ok slot s₁) (h : xHeapRootPop slot s₁ = .ok () s') :
      Mutate env F c { c with sys := s', roots := Function.update c.roots b K }
  /-- The head is restored that was saved when `K` were registered, which still are. -/
  | rootRestore {c : Client} {b : Ptr} {K : List Ptr} {s' : Sys} (hb : b ∈ c.bases)
      (hK : K <:+ c.roots b) (h : setXHeapRootChain b (K.headD nil) c.sys = .ok () s') :
      Mutate env F c { c with sys := s', roots := Function.update c.roots b K }

/-- Steps of a collection. -/
inductive Collect (env : Env) : Client → Client → Prop
  | treeMark {c : Client} {b p r : Ptr} {F : Flags} {s' : Sys} (hb : b ∈ c.bases)
      (h : xHeapTreeMark env b p F c.sys = .ok r s') : Collect env c { c with sys := s' }
  | rootChainMark {c : Client} {b r : Ptr} {F : Flags} {s' : Sys} (hb : b ∈ c.bases)
      (h : xHeapRootChainMark env b F c.sys = .ok r s') : Collect env c { c with sys := s' }
  | chainClear {c : Client} {p r : Ptr} {F : Flags} {s' : Sys} (hF : F &&& xObjFlagShared = 0)
      (h : xHeapChainClear p F c.sys = .ok r s') : Collect env c { c with sys := s' }
  | sweep {c : Client} {b r : Ptr} {F : Flags} {s' : Sys} (hb : b ∈ c.bases)
      (hF : F &&& xObjFlagShared = 0) (ho : c.OwnReady F)
      (h : xHeapSweep env b (c.sys.next b) F c.sys = .ok r s') :
      Collect env c { c with sys := s', bases := c.bases.filter fun b => decide (s'.Live b) }

/-- A base made by `x_base_make(NULL, cfg)` in a memory with nothing but static objects. -/
structure Start (env : Env) (cfg : XBaseT) (c : Client) : Prop where
  before : ∃ s, (∀ q, s.Live q ↔ q ∈ c.locals) ∧ s.trace = [] ∧
    env.malloc.GrantsFrom s.requests 56 ∧
    s.Hook c.locals cfg.heapMark ∧ s.Hook c.locals cfg.heapFree ∧
    xBaseMake env nil cfg s = .ok c.root c.sys
  bases : c.bases = [c.root]
  roots : c.roots c.root = []

end XExpr
