import XExpr.Obj.Stack

/-!
# `x_base_make`

The tree of a base is one nest of `pair` and `atom` calls. `baseTree` is that nest as data, and
`makeTree` the calls it stands for: a node after its parts, the two parts of a pair in the order
in which the compiler evaluates arguments.
-/

namespace XExpr

/-- `struct x_base_t`. -/
structure XBaseT where
  filein : Word
  fileout : Word
  fileerr : Word
  hookTypeName : Ptr
  hookUnits : Ptr
  hookLength : Ptr
  hookError : Ptr
  objMetaExtra : Word
  heapMark : Ptr
  heapFree : Ptr
deriving DecidableEq

namespace XBaseT

/-- The standard descriptors, and no hooks. -/
def standard : XBaseT := ⟨0, 1, 2, nil, nil, nil, nil, 0, nil, nil⟩

variable (base : XBaseT)

def val (w : Word) : Layout Word := .leaf (some w)

def atom (w : Word) : Layout Word := .atom (val w)

def pair (x y : Layout Word) : Layout Word := .pair x y

/-- The nest of `x_base_make`. -/
def tree : Layout Word :=
  pair
    -- env+ctrl
    (val nil)
    (pair
      -- io: (type-alist . files), io-state
      (pair
        (pair
          (val nil)
          -- files: filein, fileout, fileerr, write-buf, buffer
          (pair (pair (atom base.filein) (val nil))
          (pair (pair (atom base.fileout) (val nil))
          (pair (pair (atom base.fileerr) (val nil))
          (pair (pair (val nil) (val nil))
          (pair (pair (val nil) (val nil))
          (val nil)))))))
        (val nil))
      (pair
        -- meta: (profile . hooks), heap, alloc
        (pair
          (pair (pair (atom 0) (val nil))
          (val nil))
          -- hooks: type-name, units, length, error
          (pair (pair (val base.hookTypeName) (val nil))
          (pair (pair (val base.hookUnits) (val nil))
          (pair (pair (val base.hookLength) (val nil))
          (pair (pair (val base.hookError) (val nil))
          (val nil))))))
        (pair
          -- heap: obj-meta-extra, mark, free, mark-hooks, free-hooks, mark-roots, root-chain
          (pair (pair (atom base.objMetaExtra) (val nil))
          (pair (pair (val base.heapMark) (val nil))
          (pair (pair (val base.heapFree) (val nil))
          (pair (pair (val nil) (val nil))
          (pair (pair (val nil) (val nil))
          (pair (pair (val nil) (val nil))
          (pair (pair (val nil) (val nil))
          (val nil))))))))
          -- alloc: count, limit, error
          (pair
            (pair (pair (atom 0) (val nil))
            (pair (pair (atom 0) (val nil))
            (pair (pair (val nil) (val nil))
            (val nil))))
            (val nil)))))

end XBaseT

/-- The calls of a nest: `pair` and `atom` make shared nodes on the base. -/
def makeTree (env : Env) (b : Ptr) : Layout Word → M Word
  | .leaf w => return w.getD nil
  | .atom c => do xMksatom env b xObjFlagShared (← makeTree env b c)
  | .pair l r =>
    if env.ltr then do
      let x ← makeTree env b l
      let y ← makeTree env b r
      xMkspair env b xObjFlagShared x y
    else do
      let y ← makeTree env b r
      let x ← makeTree env b l
      xMkspair env b xObjFlagShared x y

def xBaseMake (env : Env) (b : Ptr) (base : XBaseT) : M Ptr := do
  let new ← xObjMake env b nil xObjFlagNone [nil]
  let root ← makeTree env new base.tree
  setXFirst new root
  return new

end XExpr
