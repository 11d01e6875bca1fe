import Mathlib.Data.Finmap
import XExpr.Lib.Prog

/-!
# Objects and the memory they live in

An object is its header (heap link, type slot, flags, extra metadata units) and its data units.
Every member of `x_datum_union` reads the same machine word, so a unit is a `Word`, and an object
pointer is the word that holds it. The build modelled is the one with `X_HEAP` and without
`X_PROFILE` and `DEBUG`.

* `Sys`: the live objects by address, the blocks that `malloc` handed out and did not get back,
  and the log of calls that leave the library.
* `M`: a run returns or stops. A program stops by `exit`, by a jump out of a hook, or at a
  memory fault, the first access to an object that is not there.
* `Sys.next`, `Sys.typeOf`, `Sys.flagsOf`, `Sys.unit`: what the header and unit accessors read,
  with a lemma for each setter.
-/

namespace XExpr

/-- One unit: an integer, or a pointer as the integer of its address. -/
abbrev Word := Int

/-- The address of an object, a block or a unit. -/
abbrev Ptr := Word

/-- `NULL`, which is also the object nil. -/
def nil : Ptr := 0

/-! ## Flags -/

/-- `x_obj_flag_t`. -/
abbrev Flags := BitVec 32

def xObjFlagNone : Flags := 0x0
def xObjFlagOwn : Flags := 0x20
def xObjFlagMeta : Flags := 0x80
def xObjFlagShared : Flags := 0x100
def xObjFlagMark : Flags := 0x200

namespace Flags

variable {f g h : Flags}

theorem or_and_self : (f ||| g) &&& g = g := by
  ext i hi; simp; grind

theorem or_or_self : (f ||| g) ||| g = f ||| g := by
  ext i hi; simp

theorem or_of_and (h : f &&& g = g) : f ||| g = f := by
  rw [← h]; ext i hi; simp; grind

theorem clear_and_self : (f &&& ~~~g) &&& g = 0 := by
  ext i hi; simp

theorem or_and_ne_zero (hf : f &&& h ≠ 0) : (f ||| g) &&& h ≠ 0 := by
  intro e
  refine hf ?_
  ext i hi
  have := congrArg (·.getLsbD i) e
  simp [BitVec.getLsbD_eq_getElem hi] at this ⊢
  grind

theorem or_and (hf : f &&& h = 0) (hg : g &&& h = 0) : (f ||| g) &&& h = 0 := by
  rw [BitVec.and_comm, BitVec.and_or_distrib_left, BitVec.and_comm, hf, BitVec.and_comm, hg]
  rfl

theorem or_clear_self : (f ||| g) &&& ~~~g = f &&& ~~~g := by
  ext i hi; simp; grind

theorem clear_clear_self : (f &&& ~~~g) &&& ~~~g = f &&& ~~~g := by
  ext i hi; simp

/-- Bits outside `g` are not touched by clearing `g`. -/
theorem clear_and (hd : g &&& h = 0) : (f &&& ~~~g) &&& h = f &&& h := by
  ext i hi
  have := congrArg (·.getLsbD i) hd
  simp [BitVec.getLsbD_eq_getElem hi] at this ⊢
  grind

/-- Clearing sets no bit. -/
theorem and_ne_zero_of_clear (hc : (f &&& ~~~g) &&& h ≠ 0) : f &&& h ≠ 0 := by
  intro e
  refine hc ?_
  ext i hi
  have := congrArg (·.getLsbD i) e
  simp [BitVec.getLsbD_eq_getElem hi] at this ⊢
  grind

end Flags

/-! ## Layout -/

/-- `sizeof(x_obj_t)`, in bytes. -/
def sizeofObj : Nat := 8

/-- `X_OBJ_META_LEN`: the units of the heap link, the type slot and the flags. -/
def xObjMetaLen : Nat := 3

/-- The static type objects, which are only compared by address. -/
def xTypeAtomObj : Ptr := 16
def xTypePairObj : Ptr := 48

/-- An object. `extras` are the units before the header, `data` the ones after it. -/
structure Obj where
  heap : Ptr
  type : Ptr
  flags : Flags
  extras : List Word
  data : List Word
deriving DecidableEq

/-! ## The state -/

/-- A call that leaves the library, or that another part of the library is accounted by. -/
inductive Event
  /-- `x_obj_alloc` made the object `p` in the block `a`. -/
  | objAlloc (p a : Ptr)
  /-- `x_obj_free` passes `a` to `x_sys_free` for the object `p`. -/
  | objFree (p a : Ptr)
  /-- `x_heap_sweep` calls the free hook on `p`. -/
  | freeHook (p : Ptr)
  /-- `x_obj_error` calls the error hook. -/
  | errorHook (message : Word)
  /-- `x_error` writes a message. -/
  | error (message text : Word)
deriving DecidableEq

/-- The memory. Objects are at positive addresses, so never at `NULL`. -/
structure Sys where
  objs : Finmap fun _ : Ptr => Obj
  /-- The blocks in use; the value is the object that was laid out in the block, or `nil`. -/
  blocks : Finmap fun _ : Ptr => Ptr
  /-- The number of requests that `malloc` has answered. -/
  requests : Nat
  /-- Newest first. -/
  trace : List Event
  pos : ∀ p ∈ objs, nil < p

/-- An access that C does not define. -/
inductive Fault
  | nilDeref
  | dangling (p : Ptr)
  | outOfBounds (p : Ptr) (i : Nat)
  | overflow (a : Ptr)
  | badFree (a : Ptr)
deriving DecidableEq

/-- How a run ends that does not return. `jump` is a `longjmp` out of a hook, `diverge` a loop
that has run for longer than there are objects. -/
inductive Stop
  | exit (status : Int)
  | jump
  | diverge
  | fault (f : Fault)
deriving DecidableEq

/-- Programs over the memory. -/
abbrev M := EStateM Stop Sys

namespace Sys

variable {s : Sys} {p q : Ptr}

/-- The memory of a program that has not allocated yet. -/
def empty : Sys := ⟨∅, ∅, 0, [], fun _ h => absurd h Finmap.notMem_empty⟩

def obj (s : Sys) (p : Ptr) : Option Obj := s.objs.lookup p

def block (s : Sys) (a : Ptr) : Option Ptr := s.blocks.lookup a

/-- There is an object at `p`. -/
def Live (s : Sys) (p : Ptr) : Prop := p ∈ s.objs

instance : Decidable (s.Live p) := inferInstanceAs (Decidable (p ∈ s.objs))

/-- What `x_obj_heap` reads. -/
def next (s : Sys) (p : Ptr) : Ptr := ((s.obj p).map Obj.heap).getD nil

/-- What `x_obj_type` reads. -/
def typeOf (s : Sys) (p : Ptr) : Ptr := ((s.obj p).map Obj.type).getD nil

/-- What `x_obj_flags` reads. -/
def flagsOf (s : Sys) (p : Ptr) : Flags := ((s.obj p).map Obj.flags).getD 0

def dataOf (s : Sys) (p : Ptr) : List Word := ((s.obj p).map Obj.data).getD []

/-- The extra metadata units. -/
def extrasOf (s : Sys) (p : Ptr) : List Word := ((s.obj p).map Obj.extras).getD []

/-- What `x_obj_data_i` reads, if the object has such a unit. -/
def unit (s : Sys) (p : Ptr) (i : Nat) : Option Word := (s.dataOf p)[i]?

theorem live_iff : s.Live p ↔ ∃ o, s.obj p = some o := Finmap.mem_iff

theorem not_live_iff : ¬ s.Live p ↔ s.obj p = none := Finmap.lookup_eq_none.symm

theorem Live.pos (h : s.Live p) : nil < p := s.pos p h

theorem Live.ne_nil (h : s.Live p) : p ≠ nil := h.pos.ne'

@[simp] theorem not_live_nil : ¬ s.Live nil := fun h => lt_irrefl _ h.pos

theorem flagsOf_not_live (h : ¬ s.Live p) : s.flagsOf p = 0 := by
  rw [flagsOf, not_live_iff.mp h]
  rfl

theorem live_of_unit {i : Nat} {w : Word} (h : s.unit p i = some w) : s.Live p := by
  by_contra hp
  rw [not_live_iff] at hp
  simp [unit, dataOf, hp] at h

@[simp] theorem unit_nil {i : Nat} : s.unit nil i = none := by
  simp [unit, dataOf, not_live_iff.mp (not_live_nil (s := s))]

theorem unit_isSome_iff {i : Nat} : (∃ w, s.unit p i = some w) ↔ i < (s.dataOf p).length := by
  rw [← Option.isSome_iff_exists]
  simp [unit]

/-! ### Updates -/

/-- The object at `p` replaced by its image under `f`. -/
def modify (s : Sys) (p : Ptr) (f : Obj → Obj) : Sys :=
  match h : s.obj p with
  | none => s
  | some o =>
    { s with
      objs := s.objs.insert p (f o)
      pos := by
        intro q hq
        rcases Finmap.mem_insert.mp hq with rfl | hq
        · exact s.pos q (live_iff.mpr ⟨o, h⟩)
        · exact s.pos q hq }

def setHeap (s : Sys) (p w : Ptr) : Sys := s.modify p fun o => { o with heap := w }

def setType (s : Sys) (p t : Ptr) : Sys := s.modify p fun o => { o with type := t }

def setFlags (s : Sys) (p : Ptr) (fl : Flags) : Sys := s.modify p fun o => { o with flags := fl }

def setUnit (s : Sys) (p : Ptr) (i : Nat) (w : Word) : Sys :=
  s.modify p fun o => { o with data := o.data.set i w }

/-- A new object at `p`; nothing changes if this is no address. -/
def place (s : Sys) (p : Ptr) (o : Obj) : Sys :=
  if h : nil < p then
    { s with
      objs := s.objs.insert p o
      pos := by
        intro q hq
        rcases Finmap.mem_insert.mp hq with rfl | hq
        · exact h
        · exact s.pos q hq }
  else s

/-- The object at `p` taken away. -/
def drop (s : Sys) (p : Ptr) : Sys :=
  { s with
    objs := s.objs.erase p
    pos := fun q hq => s.pos q (Finmap.mem_erase.mp hq).2 }

/-- One more request answered. -/
def request (s : Sys) : Sys := { s with requests := s.requests + 1 }

def log (s : Sys) (e : Event) : Sys := { s with trace := e :: s.trace }

def setBlock (s : Sys) (a p : Ptr) : Sys := { s with blocks := s.blocks.insert a p }

def dropBlock (s : Sys) (a : Ptr) : Sys := { s with blocks := s.blocks.erase a }

theorem modify_of_not_live {f : Obj → Obj} (h : ¬ s.Live p) : s.modify p f = s := by
  unfold modify
  split
  · rfl
  · next o ho => exact absurd (live_iff.mpr ⟨o, ho⟩) h

theorem modify_eq_self {f : Obj → Obj} (h : ∀ o, s.obj p = some o → f o = o) :
    s.modify p f = s := by
  unfold modify
  split
  · rfl
  · next o ho =>
    congr
    rw [h o ho]
    exact Finmap.ext_lookup fun q => by
      by_cases e : q = p
      · rw [e, Finmap.lookup_insert]
        exact ho.symm
      · rw [Finmap.lookup_insert_of_ne _ e]

/-- Flags that are assigned what they are. -/
theorem setFlags_self : s.setFlags p (s.flagsOf p) = s := modify_eq_self fun o ho => by
  rw [flagsOf, ho]
  rfl

theorem obj_modify {f : Obj → Obj} :
    (s.modify p f).obj q = if q = p then (s.obj p).map f else s.obj q := by
  unfold modify
  split
  · next h =>
    split
    · next e => rw [e, h]; rfl
    · rfl
  · next o h =>
    simp only [obj] at h ⊢
    split
    · next e => rw [e, Finmap.lookup_insert, h]; rfl
    · next e => rw [Finmap.lookup_insert_of_ne _ e]

theorem obj_place {o : Obj} (h : nil < p) :
    (s.place p o).obj q = if q = p then some o else s.obj q := by
  simp only [place, h, dite_true, obj]
  split
  · next e => rw [e, Finmap.lookup_insert]
  · next e => rw [Finmap.lookup_insert_of_ne _ e]

theorem obj_drop : (s.drop p).obj q = if q = p then none else s.obj q := by
  simp only [drop, obj]
  split
  · next e => rw [e, Finmap.lookup_erase]
  · next e => rw [Finmap.lookup_erase_ne e]

/-! ### What the accessors read after an update -/

section Updates

variable {f : Obj → Obj} {o : Obj} {w t a : Ptr} {fl : Flags} {i j : Nat} {e : Event}

theorem live_modify : (s.modify p f).Live q ↔ s.Live q := by
  rw [live_iff, live_iff, obj_modify]
  split
  · next h => subst h; simp
  · exact Iff.rfl

theorem map_modify {α : Type} {g : Obj → α} (hg : ∀ o, g (f o) = g o) :
    ((s.modify p f).obj q).map g = (s.obj q).map g := by
  rw [obj_modify]
  split
  · next h => subst h; simp [Function.comp_def, hg]
  · rfl

@[simp] theorem live_setHeap : (s.setHeap p w).Live q ↔ s.Live q := live_modify

@[simp] theorem live_setType : (s.setType p t).Live q ↔ s.Live q := live_modify

@[simp] theorem live_setFlags : (s.setFlags p fl).Live q ↔ s.Live q := live_modify

@[simp] theorem live_setUnit : (s.setUnit p i w).Live q ↔ s.Live q := live_modify

@[simp] theorem live_place (h : nil < p) : (s.place p o).Live q ↔ q = p ∨ s.Live q := by
  rw [live_iff, live_iff, obj_place h]
  split
  · next e => simp [e]
  · next e => simp [e]

/-- Objects placed one after the other. -/
theorem live_foldl_place {α : Type} {l : List α} {a : α → Ptr} {f : α → Obj}
    (h : ∀ x ∈ l, nil < a x) :
    (l.foldl (fun s x => s.place (a x) (f x)) s).Live q ↔ q ∈ l.map a ∨ s.Live q := by
  induction l generalizing s with
  | nil => simp
  | cons x l ih =>
    rw [List.foldl_cons, ih fun y hy => h y (.tail _ hy), live_place (h x (.head _)), List.map_cons,
      List.mem_cons]
    tauto

@[simp] theorem live_drop : (s.drop p).Live q ↔ q ≠ p ∧ s.Live q := by
  rw [live_iff, live_iff, obj_drop]
  split
  · next e => simp [e]
  · next e => simp [e]

theorem obj_drop_of_ne (h : q ≠ p) : (s.drop p).obj q = s.obj q := by rw [obj_drop, if_neg h]

theorem next_drop (h : q ≠ p) : (s.drop p).next q = s.next q := by
  rw [next, obj_drop_of_ne h, next]

theorem typeOf_drop (h : q ≠ p) : (s.drop p).typeOf q = s.typeOf q := by
  rw [typeOf, obj_drop_of_ne h, typeOf]

theorem flagsOf_drop (h : q ≠ p) : (s.drop p).flagsOf q = s.flagsOf q := by
  rw [flagsOf, obj_drop_of_ne h, flagsOf]

theorem dataOf_drop (h : q ≠ p) : (s.drop p).dataOf q = s.dataOf q := by
  rw [dataOf, obj_drop_of_ne h, dataOf]

theorem unit_drop (h : q ≠ p) : (s.drop p).unit q i = s.unit q i := by
  rw [unit, dataOf_drop h, unit]

theorem next_setHeap (h : s.Live p) :
    (s.setHeap p w).next q = if q = p then w else s.next q := by
  obtain ⟨o, ho⟩ := live_iff.mp h
  simp only [setHeap, next, obj_modify]
  split <;> simp [ho]

@[simp] theorem next_setType : (s.setType p t).next q = s.next q :=
  congrArg (Option.getD · nil) (map_modify fun _ => rfl)

@[simp] theorem next_setFlags : (s.setFlags p fl).next q = s.next q :=
  congrArg (Option.getD · nil) (map_modify fun _ => rfl)

@[simp] theorem next_setUnit : (s.setUnit p i w).next q = s.next q :=
  congrArg (Option.getD · nil) (map_modify fun _ => rfl)

theorem next_place (h : nil < p) :
    (s.place p o).next q = if q = p then o.heap else s.next q := by
  simp only [next, obj_place h]
  split <;> rfl

theorem typeOf_setType (h : s.Live p) :
    (s.setType p t).typeOf q = if q = p then t else s.typeOf q := by
  obtain ⟨o, ho⟩ := live_iff.mp h
  simp only [setType, typeOf, obj_modify]
  split <;> simp [ho]

@[simp] theorem typeOf_setHeap : (s.setHeap p w).typeOf q = s.typeOf q :=
  congrArg (Option.getD · nil) (map_modify fun _ => rfl)

@[simp] theorem typeOf_setFlags : (s.setFlags p fl).typeOf q = s.typeOf q :=
  congrArg (Option.getD · nil) (map_modify fun _ => rfl)

@[simp] theorem typeOf_setUnit : (s.setUnit p i w).typeOf q = s.typeOf q :=
  congrArg (Option.getD · nil) (map_modify fun _ => rfl)

theorem typeOf_place (h : nil < p) :
    (s.place p o).typeOf q = if q = p then o.type else s.typeOf q := by
  simp only [typeOf, obj_place h]
  split <;> rfl

theorem flagsOf_setFlags (h : s.Live p) :
    (s.setFlags p fl).flagsOf q = if q = p then fl else s.flagsOf q := by
  obtain ⟨o, ho⟩ := live_iff.mp h
  simp only [setFlags, flagsOf, obj_modify]
  split <;> simp [ho]

/-- Clearing some flags leaves the others. -/
theorem flags_and_clear {f g : Flags} (hg : f &&& g = 0) (h : s.Live p) :
    (s.setFlags p (s.flagsOf p &&& ~~~f)).flagsOf q &&& g = s.flagsOf q &&& g := by
  rw [flagsOf_setFlags h]
  split
  · next e => rw [e, Flags.clear_and hg]
  · rfl

@[simp] theorem flagsOf_setHeap : (s.setHeap p w).flagsOf q = s.flagsOf q :=
  congrArg (Option.getD · 0) (map_modify fun _ => rfl)

@[simp] theorem flagsOf_setType : (s.setType p t).flagsOf q = s.flagsOf q :=
  congrArg (Option.getD · 0) (map_modify fun _ => rfl)

@[simp] theorem flagsOf_setUnit : (s.setUnit p i w).flagsOf q = s.flagsOf q :=
  congrArg (Option.getD · 0) (map_modify fun _ => rfl)

theorem flagsOf_place (h : nil < p) :
    (s.place p o).flagsOf q = if q = p then o.flags else s.flagsOf q := by
  simp only [flagsOf, obj_place h]
  split <;> rfl

@[simp] theorem dataOf_setHeap : (s.setHeap p w).dataOf q = s.dataOf q :=
  congrArg (Option.getD · []) (map_modify fun _ => rfl)

@[simp] theorem dataOf_setType : (s.setType p t).dataOf q = s.dataOf q :=
  congrArg (Option.getD · []) (map_modify fun _ => rfl)

@[simp] theorem dataOf_setFlags : (s.setFlags p fl).dataOf q = s.dataOf q :=
  congrArg (Option.getD · []) (map_modify fun _ => rfl)

theorem dataOf_setUnit :
    (s.setUnit p i w).dataOf q = if q = p then (s.dataOf p).set i w else s.dataOf q := by
  simp only [setUnit, dataOf, obj_modify]
  split
  · cases s.obj p <;> rfl
  · rfl

theorem dataOf_place (h : nil < p) :
    (s.place p o).dataOf q = if q = p then o.data else s.dataOf q := by
  simp only [dataOf, obj_place h]
  split <;> rfl

@[simp] theorem extrasOf_setHeap : (s.setHeap p w).extrasOf q = s.extrasOf q :=
  congrArg (Option.getD · []) (map_modify fun _ => rfl)

@[simp] theorem extrasOf_setType : (s.setType p t).extrasOf q = s.extrasOf q :=
  congrArg (Option.getD · []) (map_modify fun _ => rfl)

@[simp] theorem extrasOf_setFlags : (s.setFlags p fl).extrasOf q = s.extrasOf q :=
  congrArg (Option.getD · []) (map_modify fun _ => rfl)

@[simp] theorem extrasOf_setUnit : (s.setUnit p i w).extrasOf q = s.extrasOf q :=
  congrArg (Option.getD · []) (map_modify fun _ => rfl)

theorem extrasOf_place (h : nil < p) :
    (s.place p o).extrasOf q = if q = p then o.extras else s.extrasOf q := by
  simp only [extrasOf, obj_place h]
  split <;> rfl

@[simp] theorem unit_setHeap : (s.setHeap p w).unit q i = s.unit q i := by simp [unit]

@[simp] theorem unit_setType : (s.setType p t).unit q i = s.unit q i := by simp [unit]

@[simp] theorem unit_setFlags : (s.setFlags p fl).unit q i = s.unit q i := by simp [unit]

theorem unit_setUnit {v : Word} (h : s.unit p i = some v) :
    (s.setUnit p i w).unit q j = if q = p ∧ j = i then some w else s.unit q j := by
  have hi : i < (s.dataOf p).length := unit_isSome_iff.mp ⟨v, h⟩
  simp only [unit, dataOf_setUnit]
  by_cases hq : q = p
  · subst hq
    by_cases hj : j = i
    · subst hj; simp [hi]
    · simp [hj, Ne.symm hj]
  · simp [hq]

theorem unit_place (h : nil < p) :
    (s.place p o).unit q i = if q = p then o.data[i]? else s.unit q i := by
  simp only [unit, dataOf_place h]
  split <;> rfl

@[simp] theorem blocks_modify : (s.modify p f).blocks = s.blocks := by
  unfold modify; split <;> rfl

@[simp] theorem requests_modify : (s.modify p f).requests = s.requests := by
  unfold modify; split <;> rfl

@[simp] theorem trace_modify : (s.modify p f).trace = s.trace := by
  unfold modify; split <;> rfl

@[simp] theorem requests_place : (s.place p o).requests = s.requests := by
  unfold place; split <;> rfl

@[simp] theorem trace_place : (s.place p o).trace = s.trace := by
  unfold place; split <;> rfl

@[simp] theorem block_setHeap : (s.setHeap p w).block a = s.block a := by
  simp [block, setHeap]

@[simp] theorem block_setType : (s.setType p t).block a = s.block a := by
  simp [block, setType]

@[simp] theorem block_setFlags : (s.setFlags p fl).block a = s.block a := by
  simp [block, setFlags]

@[simp] theorem block_setUnit : (s.setUnit p i w).block a = s.block a := by
  simp [block, setUnit]

@[simp] theorem block_place : (s.place p o).block a = s.block a := by
  unfold place; split <;> rfl

@[simp] theorem block_drop : (s.drop p).block a = s.block a := rfl

theorem block_setBlock : (s.setBlock a p).block w = if w = a then some p else s.block w := by
  simp only [block, setBlock]
  split
  · next e => rw [e, Finmap.lookup_insert]
  · next e => rw [Finmap.lookup_insert_of_ne _ e]

theorem block_dropBlock : (s.dropBlock a).block w = if w = a then none else s.block w := by
  simp only [block, dropBlock]
  split
  · next e => rw [e, Finmap.lookup_erase]
  · next e => rw [Finmap.lookup_erase_ne e]

/-! Updates outside the objects. -/

@[simp] theorem obj_log : (s.log e).obj q = s.obj q := rfl

@[simp] theorem live_log : (s.log e).Live q ↔ s.Live q := Iff.rfl

@[simp] theorem next_log : (s.log e).next q = s.next q := rfl

@[simp] theorem typeOf_log : (s.log e).typeOf q = s.typeOf q := rfl

@[simp] theorem flagsOf_log : (s.log e).flagsOf q = s.flagsOf q := rfl

@[simp] theorem extrasOf_log : (s.log e).extrasOf q = s.extrasOf q := rfl

@[simp] theorem dataOf_log : (s.log e).dataOf q = s.dataOf q := rfl

@[simp] theorem unit_log : (s.log e).unit q i = s.unit q i := rfl

@[simp] theorem block_log : (s.log e).block w = s.block w := rfl

@[simp] theorem obj_setBlock : (s.setBlock a p).obj q = s.obj q := rfl

@[simp] theorem live_setBlock : (s.setBlock a p).Live q ↔ s.Live q := Iff.rfl

@[simp] theorem next_setBlock : (s.setBlock a p).next q = s.next q := rfl

@[simp] theorem typeOf_setBlock : (s.setBlock a p).typeOf q = s.typeOf q := rfl

@[simp] theorem flagsOf_setBlock : (s.setBlock a p).flagsOf q = s.flagsOf q := rfl

@[simp] theorem extrasOf_setBlock : (s.setBlock a p).extrasOf q = s.extrasOf q := rfl

@[simp] theorem dataOf_setBlock : (s.setBlock a p).dataOf q = s.dataOf q := rfl

@[simp] theorem unit_setBlock : (s.setBlock a p).unit q i = s.unit q i := rfl

@[simp] theorem obj_dropBlock : (s.dropBlock a).obj q = s.obj q := rfl

@[simp] theorem live_dropBlock : (s.dropBlock a).Live q ↔ s.Live q := Iff.rfl

@[simp] theorem next_dropBlock : (s.dropBlock a).next q = s.next q := rfl

@[simp] theorem typeOf_dropBlock : (s.dropBlock a).typeOf q = s.typeOf q := rfl

@[simp] theorem flagsOf_dropBlock : (s.dropBlock a).flagsOf q = s.flagsOf q := rfl

@[simp] theorem dataOf_dropBlock : (s.dropBlock a).dataOf q = s.dataOf q := rfl

@[simp] theorem unit_dropBlock : (s.dropBlock a).unit q i = s.unit q i := rfl

@[simp] theorem obj_request : (s.request).obj q = s.obj q := rfl

@[simp] theorem live_request : (s.request).Live q ↔ s.Live q := Iff.rfl

@[simp] theorem next_request : (s.request).next q = s.next q := rfl

@[simp] theorem typeOf_request : (s.request).typeOf q = s.typeOf q := rfl

@[simp] theorem flagsOf_request : (s.request).flagsOf q = s.flagsOf q := rfl

@[simp] theorem extrasOf_request : (s.request).extrasOf q = s.extrasOf q := rfl

@[simp] theorem dataOf_request : (s.request).dataOf q = s.dataOf q := rfl

@[simp] theorem unit_request : (s.request).unit q i = s.unit q i := rfl

@[simp] theorem block_request : (s.request).block w = s.block w := rfl

end Updates

end Sys

end XExpr
