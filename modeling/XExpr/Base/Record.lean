import XExpr.Base.MakeLemmas

/-!
# A record of stacks

What a base is for: twenty fields, each with a current value and a stack of saved ones. An
operation changes the stack of one field and no other.

* `Stack`, `StackOp.apply`: the stack of one field and what is done to it.
* `Record`, `FieldOp.apply`: all fields, and the operations of the library as operations of one
  stack.
* `Represents`: what the accessors read is what the record says.
* `BaseTree.represents`: the tree of a base with the cells of a record represents it.
-/

namespace XExpr

open Sys

/-! ## One field -/

/-- What a field holds: an object, an integer in an atom, or a list that begins with an object. -/
inductive Value
  | obj (p : Ptr)
  | int (w : Word)
  | cons (first : Ptr) (rest : Value)
deriving DecidableEq

/-- The current value of a field and the saved ones, the newest first. -/
structure Stack where
  current : Value
  saved : List Value
deriving DecidableEq

inductive StackOp
  | push (v : Ptr)
  | pop
  | assign (v : Ptr)
  | assignInt (w : Word)
  /-- A value prepended to the current list. -/
  | prepend (v : Ptr)

/-- There is no pop without a saved value, and an integer is only assigned where there is one. -/
def StackOp.apply : StackOp → Stack → Option Stack
  | push v, σ => some ⟨.obj v, σ.current :: σ.saved⟩
  | pop, ⟨_, u :: us⟩ => some ⟨u, us⟩
  | pop, ⟨_, []⟩ => none
  | assign v, σ => some ⟨.obj v, σ.saved⟩
  | assignInt w, ⟨.int _, us⟩ => some ⟨.int w, us⟩
  | assignInt _, _ => none
  | prepend v, σ => some ⟨.cons v σ.current, σ.saved⟩

section StackOp

variable {σ σ' : Stack} {w : Word}

theorem StackOp.pop_some : StackOp.pop.apply σ = some σ' ↔
    ∃ u us, σ.saved = u :: us ∧ σ' = ⟨u, us⟩ := by
  rcases σ with ⟨v, _ | ⟨u, us⟩⟩ <;> simp [apply, eq_comm]

theorem StackOp.assignInt_some : (StackOp.assignInt w).apply σ = some σ' ↔
    ∃ i, σ.current = .int i ∧ σ' = ⟨.int w, σ.saved⟩ := by
  rcases σ with ⟨_ | i | _, us⟩ <;> simp [apply, eq_comm]

end StackOp

/-! ## All fields -/

abbrev Record := Field → Stack

inductive FieldOp
  | push (f : Field) (v : Ptr)
  | pop (f : Field)
  | assign (f : Field) (v : Ptr)
  | assignInt (f : Field) (w : Word)
  | markHookAdd (hook : Ptr)
  | freeHookAdd (hook : Ptr)
  | markRootAdd (root : Ptr)

namespace FieldOp

/-- The field that an operation is on. -/
def field : FieldOp → Field
  | push f _ | pop f | assign f _ | assignInt f _ => f
  | markHookAdd _ => .heapMarkHooks
  | freeHookAdd _ => .heapFreeHooks
  | markRootAdd _ => .heapMarkRoots

/-- What it does to the stack of this field. -/
def stackOp : FieldOp → StackOp
  | push _ v => .push v
  | pop _ => .pop
  | assign _ v => .assign v
  | assignInt _ w => .assignInt w
  | markHookAdd v | freeHookAdd v | markRootAdd v => .prepend v

def apply (op : FieldOp) (ρ : Record) : Option Record :=
  (op.stackOp.apply (ρ op.field)).map (Function.update ρ op.field)

variable {op : FieldOp} {ρ ρ' : Record} {f : Field}

end FieldOp

/-- What `x_base_make` puts in the fields. -/
def Record.ofCfg (cfg : XBaseT) : Record
  | .filein => ⟨.int cfg.filein, []⟩
  | .fileout => ⟨.int cfg.fileout, []⟩
  | .fileerr => ⟨.int cfg.fileerr, []⟩
  | .hookTypeName => ⟨.obj cfg.hookTypeName, []⟩
  | .hookUnits => ⟨.obj cfg.hookUnits, []⟩
  | .hookLength => ⟨.obj cfg.hookLength, []⟩
  | .hookError => ⟨.obj cfg.hookError, []⟩
  | .objMetaExtra => ⟨.int cfg.objMetaExtra, []⟩
  | .heapMark => ⟨.obj cfg.heapMark, []⟩
  | .heapFree => ⟨.obj cfg.heapFree, []⟩
  | .profileAllocs | .allocCount | .allocLimit => ⟨.int 0, []⟩
  | .writeBuf | .buffer | .heapMarkHooks | .heapFreeHooks | .heapMarkRoots | .heapRootChain
  | .allocError => ⟨.obj nil, []⟩

/-- An integer plus `k`. -/
def Value.add : Value → Int → Value
  | int w, k => .int (w + k)
  | v, _ => v

/-- The object count plus `k`. -/
def Record.addCount (ρ : Record) (k : Int) : Record :=
  Function.update ρ .allocCount ⟨(ρ .allocCount).current.add k, (ρ .allocCount).saved⟩

/-! ## What the accessors read -/

/-- The word `w` is the value. -/
def Value.At (s : Sys) : Value → Word → Prop
  | obj p, w => w = p
  | int i, w => xFirst w s = .ok i s
  | cons p v, w => xFirst w s = .ok p s ∧ ∃ r, xRest w s = .ok r s ∧ v.At s r

/-- The pair at `c` holds a current value and leads to the saved ones. -/
def stackAt (s : Sys) : Value → List Value → Ptr → Prop
  | v, us, c => (∃ w, xFirst c s = .ok w s ∧ v.At s w) ∧ ∃ r, xRest c s = .ok r s ∧
    match us with
    | [] => r = nil
    | u :: us => stackAt s u us r

/-- Every accessor reads the current value of its field, in a cell that leads to the saved ones. -/
def Represents (s : Sys) (b : Ptr) (ρ : Record) : Prop :=
  ∀ f : Field, ∃ c, f.get b s = .ok c s ∧ stackAt s (ρ f).current (ρ f).saved c

/-! ## The cells of a record -/

def Value.layout : Value → Layout Word
  | obj p => .leaf (some p)
  | int w => .atom (.leaf (some w))
  | cons p v => .pair (.leaf (some p)) v.layout

def savedLayout : List Value → Layout Word
  | [] => .leaf (some nil)
  | u :: us => .pair u.layout (savedLayout us)

/-- The cell of a field. -/
def Stack.cell (σ : Stack) : Layout Word := .pair σ.current.layout (savedLayout σ.saved)

def Record.cell (ρ : Record) (f : Field) : Layout Word := (ρ f).cell

theorem Record.cell_update {ρ : Record} {f : Field} {σ : Stack} :
    Function.update ρ.cell f σ.cell = Record.cell (Function.update ρ f σ) := by
  funext g
  by_cases hg : g = f
  · rw [hg, Function.update_self, Record.cell, Function.update_self]
  · rw [Function.update_of_ne hg, Record.cell, Record.cell, Function.update_of_ne hg]

theorem Record.cell_ofCfg (cfg : XBaseT) : Record.cell (.ofCfg cfg) = cfg.cell := by
  funext f
  cases f <;> rfl

section Cells

variable {s : Sys} {b c p : Ptr} {w : Word} {d t : Cells Word} {v : Value} {us : List Value}
  {ρ : Record} {f : Field}

theorem Value.at_of_fits (h : d.Fits s.unit w) (hl : d.layout = v.layout) : v.At s w := by
  induction v generalizing d w with
  | obj p =>
    rcases d with x | _ | _
    · obtain rfl : x = some p := Layout.leaf.inj hl
      exact h p rfl
    · cases hl
    · cases hl
  | int i =>
    rcases d with _ | ⟨a, x | _ | _⟩ | _
    · cases hl
    · obtain rfl : x = some i := Layout.leaf.inj (Layout.atom.inj hl)
      obtain ⟨rfl, u, hu, hw⟩ := h
      obtain rfl : u = i := hw i rfl
      exact xFirst_eq hu
    · cases Layout.atom.inj hl
    · cases Layout.atom.inj hl
    · cases hl
  | cons p v ih =>
    rcases d with _ | _ | ⟨a, x | _ | _, r⟩
    · cases hl
    · cases hl
    · obtain ⟨hx, hr⟩ := Layout.pair.inj hl
      obtain rfl : x = some p := Layout.leaf.inj hx
      obtain ⟨rfl, ⟨u, hu, hw⟩, y, hy, hfit⟩ := h
      obtain rfl : u = p := hw p rfl
      exact ⟨xFirst_eq hu, y, xRest_eq hy, ih hfit hr⟩
    · cases (Layout.pair.inj hl).1
    · cases (Layout.pair.inj hl).1

theorem stackAt_of_fits (h : d.Fits s.unit c) (hl : d.layout = (Stack.mk v us).cell) :
    stackAt s v us c := by
  induction us generalizing d c v with
  | nil =>
    rcases d with _ | _ | ⟨a, l, r⟩
    · cases hl
    · cases hl
    · obtain ⟨h₁, h₂⟩ := Layout.pair.inj hl
      obtain ⟨rfl, ⟨w, hw, hfl⟩, x, hx, hfr⟩ := h
      refine ⟨⟨w, xFirst_eq hw, Value.at_of_fits hfl h₁⟩, x, xRest_eq hx, ?_⟩
      rcases r with y | _ | _
      · obtain rfl : y = some nil := Layout.leaf.inj h₂
        exact hfr nil rfl
      · cases h₂
      · cases h₂
  | cons u us ih =>
    rcases d with _ | _ | ⟨a, l, r⟩
    · cases hl
    · cases hl
    · obtain ⟨h₁, h₂⟩ := Layout.pair.inj hl
      obtain ⟨rfl, ⟨w, hw, hfl⟩, x, hx, hfr⟩ := h
      exact ⟨⟨w, xFirst_eq hw, Value.at_of_fits hfl h₁⟩, x, xRest_eq hx, ih hfr h₂⟩

/-- A base whose tree has the cells of a record. -/
theorem BaseTree.represents (h : BaseTree s b t ρ.cell) : Represents s b ρ := by
  intro f
  obtain ⟨c, d, hc, -, hl, hfit⟩ := h.cellAt f
  exact ⟨c, Field.get_ok.mpr ⟨hc, rfl⟩, stackAt_of_fits hfit hl⟩

theorem BaseTree.currentObj (h : BaseTree s b t ρ.cell)
    (hf : (ρ f).current = .obj p) : s.fieldObj b f = some p := by
  have hcell : ρ.cell f = .pair (.leaf (some p)) (savedLayout (ρ f).saved) := by
    rw [Record.cell, Stack.cell, hf]
    rfl
  obtain ⟨v, d, hv, -, hl, hfit⟩ := h.value hcell
  rcases d with x | _ | _
  · cases hl
    rw [hv, hfit p rfl]
  · cases hl
  · cases hl

theorem BaseTree.currentInt (h : BaseTree s b t ρ.cell)
    (hf : (ρ f).current = .int w) : s.fieldInt b f = some w := by
  have hcell : ρ.cell f = .pair (.atom (.leaf (some w))) (savedLayout (ρ f).saved) := by
    rw [Record.cell, Stack.cell, hf]
    rfl
  obtain ⟨a, n, ha, -, hn, -, -, hv⟩ := h.fieldAtom hcell
  rw [Sys.fieldInt, ha, Option.bind_some, hn, hv w rfl]

end Cells

end XExpr
