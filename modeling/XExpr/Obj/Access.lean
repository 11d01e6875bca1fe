import XExpr.Obj.State

/-!
# The accessor macros

`x_obj_heap`, `x_obj_type`, `x_obj_flags`, `x_firstobj`, `x_restobj` and their assignments. An
access dereferences its object: through `NULL`, or through a pointer to no object, it is a fault.
The typed variants (`x_firstint`, `x_atomstr`, ...) read the same word.

For each accessor one lemma gives its run on a live object, which is all that a proof about a
program with known objects needs.
-/

namespace XExpr

open Sys

def fault {α : Type} (f : Fault) : M α := throw (.fault f)

/-- The object that `p` points to. -/
def deref (p : Ptr) : M Obj := do
  match (← get).obj p with
  | some o => return o
  | none => fault (if p = nil then .nilDeref else .dangling p)

def xObjHeap (p : Ptr) : M Ptr := do return (← deref p).heap

def xObjType (p : Ptr) : M Ptr := do return (← deref p).type

def xObjFlags (p : Ptr) : M Flags := do return (← deref p).flags

def xObjDataI (p : Ptr) (i : Nat) : M Word := do
  match (← deref p).data[i]? with
  | some w => return w
  | none => fault (.outOfBounds p i)

def xFirst (p : Ptr) : M Word := xObjDataI p 0

def xRest (p : Ptr) : M Word := xObjDataI p 1

def setXObjHeap (p w : Ptr) : M Unit := do
  let _ ← deref p
  modify (·.setHeap p w)

def setXObjType (p t : Ptr) : M Unit := do
  let _ ← deref p
  modify (·.setType p t)

def setXObjFlags (p : Ptr) (fl : Flags) : M Unit := do
  let _ ← deref p
  modify (·.setFlags p fl)

def setXObjDataI (p : Ptr) (i : Nat) (w : Word) : M Unit := do
  let _ ← xObjDataI p i
  modify (·.setUnit p i w)

def setXFirst (p : Ptr) (w : Word) : M Unit := setXObjDataI p 0 w

def log (e : Event) : M Unit := modify (·.log e)

/-- `x_obj_type_isspair`. -/
def xObjTypeIsspair (p : Ptr) : M Bool := do return (← xObjType p) = xTypePairObj

/-- `x_obj_type_issatom`. -/
def xObjTypeIssatom (p : Ptr) : M Bool := do return (← xObjType p) = xTypeAtomObj

/-! ## Runs -/

section Runs

variable {s s' : Sys} {p w t : Ptr} {fl : Flags} {i : Nat} {v : Word}

theorem deref_eq {o : Obj} (h : s.obj p = some o) : deref p s = .ok o s := by
  simp only [deref, Prog.get_bind, h]
  rfl

theorem deref_not_live (h : ¬ s.Live p) :
    deref p s = .error (.fault (if p = nil then .nilDeref else .dangling p)) s := by
  rw [not_live_iff] at h
  simp only [deref, Prog.get_bind, h]
  rfl

theorem deref_ok {o : Obj} : deref p s = .ok o s' ↔ s.obj p = some o ∧ s' = s := by
  by_cases h : s.Live p
  · obtain ⟨o', ho⟩ := live_iff.mp h
    rw [deref_eq ho, ho]
    constructor
    · intro e; cases e; exact ⟨rfl, rfl⟩
    · rintro ⟨e, rfl⟩; cases e; rfl
  · rw [deref_not_live h, not_live_iff.mp h]
    simp

theorem xObjHeap_eq (h : s.Live p) : xObjHeap p s = .ok (s.next p) s := by
  obtain ⟨o, ho⟩ := live_iff.mp h
  rw [xObjHeap, Prog.bind_of_ok (deref_eq ho)]
  simp [next, ho]

theorem xObjType_eq (h : s.Live p) : xObjType p s = .ok (s.typeOf p) s := by
  obtain ⟨o, ho⟩ := live_iff.mp h
  rw [xObjType, Prog.bind_of_ok (deref_eq ho)]
  simp [typeOf, ho]

theorem xObjFlags_eq (h : s.Live p) : xObjFlags p s = .ok (s.flagsOf p) s := by
  obtain ⟨o, ho⟩ := live_iff.mp h
  rw [xObjFlags, Prog.bind_of_ok (deref_eq ho)]
  simp [flagsOf, ho]

theorem xObjDataI_eq (h : s.unit p i = some v) : xObjDataI p i s = .ok v s := by
  obtain ⟨o, ho⟩ := live_iff.mp (live_of_unit h)
  rw [xObjDataI, Prog.bind_of_ok (deref_eq ho)]
  simp only [unit, dataOf, ho, Option.map_some, Option.getD_some] at h
  rw [h]
  rfl

theorem xObjDataI_out (h : s.Live p) (hu : s.unit p i = none) :
    xObjDataI p i s = .error (.fault (.outOfBounds p i)) s := by
  obtain ⟨o, ho⟩ := live_iff.mp h
  rw [xObjDataI, Prog.bind_of_ok (deref_eq ho)]
  simp only [unit, dataOf, ho, Option.map_some, Option.getD_some] at hu
  rw [hu]
  rfl

theorem xFirst_eq (h : s.unit p 0 = some v) : xFirst p s = .ok v s := xObjDataI_eq h

theorem xRest_eq (h : s.unit p 1 = some v) : xRest p s = .ok v s := xObjDataI_eq h

theorem xObjTypeIsspair_eq (h : s.Live p) :
    xObjTypeIsspair p s = .ok (decide (s.typeOf p = xTypePairObj)) s := by
  rw [xObjTypeIsspair, Prog.bind_of_ok (xObjType_eq h)]
  rfl

theorem setXObjHeap_eq (h : s.Live p) : setXObjHeap p w s = .ok () (s.setHeap p w) := by
  obtain ⟨o, ho⟩ := live_iff.mp h
  rw [setXObjHeap, Prog.bind_of_ok (deref_eq ho)]
  rfl

theorem setXObjType_eq (h : s.Live p) : setXObjType p t s = .ok () (s.setType p t) := by
  obtain ⟨o, ho⟩ := live_iff.mp h
  rw [setXObjType, Prog.bind_of_ok (deref_eq ho)]
  rfl

theorem setXObjFlags_eq (h : s.Live p) : setXObjFlags p fl s = .ok () (s.setFlags p fl) := by
  obtain ⟨o, ho⟩ := live_iff.mp h
  rw [setXObjFlags, Prog.bind_of_ok (deref_eq ho)]
  rfl

theorem setXObjDataI_eq (h : s.unit p i = some v) :
    setXObjDataI p i w s = .ok () (s.setUnit p i w) := by
  rw [setXObjDataI, Prog.bind_of_ok (xObjDataI_eq h)]
  rfl

/-- The error is a memory fault. -/
def Stop.IsFault (e : Stop) : Prop := ∃ f, e = .fault f

theorem xObjDataI_faults : Prog.Errors Stop.IsFault (xObjDataI p i) := fun s e s' h => by
  by_cases hl : s.Live p
  · cases hu : s.unit p i with
    | some w =>
      rw [xObjDataI_eq hu] at h
      cases h
    | none =>
      rw [xObjDataI_out hl hu] at h
      cases h
      exact ⟨_, rfl⟩
  · rw [xObjDataI, Prog.bind_of_error (deref_not_live hl)] at h
    cases h
    exact ⟨_, rfl⟩

theorem setXObjDataI_faults : Prog.Errors Stop.IsFault (setXObjDataI p i w) :=
  xObjDataI_faults.bind fun _ _ _ _ h => nomatch h

theorem deref_reads : Prog.Reads (deref p) := fun s => by
  by_cases h : s.Live p
  · obtain ⟨o, ho⟩ := live_iff.mp h
    rw [deref_eq ho]
    rfl
  · rw [deref_not_live h]
    rfl

theorem xObjDataI_reads : Prog.Reads (xObjDataI p i) :=
  deref_reads.bind fun o s => by cases o.data[i]? <;> rfl

/-! ## What a run that returned has read -/

theorem xObjHeap_ok : xObjHeap p s = .ok w s' ↔ s.Live p ∧ w = s.next p ∧ s' = s := by
  by_cases h : s.Live p
  · rw [xObjHeap_eq h]
    simp [h, eq_comm]
  · rw [xObjHeap, Prog.bind_of_error (deref_not_live h)]
    simp [h]

theorem xObjType_ok : xObjType p s = .ok t s' ↔ s.Live p ∧ t = s.typeOf p ∧ s' = s := by
  by_cases h : s.Live p
  · rw [xObjType_eq h]
    simp [h, eq_comm]
  · rw [xObjType, Prog.bind_of_error (deref_not_live h)]
    simp [h]

theorem xObjFlags_ok : xObjFlags p s = .ok fl s' ↔ s.Live p ∧ fl = s.flagsOf p ∧ s' = s := by
  by_cases h : s.Live p
  · rw [xObjFlags_eq h]
    simp [h, eq_comm]
  · rw [xObjFlags, Prog.bind_of_error (deref_not_live h)]
    simp [h]

theorem xObjDataI_ok : xObjDataI p i s = .ok v s' ↔ s.unit p i = some v ∧ s' = s := by
  cases h : s.unit p i with
  | some w => rw [xObjDataI_eq h]; simp [eq_comm]
  | none =>
    simp only [reduceCtorEq, false_and, iff_false]
    intro hr
    rw [xObjDataI, Prog.bind_ok] at hr
    obtain ⟨o, s₁, hd, hr⟩ := hr
    obtain ⟨ho, rfl⟩ := deref_ok.mp hd
    simp only [unit, dataOf, ho, Option.map_some, Option.getD_some] at h
    rw [h] at hr
    cases hr

theorem xFirst_ok : xFirst p s = .ok v s' ↔ s.unit p 0 = some v ∧ s' = s := xObjDataI_ok

theorem xRest_ok : xRest p s = .ok v s' ↔ s.unit p 1 = some v ∧ s' = s := xObjDataI_ok

theorem setXObjHeap_ok {u : Unit} :
    setXObjHeap p w s = .ok u s' ↔ s.Live p ∧ s' = s.setHeap p w := by
  by_cases h : s.Live p
  · rw [setXObjHeap_eq h]
    simp [h, eq_comm]
  · rw [setXObjHeap, Prog.bind_of_error (deref_not_live h)]
    simp [h]

theorem setXObjType_ok {u : Unit} :
    setXObjType p t s = .ok u s' ↔ s.Live p ∧ s' = s.setType p t := by
  by_cases h : s.Live p
  · rw [setXObjType_eq h]
    simp [h, eq_comm]
  · rw [setXObjType, Prog.bind_of_error (deref_not_live h)]
    simp [h]

theorem setXObjFlags_ok {u : Unit} :
    setXObjFlags p fl s = .ok u s' ↔ s.Live p ∧ s' = s.setFlags p fl := by
  by_cases h : s.Live p
  · rw [setXObjFlags_eq h]
    simp [h, eq_comm]
  · rw [setXObjFlags, Prog.bind_of_error (deref_not_live h)]
    simp [h]

theorem setXObjDataI_ok {u : Unit} :
    setXObjDataI p i w s = .ok u s' ↔ (∃ v, s.unit p i = some v) ∧ s' = s.setUnit p i w := by
  cases h : s.unit p i with
  | some v => rw [setXObjDataI_eq h]; simp [eq_comm]
  | none =>
    simp only [reduceCtorEq, exists_false, false_and, iff_false]
    intro hr
    rw [setXObjDataI, Prog.bind_ok] at hr
    obtain ⟨v, s₁, hd, -⟩ := hr
    rw [(xObjDataI_ok.mp hd).1] at h
    cases h

end Runs

end XExpr
