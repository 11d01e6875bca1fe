import XExpr.Obj.AllocLemmas
import XExpr.Heap.Collect

/-!
# Stores through the address of a unit

The address of the first unit of an object leads back to it, so a store through it is a store into
this unit.

* `xObjPushField_bare`, `xObjPopField_run`: a list in a unit as a stack.
* `xHeapRootPush_run`, `xHeapRootPop_run`: registration on the chain whose head is in a unit.
-/

namespace XExpr

open Sys
open Mem (chase)

variable {s s' : Sys} {b c p q w : Ptr} {f : Field}

theorem slotAddr_ne_nil (h : s.Live c) (i : Nat) : slotAddr c i ≠ nil := by
  have hx : ∀ (a : Int) (n : Nat), 0 < a → a + (n : Int) ≠ 0 := by omega
  exact hx c _ h.pos

theorem xSlot_run (h : s.unit p 0 = some w) : xSlot (slotAddr p 0) s = .ok (p, 0) s := by
  have hp : slotAddr p 0 - slotAddr 0 0 = p := by simp [slotAddr]
  unfold xSlot
  rw [Prog.get_bind, hp, h]
  rfl

theorem xSlot_reads {a : Ptr} : Prog.Reads (xSlot a) := fun s => by
  unfold xSlot
  rw [Prog.get_bind]
  split
  · rfl
  · split
    · rfl
    · split <;> rfl

/-! ## Lists in units -/

section Stack

variable {env : Env} {fl : Flags} {v old : Word}

theorem Field.addr_ok {a : Ptr} : f.addr b s = .ok a s' ↔
    ∃ n, chase s.unit b f.nodePath = some n ∧ a = slotAddr n 0 ∧ s' = s := by
  simp only [Field.addr, Prog.bind_ok, chaseM_ok, Prog.pure_apply, EStateM.Result.ok.injEq]
  constructor
  · rintro ⟨n, _, ⟨hn, rfl⟩, rfl, rfl⟩; exact ⟨n, hn, rfl, rfl⟩
  · rintro ⟨n, hn, rfl, rfl⟩; exact ⟨n, _, ⟨hn, rfl⟩, rfl, rfl⟩

theorem xFirst_nil : xFirst nil s = .error (.fault .nilDeref) s := by
  unfold xFirst xObjDataI
  rw [Prog.bind_of_error (deref_not_live not_live_nil), if_pos rfl]

/-- `s'` is `s` with a new pair `p` of the value `v` and the list `old` that was in the first unit
of `q`, and with `p` in this unit. -/
structure Pushed (s : Sys) (b : Ptr) (fl : Flags) (q : Ptr) (v old : Word) (p : Ptr) (s' : Sys) :
    Prop where
  bare : s.Bare b
  slot : s.unit q 0 = some old
  made : ∃ a s₁, Made s b xTypePairObj fl [v, old] p a s₁ ∧ s' = s₁.setUnit q 0 p

namespace Pushed

variable {x : Ptr} {i : Nat}

theorem new (h : Pushed s b fl q v old p s') : ¬ s.Live p := by
  obtain ⟨a, s₁, hm, -⟩ := h.made
  exact hm.new

theorem ne (h : Pushed s b fl q v old p s') (hx : s.Live x) : x ≠ p := fun e => h.new (e ▸ hx)

theorem slot₁ {a : Ptr} {s₁ : Sys} (h : Pushed s b fl q v old p s')
    (hm : Made s b xTypePairObj fl [v, old] p a s₁) : s₁.unit q 0 = some old := by
  rw [hm.unit_old q 0 (h.ne (live_of_unit h.slot)), if_neg fun hf => h.bare.not_full hf.1, h.slot]

theorem live (h : Pushed s b fl q v old p s') : s'.Live x ↔ x = p ∨ s.Live x := by
  obtain ⟨a, s₁, hm, rfl⟩ := h.made
  rw [live_setUnit, hm.live]

theorem typeOf_new (h : Pushed s b fl q v old p s') : s'.typeOf p = xTypePairObj := by
  obtain ⟨a, s₁, hm, rfl⟩ := h.made
  rw [typeOf_setUnit, hm.typeOf_new]

theorem typeOf_old (h : Pushed s b fl q v old p s') (hx : x ≠ p) : s'.typeOf x = s.typeOf x := by
  obtain ⟨a, s₁, hm, rfl⟩ := h.made
  rw [typeOf_setUnit, hm.typeOf_old x hx]

theorem flagsOf_new (h : Pushed s b fl q v old p s') : s'.flagsOf p = fl := by
  obtain ⟨a, s₁, hm, rfl⟩ := h.made
  rw [flagsOf_setUnit, hm.flagsOf_new, extraOf_of_not_full h.bare.not_full]
  rfl

theorem flagsOf_old (h : Pushed s b fl q v old p s') (hx : x ≠ p) :
    s'.flagsOf x = s.flagsOf x := by
  obtain ⟨a, s₁, hm, rfl⟩ := h.made
  rw [flagsOf_setUnit, hm.flagsOf_old x hx]

theorem unit_new (h : Pushed s b fl q v old p s') : s'.unit p i = [v, old][i]? := by
  have hq := h.ne (live_of_unit h.slot)
  obtain ⟨a, s₁, hm, rfl⟩ := h.made
  rw [unit_setUnit (h.slot₁ hm), if_neg fun e => hq e.1.symm, Sys.unit, hm.data_new]

theorem unit_old (h : Pushed s b fl q v old p s') (hx : x ≠ p) :
    s'.unit x i = if x = q ∧ i = 0 then some p else s.unit x i := by
  obtain ⟨a, s₁, hm, rfl⟩ := h.made
  rw [unit_setUnit (h.slot₁ hm), hm.unit_old x i hx]
  simp only [h.bare.not_full, false_and, if_false]

theorem unit_rest (h : Pushed s b fl q v old p s') (hx : x ≠ p) :
    s'.unit x (i + 1) = s.unit x (i + 1) := by
  rw [h.unit_old hx, if_neg fun e => Nat.succ_ne_zero i e.2]

/-- A word that leads to no object, or to one with a unit, still does. -/
theorem hook (h : Pushed s b fl q v old p s') (hw : w = nil ∨ ∃ u, s.unit w 0 = some u) :
    w = nil ∨ ∃ u, s'.unit w 0 = some u := by
  refine hw.imp id fun ⟨u, hu⟩ => ?_
  rw [h.unit_old (h.ne (live_of_unit hu))]
  split
  · exact ⟨p, rfl⟩
  · exact ⟨u, hu⟩

theorem bare' (h : Pushed s b fl q v old p s') : s'.Bare b := by
  refine h.bare.imp id fun hb => ⟨h.live.mpr (.inr hb.1), ?_⟩
  rw [h.typeOf_old (h.ne hb.1), hb.2]

end Pushed

/-- A push whose pair is made returns the value. -/
theorem xObjPushField_made {fl : Flags} {field a : Ptr} {i : Nat} {s₁ : Sys}
    (hs : xSlot field s = .ok (q, i) s) (hq : s.unit q i = some old)
    (hrun : xObjMake env b xTypePairObj fl [v, old] s = .ok p s₁)
    (hm : Made s b xTypePairObj fl [v, old] p a s₁) :
    xObjPushField env b field v fl s = .ok v (s₁.setUnit q i p) := by
  have hqp : q ≠ p := fun e => hm.new (e ▸ live_of_unit hq)
  obtain ⟨u, hq₁⟩ : ∃ u, s₁.unit q i = some u := by
    rw [hm.unit_old q i hqp]
    split
    · next h =>
      obtain ⟨-, -, rfl⟩ := h
      exact ⟨old + 1, by rw [hq]; rfl⟩
    · exact ⟨old, hq⟩
  have hu : (s₁.setUnit q i p).unit q i = some p := by
    rw [unit_setUnit hq₁, if_pos ⟨rfl, rfl⟩]
  have hv : (s₁.setUnit q i p).unit p 0 = some v := by
    rw [unit_setUnit hq₁, if_neg fun h => hqp h.1.symm, Sys.unit, hm.data_new]
    rfl
  change xMkspair env b fl v old s = _ at hrun
  unfold xObjPushField
  rw [Prog.bind_of_ok hs]
  dsimp only
  rw [Prog.bind_of_ok (xObjDataI_eq hq), Prog.bind_of_ok hrun,
    Prog.bind_of_ok (setXObjDataI_eq hq₁), Prog.bind_of_ok (xObjDataI_eq hu)]
  exact xFirst_eq hv

/-- On a bare base a push makes a pair of the value and the list. If `malloc` refuses it, the list
is already lost when the result is read through `NULL`. -/
theorem xObjPushField_slot (env : Env) (v : Word) (fl : Flags) {field : Ptr} {i : Nat}
    (hb : s.Bare b)
    (hs : xSlot field s = .ok (q, i) s) (hq : s.unit q i = some old) :
    (env.malloc.grants s.requests = false ∧ xObjPushField env b field v fl s =
      .error (.fault .nilDeref) (s.request.setUnit q i nil)) ∨
    ∃ p a s₁, env.malloc.grants s.requests = true ∧
      Made s b xTypePairObj fl [v, old] p a s₁ ∧
      xObjPushField env b field v fl s = .ok v (s₁.setUnit q i p) := by
  rcases xObjMake_bare env xTypePairObj fl [v, old] hb
    (by simp) with ⟨hg, hrun⟩ | ⟨p, a, s₁, hg, hrun, hm⟩
  · change xMkspair env b fl v old s = _ at hrun
    refine .inl ⟨hg, ?_⟩
    have hu : (s.request.setUnit q i nil).unit q i = some nil := by
      rw [unit_setUnit (by rwa [unit_request]), if_pos ⟨rfl, rfl⟩]
    unfold xObjPushField
    rw [Prog.bind_of_ok hs]
    dsimp only
    rw [Prog.bind_of_ok (xObjDataI_eq hq), Prog.bind_of_ok hrun,
      Prog.bind_of_ok (setXObjDataI_eq (by rwa [unit_request])), Prog.bind_of_ok (xObjDataI_eq hu)]
    exact xFirst_nil
  · exact .inr ⟨p, a, s₁, hg, hm, xObjPushField_made hs hq hrun hm⟩

theorem xObjPushField_bare (env : Env) (v : Word) (fl : Flags) (hb : s.Bare b)
    (hq : s.unit q 0 = some old) :
    (env.malloc.grants s.requests = false ∧ xObjPushField env b (slotAddr q 0) v fl s =
      .error (.fault .nilDeref) (s.request.setUnit q 0 nil)) ∨
    ∃ p s', env.malloc.grants s.requests = true ∧ Pushed s b fl q v old p s' ∧
      xObjPushField env b (slotAddr q 0) v fl s = .ok v s' := by
  refine (xObjPushField_slot env v fl hb (xSlot_run hq) hq).imp id ?_
  rintro ⟨p, a, s₁, hg, hm, hrun⟩
  exact ⟨p, _, hg, ⟨hb, hq, a, s₁, hm, rfl⟩, hrun⟩

/-- A pop moves on to the rest of the list. -/
theorem xObjPopField_run (hq : s.unit q 0 = some p) (hv : s.unit p 0 = some v)
    (hr : s.unit p 1 = some w) :
    xObjPopField (slotAddr q 0) s = .ok v (s.setUnit q 0 w) := by
  unfold xObjPopField
  rw [Prog.bind_of_ok (xSlot_run hq)]
  dsimp only
  rw [Prog.bind_of_ok (xObjDataI_eq hq), Prog.bind_of_ok (xFirst_eq hv),
    Prog.bind_of_ok (xObjDataI_eq hq), Prog.bind_of_ok (xRest_eq hr),
    Prog.bind_of_ok (setXObjDataI_eq hq)]
  rfl

/-- What `x_obj_push` reads in its arguments: the address of the list, the value and the flags. -/
structure PushArgs (s : Sys) (args field value : Ptr) (fl : Flags) : Prop where
  field : ∃ a, s.unit args 0 = some a ∧ s.unit a 0 = some field
  value : ∃ r more, s.unit args 1 = some r ∧ s.unit r 0 = some value ∧ s.unit r 1 = some more ∧
    (more = nil ∧ fl = xObjFlagNone ∨
      more ≠ nil ∧ ∃ a w, s.unit more 0 = some a ∧ s.unit a 0 = some w ∧ fl = BitVec.ofInt 32 w)

theorem xObjPush_run {args field : Ptr} (h : PushArgs s args field v fl) :
    xObjPush env b args s = xObjPushField env b field v fl s := by
  obtain ⟨⟨a, ha, hf⟩, r, more, hr, hv, hm, hfl⟩ := h
  unfold xObjPush
  rw [Prog.bind_of_ok (xFirst_eq ha), Prog.bind_of_ok (xFirst_eq hf), Prog.bind_of_ok (xRest_eq hr),
    Prog.bind_of_ok (xFirst_eq hv), Prog.bind_of_ok (xRest_eq hr), Prog.bind_of_ok (xRest_eq hm)]
  rcases hfl with ⟨rfl, rfl⟩ | ⟨hn, c, w, hc, hw, rfl⟩
  · rw [if_pos rfl]
    rfl
  · rw [if_neg hn, bind_map_left, bind_assoc, Prog.bind_of_ok (xFirst_eq hc),
      Prog.bind_of_ok (xFirst_eq hw)]

/-- What `x_obj_pop` reads in its arguments: the address of the list. -/
theorem xObjPop_run {args field a : Ptr} (ha : s.unit args 0 = some a)
    (hf : s.unit a 0 = some field) : xObjPop args s = xObjPopField field s := by
  unfold xObjPop
  rw [Prog.bind_of_ok (xFirst_eq ha), Prog.bind_of_ok (xFirst_eq hf)]

/-- A value is prepended to the list in the first unit of the cell of a field. -/
theorem heapListAdd_run (hc : chase s.unit b f.path = some c) :
    heapListAdd env f b v s = (do
      let _ ← xObjPushField env b (slotAddr c 0) v xObjFlagNone) s := by
  unfold heapListAdd
  rw [Prog.bind_of_ok (Field.get_ok.mpr ⟨hc, rfl⟩)]

end Stack

/-! ## The root chain -/

theorem xHeapRootSlot_run (hs : s.IsSet b) (hc : chase s.unit b Field.heapRootChain.path = some c) :
    xHeapRootSlot b s = .ok (slotAddr c 0) s := by
  unfold xHeapRootSlot
  rw [Prog.bind_of_ok (xBaseIsset_run hs), if_pos rfl,
    Prog.bind_of_ok (Field.get_ok.mpr ⟨hc, rfl⟩)]
  rfl

theorem xHeapRootPush_run (hc : s.unit c 0 = some w) (hp : s.Live p) :
    xHeapRootPush (slotAddr c 0) p s = .ok () ((s.setHeap p w).setUnit c 0 p) := by
  unfold xHeapRootPush
  rw [if_pos (slotAddr_ne_nil (live_of_unit hc) 0), Prog.bind_of_ok (xSlot_run hc)]
  dsimp only
  rw [Prog.bind_of_ok (xObjDataI_eq hc), Prog.bind_of_ok (setXObjHeap_eq hp)]
  exact setXObjDataI_eq (v := w) (by rwa [unit_setHeap])

theorem xHeapRootPop_run (hc : s.unit c 0 = some p) (hp : s.Live p) :
    xHeapRootPop (slotAddr c 0) s = .ok () (s.setUnit c 0 (s.next p)) := by
  unfold xHeapRootPop
  rw [if_pos (slotAddr_ne_nil (live_of_unit hc) 0), Prog.bind_of_ok (xSlot_run hc)]
  dsimp only
  rw [Prog.bind_of_ok (xObjDataI_eq hc), Prog.bind_of_ok (xObjHeap_eq hp)]
  exact setXObjDataI_eq hc

theorem setXHeapRootChain_run (hc : chase s.unit b Field.heapRootChain.path = some c)
    (hu : s.unit c 0 = some p) :
    setXHeapRootChain b w s = .ok () (s.setUnit c 0 w) := by
  unfold setXHeapRootChain
  rw [Prog.bind_of_ok (Field.get_ok.mpr ⟨hc, rfl⟩)]
  exact setXObjDataI_eq hu

end XExpr
