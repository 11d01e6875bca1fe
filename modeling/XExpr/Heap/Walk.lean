import XExpr.Heap.Mark
import XExpr.Obj.FreeLemmas

/-!
# The walk of a sweep

One pass of the loop of `x_heap_sweep`. The assignment of a link is a parameter here, since a walk
that has freed the base goes on to assign a link of the base.

* `walkLoop`, `sweepWith`: the loop and the call. With the assignment of the source they are
  `sweepLoop` and `xHeapSweep` (`walkLoop_setXObjHeap`, `sweepWith_setXObjHeap`); `storeIfLive` does
  nothing when it goes through a freed object.
* `walkLoop_keep`, `walkLoop_unlink`: what one pass does to an object that is kept, and to one that
  is not.
* `Framed`, `Logged`: properties that the calls that free keep, as they only add to the log.
-/

namespace XExpr

open Sys

/-- The test of the sweep: marked with some bit of `F`, or shared. -/
def Sys.kept (s : Sys) (F : Flags) (p : Ptr) : Bool :=
  F ≠ 0 ∧ s.flagsOf p &&& F ≠ 0 ∨ s.flagsOf p &&& xObjFlagShared ≠ 0

/-- A free hook that leaves the modelled memory alone. -/
def Env.FreeInert (env : Env) : Prop := ∀ w b p s, env.freeFn w b p s = .ok () s

/-- The object at `p` is in `s'` what it is in `s`. -/
structure Sys.Intact (s : Sys) (p : Ptr) (s' : Sys) : Prop where
  live : s'.Live p
  next : s'.next p = s.next p
  typeOf : s'.typeOf p = s.typeOf p
  flagsOf : s'.flagsOf p = s.flagsOf p
  unit : ∀ i, s'.unit p i = s.unit p i
  extrasOf : s'.extrasOf p = s.extrasOf p

theorem Sys.Intact.trans {s s₁ s₂ : Sys} {p : Ptr} (h : s.Intact p s₁) (h' : s₁.Intact p s₂) :
    s.Intact p s₂ :=
  ⟨h'.live, h'.next.trans h.next, h'.typeOf.trans h.typeOf, h'.flagsOf.trans h.flagsOf,
    fun i => (h'.unit i).trans (h.unit i), h'.extrasOf.trans h.extrasOf⟩

/-- Called on an object that is what it was in `s`, the hook leaves the memory alone. -/
def Env.InertOn (env : Env) (fn : Word) (b : Ptr) (s : Sys) (p : Ptr) : Prop :=
  ∀ s', s.Intact p s' → env.freeFn fn b p s' = .ok () s'

theorem Env.InertOn.intact {env : Env} {fn : Word} {b p : Ptr} {s s' : Sys}
    (h : env.InertOn fn b s p) (hi : s.Intact p s') : env.InertOn fn b s' p :=
  fun s₁ h₁ => h s₁ (hi.trans h₁)

theorem Env.FreeInert.on {env : Env} {fn : Word} {b p : Ptr} {s : Sys} (h : env.FreeInert) :
    env.InertOn fn b s p := fun s' _ => h fn b p s'

theorem Env.plain_inert {grants : Nat → Bool} : (Env.plain grants).FreeInert :=
  fun _ _ _ _ => rfl

/-- The loop of `x_heap_sweep`, with `store` for its assignment of a link. -/
def walkLoop (env : Env) (store : Ptr → Ptr → M Unit) (flags : Flags) (fn : Word) :
    Nat → Ptr → Ptr → Ptr → M Unit
  | 0, _, _, _ => throw .diverge
  | n + 1, b, prev, node => do
    if node = nil then return
    let fl ← xObjFlags node
    if flags ≠ 0 ∧ fl &&& flags ≠ 0 ∨ fl &&& xObjFlagShared ≠ 0 then
      setXObjFlags node (fl &&& ~~~flags)
      walkLoop env store flags fn n b node (← xObjHeap node)
    else
      callFreeFn env fn b node
      let next ← xObjHeap node
      store prev next
      xObjFree b node
      walkLoop env store flags fn n (if node = b then nil else b) prev next

/-- A link assigned, where there is an object. Else the assignment is lost. -/
def storeIfLive (p w : Ptr) : M Unit := do
  if (← get).Live p then setXObjHeap p w else return

/-- `x_heap_sweep`, with `store` for its assignment of a link. -/
def sweepWith (env : Env) (store : Ptr → Ptr → M Unit) (b p : Ptr) (flags : Flags) : M Ptr := do
  let fn ← heapFn .heapFree b
  let prev := if (← xObjHeap b) = p then b else p
  walkLoop env store flags fn (passes (← get)) b prev p
  return b

/-- An assignment of a link, which may only stop where there is no object. -/
def Links (store : Ptr → Ptr → M Unit) : Prop := ∀ s p w,
  store p w s = .ok () (s.setHeap p w) ∨ ¬ s.Live p ∧ ∃ e, store p w s = .error e s

/-- The memory after the free hook was called on `p`. -/
def Sys.hooked (s : Sys) (fn : Word) (p : Ptr) : Sys :=
  if fn = nil then s else s.log (.freeHook p)

/-- The memory when the sweep is about to free `p`, with `prev` linked to what follows. -/
def Sys.unlinked (s : Sys) (fn : Word) (prev p : Ptr) : Sys :=
  (s.hooked fn p).setHeap prev (s.next p)

section Walk

variable {env : Env} {store : Ptr → Ptr → M Unit} {s s' : Sys} {b p q prev : Ptr} {F : Flags}
  {fn : Word} {n : Nat}

theorem kept_eq_false : s.kept F p = false ↔
    ¬ (F ≠ 0 ∧ s.flagsOf p &&& F ≠ 0 ∨ s.flagsOf p &&& xObjFlagShared ≠ 0) := by
  rw [kept, decide_eq_false_iff_not]

theorem kept_eq_true : s.kept F p = true ↔
    (F ≠ 0 ∧ s.flagsOf p &&& F ≠ 0 ∨ s.flagsOf p &&& xObjFlagShared ≠ 0) := by
  rw [kept, decide_eq_true_iff]

theorem kept_of_shared (h : s.flagsOf p &&& xObjFlagShared ≠ 0) : s.kept F p = true :=
  kept_eq_true.mpr (.inr h)

theorem not_shared (h : s.kept F p = false) : s.flagsOf p &&& xObjFlagShared = 0 := by
  by_contra hs
  rw [kept_of_shared hs] at h
  cases h

theorem kept_zero : s.kept 0 p = true ↔ s.flagsOf p &&& xObjFlagShared ≠ 0 := by
  rw [kept_eq_true]
  simp

theorem not_kept_zero : s.kept 0 p = false ↔ s.flagsOf p &&& xObjFlagShared = 0 := by
  rw [← Bool.not_eq_true, kept_zero, not_ne_iff]

theorem kept_congr (h : s'.flagsOf p = s.flagsOf p) : s'.kept F p = s.kept F p := by
  simp only [kept, h]

theorem obj_hooked : (s.hooked fn p).obj = s.obj := by unfold hooked; split <;> rfl

theorem block_hooked : (s.hooked fn p).block = s.block := by unfold hooked; split <;> rfl

theorem requests_hooked : (s.hooked fn p).requests = s.requests := by
  unfold hooked; split <;> rfl

theorem live_hooked : (s.hooked fn p).Live q ↔ s.Live q := by rw [live_iff, live_iff, obj_hooked]

theorem next_hooked : (s.hooked fn p).next q = s.next q := by unfold hooked; split <;> rfl

theorem typeOf_hooked : (s.hooked fn p).typeOf q = s.typeOf q := by unfold hooked; split <;> rfl

theorem flagsOf_hooked : (s.hooked fn p).flagsOf q = s.flagsOf q := by
  unfold hooked; split <;> rfl

theorem unit_hooked : (s.hooked fn p).unit = s.unit := by unfold hooked; split <;> rfl

theorem extrasOf_hooked : (s.hooked fn p).extrasOf q = s.extrasOf q := by
  unfold hooked; split <;> rfl

theorem callFreeFn_run (hin : env.InertOn fn b s p) (hp : s.Live p) :
    callFreeFn env fn b p s = .ok () (s.hooked fn p) := by
  unfold callFreeFn hooked
  by_cases hf : fn = nil
  · simp [hf]
  · simp only [ne_eq, hf, not_false_eq_true, if_true, if_false]
    exact (Prog.bind_of_ok (show log (.freeHook p) s = .ok ⟨⟩ (s.log (.freeHook p)) from rfl)).trans
      (hin _ ⟨hp, rfl, rfl, rfl, fun _ => rfl, rfl⟩)

theorem walkLoop_setXObjHeap (env : Env) (F : Flags) (fn : Word) (n : Nat) (b prev p : Ptr) :
    walkLoop env setXObjHeap F fn n b prev p = sweepLoop env F fn n b prev p := by
  induction n generalizing b prev p with
  | zero => rfl
  | succ n ih =>
    unfold walkLoop sweepLoop
    simp only [ih]

theorem sweepWith_setXObjHeap (env : Env) (b p : Ptr) (F : Flags) :
    sweepWith env setXObjHeap b p F = xHeapSweep env b p F := by
  unfold sweepWith xHeapSweep
  simp only [walkLoop_setXObjHeap]

theorem links_setXObjHeap : Links setXObjHeap := fun s p w => by
  by_cases hp : s.Live p
  · exact .inl (setXObjHeap_eq hp)
  · exact .inr ⟨hp, _, Prog.bind_of_error (deref_not_live hp)⟩

theorem storeIfLive_eq (s : Sys) (p w : Ptr) : storeIfLive p w s = .ok () (s.setHeap p w) := by
  unfold storeIfLive
  rw [Prog.get_bind]
  split
  · next hp => exact setXObjHeap_eq hp
  · next hp =>
    rw [setHeap, modify_of_not_live hp]
    rfl

theorem links_storeIfLive : Links storeIfLive := fun s p w => .inl (storeIfLive_eq s p w)

/-! ## One pass -/

theorem walkLoop_not_live (hp : ¬ s.Live p) :
    Prog.stateOf (walkLoop env store F fn (n + 1) b prev p s) = s := by
  unfold walkLoop
  split
  · rfl
  · have hstop : xObjFlags p s = .error _ s := Prog.bind_of_error (deref_not_live hp)
    rw [Prog.bind_of_error hstop]
    rfl

/-- An object is kept. -/
theorem walkLoop_keep (hp : s.Live p) (hk : s.kept F p = true) :
    walkLoop env store F fn (n + 1) b prev p s =
      walkLoop env store F fn n b p (s.next p) (s.setFlags p (s.flagsOf p &&& ~~~F)) := by
  conv_lhs => unfold walkLoop
  rw [if_neg hp.ne_nil, Prog.bind_of_ok (xObjFlags_eq hp), if_pos (kept_eq_true.mp hk),
    Prog.bind_of_ok (setXObjFlags_eq hp), Prog.bind_of_ok (xObjHeap_eq (live_setFlags.mpr hp)),
    next_setFlags]

/-- An object is not kept. -/
theorem walkLoop_die (hp : s.Live p) (hk : s.kept F p = false) :
    walkLoop env store F fn (n + 1) b prev p s = (callFreeFn env fn b p >>= fun _ =>
      xObjHeap p >>= fun next => store prev next >>= fun _ => xObjFree b p >>= fun _ =>
        walkLoop env store F fn n (if p = b then nil else b) prev next) s := by
  rw [walkLoop, if_neg hp.ne_nil, Prog.bind_of_ok (xObjFlags_eq hp), if_neg (kept_eq_false.mp hk)]

/-- An object is not kept, and the hook leaves the memory alone. -/
theorem walkLoop_hooked (hin : env.InertOn fn b s p) (hp : s.Live p) (hk : s.kept F p = false) :
    walkLoop env store F fn (n + 1) b prev p s = (store prev (s.next p) >>= fun _ =>
      xObjFree b p >>= fun _ =>
        walkLoop env store F fn n (if p = b then nil else b) prev (s.next p)) (s.hooked fn p) := by
  rw [walkLoop_die hp hk, Prog.bind_of_ok (callFreeFn_run hin hp),
    Prog.bind_of_ok (xObjHeap_eq (live_hooked.mpr hp)),
    show (s.hooked fn p).next p = s.next p from next_hooked]

/-- It is linked out before it is freed. -/
theorem walkLoop_unlink
    (hst : store prev (s.next p) (s.hooked fn p) = .ok () (s.unlinked fn prev p))
    (hin : env.InertOn fn b s p) (hp : s.Live p) (hk : s.kept F p = false) :
    walkLoop env store F fn (n + 1) b prev p s = (xObjFree b p >>= fun _ =>
      walkLoop env store F fn n (if p = b then nil else b) prev (s.next p))
        (s.unlinked fn prev p) := by
  rw [walkLoop_hooked hin hp hk, Prog.bind_of_ok hst]

/-! ### With the assignment of the source -/

theorem sweepLoop_keep (hp : s.Live p) (hk : s.kept F p = true) :
    sweepLoop env F fn (n + 1) b prev p s =
      sweepLoop env F fn n b p (s.next p) (s.setFlags p (s.flagsOf p &&& ~~~F)) := by
  simp only [← walkLoop_setXObjHeap]
  exact walkLoop_keep hp hk

theorem sweepLoop_die (hp : s.Live p) (hk : s.kept F p = false) :
    sweepLoop env F fn (n + 1) b prev p s = (callFreeFn env fn b p >>= fun _ =>
      xObjHeap p >>= fun next => setXObjHeap prev next >>= fun _ => xObjFree b p >>= fun _ =>
        sweepLoop env F fn n (if p = b then nil else b) prev next) s := by
  simp only [← walkLoop_setXObjHeap]
  exact walkLoop_die hp hk

theorem sweepLoop_hooked (hin : env.InertOn fn b s p) (hp : s.Live p) (hk : s.kept F p = false) :
    sweepLoop env F fn (n + 1) b prev p s = (setXObjHeap prev (s.next p) >>= fun _ =>
      xObjFree b p >>= fun _ =>
        sweepLoop env F fn n (if p = b then nil else b) prev (s.next p)) (s.hooked fn p) := by
  simp only [← walkLoop_setXObjHeap]
  exact walkLoop_hooked hin hp hk

theorem sweepLoop_unlink (hin : env.InertOn fn b s p) (hp : s.Live p) (hk : s.kept F p = false)
    (hprev : s.Live prev) : sweepLoop env F fn (n + 1) b prev p s = (xObjFree b p >>= fun _ =>
      sweepLoop env F fn n (if p = b then nil else b) prev (s.next p))
        ((s.hooked fn p).setHeap prev (s.next p)) := by
  simp only [← walkLoop_setXObjHeap]
  exact walkLoop_unlink (setXObjHeap_eq (live_hooked.mpr hprev)) hin hp hk

/-- Its predecessor is gone, and the assignment stops the walk. -/
theorem sweepLoop_dangling (hin : env.InertOn fn b s p) (hp : s.Live p) (hk : s.kept F p = false)
    (hprev : ¬ s.Live prev) :
    ∃ e, sweepLoop env F fn (n + 1) b prev p s = .error e (s.hooked fn p) := by
  have hstop : setXObjHeap prev (s.next p) (s.hooked fn p) = .error _ (s.hooked fn p) :=
    Prog.bind_of_error (deref_not_live (mt live_hooked.mp hprev))
  rw [sweepLoop_hooked hin hp hk, Prog.bind_of_error hstop]
  exact ⟨_, rfl⟩

/-- The sweep is its loop. -/
theorem sweepWith_eq (hfn : s.hookWord .heapFree b = some fn) (hb : s.Live b) :
    sweepWith env store b p F s =
      (do walkLoop env store F fn (passes s) b (if s.next b = p then b else p) p
          return b : M Ptr) s := by
  unfold sweepWith
  rw [Prog.bind_of_ok (heapFn_run hfn), Prog.bind_of_ok (xObjHeap_eq hb), Prog.get_bind]

theorem xHeapSweep_eq (hfn : s.hookWord .heapFree b = some fn) (hb : s.Live b) :
    xHeapSweep env b p F s =
      (do sweepLoop env F fn (passes s) b (if s.next b = p then b else p) p
          return b : M Ptr) s := by
  rw [← sweepWith_setXObjHeap, sweepWith_eq hfn hb]
  simp only [walkLoop_setXObjHeap]

end Walk

/-! ## The log -/

/-- A property of the log that no further event undoes. -/
structure Logged (I : Sys → Prop) : Prop where
  same : ∀ s s', s'.trace = s.trace → I s → I s'
  log : ∀ s ev, I s → I (s.log ev)

section Log

variable {env : Env} {I : Sys → Prop} {store : Ptr → Ptr → M Unit} {s s' : Sys} {b p q a : Ptr}
  {F : Flags} {i n : Nat} {w fn : Word}

/-- The log so far stays. -/
theorem logged_suffix (tr : List Event) : Logged fun s => ∃ l, s.trace = l ++ tr :=
  ⟨fun _ _ h ⟨l, hl⟩ => ⟨l, h.trans hl⟩, fun _ ev ⟨l, hl⟩ => ⟨ev :: l, congrArg (ev :: ·) hl⟩⟩

theorem xObjFlags_reads : Prog.Reads (xObjFlags p) := deref_reads.bind fun _ _ => rfl

theorem xObjHeap_reads : Prog.Reads (xObjHeap p) := deref_reads.bind fun _ _ => rfl

theorem xBaseIsset_reads : Prog.Reads (xBaseIsset b) := by
  unfold xBaseIsset
  split
  · exact fun _ => rfl
  · exact xObjDataI_reads.bind fun _ _ => rfl

theorem baseFull_reads : Prog.Reads (baseFull b) := by
  unfold baseFull
  split
  · exact fun _ => rfl
  · refine (deref_reads.bind fun _ _ => rfl).bind fun t => ?_
    split
    · exact fun _ => rfl
    · exact xBaseIsset_reads

theorem heapFn_reads {f : Field} : Prog.Reads (heapFn f b) := by
  refine xBaseIsset_reads.bind fun isset => ?_
  split
  · refine Field.obj_reads.bind fun hook => ?_
    split
    · exact xObjDataI_reads
    · exact fun _ => rfl
  · exact fun _ => rfl

/-- The sweep is its loop, or the hook cannot be read. -/
theorem sweepWith_cases (env : Env) (store : Ptr → Ptr → M Unit) (F : Flags) (hb : s.Live b)
    (p : Ptr) :
    (∃ fn, Prog.stateOf (sweepWith env store b p F s) = Prog.stateOf
      (XExpr.walkLoop env store F fn (passes s) b (if s.next b = p then b else p) p s)) ∨
    Prog.stateOf (sweepWith env store b p F s) = s := by
  unfold sweepWith
  rcases (heapFn_reads (f := .heapFree) (b := b)).cases s with ⟨fn, hfn⟩ | ⟨e, he⟩
  · refine .inl ⟨fn, ?_⟩
    rw [Prog.bind_of_ok hfn, Prog.bind_of_ok (xObjHeap_eq hb), Prog.get_bind,
      Prog.stateOf_bind fun _ _ => rfl]
  · rw [Prog.bind_of_error he]
    exact .inr rfl

theorem freeExtra_reads {full : Bool} : Prog.Reads (freeExtra full b) := by
  unfold freeExtra
  split
  · exact ((Field.get_reads.bind fun _ => xObjDataI_reads).bind fun _ => xObjDataI_reads).bind
      fun _ _ => rfl
  · exact fun _ => rfl

/-- A call that changes the memory only by these steps keeps `I`. -/
structure Framed (I : Sys → Prop) : Prop where
  setUnit : ∀ s p i w, I s → I (s.setUnit p i w)
  drop : ∀ s a p, I s → s.block a = some p → I ((s.drop p).dropBlock a)

theorem Framed.setXObjDataI (hI : Framed I) : Prog.Keeps I (setXObjDataI p i w) :=
  xObjDataI_reads.keeps.bind fun _ s hs => hI.setUnit s p i w hs

theorem Framed.bumpCount {d : Int} (hI : Framed I) : Prog.Keeps I (bumpCount b d) :=
  (Field.get_reads.bind fun _ => xObjDataI_reads).keeps.bind fun _ =>
    xObjDataI_reads.keeps.bind fun _ => hI.setXObjDataI

theorem Framed.xSysFree (hI : Framed I) : Prog.Keeps I (xSysFree a) := by
  intro s hs
  unfold XExpr.xSysFree
  split
  · exact hs
  · rw [Prog.get_bind]
    cases hb : s.block a with
    | some p => exact hI.drop s a p hs hb
    | none => exact hs

theorem Framed.freeOwned (hI : Framed I) : Prog.Keeps I (freeOwned p) :=
  xObjFlags_reads.keeps.bind fun _ =>
    .ite (xObjDataI_reads.keeps.bind fun _ => hI.xSysFree) (.pure _)

namespace Logged

theorem framed (hI : Logged I) : Framed I :=
  ⟨fun s _ _ _ => hI.same s _ trace_modify, fun s _ _ hs _ => hI.same s _ rfl hs⟩

theorem event (hI : Logged I) (ev : Event) : Prog.Keeps I (XExpr.log ev) := fun s => hI.log s ev

theorem xObjFree (hI : Logged I) : Prog.Keeps I (xObjFree b p) :=
  baseFull_reads.keeps.bind fun _ => freeExtra_reads.keeps.bind fun _ =>
    (Prog.Keeps.ite hI.framed.bumpCount (.pure _)).bind fun _ => hI.framed.freeOwned.bind fun _ =>
      xObjFlags_reads.keeps.bind fun _ => (hI.event _).bind fun _ => hI.framed.xSysFree

theorem walkLoop {prev node : Ptr} (hI : Logged I) (hin : env.FreeInert) (hst : Links store) :
    Prog.Keeps I (walkLoop env store F fn n b prev node) := by
  induction n generalizing b prev node with
  | zero => exact .throw _
  | succ n ih =>
    have hhook : Prog.Keeps I (callFreeFn env fn b node) :=
      .ite ((hI.event _).bind fun _ s hs => by rw [hin]; exact hs) (.pure _)
    have hset : ∀ w, Prog.Keeps I (store prev w) := fun w s hs => by
      rcases hst s prev w with h | ⟨-, e, h⟩ <;> rw [h]
      · exact hI.same s _ trace_modify hs
      · exact hs
    have hflags : ∀ g, Prog.Keeps I (setXObjFlags node g) := fun g =>
      deref_reads.keeps.bind fun _ s => hI.same s _ trace_modify
    unfold XExpr.walkLoop
    refine .ite (.pure _) (xObjFlags_reads.keeps.bind fun fl => .ite ?_ ?_)
    · exact (hflags _).bind fun _ => xObjHeap_reads.keeps.bind fun _ => ih
    · exact hhook.bind fun _ => xObjHeap_reads.keeps.bind fun _ => (hset _).bind fun _ =>
        hI.xObjFree.bind fun _ => ih

theorem sweepLoop {prev node : Ptr} (hI : Logged I) (hin : env.FreeInert) :
    Prog.Keeps I (sweepLoop env F fn n b prev node) := by
  rw [← walkLoop_setXObjHeap]
  exact hI.walkLoop hin links_setXObjHeap

end Logged

end Log

end XExpr
