import XExpr.Base.Refine
import XExpr.Heap.Limit

/-!
# The allocation ceiling

With a limit above 0 in its base, `x_obj_alloc` stops the process instead of handing out an object
when the count has reached the limit. It sets the limit to -1 first, since the error hook may jump
out or allocate itself.

* `AllocCall`: the calls that allocate on the base, with `AllocCall.Legal` for those that do not
  store into the units of the count, the limit and the way to them.
* `HookRun`: what an error hook may do, which is to return, to jump, and to allocate.
* `CeilingAt.latched`, `CeilingAt.refused`, `CeilingAt.below`: the three outcomes of a call.
* `CeilingStep`: what a program does with the base. `CeilingAt.step`: what that does to the ceiling.
* `ceiling_run`: the ceiling over all runs of calls, marks, stores, frees and sweeps.
-/

namespace XExpr

open Sys Relation
open Mem (chase walk)

/-! ## Calls -/

/-- A call that allocates an object. -/
inductive AllocCall
  | alloc (type : Ptr) (fl : Flags) (units : Nat)
  | make (type : Ptr) (fl : Flags) (data : List Word)
  | pushField (field value : Ptr) (fl : Flags)
  | push (args : Ptr)
  | markHookAdd (hook : Ptr)
  | freeHookAdd (hook : Ptr)
  | markRootAdd (root : Ptr)

def AllocCall.run (env : Env) (b : Ptr) : AllocCall → M Ptr
  | alloc type fl units => xObjAlloc env b type fl units
  | make type fl data => xObjMake env b type fl data
  | pushField field value fl => xObjPushField env b field value fl
  | push args => xObjPush env b args
  | markHookAdd hook => do xHeapMarkHookAdd env b hook; return nil
  | freeHookAdd hook => do xHeapFreeHookAdd env b hook; return nil
  | markRootAdd root => do xHeapMarkRootAdd env b root; return nil

/-- The address of a unit that is not on the way to the count and the limit. -/
def Sys.SlotFree (s : Sys) (b field : Ptr) : Prop :=
  ∃ q i w, xSlot field s = .ok (q, i) s ∧ s.unit q i = some w ∧ (q, i) ∉ s.ceilingUnits b

/-- So is the unit that holds the list of a field. -/
def Sys.ListFree (s : Sys) (b : Ptr) (f : Field) : Prop :=
  ∃ c, chase s.unit b f.path = some c ∧ s.SlotFree b (slotAddr c 0)

/-- A call that leaves the count and the limit to the allocator. -/
def AllocCall.Legal (s : Sys) (b : Ptr) : AllocCall → Prop
  | alloc _ _ _ | make _ _ _ => True
  | pushField field _ _ => s.SlotFree b field
  | push args => ∃ field value fl, PushArgs s args field value fl ∧ s.SlotFree b field
  | markHookAdd _ => s.ListFree b .heapMarkHooks
  | freeHookAdd _ => s.ListFree b .heapFreeHooks
  | markRootAdd _ => s.ListFree b .heapMarkRoots

/-- A run of an error hook. -/
inductive HookRun (env : Env) (b : Ptr) : Sys → EStateM.Result Stop Sys Unit → Prop
  | ret (s : Sys) : HookRun env b s (.ok () s)
  | jump (s : Sys) : HookRun env b s (.error .jump s)
  /-- A call that returned. -/
  | call {s s₁ : Sys} {p : Ptr} {r : EStateM.Result Stop Sys Unit} (c : AllocCall)
      (h : c.run env b s = .ok p s₁) (hr : HookRun env b s₁ r) : HookRun env b s r
  /-- A call that did not. -/
  | stop {s s₁ : Sys} {e : Stop} (c : AllocCall) (h : c.run env b s = .error e s₁) :
      HookRun env b s (.error e s₁)

/-- The error hook does nothing else when the ceiling has tripped. -/
def Env.HookAllocates (env : Env) (b : Ptr) : Prop :=
  ∀ fn message s, s.fieldInt b .allocLimit = some (-1) →
    HookRun env b s (env.errorFn fn b message nil s)

/-- What a program does with the base. A call that does not return may have been left by a jump. -/
inductive CeilingStep (env : Env) (b : Ptr) : Sys → Sys → Prop
  | call {s s' : Sys} {v : Ptr} {c : AllocCall} (hl : c.Legal s b)
      (h : c.run env b s = .ok v s') : CeilingStep env b s s'
  | jump {s s' : Sys} {c : AllocCall} (hl : c.Legal s b)
      (h : c.run env b s = .error .jump s') : CeilingStep env b s s'
  | mark {s s' : Sys} (h : s.Remarked s') : CeilingStep env b s s'
  /-- A store that leaves the count and the limit alone. -/
  | store {s : Sys} {p : Ptr} {i : Nat} {v w : Word} (hu : s.unit p i = some v)
      (hl : (p, i) ∉ s.ceilingUnits b) : CeilingStep env b s (s.setUnit p i w)
  /-- A block that is no object. -/
  | malloc {s s' : Sys} {a : Ptr} {size : Nat} (h : xSysMalloc env size s = .ok a s') :
      CeilingStep env b s s'
  | free {s s' : Sys} {p : Ptr} (hp : s.flagsOf p &&& xObjFlagShared = 0) (ho : s.OwnsNoObject)
      (hf : s.FreesOwn b s') (h : xObjFree b p s = .ok () s') : CeilingStep env b s s'
  /-- A sweep from any object. -/
  | sweep {s s' : Sys} {p r : Ptr} {F : Flags} (hF : F &&& xObjFlagShared = 0)
      (ho : s.OwnsNoObject) (hf : s.FreesOwn b s') (h : xHeapSweep env b p F s = .ok r s') :
      CeilingStep env b s s'

section Ceiling

variable {env : Env} {s s' : Sys} {b p q ty msg : Ptr} {limit v w : Word} {U : List (Ptr × Nat)}
  {fl : Flags} {units i : Nat} {n : Int} {f : Field}

/-! ### When the ceiling has tripped -/

/-- Every call that comes to allocating stops. -/
theorem CeilingBase.call_latched (env : Env) (h : CeilingBase s b limit) (hl : limit < 0)
    (c : AllocCall) : s.Stopped (c.run env b s) := by
  have halloc : ∀ ty fl units, s.Stopped (xObjAlloc env b ty fl units s) := fun ty fl units =>
    (h.xObjAlloc_latched env ty fl units hl).1
  have hmake : ∀ ty fl data, s.Stopped (xObjMake env b ty fl data s) := fun ty fl data =>
    (halloc ty fl data.length).bind
  have hpush : ∀ field value fl, s.Stopped (xObjPushField env b field value fl s) :=
    fun field value fl => .read xSlot_reads fun ⟨p, i⟩ => .read xObjDataI_reads fun old =>
      (hmake _ _ _).bind
  have hadd : ∀ (f : Field) v, s.Stopped (heapListAdd env f b v s) := fun f v =>
    .read f.get_reads fun c => (hpush _ _ _).bind
  cases c with
  | alloc ty fl units => exact halloc ty fl units
  | make ty fl data => exact hmake ty fl data
  | pushField field value fl => exact hpush field value fl
  | push args =>
    refine .read xObjDataI_reads fun a => .read xObjDataI_reads fun field => ?_
    refine .read xObjDataI_reads fun a => .read xObjDataI_reads fun value => ?_
    refine .read xObjDataI_reads fun a => .read xObjDataI_reads fun more => ?_
    split
    · exact hpush field value xObjFlagNone
    · refine .read ?_ fun fl => hpush field value fl
      rw [← bind_pure_comp]
      exact (xObjDataI_reads.bind fun _ => xObjDataI_reads).bind fun _ _ => rfl
  | markHookAdd hook => exact (hadd _ hook).bind
  | freeHookAdd hook => exact (hadd _ hook).bind
  | markRootAdd root => exact (hadd _ root).bind

/-- An error hook that is run when the ceiling has tripped leaves the memory alone. -/
theorem HookRun.latched {r : EStateM.Result Stop Sys Unit} (hr : HookRun env b s r)
    (h : CeilingBase s b limit) (hl : limit < 0) :
    s.Reported (Prog.stateOf r) ∧ hookCalls (Prog.stateOf r).trace = hookCalls s.trace := by
  cases hr with
  | ret => exact ⟨.refl s, rfl⟩
  | jump => exact ⟨.refl s, rfl⟩
  | call c hrun _ =>
    obtain ⟨e, s', he, -⟩ := h.call_latched env hl c
    rw [he] at hrun
    cases hrun
  | stop c hrun =>
    obtain ⟨e, s', he, hrep⟩ := h.call_latched env hl c
    rw [he] at hrun
    cases hrun
    exact hrep

/-- The report calls the error hook at most once. -/
theorem CeilingAt.reportError_latched (h : CeilingAt b (-1) U n s) (hhook : env.HookAllocates b)
    (msg : Ptr) : s.Reported (Prog.stateOf (reportError env b msg s)) ∧
      hookCalls (Prog.stateOf (reportError env b msg s)).trace ≤ hookCalls s.trace + 1 := by
  let P : Sys → Prop := fun s' => s.Reported s' ∧ hookCalls s'.trace ≤ hookCalls s.trace + 1
  have hstill : P s := ⟨.refl s, Nat.le_succ _⟩
  change P (Prog.stateOf (reportError env b msg s))
  unfold reportError
  split
  swap
  · exact hstill
  refine Prog.Reads.after (P := P) xObjDataI_reads hstill fun m => ?_
  unfold xObjError
  rw [Prog.bind_of_ok (xBaseIsset_run h.base.full.2), if_pos rfl]
  refine Prog.Reads.after (P := P) Field.obj_reads hstill fun hook => ?_
  dsimp only
  by_cases hn : hook = nil
  · rw [if_neg (not_not.mpr hn), if_neg (not_not.mpr rfl)]
    exact ⟨.error m nil, Nat.le_succ _⟩
  · rw [if_pos hn]
    refine Prog.Reads.after (P := P) xObjDataI_reads hstill fun fn => ?_
    have hcall : log (.errorHook m) s = .ok ⟨⟩ (s.log (.errorHook m)) := rfl
    rw [Prog.bind_of_ok hcall]
    have h₁ := h.reported (.errorHook m)
    obtain ⟨hr, hc⟩ := (hhook fn m _ h₁.base.limit_eq).latched h₁.base (by decide)
    exact ⟨(Sys.Reported.errorHook m).trans hr, (hc.trans hookCalls_errorHook).le⟩

/-! ### After the allocation -/

section After

variable {tr : List Event}

theorem setXObjDataI_keeps (ho : (p, i) ∉ U) :
    Prog.Keeps (fun s => CeilingAt b limit U n s ∧ s.trace = tr) (setXObjDataI p i w) := by
  rintro s ⟨h, htr⟩
  cases hu : s.unit p i with
  | some v =>
    rw [setXObjDataI_eq hu]
    exact ⟨h.setUnit hu ho, trace_modify.trans htr⟩
  | none =>
    rcases (xObjDataI_reads (p := p) (i := i)).cases s with ⟨v, hv⟩ | ⟨e, he⟩
    · rw [(xObjDataI_ok.mp hv).1] at hu
      cases hu
    · rw [setXObjDataI, Prog.bind_of_error he]
      exact ⟨h, htr⟩

theorem storeUnits_keeps {data : List Word} (hp : ∀ i, (p, i) ∉ U) :
    Prog.Keeps (fun s => CeilingAt b limit U n s ∧ s.trace = tr) (storeUnits p i data) := by
  induction data generalizing i with
  | nil => exact .pure _
  | cons w data ih => exact (setXObjDataI_keeps (hp i)).bind fun _ => ih

theorem storeUnits_faults {data : List Word} : Prog.Errors Stop.IsFault (storeUnits p i data) := by
  induction data generalizing i with
  | nil => exact .pure _
  | cons w data ih => exact setXObjDataI_faults.bind fun _ => ih

/-- A program that follows the allocation of an object on the base. -/
structure Follows (b : Ptr) (limit : Word) (U : List (Ptr × Nat)) {α : Type} (x : M α) : Prop where
  keeps : ∀ tr n, Prog.Keeps (fun s => CeilingAt b limit U n s ∧ s.trace = tr) x
  faults : Prog.Errors Stop.IsFault x

namespace Follows

variable {α β : Type} {x : M α} {g : α → M β}

theorem pure (a : α) : Follows b limit U (pure a) := ⟨fun _ _ => .pure a, .pure a⟩

theorem bind (hx : Follows b limit U x) (hg : ∀ a, Follows b limit U (g a)) :
    Follows b limit U (x >>= g) :=
  ⟨fun tr n => (hx.keeps tr n).bind fun a => (hg a).keeps tr n,
    hx.faults.bind fun a => (hg a).faults⟩

theorem read : Follows b limit U (xObjDataI p i) :=
  ⟨fun _ _ => xObjDataI_reads.keeps, xObjDataI_faults⟩

theorem store (ho : (p, i) ∉ U) : Follows b limit U (setXObjDataI p i w) :=
  ⟨fun _ _ => setXObjDataI_keeps ho, setXObjDataI_faults⟩

/-- What `x_obj_make` does with a new object. -/
theorem make {data : List Word} (hp : ∀ i, (p, i) ∉ U) : Follows b limit U
    (if p = nil then return nil else do storeUnits p 0 data; return p) := by
  split
  · exact .pure _
  · exact .bind ⟨fun _ _ => storeUnits_keeps hp, storeUnits_faults⟩ fun _ => .pure _

/-- What `x_obj_push_field` does with a new pair. -/
theorem push (ho : (q, i) ∉ U) :
    Follows b limit U (do setXObjDataI q i p; xFirst (← xObjDataI q i)) :=
  (store ho).bind fun _ => read.bind fun _ => read

end Follows

/-- Every legal call allocates one object, and does nothing to the count and the limit
afterwards. -/
theorem CeilingAt.factors (env : Env) (h : CeilingAt b limit U n s) {c : AllocCall}
    (hl : c.Legal s b) : ∃ ty fl units g,
      c.run env b s = (xObjAlloc env b ty fl units >>= g) s ∧
      ∀ p, (∀ i, (p, i) ∉ U) → Follows b limit U (g p) := by
  have hpush : ∀ {field : Ptr} (v : Ptr) (fl : Flags), s.SlotFree b field →
      ∃ ty fl' units g, xObjPushField env b field v fl s =
          (xObjAlloc env b ty fl' units >>= g) s ∧
        ∀ p, (∀ i, (p, i) ∉ U) → Follows b limit U (g p) := by
    rintro field v fl ⟨q, i, old, hs, hq, ho⟩
    refine ⟨xTypePairObj, fl, 2, fun p =>
      (if p = nil then return nil else do storeUnits p 0 [v, old]; return p) >>= fun new => do
        setXObjDataI q i new; xFirst (← xObjDataI q i), ?_,
      fun p hp => (Follows.make hp).bind fun _ => .push (h.units ▸ ho)⟩
    unfold xObjPushField
    rw [Prog.bind_of_ok hs]
    dsimp only
    rw [Prog.bind_of_ok (xObjDataI_eq hq)]
    exact congrFun (bind_assoc _ _ _) s
  have hadd : ∀ {f : Field} (v : Ptr), s.ListFree b f →
      ∃ ty fl' units g, (do heapListAdd env f b v; return nil : M Ptr) s =
          (xObjAlloc env b ty fl' units >>= g) s ∧
        ∀ p, (∀ i, (p, i) ∉ U) → Follows b limit U (g p) := by
    rintro f v ⟨c, hc, hs⟩
    obtain ⟨ty, fl, units, g, hrun, hg⟩ := hpush v xObjFlagNone hs
    refine ⟨ty, fl, units, fun p => g p >>= fun _ => return nil, ?_,
      fun p hp => (hg p hp).bind fun _ => .pure _⟩
    rw [← bind_assoc, ← Prog.bind_congr hrun]
    unfold heapListAdd
    rw [bind_assoc, Prog.bind_of_ok (Field.get_ok.mpr ⟨hc, rfl⟩), bind_assoc]
    rfl
  cases c with
  | alloc ty fl units => exact ⟨ty, fl, units, pure, by rw [bind_pure]; rfl, fun _ _ => .pure _⟩
  | make ty fl data => exact ⟨ty, fl, data.length, _, rfl, fun p hp => .make hp⟩
  | pushField field v fl => exact hpush v fl hl
  | push args =>
    obtain ⟨field, v, fl, ha, hs⟩ := hl
    obtain ⟨ty, fl', units, g, hrun, hg⟩ := hpush v fl hs
    exact ⟨ty, fl', units, g, (xObjPush_run ha).trans hrun, hg⟩
  | markHookAdd hook => exact hadd hook hl
  | freeHookAdd hook => exact hadd hook hl
  | markRootAdd root => exact hadd root hl

end After

/-! ### The outcomes of a call -/

/-- A refused call: the limit is set, and the report ends the call. -/
def AllocCall.Refused (env : Env) (b msg : Ptr) (n : Int) (s : Sys) (c : AllocCall) : Prop :=
  ∃ a e s', s.fieldObj b .allocLimit = some a ∧ c.run env b s = .error e s' ∧
    (do reportError env b msg; xSysExit 2; return nil : M Ptr) (s.setUnit a 0 (-1)) =
      .error e s' ∧
    (s.setUnit a 0 (-1)).Reported s' ∧ s'.fieldInt b .allocLimit = some (-1) ∧
    s'.fieldInt b .allocCount = some n

/-- What a step from `s` does to the limit, the count and the calls of the error hook. -/
def CeilingNext (b : Ptr) (limit : Word) (U : List (Ptr × Nat)) (s : Sys) (n : Int) (s' : Sys) :
    Prop :=
  ∃ lim n', CeilingAt b lim U n' s' ∧
    (lim = limit ∧ hookCalls s'.trace = hookCalls s.trace ∧
        (n' ≤ n ∨ n' = n + 1 ∧ 0 ≤ limit ∧ (0 < limit → n < limit)) ∨
      0 < limit ∧ lim = -1 ∧ hookCalls s'.trace ≤ hookCalls s.trace + 1 ∧ n' = n)

namespace CeilingAt

variable {c : AllocCall}

/-- When the ceiling has tripped, the process exits. -/
theorem latched (env : Env) (h : CeilingAt b limit U n s) (hl : c.Legal s b) (hneg : limit < 0)
    (hr : s.AllocReads b msg) (hm : msg = nil ∨ ∃ w, s.unit msg 0 = some w) :
    ∃ s', c.run env b s = .error (.exit 2) s' ∧ s.Reported s' ∧
      hookCalls s'.trace = hookCalls s.trace := by
  obtain ⟨ty, fl, units, g, hrun, -⟩ := h.factors env hl
  obtain ⟨s', ha, hs'⟩ := (h.base.xObjAlloc_latched env ty fl units hneg).2 msg hr hm
  exact ⟨s', hrun.trans (Prog.bind_of_error ha), hs'⟩

/-- At the ceiling, the limit is set, and the report ends the call. -/
theorem refused (h : CeilingAt b limit U n s) (hhook : env.HookAllocates b) (hl : c.Legal s b)
    (hr : s.AllocReads b msg) (hpos : 0 < limit) (hle : limit ≤ n) :
    c.Refused env b msg n s ∧ ∃ e s', c.run env b s = .error e s' ∧ CeilingAt b (-1) U n s' ∧
      hookCalls s'.trace ≤ hookCalls s.trace + 1 ∧ handedOut s'.trace = handedOut s.trace := by
  obtain ⟨ty, fl, units, g, hrun, -⟩ := h.factors env hl
  obtain ⟨a, ha, h', heq⟩ := h.xObjAlloc_refused env ty fl units g hr hpos hle
  obtain ⟨hrep, hcalls⟩ := h'.reportError_latched hhook msg
  have hout : ∃ e s', (do reportError env b msg; xSysExit 2; return nil : M Ptr)
      (s.setUnit a 0 (-1)) = .error e s' ∧
      s' = Prog.stateOf (reportError env b msg (s.setUnit a 0 (-1))) := by
    cases hr : reportError env b msg (s.setUnit a 0 (-1)) with
    | ok u s' => exact ⟨.exit 2, s', by rw [Prog.bind_of_ok hr]; rfl, rfl⟩
    | error e s' => exact ⟨e, s', Prog.bind_of_error hr, rfl⟩
  obtain ⟨e, s', he, rfl⟩ := hout
  have htrace : (s.setUnit a 0 (-1)).trace = s.trace := trace_modify
  have hat := h'.reported hrep
  have herr := hrun.trans (heq.trans he)
  exact ⟨⟨a, e, _, ha, herr, he, hrep, hat.base.limit_eq, hat.count⟩, e, _, herr, hat,
    htrace ▸ hcalls, hrep.handedOut.trans (congrArg handedOut htrace)⟩

/-- A call stops if the message or the number of extra units cannot be read. -/
theorem unread (env : Env) (h : CeilingAt b limit U n s) (hl : c.Legal s b)
    (hr : ¬ ∃ msg, s.AllocReads b msg) : ∃ e, c.run env b s = .error e s ∧ e.IsFault := by
  obtain ⟨ty, fl, units, g, hrun, -⟩ := h.factors env hl
  obtain ⟨msg, y, hr', -⟩ | ⟨-, e, he, hf⟩ := h.base.allocFields_cases
  · exact absurd ⟨msg, hr'⟩ hr
  · exact ⟨e, hrun.trans (Prog.bind_of_error (Prog.bind_of_error he)), hf⟩

/-- Below the ceiling, an object is counted, or the process stops without a call of the error
hook. -/
theorem below (env : Env) (h : CeilingAt b limit U n s) (hl : c.Legal s b) (hpos : 0 ≤ limit)
    (hlt : 0 < limit → n < limit) :
    (∃ v s', c.run env b s = .ok v s' ∧ CeilingAt b limit U (n + 1) s' ∧
      hookCalls s'.trace = hookCalls s.trace) ∨
    ∃ e s', c.run env b s = .error e s' ∧ e ≠ .jump ∧
      hookCalls s'.trace = hookCalls s.trace := by
  obtain ⟨ty, fl, units, g, hrun, hg⟩ := h.factors env hl
  rcases h.xObjAlloc_below env ty fl units hpos hlt with
    ⟨p, a, data, s₁, ha, hm⟩ | ⟨e, s', ha, he, hc⟩
  · obtain ⟨hp, h₁⟩ := h.made hm
    have hf := hg p hp
    have hcalls : hookCalls s₁.trace = hookCalls s.trace := by rw [hm.trace]; rfl
    rw [hrun, Prog.bind_of_ok ha]
    cases hr : g p s₁ with
    | ok v s' =>
      obtain ⟨h', htr⟩ := (hf.keeps s₁.trace (n + 1)).ok ⟨h₁, rfl⟩ hr
      exact .inl ⟨v, s', rfl, h', by rw [htr, hcalls]⟩
    | error e s' =>
      obtain ⟨-, htr⟩ := (hf.keeps s₁.trace (n + 1)).error ⟨h₁, rfl⟩ hr
      obtain ⟨f, rfl⟩ := hf.faults _ _ _ hr
      exact .inr ⟨_, s', rfl, Stop.noConfusion, by rw [htr, hcalls]⟩
  · exact .inr ⟨e, s', hrun.trans (Prog.bind_of_error ha), he, hc⟩

/-- A call that returns or is left by a jump. -/
theorem step_call (h : CeilingAt b limit U n s) (hhook : env.HookAllocates b) (hl : c.Legal s b)
    (hr : (∃ v, c.run env b s = .ok v s') ∨ c.run env b s = .error .jump s') :
    CeilingNext b limit U s n s' := by
  rcases lt_or_ge limit 0 with hneg | hpos
  · obtain ⟨e, s₁, hrun, hrep, hc⟩ := h.base.call_latched env hneg c
    rw [hrun] at hr
    obtain ⟨v, hr⟩ | hr := hr <;> cases hr
    exact ⟨limit, n, h.reported hrep, .inl ⟨rfl, hc, .inl le_rfl⟩⟩
  by_cases hfull : 0 < limit ∧ limit ≤ n
  · by_cases hread : ∃ msg, s.AllocReads b msg
    · obtain ⟨msg, hread⟩ := hread
      obtain ⟨-, e, s₁, hrun, h', hc, -⟩ := h.refused hhook hl hread hfull.1 hfull.2
      rw [hrun] at hr
      obtain ⟨v, hr⟩ | hr := hr <;> cases hr
      exact ⟨-1, n, h', .inr ⟨hfull.1, rfl, hc, rfl⟩⟩
    · obtain ⟨e, hrun, f, rfl⟩ := h.unread env hl hread
      rw [hrun] at hr
      obtain ⟨v, hr⟩ | hr := hr <;> cases hr
  · have hlt : 0 < limit → n < limit := fun h₀ => not_le.mp fun hle => hfull ⟨h₀, hle⟩
    rcases h.below env hl hpos hlt with ⟨v, s₁, hrun, h', hc⟩ | ⟨e, s₁, hrun, he, -⟩
    · rw [hrun] at hr
      obtain ⟨v, hr⟩ | hr := hr <;> cases hr
      exact ⟨limit, n + 1, h', .inl ⟨rfl, hc, .inr ⟨rfl, hpos, hlt⟩⟩⟩
    · rw [hrun] at hr
      obtain ⟨v, hr⟩ | hr := hr
      · cases hr
      · cases hr
        exact absurd rfl he

/-- Every step. -/
theorem step (h : CeilingAt b limit U n s) (hin : env.FreeInert) (hhook : env.HookAllocates b)
    (hs : CeilingStep env b s s') : CeilingNext b limit U s n s' := by
  have hquiet : ∀ {s₁ : Sys}, CeilingAt b limit U n s₁ → s₁.trace = s.trace →
      CeilingNext b limit U s n s₁ := fun h' htr =>
    ⟨limit, n, h', .inl ⟨rfl, by rw [htr], .inl le_rfl⟩⟩
  cases hs with
  | call hl hr => exact h.step_call hhook hl (.inl ⟨_, hr⟩)
  | jump hl hr => exact h.step_call hhook hl (.inr hr)
  | mark hr => exact hquiet (h.remarked hr) hr.trace
  | store hu hl => exact hquiet (h.setUnit hu (h.units ▸ hl)) trace_modify
  | malloc hr =>
    have hstill : ∀ {s₁ : Sys}, s₁.objs = s.objs → s₁.trace = s.trace →
        CeilingNext b limit U s n s₁ := fun {s₁} he htr => by
      have hobj : ∀ q, s₁.obj q = s.obj q := fun q => by rw [Sys.obj, he]; rfl
      refine hquiet (h.still (fun x _ => ?_) ?_ fun x _ hx => ?_) htr
      · simp only [Sys.unit, dataOf, hobj]
      · simp only [Sys.typeOf, hobj]
      · rwa [Sys.flagsOf, hobj]
    rw [xSysMalloc_eq] at hr
    split at hr <;> cases hr <;> exact hstill rfl rfl
  | free hp ho hf hr =>
    obtain ⟨h', -, -, ⟨a, ha⟩, -⟩ := h.xObjFree_ok hr hp ho hf
    exact ⟨limit, n - 1, h', .inl ⟨rfl, by rw [ha]; rfl, .inl (Int.sub_le_self n (by decide))⟩⟩
  | sweep hF ho hf hr =>
    obtain ⟨n', hle, h', hc⟩ := h.xHeapSweep_ok hin hF ho hr hf
    exact ⟨limit, n', h', .inl ⟨rfl, hc, .inl hle⟩⟩

end CeilingAt

/-! ### Runs -/

variable {s₀ : Sys} {n₀ : Int} {calls : Nat}

/-- The limit is as it was armed, or has tripped once. -/
def UnderCeiling (b : Ptr) (limit : Word) (U : List (Ptr × Nat)) (n₀ : Int) (calls : Nat)
    (s : Sys) : Prop :=
  ∃ lim n, CeilingAt b lim U n s ∧ n ≤ max limit n₀ ∧
    (lim = limit ∧ hookCalls s.trace = calls ∨ lim = -1 ∧ hookCalls s.trace ≤ calls + 1)

theorem UnderCeiling.step (h : UnderCeiling b limit U n₀ calls s) (hin : env.FreeInert)
    (hhook : env.HookAllocates b) (hpos : 0 < limit) (hs : CeilingStep env b s s') :
    UnderCeiling b limit U n₀ calls s' := by
  obtain ⟨lim, n, hb, hle, hlim⟩ := h
  obtain ⟨lim', n', hb', hnext⟩ := hb.step hin hhook hs
  refine ⟨lim', n', hb', ?_⟩
  rcases hlim with ⟨rfl, hc⟩ | ⟨rfl, hc⟩
  · rcases hnext with ⟨rfl, hc', hn'⟩ | ⟨-, rfl, hc', rfl⟩
    · refine ⟨?_, .inl ⟨rfl, hc'.trans hc⟩⟩
      rcases hn' with hn' | ⟨rfl, -, hlt⟩
      · exact hn'.trans hle
      · exact (Int.add_one_le_of_lt (hlt hpos)).trans (le_max_left _ _)
    · exact ⟨hle, .inr ⟨rfl, by rw [← hc]; exact hc'⟩⟩
  · rcases hnext with ⟨rfl, hc', hn'⟩ | ⟨hlt, -⟩
    · refine ⟨?_, .inr ⟨rfl, hc'.trans_le hc⟩⟩
      rcases hn' with hn' | ⟨-, hlt, -⟩
      · exact hn'.trans hle
      · exact absurd hlt (by decide)
    · exact absurd hlt (by decide)

/-- The ceiling has tripped for good. -/
theorem latched_run (h : CeilingAt b (-1) U n s) (hin : env.FreeInert)
    (hhook : env.HookAllocates b) (hr : ReflTransGen (CeilingStep env b) s s') :
    s'.fieldInt b .allocLimit = some (-1) := by
  obtain ⟨n', h'⟩ := Prog.invariant (I := fun s => ∃ n, CeilingAt b (-1) U n s)
    (fun s s' ⟨n, h⟩ hs => by
      obtain ⟨lim, n', h', hnext⟩ := h.step hin hhook hs
      rcases hnext with ⟨rfl, -⟩ | ⟨hlt, -⟩
      · exact ⟨n', h'⟩
      · exact absurd hlt (by decide)) hr ⟨n, h⟩
  exact h'.base.limit_eq

/-- On a full base that was armed with a limit, where nobody but the allocator writes the count, the
limit and the way to them, the count stays below the limit, or where it was. The first call at the
limit sets the limit and reports. From then on, every call stops the process. -/
theorem ceiling_run (hin : env.FreeInert) (hhook : env.HookAllocates b)
    (h : CeilingBase s₀ b limit) (hpos : 0 < limit) (hn₀ : s₀.fieldInt b .allocCount = some n₀)
    (hr : ReflTransGen (CeilingStep env b) s₀ s) :
    ∃ lim n, s.fieldInt b .allocLimit = some lim ∧ s.fieldInt b .allocCount = some n ∧
      n ≤ max limit n₀ ∧
      (lim = limit ∧ hookCalls s.trace = hookCalls s₀.trace ∨
        lim = -1 ∧ hookCalls s.trace ≤ hookCalls s₀.trace + 1) ∧
      (lim = -1 → ∀ s', ReflTransGen (CeilingStep env b) s s' →
        s'.fieldInt b .allocLimit = some (-1)) ∧
      (lim = -1 → ∀ c : AllocCall, s.Stopped (c.run env b s)) ∧
      ∀ c : AllocCall, c.Legal s b →
        hookCalls (Prog.stateOf (c.run env b s)).trace ≤ hookCalls s₀.trace + 1 ∧
        (handedOut (Prog.stateOf (c.run env b s)).trace ≠ handedOut s.trace →
          lim = limit ∧ n < limit) ∧
        (lim = limit → limit ≤ n → (∀ msg, s.AllocReads b msg → c.Refused env b msg n s) ∧
          ((¬ ∃ msg, s.AllocReads b msg) → ∃ e, c.run env b s = .error e s)) ∧
        (lim = -1 → ∀ msg, s.AllocReads b msg → (msg = nil ∨ ∃ w, s.unit msg 0 = some w) →
          ∃ s', c.run env b s = .error (.exit 2) s' ∧ s.Reported s' ∧
            hookCalls s'.trace = hookCalls s.trace) := by
  obtain ⟨lim, n, hb, hle, hlim⟩ := Prog.invariant
    (I := UnderCeiling b limit (s₀.ceilingUnits b) n₀ (hookCalls s₀.trace))
    (fun _ _ h hs => h.step hin hhook hpos hs) hr
    ⟨limit, n₀, ⟨h, rfl, hn₀⟩, le_max_right _ _, .inl ⟨rfl, rfl⟩⟩
  have hstop : lim = -1 → ∀ c : AllocCall, s.Stopped (c.run env b s) := fun hl c =>
    hb.base.call_latched env (by rw [hl]; decide) c
  -- At the ceiling nothing is handed out, and the error hook is called once.
  have href : ∀ c : AllocCall, c.Legal s b → lim = limit → limit ≤ n →
      hookCalls (Prog.stateOf (c.run env b s)).trace ≤ hookCalls s.trace + 1 ∧
        handedOut (Prog.stateOf (c.run env b s)).trace = handedOut s.trace := by
    rintro c hc rfl hle
    by_cases hread : ∃ msg, s.AllocReads b msg
    · obtain ⟨msg, hread⟩ := hread
      obtain ⟨-, e, s', hrun, -, hcalls, hout⟩ := hb.refused hhook hc hread hpos hle
      rw [hrun]
      exact ⟨hcalls, hout⟩
    · obtain ⟨e, hrun, -⟩ := hb.unread env hc hread
      rw [hrun]
      exact ⟨Nat.le_succ _, rfl⟩
  refine ⟨lim, n, hb.base.limit_eq, hb.count, hle, hlim, fun hl s' hr' => ?_, hstop,
    fun c hc => ⟨?_, fun hne => ?_, fun hl hle => ⟨fun msg hm => ?_, fun hm => ?_⟩,
      fun hl msg hr hm => ?_⟩⟩
  · subst hl
    exact latched_run hb hin hhook hr'
  · rcases hlim with ⟨rfl, hcalls⟩ | ⟨hl, hcalls⟩
    · rw [← hcalls]
      by_cases hle : lim ≤ n
      · exact (href c hc rfl hle).1
      · rcases hb.below env hc hpos.le fun _ => not_le.mp hle with
          ⟨v, s', hrun, -, hc'⟩ | ⟨e, s', hrun, -, hc'⟩ <;> rw [hrun, ← hc'] <;> exact Nat.le_succ _
    · obtain ⟨e, s', hrun, -, hc'⟩ := hstop hl c
      rw [hrun]
      exact hc'.trans_le hcalls
  · rcases hlim with ⟨hl, -⟩ | ⟨hl, -⟩
    · exact ⟨hl, not_le.mp fun hle => hne (href c hc hl hle).2⟩
    · obtain ⟨e, s', hrun, hrep, -⟩ := hstop hl c
      rw [hrun] at hne
      exact absurd hrep.handedOut hne
  · subst hl
    exact (hb.refused hhook hc hm hpos hle).1
  · obtain ⟨e, he, -⟩ := hb.unread env hc hm
    exact ⟨e, he⟩
  · exact hb.latched env hc (by rw [hl]; decide) hr hm

/-! ### An error hook that allocates -/

/-- The limit of a full base is the one that is read. -/
theorem allocFields_limit {l : AllocFields} (h : allocFields b s = .ok l s')
    (hlim : s.fieldInt b .allocLimit = some w) (hw : w ≤ 0) : l.limit ≤ 0 := by
  obtain ⟨rfl, hfull, -, hread⟩ := allocFields_ok h
  by_cases hf : s'.Full b
  · rw [(hread hf).1] at hlim
    rwa [Option.some.inj hlim]
  · unfold allocFields at h
    rw [Prog.bind_ok] at h
    obtain ⟨r, s₁, hr, h⟩ := h
    obtain ⟨rfl, rfl⟩ := baseFull_ok hr
    rw [decide_eq_false hf] at h
    cases h
    exact le_rfl

/-- Where the ceiling does not trip now, the error hook does not count. -/
theorem xObjAlloc_errorFn (env : Env) (fn : Word → Ptr → Word → Ptr → M Unit)
    (hlim : s.fieldInt b .allocLimit = some w) (hw : w ≤ 0) :
    xObjAlloc { env with errorFn := fn } b ty fl units s = xObjAlloc env b ty fl units s := by
  unfold xObjAlloc
  cases h : allocFields b s with
  | error e s' => rw [Prog.bind_of_error h, Prog.bind_of_error h]
  | ok l s' =>
    have hl := not_lt.mpr (allocFields_limit h hlim hw)
    rw [Prog.bind_of_ok h, Prog.bind_of_ok h]
    simp only [allocCeiling, if_neg hl]
    rfl

/-- An error hook that allocates an object. -/
def allocatingHook : Env :=
  { Env.plain fun _ => true with
    errorFn := fun _ b _ _ => do let _ ← xObjAlloc (.plain fun _ => true) b nil xObjFlagNone 1 }

theorem allocatingHook_allocates : allocatingHook.HookAllocates b := by
  intro fn message s hlim
  have heq : ∀ ty fl units, xObjAlloc allocatingHook b ty fl units s =
      xObjAlloc (.plain fun _ => true) b ty fl units s := fun ty fl units =>
    xObjAlloc_errorFn _ _ hlim (by decide)
  change HookRun allocatingHook b s
    ((xObjAlloc (.plain fun _ => true) b nil xObjFlagNone 1 >>= fun _ => pure ()) s)
  cases h : xObjAlloc (.plain fun _ => true) b nil xObjFlagNone 1 s with
  | ok p s' =>
    rw [Prog.bind_of_ok h]
    exact .call (.alloc nil xObjFlagNone 1) ((heq _ _ _).trans h) (.ret s')
  | error e s' =>
    rw [Prog.bind_of_error h]
    exact .stop (.alloc nil xObjFlagNone 1) ((heq _ _ _).trans h)

end Ceiling

/-! ### A push -/

section Push

variable {env : Env} {s : Sys} {b : Ptr} {t : Cells Word} {k : Ceiling}

/-- A value is pushed on a field. -/
theorem ReportingBase.push (env : Env) (h : ReportingBase s b t k) (hr : s.AllocReady b)
    (hg : env.malloc.grants s.requests = true) (hx : k.extra = 0) (f : Field) (v : Ptr)
    (fl : Flags) : ∃ node old s' t',
      s.unit node 0 = some old ∧ (Cells.atom b t).slot f.path = some (node, 0) ∧
      xObjPushField env b (slotAddr node 0) v fl s = .ok v s' ∧
      BaseTree s' b t' (Function.update k.cell f (.pair (.leaf (some v)) (k.cell f))) ∧
      s'.fieldObj b f = some v ∧ ∀ q i, s.Live q → q ∉ t.nodes → s'.unit q i = s.unit q i := by
  obtain ⟨node, old, -, -, hu, -, hmem, hslot, -⟩ := h.tree.nodeSlot f
  obtain ⟨c, -, hc, hcm, -, hcs, -⟩ := h.tree.fieldAtom (f := .allocCount) rfl
  have hnc : node ≠ c := by
    rintro rfl
    have e := Cells.slot_inj (c := .atom b t) h.tree.nodup hslot hcs
    have hne : f.path ≠ Field.allocCount.valuePath ++ [false] := by cases f <;> decide
    exact hne e
  have hextra : s.extraOf b = 0 := by
    rw [h.extraOf, hx]
    rfl
  obtain ⟨p, a, s₁, hrun, hm⟩ := xObjMake_full env xTypePairObj fl [v, old] hr hg (by
    rw [hextra]
    change 0 + 2 ≤ 2 ^ 59
    decide)
  have hold : ∀ q ∈ b :: t.nodes, q ≠ p := fun q hq e => hm.new (e ▸ h.tree.mem_live hq)
  have h₁ : BaseTree s₁ b t k.cell := by
    refine h.tree.count (g := (· + 1)) rfl fun q hq i => ?_
    rw [hm.unit_old q i (hold q hq)]
    simp only [hr.full, true_and]
  obtain ⟨node₁, old₁, d, -, hu₁, -, -, hslot₁, hsub, hl, hfit⟩ := h₁.nodeSlot f
  obtain rfl : node = node₁ := congrArg Prod.fst (Option.some.inj (hslot.symm.trans hslot₁))
  obtain rfl : old = old₁ := by
    have e := hu₁.symm.trans (hm.unit_old node 0 (hold node (.tail _ hmem)))
    rw [if_neg fun hf : s.Full b ∧ s.fieldObj b .allocCount = some node ∧ _ =>
      hnc (Option.some.inj (hf.2.1.symm.trans hc)), hu] at e
    exact (Option.some.inj e).symm
  obtain ⟨t', ht', -⟩ := h₁.consed (π := []) (p := p) (v := v) (f := f)
    (fun hp => hold p hp rfl) (by rw [Sys.unit, hm.data_new]; rfl)
    (by rw [Sys.unit, hm.data_new]; rfl) hu₁ (by rwa [List.append_nil]) (by rwa [List.append_nil])
    hfit
  rw [Layout.put_nil, hl] at ht'
  obtain ⟨w, d, hw, -, hd, hfit⟩ := ht'.value (Function.update_self f _ _)
  obtain rfl : d = .leaf (some v) := by
    cases d with
    | leaf x => exact congrArg Cells.leaf (Layout.leaf.inj hd)
    | atom => cases hd
    | pair => cases hd
  obtain rfl : w = v := hfit v rfl
  refine ⟨node, old, _, t', hu, hslot, xObjPushField_made (xSlot_run hu) hu hrun hm, ht', hw,
    fun q i hq hqt => ?_⟩
  rw [unit_setUnit hu₁, if_neg fun e : q = node ∧ _ => hqt (e.1 ▸ hmem),
    hm.unit_old q i fun e => hm.new (e ▸ hq),
    if_neg fun hf : s.Full b ∧ s.fieldObj b .allocCount = some q ∧ _ =>
      hqt (Option.some.inj (hf.2.1.symm.trans hc) ▸ hcm)]

end Push

/-- A base that was made on another, and armed with a limit of one object and a message. -/
theorem exists_nested_ceiling (env : Env) (hg : ∀ n, env.malloc.grants n = true) :
    ∃ (s s₁ s₂ s₃ : Sys) (parent b : Ptr) (t : Cells Word),
    xBaseMake env nil .standard s = .ok parent s₁ ∧ xBaseMake env parent .standard s₁ = .ok b s₂ ∧
    arm b xTypePairObj 8 1 s₂ = .ok () s₃ ∧ ReportingBase s₃ b t ⟨0, 1, 8, nil, nil⟩ ∧
    s₃.fieldInt b .allocCount = some 0 ∧ s₃.unit 8 0 = some 41 ∧ 8 ∉ t.nodes := by
  let s : Sys := Sys.empty.place 8 ⟨nil, xTypeAtomObj, xObjFlagNone, [], [41]⟩
  have hpos : nil < 8 := by decide
  have hu : s.unit 8 0 = some 41 := by rw [unit_place hpos, if_pos rfl]; rfl
  obtain ⟨parent, a, new, t₀, s₁, hrun₁, hm₁⟩ := xBaseMake_bare env .standard
    (s := s) (b := nil) (.inl rfl) (hg _)
  obtain ⟨tp, htp, -⟩ := hm₁.baseTree fun _ _ _ => hg _
  have hbare : s₁.Bare parent := .inr ⟨htp.live, hm₁.typeOf_base⟩
  obtain ⟨b, a', new', t₁, s₂, hrun₂, hm₂⟩ := xBaseMake_bare env .standard hbare (hg _)
  have hu₁ : s₁.unit 8 0 = some 41 := by
    rw [hm₁.unit_old (live_of_unit hu), if_neg fun h => not_full_nil h.1, hu]
  have hu₂ : s₂.unit 8 0 = some 41 := by
    rw [hm₂.unit_old (live_of_unit hu₁), if_neg fun h => hbare.not_full h.1, hu₁]
  have hnew : 8 ∉ new' := fun hq => (hm₂.fresh 8 (.tail _ hq)).2 (live_of_unit hu₁)
  obtain ⟨s₃, t, harm, hrep, hsub, hn, hold⟩ := hm₂.reportingBase (fun _ _ _ => hg _)
    (show xTypePairObj ≠ nil by decide) (.inr ⟨41, hu₂⟩) (.inl rfl) 1
  exact ⟨s, s₁, s₂, s₃, parent, b, t, hrun₁, hrun₂, harm, hrep, hn, (hold 8 0 hnew).trans hu₂,
    fun hq => hnew (hsub hq)⟩

/-- With a limit of 1, an atom that holds 41 is pushed on the field of the count. -/
theorem ceiling_pushed : ∃ (s s₁ s₂ s₃ s₄ : Sys) (parent b node : Ptr),
    xBaseMake (.plain fun _ => true) nil .standard s = .ok parent s₁ ∧
    xBaseMake (.plain fun _ => true) parent .standard s₁ = .ok b s₂ ∧
    arm b xTypePairObj 8 1 s₂ = .ok () s₃ ∧ CeilingBase s₃ b 1 ∧
    s₃.fieldInt b .allocCount = some 0 ∧
    AllocCall.run (.plain fun _ => true) b (.pushField (slotAddr node 0) 8 xObjFlagNone) s₃ =
      .ok 8 s₄ ∧
    s₄.fieldInt b .allocLimit = some 1 ∧ s₄.fieldInt b .allocCount = some 41 ∧
    ¬ (41 : Int) ≤ max 1 0 := by
  obtain ⟨s, s₁, s₂, s₃, parent, b, t, h₁, h₂, h₃, h, hn, hu, ht⟩ :=
    exists_nested_ceiling (.plain fun _ => true) fun _ => rfl
  obtain ⟨node, old, s₄, t', -, -, hrun, ht', hv, hold⟩ := h.push (.plain fun _ => true)
    (h.allocReady hn (by decide) fun _ => by decide) rfl rfl .allocCount 8 xObjFlagNone
  refine ⟨s, s₁, s₂, s₃, s₄, parent, b, node, h₁, h₂, h₃, h.ceilingBase, hn, hrun,
    ht'.fieldInt (f := .allocLimit) rfl, ?_, by decide⟩
  rw [fieldInt, hv, ← hu]
  exact hold 8 0 (live_of_unit hu) ht

/-- With a limit of 1 and a hook on `hook_error`, the second object is refused. -/
theorem ceiling_one : ∃ (s s₁ s₂ s₃ s₄ s₅ : Sys) (parent b node : Ptr) (e : Stop),
    xBaseMake allocatingHook nil .standard s = .ok parent s₁ ∧
    xBaseMake allocatingHook parent .standard s₁ = .ok b s₂ ∧
    arm b xTypePairObj 8 1 s₂ = .ok () s₃ ∧ s₃.fieldInt b .allocCount = some 0 ∧
    AllocCall.run allocatingHook b (.pushField (slotAddr node 0) 8 xObjFlagNone) s₃ = .ok 8 s₄ ∧
    s₄.fieldObj b .hookError = some 8 ∧ s₄.fieldInt b .allocCount = some 1 ∧
    AllocCall.run allocatingHook b (.alloc nil xObjFlagNone 1) s₄ = .error e s₅ ∧
    hookCalls s₅.trace ≤ hookCalls s₃.trace + 1 ∧ s₅.fieldInt b .allocLimit = some (-1) ∧
    s₅.fieldInt b .allocCount = some 1 := by
  obtain ⟨s, s₁, s₂, s₃, parent, b, t, h₁, h₂, h₃, h, hn, -⟩ :=
    exists_nested_ceiling allocatingHook fun _ => rfl
  obtain ⟨node, old, s₄, t', hu, hslot, hrun, ht', hv, -⟩ := h.push allocatingHook
    (h.allocReady hn (by decide) fun _ => by decide) rfl rfl .hookError 8 xObjFlagNone
  have hlegal : AllocCall.Legal s₃ b (.pushField (slotAddr node 0) 8 xObjFlagNone) := by
    obtain ⟨c, m, -, -, -, -, hc, -⟩ := h.tree.fieldAtom (f := .allocCount) rfl
    obtain ⟨a, m, -, -, -, -, ha, -⟩ := h.tree.fieldAtom (f := .allocLimit) rfl
    refine ⟨node, 0, old, xSlot_run hu, hu, fun hx => ?_⟩
    rcases mem_ceilingUnits.mp hx with hx | hx
    · exact h.tree.notMem_walk hslot hc (by decide) hx
    · exact h.tree.notMem_walk hslot ha (by decide) hx
  have hat : CeilingAt b 1 (s₃.ceilingUnits b) 0 s₃ := ⟨h.ceilingBase, rfl, hn⟩
  obtain ⟨v, s', hrun', h', -⟩ | ⟨e, s', hrun', -⟩ :=
    hat.below allocatingHook hlegal (by decide) fun _ => by decide
  swap
  · cases hrun.symm.trans hrun'
  obtain ⟨rfl, rfl⟩ : 8 = v ∧ s₄ = s' := by
    cases hrun.symm.trans hrun'
    exact ⟨rfl, rfl⟩
  have hreads : s₄.AllocReads b 8 :=
    ⟨⟨0, ht'.fieldInt (f := .objMetaExtra) rfl⟩, ht'.fieldObj (f := .allocError) rfl⟩
  obtain ⟨lim, n, hlim, hcount, -, -, -, -, hcalls⟩ := ceiling_run
    (show allocatingHook.FreeInert from fun _ _ _ _ => rfl) allocatingHook_allocates h.ceilingBase
    (by decide) hn (.single (.call hlegal hrun))
  obtain rfl := Option.some.inj (hlim.symm.trans h'.base.limit_eq)
  obtain rfl := Option.some.inj (hcount.symm.trans h'.count)
  obtain ⟨hcall, -, href, -⟩ := hcalls (.alloc nil xObjFlagNone 1) trivial
  obtain ⟨a, e, s₅, -, herr, -, -, hl, hc⟩ := (href rfl (by decide)).1 8 hreads
  rw [herr] at hcall
  exact ⟨s, s₁, s₂, s₃, s₄, s₅, parent, b, node, e, h₁, h₂, h₃, hn, hrun,
    hv, hcount, herr, hcall, hl, hc⟩

end XExpr
