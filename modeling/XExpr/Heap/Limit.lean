import XExpr.Heap.Placed

/-!
# A base with a limit

What `x_obj_alloc` does on a full base with a limit, for each of the three states of the limit.

* `CeilingBase`: a full base with a limit and a count. Nothing is said of its other fields, nor of
  where it stands on the chain of another base.
* `CeilingAt`: the same with the count and the units that lead to both. Allocation, frees, marks and
  stores elsewhere keep the units.
* `CeilingBase.xObjAlloc_latched`, `CeilingBase.xObjAlloc_refused`, `CeilingBase.xObjAlloc_below`:
  the limit has been reached before, it is reached now, it is not reached.
* `CeilingAt.xObjFree_ok`, `CeilingAt.sweepLoop_ok`: a free and a sweep lower the count, as long as
  they give back no block of another object.
* `ReportingBase`: a base whose message and error hook can be read as well.
* `arm`: the calls with which an embedder arms a base. `BaseMade.reportingBase`: so is a new base.
-/

namespace XExpr

open Sys
open Mem (chase walk)

/-! ## Events -/

/-- The calls of the error hook. -/
def hookCalls (tr : List Event) : Nat :=
  tr.countP fun ev => match ev with
    | .errorHook _ => true
    | _ => false

/-- The objects that `x_obj_alloc` made. -/
def handedOut (tr : List Event) : Nat :=
  tr.countP fun ev => match ev with
    | .objAlloc _ _ => true
    | _ => false

/-- `s'` is `s` after reports. -/
structure Sys.Reported (s s' : Sys) : Prop where
  objs : s'.objs = s.objs
  blocks : s'.blocks = s.blocks
  requests : s'.requests = s.requests
  trace : ∃ l, s'.trace = l ++ s.trace ∧
    ∀ ev ∈ l, (∃ m, ev = .errorHook m) ∨ ∃ m x, ev = .error m x

/-- The run stops, with nothing but a report that is not the error hook's. -/
def Sys.Stopped {α : Type} (s : Sys) (r : EStateM.Result Stop Sys α) : Prop :=
  ∃ e s', r = .error e s' ∧ s.Reported s' ∧ hookCalls s'.trace = hookCalls s.trace

section Reports

variable {s s' : Sys} {b : Ptr}

theorem hookCalls_errorHook {m : Word} {tr : List Event} :
    hookCalls (.errorHook m :: tr) = hookCalls tr + 1 := List.countP_cons_of_pos rfl

namespace Sys.Reported

theorem refl (s : Sys) : s.Reported s := ⟨rfl, rfl, rfl, [], rfl, fun _ h => nomatch h⟩

theorem trans {s₁ : Sys} (h : s.Reported s₁) (h' : s₁.Reported s') : s.Reported s' := by
  obtain ⟨l, hl, he⟩ := h.trace
  obtain ⟨l', hl', he'⟩ := h'.trace
  refine ⟨h'.objs.trans h.objs, h'.blocks.trans h.blocks, h'.requests.trans h.requests, l' ++ l,
    by rw [hl', hl, List.append_assoc], fun ev hev => ?_⟩
  exact (List.mem_append.mp hev).elim (he' ev) (he ev)

theorem errorHook (m : Word) : s.Reported (s.log (.errorHook m)) :=
  ⟨rfl, rfl, rfl, [_], rfl, fun _ h => .inl ⟨m, List.mem_singleton.mp h⟩⟩

theorem error (m x : Word) : s.Reported (s.log (.error m x)) :=
  ⟨rfl, rfl, rfl, [_], rfl, fun _ h => .inr ⟨m, x, List.mem_singleton.mp h⟩⟩

theorem obj (h : s.Reported s') (q : Ptr) : s'.obj q = s.obj q := by rw [Sys.obj, h.objs]; rfl

theorem unit (h : s.Reported s') : s'.unit = s.unit := by
  funext q i
  simp only [Sys.unit, dataOf, h.obj]

theorem handedOut (h : s.Reported s') : handedOut s'.trace = handedOut s.trace := by
  obtain ⟨l, hl, he⟩ := h.trace
  rw [XExpr.handedOut, hl, List.countP_append, List.countP_eq_zero.mpr fun ev hev => ?_,
    Nat.zero_add]
  · rfl
  · obtain ⟨m, rfl⟩ | ⟨m, x, rfl⟩ := he ev hev <;> exact Bool.false_ne_true

end Sys.Reported

namespace Sys.Stopped

variable {α β : Type} {x : M α} {g : α → M β}

theorem error {e : Stop} (h : x s = .error e s) : s.Stopped (x s) := ⟨e, s, h, .refl s, rfl⟩

theorem bind (h : s.Stopped (x s)) : s.Stopped ((x >>= g) s) := by
  obtain ⟨e, s', he, hr⟩ := h
  exact ⟨e, s', Prog.bind_of_error he, hr⟩

theorem read (hx : Prog.Reads x) (h : ∀ a, s.Stopped (g a s)) : s.Stopped ((x >>= g) s) := by
  rcases hx.cases s with ⟨a, ha⟩ | ⟨e, he⟩
  · rw [Prog.bind_of_ok ha]
    exact h a
  · exact ⟨e, s, Prog.bind_of_error he, .refl s, rfl⟩

end Sys.Stopped

/-- The message is written, past the error hook. -/
theorem reportDirect_cases (msg : Ptr) (s : Sys) :
    (∃ s', reportDirect msg s = .ok () s' ∧ s.Reported s' ∧
      hookCalls s'.trace = hookCalls s.trace) ∨
    (msg ≠ nil ∧ s.unit msg 0 = none ∧ ∃ e, reportDirect msg s = .error e s ∧ e.IsFault) := by
  unfold reportDirect
  by_cases hm : msg = nil
  · exact .inl ⟨s, by rw [if_neg (not_not.mpr hm)]; rfl, .refl s, rfl⟩
  rw [if_pos hm]
  cases hu : s.unit msg 0 with
  | some w =>
    refine .inl ⟨s.log (.error w nil), ?_, .error w nil, rfl⟩
    rw [Prog.bind_of_ok (xFirst_eq hu)]
    rfl
  | none =>
    refine .inr ⟨hm, rfl, ?_⟩
    rcases (xObjDataI_reads (p := msg) (i := 0)).cases s with ⟨v, hv⟩ | ⟨e, he⟩
    · rw [(xObjDataI_ok.mp hv).1] at hu
      cases hu
    · exact ⟨e, Prog.bind_of_error he, xObjDataI_faults _ _ _ he⟩

end Reports

/-! ## The base -/

/-- The paths to the count and to the limit. -/
def ceilingPaths : List (List Bool) :=
  [Field.allocCount.valuePath ++ [false], Field.allocLimit.valuePath ++ [false]]

/-- The units that these paths read. -/
def Sys.ceilingUnits (s : Sys) (b : Ptr) : List (Ptr × Nat) :=
  ceilingPaths.flatMap (walk s.unit b)

/-- The integer of `f` is not in a unit on the way to it, nor in one that is read for `g`. -/
def Sys.Apart (s : Sys) (b : Ptr) (f g : Field) : Prop :=
  ∀ a, s.fieldObj b f = some a →
    (a, 0) ∉ walk s.unit b f.valuePath ∧ (a, 0) ∉ walk s.unit b (g.valuePath ++ [false])

/-- The full base `b`, with a limit and a count in objects that no sweep frees. -/
structure CeilingBase (s : Sys) (b : Ptr) (limit : Word) : Prop where
  typed : s.typeOf b ≠ nil
  limit_eq : s.fieldInt b .allocLimit = some limit
  count : ∃ n, s.fieldInt b .allocCount = some n
  apart : s.Apart b .allocCount .allocLimit
  latch : s.Apart b .allocLimit .allocCount
  shared : ∀ x ∈ s.ceilingUnits b, x.1 = b ∨ s.flagsOf x.1 &&& xObjFlagShared ≠ 0

/-- The base with its count, and the units that lead to both. -/
structure CeilingAt (b : Ptr) (limit : Word) (U : List (Ptr × Nat)) (n : Int) (s : Sys) :
    Prop where
  base : CeilingBase s b limit
  units : s.ceilingUnits b = U
  count : s.fieldInt b .allocCount = some n

/-- What `x_obj_alloc` reads of the base besides: the trip message is `msg`. -/
def Sys.AllocReads (s : Sys) (b msg : Ptr) : Prop :=
  (∃ x, s.fieldInt b .objMetaExtra = some x) ∧ s.fieldObj b .allocError = some msg

/-- An object that is not shared owns no block of an object. -/
def Sys.OwnsNoObject (s : Sys) : Prop :=
  ∀ q w p, s.flagsOf q &&& xObjFlagShared = 0 → s.Owns q w → s.block w = some p → p = nil

/-- From `s` to `s'` the base is not freed, and no block of another object is given back. -/
def Sys.FreesOwn (s : Sys) (b : Ptr) (s' : Sys) : Prop :=
  ∃ l, s'.trace = l ++ s.trace ∧
    ∀ p a, .objFree p a ∈ l → p ≠ b ∧ ∀ q, s.block a = some q → q = p

/-- What allocation and sweeps read in a base. -/
structure Ceiling where
  extra : Word
  limit : Word
  msg : Ptr
  hook : Ptr
  free : Ptr

/-- The cells that the ceiling depends on. -/
def Ceiling.cell (k : Ceiling) : Field → Layout Word
  | .objMetaExtra => cellInt (some k.extra)
  | .allocCount => cellInt none
  | .allocLimit => cellInt (some k.limit)
  | .allocError => cellObj (some k.msg)
  | .hookError => cellObj (some k.hook)
  | .heapFree => cellObj (some k.free)
  | .heapMarkHooks | .heapFreeHooks | .heapMarkRoots => cellObj none
  | _ => anyWord

/-- The same with another limit. -/
def Ceiling.withLimit (k : Ceiling) (lim : Word) : Ceiling := { k with limit := lim }

/-- A full base whose message and error hook can be read as well. -/
structure ReportingBase (s : Sys) (b : Ptr) (t : Cells Word) (k : Ceiling) : Prop where
  tree : BaseTree s b t k.cell
  typed : s.typeOf b ≠ nil
  shared : ∀ q ∈ t.nodes, s.flagsOf q &&& xObjFlagShared ≠ 0
  msg : k.msg = nil ∨ ∃ w, s.unit k.msg 0 = some w
  hook : k.hook = nil ∨ ∃ w, s.unit k.hook 0 = some w

section Ceiling

variable {env : Env} {s s' : Sys} {b p q a c ty msg prev node : Ptr} {t : Cells Word}
  {cell : Field → Layout Word} {limit limit' : Word} {U : List (Ptr × Nat)} {fl F : Flags}
  {units i : Nat} {v w : Word} {n n' : Int} {f : Field} {x : Ptr × Nat}

theorem mem_ceilingUnits : x ∈ s.ceilingUnits b ↔
    x ∈ walk s.unit b (Field.allocCount.valuePath ++ [false]) ∨
      x ∈ walk s.unit b (Field.allocLimit.valuePath ++ [false]) := by
  simp only [ceilingUnits, ceilingPaths, List.flatMap_cons, List.flatMap_nil, List.append_nil,
    List.mem_append]

namespace CeilingBase

theorem full (h : CeilingBase s b limit) : s.Full b := by
  refine ⟨h.typed, ?_⟩
  obtain ⟨n, hn⟩ := h.count
  rw [Sys.fieldInt_eq] at hn
  obtain ⟨u, hu, hn⟩ := Option.bind_eq_some_iff.mp hn
  obtain ⟨v, hv, -⟩ := Option.bind_eq_some_iff.mp hn
  change s.unit b 0 = some u at hu
  rw [IsSet, hu]
  exact (live_of_unit hv).ne_nil

/-- What leads to the limit and to the count is there. -/
theorem live (h : CeilingBase s b limit) (hx : x ∈ s.ceilingUnits b) : s.Live x.1 := by
  obtain ⟨n, hn⟩ := h.count
  rcases mem_ceilingUnits.mp hx with hx | hx
  · obtain ⟨v, hv⟩ := Mem.walk_some (Sys.fieldInt_eq.symm.trans hn) hx
    exact live_of_unit hv
  · obtain ⟨v, hv⟩ := Mem.walk_some (Sys.fieldInt_eq.symm.trans h.limit_eq) hx
    exact live_of_unit hv

/-- The unit of the limit. -/
theorem limitUnit (h : CeilingBase s b limit) : ∃ a, s.fieldObj b .allocLimit = some a ∧
    s.unit a 0 = some limit ∧ (a, 0) ∈ s.ceilingUnits b := by
  obtain ⟨a, ha, hu⟩ := Option.bind_eq_some_iff.mp h.limit_eq
  exact ⟨a, ha, hu, mem_ceilingUnits.mpr (.inr (Mem.mem_walk_of_chase ha))⟩

end CeilingBase

namespace CeilingAt

/-- The unit of the count. -/
theorem countUnit (h : CeilingAt b limit U n s) : ∃ c, s.fieldObj b .allocCount = some c ∧
    s.unit c 0 = some n ∧ (c, 0) ∈ s.ceilingUnits b := by
  obtain ⟨c, hc, hu⟩ := Option.bind_eq_some_iff.mp h.count
  exact ⟨c, hc, hu, mem_ceilingUnits.mpr (.inl (Mem.mem_walk_of_chase hc))⟩

/-- Of all units that lead to the limit and to the count, a step changes these two. -/
theorem change (h : CeilingAt b limit U n s) (hc : s.fieldObj b .allocCount = some c)
    (ha : s.fieldObj b .allocLimit = some a)
    (hunit : ∀ x ∈ s.ceilingUnits b, s'.unit x.1 x.2 =
      if x = (c, 0) then some n' else if x = (a, 0) then some limit' else s.unit x.1 x.2)
    (htype : s'.typeOf b = s.typeOf b)
    (hshared : ∀ x ∈ s.ceilingUnits b, s.flagsOf x.1 &&& xObjFlagShared ≠ 0 →
      s'.flagsOf x.1 &&& xObjFlagShared ≠ 0) : CeilingAt b limit' U n' s' := by
  have hwalk : ∀ f : Field, f = .allocCount ∨ f = .allocLimit → ∀ x ∈ walk s.unit b f.valuePath,
      s'.unit x.1 x.2 = s.unit x.1 x.2 := by
    rintro f (rfl | rfl) x hx
    · rw [hunit x (mem_ceilingUnits.mpr (.inl (Mem.walk_subset_append hx))), if_neg, if_neg]
      · exact fun e => (h.base.latch a ha).2 (e ▸ Mem.walk_subset_append hx)
      · exact fun e => (h.base.apart c hc).1 (e ▸ hx)
    · rw [hunit x (mem_ceilingUnits.mpr (.inr (Mem.walk_subset_append hx))), if_neg, if_neg]
      · exact fun e => (h.base.latch a ha).1 (e ▸ hx)
      · exact fun e => (h.base.apart c hc).2 (e ▸ Mem.walk_subset_append hx)
  have hobj : ∀ f : Field, f = .allocCount ∨ f = .allocLimit → s'.fieldObj b f = s.fieldObj b f :=
    fun f hf => Mem.chase_congr (hwalk f hf)
  have hfull : ∀ f : Field, f = .allocCount ∨ f = .allocLimit →
      walk s'.unit b (f.valuePath ++ [false]) = walk s.unit b (f.valuePath ++ [false]) := by
    intro f hf
    obtain ⟨p, hp⟩ : ∃ p, s.fieldObj b f = some p := by
      rcases hf with rfl | rfl
      · exact ⟨c, hc⟩
      · exact ⟨a, ha⟩
    rw [Mem.walk_concat (show chase s'.unit b f.valuePath = some p from (hobj f hf).trans hp),
      Mem.walk_concat (show chase s.unit b f.valuePath = some p from hp),
      Mem.walk_congr (hwalk f hf)]
  have hunits : s'.ceilingUnits b = s.ceilingUnits b := by
    simp only [ceilingUnits, ceilingPaths, List.flatMap_cons, List.flatMap_nil, hfull _ (.inl rfl),
      hfull _ (.inr rfl)]
  obtain ⟨c', hc', -, hcu⟩ := h.countUnit
  obtain rfl : c = c' := Option.some.inj (hc.symm.trans hc')
  obtain ⟨a', ha', -, hau⟩ := h.base.limitUnit
  obtain rfl : a = a' := Option.some.inj (ha.symm.trans ha')
  have hne : (a, 0) ≠ (c, 0) := fun e =>
    (h.base.apart c hc).2 (e ▸ Mem.mem_walk_of_chase (b := false) ha)
  have hcount : s'.fieldInt b .allocCount = some n' := by
    rw [Sys.fieldInt, hobj _ (.inl rfl), hc, Option.bind_some, hunit _ hcu, if_pos rfl]
  have hlimit : s'.fieldInt b .allocLimit = some limit' := by
    rw [Sys.fieldInt, hobj _ (.inr rfl), ha, Option.bind_some, hunit _ hau, if_neg hne, if_pos rfl]
  refine ⟨⟨htype ▸ h.base.typed, hlimit, ⟨n', hcount⟩, fun p hp => ?_, fun p hp => ?_,
    fun x hx => ?_⟩, hunits.trans h.units, hcount⟩
  · rw [hobj _ (.inl rfl)] at hp
    rw [Mem.walk_congr (hwalk _ (.inl rfl)), hfull _ (.inr rfl)]
    exact h.base.apart p hp
  · rw [hobj _ (.inr rfl)] at hp
    rw [Mem.walk_congr (hwalk _ (.inr rfl)), hfull _ (.inl rfl)]
    exact h.base.latch p hp
  · rw [hunits] at hx
    exact (h.base.shared x hx).imp id (hshared x hx)

/-- A step that leaves all of them alone. -/
theorem still (h : CeilingAt b limit U n s)
    (hunit : ∀ x ∈ U, s'.unit x.1 x.2 = s.unit x.1 x.2) (htype : s'.typeOf b = s.typeOf b)
    (hshared : ∀ x ∈ U, s.flagsOf x.1 &&& xObjFlagShared ≠ 0 →
      s'.flagsOf x.1 &&& xObjFlagShared ≠ 0) : CeilingAt b limit U n s' := by
  obtain ⟨c, hc, hcn, -⟩ := h.countUnit
  obtain ⟨a, ha, hal, -⟩ := h.base.limitUnit
  rw [← h.units] at hunit hshared
  refine h.change hc ha (fun x hx => ?_) htype hshared
  rw [hunit x hx]
  split
  · next e => rw [e, hcn]
  · split
    · next e => rw [e, hal]
    · rfl

theorem reported (h : CeilingAt b limit U n s) (hr : s.Reported s') :
    CeilingAt b limit U n s' :=
  h.still (fun x _ => by rw [hr.unit]) (by rw [typeOf, hr.obj]; rfl)
    fun x _ hx => by rwa [flagsOf, hr.obj]

theorem remarked (h : CeilingAt b limit U n s) (hr : s.Remarked s') : CeilingAt b limit U n s' :=
  h.still (fun x _ => by rw [hr.same.unit]) hr.same.typeOf fun x _ hx => by
    rwa [hr.flags_and (by decide)]

/-- A store elsewhere. -/
theorem setUnit (h : CeilingAt b limit U n s) (hu : s.unit p i = some v) (ho : (p, i) ∉ U) :
    CeilingAt b limit U n (s.setUnit p i w) := by
  refine h.still (fun x hx => ?_) typeOf_setUnit fun x _ hx => by rwa [flagsOf_setUnit]
  rw [unit_setUnit hu, if_neg]
  exact fun e => ho (by rw [← e.1, ← e.2]; exact hx)

/-- A step that changes the count by `d`. -/
theorem bump {d : Int} (h : CeilingAt b limit U n s) (hunit : ∀ x ∈ U, s'.unit x.1 x.2 =
      if s.Full b ∧ s.fieldObj b .allocCount = some x.1 ∧ x.2 = 0 then (s.unit x.1 0).map (· + d)
      else s.unit x.1 x.2) (htype : s'.typeOf b = s.typeOf b)
    (hflags : ∀ x ∈ U, s'.flagsOf x.1 = s.flagsOf x.1) : CeilingAt b limit U (n + d) s' := by
  obtain ⟨c, hc, hcn, -⟩ := h.countUnit
  obtain ⟨a, ha, hal, -⟩ := h.base.limitUnit
  rw [← h.units] at hunit hflags
  refine h.change hc ha (fun x hx => ?_) htype fun x hx hs => by rwa [hflags x hx]
  rw [hunit x hx, hc]
  by_cases hx : x = (c, 0)
  · rw [if_pos hx, if_pos ⟨h.base.full, by rw [hx], by rw [hx]⟩, hx, hcn]
    rfl
  · rw [if_neg hx, if_neg fun hf => hx (Prod.ext (Option.some.inj hf.2.1).symm hf.2.2)]
    split
    · next e => rw [e, hal]
    · rfl

/-- A new object on the base. -/
theorem made {data : List Word} (h : CeilingAt b limit U n s)
    (hm : Made s b ty fl data p a s') : (∀ i, (p, i) ∉ U) ∧ CeilingAt b limit U (n + 1) s' := by
  have hold : ∀ x ∈ U, x.1 ≠ p := fun x hx e => hm.new (e ▸ h.base.live (h.units ▸ hx))
  exact ⟨fun i hi => hold _ hi rfl, h.bump (fun x hx => hm.unit_old x.1 x.2 (hold x hx))
    (hm.typeOf_old b fun e => hm.new (e ▸ h.base.full.live)) fun x hx =>
      hm.flagsOf_old x.1 (hold x hx)⟩

/-- The limit is assigned. -/
theorem setLimit (h : CeilingAt b limit U n s) (lim : Word) :
    ∃ a, s.fieldObj b .allocLimit = some a ∧
      Field.allocLimit.setInt b lim s = .ok () (s.setUnit a 0 lim) ∧
      CeilingAt b lim U n (s.setUnit a 0 lim) := by
  obtain ⟨c, hc, hcn, -⟩ := h.countUnit
  obtain ⟨a, ha, hal, -⟩ := h.base.limitUnit
  refine ⟨a, ha, Field.setInt_ok.mpr ⟨a, ha, ⟨limit, hal⟩, rfl⟩,
    h.change hc ha (fun x hx => ?_) typeOf_setUnit fun x _ hs => by rwa [flagsOf_setUnit]⟩
  have hne : (a, 0) ≠ (c, 0) := fun e =>
    (h.base.apart c hc).2 (e ▸ Mem.mem_walk_of_chase (b := false) ha)
  rw [unit_setUnit hal]
  by_cases hx : x = (a, 0)
  · rw [if_pos ⟨congrArg Prod.fst hx, congrArg Prod.snd hx⟩, if_neg (hx ▸ hne), if_pos hx]
  · rw [if_neg fun e => hx (Prod.ext e.1 e.2), if_neg hx]
    split
    · next e => rw [e, hcn]
    · rfl

end CeilingAt

/-! ### Requests -/

namespace CeilingBase

/-- The other fields can be read, or an allocation stops before it does anything. -/
theorem allocFields_cases (h : CeilingBase s b limit) :
    (∃ msg y, s.AllocReads b msg ∧ allocFields b s = .ok ⟨true, y, limit, msg⟩ s) ∨
    (¬ ∃ msg, s.AllocReads b msg) ∧ ∃ e, allocFields b s = .error e s ∧ e.IsFault := by
  unfold allocFields
  rw [Prog.bind_of_ok (baseFull_run h.full), if_pos rfl]
  rcases (Field.int_reads (f := .objMetaExtra) (b := b)).cases s with ⟨y, hy⟩ | ⟨e, he⟩
  swap
  · refine .inr ⟨fun ⟨msg, ⟨y, hy⟩, _⟩ => ?_, e, Prog.bind_of_error he, Field.int_faults _ _ _ he⟩
    cases he.symm.trans (Field.int_run hy)
  rw [Prog.bind_of_ok hy, Prog.bind_of_ok (Field.int_run h.limit_eq)]
  rcases (Field.obj_reads (f := .allocError) (b := b)).cases s with ⟨msg, hm⟩ | ⟨e, he⟩
  · rw [Prog.bind_of_ok hm]
    exact .inl ⟨msg, toSizeT y, ⟨⟨y, (Field.int_ok.mp hy).1⟩, (Field.obj_ok.mp hm).1⟩, rfl⟩
  · refine .inr ⟨fun ⟨msg, _, hm⟩ => ?_, e, Prog.bind_of_error he, Field.obj_faults _ _ _ he⟩
    cases he.symm.trans (Field.obj_run hm)

theorem allocFields_run (h : CeilingBase s b limit) (hr : s.AllocReads b msg) :
    ∃ y, allocFields b s = .ok ⟨true, y, limit, msg⟩ s := by
  obtain ⟨msg', y, hr', hrun⟩ | ⟨hno, -⟩ := h.allocFields_cases
  · obtain rfl : msg = msg' := Option.some.inj (hr.2.symm.trans hr'.2)
    exact ⟨y, hrun⟩
  · exact absurd ⟨msg, hr⟩ hno

/-- An allocation stops the process without a call of the error hook. -/
theorem xObjAlloc_latched (env : Env) (ty : Ptr) (fl : Flags) (units : Nat)
    (h : CeilingBase s b limit) (hl : limit < 0) :
    s.Stopped (xObjAlloc env b ty fl units s) ∧
    ∀ msg, s.AllocReads b msg → (msg = nil ∨ ∃ w, s.unit msg 0 = some w) →
      ∃ s', xObjAlloc env b ty fl units s = .error (.exit 2) s' ∧ s.Reported s' ∧
        hookCalls s'.trace = hookCalls s.trace := by
  obtain ⟨msg, y, hr, hrun⟩ | ⟨hno, e, he, -⟩ := h.allocFields_cases
  swap
  · exact ⟨.error (Prog.bind_of_error he), fun msg hr => absurd ⟨msg, hr⟩ hno⟩
  have hstop : ∀ {e s'}, allocTripped ⟨true, y, limit, msg⟩ s = .error e s' →
      xObjAlloc env b ty fl units s = .error e s' := fun he => by
    unfold xObjAlloc
    rw [Prog.bind_of_ok hrun, Prog.bind_of_error he]
  unfold allocTripped at hstop
  rw [if_pos hl] at hstop
  rcases reportDirect_cases msg s with ⟨s', hrep, hs', hc⟩ | ⟨hm, hu, e, hrep, -⟩
  · have hexit : xObjAlloc env b ty fl units s = .error (.exit 2) s' :=
      hstop (Prog.bind_of_ok hrep)
    exact ⟨⟨_, s', hexit, hs', hc⟩, fun _ _ _ => ⟨s', hexit, hs', hc⟩⟩
  · refine ⟨.error (hstop (Prog.bind_of_error hrep)), fun msg' hr' hread => ?_⟩
    obtain rfl : msg = msg' := Option.some.inj (hr.2.symm.trans hr'.2)
    obtain ⟨w, hw⟩ := hread.resolve_left hm
    cases hu.symm.trans hw

/-- Below the ceiling the fields lead to `malloc`. -/
theorem allocCeiling_below (env : Env) (msg : Ptr) (y : Nat)
    (hn : s.fieldInt b .allocCount = some n) (hpos : 0 ≤ limit) (hlt : 0 < limit → n < limit) :
    allocTripped ⟨true, y, limit, msg⟩ s = .ok () s ∧
      allocCeiling env b ⟨true, y, limit, msg⟩ s = .ok () s := by
  unfold allocTripped allocCeiling
  refine ⟨by rw [if_neg (not_lt.mpr hpos)]; rfl, ?_⟩
  by_cases h₀ : 0 < limit
  · rw [if_pos h₀, Prog.bind_of_ok (Field.int_run hn), if_neg (not_le.mpr (hlt h₀))]
    rfl
  · rw [if_neg h₀]
    rfl

end CeilingBase

namespace CeilingAt

/-- The call that trips the ceiling sets the limit and goes on to report. -/
theorem xObjAlloc_refused (env : Env) (ty : Ptr) (fl : Flags) (units : Nat) (g : Ptr → M Ptr)
    (h : CeilingAt b limit U n s) (hr : s.AllocReads b msg) (hpos : 0 < limit) (hle : limit ≤ n) :
    ∃ a, s.fieldObj b .allocLimit = some a ∧ CeilingAt b (-1) U n (s.setUnit a 0 (-1)) ∧
      (xObjAlloc env b ty fl units >>= g) s =
        (do reportError env b msg; xSysExit 2; return nil : M Ptr) (s.setUnit a 0 (-1)) := by
  obtain ⟨y, hfields⟩ := h.base.allocFields_run hr
  obtain ⟨a, ha, hset, h'⟩ := h.setLimit (-1)
  refine ⟨a, ha, h', ?_⟩
  have htrip : allocTripped ⟨true, y, limit, msg⟩ s = .ok () s := by
    unfold allocTripped
    rw [if_neg (not_lt.mpr hpos.le)]
    rfl
  have hstop : ∀ e s', (do reportError env b msg; xSysExit 2; return nil : M Ptr)
      (s.setUnit a 0 (-1)) = .error e s' → xObjAlloc env b ty fl units s = .error e s' := by
    intro e s' he
    have hceil : allocCeiling env b ⟨true, y, limit, msg⟩ s = .error e s' := by
      unfold allocCeiling
      rw [if_pos hpos, Prog.bind_of_ok (Field.int_run h.count), if_pos hle]
      unfold allocTrip
      rw [Prog.bind_of_ok hset]
      rcases Prog.bind_error.mp he with he | ⟨u, s₁, hrep, he⟩
      · exact Prog.bind_of_error he
      · rw [Prog.bind_of_ok hrep]
        cases he
        rfl
    unfold xObjAlloc
    rw [Prog.bind_of_ok hfields, Prog.bind_of_ok htrip, Prog.bind_of_error hceil]
  cases hr : reportError env b msg (s.setUnit a 0 (-1)) with
  | ok u s' =>
    rw [Prog.bind_of_ok hr]
    exact Prog.bind_of_error (hstop (.exit 2) s' (by rw [Prog.bind_of_ok hr]; rfl))
  | error e s' =>
    rw [Prog.bind_of_error hr]
    exact Prog.bind_of_error (hstop e s' (Prog.bind_of_error hr))

/-- Below the ceiling an object is made, or the process stops without a call of the error hook. -/
theorem xObjAlloc_below (env : Env) (ty : Ptr) (fl : Flags) (units : Nat)
    (h : CeilingAt b limit U n s) (hpos : 0 ≤ limit) (hlt : 0 < limit → n < limit) :
    (∃ p a data s', xObjAlloc env b ty fl units s = .ok p s' ∧ Made s b ty fl data p a s') ∨
    ∃ e s', xObjAlloc env b ty fl units s = .error e s' ∧ e ≠ .jump ∧
      hookCalls s'.trace = hookCalls s.trace := by
  have hfault : ∀ {e : Stop}, e.IsFault → e ≠ .jump := by
    rintro _ ⟨f, rfl⟩
    exact Stop.noConfusion
  cases hr : xObjAlloc env b ty fl units s with
  | ok p s' =>
    rcases xObjAlloc_ok hr with ⟨-, -, hf, -⟩ | ⟨a, data, -, hm, -⟩
    · exact absurd h.base.full hf
    · exact .inl ⟨p, a, data, s', rfl, hm⟩
  | error e s' =>
    refine .inr ⟨e, s', rfl, ?_⟩
    unfold xObjAlloc at hr
    obtain ⟨msg, y, -, hrun⟩ | ⟨-, e', he, hj⟩ := h.base.allocFields_cases
    swap
    · rw [Prog.bind_of_error he] at hr
      cases hr
      exact ⟨hfault hj, rfl⟩
    obtain ⟨htrip, hceil⟩ := CeilingBase.allocCeiling_below env msg y h.count hpos hlt
    rw [Prog.bind_of_ok hrun, Prog.bind_of_ok htrip, Prog.bind_of_ok hceil] at hr
    dsimp only at hr
    by_cases hg : env.malloc.grants s.requests = true
    · let a := env.malloc.address s (xObjSize y units)
      have ha : a ≠ nil := (env.malloc.fresh s _).1.ne'
      obtain ⟨c, hc, hcn, -⟩ := h.countUnit
      have hbump : bumpCount b 1 (s.request.setBlock a nil) =
          .ok () ((s.request.setBlock a nil).setUnit c 0 (n + 1)) :=
        bumpCount_ok.mpr ⟨c, n, hc, hcn, rfl⟩
      rw [Prog.bind_of_ok (by rw [xSysMalloc_eq, if_pos hg]), if_neg ha, if_pos rfl,
        Prog.bind_of_ok hbump] at hr
      by_cases hs : sizeofObj * (y + xObjMetaLen) ≤ xObjSize y units
      · obtain ⟨-, hp, -, -⟩ := malloc_fresh env (s := s) rfl rfl hs
        have hlive : b = nil ∨ ((s.request.setBlock a nil).setUnit c 0 (n + 1)).Live b :=
          .inr (live_setUnit.mpr h.base.full.live)
        cases (allocLayOut_run hs hlive rfl hp).symm.trans hr
      · unfold allocLayOut at hr
        rw [if_pos (not_le.mp hs)] at hr
        cases hr
        exact ⟨Stop.noConfusion, congrArg hookCalls trace_modify⟩
    · rw [Prog.bind_of_ok (by rw [xSysMalloc_eq, if_neg hg]), if_pos rfl] at hr
      unfold allocRefused at hr
      rw [if_pos rfl] at hr
      rcases reportDirect_cases msg s.request with ⟨s₁, hrep, -, hc⟩ | ⟨-, -, e', hrep, hj⟩
      · rw [Prog.bind_of_ok hrep] at hr
        cases hr
        exact ⟨Stop.noConfusion, hc⟩
      · rw [Prog.bind_of_error hrep] at hr
        cases hr
        exact ⟨hfault hj, rfl⟩

end CeilingAt

/-! ### Frees -/

theorem xSysFree_ok {u : Unit} (h : xSysFree a s = .ok u s') :
    s' = s ∨ ∃ q, s.block a = some q ∧ s' = (s.drop q).dropBlock a := by
  unfold xSysFree at h
  split at h
  · cases h
    exact .inl rfl
  · rw [Prog.get_bind] at h
    cases hb : s.block a with
    | some q =>
      rw [hb] at h
      cases h
      exact .inr ⟨q, rfl, rfl⟩
    | none =>
      rw [hb] at h
      cases h

theorem freeOwned_ok {u : Unit} (h : freeOwned p s = .ok u s') :
    s' = s ∨ ∃ w q, s.Owns p w ∧ s.block w = some q ∧ s' = (s.drop q).dropBlock w := by
  unfold freeOwned at h
  rw [Prog.bind_ok] at h
  obtain ⟨fl, s₁, hfl, h⟩ := h
  obtain ⟨hl, rfl, rfl⟩ := xObjFlags_ok.mp hfl
  split at h
  · next ho =>
    rw [Prog.bind_ok] at h
    obtain ⟨w, s₂, hw, h⟩ := h
    obtain ⟨hw, rfl⟩ := xFirst_ok.mp hw
    by_cases hn : w = nil
    · rw [hn, xSysFree, if_pos rfl] at h
      cases h
      exact .inl rfl
    · obtain e | ⟨q, hq, e⟩ := xSysFree_ok h
      · exact .inl e
      · exact .inr ⟨w, q, ⟨ho, hw, hn⟩, hq, e⟩
  · cases h
    exact .inl rfl

/-- A free on a full base counts down, and gives back the owned block and that of the object. -/
theorem xObjFree_ok {u : Unit} (hf : s.Full b) (h : xObjFree b p s = .ok u s') :
    ∃ c n s₂ a, s.fieldObj b .allocCount = some c ∧ s.unit c 0 = some n ∧
      freeOwned p (s.setUnit c 0 (n + -1)) = .ok () s₂ ∧
      xSysFree a (s₂.log (.objFree p a)) = .ok u s' := by
  unfold xObjFree at h
  rw [Prog.bind_of_ok (baseFull_run hf), Prog.bind_ok] at h
  obtain ⟨extra, s₀, hx, h⟩ := h
  obtain rfl : s₀ = s := by
    have : Prog.stateOf (freeExtra true b s) = s := freeExtra_reads s
    rwa [hx] at this
  rw [if_pos rfl, Prog.bind_ok] at h
  obtain ⟨_, s₁, hbump, h⟩ := h
  obtain ⟨c, n, hc, hn, rfl⟩ := bumpCount_ok.mp hbump
  rw [Prog.bind_ok] at h
  obtain ⟨_, s₂, hown, h⟩ := h
  rw [Prog.bind_ok] at h
  obtain ⟨fl, s₃, hfl, h⟩ := h
  obtain ⟨-, -, rfl⟩ := xObjFlags_ok.mp hfl
  exact ⟨c, n, _, _, hc, hn, hown, h⟩

/-- If the owned block holds no object, and that of the object no other one, then no other object
goes. -/
theorem xObjFree_frame {u : Unit} (hf : s.Full b) (h : xObjFree b p s = .ok u s') :
    ∃ c n a, s.fieldObj b .allocCount = some c ∧ s.unit c 0 = some n ∧
      s'.trace = .objFree p a :: s.trace ∧
      (p ≠ c → (∀ w q, s.Owns p w → s.block w = some q → q = nil) →
        (∀ q, s.block a = some q → q = p) →
        (∀ q, s'.obj q = (s.setUnit c 0 (n + -1)).obj q ∨ q = p ∧ s'.obj q = none) ∧
        ∀ w q, s'.block w = some q → s.block w = some q) := by
  obtain ⟨c, n, s₂, a, hc, hn, hrun, hsys⟩ := xObjFree_ok hf h
  have htrace₂ : s₂.trace = s.trace := by
    rcases freeOwned_ok hrun with rfl | ⟨w, q, -, -, rfl⟩ <;> exact trace_modify
  refine ⟨c, n, a, hc, hn, ?_, fun hpc hown hblk => ?_⟩
  · rw [← htrace₂]
    rcases xSysFree_ok hsys with rfl | ⟨q, -, rfl⟩ <;> rfl
  have h₂ : (∀ q, s₂.obj q = (s.setUnit c 0 (n + -1)).obj q) ∧
      ∀ w q, s₂.block w = some q → s.block w = some q := by
    rcases freeOwned_ok hrun with rfl | ⟨w, q, ho, hq, rfl⟩
    · exact ⟨fun _ => rfl, fun w q hq => block_setUnit.symm.trans hq⟩
    · have howns : s.Owns p w := (owns_congr flagsOf_setUnit (by
        rw [unit_setUnit hn, if_neg fun e => hpc e.1])).mp ho
      obtain rfl : q = nil := hown w q howns (block_setUnit.symm.trans hq)
      refine ⟨fun x => ?_, fun x y hx => ?_⟩
      · rw [obj_dropBlock, obj_drop]
        split
        · next e => rw [e, not_live_iff.mp not_live_nil]
        · rfl
      · rw [block_dropBlock] at hx
        split at hx
        · cases hx
        · exact block_setUnit.symm.trans hx
  rcases xSysFree_ok hsys with rfl | ⟨x, hx, rfl⟩
  · exact ⟨fun q => .inl (h₂.1 q), h₂.2⟩
  obtain rfl := hblk x (h₂.2 a x hx)
  refine ⟨fun q => ?_, fun w q hq => ?_⟩
  · rw [obj_dropBlock, obj_drop]
    split
    · next e => exact .inr ⟨e, rfl⟩
    · exact .inl (h₂.1 q)
  · rw [block_dropBlock] at hq
    split at hq
    · cases hq
    · exact h₂.2 w q hq

theorem Sys.OwnsNoObject.mono (h : s.OwnsNoObject)
    (hshared : ∀ q, s'.flagsOf q &&& xObjFlagShared = 0 → s.flagsOf q &&& xObjFlagShared = 0)
    (howns : ∀ q w, s'.Owns q w → s.Owns q w)
    (hblock : ∀ a q, s'.block a = some q → s.block a = some q) : s'.OwnsNoObject :=
  fun q w p hq ho hp => h q w p (hshared q hq) (howns q w ho) (hblock w p hp)

namespace Sys.FreesOwn

variable {s₁ : Sys}

theorem head (h : s.FreesOwn b s') (h₁ : ∃ l, s₁.trace = l ++ s.trace)
    (h₂ : ∃ l, s'.trace = l ++ s₁.trace) : s.FreesOwn b s₁ := by
  obtain ⟨l, hl, hfree⟩ := h
  obtain ⟨l₁, h₁⟩ := h₁
  obtain ⟨l₂, h₂⟩ := h₂
  refine ⟨l₁, h₁, fun p a hp => hfree p a ?_⟩
  rw [h₁, ← List.append_assoc, hl] at h₂
  exact List.append_cancel_right h₂ ▸ List.mem_append_right _ hp

theorem tail (h : s.FreesOwn b s') (h₁ : ∃ l, s₁.trace = l ++ s.trace)
    (h₂ : ∃ l, s'.trace = l ++ s₁.trace)
    (hblock : ∀ a q, s₁.block a = some q → s.block a = some q) :
    s₁.FreesOwn b s' := by
  obtain ⟨l, hl, hfree⟩ := h
  obtain ⟨l₁, h₁⟩ := h₁
  obtain ⟨l₂, h₂⟩ := h₂
  refine ⟨l₂, h₂, fun p a hp => ?_⟩
  rw [h₁, ← List.append_assoc, hl] at h₂
  obtain ⟨hb, ho⟩ := hfree p a (List.append_cancel_right h₂ ▸ List.mem_append_left _ hp)
  exact ⟨hb, fun q hq => ho q (hblock a q hq)⟩

end Sys.FreesOwn

/-- A free of an object of the base's own counts down. -/
theorem CeilingAt.xObjFree_ok (h : CeilingAt b limit U n s)
    (hr : xObjFree b p s = .ok () s') (hp : s.flagsOf p &&& xObjFlagShared = 0)
    (hown : s.OwnsNoObject) (hfree : s.FreesOwn b s') :
    CeilingAt b limit U (n - 1) s' ∧ s'.OwnsNoObject ∧ p ≠ b ∧
      (∃ a, s'.trace = .objFree p a :: s.trace) ∧
      ∀ a q, s'.block a = some q → s.block a = some q := by
  obtain ⟨c, n', a, hc, hcn, htrace, hframe⟩ := xObjFree_frame h.base.full hr
  obtain ⟨c', hc', hcn', hcu⟩ := h.countUnit
  obtain rfl : c = c' := Option.some.inj (hc.symm.trans hc')
  obtain rfl : n' = n := Option.some.inj (hcn.symm.trans hcn')
  let s₁ := s.setUnit c 0 (n' + -1)
  obtain ⟨l, hl, hfree⟩ := hfree
  obtain ⟨hpb, hblk⟩ := hfree p a (by
    rw [List.append_cancel_right (hl.symm.trans htrace : l ++ s.trace = [_] ++ s.trace)]
    exact List.mem_singleton_self _)
  have hpc : p ≠ c := by
    rintro rfl
    exact (h.base.shared _ hcu).elim hpb fun hs => hs hp
  obtain ⟨hobj, hblock⟩ : (∀ q, s'.obj q = s₁.obj q ∨ q = p ∧ s'.obj q = none) ∧
      ∀ w q, s'.block w = some q → s.block w = some q :=
    hframe hpc (fun w q => hown p w q hp) hblk
  have hold : ∀ q, q ≠ p → s'.obj q = s₁.obj q := fun q hq => (hobj q).resolve_right fun e => hq e.1
  have hway : ∀ x ∈ U, x.1 ≠ p := fun x hx e =>
    (h.base.shared x (h.units ▸ hx)).elim (fun hb => hpb (e ▸ hb)) fun hs => hs (e ▸ hp)
  refine ⟨?_, fun q w x hq ho hx => ?_, hpb, ⟨a, htrace⟩, hblock⟩
  · refine h.bump (d := -1) (fun x hx => ?_) ?_ fun x hx => ?_
    · have hunit : s'.unit x.1 x.2 = s₁.unit x.1 x.2 := by
        simp only [Sys.unit, dataOf, hold _ (hway x hx)]
      rw [hunit, unit_setUnit hcn, hc]
      by_cases he : x.1 = c ∧ x.2 = 0
      · rw [if_pos he, if_pos ⟨h.base.full, by rw [he.1], he.2⟩, he.1, hcn]
        rfl
      · rw [if_neg he, if_neg fun hf => he ⟨(Option.some.inj hf.2.1).symm, hf.2.2⟩]
    · rw [show s'.typeOf b = s₁.typeOf b by simp only [Sys.typeOf, hold _ hpb.symm], typeOf_setUnit]
    · rw [show s'.flagsOf x.1 = s₁.flagsOf x.1 by simp only [Sys.flagsOf, hold _ (hway x hx)],
        flagsOf_setUnit]
  · have hcb : c ≠ b := fun e => (h.base.apart c hc).1 (e ▸ List.mem_cons_self ..)
    rcases hobj q with e | ⟨rfl, e⟩
    · have hflags : s'.flagsOf q = s.flagsOf q := by
        rw [show s'.flagsOf q = s₁.flagsOf q by simp only [Sys.flagsOf, e], flagsOf_setUnit]
      have hqc : q ≠ c := fun e => ((h.base.shared _ hcu).resolve_left hcb) (by
        rw [← e, ← hflags]
        exact hq)
      refine hown q w x (hflags ▸ hq) ((owns_congr hflags ?_).mp ho) (hblock w x hx)
      rw [show s'.unit q 0 = s₁.unit q 0 by simp only [Sys.unit, dataOf, e], unit_setUnit hcn,
        if_neg fun e => hqc e.1]
    · exact absurd (show s'.flagsOf q &&& xObjFlagOwn = 0 by rw [Sys.flagsOf, e]; rfl) ho.1

/-- A sweep keeps an object. -/
theorem CeilingAt.cleared (h : CeilingAt b limit U n s) (hown : s.OwnsNoObject) (hp : s.Live p)
    (hF : F &&& xObjFlagShared = 0) :
    CeilingAt b limit U n (s.setFlags p (s.flagsOf p &&& ~~~F)) ∧
      (s.setFlags p (s.flagsOf p &&& ~~~F)).OwnsNoObject := by
  have hflags : ∀ q, (s.setFlags p (s.flagsOf p &&& ~~~F)).flagsOf q &&& xObjFlagShared =
      s.flagsOf q &&& xObjFlagShared := fun _ => flags_and_clear hF hp
  refine ⟨h.still (fun _ _ => unit_setFlags) typeOf_setFlags fun x _ hx => by rwa [hflags],
    hown.mono (fun q hq => by rwa [← hflags]) (fun q w ⟨ho, hw, hn⟩ => ⟨?_, ?_, hn⟩)
      fun _ _ hq => block_setFlags.symm.trans hq⟩
  · rw [flagsOf_setFlags hp] at ho
    split at ho
    · next e => exact e ▸ Flags.and_ne_zero_of_clear ho
    · exact ho
  · exact unit_setFlags.symm.trans hw

/-- A sweep links an object out. -/
theorem CeilingAt.unlinked (fn : Word) (prev p : Ptr) (h : CeilingAt b limit U n s)
    (hown : s.OwnsNoObject) :
    CeilingAt b limit U n (s.unlinked fn prev p) ∧ (s.unlinked fn prev p).OwnsNoObject := by
  have hflags : ∀ q, (s.unlinked fn prev p).flagsOf q = s.flagsOf q := fun q =>
    flagsOf_setHeap.trans flagsOf_hooked
  have hunit : (s.unlinked fn prev p).unit = s.unit := by
    funext q i
    rw [Sys.unlinked, unit_setHeap, unit_hooked]
  exact ⟨h.still (fun _ _ => by rw [hunit]) (typeOf_setHeap.trans typeOf_hooked)
      fun x _ hx => by rwa [hflags],
    hown.mono (fun q hq => by rwa [hflags] at hq)
      (fun q w ho => (owns_congr (hflags q) (by rw [hunit])).mp ho) fun _ _ hq => by
        rwa [Sys.unlinked, block_setHeap, block_hooked] at hq⟩

/-- A sweep lowers the count. -/
theorem CeilingAt.sweepLoop_ok {fn : Word} {k : Nat} (hin : env.FreeInert)
    (hF : F &&& xObjFlagShared = 0) (h : CeilingAt b limit U n s) (hown : s.OwnsNoObject)
    (hr : sweepLoop env F fn k b prev node s = .ok () s') (hfree : s.FreesOwn b s') :
    ∃ n' ≤ n, CeilingAt b limit U n' s' ∧ hookCalls s'.trace = hookCalls s.trace := by
  induction k generalizing s n prev node with
  | zero => cases hr
  | succ k ih =>
    by_cases hl : s.Live node
    swap
    · have hs : Prog.stateOf (sweepLoop env F fn (k + 1) b prev node s) = s := by
        rw [← walkLoop_setXObjHeap, walkLoop_not_live hl]
      rw [hr] at hs
      obtain rfl : s' = s := hs
      exact ⟨n, le_rfl, h, rfl⟩
    cases hk : s.kept F node with
    | true =>
      rw [sweepLoop_keep hl hk] at hr
      obtain ⟨h₁, hown₁⟩ := h.cleared hown hl hF
      have hrest := ((logged_suffix _).sweepLoop hin).ok ⟨[], rfl⟩ hr
      obtain ⟨n', hle, h', hc⟩ := ih h₁ hown₁ hr
        (hfree.tail ⟨[], trace_modify⟩ hrest fun _ _ hq => block_setFlags.symm.trans hq)
      exact ⟨n', hle, h', hc.trans (congrArg hookCalls trace_modify)⟩
    | false =>
      by_cases hp : s.Live prev
      swap
      · obtain ⟨e, hstop⟩ := sweepLoop_dangling (n := k) hin.on hl hk hp
        rw [hstop] at hr
        cases hr
      rw [sweepLoop_unlink hin.on hl hk hp] at hr
      change (xObjFree b node >>= _) (s.unlinked fn prev node) = _ at hr
      rw [Prog.bind_ok] at hr
      obtain ⟨_, s₂, hrun, hr⟩ := hr
      obtain ⟨h₁, hown₁⟩ := h.unlinked fn prev node hown
      have hhook : (s.hooked fn node).trace = s.trace ∨
          (s.hooked fn node).trace = .freeHook node :: s.trace := by
        unfold hooked
        split
        · exact .inl rfl
        · exact .inr rfl
      have htrace : (s.unlinked fn prev node).trace = (s.hooked fn node).trace := trace_modify
      obtain ⟨l₂, hl₂⟩ := (logged_suffix (s.unlinked fn prev node).trace).xObjFree.ok ⟨[], rfl⟩ hrun
      obtain ⟨l₃, hl₃⟩ := ((logged_suffix s₂.trace).sweepLoop hin).ok ⟨[], rfl⟩ hr
      have hfree₁ : (s.unlinked fn prev node).FreesOwn b s' := by
        refine hfree.tail ?_ ⟨l₃ ++ l₂, by rw [hl₃, hl₂, List.append_assoc]⟩ fun _ _ hq => by
          rwa [Sys.unlinked, block_setHeap, block_hooked] at hq
        rw [htrace]
        exact hhook.elim (fun e => ⟨[], e⟩) fun e => ⟨[_], e⟩
      obtain ⟨h₂, hown₂, hnb, ⟨a, ha⟩, hblock⟩ := h₁.xObjFree_ok hrun
        (by rw [Sys.unlinked, flagsOf_setHeap, flagsOf_hooked]; exact not_shared hk) hown₁
        (hfree₁.head ⟨l₂, hl₂⟩ ⟨l₃, hl₃⟩)
      rw [if_neg hnb] at hr
      obtain ⟨n', hle, h', hc⟩ := ih h₂ hown₂ hr (hfree₁.tail ⟨l₂, hl₂⟩ ⟨l₃, hl₃⟩ hblock)
      refine ⟨n', hle.trans (Int.sub_le_self n (by decide)), h', hc.trans ?_⟩
      rw [ha, htrace]
      rcases hhook with e | e <;> rw [e] <;> rfl

/-- So does one from any object. -/
theorem CeilingAt.xHeapSweep_ok {r : Ptr} (hin : env.FreeInert) (hF : F &&& xObjFlagShared = 0)
    (h : CeilingAt b limit U n s) (hown : s.OwnsNoObject)
    (hr : xHeapSweep env b p F s = .ok r s') (hfree : s.FreesOwn b s') :
    ∃ n' ≤ n, CeilingAt b limit U n' s' ∧ hookCalls s'.trace = hookCalls s.trace := by
  unfold xHeapSweep at hr
  rcases (heapFn_reads (f := .heapFree) (b := b)).cases s with ⟨fn, hfn⟩ | ⟨e, he⟩
  swap
  · rw [Prog.bind_of_error he] at hr
    cases hr
  rw [Prog.bind_of_ok hfn, Prog.bind_of_ok (xObjHeap_eq h.base.full.live), Prog.get_bind,
    Prog.bind_ok] at hr
  obtain ⟨u, s₁, hloop, hr⟩ := hr
  cases hr
  exact h.sweepLoop_ok hin hF hown hloop hfree

/-! ### The tree of a base -/

/-- A path reads the units before its steps, and no other of the tree. -/
theorem BaseTree.notMem_walk {π ρ : List Bool} {d : Cells Word} (h : BaseTree s b t cell)
    (hs : (Cells.atom b t).slot π = some (p, i)) (hd : (Cells.atom b t).sub ρ = some d)
    (hπ : ¬ π <+: ρ) : (p, i) ∉ walk s.unit b ρ := fun hx => by
  obtain ⟨σ, e, hσ, hs'⟩ := h.fits.walk_slot hd hx
  exact hπ (Cells.slot_inj (c := .atom b t) h.nodup hs hs' ▸ hσ)

/-- A typed base whose record leads to a limit and a count. -/
theorem BaseTree.ceilingBase {y : Option Word} (h : BaseTree s b t cell)
    (hc : cell .allocCount = cellInt y) (hl : cell .allocLimit = cellInt (some limit))
    (ht : s.typeOf b ≠ nil) (hs : ∀ q ∈ t.nodes, s.flagsOf q &&& xObjFlagShared ≠ 0) :
    CeilingBase s b limit := by
  obtain ⟨c, n, hcc, -, hcn, hcs, hcd, -⟩ := h.fieldAtom hc
  obtain ⟨a, m, haa, -, -, has, had, -⟩ := h.fieldAtom hl
  obtain ⟨-, dc, -, hdc, -⟩ := h.value hc
  obtain ⟨-, da, -, hda, -⟩ := h.value hl
  refine ⟨ht, h.fieldInt hl, ⟨n, by rw [Sys.fieldInt, hcc]; exact hcn⟩, fun p hp => ?_,
    fun p hp => ?_, fun x hx => ?_⟩
  · obtain rfl := Option.some.inj (hcc.symm.trans hp)
    exact ⟨h.notMem_walk hcs hdc (by decide), h.notMem_walk hcs had (by decide)⟩
  · obtain rfl := Option.some.inj (haa.symm.trans hp)
    exact ⟨h.notMem_walk has hda (by decide), h.notMem_walk has hcd (by decide)⟩
  · have hnode : x.1 ∈ b :: t.nodes := by
      rcases mem_ceilingUnits.mp hx with hx | hx
      · obtain ⟨σ, e, -, hs'⟩ := h.fits.walk_slot hcd hx
        exact Cells.mem_nodes_of_slot hs'
      · obtain ⟨σ, e, -, hs'⟩ := h.fits.walk_slot had hx
        exact Cells.mem_nodes_of_slot hs'
    exact (List.mem_cons.mp hnode).imp id (hs x.1)

namespace ReportingBase

variable {k : Ceiling}

theorem ceilingBase (h : ReportingBase s b t k) : CeilingBase s b k.limit :=
  h.tree.ceilingBase rfl rfl h.typed h.shared

theorem reads (h : ReportingBase s b t k) : s.AllocReads b k.msg :=
  ⟨⟨k.extra, h.tree.fieldInt rfl⟩, h.tree.fieldObj rfl⟩

/-- The limit is assigned. -/
theorem setLimit (h : ReportingBase s b t k) (lim : Word) : ∃ a t',
    s.fieldObj b .allocLimit = some a ∧
    ReportingBase (s.setUnit a 0 lim) b t' (k.withLimit lim) := by
  obtain ⟨a, u, ha, -, hu, -⟩ := h.tree.fieldAtom (f := .allocLimit) rfl
  obtain ⟨t', ht', hsub⟩ := h.tree.assignInt (w := lim) (f := .allocLimit) rfl ha
    fun q _ j => unit_setUnit hu
  have hcell : Function.update k.cell .allocLimit (cellInt (some lim)) =
      (k.withLimit lim).cell := by
    funext f
    cases f <;> rfl
  have hread : ∀ {q w}, s.unit q 0 = some w → ∃ w', (s.setUnit a 0 lim).unit q 0 = some w' := by
    intro q w hq
    rw [unit_setUnit hu]
    split
    · exact ⟨lim, rfl⟩
    · exact ⟨w, hq⟩
  exact ⟨a, t', ha, hcell ▸ ht', by rw [typeOf_setUnit]; exact h.typed,
    fun q hq => by rw [flagsOf_setUnit]; exact h.shared q (hsub hq),
    h.msg.imp id fun ⟨w, hw⟩ => hread hw, h.hook.imp id fun ⟨w, hw⟩ => hread hw⟩

/-- Below the limit, the fields lead to `malloc`. -/
theorem allocReady (h : ReportingBase s b t k) (hn : s.fieldInt b .allocCount = some n)
    (hpos : 0 ≤ k.limit) (hlt : 0 < k.limit → n < k.limit) : s.AllocReady b where
  full := h.ceilingBase.full
  extra := ⟨k.extra, h.tree.fieldInt rfl⟩
  limit := ⟨k.limit, h.ceilingBase.limit_eq, hpos, fun hl => ⟨n, hn, hlt hl⟩⟩
  error := ⟨k.msg, h.tree.fieldObj rfl⟩
  count := by
    obtain ⟨c, hc, hcn⟩ := Option.bind_eq_some_iff.mp hn
    exact ⟨c, n, hc, hcn⟩

theorem extraOf (h : ReportingBase s b t k) : s.extraOf b = toSizeT k.extra := by
  rw [Sys.extraOf, if_pos h.ceilingBase.full, h.tree.fieldInt (f := .objMetaExtra) rfl]
  rfl

/-- Without a limit they always do. -/
theorem allocReady_unlimited (h : ReportingBase s b t k) (hl : k.limit = 0) : s.AllocReady b := by
  obtain ⟨c, n, hc, -, hn, -⟩ := h.tree.fieldAtom (f := .allocCount) rfl
  refine h.allocReady (n := n) (by rw [Sys.fieldInt, hc]; exact hn) hl.ge fun hpos => ?_
  rw [hl] at hpos
  exact absurd hpos (lt_irrefl _)

/-- An object is made on the base. -/
theorem made {data : List Word} (h : ReportingBase s b t k) (hm : Made s b ty fl data p a s') :
    ReportingBase s' b t k := by
  have hold : ∀ q ∈ b :: t.nodes, q ≠ p := fun q hq e => hm.new (e ▸ h.tree.mem_live hq)
  have hread : ∀ {q w}, s.unit q 0 = some w → ∃ w', s'.unit q 0 = some w' := fun {q w} hq => by
    rw [hm.unit_old q 0 fun e => hm.new (e ▸ live_of_unit hq)]
    split
    · exact ⟨w + 1, by rw [hq]; rfl⟩
    · exact ⟨w, hq⟩
  refine ⟨h.tree.bump rfl fun q hq i => hm.unit_old q i (hold q hq), ?_, fun q hq => ?_,
    h.msg.imp_right fun ⟨w, hw⟩ => hread hw, h.hook.imp_right fun ⟨w, hw⟩ => hread hw⟩
  · rw [hm.typeOf_old b (hold b (.head _))]
    exact h.typed
  · rw [hm.flagsOf_old q (hold q (.tail _ hq))]
    exact h.shared q hq

/-- Without a limit the base makes every object that there is memory for. -/
theorem make (h : ReportingBase s b t k) (hl : k.limit = 0) (env : Env) (ty : Ptr) (fl : Flags)
    (data : List Word) (hg : env.malloc.grants s.requests = true)
    (hu : toSizeT k.extra + data.length ≤ 2 ^ 59) : ∃ p a s',
      xObjMake env b ty fl data s = .ok p s' ∧ Made s b ty fl data p a s' ∧
      ReportingBase s' b t k := by
  obtain ⟨p, a, s', hrun, hm⟩ :=
    xObjMake_full env ty fl data (h.allocReady_unlimited hl) hg (h.extraOf ▸ hu)
  exact ⟨p, a, s', hrun, hm, h.made hm⟩

end ReportingBase

end Ceiling

/-! ## Arming -/

/-- A base gets a type, a message for the ceiling and the ceiling. -/
def arm (b ty msg : Ptr) (limit : Word) : M Unit := do
  setXObjType b ty
  Field.allocError.setObj b msg
  Field.allocLimit.setInt b limit

/-- What is known of the cells of a new base that was armed. -/
def armedCell (cfg : XBaseT) (msg : Ptr) (limit : Word) : Field → Layout Word
  | .objMetaExtra => cellInt (some cfg.objMetaExtra)
  | .allocCount => cellInt (some 0)
  | .allocLimit => cellInt (some limit)
  | .allocError => cellObj (some msg)
  | .hookError => cellObj (some cfg.hookError)
  | .heapMark => cellObj (some cfg.heapMark)
  | .heapFree => cellObj (some cfg.heapFree)
  | .heapRootChain => cellObj (some nil)
  | .heapMarkHooks | .heapFreeHooks | .heapMarkRoots => cellObj none
  | _ => anyWord

/-- Arming a new base leaves the objects, their links and their flags alone. -/
structure Rearmed (s s' : Sys) : Prop where
  live : ∀ q, s'.Live q ↔ s.Live q
  next : ∀ q, s'.next q = s.next q
  flags : ∀ q, s'.flagsOf q = s.flagsOf q
  block : ∀ q, s'.block q = s.block q
  trace : s'.trace = s.trace
  requests : s'.requests = s.requests
  unit : ∀ q w, s.unit q 0 = some w → ∃ w', s'.unit q 0 = some w'

section Arm

variable {env : Env} {cfg : XBaseT} {s s' : Sys} {b c a ty msg : Ptr} {new : List Ptr}
  {t : Cells Word} {limit : Word}

theorem armedCell_relaxed (f : Field) : (cfg.cell f).relaxes (armedCell cfg nil 0 f) := by
  cases f <;>
    simp [XBaseT.cell, armedCell, cellObj, cellInt, XBaseT.pair, XBaseT.atom, XBaseT.val, anyWord,
      Layout.relaxes]

theorem armedCell_relaxes_ceiling (f : Field) : (armedCell cfg msg limit f).relaxes
    (Ceiling.cell ⟨cfg.objMetaExtra, limit, msg, cfg.hookError, cfg.heapFree⟩ f) := by
  cases f <;> simp [armedCell, Ceiling.cell, cellObj, cellInt, anyWord, Layout.relaxes]

theorem BaseMade.arm_run (h : BaseMade env s b cfg c a new t s')
    (hg : env.malloc.GrantsFrom (s.requests + 1) 55) (ty msg : Ptr) (limit : Word) : ∃ s'' d,
    arm c ty msg limit s' = .ok () s'' ∧ s''.typeOf c = ty ∧
    BaseTree s'' c d (armedCell cfg msg limit) ∧ d.nodes ⊆ new ∧ Rearmed s' s'' ∧
    ∀ q i, q ∉ new → s''.unit q i = s'.unit q i := by
  obtain ⟨d₀, hd₀, hsub₀, -⟩ := h.baseTree hg
  obtain ⟨d₁, hd₁, hsub₁, -⟩ := hd₀.relax armedCell_relaxed
  have hl : s'.Live c := hd₁.live
  have ht₁ : BaseTree (s'.setType c ty) c d₁ (armedCell cfg nil 0) :=
    hd₁.congr fun q _ i u hu => by rwa [unit_setType]
  obtain ⟨e, v, he, -, hem, hv, -⟩ := ht₁.fieldSlot (f := .allocError) rfl
  obtain ⟨d₂, ht₂, hsub₂⟩ := ht₁.assign (w := msg) (f := .allocError) rfl he
    fun q _ j => unit_setUnit hv
  have hcell₂ : Function.update (armedCell cfg nil 0) .allocError (cellObj (some msg)) =
      armedCell cfg msg 0 := by
    funext f
    cases f <;> rfl
  rw [hcell₂] at ht₂
  obtain ⟨x, n, hx, hxm, hn, -⟩ := ht₂.fieldAtom (f := .allocLimit) rfl
  obtain ⟨d₃, ht₃, hsub₃⟩ := ht₂.assignInt (w := limit) (f := .allocLimit) rfl hx
    fun q _ j => unit_setUnit hn
  have hcell₃ : Function.update (armedCell cfg msg 0) .allocLimit (cellInt (some limit)) =
      armedCell cfg msg limit := by
    funext f
    cases f <;> rfl
  rw [hcell₃] at ht₃
  refine ⟨_, d₃, ?_, ?_, ht₃,
    List.Subset.trans hsub₃ (List.Subset.trans hsub₂ (List.Subset.trans hsub₁ hsub₀)), ?_,
    fun q i hq => ?_⟩
  · rw [arm, Prog.bind_of_ok (setXObjType_eq hl),
      Prog.bind_of_ok (Field.setObj_ok (u := ()).mpr ⟨e, he, ⟨v, hv⟩, rfl⟩)]
    exact Field.setInt_ok.mpr ⟨x, hx, ⟨n, hn⟩, rfl⟩
  · rw [typeOf_setUnit, typeOf_setUnit, typeOf_setType hl, if_pos rfl]
  · refine ⟨fun q => ?_, fun q => ?_, fun q => ?_, fun q => ?_, ?_, ?_, fun q w hw => ?_⟩
    · rw [live_setUnit, live_setUnit, live_setType]
    · rw [next_setUnit, next_setUnit, next_setType]
    · rw [flagsOf_setUnit, flagsOf_setUnit, flagsOf_setType]
    · rw [block_setUnit, block_setUnit, block_setType]
    · exact trace_modify.trans (trace_modify.trans trace_modify)
    · exact requests_modify.trans (requests_modify.trans requests_modify)
    · rw [unit_setUnit hn]
      split
      · exact ⟨limit, rfl⟩
      · rw [unit_setUnit hv]
        split
        · exact ⟨msg, rfl⟩
        · exact ⟨w, by rwa [unit_setType]⟩
  · rw [unit_setUnit hn, if_neg fun h : q = x ∧ _ => hq (h.1 ▸ hsub₀ (hsub₁ (hsub₂ hxm))),
      unit_setUnit hv, if_neg fun h : q = e ∧ _ => hq (h.1 ▸ hsub₀ (hsub₁ hem)), unit_setType]

/-- Every new base that is armed, on whatever base it was made. -/
theorem BaseMade.reportingBase (h : BaseMade env s b cfg c a new t s')
    (hg : env.malloc.GrantsFrom (s.requests + 1) 55) (hty : ty ≠ nil)
    (hmsg : msg = nil ∨ ∃ w, s'.unit msg 0 = some w)
    (hhook : cfg.hookError = nil ∨ ∃ w, s'.unit cfg.hookError 0 = some w) (limit : Word) :
    ∃ s'' d, arm c ty msg limit s' = .ok () s'' ∧
      ReportingBase s'' c d ⟨cfg.objMetaExtra, limit, msg, cfg.hookError, cfg.heapFree⟩ ∧
      d.nodes ⊆ new ∧ s''.fieldInt c .allocCount = some 0 ∧
      ∀ q i, q ∉ new → s''.unit q i = s'.unit q i := by
  obtain ⟨s'', d, hrun, htype, htree, hsub, hr, hold⟩ := h.arm_run hg ty msg limit
  obtain ⟨d', hd', hsub', -⟩ := htree.relax armedCell_relaxes_ceiling
  refine ⟨s'', d', hrun, ⟨hd', htype ▸ hty, fun q hq => ?_,
    hmsg.imp id fun ⟨w, hw⟩ => hr.unit _ w hw, hhook.imp id fun ⟨w, hw⟩ => hr.unit _ w hw⟩,
    List.Subset.trans hsub' hsub, htree.fieldInt (f := .allocCount) rfl, hold⟩
  rw [hr.flags, h.flagsOf_new (hsub (hsub' hq))]
  decide

/-- Every new base that gets a type. -/
theorem BaseMade.typed (h : BaseMade env s b cfg c a new t s')
    (hg : env.malloc.GrantsFrom (s.requests + 1) 55) (hty : ty ≠ nil)
    (hhook : cfg.hookError = nil ∨ ∃ w, s'.unit cfg.hookError 0 = some w) :
    ∃ d, ReportingBase (s'.setType c ty) c d
      ⟨cfg.objMetaExtra, 0, nil, cfg.hookError, cfg.heapFree⟩ ∧ d.nodes ⊆ new := by
  obtain ⟨d₀, hd₀, hsub₀, -⟩ := h.baseTree hg
  obtain ⟨d₁, hd₁, hsub₁, -⟩ := hd₀.relax armedCell_relaxed
  obtain ⟨d, hd, hsub, -⟩ := hd₁.relax armedCell_relaxes_ceiling
  refine ⟨d, ⟨hd.congr fun q _ i u hu => by rwa [unit_setType], ?_, fun q hq => ?_, .inl rfl,
    hhook.imp_right fun ⟨w, hw⟩ => ⟨w, by rwa [unit_setType]⟩⟩,
    List.Subset.trans hsub (List.Subset.trans hsub₁ hsub₀)⟩
  · rw [typeOf_setType hd.live, if_pos rfl]
    exact hty
  · rw [flagsOf_setType, h.flagsOf_new (hsub₀ (hsub₁ (hsub hq)))]
    decide

end Arm

end XExpr
