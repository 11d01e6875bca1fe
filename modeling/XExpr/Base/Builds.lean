import XExpr.Base.Refine
import XExpr.Heap.Invariant
import XExpr.Obj.BlockSize

/-!
# The builds with and without `X_HEAP`

Without `X_HEAP` an object has no heap link. `x_obj_alloc` asks for the extra metadata units in
both builds, but the advance past them, the zeroing and the flag are there with `X_HEAP` only.

* `Build.xObjAlloc`, `Build.xObjMake`, `Build.xObjFree`: the functions of each build. With `X_HEAP`
  they are the ones of the other files.
* `Build.Promised`: what the header says of an object, whatever the build.
* `agree_iff`: both builds keep it if and only if there are no extra units.
-/

namespace XExpr

open Sys

inductive Build
  | heap
  | plain
deriving DecidableEq

/-- `x_obj_meta_i`. What is before the extra units is not part of the object. -/
def xObjMetaI (p : Ptr) (i : Nat) : M Word := do
  match (← deref p).extras[i]? with
  | some w => return w
  | none => fault (.outOfBounds p i)

namespace Build

/-- `X_OBJ_META_LEN`. -/
def xObjMetaLen : Build → Nat
  | heap => XExpr.xObjMetaLen
  | plain => 2

/-- `sizeof(x_obj_t) * (extra + X_OBJ_META_LEN + units)`. -/
def xObjSize (β : Build) (extra units : Nat) : Nat :=
  sizeofObj * ((extra + β.xObjMetaLen + units) % 2 ^ 64) % 2 ^ 64

/-- The object in the block `a`. Without `X_HEAP` its header is at the start of the block, and the
rest of the block is behind it. -/
def allocLayOut (env : Env) (b t : Ptr) (fl : Flags) (extra size : Nat) (a : Ptr) :
    Build → M Ptr
  | heap => XExpr.allocLayOut env b t fl extra size a
  | plain => do
    if size < sizeofObj * plain.xObjMetaLen then
      return ← fault (.overflow a)
    let o : Obj :=
      { heap := nil
        type := t
        flags := fl
        extras := []
        data := (List.range (size / sizeofObj - plain.xObjMetaLen)).map (env.fill a) }
    modify fun s => (s.place a o).setBlock a a
    log (.objAlloc a a)
    return a

def xObjAlloc (β : Build) (env : Env) (b t : Ptr) (fl : Flags) (units : Nat) : M Ptr := do
  let l ← allocFields b
  allocTripped l
  allocCeiling env b l
  let size := β.xObjSize l.extra units
  let a ← xSysMalloc env size
  if a = nil then
    allocRefused l
  else
    (if l.full then bumpCount b 1 else return)
    β.allocLayOut env b t fl l.extra size a

def xObjMake (β : Build) (env : Env) (b t : Ptr) (fl : Flags) (data : List Word) : M Ptr := do
  let p ← β.xObjAlloc env b t fl data.length
  if p = nil then
    return nil
  storeUnits p 0 data
  return p

def xObjFree (b p : Ptr) : Build → M Unit
  | heap => XExpr.xObjFree b p
  | plain => do
    let full ← baseFull b
    (if full then bumpCount b (-1) else return)
    freeOwned p
    log (.objFree p p)
    xSysFree p

/-- Where the units of an object are: the extra ones, that `x_obj_meta_i` reads, and the ones of
the header and the data. -/
def unitAddrs (β : Build) (p : Ptr) (e units : Nat) : List Ptr :=
  (List.range e).map (fun i : Nat => p - (sizeofObj * (i + 1) : Nat)) ++
    (List.range (β.xObjMetaLen + units)).map fun i : Nat => p + (sizeofObj * i : Nat)

/-- What is said of an object of the type `t`, made on a base with `e` extra units: the object
`p` in the block `a` of `size` bytes. -/
structure Promised (β : Build) (b t : Ptr) (fl : Flags) (data : List Word) (e : Nat) (p a : Ptr)
    (size : Nat) (s : Sys) : Prop where
  type : s.typeOf p = t
  flags : s.flagsOf p = if 0 < e then fl ||| xObjFlagMeta else fl
  units : ∀ i < data.length, s.unit p i = data[i]?
  extras : ∀ i < e, xObjMetaI p i s = .ok 0 s
  block : s.block a = some p
  inside : ∀ x ∈ β.unitAddrs p e data.length, a ≤ x ∧ x + sizeofObj ≤ a + size
  apart : (β.unitAddrs p e data.length).Nodup
  /-- An owning object owns a block. -/
  free : (s.flagsOf p &&& xObjFlagOwn ≠ 0 →
      ∃ w, s.unit p 0 = some w ∧ (w = nil ∨ s.block w = some nil)) →
    ∃ s', β.xObjFree b p s = .ok () s' ∧ s'.trace = .objFree p a :: s.trace ∧ s'.block a = none

variable {β : Build} {env : Env} {s s' s₁ : Sys} {b p t ty a : Ptr} {fl : Flags} {data : List Word}
  {units extra size e : Nat} {tree : Cells Word} {cell : Field → Layout Word} {w : Word}

theorem xObjMake_heap : heap.xObjMake env b t fl data = XExpr.xObjMake env b t fl data := rfl

/-! ## Where the units are -/

theorem mem_unitAddrs {x : Int} {p : Int} : x ∈ β.unitAddrs p e units ↔
    (∃ i < e, x = p - (8 * (i + 1) : Nat)) ∨
      ∃ i < β.xObjMetaLen + units, x = p + (8 * i : Nat) := by
  simp only [unitAddrs, List.mem_append, List.mem_map, List.mem_range, sizeofObj, eq_comm]

/-- The units are inside the block, if the object is as far behind its start as the extra units
take. -/
theorem unitAddrs_inside {p a : Int} (hp : p = a + (8 * e : Nat)) {x : Int}
    (hx : x ∈ β.unitAddrs p e units) :
    a ≤ x ∧ x + 8 ≤ a + (8 * (e + β.xObjMetaLen + units) : Nat) := by
  rcases mem_unitAddrs.mp hx with ⟨i, hi, rfl⟩ | ⟨i, hi, rfl⟩
  · omega
  · omega

theorem unitAddrs_nodup (β : Build) (p : Int) (e units : Nat) :
    (β.unitAddrs p e units).Nodup := by
  refine List.nodup_append'.mpr ⟨?_, ?_, ?_⟩
  · refine List.nodup_range.map fun i j h => ?_
    have h : p - ((8 * (i + 1) : Nat) : Int) = p - ((8 * (j + 1) : Nat) : Int) := h
    omega
  · refine List.nodup_range.map fun i j h => ?_
    have h : p + ((8 * i : Nat) : Int) = p + ((8 * j : Nat) : Int) := h
    omega
  · intro x h₁ h₂
    obtain ⟨i, -, rfl⟩ := List.mem_map.mp h₁
    obtain ⟨j, -, h⟩ := List.mem_map.mp h₂
    have h : p + ((8 * j : Nat) : Int) = p - ((8 * (i + 1) : Nat) : Int) := h
    omega

/-! ## An object that keeps what is said of it -/

theorem xObjMetaI_run {i : Nat} (hp : s.Live p) (hx : s.extrasOf p = List.replicate e 0)
    (hi : i < e) : xObjMetaI p i s = .ok 0 s := by
  obtain ⟨o, ho⟩ := live_iff.mp hp
  have hx' : o.extras = List.replicate e 0 := by simpa [extrasOf, ho] using hx
  rw [xObjMetaI, Prog.bind_of_ok (deref_eq ho), hx', List.getElem?_replicate, if_pos hi]
  rfl

theorem xSysFree_trace {u : Unit} (h : xSysFree a s = .ok u s') : s'.trace = s.trace := by
  unfold xSysFree at h
  split at h
  · cases h
    rfl
  · rw [Prog.get_bind] at h
    cases hb : s.block a with
    | some p =>
      simp only [hb] at h
      cases h
      rfl
    | none =>
      simp only [hb] at h
      cases h

/-- `x_obj_free` without `X_HEAP`, of an object in a block that starts with it. -/
theorem xObjFree_plain (h : XExpr.xObjFree b p s = .ok () s') (hf : Freed s b p p s') :
    plain.xObjFree b p s = .ok () s' := by
  unfold XExpr.xObjFree at h
  rw [Prog.bind_ok] at h
  obtain ⟨full, s₁, hfull, h⟩ := h
  rw [Prog.bind_ok] at h
  obtain ⟨x, s₂, hx, h⟩ := h
  have hs : s₂ = s₁ := by
    unfold freeExtra at hx
    split at hx
    · rw [Prog.bind_ok] at hx
      obtain ⟨w, s₃, hw, hx⟩ := hx
      cases hx
      exact (Field.int_ok.mp hw).2
    · cases hx
      rfl
  subst hs
  rw [Prog.bind_ok] at h
  obtain ⟨_, s₃, hbump, h⟩ := h
  rw [Prog.bind_ok] at h
  obtain ⟨_, s₄, hown, h⟩ := h
  rw [Prog.bind_ok] at h
  obtain ⟨g, s₅, hg, h⟩ := h
  obtain ⟨-, rfl, rfl⟩ := xObjFlags_ok.mp hg
  rw [Prog.bind_ok] at h
  obtain ⟨_, s₆, hlog, h⟩ := h
  cases hlog
  -- what was logged is what was freed
  have halloc := (xSysFree_trace h).symm.trans hf.trace
  rw [(Event.objFree.inj (List.cons.inj halloc).1).2] at h
  exact (Prog.bind_of_ok hfull).trans ((Prog.bind_of_ok hbump).trans
    ((Prog.bind_of_ok hown).trans h))

/-- The object `p` in its block, as far behind the start as the extra units take, on a base that
still has its fields. -/
theorem promised_of_laid (htree : BaseTree s b tree cell)
    (hx : cell .objMetaExtra = cellInt (some w)) (hc : cell .allocCount = cellInt none)
    (hfull : s.Full b) (he : toSizeT w = e) (hp : s.Live p) (hpt : p ∉ b :: tree.nodes)
    (htype : s.typeOf p = ty) (hflags : s.flagsOf p = if 0 < e then fl ||| xObjFlagMeta else fl)
    (hunits : ∀ i < data.length, s.unit p i = data[i]?)
    (hextras : s.extrasOf p = List.replicate e 0) (ha : a ≠ nil)
    (haddr : p = a + (sizeofObj * e : Nat)) (hblk : s.block a = some p)
    (hβ : β = heap ∨ e = 0) :
    β.Promised b ty fl data e p a (sizeofObj * (e + β.xObjMetaLen + data.length)) s where
  type := htype
  flags := hflags
  units := hunits
  extras _ hi := xObjMetaI_run hp hextras hi
  block := hblk
  inside _ hx := unitAddrs_inside haddr hx
  apart := unitAddrs_nodup ..
  free hown := by
    have hext : s.extraOf b = e := by
      rw [extraOf, if_pos hfull, htree.fieldInt hx, Option.getD_some, he]
    have hfree : s.freeAddr e p = a := by
      by_cases h₀ : 0 < e
      · have hmeta : s.flagsOf p &&& xObjFlagMeta ≠ 0 := by
          rw [hflags, if_pos h₀, Flags.or_and_self]
          decide
        rw [freeAddr, if_pos hmeta, haddr]
        exact add_sub_cancel_right _ _
      · have h₀ : e = 0 := Nat.eq_zero_of_not_pos h₀
        have hpa : p = a := by rw [haddr, h₀]; simp
        simp [freeAddr, h₀, hpa]
    have hready := htree.freeReady fun _ => ⟨hx, hc⟩
    rw [hext] at hready
    obtain ⟨c, -, hcount, hmem, -⟩ := htree.fieldAtom hc
    obtain ⟨s', hrun, hfreed⟩ := xObjFree_run hready hp hown
      (fun _ h => hpt (Option.some.inj (hcount.symm.trans h) ▸ .tail _ hmem))
      (by rwa [hfree]) (by rwa [hfree])
    rw [hfree] at hfreed
    refine ⟨s', ?_, hfreed.trace, by rw [hfreed.block, if_pos (.inl rfl)]⟩
    rcases hβ with rfl | rfl
    · exact hrun
    · have hpa : p = a := by rw [haddr]; simp
      cases β with
      | heap => exact hrun
      | plain =>
        rw [← hpa] at hfreed
        exact xObjFree_plain hrun hfreed

/-! ## With `X_HEAP` -/

theorem storeUnits_extrasOf {i : Nat} {u : Unit} (h : storeUnits p i data s = .ok u s') :
    s'.extrasOf p = s.extrasOf p := by
  induction data generalizing s i with
  | nil =>
    cases h
    rfl
  | cons w data ih =>
    unfold storeUnits at h
    rw [Prog.bind_ok] at h
    obtain ⟨_, s₁, h₁, h⟩ := h
    obtain ⟨-, rfl⟩ := setXObjDataI_ok.mp h₁
    rw [ih h, extrasOf_setUnit]

theorem extrasOf_laidOut {o : Obj} (hp : nil < p) : (s.laidOut b p a o).extrasOf p = o.extras := by
  have h : ((s.place p o).setBlock a p).extrasOf p = o.extras := by
    change (s.place p o).extrasOf p = _
    simp [extrasOf, obj_place hp]
  by_cases hb : b = nil
  · simp only [laidOut, hb, if_true]
    exact h
  · simp only [laidOut, hb, if_false]
    exact extrasOf_setHeap.trans h

/-- The extra units of a new object are zero. -/
theorem xObjAlloc_extrasOf (h : XExpr.xObjAlloc env b t fl units s = .ok p s') (hp : nil < p) :
    s'.extrasOf p = List.replicate (s.extraOf b) 0 := by
  rw [xObjAlloc_eq, Prog.bind_ok] at h
  obtain ⟨⟨l, size, a⟩, s₁, hb, h⟩ := h
  obtain ⟨hextra, -⟩ := allocBlock_ok hb
  dsimp only at h
  split at h
  · unfold allocRefused at h
    split at h
    · rw [Prog.bind_ok] at h
      obtain ⟨_, _, -, h⟩ := h
      cases h
    · cases h
      exact absurd hp (lt_irrefl _)
  · rw [Prog.bind_ok] at h
    obtain ⟨_, s₂, -, h⟩ := h
    obtain ⟨-, -, -, rfl⟩ := allocLayOut_ok h
    rw [extraOf_eq_metaExtra, ← hextra, extrasOf_laidOut hp, newObj]

theorem heap_promised (ht : BaseTree s b tree cell) (hx : cell .objMetaExtra = cellInt (some w))
    (hc : cell .allocCount = cellInt none) (hr : s.AllocReady b) (he : toSizeT w = e)
    (hg : env.malloc.grants s.requests = true)
    (hu : sizeofObj * (e + heap.xObjMetaLen + data.length) < 2 ^ 64) :
    ∃ p s', heap.xObjMake env b ty fl data s = .ok p s' ∧ heap.Promised b ty fl data e p
      (env.malloc.address s (sizeofObj * (e + heap.xObjMetaLen + data.length)))
      (sizeofObj * (e + heap.xObjMetaLen + data.length)) s' := by
  have hext : s.extraOf b = e := by
    rw [extraOf, if_pos hr.full, ht.fieldInt hx, Option.getD_some, he]
  obtain ⟨p, data₀, s₁, hrun, hm₀, hd⟩ := xObjAlloc_ready env ty fl data.length hr hg
    (by rw [hext]; exact hu)
  obtain ⟨s₂, hs⟩ := storeUnits_run
    (show 0 + data.length ≤ (s₁.dataOf p).length by rw [hm₀.data_new, hd, Nat.zero_add])
  have hm := hm₀.store (storeUnits_ok hs) hd.le
  have hmake : heap.xObjMake env b ty fl data s = .ok p s₂ := by
    rw [xObjMake_heap, XExpr.xObjMake, Prog.bind_of_ok hrun, if_neg hm.ne_nil, Prog.bind_of_ok hs]
    rfl
  have hold : ∀ q ∈ b :: tree.nodes, q ≠ p := fun q hq e => hm.new (e ▸ ht.mem_live hq)
  have htree : BaseTree s₂ b tree cell := by
    refine ht.count hc (g := (· + 1)) fun q hq i => ?_
    rw [hm.unit_old q i (hold q hq)]
    simp only [hr.full, true_and]
  have hlive : s₂.Live p := (hm.live p).mpr (.inl rfl)
  refine ⟨p, s₂, hmake, ?_⟩
  refine promised_of_laid htree hx hc ⟨?_, htree.isSet⟩ he hlive (fun hp => hold p hp rfl)
    hm.typeOf_new ?_ (fun i _ => by rw [unit, hm.data_new]) ?_ (hext ▸ hm.block_pos)
    (by rw [hm.addr, hext]; rfl) (by rw [hm.block, if_pos (by rw [hext]; rfl)]) (.inl rfl)
  · rw [hm.typeOf_old b (hold b (.head _))]
    exact hr.full.1
  · rw [hm.flagsOf_new, hext]
  · rw [storeUnits_extrasOf hs, xObjAlloc_extrasOf hrun ((hm₀.live p).mpr (.inl rfl)).pos, hext]

/-! ## Without `X_HEAP` -/

/-- `s'` is `s` with an object made at the start of the block `a`, on the full base `b`. -/
structure PlainMade (s : Sys) (b t : Ptr) (fl : Flags) (units : Nat) (a : Ptr) (s' : Sys) :
    Prop where
  pos : nil < a
  new : ¬ s.Live a
  live : s'.Live a
  typeOf_new : s'.typeOf a = t
  typeOf_old : ∀ q, q ≠ a → s'.typeOf q = s.typeOf q
  flagsOf_new : s'.flagsOf a = fl
  extrasOf_new : s'.extrasOf a = []
  data_length : (s'.dataOf a).length = units
  unit_old : ∀ q i, q ≠ a → s'.unit q i =
    if s.fieldObj b .allocCount = some q ∧ i = 0 then (s.unit q 0).map (· + 1) else s.unit q i
  block : s'.block a = some a

theorem xObjAlloc_plain (env : Env) (t : Ptr) (fl : Flags) (h : s.AllocReady b)
    (hg : env.malloc.grants s.requests = true)
    (hu : sizeofObj * (s.extraOf b + plain.xObjMetaLen + units) < 2 ^ 64) :
    ∃ a s', a = env.malloc.address s (sizeofObj * (s.extraOf b + plain.xObjMetaLen + units)) ∧
      plain.xObjAlloc env b t fl units s = .ok a s' ∧
      PlainMade s b t fl (s.extraOf b + units) a s' := by
  obtain ⟨l, hfields, hfull, hextra, htripped, hceiling⟩ := h.fields env
  obtain ⟨c, n, hc, hn⟩ := h.count
  have hsize : plain.xObjSize (s.extraOf b) units =
      sizeofObj * (s.extraOf b + plain.xObjMetaLen + units) := by
    unfold xObjSize
    simp only [sizeofObj] at hu ⊢
    omega
  let a := env.malloc.address s (plain.xObjSize (s.extraOf b) units)
  let s₁ := (s.request.setBlock a nil).setUnit c 0 (n + 1)
  have hbump : bumpCount b 1 (s.request.setBlock a nil) = .ok () s₁ :=
    bumpCount_ok.mpr ⟨c, n, hc, hn, rfl⟩
  have hroom : ¬ plain.xObjSize (s.extraOf b) units < sizeofObj * plain.xObjMetaLen := by
    rw [hsize, not_lt]
    exact Nat.mul_le_mul_left _ (by omega)
  have hpos : 0 < plain.xObjSize (s.extraOf b) units := by
    rw [hsize]
    simp only [sizeofObj, xObjMetaLen]
    omega
  obtain ⟨ha₀, -, hfresh⟩ := env.malloc.fresh s (plain.xObjSize (s.extraOf b) units)
  have ha : nil < a := ha₀
  have hnew : ¬ s.Live a :=
    hfresh a le_rfl (Int.lt_add_of_pos_right _ (Int.natCast_pos.mpr hpos))
  let o : Obj := ⟨nil, t, fl, [], (List.range (plain.xObjSize (s.extraOf b) units / sizeofObj -
    plain.xObjMetaLen)).map (env.fill a)⟩
  refine ⟨a, ((s₁.place a o).setBlock a a).log (.objAlloc a a), by rw [← hsize], ?_, ?_⟩
  · unfold xObjAlloc
    rw [Prog.bind_of_ok hfields, Prog.bind_of_ok htripped, Prog.bind_of_ok hceiling, hextra, hfull,
      Prog.bind_of_ok (by rw [xSysMalloc_eq, if_pos hg])]
    rw [if_neg (show ¬ a = nil from ha.ne'), if_pos rfl, Prog.bind_of_ok hbump, allocLayOut,
      if_neg hroom]
    rfl
  · constructor
    case pos => exact ha
    case new => exact hnew
    case live => simp [ha]
    case typeOf_new => simp [typeOf_place ha, o]
    case typeOf_old => intro q hq; simp [typeOf_place ha, hq, s₁]
    case flagsOf_new => simp [flagsOf_place ha, o]
    case extrasOf_new =>
      change (s₁.place a o).extrasOf a = _
      simp [extrasOf, obj_place ha, o]
    case data_length =>
      simp [dataOf_place ha, o, hsize, sizeofObj, xObjMetaLen]
      omega
    case unit_old =>
      intro q i hq
      have hu₁ : s₁.unit q i = if q = c ∧ i = 0 then some (n + 1) else s.unit q i :=
        unit_setUnit (s := s.request.setBlock a nil) hn
      rw [unit_log, unit_setBlock, unit_place ha, if_neg hq, hu₁, hc]
      by_cases hqc : q = c
      · subst hqc
        by_cases hi : i = 0
        · rw [if_pos ⟨rfl, hi⟩, if_pos ⟨rfl, hi⟩, hn]
          rfl
        · rw [if_neg fun h => hi h.2, if_neg fun h => hi h.2]
      · rw [if_neg fun h => hqc h.1, if_neg fun h => hqc (Option.some.inj h.1).symm]
    case block => simp [block_setBlock]

/-- The object is at the start of the block, with the flags that were passed on. -/
theorem xObjMake_plain (env : Env) (t : Ptr) (fl : Flags) (data : List Word) (h : s.AllocReady b)
    (hg : env.malloc.grants s.requests = true)
    (hu : sizeofObj * (s.extraOf b + plain.xObjMetaLen + data.length) < 2 ^ 64) :
    ∃ a s₁ s', a = env.malloc.address s
        (sizeofObj * (s.extraOf b + plain.xObjMetaLen + data.length)) ∧
      plain.xObjMake env b t fl data s = .ok a s' ∧
      PlainMade s b t fl (s.extraOf b + data.length) a s₁ ∧ Stored s₁ a 0 data s' ∧
      s'.extrasOf a = [] := by
  obtain ⟨a, s₁, ha, hrun, hm⟩ := xObjAlloc_plain env t fl h hg hu
  obtain ⟨s₂, hs⟩ := storeUnits_run
    (show 0 + data.length ≤ (s₁.dataOf a).length by rw [hm.data_length]; omega)
  refine ⟨a, s₁, s₂, ha, ?_, hm, storeUnits_ok hs, (storeUnits_extrasOf hs).trans hm.extrasOf_new⟩
  rw [xObjMake, Prog.bind_of_ok hrun, if_neg hm.pos.ne', Prog.bind_of_ok hs]
  rfl

theorem plain_promised (ht : BaseTree s b tree cell) (hx : cell .objMetaExtra = cellInt (some 0))
    (hc : cell .allocCount = cellInt none) (hr : s.AllocReady b)
    (hg : env.malloc.grants s.requests = true)
    (hu : sizeofObj * (0 + plain.xObjMetaLen + data.length) < 2 ^ 64) :
    ∃ p s', plain.xObjMake env b ty fl data s = .ok p s' ∧ plain.Promised b ty fl data 0 p
      (env.malloc.address s (sizeofObj * (0 + plain.xObjMetaLen + data.length)))
      (sizeofObj * (0 + plain.xObjMetaLen + data.length)) s' := by
  have hext : s.extraOf b = 0 := by
    rw [extraOf, if_pos hr.full, ht.fieldInt hx, Option.getD_some]
    rfl
  obtain ⟨a, s₁, s', ha, hrun, hm, hs, hextras⟩ := xObjMake_plain env ty fl data hr hg
    (by rw [hext]; exact hu)
  rw [hext] at ha
  have hold : ∀ q ∈ b :: tree.nodes, q ≠ a := fun q hq e => hm.new (e ▸ ht.mem_live hq)
  have htree : BaseTree s' b tree cell := by
    refine ht.count hc (g := (· + 1)) fun q hq i => ?_
    rw [hs.unit_other q i (hold q hq), hm.unit_old q i (hold q hq)]
  refine ⟨a, s', hrun, ?_⟩
  rw [← ha]
  refine promised_of_laid htree hx hc ⟨?_, htree.isSet⟩ rfl ((hs.live a).mpr hm.live)
    (fun hp => hold a hp rfl) (by rw [hs.typeOf, hm.typeOf_new])
    (by rw [hs.flagsOf, hm.flagsOf_new]; rfl) (fun i hi => ?_) hextras hm.pos.ne' (by simp)
    (by rw [hs.block, hm.block]) (.inr rfl)
  · rw [hs.typeOf, hm.typeOf_old b (hold b (.head _))]
    exact hr.full.1
  · rw [hs.unit_self, if_pos (by omega), Nat.sub_zero]

/-- Both builds make the object that the header describes, if and only if there are no extra
units. -/
theorem agree_iff (env : Env) (ty : Ptr) (data : List Word) (ht : BaseTree s b tree cell)
    (hx : cell .objMetaExtra = cellInt (some w)) (hc : cell .allocCount = cellInt none)
    (hr : s.AllocReady b) (hw : 0 ≤ w) (hg : env.malloc.grants s.requests = true)
    (hu : sizeofObj * (w.toNat + XExpr.xObjMetaLen + data.length) < 2 ^ 64)
    (hfl : fl &&& xObjFlagMeta = 0) :
    (∀ β : Build, ∃ p s', β.xObjMake env b ty fl data s = .ok p s' ∧
      β.Promised b ty fl data w.toNat p
        (env.malloc.address s (sizeofObj * (w.toNat + β.xObjMetaLen + data.length)))
        (sizeofObj * (w.toNat + β.xObjMetaLen + data.length)) s') ↔ w = 0 := by
  obtain ⟨e, rfl⟩ := Int.eq_ofNat_of_zero_le hw
  have he : toSizeT (e : Int) = e := by
    simp only [Int.toNat_natCast, sizeofObj] at hu
    unfold toSizeT
    omega
  have hext : s.extraOf b = e := by
    rw [extraOf, if_pos hr.full, ht.fieldInt hx, Option.getD_some, he]
  have hu' : sizeofObj * (e + plain.xObjMetaLen + data.length) < 2 ^ 64 := by
    simp only [Int.toNat_natCast, sizeofObj, XExpr.xObjMetaLen, xObjMetaLen] at hu ⊢
    omega
  rw [Int.toNat_natCast]
  constructor
  · intro h
    obtain ⟨p, s', hrun, hp⟩ := h plain
    obtain ⟨a, s₁, s'', -, hrun', hm, hs, -⟩ := xObjMake_plain env ty fl data hr hg
      (by rw [hext]; exact hu')
    cases hrun.symm.trans hrun'
    by_contra hne
    have hpos : 0 < e := Nat.pos_of_ne_zero fun h => hne (by rw [h]; rfl)
    have hflags := hp.flags
    rw [hs.flagsOf, hm.flagsOf_new, if_pos hpos] at hflags
    rw [hflags, Flags.or_and_self] at hfl
    exact absurd hfl (by decide)
  · intro h
    obtain rfl : e = 0 := by exact_mod_cast h
    rintro (_ | _)
    · exact heap_promised ht hx hc hr he hg hu
    · exact plain_promised ht hx hc hr hg hu'

/-- A full base with the fields of a configuration. -/
theorem exists_base (cfg : XBaseT) : ∃ b s tree, s.AllocReady b ∧
    BaseTree s b tree (Kept.ofCfg cfg).cell := by
  obtain ⟨b, -, s, t, -, -, hfull, ht, -⟩ := exists_full_base cfg Sys.empty
  have hready := ht.allocReady hfull
  rw [Record.cell_ofCfg] at ht
  obtain ⟨tree, htree, -⟩ := ht.relax cfg.cell_relaxes
  exact ⟨b, s, tree, hready, htree⟩

/-- With one extra unit, the object of the build without `X_HEAP` is not flagged, and
`x_obj_meta_i` reads before the block. -/
theorem agree_fails : ∃ b s p s', s.Full b ∧ s.fieldInt b .objMetaExtra = some 1 ∧
    plain.xObjMake (.plain fun _ => true) b xTypeAtomObj xObjFlagNone [7] s = .ok p s' ∧
    s'.flagsOf p = xObjFlagNone ∧ xObjMetaI p 0 s' = .error (.fault (.outOfBounds p 0)) s' ∧
    ∀ a size, ¬ plain.Promised b xTypeAtomObj xObjFlagNone [7] 1 p a size s' := by
  obtain ⟨b, s, tree, hr, ht⟩ := exists_base { XBaseT.standard with objMetaExtra := 1 }
  have hx : s.fieldInt b .objMetaExtra = some 1 := ht.fieldInt rfl
  have hext : s.extraOf b = 1 := by
    rw [extraOf, if_pos hr.full, hx]
    rfl
  obtain ⟨p, s₁, s', -, hrun, hm, hs, hextras⟩ := xObjMake_plain (.plain fun _ => true)
    xTypeAtomObj xObjFlagNone [7] hr rfl (by rw [hext]; decide)
  have hflags : s'.flagsOf p = xObjFlagNone := by rw [hs.flagsOf, hm.flagsOf_new]
  obtain ⟨o, ho⟩ := live_iff.mp ((hs.live p).mpr hm.live)
  have hmeta : xObjMetaI p 0 s' = .error (.fault (.outOfBounds p 0)) s' := by
    have hx' : o.extras = [] := by simpa [extrasOf, ho] using hextras
    rw [xObjMetaI, Prog.bind_of_ok (deref_eq ho), hx']
    rfl
  refine ⟨b, s, p, s', hr.full, hx, hrun, hflags, hmeta, fun a size h => ?_⟩
  cases hmeta.symm.trans (h.extras 0 Nat.one_pos)

theorem agree_standard : ∃ b s, s.Full b ∧ ∀ β : Build, ∃ p s' a size,
    β.xObjMake (.plain fun _ => true) b xTypePairObj xObjFlagNone [1, 2] s = .ok p s' ∧
      β.Promised b xTypePairObj xObjFlagNone [1, 2] 0 p a size s' := by
  obtain ⟨b, s, tree, hr, ht⟩ := exists_base .standard
  have h := (agree_iff (.plain fun _ => true) xTypePairObj [1, 2] ht (w := 0) rfl rfl hr le_rfl
    rfl (by decide) (by decide : xObjFlagNone &&& xObjFlagMeta = 0)).mpr rfl
  refine ⟨b, s, hr.full, fun β => ?_⟩
  obtain ⟨p, s', hrun, hp⟩ := h β
  exact ⟨p, s', _, _, hrun, hp⟩

end Build

end XExpr
