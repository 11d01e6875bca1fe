import XExpr.Obj.Alloc

/-!
# Allocation: what a call that returns has done

* `Made`: the memory after an object was made, next to the one before.
* `xObjAlloc_ok`, `xObjMake_ok`: a call that returns an object has made it, on a full base below
  the ceiling; one that returns `nil` was refused by `malloc` and has changed nothing. On a full
  base there is no other way to return.
* `xObjMake_bare`: on no base, or on an untyped one, the call returns.
-/

namespace XExpr

open Sys

variable {env : Env} {s s' : Sys} {b p q t a : Ptr} {fl : Flags} {units size extra : Nat}
  {l : AllocFields}

/-! ## The steps of `x_obj_alloc` -/

theorem baseFull_ok {r : Bool} (h : baseFull b s = .ok r s') :
    r = decide (s.Full b) ∧ s' = s := by
  unfold baseFull at h
  by_cases hb : b = nil
  · subst hb
    simp only [if_true, Prog.pure_apply, EStateM.Result.ok.injEq] at h
    simp [← h.1, h.2, not_full_nil]
  · simp only [hb, if_false, Prog.bind_ok, xObjType_ok] at h
    obtain ⟨t, _, ⟨hl, rfl, rfl⟩, h⟩ := h
    split at h
    · next ht =>
      simp only [Prog.pure_apply, EStateM.Result.ok.injEq] at h
      obtain ⟨rfl, rfl⟩ := h
      simp [Full, ht]
    · next ht =>
      obtain ⟨-, rfl, rfl⟩ := xBaseIsset_ok.mp h
      simp [Full, ht]

theorem baseFull_run (h : s.Full b) : baseFull b s = .ok true s := by
  have hb : b ≠ nil := h.live.ne_nil
  simp only [baseFull, hb, if_false]
  rw [Prog.bind_of_ok (xObjType_eq h.live)]
  simp only [h.1, if_false]
  exact xBaseIsset_run h.2

/-- No base, or an untyped one. -/
def Sys.Bare (s : Sys) (b : Ptr) : Prop := b = nil ∨ s.Live b ∧ s.typeOf b = nil

theorem Sys.Bare.not_full (h : s.Bare b) : ¬ s.Full b := by
  rcases h with rfl | ⟨-, h⟩
  · exact not_full_nil
  · exact fun hf => hf.1 h

theorem baseFull_bare (h : s.Bare b) : baseFull b s = .ok false s := by
  rcases h with rfl | ⟨hl, ht⟩
  · rfl
  · have hb : b ≠ nil := hl.ne_nil
    simp only [baseFull, hb, if_false]
    rw [Prog.bind_of_ok (xObjType_eq hl)]
    simp [ht]

/-- A base that is not full, and can be told from one: none, an untyped one or an unset one. -/
def Sys.Minimal (s : Sys) (b : Ptr) : Prop :=
  b = nil ∨ s.Live b ∧ (s.typeOf b = nil ∨ s.unit b 0 = some nil)

theorem Sys.Bare.minimal (h : s.Bare b) : s.Minimal b := h.imp id (And.imp_right Or.inl)

theorem Sys.Minimal.not_full (h : s.Minimal b) : ¬ s.Full b := by
  rcases h with rfl | ⟨-, ht | hu⟩
  · exact not_full_nil
  · exact fun hf => hf.1 ht
  · exact fun hf => hf.2 (by rw [hu]; rfl)

theorem baseFull_minimal (h : s.Minimal b) : baseFull b s = .ok false s := by
  rcases h with rfl | ⟨hl, h⟩
  · rfl
  · by_cases ht : s.typeOf b = nil
    · exact baseFull_bare (.inr ⟨hl, ht⟩)
    · have hu := h.resolve_left ht
      simp only [baseFull, hl.ne_nil, if_false]
      rw [Prog.bind_of_ok (xObjType_eq hl)]
      simp only [ht, if_false]
      exact xBaseIsset_ok.mpr ⟨.inr ⟨nil, hu⟩, by simp [IsSet, hu], rfl⟩

/-- The extra metadata units of a new object. -/
def Sys.extraOf (s : Sys) (b : Ptr) : Nat :=
  if s.Full b then toSizeT ((s.fieldInt b .objMetaExtra).getD 0) else 0

theorem Sys.extraOf_of_not_full (h : ¬ Full s b) : s.extraOf b = 0 := by simp [extraOf, h]

theorem allocFields_ok (h : allocFields b s = .ok l s') :
    s' = s ∧ l.full = decide (s.Full b) ∧ l.extra = s.extraOf b ∧
      (s.Full b → s.fieldInt b .allocLimit = some l.limit ∧
        s.fieldObj b .allocError = some l.msg) := by
  unfold allocFields at h
  rw [Prog.bind_ok] at h
  obtain ⟨r, s₁, hr, h⟩ := h
  obtain ⟨rfl, rfl⟩ := baseFull_ok hr
  by_cases hf : s₁.Full b
  · simp only [hf, decide_true, if_true, Prog.bind_ok, Field.int_ok, Field.obj_ok,
      Prog.pure_apply] at h
    obtain ⟨e, _, ⟨he, rfl⟩, lim, _, ⟨hlim, rfl⟩, m, _, ⟨hm, rfl⟩, h⟩ := h
    cases h
    simp [hf, extraOf, he, hlim, hm]
  · simp only [hf, decide_false, Bool.false_eq_true, if_false, Prog.pure_apply] at h
    cases h
    simp [hf, extraOf_of_not_full hf]

theorem allocFields_bare (h : s.Bare b) : allocFields b s = .ok ⟨false, 0, 0, nil⟩ s := by
  rw [allocFields, Prog.bind_of_ok (baseFull_bare h)]
  rfl

theorem allocTripped_ok {u : Unit} (h : allocTripped l s = .ok u s') :
    0 ≤ l.limit ∧ s' = s := by
  unfold allocTripped at h
  split at h
  · obtain ⟨_, s₁, -, h⟩ := Prog.bind_ok.mp h
    cases h
  · next hl =>
    cases h
    exact ⟨not_lt.mp hl, rfl⟩

theorem allocTrip_not_ok {u : Unit} : allocTrip env b l s ≠ .ok u s' := by
  intro h
  obtain ⟨_, s₁, -, h⟩ := Prog.bind_ok.mp h
  obtain ⟨_, s₂, -, h⟩ := Prog.bind_ok.mp h
  cases h

theorem allocCeiling_ok {u : Unit} (h : allocCeiling env b l s = .ok u s') :
    s' = s ∧ (0 < l.limit → ∃ c, s.fieldInt b .allocCount = some c ∧ c < l.limit) := by
  unfold allocCeiling at h
  split at h
  · rw [Prog.bind_ok] at h
    obtain ⟨c, s₁, hc, h⟩ := h
    obtain ⟨hc, rfl⟩ := Field.int_ok.mp hc
    split at h
    · exact absurd h allocTrip_not_ok
    · next hlt =>
      cases h
      exact ⟨rfl, fun _ => ⟨c, hc, not_le.mp hlt⟩⟩
  · next hl =>
    cases h
    exact ⟨rfl, fun h => absurd h hl⟩

theorem xSysMalloc_eq (env : Env) (size : Nat) (s : Sys) : xSysMalloc env size s =
    if env.malloc.grants s.requests then
      .ok (env.malloc.address s size) (s.request.setBlock (env.malloc.address s size) nil)
    else .ok nil s.request := by
  have hr : (modify request : M PUnit) s = .ok ⟨⟩ s.request := rfl
  unfold xSysMalloc
  rw [Prog.get_bind, Prog.bind_of_ok hr]
  by_cases h : env.malloc.grants s.requests = true
  · rw [if_pos h, if_pos h]
    rfl
  · rw [if_neg h, if_neg h]
    rfl

theorem bumpCount_ok {d : Int} {u : Unit} : bumpCount b d s = .ok u s' ↔
    ∃ c n, s.fieldObj b .allocCount = some c ∧ s.unit c 0 = some n ∧
      s' = s.setUnit c 0 (n + d) := by
  simp only [bumpCount, Prog.bind_ok, Field.obj_ok, xFirst_ok, setXFirst, setXObjDataI_ok]
  constructor
  · rintro ⟨c, _, ⟨hc, rfl⟩, n, _, ⟨hn, rfl⟩, -, rfl⟩; exact ⟨c, n, hc, hn, rfl⟩
  · rintro ⟨c, n, hc, hn, rfl⟩; exact ⟨c, _, ⟨hc, rfl⟩, n, _, ⟨hn, rfl⟩, ⟨n, hn⟩, rfl⟩

/-- The object that `x_obj_alloc` lays out. -/
def newObj (env : Env) (s : Sys) (b t : Ptr) (fl : Flags) (extra size : Nat) (p : Ptr) : Obj where
  heap := s.next b
  type := t
  flags := if 0 < extra then fl ||| xObjFlagMeta else fl
  extras := List.replicate extra 0
  data := (List.range (size / sizeofObj - extra - xObjMetaLen)).map (env.fill p)

theorem newObj_data_length {extra size : Nat} :
    (newObj env s b t fl extra size p).data.length = size / sizeofObj - extra - xObjMetaLen := by
  simp only [newObj, List.length_map, List.length_range]

/-- The memory after a new object was laid out at `p` in the block `a`. -/
def Sys.laidOut (s : Sys) (b p a : Ptr) (o : Obj) : Sys :=
  let s₁ := (s.place p o).setBlock a p
  (if b = nil then s₁ else s₁.setHeap b p).log (.objAlloc p a)

section LaidOut

variable {o : Obj} {w : Ptr}

theorem live_laidOut (hp : nil < p) : (s.laidOut b p a o).Live q ↔ q = p ∨ s.Live q := by
  unfold laidOut
  split <;> simp [hp]

/-- The object is linked in between the base and what followed it. -/
theorem next_laidOut (hp : nil < p) (hb : b = nil ∨ s.Live b) (hbp : b ≠ p) :
    (s.laidOut b p a o).next q =
      if q = p then o.heap else if b ≠ nil ∧ q = b then p else s.next q := by
  unfold laidOut
  by_cases hb' : b = nil
  · simp [hb', next_place hp]
  · have hl : ((s.place p o).setBlock a p).Live b :=
      (live_place hp).mpr (.inr (hb.resolve_left hb'))
    simp only [if_neg hb', next_log, next_setHeap hl, next_setBlock, next_place hp]
    by_cases hqb : q = b
    · simp [hqb, hbp, hb']
    · simp [hqb]

theorem typeOf_laidOut (hp : nil < p) :
    (s.laidOut b p a o).typeOf q = if q = p then o.type else s.typeOf q := by
  unfold laidOut
  split <;> simp [typeOf_place hp]

theorem flagsOf_laidOut (hp : nil < p) :
    (s.laidOut b p a o).flagsOf q = if q = p then o.flags else s.flagsOf q := by
  unfold laidOut
  split <;> simp [flagsOf_place hp]

theorem extrasOf_laidOut (hp : nil < p) :
    (s.laidOut b p a o).extrasOf q = if q = p then o.extras else s.extrasOf q := by
  unfold laidOut
  split <;> simp [extrasOf_place hp]

theorem dataOf_laidOut (hp : nil < p) :
    (s.laidOut b p a o).dataOf q = if q = p then o.data else s.dataOf q := by
  unfold laidOut
  split <;> simp [dataOf_place hp]

theorem block_laidOut : (s.laidOut b p a o).block w = if w = a then some p else s.block w := by
  unfold laidOut
  split <;> simp [block_setBlock]

theorem requests_laidOut : (s.laidOut b p a o).requests = s.requests := by
  unfold laidOut
  split
  · exact requests_place
  · exact requests_modify.trans requests_place

theorem trace_laidOut : (s.laidOut b p a o).trace = .objAlloc p a :: s.trace := by
  unfold laidOut
  split
  · exact congrArg _ trace_place
  · exact congrArg (Event.objAlloc p a :: ·) (trace_modify.trans trace_place)

end LaidOut

@[simp] theorem next_nil : s.next nil = nil := by
  have : s.obj nil = none := not_live_iff.mp not_live_nil
  simp [next, this]

theorem chainHead_ok {w : Ptr} : chainHead b s = .ok w s' ↔
    (b = nil ∨ s.Live b) ∧ w = s.next b ∧ s' = s := by
  unfold chainHead
  by_cases hb : b = nil
  · subst hb; simp [eq_comm]
  · simp [hb, xObjHeap_ok]

theorem allocLayOut_ok (h : allocLayOut env b t fl extra size a s = .ok p s') :
    sizeofObj * (extra + xObjMetaLen) ≤ size ∧ p = a + (sizeofObj * extra : Nat) ∧
      (b = nil ∨ s.Live b) ∧ s' = s.laidOut b p a (newObj env s b t fl extra size p) := by
  unfold allocLayOut at h
  split at h
  · cases h
  · next hs =>
    refine ⟨not_lt.mp hs, ?_⟩
    simp only [Prog.bind_ok, chainHead_ok] at h
    obtain ⟨w, _, ⟨hl, rfl, rfl⟩, _, _, h₁, _, _, h₂, _, _, h₃, h⟩ := h
    cases h₁
    cases h₃
    cases h
    by_cases hb : b = nil
    · subst hb
      cases h₂
      exact ⟨rfl, .inl rfl, by simp [laidOut, newObj]⟩
    · rw [if_pos hb, setXObjHeap_ok] at h₂
      obtain ⟨-, rfl⟩ := h₂
      exact ⟨rfl, hl, by simp [laidOut, newObj, hb]⟩

theorem allocLayOut_run (hs : sizeofObj * (extra + xObjMetaLen) ≤ size)
    (hb : b = nil ∨ s.Live b) (hp : a + (sizeofObj * extra : Nat) = p) (hn : nil < p) :
    allocLayOut env b t fl extra size a s =
      .ok p (s.laidOut b p a (newObj env s b t fl extra size p)) := by
  unfold allocLayOut
  rw [if_neg (not_lt.mpr hs), hp, Prog.bind_of_ok (chainHead_ok.mpr ⟨hb, rfl, rfl⟩)]
  rw [Prog.bind_of_ok (Prog.modify_apply ..)]
  by_cases hb' : b = nil
  · subst hb'
    simp only [laidOut, newObj, if_true]
    rfl
  · rw [if_pos hb', Prog.bind_of_ok (setXObjHeap_eq ?_)]
    · simp only [laidOut, newObj, hb', if_false]
      rfl
    · exact (live_place hn).mpr (.inr (hb.resolve_left hb'))

/-! ## A new object -/

/-- `s'` is `s` with a new object at `p`, made on the base `b` in the block `a`. -/
structure Made (s : Sys) (b t : Ptr) (fl : Flags) (data : List Word) (p a : Ptr) (s' : Sys) :
    Prop where
  base : b = nil ∨ s.Live b
  ne_nil : p ≠ nil
  addr : p = a + (sizeofObj * s.extraOf b : Nat)
  block_pos : a ≠ nil
  new : ¬ s.Live p
  block_new : s.block a = none
  live : ∀ q, s'.Live q ↔ q = p ∨ s.Live q
  next_new : s'.next p = s.next b
  next_old : ∀ q, s.Live q → s'.next q = if q = b then p else s.next q
  typeOf_new : s'.typeOf p = t
  typeOf_old : ∀ q, q ≠ p → s'.typeOf q = s.typeOf q
  flagsOf_new : s'.flagsOf p = if 0 < s.extraOf b then fl ||| xObjFlagMeta else fl
  flagsOf_old : ∀ q, q ≠ p → s'.flagsOf q = s.flagsOf q
  extrasOf_new : (s'.extrasOf p).length = s.extraOf b
  extrasOf_old : ∀ q, q ≠ p → s'.extrasOf q = s.extrasOf q
  data_new : s'.dataOf p = data
  unit_old : ∀ q i, q ≠ p → s'.unit q i =
    if s.Full b ∧ s.fieldObj b .allocCount = some q ∧ i = 0 then (s.unit q 0).map (· + 1)
    else s.unit q i
  block : ∀ w, s'.block w = if w = a then some p else s.block w
  requests : s'.requests = s.requests + 1
  trace : s'.trace = .objAlloc p a :: s.trace

/-- `s₁` is `s` after it was granted the block `a`, with the object counted on a full base. -/
structure Granted (s : Sys) (b a : Ptr) (s₁ : Sys) : Prop where
  live : ∀ q, s₁.Live q ↔ s.Live q
  next : ∀ q, s₁.next q = s.next q
  typeOf : ∀ q, s₁.typeOf q = s.typeOf q
  flagsOf : ∀ q, s₁.flagsOf q = s.flagsOf q
  extrasOf : ∀ q, s₁.extrasOf q = s.extrasOf q
  unit : ∀ q i, s₁.unit q i =
    if s.Full b ∧ s.fieldObj b .allocCount = some q ∧ i = 0 then (s.unit q 0).map (· + 1)
    else s.unit q i
  block : ∀ w, s₁.block w = if w = a then some nil else s.block w
  requests : s₁.requests = s.requests + 1
  trace : s₁.trace = s.trace

theorem granted_plain (hf : ¬ s.Full b) : Granted s b a (s.request.setBlock a nil) where
  live _ := Iff.rfl
  next _ := rfl
  typeOf _ := rfl
  flagsOf _ := rfl
  extrasOf _ := rfl
  unit q i := by simp [hf]
  block w := block_setBlock
  requests := rfl
  trace := rfl

theorem granted_counted {c : Ptr} {n : Word} (hf : s.Full b)
    (hc : s.fieldObj b .allocCount = some c) (hn : s.unit c 0 = some n) :
    Granted s b a ((s.request.setBlock a nil).setUnit c 0 (n + 1)) where
  live _ := live_setUnit
  next _ := next_setUnit
  typeOf _ := typeOf_setUnit
  flagsOf _ := flagsOf_setUnit
  extrasOf _ := extrasOf_setUnit
  unit q i := by
    rw [unit_setUnit (v := n) (by simpa using hn)]
    by_cases hq : q = c ∧ i = 0
    · obtain ⟨rfl, rfl⟩ := hq
      rw [if_pos ⟨rfl, rfl⟩, if_pos ⟨hf, hc, rfl⟩, hn]
      rfl
    · have hne : ¬ (s.Full b ∧ s.fieldObj b .allocCount = some q ∧ i = 0) := fun h =>
        hq ⟨Option.some.inj (h.2.1.symm.trans hc), h.2.2⟩
      rw [if_neg hq, if_neg hne]
      rfl
  block w := block_setUnit.trans block_setBlock
  requests := requests_modify
  trace := trace_modify

/-- `x_obj_alloc` has made the object that it lays out in the block it was granted. -/
theorem Granted.made {s₁ : Sys} (hg : Granted s b a s₁) (env : Env) (t : Ptr) (fl : Flags)
    (size : Nat) (hb : b = nil ∨ s.Live b) (hp : nil < p) (ha : a ≠ nil)
    (haddr : p = a + (sizeofObj * s.extraOf b : Nat)) (hnew : ¬ s.Live p)
    (hblk : s.block a = none) :
    Made s b t fl (newObj env s₁ b t fl (s.extraOf b) size p).data p a
      (s₁.laidOut b p a (newObj env s₁ b t fl (s.extraOf b) size p)) := by
  have hbp : b ≠ p := hb.elim (fun e => e ▸ hp.ne) fun hb e => hnew (e ▸ hb)
  have hb₁ : b = nil ∨ s₁.Live b := hb.imp id (hg.live b).mpr
  exact {
    base := hb
    ne_nil := hp.ne'
    addr := haddr
    block_pos := ha
    new := hnew
    block_new := hblk
    live := fun q => by rw [live_laidOut hp, hg.live]
    next_new := by
      rw [next_laidOut hp hb₁ hbp, if_pos rfl]
      exact hg.next b
    next_old := fun q hq => by
      have hqb : b ≠ nil ∧ q = b ↔ q = b :=
        and_iff_right_of_imp fun e => e ▸ hq.ne_nil
      rw [next_laidOut hp hb₁ hbp, if_neg fun e : q = p => hnew (e ▸ hq), hg.next]
      simp only [hqb]
    typeOf_new := (typeOf_laidOut hp).trans (if_pos rfl)
    typeOf_old := fun q hq => by rw [typeOf_laidOut hp, if_neg hq, hg.typeOf]
    flagsOf_new := (flagsOf_laidOut hp).trans (if_pos rfl)
    flagsOf_old := fun q hq => by rw [flagsOf_laidOut hp, if_neg hq, hg.flagsOf]
    extrasOf_new := by
      rw [extrasOf_laidOut hp, if_pos rfl]
      exact List.length_replicate
    extrasOf_old := fun q hq => by rw [extrasOf_laidOut hp, if_neg hq, hg.extrasOf]
    data_new := (dataOf_laidOut hp).trans (if_pos rfl)
    unit_old := fun q i hq => by
      rw [Sys.unit, dataOf_laidOut hp, if_neg hq]
      exact hg.unit q i
    block := fun w => by
      rw [block_laidOut, hg.block]
      split <;> rfl
    requests := requests_laidOut.trans hg.requests
    trace := by rw [trace_laidOut, hg.trace] }

/-- The block of a request, and an object inside it. -/
theorem malloc_fresh (env : Env) {n : Nat} (ha : a = env.malloc.address s n)
    (hp : p = a + (sizeofObj * extra : Nat)) (hs : sizeofObj * (extra + xObjMetaLen) ≤ n) :
    a ≠ nil ∧ nil < p ∧ ¬ s.Live p ∧ s.block a = none := by
  obtain ⟨h₁, h₂, h₃⟩ := env.malloc.fresh s n
  rw [← ha] at h₁ h₂ h₃
  have hx : ∀ (a p : Int) (x n : Nat), 0 < a → p = a + (x : Nat) → x + 24 ≤ n →
      a ≠ 0 ∧ 0 < p ∧ a ≤ p ∧ p < a + n := by omega
  obtain ⟨h₄, h₅, h₆, h₇⟩ := hx a p (sizeofObj * extra) n h₁ hp (by
    rwa [Nat.mul_add] at hs)
  exact ⟨h₄, h₅, h₃ p h₆ h₇, h₂⟩

/-! ## `x_obj_alloc` -/

/-- A call that returns was refused and has changed nothing, or has made an object. -/
theorem xObjAlloc_ok (h : xObjAlloc env b t fl units s = .ok p s') :
    (p = nil ∧ env.malloc.grants s.requests = false ∧ ¬ s.Full b ∧ s' = s.request) ∨
    ∃ a data, env.malloc.grants s.requests = true ∧ Made s b t fl data p a s' ∧
      data.length ≤ units := by
  unfold xObjAlloc at h
  rw [Prog.bind_ok] at h
  obtain ⟨l, _, hl, h⟩ := h
  obtain ⟨rfl, hfull, hextra, -⟩ := allocFields_ok hl
  rw [Prog.bind_ok] at h
  obtain ⟨_, _, htr, h⟩ := h
  obtain ⟨-, rfl⟩ := allocTripped_ok htr
  rw [Prog.bind_ok] at h
  obtain ⟨_, s, hce, h⟩ := h
  obtain ⟨rfl, -⟩ := allocCeiling_ok hce
  rw [Prog.bind_ok] at h
  obtain ⟨a, s₁, hm, h⟩ := h
  rw [xSysMalloc_eq] at hm
  split at hm
  · next hg =>
    cases hm
    have ha : env.malloc.address s (xObjSize l.extra units) ≠ nil := by
      have := (env.malloc.fresh s (xObjSize l.extra units)).1
      exact fun e => absurd (e ▸ this) (lt_irrefl _)
    rw [if_neg ha, Prog.bind_ok] at h
    obtain ⟨_, s₂, hbump, h⟩ := h
    obtain ⟨hs, hp, hb, rfl⟩ := allocLayOut_ok h
    obtain ⟨h₁, h₂, h₃, h₄⟩ := malloc_fresh env rfl hp hs
    have hgr : Granted s b (env.malloc.address s (xObjSize l.extra units)) s₂ := by
      by_cases hf : s.Full b
      · rw [hfull, decide_eq_true hf, if_pos rfl] at hbump
        obtain ⟨c, n, hc, hn, rfl⟩ := bumpCount_ok.mp hbump
        exact granted_counted hf hc hn
      · rw [hfull, decide_eq_false hf] at hbump
        cases hbump
        exact granted_plain hf
    rw [hextra] at hgr hp h₁ h₄ ⊢
    refine .inr ⟨_, _, hg, hgr.made env t fl _ (hb.imp id (hgr.live b).mp) h₂ h₁ hp h₃ h₄, ?_⟩
    rw [newObj_data_length]
    simp only [xObjSize, sizeofObj, xObjMetaLen]
    omega
  · next hg =>
    cases hm
    rw [if_pos rfl] at h
    unfold allocRefused at h
    split at h
    · rw [Prog.bind_ok] at h
      obtain ⟨_, _, -, h⟩ := h
      cases h
    · next hf =>
      cases h
      rw [hfull, decide_eq_true_eq] at hf
      exact .inl ⟨rfl, by simpa using hg, hf, rfl⟩

/-! ## `x_obj_make` -/

/-- `s'` is `s` with the units of `p` from `i` on assigned. -/
structure Stored (s : Sys) (p : Ptr) (i : Nat) (data : List Word) (s' : Sys) : Prop where
  live : ∀ q, s'.Live q ↔ s.Live q
  next : ∀ q, s'.next q = s.next q
  typeOf : ∀ q, s'.typeOf q = s.typeOf q
  flagsOf : ∀ q, s'.flagsOf q = s.flagsOf q
  extrasOf : ∀ q, s'.extrasOf q = s.extrasOf q
  unit_other : ∀ q j, q ≠ p → s'.unit q j = s.unit q j
  unit_self : ∀ j, s'.unit p j =
    if i ≤ j ∧ j < i + data.length then data[j - i]? else s.unit p j
  block : ∀ w, s'.block w = s.block w
  requests : s'.requests = s.requests
  trace : s'.trace = s.trace

theorem storeUnits_ok {i : Nat} {data : List Word} {u : Unit}
    (h : storeUnits p i data s = .ok u s') : Stored s p i data s' := by
  induction data generalizing s i with
  | nil =>
    cases h
    constructor <;> intros <;> simp
  | cons w data ih =>
    unfold storeUnits at h
    rw [Prog.bind_ok] at h
    obtain ⟨_, s₁, h₁, h⟩ := h
    obtain ⟨⟨v, hv⟩, rfl⟩ := setXObjDataI_ok.mp h₁
    have hs := ih h
    constructor
    case live => intro q; rw [hs.live, live_setUnit]
    case next => intro q; rw [hs.next, next_setUnit]
    case typeOf => intro q; rw [hs.typeOf, typeOf_setUnit]
    case flagsOf => intro q; rw [hs.flagsOf, flagsOf_setUnit]
    case extrasOf => intro q; rw [hs.extrasOf, extrasOf_setUnit]
    case unit_other =>
      intro q j hq
      rw [hs.unit_other q j hq, unit_setUnit hv, if_neg (fun h => hq h.1)]
    case unit_self =>
      intro j
      rw [hs.unit_self, unit_setUnit hv]
      simp only [List.length_cons, true_and]
      rcases Nat.lt_trichotomy j i with hj | rfl | hj
      · rw [if_neg (by omega), if_neg (by omega), if_neg (by omega)]
      · rw [if_neg (by omega), if_pos rfl, if_pos (by omega)]
        simp
      · obtain ⟨k, rfl⟩ : ∃ k, j = i + 1 + k := ⟨j - i - 1, by omega⟩
        have e₁ : i + 1 + k - (i + 1) = k := by omega
        have e₂ : i + 1 + k - i = k + 1 := by omega
        rw [e₁, e₂, List.getElem?_cons_succ]
        by_cases hk : k < data.length
        · rw [if_pos (by omega), if_pos (by omega)]
        · rw [if_neg (by omega), if_neg (by omega), if_neg (by omega)]
    case block => intro w; rw [hs.block, block_setUnit]
    case requests => rw [hs.requests]; exact requests_modify
    case trace => rw [hs.trace]; exact trace_modify

theorem storeUnits_run {i : Nat} {data : List Word} (h : i + data.length ≤ (s.dataOf p).length) :
    ∃ s', storeUnits p i data s = .ok () s' := by
  induction data generalizing s i with
  | nil => exact ⟨s, rfl⟩
  | cons w data ih =>
    simp only [List.length_cons] at h
    obtain ⟨v, hv⟩ := unit_isSome_iff.mpr (show i < (s.dataOf p).length by omega)
    unfold storeUnits
    rw [Prog.bind_of_ok (setXObjDataI_eq hv)]
    refine ih ?_
    rw [dataOf_setUnit, if_pos rfl, List.length_set]
    omega

/-- The units of an object may only be stored past its end. -/
theorem storeUnits_error {i : Nat} {data : List Word} {e : Stop} (hp : s.Live p)
    (h : storeUnits p i data s = .error e s') : ∃ j, e = .fault (.outOfBounds p j) := by
  induction data generalizing s i with
  | nil => cases h
  | cons w data ih =>
    unfold storeUnits at h
    cases hu : s.unit p i with
    | some v =>
      rw [Prog.bind_of_ok (setXObjDataI_eq hu)] at h
      exact ih (live_setUnit.mpr hp) h
    | none =>
      rw [setXObjDataI, bind_assoc, Prog.bind_of_error (xObjDataI_out hp hu)] at h
      cases h
      exact ⟨i, rfl⟩

/-- The data units of a new object assigned. -/
theorem Made.store {data₀ data : List Word} {s₁ : Sys} (hm : Made s b t fl data₀ p a s₁)
    (hs : Stored s₁ p 0 data s') (hd : data₀.length ≤ data.length) :
    Made s b t fl data p a s' where
  base := hm.base
  ne_nil := hm.ne_nil
  addr := hm.addr
  block_pos := hm.block_pos
  new := hm.new
  block_new := hm.block_new
  live q := by rw [hs.live, hm.live]
  next_new := by rw [hs.next, hm.next_new]
  next_old q hq := by rw [hs.next, hm.next_old q hq]
  typeOf_new := by rw [hs.typeOf, hm.typeOf_new]
  typeOf_old q hq := by rw [hs.typeOf, hm.typeOf_old q hq]
  flagsOf_new := by rw [hs.flagsOf, hm.flagsOf_new]
  flagsOf_old q hq := by rw [hs.flagsOf, hm.flagsOf_old q hq]
  extrasOf_new := by rw [hs.extrasOf, hm.extrasOf_new]
  extrasOf_old q hq := by rw [hs.extrasOf, hm.extrasOf_old q hq]
  data_new := by
    refine List.ext_getElem? fun j => ?_
    have h := hs.unit_self j
    rw [Nat.zero_add, Nat.sub_zero] at h
    change s'.unit p j = _
    rw [h]
    split
    · rfl
    · next hj =>
      rw [Sys.unit, hm.data_new, List.getElem?_eq_none (by omega), List.getElem?_eq_none (by omega)]
  unit_old q i hq := by rw [hs.unit_other q i hq, hm.unit_old q i hq]
  block w := by rw [hs.block, hm.block]
  requests := by rw [hs.requests, hm.requests]
  trace := by rw [hs.trace, hm.trace]

theorem xObjMake_ok {data : List Word} (h : xObjMake env b t fl data s = .ok p s') :
    (p = nil ∧ env.malloc.grants s.requests = false ∧ ¬ s.Full b ∧ s' = s.request) ∨
    ∃ a, env.malloc.grants s.requests = true ∧ Made s b t fl data p a s' := by
  unfold xObjMake at h
  rw [Prog.bind_ok] at h
  obtain ⟨q, s₁, ha, h⟩ := h
  rcases xObjAlloc_ok ha with ⟨rfl, hg, hf, rfl⟩ | ⟨a, data₀, hg, hm, hd⟩
  · cases h
    exact .inl ⟨rfl, hg, hf, rfl⟩
  · rw [if_neg hm.ne_nil, Prog.bind_ok] at h
    obtain ⟨_, s₂, hs, h⟩ := h
    cases h
    exact .inr ⟨a, hg, hm.store (storeUnits_ok hs) hd⟩

/-! ## Calls without a full base -/

/-- Without a full base the call returns, refused or with the object, unless the size of the block
wraps around. -/
theorem xObjAlloc_bare_cases (env : Env) (t : Ptr) (fl : Flags) (units : Nat) (hb : s.Bare b) :
    (env.malloc.grants s.requests = false ∧ xObjAlloc env b t fl units s = .ok nil s.request) ∨
    (env.malloc.grants s.requests = true ∧ xObjSize 0 units < sizeofObj * (0 + xObjMetaLen) ∧
      ∃ a s', xObjAlloc env b t fl units s = .error (.fault (.overflow a)) s') ∨
    ∃ p a data s', env.malloc.grants s.requests = true ∧
      xObjAlloc env b t fl units s = .ok p s' ∧ Made s b t fl data p a s' ∧
      data.length = xObjSize 0 units / sizeofObj - xObjMetaLen := by
  have hrun : ∀ {r}, (xSysMalloc env (xObjSize 0 units) >>= fun a =>
      if a = nil then allocRefused ⟨false, 0, 0, nil⟩
      else allocLayOut env b t fl 0 (xObjSize 0 units) a) s = r →
      xObjAlloc env b t fl units s = r := by
    rintro r rfl
    unfold xObjAlloc
    rw [Prog.bind_of_ok (allocFields_bare hb)]
    rfl
  have hlive : b = nil ∨ s.Live b := hb.imp id And.left
  by_cases hg : env.malloc.grants s.requests = true
  · have hpos : env.malloc.address s (xObjSize 0 units) ≠ nil :=
      (env.malloc.fresh s (xObjSize 0 units)).1.ne'
    by_cases hx : sizeofObj * (0 + xObjMetaLen) ≤ xObjSize 0 units
    · obtain ⟨h₁, h₂, h₃, h₄⟩ := malloc_fresh env (s := s) rfl rfl hx
      have hgr := granted_plain (a := env.malloc.address s (xObjSize 0 units)) hb.not_full
      have hx₀ := extraOf_of_not_full hb.not_full
      have hm := hgr.made env t fl (xObjSize 0 units) hlive h₂ h₁ (by rw [hx₀]) h₃ h₄
      rw [hx₀] at hm
      refine .inr (.inr ⟨_, _, _, _, hg, hrun ?_, hm, newObj_data_length⟩)
      rw [Prog.bind_of_ok (by rw [xSysMalloc_eq, if_pos hg]), if_neg h₁]
      exact allocLayOut_run hx (by simpa using hlive) rfl h₂
    · refine .inr (.inl ⟨hg, not_le.mp hx, env.malloc.address s (xObjSize 0 units),
        s.request.setBlock (env.malloc.address s (xObjSize 0 units)) nil, hrun ?_⟩)
      rw [Prog.bind_of_ok (by rw [xSysMalloc_eq, if_pos hg]), if_neg hpos]
      unfold allocLayOut
      rw [if_pos (not_le.mp hx)]
      rfl
  · refine .inl ⟨by simpa using hg, hrun ?_⟩
    rw [Prog.bind_of_ok (by rw [xSysMalloc_eq, if_neg hg]), if_pos rfl]
    rfl

/-- Without a full base the call returns: refused, or with the object. -/
theorem xObjAlloc_bare (env : Env) (t : Ptr) (fl : Flags) (hb : s.Bare b)
    (hu : units ≤ 2 ^ 60) :
    (env.malloc.grants s.requests = false ∧ xObjAlloc env b t fl units s = .ok nil s.request) ∨
    ∃ p a data s', env.malloc.grants s.requests = true ∧
      xObjAlloc env b t fl units s = .ok p s' ∧ Made s b t fl data p a s' ∧
      data.length = units := by
  have hsize : xObjSize 0 units = 8 * (3 + units) := by
    simp only [xObjSize, sizeofObj, xObjMetaLen]
    omega
  rcases xObjAlloc_bare_cases env t fl units hb with
    h | ⟨-, hx, -⟩ | ⟨p, a, data, s', hg, hrun, hm, hd⟩
  · exact .inl h
  · rw [hsize] at hx
    simp only [sizeofObj, xObjMetaLen] at hx
    omega
  · refine .inr ⟨p, a, data, s', hg, hrun, hm, ?_⟩
    rw [hd, hsize]
    simp only [sizeofObj, xObjMetaLen]
    omega

theorem xObjMake_bare (env : Env) (t : Ptr) (fl : Flags) (data : List Word) (hb : s.Bare b)
    (hu : data.length ≤ 2 ^ 60) :
    (env.malloc.grants s.requests = false ∧ xObjMake env b t fl data s = .ok nil s.request) ∨
    ∃ p a s', env.malloc.grants s.requests = true ∧
      xObjMake env b t fl data s = .ok p s' ∧ Made s b t fl data p a s' := by
  unfold xObjMake
  rcases xObjAlloc_bare env t fl hb hu with
    ⟨hg, h⟩ | ⟨p, a, data₀, s₁, hg, h, hm, hd⟩
  · exact .inl ⟨hg, by rw [Prog.bind_of_ok h, if_pos rfl]; rfl⟩
  · obtain ⟨s₂, hs⟩ := storeUnits_run
      (show 0 + data.length ≤ (s₁.dataOf p).length by rw [hm.data_new, hd, Nat.zero_add])
    refine .inr ⟨p, a, s₂, hg, ?_, hm.store (storeUnits_ok hs) hd.le⟩
    rw [Prog.bind_of_ok h, if_neg hm.ne_nil, Prog.bind_of_ok hs]
    rfl

/-- A base without a type stays one. -/
theorem Made.bare_base {data : List Word} (h : Made s b t fl data p a s') (hb : s.Bare b) :
    s'.Bare b := by
  refine hb.imp_right fun ⟨hl, ht⟩ => ⟨(h.live b).mpr (.inr hl), ?_⟩
  rw [h.typeOf_old b fun e => h.new (e ▸ hl), ht]

/-- On such a base every object is made that there is memory for, with the flags it is given. -/
theorem xObjMake_granted (env : Env) (t : Ptr) (fl : Flags) (data : List Word) (hb : s.Bare b)
    (hg : env.malloc.grants s.requests = true) (hu : data.length ≤ 2 ^ 60) :
    ∃ p a s', xObjMake env b t fl data s = .ok p s' ∧ Made s b t fl data p a s' ∧ s'.Bare b ∧
      s'.flagsOf p = fl := by
  rcases xObjMake_bare env t fl data hb hu with ⟨hno, -⟩ | ⟨p, a, s', -, hrun, hm⟩
  · cases hg.symm.trans hno
  · refine ⟨p, a, s', hrun, hm, hm.bare_base hb, ?_⟩
    rw [hm.flagsOf_new, extraOf_of_not_full hb.not_full, if_neg (lt_irrefl 0)]

/-! ## Calls on a full base -/

/-- A full base whose fields can be read, below its ceiling. -/
structure Sys.AllocReady (s : Sys) (b : Ptr) : Prop where
  full : s.Full b
  extra : ∃ e, s.fieldInt b .objMetaExtra = some e
  limit : ∃ lim, s.fieldInt b .allocLimit = some lim ∧ 0 ≤ lim ∧
    (0 < lim → ∃ n, s.fieldInt b .allocCount = some n ∧ n < lim)
  error : ∃ msg, s.fieldObj b .allocError = some msg
  count : ∃ c n, s.fieldObj b .allocCount = some c ∧ s.unit c 0 = some n

/-- The fields of such a base, with which the call gets to `malloc`. -/
theorem Sys.AllocReady.fields (env : Env) (h : s.AllocReady b) : ∃ l, allocFields b s = .ok l s ∧
    l.full = true ∧ l.extra = s.extraOf b ∧ allocTripped l s = .ok () s ∧
      allocCeiling env b l s = .ok () s := by
  obtain ⟨e, he⟩ := h.extra
  obtain ⟨lim, hlim, h₀, hlt⟩ := h.limit
  obtain ⟨msg, hmsg⟩ := h.error
  have hx : s.extraOf b = toSizeT e := by simp [extraOf, h.full, he]
  refine ⟨⟨true, s.extraOf b, lim, msg⟩, ?_, rfl, rfl, ?_, ?_⟩
  · rw [allocFields, Prog.bind_of_ok (baseFull_run h.full), if_pos rfl,
      Prog.bind_of_ok (Field.int_run he), Prog.bind_of_ok (Field.int_run hlim),
      Prog.bind_of_ok (Field.obj_run hmsg), hx]
    rfl
  · rw [allocTripped, if_neg (not_lt.mpr h₀)]
    rfl
  · unfold allocCeiling
    by_cases hp : 0 < lim
    · obtain ⟨k, hk, hkl⟩ := hlt hp
      rw [if_pos hp, Prog.bind_of_ok (Field.int_run hk), if_neg (not_le.mpr hkl)]
      rfl
    · rw [if_neg hp]
      rfl

/-- Below the ceiling a granted request returns the object, if its size does not wrap around. -/
theorem xObjAlloc_ready (env : Env) (t : Ptr) (fl : Flags) (units : Nat) (h : s.AllocReady b)
    (hg : env.malloc.grants s.requests = true)
    (hu : sizeofObj * (s.extraOf b + xObjMetaLen + units) < 2 ^ 64) :
    ∃ p data s', xObjAlloc env b t fl units s = .ok p s' ∧ Made s b t fl data p
      (env.malloc.address s (sizeofObj * (s.extraOf b + xObjMetaLen + units))) s' ∧
      data.length = units := by
  obtain ⟨l, hfields, hfull, hextra, htripped, hceiling⟩ := h.fields env
  obtain ⟨c, n, hc, hn⟩ := h.count
  have hsize : xObjSize (s.extraOf b) units =
      sizeofObj * (s.extraOf b + xObjMetaLen + units) := by
    unfold xObjSize
    simp only [sizeofObj] at hu ⊢
    omega
  let a := env.malloc.address s (xObjSize (s.extraOf b) units)
  have hbump : bumpCount b 1 (s.request.setBlock a nil) =
      .ok () ((s.request.setBlock a nil).setUnit c 0 (n + 1)) :=
    bumpCount_ok.mpr ⟨c, n, hc, hn, rfl⟩
  have hle : sizeofObj * (s.extraOf b + xObjMetaLen) ≤ xObjSize (s.extraOf b) units := by
    rw [hsize]
    exact Nat.mul_le_mul_left _ (Nat.le_add_right ..)
  obtain ⟨ha, hp, hnew, hblk⟩ := malloc_fresh env (s := s) rfl rfl hle
  have hgr := granted_counted (a := a) h.full hc hn
  rw [← hsize]
  have hm := hgr.made env t fl (xObjSize (s.extraOf b) units) (.inr h.full.live) hp ha rfl hnew hblk
  refine ⟨_, _, _, ?_, hm, ?_⟩
  · unfold xObjAlloc
    rw [Prog.bind_of_ok hfields, Prog.bind_of_ok htripped, Prog.bind_of_ok hceiling, hextra, hfull,
      Prog.bind_of_ok (by rw [xSysMalloc_eq, if_pos hg]), if_neg ha, if_pos rfl,
      Prog.bind_of_ok hbump]
    exact allocLayOut_run hle (.inr ((hgr.live b).mpr h.full.live)) rfl hp
  · rw [newObj_data_length, hsize]
    simp only [sizeofObj, xObjMetaLen]
    omega

theorem xObjAlloc_full (env : Env) (t : Ptr) (fl : Flags) (h : s.AllocReady b)
    (hg : env.malloc.grants s.requests = true) (hu : s.extraOf b + units ≤ 2 ^ 59) :
    ∃ p a data s', xObjAlloc env b t fl units s = .ok p s' ∧ Made s b t fl data p a s' ∧
      data.length = units := by
  obtain ⟨p, data, s', hrun, hm, hd⟩ := xObjAlloc_ready env t fl units h hg
    (by simp only [sizeofObj, xObjMetaLen]; omega)
  exact ⟨p, _, data, s', hrun, hm, hd⟩

theorem xObjMake_full (env : Env) (t : Ptr) (fl : Flags) (data : List Word) (h : s.AllocReady b)
    (hg : env.malloc.grants s.requests = true) (hu : s.extraOf b + data.length ≤ 2 ^ 59) :
    ∃ p a s', xObjMake env b t fl data s = .ok p s' ∧ Made s b t fl data p a s' := by
  obtain ⟨p, a, data₀, s₁, hrun, hm, hd⟩ := xObjAlloc_full env t fl h hg hu
  obtain ⟨s₂, hs⟩ := storeUnits_run
    (show 0 + data.length ≤ (s₁.dataOf p).length by rw [hm.data_new, hd, Nat.zero_add])
  refine ⟨p, a, s₂, ?_, hm.store (storeUnits_ok hs) hd.le⟩
  unfold xObjMake
  rw [Prog.bind_of_ok hrun, if_neg hm.ne_nil, Prog.bind_of_ok hs]
  rfl

end XExpr
