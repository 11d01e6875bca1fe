import XExpr.Base.Tree
import XExpr.Heap.Walk

/-!
# What a sweep does

`Sweepable`: a terminated chain behind `prev`, in a memory in which each object that the sweep
frees can be given back. From such a memory the loop of `x_heap_sweep` returns, and `Swept` says
how the memory differs afterwards: the chain is filtered in order to the objects that are kept,
these lose the flags, the others are gone with their blocks and with what they owned, and nothing
else has changed but the object count of a full base.

* `sweepLoop_run`, by induction on the chain: what one pass keeps (`Sweepable.keep`) and frees
  (`Sweepable.free`) leaves the rest of the chain sweepable.
* `xHeapSweep_run`: a sweep of the chain behind the base.
-/

namespace XExpr

open Sys Chain

/-- What a freed object leaves in the trace. -/
def freeEvents (fn : Word) (a p : Ptr) : List Event :=
  if fn = nil then [.objFree p a] else [.objFree p a, .freeHook p]

/-- What is freed on the base `b` can be accounted: it is minimal, or full with the tree `t`. -/
structure Accounted (s : Sys) (b : Ptr) (t : Cells Word) (cell : Field → Layout Word) :
    Prop where
  status : s.Minimal b ∨ s.Full b
  tree : s.Full b → BaseTree s b t cell
  fields : s.Full b → ∃ x, cell .objMetaExtra = cellInt (some x) ∧ cell .allocCount = cellInt none
  shared : s.Full b → ∀ q ∈ t.nodes, s.flagsOf q &&& xObjFlagShared ≠ 0

/-- The chain `l` from `node` on, behind `prev`, can be swept on the base `b`. -/
structure Sweepable (s : Sys) (b : Ptr) (t : Cells Word) (cell : Field → Layout Word)
    (F : Flags) (prev node : Ptr) (l : List Ptr) : Prop where
  base : Accounted s b t cell
  seg : Seg s.next node l nil
  nodup : l.Nodup
  live : ∀ q ∈ l, s.Live q
  prev_live : s.Live prev
  prev_notMem : prev ∉ l
  base_notMem : b ∉ l
  placed : ∀ p ∈ l, s.kept F p = false →
    s.freeAddr (s.extraOf b) p ≠ nil ∧ s.block (s.freeAddr (s.extraOf b) p) = some p
  own : ∀ p ∈ l, s.kept F p = false → s.flagsOf p &&& xObjFlagOwn ≠ 0 →
    ∃ w, s.unit p 0 = some w ∧ (w = nil ∨ s.block w = some nil)
  own_inj : ∀ p ∈ l, ∀ q ∈ l, ∀ w, s.kept F p = false → s.kept F q = false → p ≠ q →
    s.Owns p w → ¬ s.Owns q w

/-- `s'` is `s` after the objects `l` were swept on the base `b`: some are kept and lose the flags,
the others are gone with their blocks and what they owned. -/
structure Reclaimed (s : Sys) (b : Ptr) (F : Flags) (fn : Word) (l : List Ptr) (s' : Sys) :
    Prop where
  live : ∀ q, s'.Live q ↔ s.Live q ∧ (q ∈ l → s.kept F q = true)
  typeOf : ∀ q, s'.Live q → s'.typeOf q = s.typeOf q
  flags_mem : ∀ q ∈ l, s.kept F q = true → s'.flagsOf q = s.flagsOf q &&& ~~~F
  flags_notMem : ∀ q, q ∉ l → s'.flagsOf q = s.flagsOf q
  unit : ∀ q i, s'.Live q → s'.unit q i =
    if s.Full b ∧ s.fieldObj b .allocCount = some q ∧ i = 0 then
      (s.unit q 0).map (· - ((l.filter fun p => !s.kept F p).length : Int))
    else s.unit q i
  extrasOf : ∀ q, s'.Live q → s'.extrasOf q = s.extrasOf q
  block : ∀ a, s'.block a =
    if ∃ p ∈ l, s.kept F p = false ∧ (a = s.freeAddr (s.extraOf b) p ∨ s.Owns p a) then none
    else s.block a
  requests : s'.requests = s.requests
  trace : s'.trace = (l.filter fun p => !s.kept F p).foldl
    (fun tr p => freeEvents fn (s.freeAddr (s.extraOf b) p) p ++ tr) s.trace

/-- `s'` is `s` with the chain `l` behind `prev` swept on the base `b`. -/
structure Swept (s : Sys) (b : Ptr) (F : Flags) (fn : Word) (prev : Ptr) (l : List Ptr)
    (s' : Sys) : Prop extends Reclaimed s b F fn l s' where
  chain : Seg s'.next (s'.next prev) (l.filter (s.kept F)) nil
  next : ∀ q, q ≠ prev → q ∉ l → s'.next q = s.next q

section Sweep

variable {env : Env} {s s' : Sys} {b prev node p q : Ptr} {t : Cells Word}
  {cell : Field → Layout Word} {F : Flags} {fn : Word} {l : List Ptr} {n : Nat}

theorem filter_kept_congr (h : ∀ q ∈ l, s'.flagsOf q = s.flagsOf q) :
    l.filter (s'.kept F) = l.filter (s.kept F) := List.filter_congr fun q hq => kept_congr (h q hq)

theorem filter_kept_setFlags {fl : Flags} (hp : s.Live p) (hpl : p ∉ l) :
    l.filter ((s.setFlags p fl).kept F) = l.filter (s.kept F) := filter_kept_congr fun q hq => by
  rw [flagsOf_setFlags hp, if_neg fun e : q = p => hpl (e ▸ hq)]

theorem freeAddr_congr {e : Nat} (h : s'.flagsOf p = s.flagsOf p) :
    s'.freeAddr e p = s.freeAddr e p := by simp only [freeAddr, h]

theorem freeAddr_zero : s.freeAddr 0 p = p := by simp [freeAddr]

theorem owns_congr {w : Ptr} (h : s'.flagsOf p = s.flagsOf p) (hu : s'.unit p 0 = s.unit p 0) :
    s'.Owns p w ↔ s.Owns p w := by simp only [Owns, h, hu]

/-- The tree fixes which atom holds the count. -/
theorem BaseTree.count_congr (h : BaseTree s b t cell) (h' : BaseTree s' b t cell) {x y}
    (hx : cell .allocCount = cellInt x) (hy : cell .allocCount = cellInt y) :
    s'.fieldObj b .allocCount = s.fieldObj b .allocCount := by
  obtain ⟨a, -, ha, -, -, hs, -⟩ := h.fieldAtom hx
  obtain ⟨a', -, ha', -, -, hs', -⟩ := h'.fieldAtom hy
  rw [ha, ha', (Prod.mk.inj (Option.some.inj (hs.symm.trans hs'))).1]

namespace Accounted

/-- A step that leaves the type of the base and the tree of a full one alone. -/
theorem step (h : Accounted s b t cell) (s' : Sys) (hl : s.Live b → s'.Live b)
    (ht : s'.typeOf b = s.typeOf b) (hu : ¬ s.Full b → s'.unit b 0 = s.unit b 0)
    (htree : s.Full b → BaseTree s' b t cell)
    (hsh : s.Full b → ∀ q ∈ t.nodes, s'.flagsOf q &&& xObjFlagShared ≠ 0) :
    Accounted s' b t cell ∧ (s'.Full b ↔ s.Full b) ∧ s'.extraOf b = s.extraOf b ∧
      (s.Full b → s'.fieldObj b .allocCount = s.fieldObj b .allocCount) := by
  rcases h.status with hb | hf
  · have hb' : s'.Minimal b := hb.imp id fun hb' => ⟨hl hb'.1, hb'.2.imp ht.trans fun hn =>
      (hu hb.not_full).trans hn⟩
    have hn := hb'.not_full
    refine ⟨⟨.inl hb', fun hf => absurd hf hn, fun hf => absurd hf hn, fun hf => absurd hf hn⟩,
      iff_of_false hn hb.not_full, ?_, fun hf => absurd hf hb.not_full⟩
    rw [extraOf_of_not_full hn, extraOf_of_not_full hb.not_full]
  · have hf' : s'.Full b := ⟨ht ▸ hf.1, (htree hf).isSet⟩
    obtain ⟨x, hx, hc⟩ := h.fields hf
    refine ⟨⟨.inr hf', fun _ => htree hf, fun _ => ⟨x, hx, hc⟩, fun _ => hsh hf⟩,
      iff_of_true hf' hf, ?_, fun _ => (h.tree hf).count_congr (htree hf) hc hc⟩
    simp only [extraOf, hf, hf', if_true, (h.tree hf).fieldInt hx, (htree hf).fieldInt hx]

/-- The object count is in a node of the tree. -/
theorem count_mem (h : Accounted s b t cell) (hf : s.Full b)
    (hc : s.fieldObj b .allocCount = some q) : q ∈ t.nodes := by
  obtain ⟨x, -, hx⟩ := h.fields hf
  obtain ⟨a, -, ha, hmem, -⟩ := (h.tree hf).fieldAtom hx
  obtain rfl : a = q := Option.some.inj (ha.symm.trans hc)
  exact hmem

/-- What is not kept is no part of a full base. -/
theorem notMem (h : Accounted s b t cell) (hk : s.kept F q = false) (hf : s.Full b) :
    q ∉ t.nodes := fun hq => h.shared hf q hq (not_shared hk)

theorem count_ne (h : Accounted s b t cell) (hk : s.kept F q = false) (hf : s.Full b) :
    s.fieldObj b .allocCount ≠ some q := fun hc => h.notMem hk hf (h.count_mem hf hc)

theorem freeReady (h : Accounted s b t cell) : s.FreeReady b (s.extraOf b) := by
  by_cases hf : s.Full b
  · obtain ⟨x, hx⟩ := h.fields hf
    exact (h.tree hf).freeReady fun _ => hx
  · exact ⟨(h.status.resolve_right hf).readable, fun hf' => absurd hf' hf,
      fun _ => extraOf_of_not_full hf, fun hf' => absurd hf' hf⟩

end Accounted

/-- The objects of `l` that a sweep with `F` frees can be given back over `e` extra units, with what
they own. -/
structure Returnable (s : Sys) (e : Nat) (F : Flags) (l : List Ptr) : Prop where
  placed : ∀ p ∈ l, s.kept F p = false →
    s.freeAddr e p ≠ nil ∧ s.block (s.freeAddr e p) = some p
  own : ∀ p ∈ l, s.kept F p = false → s.flagsOf p &&& xObjFlagOwn ≠ 0 →
    ∃ w, s.unit p 0 = some w ∧ (w = nil ∨ s.block w = some nil)
  own_inj : ∀ p ∈ l, ∀ q ∈ l, ∀ w, s.kept F p = false → s.kept F q = false → p ≠ q →
    s.Owns p w → ¬ s.Owns q w

namespace Returnable

variable {e : Nat}

/-- A step that leaves the objects, their blocks and what they own alone. -/
theorem mono (h : Returnable s e F l) (hflags : ∀ q ∈ l, s'.flagsOf q = s.flagsOf q)
    (hunit : ∀ q ∈ l, s.kept F q = false → s'.unit q 0 = s.unit q 0)
    (hplaced : ∀ q ∈ l, s.kept F q = false → s.block (s.freeAddr e q) = some q →
      s'.block (s.freeAddr e q) = some q)
    (howned : ∀ q ∈ l, s.kept F q = false → ∀ w, s.Owns q w → s.block w = some nil →
      s'.block w = some nil) : Returnable s' e F l where
  placed q hq hk := by
    rw [kept_congr (hflags q hq)] at hk
    obtain ⟨h₁, h₂⟩ := h.placed q hq hk
    rw [freeAddr_congr (hflags q hq)]
    exact ⟨h₁, hplaced q hq hk h₂⟩
  own q hq hk ho := by
    rw [kept_congr (hflags q hq)] at hk
    rw [hflags q hq] at ho
    obtain ⟨w, hw, hw'⟩ := h.own q hq hk ho
    refine ⟨w, (hunit q hq hk).trans hw, ?_⟩
    by_cases hn : w = nil
    · exact .inl hn
    · exact .inr (howned q hq hk w ⟨ho, hw, hn⟩ (hw'.resolve_left hn))
  own_inj q hq r hr w hkq hkr hne := by
    rw [kept_congr (hflags q hq)] at hkq
    rw [kept_congr (hflags r hr)] at hkr
    rw [owns_congr (hflags q hq) (hunit q hq hkq), owns_congr (hflags r hr) (hunit r hr hkr)]
    exact h.own_inj q hq r hr w hkq hkr hne

/-- The first object is given back. -/
theorem free (h : Returnable s e F (p :: l)) (hn : p ∉ l) (hlive : ∀ q ∈ p :: l, s.Live q)
    (hk : s.kept F p = false) (hflags : ∀ q ∈ l, s'.flagsOf q = s.flagsOf q)
    (hunit : ∀ q ∈ l, s.kept F q = false → s'.unit q 0 = s.unit q 0)
    (hblock : ∀ a, s'.block a =
      if a = s.freeAddr e p ∨ s.Owns p a then none else s.block a) :
    Returnable s' e F l := by
  obtain ⟨-, hblk⟩ := h.placed p (.head _) hk
  have hl : Returnable s e F l := ⟨fun q hq => h.placed q (.tail _ hq),
    fun q hq => h.own q (.tail _ hq), fun q hq r hr => h.own_inj q (.tail _ hq) r (.tail _ hr)⟩
  have hne : ∀ q ∈ l, q ≠ p := fun q hq e => hn (e ▸ hq)
  refine hl.mono hflags hunit (fun q hq _ hb => ?_) fun q hq hkq w hw hb => ?_
  · rw [hblock, if_neg, hb]
    rintro (e | ho)
    · rw [e, hblk] at hb
      exact hne q hq (Option.some.inj hb).symm
    · -- An owned block holds no object.
      obtain ⟨w, hw, hw'⟩ := h.own p (.head _) hk ho.1
      obtain rfl : w = _ := Option.some.inj (hw.symm.trans ho.2.1)
      have hb' := hw'.resolve_left ho.2.2
      rw [hb] at hb'
      exact (hlive q (.tail _ hq)).ne_nil (Option.some.inj hb')
  · rw [hblock, if_neg, hb]
    rintro (e | ho)
    · rw [e, hblk] at hb
      exact (hlive p (.head _)).ne_nil (Option.some.inj hb)
    · exact h.own_inj p (.head _) q (.tail _ hq) w hk hkq (hne q hq).symm ho hw

end Returnable

theorem Sweepable.returnable (h : Sweepable s b t cell F prev node l) :
    Returnable s (s.extraOf b) F l := ⟨h.placed, h.own, h.own_inj⟩

namespace Sweepable

theorem tail_seg (h : Sweepable s b t cell F prev node (p :: l)) :
    node = p ∧ Seg s.next (s.next p) l nil := h.seg

/-- The rest of the chain behind its first node. -/
theorem tail (h : Sweepable s b t cell F prev node (p :: l)) :
    Sweepable s b t cell F p (s.next p) l where
  base := h.base
  seg := h.tail_seg.2
  nodup := (List.nodup_cons.mp h.nodup).2
  live q hq := h.live q (.tail _ hq)
  prev_live := h.live p (.head _)
  prev_notMem := (List.nodup_cons.mp h.nodup).1
  base_notMem hb := h.base_notMem (.tail _ hb)
  placed q hq := h.placed q (.tail _ hq)
  own q hq := h.own q (.tail _ hq)
  own_inj q hq r hr := h.own_inj q (.tail _ hq) r (.tail _ hr)

end Sweepable

/-- Clearing flags other than the shared one leaves the base as it is. -/
theorem Accounted.clear (h : Accounted s b t cell) (hp : s.Live p) (hF : F &&& xObjFlagShared = 0) :
    Accounted (s.setFlags p (s.flagsOf p &&& ~~~F)) b t cell ∧
      ((s.setFlags p (s.flagsOf p &&& ~~~F)).Full b ↔ s.Full b) ∧
      (s.setFlags p (s.flagsOf p &&& ~~~F)).extraOf b = s.extraOf b ∧
      (s.Full b → (s.setFlags p (s.flagsOf p &&& ~~~F)).fieldObj b .allocCount =
        s.fieldObj b .allocCount) := by
  refine h.step _ live_setFlags.mpr typeOf_setFlags (fun _ => unit_setFlags)
    (fun hf => (h.tree hf).congr fun q _ i u hu => by rwa [unit_setFlags]) fun hf q hq => ?_
  rw [flags_and_clear hF hp]
  exact h.shared hf q hq

/-- Links do not matter to the base. -/
theorem Accounted.setHeap (h : Accounted s b t cell) (p w : Ptr) :
    Accounted (s.setHeap p w) b t cell ∧ ((s.setHeap p w).Full b ↔ s.Full b) ∧
      (s.setHeap p w).extraOf b = s.extraOf b ∧
      (s.Full b → (s.setHeap p w).fieldObj b .allocCount = s.fieldObj b .allocCount) :=
  h.step _ live_setHeap.mpr typeOf_setHeap (fun _ => unit_setHeap)
    (fun hf => (h.tree hf).congr fun q _ i u hu => by rwa [unit_setHeap])
    fun hf q hq => by rw [flagsOf_setHeap]; exact h.shared hf q hq

/-- An object that is no part of the base was freed. -/
theorem Accounted.freed {a : Ptr} (h : Accounted s b t cell) (hbp : b ≠ p)
    (hn : s.Full b → p ∉ t.nodes) (hs : Freed s b p a s') :
    Accounted s' b t cell ∧ (s'.Full b ↔ s.Full b) ∧ s'.extraOf b = s.extraOf b ∧
      (s.Full b → s'.fieldObj b .allocCount = s.fieldObj b .allocCount) := by
  have hne : s.Full b → ∀ q ∈ t.nodes, q ≠ p := fun hf q hq e => hn hf (e ▸ hq)
  have htree : s.Full b → BaseTree s' b t cell := fun hf => by
    obtain ⟨x, -, hx⟩ := h.fields hf
    refine (h.tree hf).count hx (g := (· - 1)) fun q hq i => ?_
    have hqp : q ≠ p := (List.mem_cons.mp hq).elim (fun e => e ▸ hbp) (hne hf q)
    rw [hs.unit q i hqp]
    simp only [hf, true_and]
  exact h.step s' (fun hl => (hs.live b).mpr ⟨hbp, hl⟩) (hs.typeOf b hbp)
    (fun hf => by rw [hs.unit b 0 hbp, if_neg fun h => hf h.1]) htree
    fun hf q hq => by rw [hs.flagsOf q (hne hf q hq)]; exact h.shared hf q hq

namespace Sweepable

/-- The flags of an object off the chain are cleared. -/
theorem clear (h : Sweepable s b t cell F prev node l) (hp : s.Live p) (hpl : p ∉ l)
    (hF : F &&& xObjFlagShared = 0) :
    Sweepable (s.setFlags p (s.flagsOf p &&& ~~~F)) b t cell F prev node l := by
  have hflags : ∀ q ∈ l, (s.setFlags p (s.flagsOf p &&& ~~~F)).flagsOf q = s.flagsOf q := by
    intro q hq
    have hqp : q ≠ p := fun e => hpl (e ▸ hq)
    rw [flagsOf_setFlags hp, if_neg hqp]
  obtain ⟨hbase, -, hextra, -⟩ := h.base.clear hp hF
  have hr := h.returnable.mono hflags (fun _ _ _ => unit_setFlags)
    (fun _ _ _ hb => (block_setFlags).trans hb) fun _ _ _ _ _ hb => (block_setFlags).trans hb
  rw [← hextra] at hr
  exact {
    base := hbase
    seg := h.seg.congr fun q _ => next_setFlags
    nodup := h.nodup
    live := fun q hq => live_setFlags.mpr (h.live q hq)
    prev_live := live_setFlags.mpr h.prev_live
    prev_notMem := h.prev_notMem
    base_notMem := h.base_notMem
    placed := hr.placed
    own := hr.own
    own_inj := hr.own_inj }

/-- The node after `prev` is kept: the flags go, and the sweep moves on. -/
theorem keep (h : Sweepable s b t cell F prev p (p :: l)) (hF : F &&& xObjFlagShared = 0) :
    Sweepable (s.setFlags p (s.flagsOf p &&& ~~~F)) b t cell F p (s.next p) l :=
  h.tail.clear (h.live p (.head _)) (List.nodup_cons.mp h.nodup).1 hF

/-- The node after `prev` is linked out and freed, and the sweep goes on behind `prev`. -/
theorem free (h : Sweepable s b t cell F prev p (p :: l)) (hk : s.kept F p = false) :
    ∃ s₁, xObjFree b p (s.setHeap prev (s.next p)) = .ok () s₁ ∧
      Freed (s.setHeap prev (s.next p)) b p (s.freeAddr (s.extraOf b) p) s₁ ∧
      (s.Full b → s₁.fieldObj b .allocCount = s.fieldObj b .allocCount) ∧
      (s₁.Full b ↔ s.Full b) ∧ s₁.extraOf b = s.extraOf b ∧
      Sweepable s₁ b t cell F prev (s.next p) l := by
  have hp : s.Live p := h.live p (.head _)
  obtain ⟨hpl, hn⟩ := List.nodup_cons.mp h.nodup
  have hlp : ∀ q ∈ l, q ≠ p := fun q hq e => hpl (e ▸ hq)
  have hprev : prev ≠ p := fun e => h.prev_notMem (e ▸ .head _)
  have hbp : b ≠ p := fun e => h.base_notMem (e ▸ .head _)
  have hnode := h.base.notMem hk
  obtain ⟨hbase₀, hfull₀, hextra₀, hcount₀⟩ := h.base.setHeap prev (s.next p)
  obtain ⟨ha, hblk⟩ := h.placed p (.head _) hk
  have haddr : (s.setHeap prev (s.next p)).freeAddr ((s.setHeap prev (s.next p)).extraOf b) p =
      s.freeAddr (s.extraOf b) p := by
    rw [hextra₀]
    exact freeAddr_congr flagsOf_setHeap
  have hown₀ : (s.setHeap prev (s.next p)).flagsOf p &&& xObjFlagOwn ≠ 0 →
      ∃ w, (s.setHeap prev (s.next p)).unit p 0 = some w ∧
        (w = nil ∨ (s.setHeap prev (s.next p)).block w = some nil) := by
    simpa using h.own p (.head _) hk
  obtain ⟨s₁, hrun, hfreed⟩ := xObjFree_run hbase₀.freeReady (live_setHeap.mpr hp) hown₀
    (fun hf hc => hnode (hfull₀.mp hf) (hbase₀.count_mem hf hc))
    (by rw [haddr]; exact ha) (by rw [haddr, block_setHeap]; exact hblk)
  rw [haddr] at hfreed
  obtain ⟨hbase, hfull, hextra, hcount⟩ :=
    hbase₀.freed hbp (fun hf => hnode (hfull₀.mp hf)) hfreed
  have hflags : ∀ q ∈ l, s₁.flagsOf q = s.flagsOf q := fun q hq => by
    rw [hfreed.flagsOf q (hlp q hq), flagsOf_setHeap]
  have hunit : ∀ q ∈ l, s.kept F q = false → s₁.unit q 0 = s.unit q 0 := fun q hq hkq => by
    have hkq₀ : (s.setHeap prev (s.next p)).kept F q = false :=
      (kept_congr flagsOf_setHeap).trans hkq
    rw [hfreed.unit q 0 (hlp q hq), if_neg fun hc => hbase₀.count_ne hkq₀ hc.1 hc.2.1, unit_setHeap]
  have howns₀ : ∀ w, (s.setHeap prev (s.next p)).Owns p w ↔ s.Owns p w := fun w =>
    owns_congr flagsOf_setHeap unit_setHeap
  have hr := h.returnable.free hpl h.live hk hflags hunit
    fun a => by simp only [hfreed.block, block_setHeap, howns₀]
  have hextra₁ : s₁.extraOf b = s.extraOf b := hextra.trans hextra₀
  rw [← hextra₁] at hr
  refine ⟨s₁, hrun, hfreed, fun hf => (hcount (hfull₀.mpr hf)).trans (hcount₀ hf),
    hfull.trans hfull₀, hextra₁, ?_⟩
  exact {
    base := hbase
    seg := (h.seg.2).congr fun q hq => by
      have hqprev : q ≠ prev := fun e => h.prev_notMem (e ▸ .tail _ hq)
      rw [hfreed.next q (hlp q hq), next_setHeap h.prev_live, if_neg hqprev]
    nodup := hn
    live := fun q hq => (hfreed.live q).mpr ⟨hlp q hq, live_setHeap.mpr (h.live q (.tail _ hq))⟩
    prev_live := (hfreed.live prev).mpr ⟨hprev, live_setHeap.mpr h.prev_live⟩
    prev_notMem := fun hm => h.prev_notMem (.tail _ hm)
    base_notMem := fun hm => h.base_notMem (.tail _ hm)
    placed := hr.placed
    own := hr.own
    own_inj := hr.own_inj }

end Sweepable

/-! ## The loop -/

theorem Sweepable.hooked (h : Sweepable s b t cell F prev node l) :
    Sweepable (s.hooked fn p) b t cell F prev node l := by
  unfold Sys.hooked
  split
  · exact h
  · refine ⟨?_, h.seg, h.nodup, h.live, h.prev_live, h.prev_notMem, h.base_notMem, h.placed, h.own,
      h.own_inj⟩
    exact (h.base.step (s.log (.freeHook p)) id rfl (fun _ => rfl)
      (fun hf => (h.base.tree hf).congr fun _ _ _ _ hu => hu) h.base.shared).1

/-- The node after `prev` is linked out and freed after the hook was called on it. -/
theorem Sweepable.free_hooked (fn : Word) (h : Sweepable s b t cell F prev p (p :: l))
    (hk : s.kept F p = false) :
    ∃ s₁, xObjFree b p ((s.hooked fn p).setHeap prev (s.next p)) = .ok () s₁ ∧
      Freed ((s.hooked fn p).setHeap prev (s.next p)) b p (s.freeAddr (s.extraOf b) p) s₁ ∧
      (s.Full b → s₁.fieldObj b .allocCount = s.fieldObj b .allocCount) ∧
      (s₁.Full b ↔ s.Full b) ∧ s₁.extraOf b = s.extraOf b ∧
      Sweepable s₁ b t cell F prev (s.next p) l := by
  have hfull : (s.hooked fn p).Full b ↔ s.Full b := by
    simp only [Full, IsSet, unit_hooked, typeOf_hooked]
  have hextra : (s.hooked fn p).extraOf b = s.extraOf b := by
    simp only [extraOf, hfull, Sys.fieldInt, Sys.fieldObj, unit_hooked]
  have haddr : (s.hooked fn p).freeAddr (s.extraOf b) p = s.freeAddr (s.extraOf b) p :=
    freeAddr_congr flagsOf_hooked
  have hnext : (s.hooked fn p).next p = s.next p := next_hooked
  have hh : Sweepable (s.hooked fn p) b t cell F prev p (p :: l) := h.hooked
  obtain ⟨s₁, hrun, hfreed, hcount, hfull₁, hextra₁, hsw⟩ :=
    hh.free ((kept_congr flagsOf_hooked).trans hk)
  rw [hnext] at hrun hfreed hsw
  rw [hextra, haddr] at hfreed
  refine ⟨s₁, hrun, hfreed, ?_, hfull₁.trans hfull, hextra₁.trans hextra, hsw⟩
  simpa only [hfull, Sys.fieldObj, unit_hooked] using hcount

/-! ### All passes -/

/-- Clearing the flags of one object leaves another one what it is. -/
theorem intact_setFlags (fl : Flags) (hp : s.Live p) (hq : s.Live q) (hne : q ≠ p) :
    s.Intact q (s.setFlags p fl) :=
  ⟨live_setFlags.mpr hq, next_setFlags, typeOf_setFlags, by rw [flagsOf_setFlags hp, if_neg hne],
    fun _ => unit_setFlags, extrasOf_setFlags⟩

theorem Reclaimed.nil : Reclaimed s b F fn [] s where
  live := by simp
  typeOf _ _ := rfl
  flags_mem := by simp
  flags_notMem _ _ := rfl
  unit q i _ := by
    split
    · next h => rw [h.2.2]; simp
    · rfl
  extrasOf _ _ := rfl
  block := by simp
  requests := rfl
  trace := rfl

/-- Objects are swept, and then others. -/
theorem Reclaimed.trans {s₁ : Sys} {l' : List Ptr} (hb : Accounted s b t cell)
    (h : Reclaimed s b F fn l s₁) (h' : Reclaimed s₁ b F fn l' s') (hd : ∀ q ∈ l', q ∉ l)
    (hl : ∀ q ∈ l', s.Live q) (hfull : s₁.Full b ↔ s.Full b)
    (hcount : s.Full b → s₁.fieldObj b .allocCount = s.fieldObj b .allocCount)
    (hextra : s₁.extraOf b = s.extraOf b) : Reclaimed s b F fn (l ++ l') s' := by
  have hflags : ∀ q ∈ l', s₁.flagsOf q = s.flagsOf q := fun q hq => h.flags_notMem q (hd q hq)
  have hkept : ∀ q ∈ l', s₁.kept F q = s.kept F q := fun q hq => kept_congr (hflags q hq)
  have hfilter : (l'.filter fun q => !s₁.kept F q) = l'.filter fun q => !s.kept F q :=
    List.filter_congr fun q hq => by rw [hkept q hq]
  -- The count is in a shared object, and so what goes has its data still.
  have hunit : ∀ q ∈ l', s.kept F q = false → s₁.unit q 0 = s.unit q 0 := fun q hq hkq => by
    rw [h.unit q 0 ((h.live q).mpr ⟨hl q hq, fun hm => absurd hm (hd q hq)⟩),
      if_neg fun hc => hb.count_ne hkq hc.1 hc.2.1]
  constructor
  case live =>
    intro q
    rw [h'.live, h.live, and_assoc]
    refine and_congr_right fun _ => ⟨fun ⟨h₁, h₂⟩ hm => ?_, fun hq => ⟨fun hm => ?_, fun hm => ?_⟩⟩
    · rcases List.mem_append.mp hm with hm | hm
      · exact h₁ hm
      · rw [← hkept q hm]
        exact h₂ hm
    · exact hq (List.mem_append_left _ hm)
    · rw [hkept q hm]
      exact hq (List.mem_append_right _ hm)
  case typeOf =>
    intro q hq
    rw [h'.typeOf q hq, h.typeOf q ((h'.live q).mp hq).1]
  case flags_mem =>
    intro q hm hkq
    rcases List.mem_append.mp hm with hm | hm
    · rw [h'.flags_notMem q fun hm' => hd q hm' hm, h.flags_mem q hm hkq]
    · rw [h'.flags_mem q hm ((hkept q hm).trans hkq), hflags q hm]
  case flags_notMem =>
    intro q hm
    rw [List.mem_append, not_or] at hm
    rw [h'.flags_notMem q hm.2, h.flags_notMem q hm.1]
  case unit =>
    intro q i hq
    have hq₁ := ((h'.live q).mp hq).1
    rw [h'.unit q i hq, hfilter, List.filter_append, List.length_append, h.unit q i hq₁,
      h.unit q 0 hq₁]
    by_cases hf : s.Full b
    · by_cases hc : s.fieldObj b .allocCount = some q ∧ i = 0
      · have hc₁ : s₁.fieldObj b .allocCount = some q := (hcount hf).trans hc.1
        rw [if_pos ⟨hfull.mpr hf, hc₁, hc.2⟩, if_pos ⟨hf, hc.1, rfl⟩, if_pos ⟨hf, hc⟩,
          Option.map_map]
        refine congrArg (Option.map · _) (funext fun v => ?_)
        have e : ∀ (v : Int) (a b : Nat), v - a - b = v - ((a + b : Nat) : Int) := by omega
        exact e v _ _
      · rw [if_neg fun hh => hc ⟨(hcount hf).symm.trans hh.2.1, hh.2.2⟩, if_neg fun hh => hc hh.2,
          if_neg fun hh => hc hh.2]
    · rw [if_neg fun hh => hf (hfull.mp hh.1), if_neg fun hh => hf hh.1, if_neg fun hh => hf hh.1]
  case extrasOf =>
    intro q hq
    rw [h'.extrasOf q hq, h.extrasOf q ((h'.live q).mp hq).1]
  case block =>
    intro a
    have hgone : ∀ q ∈ l', s.kept F q = false →
        (a = s₁.freeAddr (s.extraOf b) q ∨ s₁.Owns q a ↔
          a = s.freeAddr (s.extraOf b) q ∨ s.Owns q a) := fun q hq hkq => by
      rw [freeAddr_congr (hflags q hq), owns_congr (hflags q hq) (hunit q hq hkq)]
    have hrest : (∃ p ∈ l', s₁.kept F p = false ∧
        (a = s₁.freeAddr (s₁.extraOf b) p ∨ s₁.Owns p a)) ↔
        ∃ p ∈ l', s.kept F p = false ∧ (a = s.freeAddr (s.extraOf b) p ∨ s.Owns p a) := by
      rw [hextra]
      refine exists_congr fun q => and_congr_right fun hq => ?_
      rw [hkept q hq]
      exact and_congr_right fun hkq => hgone q hq hkq
    rw [h'.block, h.block]
    simp only [hrest, List.mem_append, or_and_right, exists_or]
    by_cases h₂ : ∃ p ∈ l', s.kept F p = false ∧ (a = s.freeAddr (s.extraOf b) p ∨ s.Owns p a)
    · rw [if_pos h₂, if_pos (.inr h₂)]
    · rw [if_neg h₂]
      exact if_congr (or_iff_left h₂).symm rfl rfl
  case requests => exact h'.requests.trans h.requests
  case trace =>
    rw [h'.trace, h.trace, hfilter, hextra, List.filter_append, List.foldl_append]
    refine List.foldl_ext _ _ _ fun tr q hq => ?_
    rw [freeAddr_congr (hflags q (List.mem_filter.mp hq).1)]

/-- One object is kept. -/
theorem Reclaimed.kept (hp : s.Live p) (hk : s.kept F p = true) :
    Reclaimed s b F fn [p] (s.setFlags p (s.flagsOf p &&& ~~~F)) := by
  have hnone : ([p].filter fun q => !s.kept F q) = [] := by simp [hk]
  constructor
  case live =>
    intro q
    rw [live_setFlags]
    refine (and_iff_left fun hm => ?_).symm
    rw [List.mem_singleton.mp hm, hk]
  case typeOf => exact fun q _ => typeOf_setFlags
  case flags_mem =>
    intro q hm _
    rw [flagsOf_setFlags hp, if_pos (List.mem_singleton.mp hm), List.mem_singleton.mp hm]
  case flags_notMem =>
    intro q hm
    rw [flagsOf_setFlags hp, if_neg fun e => hm (List.mem_singleton.mpr e)]
  case unit =>
    intro q i _
    rw [hnone, unit_setFlags]
    split
    · next h => rw [h.2.2]; simp
    · rfl
  case extrasOf => exact fun q _ => extrasOf_setFlags
  case block =>
    intro a
    rw [block_setFlags, if_neg]
    rintro ⟨q, hm, hkq, -⟩
    rw [List.mem_singleton.mp hm, hk] at hkq
    cases hkq
  case requests => exact requests_modify
  case trace =>
    rw [hnone]
    exact trace_modify

/-- One object is kept and loses the flags, and then the objects `l` are swept. -/
theorem Reclaimed.keep (hb : Accounted s b t cell) (hp : s.Live p) (hpl : p ∉ l)
    (hl : ∀ q ∈ l, s.Live q) (hk : s.kept F p = true) (hF : F &&& xObjFlagShared = 0)
    (hs : Reclaimed (s.setFlags p (s.flagsOf p &&& ~~~F)) b F fn l s') :
    Reclaimed s b F fn (p :: l) s' := by
  obtain ⟨-, hfull, hextra, hcount⟩ := hb.clear hp hF
  exact (Reclaimed.kept hp hk).trans hb hs
    (fun q hq hm => hpl (List.mem_singleton.mp hm ▸ hq)) hl hfull hcount hextra

theorem Freed.trace_hooked {a w : Ptr} (h : Freed ((s.hooked fn p).setHeap prev w) b p a s') :
    s'.trace = freeEvents fn a p ++ s.trace := by
  rw [h.trace, show ((s.hooked fn p).setHeap prev w).trace = (s.hooked fn p).trace from
    trace_modify]
  unfold hooked freeEvents
  split <;> rfl

/-- One object is linked out and freed. -/
theorem Reclaimed.freed {s₁ : Sys} (hk : s.kept F p = false)
    (h : Freed ((s.hooked fn p).setHeap prev (s.next p)) b p (s.freeAddr (s.extraOf b) p) s₁) :
    Reclaimed s b F fn [p] s₁ := by
  have hone : ([p].filter fun q => !s.kept F q) = [p] := by simp [hk]
  have hlive : ∀ q, s₁.Live q ↔ q ≠ p ∧ s.Live q := fun q => by
    rw [h.live, live_setHeap, live_hooked]
  have hunit : ((s.hooked fn p).setHeap prev (s.next p)).unit = s.unit := by
    funext q i
    rw [unit_setHeap, unit_hooked]
  have hfull : ((s.hooked fn p).setHeap prev (s.next p)).Full b ↔ s.Full b := by
    simp only [Full, IsSet, hunit, typeOf_setHeap, typeOf_hooked]
  have howns : ∀ w, ((s.hooked fn p).setHeap prev (s.next p)).Owns p w ↔ s.Owns p w := fun w =>
    owns_congr (by rw [flagsOf_setHeap, flagsOf_hooked]) (by rw [hunit])
  constructor
  case live =>
    intro q
    rw [hlive, and_comm]
    refine and_congr_right fun _ => ⟨fun hq hm => absurd (List.mem_singleton.mp hm) hq, ?_⟩
    rintro hq rfl
    rw [hk] at hq
    cases hq (.head _)
  case typeOf =>
    intro q hq
    rw [h.typeOf q ((hlive q).mp hq).1, typeOf_setHeap, typeOf_hooked]
  case flags_mem =>
    intro q hm hkq
    rw [List.mem_singleton.mp hm, hk] at hkq
    cases hkq
  case flags_notMem =>
    intro q hm
    rw [h.flagsOf q fun e => hm (List.mem_singleton.mpr e), flagsOf_setHeap, flagsOf_hooked]
  case unit =>
    intro q i hq
    rw [hone, h.unit q i ((hlive q).mp hq).1]
    simp only [hfull, Sys.fieldObj, hunit]
    rfl
  case extrasOf =>
    intro q hq
    rw [h.extrasOf q ((hlive q).mp hq).1, extrasOf_setHeap, extrasOf_hooked]
  case block =>
    intro a
    simp only [h.block, block_setHeap, block_hooked, howns, List.mem_singleton, exists_eq_left, hk,
      true_and]
  case requests => exact h.requests.trans (requests_modify.trans requests_hooked)
  case trace =>
    rw [hone, h.trace_hooked]
    rfl

/-- The head of the chain is kept and the rest is swept behind it. -/
theorem Swept.keep (h : Sweepable s b t cell F prev p (p :: l)) (hk : s.kept F p = true)
    (hF : F &&& xObjFlagShared = 0)
    (hs : Swept (s.setFlags p (s.flagsOf p &&& ~~~F)) b F fn p l s')
    (hprev : s.next prev = p) : Swept s b F fn prev (p :: l) s' := by
  have hp : s.Live p := h.live p (.head _)
  obtain ⟨hpl, -⟩ := List.nodup_cons.mp h.nodup
  have hprevp : prev ≠ p := fun e => h.prev_notMem (e ▸ .head _)
  have hprevl : prev ∉ l := fun hm => h.prev_notMem (.tail _ hm)
  refine { hs.toReclaimed.keep h.base hp hpl (fun q hq => h.live q (.tail _ hq)) hk hF with
    chain := ?_, next := fun q hq hm => ?_ }
  · rw [List.filter_cons_of_pos hk, hs.next prev hprevp hprevl, next_setFlags, hprev]
    refine ⟨rfl, ?_⟩
    rw [← filter_kept_setFlags hp hpl]
    exact hs.chain
  · rw [List.mem_cons, not_or] at hm
    rw [hs.next q hm.1 hm.2, next_setFlags]

/-- The head of the chain is freed and the rest is swept behind `prev`. -/
theorem Swept.free {s₁ : Sys} (h : Sweepable s b t cell F prev p (p :: l))
    (hk : s.kept F p = false)
    (hfreed : Freed ((s.hooked fn p).setHeap prev (s.next p)) b p (s.freeAddr (s.extraOf b) p) s₁)
    (hcount : s.Full b → s₁.fieldObj b .allocCount = s.fieldObj b .allocCount)
    (hfull : s₁.Full b ↔ s.Full b) (hextra : s₁.extraOf b = s.extraOf b)
    (hs : Swept s₁ b F fn prev l s') : Swept s b F fn prev (p :: l) s' := by
  obtain ⟨hpl, -⟩ := List.nodup_cons.mp h.nodup
  have hflags : ∀ q ∈ l, s₁.flagsOf q = s.flagsOf q := fun q hq => by
    rw [hfreed.flagsOf q fun e => hpl (e ▸ hq), flagsOf_setHeap, flagsOf_hooked]
  refine { (Reclaimed.freed hk hfreed).trans h.base hs.toReclaimed
      (fun q hq hm => hpl (List.mem_singleton.mp hm ▸ hq)) (fun q hq => h.live q (.tail _ hq))
      hfull hcount hextra with chain := ?_, next := fun q hq hm => ?_ }
  · rw [List.filter_cons_of_neg (by rw [hk]; exact Bool.false_ne_true), ← filter_kept_congr hflags]
    exact hs.chain
  · rw [List.mem_cons, not_or] at hm
    rw [hs.next q hq hm.2, hfreed.next q hm.1, next_setHeap (live_hooked.mpr h.prev_live),
      if_neg hq, next_hooked]

/-- A freed object leaves another one what it is, if that is not linked to it and not the count. -/
theorem Freed.intact {a w : Ptr} (h : Freed ((s.hooked fn p).setHeap prev w) b p a s')
    (hprev : s.Live prev) (hq : s.Live q) (hqp : q ≠ p) (hq' : q ≠ prev)
    (hc : s.Full b → s.fieldObj b .allocCount ≠ some q) : s.Intact q s' := by
  have hunit : ((s.hooked fn p).setHeap prev w).unit = s.unit := by
    funext r i
    rw [unit_setHeap, unit_hooked]
  refine ⟨(h.live q).mpr ⟨hqp, live_setHeap.mpr (live_hooked.mpr hq)⟩, ?_, ?_, ?_, fun i => ?_, ?_⟩
  · rw [h.next q hqp, next_setHeap (live_hooked.mpr hprev), if_neg hq', next_hooked]
  · rw [h.typeOf q hqp, typeOf_setHeap, typeOf_hooked]
  · rw [h.flagsOf q hqp, flagsOf_setHeap, flagsOf_hooked]
  · rw [h.unit q i hqp, if_neg, hunit]
    rintro ⟨hf, hcq, -⟩
    simp only [Full, IsSet, hunit, typeOf_setHeap, typeOf_hooked] at hf
    simp only [Sys.fieldObj, hunit] at hcq
    exact hc hf hcq
  · rw [h.extrasOf q hqp, extrasOf_setHeap, extrasOf_hooked]

/-- The loop of the sweep returns, and has swept the chain. -/
theorem sweepLoop_run (hF : F &&& xObjFlagShared = 0)
    (hin : ∀ p ∈ l, s.kept F p = false → env.InertOn fn b s p)
    (h : Sweepable s b t cell F prev node l) (hprev : s.next prev = node) (hlen : l.length < n) :
    ∃ s', sweepLoop env F fn n b prev node s = .ok () s' ∧ Swept s b F fn prev l s' := by
  induction l generalizing s prev node n with
  | nil =>
    cases n with
    | zero => omega
    | succ n =>
      obtain rfl : node = nil := h.seg
      exact ⟨s, rfl, .nil, hprev, fun _ _ _ => rfl⟩
  | cons p l ih =>
    cases n with
    | zero => simp at hlen
    | succ n =>
      obtain ⟨rfl, -⟩ := h.tail_seg
      have hp : s.Live node := h.live node (.head _)
      have hlen' : l.length < n := by simpa using hlen
      have hne : ∀ q ∈ l, q ≠ node := fun q hq e => (List.nodup_cons.mp h.nodup).1 (e ▸ hq)
      by_cases hk : s.kept F node = true
      · rw [sweepLoop_keep hp hk]
        have hin' : ∀ q ∈ l, (s.setFlags node (s.flagsOf node &&& ~~~F)).kept F q = false →
            env.InertOn fn b (s.setFlags node (s.flagsOf node &&& ~~~F)) q := by
          intro q hq hkq
          have hi := intact_setFlags (s.flagsOf node &&& ~~~F) hp (h.live q (.tail _ hq)) (hne q hq)
          rw [kept_congr hi.flagsOf] at hkq
          exact (hin q (.tail _ hq) hkq).intact hi
        obtain ⟨s', hrun, hs⟩ := ih hin' (h.keep hF) next_setFlags hlen'
        exact ⟨s', hrun, Swept.keep h hk hF hs hprev⟩
      · rw [Bool.not_eq_true] at hk
        obtain ⟨s₁, hrun₁, hfreed, hcount, hfull, hextra, hsw⟩ := h.free_hooked fn hk
        rw [sweepLoop_unlink (hin node (.head _) hk) hp hk h.prev_live, Prog.bind_of_ok hrun₁,
          if_neg fun e : node = b => h.base_notMem (e ▸ .head _)]
        have hnext : s₁.next prev = s.next node := by
          rw [hfreed.next prev fun e => h.prev_notMem (e ▸ .head _),
            next_setHeap (live_hooked.mpr h.prev_live), if_pos rfl]
        have hin' : ∀ q ∈ l, s₁.kept F q = false → env.InertOn fn b s₁ q := by
          intro q hq hkq
          have hflags : s₁.flagsOf q = s.flagsOf q := by
            rw [hfreed.flagsOf q (hne q hq), flagsOf_setHeap, flagsOf_hooked]
          rw [kept_congr hflags] at hkq
          exact (hin q (.tail _ hq) hkq).intact <| hfreed.intact h.prev_live
            (h.live q (.tail _ hq)) (hne q hq) (fun e => h.prev_notMem (e ▸ .tail _ hq))
            (h.base.count_ne hkq)
        obtain ⟨s', hrun, hs⟩ := ih hin' hsw hnext hlen'
        exact ⟨s', hrun, Swept.free h hk hfreed hcount hfull hextra hs⟩

/-- A sweep of the chain behind the base. -/
theorem xHeapSweep_run (hF : F &&& xObjFlagShared = 0)
    (hin : ∀ p ∈ l, s.kept F p = false → env.InertOn fn b s p)
    (hfn : s.hookWord .heapFree b = some fn) (h : Sweepable s b t cell F b (s.next b) l) :
    ∃ s', xHeapSweep env b (s.next b) F s = .ok b s' ∧ Swept s b F fn b l s' := by
  obtain ⟨s', hrun, hs⟩ := sweepLoop_run hF hin h rfl (length_lt_passes h.nodup h.live)
  refine ⟨s', ?_, hs⟩
  rw [xHeapSweep_eq hfn h.prev_live, if_pos rfl, Prog.bind_of_ok hrun]
  rfl

end Sweep

end XExpr
