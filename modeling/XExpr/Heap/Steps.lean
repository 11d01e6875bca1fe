import XExpr.Heap.Invariant
import XExpr.Obj.StackLemmas

/-!
# The steps keep the heap invariant

* `Mutate.inv`, `Collect.inv`: one step.
* `Start.inv`: the state after `x_base_make(NULL, cfg)`.
-/

namespace XExpr

open Sys Chain
open Mem (chase)

theorem Kept.cell_head (k : Kept) (w : Ptr) :
    Function.update k.cell .heapRootChain (cellObj (some w)) = Kept.cell { k with head := w } := by
  funext f
  cases f <;> rfl

namespace HeapInv

variable {env : Env} {c : Client} {L K : List Ptr} {t : Ptr → Cells Word} {k : Ptr → Kept}
  {s' : Sys} {b p q w cell : Ptr}

/-! ## Registration -/

/-- The head of the root chain of `b` is in a unit of its own. -/
theorem rootSlot (h : HeapInv c L t k) (hb : b ∈ c.bases) :
    ∃ cell, chase c.sys.unit b Field.heapRootChain.path = some cell ∧
      c.sys.unit cell 0 = some (k b).head ∧ cell ∈ (t b).nodes := by
  have htree := (h.base b hb).tree
  obtain ⟨cell, w, hc, hw, hmem, hu, -, -⟩ := htree.fieldSlot (f := .heapRootChain) rfl
  have hw' := htree.fieldObj (f := .heapRootChain) rfl
  exact ⟨cell, hc, by rw [hu, ← hw, hw'], hmem⟩

/-- A store into this unit, and into links of objects that are not registered elsewhere. -/
theorem setRoots (h : HeapInv c L t k) (hb : b ∈ c.bases)
    (hc : chase c.sys.unit b Field.heapRootChain.path = some cell)
    (hlive : ∀ q, s'.Live q ↔ c.sys.Live q)
    (hnext : ∀ q, (∀ b' ∈ c.bases, b' ≠ b → q ∈ c.roots b' → s'.next q = c.sys.next q) ∧
      (q ∉ c.locals → s'.next q = c.sys.next q))
    (hblock : ∀ q, s'.block q = c.sys.block q) (htrace : s'.trace = c.sys.trace)
    (htype : ∀ q, s'.typeOf q = c.sys.typeOf q) (hflags : ∀ q, s'.flagsOf q = c.sys.flagsOf q)
    (hunit : ∀ q i, s'.unit q i = if q = cell ∧ i = 0 then some w else c.sys.unit q i)
    (hroots : Seg s'.next w K nil) (hnodup : K.Nodup) (hsub : K ⊆ c.locals)
    (hapart : ∀ b' ∈ c.bases, b' ≠ b → K.Disjoint (c.roots b')) :
    ∃ t' k', HeapInv { c with sys := s', roots := Function.update c.roots b K } L t' k' := by
  obtain ⟨cell', hc', -, hmem⟩ := h.rootSlot hb
  obtain rfl : cell = cell' := Option.some.inj (hc.symm.trans hc')
  have hcell : ∀ q ∈ c.locals, q ≠ cell := fun q hq e =>
    h.chain.apart q hq (.tail _ (h.nodes b hb (e ▸ hmem)))
  obtain ⟨tb, htb, hnodes⟩ :=
    (h.base b hb).tree.assign (f := .heapRootChain) (w := w) rfl hc fun q _ j => hunit q j
  rw [Kept.cell_head] at htb
  have hread : ∀ q ∈ c.locals, ∀ v, c.sys.unit q 0 = some v → ∃ v', s'.unit q 0 = some v' := by
    intro q hq v hv
    exact ⟨v, by rw [hunit, if_neg fun e => hcell q hq e.1, hv]⟩
  have hn : ∀ q, (Function.update t b tb q).nodes ⊆ (t q).nodes := by
    intro q
    by_cases e : q = b
    · subst e; rwa [Function.update_self]
    · rw [Function.update_of_ne e]
      exact List.Subset.refl _
  refine ⟨Function.update t b tb, Function.update k b { k b with head := w }, ?_⟩
  constructor
  case chain =>
    refine h.chain.mono hlive (fun q hq => (hnext q).2 fun hl => h.chain.apart q hl hq)
      (fun q _ hq => (hblock q).trans hq) fun q => ?_
    change q ∈ outstanding s'.trace ↔ _
    rw [htrace]
  case root_mem => exact h.root_mem
  case bases => exact h.bases
  case base =>
    intro q hq
    have hbase := h.base q hq
    by_cases e : q = b
    · subst e
      simp only [Function.update_self]
      refine ⟨htb, fun ht => hbase.typed (by rwa [← htype]), fun p hp => ?_,
        hbase.mark.mono (List.Subset.refl _) hread, hbase.free.mono (List.Subset.refl _) hread,
        hroots, hnodup, hsub⟩
      rw [hflags]
      exact hbase.shared p (hnodes hp)
    · simp only [Function.update_of_ne e]
      refine hbase.mono ?_ (fun ht => hbase.typed (by rwa [← htype])) (fun p hp => ?_)
        (List.Subset.refl _) (fun p hp => (hnext p).1 q hq e hp) hread
      · refine hbase.tree.congr fun p hp i u hu => ?_
        rw [show s'.unit p i = _ from hunit p i, if_neg, hu]
        rintro ⟨rfl, -⟩
        rcases List.mem_cons.mp hp with rfl | hp
        · exact h.no_node _ hq b hb hmem
        · exact h.apart q hq b hb e hp hmem
      · rw [show s'.flagsOf p = _ from hflags p]
        exact hbase.shared p hp
  case nodes => intro q hq; exact List.Subset.trans (hn q) (h.nodes q hq)
  case apart =>
    intro q hq r hr hqr x hx hx'
    exact h.apart q hq r hr hqr (hn q hx) (hn r hx')
  case no_node => intro q hq r hr hm; exact h.no_node q hq r hr (hn r hm)
  case roots_apart =>
    intro q hq r hr hqr
    by_cases hqb : q = b
    · subst hqb
      simpa [Function.update_of_ne (Ne.symm hqr)] using hapart r hr (Ne.symm hqr)
    · by_cases hrb : r = b
      · subst hrb
        simpa [Function.update_of_ne hqr] using (hapart q hq hqr).symm
      · simpa [Function.update_of_ne hqb, Function.update_of_ne hrb] using
          h.roots_apart q hq r hr hqr

theorem rootPush {slot : Ptr} {s₁ : Sys} (h : HeapInv c L t k) (hb : b ∈ c.bases)
    (hp : p ∈ c.locals) (hnew : ∀ b' ∈ c.bases, p ∉ c.roots b')
    (hs : xHeapRootSlot b c.sys = .ok slot s₁) (hr : xHeapRootPush slot p s₁ = .ok () s') :
    ∃ t' k', HeapInv { c with sys := s', roots := Function.update c.roots b (p :: c.roots b) }
      L t' k' := by
  have hbase := h.base b hb
  obtain ⟨cell, hc, hu, hmem⟩ := h.rootSlot hb
  cases hs.symm.trans (xHeapRootSlot_run hbase.tree.isSet hc)
  have hpl : c.sys.Live p := h.chain.local_live hp
  cases hr.symm.trans (xHeapRootPush_run hu hpl)
  have hu' : (c.sys.setHeap p (k b).head).unit cell 0 = some (k b).head := by rwa [unit_setHeap]
  have hnext : ∀ q, ((c.sys.setHeap p (k b).head).setUnit cell 0 p).next q =
      if q = p then (k b).head else c.sys.next q := fun q => by
    rw [next_setUnit, next_setHeap hpl]
  have hne : ∀ b' ∈ c.bases, ∀ q ∈ c.roots b', q ≠ p := fun b' hb' q hq e => hnew b' hb' (e ▸ hq)
  have hloc : ∀ q, q ∉ c.locals → q ≠ p := fun q hq e => hq (e ▸ hp)
  refine h.setRoots hb hc (w := p) (fun q => ?_)
    (fun q => ⟨fun b' hb' _ hq => (hnext q).trans (if_neg (hne b' hb' q hq)),
      fun hq => (hnext q).trans (if_neg (hloc q hq))⟩) (fun q => ?_) ?_ (fun q => ?_)
    (fun q => ?_) (fun q i => ?_) ⟨rfl, ?_⟩
    (List.nodup_cons.mpr ⟨hnew b hb, hbase.nodup⟩) (List.cons_subset.mpr ⟨hp, hbase.subset⟩)
    fun b' hb' hne q hq hq' => ?_
  · rw [live_setUnit, live_setHeap]
  · rw [block_setUnit, block_setHeap]
  · exact trace_modify.trans trace_modify
  · rw [typeOf_setUnit, typeOf_setHeap]
  · rw [flagsOf_setUnit, flagsOf_setHeap]
  · rw [unit_setUnit hu', unit_setHeap]
  · rw [hnext, if_pos rfl]
    exact hbase.roots.congr fun q hq => (hnext q).trans (if_neg (hne b hb q hq))
  · rcases List.mem_cons.mp hq with rfl | hq
    · exact hnew b' hb' hq'
    · exact h.roots_apart b hb b' hb' (Ne.symm hne) hq hq'

/-- The head is set to a later part of the root chain. -/
theorem rootSuffix (h : HeapInv c L t k) (hb : b ∈ c.bases)
    (hc : chase c.sys.unit b Field.heapRootChain.path = some cell) (hK : K <:+ c.roots b)
    (hw : Seg c.sys.next w K nil) :
    ∃ t' k', HeapInv { c with
      sys := c.sys.setUnit cell 0 w, roots := Function.update c.roots b K } L t' k' := by
  have hbase := h.base b hb
  obtain ⟨cell', hc', hu, -⟩ := h.rootSlot hb
  obtain rfl : cell = cell' := Option.some.inj (hc.symm.trans hc')
  refine h.setRoots hb hc (w := w) (fun q => live_setUnit)
    (fun q => ⟨fun _ _ _ _ => next_setUnit, fun _ => next_setUnit⟩) (fun q => block_setUnit)
    trace_modify (fun q => typeOf_setUnit) (fun q => flagsOf_setUnit)
    (fun q i => unit_setUnit hu) (hw.congr fun q _ => next_setUnit) (hbase.nodup.sublist hK.sublist)
    (fun q hq => hbase.subset (hK.subset hq)) fun b' hb' hne q hq hq' => ?_
  exact h.roots_apart b hb b' hb' (Ne.symm hne) (hK.subset hq) hq'

theorem rootPop {slot : Ptr} {s₁ : Sys} (h : HeapInv c L t k) (hb : b ∈ c.bases)
    (hK : c.roots b = p :: K) (hs : xHeapRootSlot b c.sys = .ok slot s₁)
    (hr : xHeapRootPop slot s₁ = .ok () s') :
    ∃ t' k', HeapInv { c with sys := s', roots := Function.update c.roots b K } L t' k' := by
  have hbase := h.base b hb
  obtain ⟨cell, hc, hu, -⟩ := h.rootSlot hb
  cases hs.symm.trans (xHeapRootSlot_run hbase.tree.isSet hc)
  have hseg := hbase.roots
  rw [hK] at hseg
  obtain ⟨e, hseg⟩ := hseg
  rw [e] at hu
  have hpl : c.sys.Live p := h.chain.local_live (hbase.subset (hK ▸ .head _))
  cases hr.symm.trans (xHeapRootPop_run hu hpl)
  exact h.rootSuffix hb hc (hK ▸ List.suffix_cons p K) hseg

theorem rootRestore (h : HeapInv c L t k) (hb : b ∈ c.bases) (hK : K <:+ c.roots b)
    (hr : setXHeapRootChain b (K.headD nil) c.sys = .ok () s') :
    ∃ t' k', HeapInv { c with sys := s', roots := Function.update c.roots b K } L t' k' := by
  obtain ⟨cell, hc, hu, -⟩ := h.rootSlot hb
  cases hr.symm.trans (setXHeapRootChain_run hc hu)
  refine h.rootSuffix hb hc hK ?_
  obtain ⟨pre, hpre⟩ := hK
  have hseg := (h.base b hb).roots
  rw [← hpre] at hseg
  obtain ⟨m, -, hm⟩ := seg_append.mp hseg
  cases K with
  | nil => rfl
  | cons x K => exact ⟨rfl, hm.2⟩

/-! ## New locals -/

theorem newLocal {o : Obj} (h : HeapInv c L t k) (hn : nil < p) (hp : ¬ c.sys.Live p) :
    HeapInv { c with sys := c.sys.place p o, locals := p :: c.locals } L t k := by
  have hold : ∀ q, c.sys.Live q → q ≠ p := fun q hq e => hp (e ▸ hq)
  have hunit : ∀ q i, c.sys.Live q → (c.sys.place p o).unit q i = c.sys.unit q i :=
    fun q i hq => by rw [unit_place hn, if_neg (hold q hq)]
  refine ⟨h.chain.newLocal hn hp, h.root_mem, h.bases, fun b hb => ?_, h.nodes, h.apart, h.no_node,
    h.roots_apart⟩
  have hbase := h.base b hb
  refine hbase.mono ?_ (fun ht => hbase.typed ?_) (fun q hq => ?_)
    (fun q hq => .tail _ hq) (fun q hq => ?_)
    fun q hq w hw => ⟨w, by rw [hunit q 0 (h.chain.local_live hq), hw]⟩
  · exact hbase.tree.congr fun q hq i u hu => by
      rw [hunit q i (h.chain.mem_live (h.tree_mem hb hq)), hu]
  · rwa [typeOf_place hn, if_neg (hold b (h.base_live hb))] at ht
  · rw [flagsOf_place hn, if_neg (hold q (h.node_live hb hq))]
    exact hbase.shared q hq
  · rw [next_place hn, if_neg (hold q (h.chain.local_live (hbase.subset hq)))]

end HeapInv

/-! ## A sweep -/

namespace ChainInv

variable {c : Client} {L : List Ptr} {s' : Sys} {b q : Ptr} {F : Flags} {fn : Word}
  {l l₁ l₂ : List Ptr}

/-- The objects that a sweep passes and those that it leaves. -/
theorem mem_swept {P : Ptr → Bool} (hn : (l₁ ++ b :: l₂).Nodup) (q : Ptr) :
    q ∈ l₁ ++ b :: l₂.filter P ↔ q ∈ l₁ ++ b :: l₂ ∧ (q ∈ l₂ → P q = true) := by
  simp only [List.nodup_append, List.nodup_cons, List.mem_append, List.mem_cons,
    List.mem_filter] at hn ⊢
  grind

/-- The chain behind the object `b`, which has no extra metadata units, can be swept. -/
theorem sweepable {t : Cells Word} {cell : Field → Layout Word}
    (h : ChainInv c.sys c.root L c.locals) (hb : b ∈ c.root :: L)
    (hacc : Accounted c.sys b t cell) (hx : c.sys.extraOf b = 0) (ho : c.OwnReady F)
    (hbl : b ∉ l) (hl : l ⊆ L) (hn : l.Nodup) (hseg : Seg c.sys.next (c.sys.next b) l nil) :
    Sweepable c.sys b t cell F b (c.sys.next b) l := by
  have hlive : ∀ q ∈ l, c.sys.Live q := fun q hq => h.mem_live (.tail _ (hl hq))
  have hroot : ∀ q ∈ l, q ≠ c.root := fun q hq e =>
    (List.nodup_cons.mp h.nodup).1 (e ▸ hl hq)
  refine ⟨hacc, hseg, hn, hlive, h.mem_live hb, hbl, hbl, fun p hp _ => ?_, fun p hp hk ho' => ?_,
    fun p _ q _ w hk hk' hne => ho.apart p q w hk hk' hne⟩
  · rw [hx, freeAddr_zero]
    exact ⟨(hlive p hp).ne_nil, h.placed p (.tail _ (hl hp))⟩
  · exact ho.block p (hlive p hp) (hroot p hp) (fun hm => h.apart p hm (.tail _ (hl hp))) hk ho'

/-- The chain after a sweep behind `b`: some objects are filtered out. -/
theorem swept (h : ChainInv c.sys c.root L c.locals) (hx : c.sys.extraOf b = 0)
    (ho : c.OwnReady F) (he : c.root :: L = l₁ ++ b :: l₂) (hs : Swept c.sys b F fn b l₂ s') :
    ∃ L', ChainInv s' c.root L' c.locals ∧ c.root :: L' = l₁ ++ b :: l₂.filter (c.sys.kept F) ∧
      ∀ q, q ∈ c.root :: L' ↔ q ∈ c.root :: L ∧ (q ∈ l₂ → c.sys.kept F q = true) := by
  have hn : (l₁ ++ b :: l₂).Nodup := he ▸ h.nodup
  have hb₁ : ∀ q ∈ l₁, q ≠ b ∧ q ∉ l₂ := fun q hq => by
    have hd := (List.nodup_append.mp hn).2.2 q hq
    exact ⟨hd b (.head _), fun hm => hd q (.tail _ hm) rfl⟩
  obtain ⟨L', hL'⟩ : ∃ L', c.root :: L' = l₁ ++ b :: l₂.filter (c.sys.kept F) := by
    rcases l₁ with _ | ⟨x, l₁⟩
    · exact ⟨_, by rw [List.nil_append, (List.cons.inj he).1]⟩
    · exact ⟨_, by rw [List.cons_append, (List.cons.inj he).1]⟩
  have hsub : (c.root :: L').Sublist (c.root :: L) := by
    rw [hL', he]
    exact (List.filter_sublist.cons_cons b).append_left l₁
  have hmem : ∀ q, q ∈ c.root :: L' ↔ q ∈ c.root :: L ∧ (q ∈ l₂ → c.sys.kept F q = true) :=
    fun q => by rw [hL', he]; exact mem_swept hn q
  have hsubL : L'.Sublist L := List.cons_sublist_cons.mp hsub
  have hlocal : ∀ q ∈ c.locals, q ∉ l₂ := fun q hq hm => by
    refine h.apart q hq ?_
    rw [he]
    exact List.mem_append_right _ (.tail _ hm)
  refine ⟨L', ⟨?_, h.nodup.sublist hsub, fun q => ?_, fun q hq hm => h.apart q hq (hsub.subset hm),
    fun q hq => ?_, fun q => ?_⟩, hL', hmem⟩
  · have hseg : Seg c.sys.next c.root (l₁ ++ b :: l₂) nil := he ▸ ⟨rfl, h.chain⟩
    have hnext : ∀ q ∈ l₁, s'.next q = c.sys.next q := fun q hq =>
      hs.next q (hb₁ q hq).1 (hb₁ q hq).2
    have := hseg.relink hnext hs.chain
    rw [← hL'] at this
    exact this.2
  · rw [hs.live, h.live, hmem]
    have := hlocal q
    tauto
  · have hblk := h.placed q (hsub.subset hq)
    have hql := h.mem_live (hsub.subset hq)
    rw [hs.block, if_neg, hblk]
    rintro ⟨p, hp, hk, hqp | hown⟩
    · rw [hx, freeAddr_zero] at hqp
      subst hqp
      rw [((hmem q).mp hq).2 hp] at hk
      cases hk
    · -- An owned block holds no object.
      have hpL : p ∈ L := behind_subset he hp
      have hp' : p ∈ c.root :: L := .tail _ hpL
      have hpr : p ≠ c.root := fun e => (List.nodup_cons.mp h.nodup).1 (e ▸ hpL)
      obtain ⟨w, hw, hw'⟩ := ho.block p (h.mem_live hp') hpr
        (fun hm => h.apart p hm hp') hk hown.1
      obtain rfl : w = q := Option.some.inj (hw.symm.trans hown.2.1)
      rcases hw' with hw' | hw'
      · exact hown.2.2 hw'
      · rw [hblk] at hw'
        exact hql.ne_nil (Option.some.inj hw')
  · rw [hs.trace, mem_outstanding_free, h.outstanding, hmem, List.mem_filter]
    simp

end ChainInv

namespace HeapInv

variable {env : Env} {c : Client} {L K : List Ptr} {t : Ptr → Cells Word} {k : Ptr → Kept}
  {s' : Sys} {b p q w cell : Ptr}

theorem accounted (h : HeapInv c L t k) (hb : b ∈ c.bases) :
    Accounted c.sys b (t b) (k b).cell := by
  have hbase := h.base b hb
  refine ⟨?_, fun _ => hbase.tree, fun _ => ⟨_, rfl, rfl⟩, fun _ => hbase.shared⟩
  by_cases ht : c.sys.typeOf b = nil
  · exact .inl (.inr ⟨h.base_live hb, .inl ht⟩)
  · exact .inr ⟨ht, hbase.tree.isSet⟩

/-- The bases after a sweep behind `b`: those that are there keep their trees. -/
theorem swept {F : Flags} {fn : Word} {l₁ l₂ : List Ptr} (h : HeapInv c L t k) (hb : b ∈ c.bases)
    (hF : F &&& xObjFlagShared = 0) (ho : c.OwnReady F) (he : c.root :: L = l₁ ++ b :: l₂)
    (hs : Swept c.sys b F fn b l₂ s') :
    ∃ L', c.root :: L' = l₁ ++ b :: l₂.filter (c.sys.kept F) ∧
      HeapInv { c with sys := s', bases := c.bases.filter fun b => decide (s'.Live b) } L' t k := by
  obtain ⟨L', hc, hL', hmem⟩ := h.chain.swept (h.extraOf hb) ho he hs
  have hlocal : ∀ q ∈ c.locals, q ≠ b ∧ q ∉ l₂ := fun q hq => by
    have := h.chain.apart q hq
    rw [he, List.mem_append, List.mem_cons, not_or, not_or] at this
    exact this.2
  have hbases : ∀ q ∈ c.bases.filter (fun b => decide (s'.Live b)), q ∈ c.bases ∧ s'.Live q :=
    fun q hq => ⟨(List.mem_filter.mp hq).1, by simpa using (List.mem_filter.mp hq).2⟩
  have hnode : ∀ q ∈ c.bases, ∀ p ∈ (t q).nodes, p ∈ L' ∧ c.sys.kept F p = true := by
    intro q hq p hp
    have hk := kept_of_shared (F := F) ((h.base q hq).shared p hp)
    have hm := (hmem p).mpr ⟨.tail _ (h.nodes q hq hp), fun _ => hk⟩
    refine ⟨(List.mem_cons.mp hm).resolve_left fun e => ?_, hk⟩
    exact h.no_node _ h.root_mem q hq (e ▸ hp)
  have hnodelive : ∀ q ∈ c.bases, ∀ p ∈ (t q).nodes, s'.Live p := fun q hq p hp =>
    hc.mem_live (.tail _ (hnode q hq p hp).1)
  refine ⟨L', hL', ?_⟩
  constructor
  case chain => exact hc
  case root_mem =>
    exact List.mem_filter.mpr ⟨h.root_mem, decide_eq_true (hc.mem_live (.head _))⟩
  case bases =>
    intro q hq
    obtain ⟨hq, hl⟩ := hbases q hq
    exact ((hc.live q).mp hl).resolve_right fun hm => h.chain.apart q hm (h.bases hq)
  case base =>
    intro q hq
    obtain ⟨hq, hl⟩ := hbases q hq
    have hbase := h.base q hq
    have htree : BaseTree s' q (t q) (k q).cell := by
      refine h.tree_count (d := -((l₂.filter fun p => !c.sys.kept F p).length : Int))
        (fun _ => hb) hq fun p hp i => hs.unit p i ?_
      rcases List.mem_cons.mp hp with rfl | hp
      · exact hl
      · exact hnodelive q hq p hp
    refine hbase.mono htree (fun ht => hbase.typed ?_) (fun p hp => ?_) (List.Subset.refl _)
      (fun p hp => ?_) fun p hp w hw => ?_
    · rwa [← hs.typeOf q hl]
    · by_cases hm : p ∈ l₂
      · rw [hs.flags_mem p hm (hnode q hq p hp).2, Flags.clear_and hF]
        exact hbase.shared p hp
      · rw [hs.flags_notMem p hm]
        exact hbase.shared p hp
    · have hp := hbase.subset hp
      exact hs.next p (hlocal p hp).1 (hlocal p hp).2
    · rw [hs.unit p 0 (hc.local_live hp)]
      split
      · exact ⟨_, by rw [hw]; rfl⟩
      · exact ⟨w, hw⟩
  case nodes =>
    intro q hq p hp
    exact (hnode q (hbases q hq).1 p hp).1
  case apart =>
    intro q hq r hr hqr
    exact h.apart q (hbases q hq).1 r (hbases r hr).1 hqr
  case no_node =>
    intro q hq r hr
    exact h.no_node q (hbases q hq).1 r (hbases r hr).1
  case roots_apart =>
    intro q hq r hr hqr
    exact h.roots_apart q (hbases q hq).1 r (hbases r hr).1 hqr

/-- A sweep of the chain behind the base `b` returns. -/
theorem sweep {F : Flags} (h : HeapInv c L t k) (hin : env.FreeInert) (hb : b ∈ c.bases)
    (hF : F &&& xObjFlagShared = 0) (ho : c.OwnReady F) :
    ∃ s' fn l₁ l₂ L', xHeapSweep env b (c.sys.next b) F c.sys = .ok b s' ∧
      c.root :: L = l₁ ++ b :: l₂ ∧ Swept c.sys b F fn b l₂ s' ∧
      c.root :: L' = l₁ ++ b :: l₂.filter (c.sys.kept F) ∧
      HeapInv { c with sys := s', bases := c.bases.filter fun b => decide (s'.Live b) } L' t k := by
  obtain ⟨l₁, l₂, he, hsub, hseg⟩ := h.chain.split (h.bases hb)
  have hn : (l₁ ++ b :: l₂).Nodup := he ▸ h.chain.nodup
  have hn₂ := (List.nodup_append.mp hn).2.1
  have hbase := h.base b hb
  obtain ⟨fn, hfn⟩ := hbase.tree.hookWord (f := .heapFree) rfl (hbase.free.imp id And.right)
  obtain ⟨s', hrun, hs⟩ := xHeapSweep_run hF (fun _ _ _ => hin.on) hfn
    (h.chain.sweepable (h.bases hb) (h.accounted hb) (h.extraOf hb) ho
      (List.nodup_cons.mp hn₂).1 hsub (List.nodup_cons.mp hn₂).2 hseg)
  obtain ⟨L', hL', hi⟩ := h.swept hb hF ho he hs
  exact ⟨s', fn, l₁, l₂, L', hrun, he, hs, hL', hi⟩

/-! ## Marks of the root chain -/

/-- Marking clears the registered objects and then marks. -/
theorem rootChainMark_ok {F : Flags} {r : Ptr} (h : HeapInv c L t k) (hb : b ∈ c.bases)
    (hr : xHeapRootChainMark env b F c.sys = .ok r s') :
    ∃ s₁ A, Cleared c.sys F (c.roots b) s₁ ∧ Marked s₁ F A s' := by
  have hbase := h.base b hb
  have hhead : c.sys.fieldObj b .heapRootChain = some (k b).head := hbase.tree.fieldObj rfl
  obtain ⟨s₁, hrun, hc⟩ := xHeapChainClear_run (F := F) hbase.roots hbase.nodup
    fun q hq => h.chain.local_live (hbase.subset hq)
  unfold xHeapRootChainMark xHeapRootChain at hr
  rw [Prog.bind_of_ok (xBaseIsset_run hbase.tree.isSet), if_pos rfl,
    Prog.bind_of_ok (Field.obj_run hhead), Prog.bind_of_ok hrun,
    Prog.get_bind, Prog.bind_ok] at hr
  obtain ⟨w, s₂, hw, hr⟩ := hr
  obtain ⟨-, rfl⟩ := Field.obj_ok.mp hw
  rw [Prog.bind_ok] at hr
  obtain ⟨_, s₃, hm, hr⟩ := hr
  cases hr
  obtain ⟨A, hA⟩ := rootMarkLoop_ok hm
  exact ⟨s₂, A, hc, hA⟩

theorem rootChainMark {F : Flags} {r : Ptr} (h : HeapInv c L t k) (hb : b ∈ c.bases)
    (hr : xHeapRootChainMark env b F c.sys = .ok r s') : HeapInv { c with sys := s' } L t k := by
  obtain ⟨s₁, A, hc, hA⟩ := h.rootChainMark_ok hb hr
  have h₁ : HeapInv { c with sys := s₁ } L t k := h.cleared hc (.inr fun q hq hL =>
    h.chain.apart q ((h.base b hb).subset hq) (.tail _ hL))
  exact h₁.marked hA

end HeapInv

/-! ## The steps -/

section Steps

variable {env : Env} {F : Flags} {c c' : Client} {L : List Ptr} {t : Ptr → Cells Word}
  {k : Ptr → Kept}

theorem Mutate.inv (h : HeapInv c L t k) (hs : Mutate env F c c') :
    ∃ L' t' k', HeapInv c' L' t' k' := by
  cases hs with
  | alloc hb _ hr =>
    rcases xObjAlloc_ok hr with ⟨-, -, -, rfl⟩ | ⟨a, data, -, hm, -⟩
    · exact ⟨L, t, k, h.request⟩
    · obtain ⟨L', hi, -⟩ := h.made (h.bases hb) (fun _ => hb) hm
      exact ⟨L', t, k, hi⟩
  | make hb _ hr =>
    rcases xObjMake_ok hr with ⟨-, -, -, rfl⟩ | ⟨a, -, hm⟩
    · exact ⟨L, t, k, h.request⟩
    · obtain ⟨L', hi, -⟩ := h.made (h.bases hb) (fun _ => hb) hm
      exact ⟨L', t, k, hi⟩
  | baseMake hb hg hm hf hr =>
    obtain ⟨a, new, t₀, hmade⟩ := xBaseMake_ok hr
    obtain ⟨L', t', k', hi, -⟩ := h.baseMade hb hmade hg hm hf
    exact ⟨L', t', k', hi⟩
  | setType hp hr =>
    obtain ⟨hl, rfl⟩ := setXObjType_ok.mp hr
    exact ⟨L, t, k, h.setType hl hp⟩
  | write hg hr =>
    obtain ⟨⟨v, hv⟩, rfl⟩ := setXObjDataI_ok.mp hr
    exact ⟨L, t, k, h.write hv hg⟩
  | malloc hr =>
    rw [xSysMalloc_eq] at hr
    split at hr
    · cases hr
      exact ⟨L, t, k, h.setBlock (env.malloc.fresh _ _).2.1⟩
    · cases hr
      exact ⟨L, t, k, h.request⟩
  | newLocal hn hp _ => exact ⟨L, t, k, h.newLocal hn hp⟩
  | rootPush hb hp hnew hs hr =>
    obtain ⟨t', k', hi⟩ := h.rootPush hb hp hnew hs hr
    exact ⟨L, t', k', hi⟩
  | rootPop hb hK hs hr =>
    obtain ⟨t', k', hi⟩ := h.rootPop hb hK hs hr
    exact ⟨L, t', k', hi⟩
  | rootRestore hb hK hr =>
    obtain ⟨t', k', hi⟩ := h.rootRestore hb hK hr
    exact ⟨L, t', k', hi⟩

theorem Mutate.root_eq (hs : Mutate env F c c') : c'.root = c.root := by cases hs <;> rfl

theorem Mutate.locals_subset (hs : Mutate env F c c') : c.locals ⊆ c'.locals := by
  cases hs
  case newLocal => exact fun q hq => .tail _ hq
  all_goals exact List.Subset.refl _

/-- Objects keep their flags, and new ones have no bits of `F`. -/
theorem Mutate.flags (h : HeapInv c L t k) (hF : F &&& xObjFlagShared = 0)
    (hs : Mutate env F c c') : ∀ p, c'.sys.Live p →
      c.sys.Live p ∧ c'.sys.flagsOf p = c.sys.flagsOf p ∨ c'.sys.flagsOf p &&& F = 0 := by
  have hmade : ∀ {b ty fl data p a s'}, b ∈ c.bases → fl &&& F = 0 →
      Made c.sys b ty fl data p a s' → ∀ q, s'.Live q →
        c.sys.Live q ∧ s'.flagsOf q = c.sys.flagsOf q ∨ s'.flagsOf q &&& F = 0 := by
    intro b ty fl data p a s' hb hfl hm q hq
    by_cases e : q = p
    · subst e
      refine .inr ?_
      rw [hm.flagsOf_new, h.extraOf hb, if_neg (lt_irrefl 0), hfl]
    · exact .inl ⟨((hm.live q).mp hq).resolve_left e, hm.flagsOf_old q e⟩
  intro q hq
  cases hs with
  | alloc hb hfl hr =>
    rcases xObjAlloc_ok hr with ⟨-, -, -, rfl⟩ | ⟨a, data, -, hm, -⟩
    · exact .inl ⟨hq, rfl⟩
    · exact hmade hb hfl hm q hq
  | make hb hfl hr =>
    rcases xObjMake_ok hr with ⟨-, -, -, rfl⟩ | ⟨a, -, hm⟩
    · exact .inl ⟨hq, rfl⟩
    · exact hmade hb hfl hm q hq
  | baseMake hb hg hm hf hr =>
    obtain ⟨a, new, t₀, hm⟩ := xBaseMake_ok hr
    rcases (hm.live q).mp hq with hn | hl
    · refine .inr ?_
      rcases List.mem_cons.mp hn with rfl | hn
      · rw [show Sys.flagsOf _ q = _ from hm.flagsOf_base (h.extraOf hb)]
        exact BitVec.zero_and
      · rw [show Sys.flagsOf _ q = _ from hm.flagsOf_new hn, BitVec.and_comm, hF]
    · exact .inl ⟨hl, hm.flagsOf_old hl⟩
  | setType hp hr =>
    obtain ⟨hl, rfl⟩ := setXObjType_ok.mp hr
    exact .inl ⟨live_setType.mp hq, flagsOf_setType⟩
  | write hg hr =>
    obtain ⟨⟨v, hv⟩, rfl⟩ := setXObjDataI_ok.mp hr
    exact .inl ⟨live_setUnit.mp hq, flagsOf_setUnit⟩
  | malloc hr =>
    rw [xSysMalloc_eq] at hr
    split at hr <;> cases hr <;> exact .inl ⟨hq, rfl⟩
  | @newLocal p o hn hp hfl =>
    by_cases e : q = p
    · subst e
      exact .inr (by rw [flagsOf_place hn, if_pos rfl, hfl])
    · exact .inl ⟨((live_place hn).mp hq).resolve_left e, by rw [flagsOf_place hn, if_neg e]⟩
  | rootPush hb hp hnew hs hr =>
    obtain ⟨cell, hc, hu, -⟩ := h.rootSlot hb
    cases hs.symm.trans (xHeapRootSlot_run (h.base _ hb).tree.isSet hc)
    cases hr.symm.trans (xHeapRootPush_run hu (h.chain.local_live hp))
    exact .inl ⟨live_setHeap.mp (live_setUnit.mp hq), flagsOf_setUnit.trans flagsOf_setHeap⟩
  | rootPop hb hK hs hr =>
    obtain ⟨cell, hc, hu, -⟩ := h.rootSlot hb
    have hbase := h.base _ hb
    cases hs.symm.trans (xHeapRootSlot_run hbase.tree.isSet hc)
    have hseg := hbase.roots
    rw [hK] at hseg
    rw [hseg.1] at hu
    cases hr.symm.trans (xHeapRootPop_run hu (h.chain.local_live (hbase.subset (hK ▸ .head _))))
    exact .inl ⟨live_setUnit.mp hq, flagsOf_setUnit⟩
  | rootRestore hb hK hr =>
    obtain ⟨cell, hc, hu, -⟩ := h.rootSlot hb
    cases hr.symm.trans (setXHeapRootChain_run hc hu)
    exact .inl ⟨live_setUnit.mp hq, flagsOf_setUnit⟩

theorem Collect.inv (hin : env.FreeInert) (h : HeapInv c L t k) (hs : Collect env c c') :
    ∃ L' t' k', HeapInv c' L' t' k' := by
  cases hs with
  | treeMark hb hr =>
    obtain ⟨A, hA⟩ := xHeapTreeMark_ok hr
    exact ⟨L, t, k, h.marked hA⟩
  | rootChainMark hb hr => exact ⟨L, t, k, h.rootChainMark hb hr⟩
  | chainClear hF hr =>
    obtain ⟨l, hc⟩ := xHeapChainClear_ok hr
    exact ⟨L, t, k, h.cleared hc (.inl hF)⟩
  | sweep hb hF ho hr =>
    obtain ⟨s', fn, l₁, l₂, L', hrun, -, -, -, hi⟩ := h.sweep hin hb hF ho
    cases hr.symm.trans hrun
    exact ⟨L', t, k, hi⟩
/-- The base that a run starts from, and on its chain nothing but its tree. -/
theorem Start.made {cfg : XBaseT} (h : Start env cfg c) : ∃ s new t,
    BaseMade env s nil cfg c.root c.root new t c.sys ∧
    env.malloc.GrantsFrom (s.requests + 1) 55 ∧ ChainInv c.sys c.root new c.locals ∧
    c.sys.Hook c.locals cfg.heapMark ∧ c.sys.Hook c.locals cfg.heapFree := by
  obtain ⟨s, hlive, htr, hg, hmark, hfree, hrun⟩ := h.before
  obtain ⟨a, new, t, hm⟩ := xBaseMake_ok hrun
  obtain rfl := hm.addr (extraOf_of_not_full not_full_nil)
  have hread : ∀ q ∈ c.locals, ∀ w, s.unit q 0 = some w → ∃ w', c.sys.unit q 0 = some w' := by
    intro q hq w hw
    exact ⟨w, by rw [hm.unit_old ((hlive q).mpr hq), if_neg fun h => not_full_nil h.1, hw]⟩
  refine ⟨s, new, t, hm, ((Malloc.grantsFrom_add (n := 1) (k := 55)).mp hg).2,
    ⟨hm.chain_nil, hm.nodup, fun q => ?_, fun q hq => ?_, fun q hq => ?_, fun q => ?_⟩,
    hmark.mono (List.Subset.refl _) hread, hfree.mono (List.Subset.refl _) hread⟩
  · rw [hm.live, hlive]
  · exact fun hn => (hm.fresh q hn).2 ((hlive q).mpr hq)
  · rw [hm.block]
    rcases List.mem_cons.mp hq with rfl | hq
    · rw [if_neg (List.nodup_cons.mp hm.nodup).1, if_pos rfl]
    · rw [if_pos hq]
  · rw [hm.trace, htr, outstanding_map_alloc]
    simp [outstanding, or_comm]

theorem Start.heapInv {cfg : XBaseT} (h : Start env cfg c) :
    ∃ L t, HeapInv c L t fun _ => Kept.ofCfg cfg := by
  obtain ⟨s, new, t₀, hm, hg, hchain, hmark, hfree⟩ := h.made
  obtain ⟨d₀, hd₀, hsub₀, -⟩ := hm.baseTree hg
  obtain ⟨d, hd, hsub₁, -⟩ := hd₀.relax cfg.cell_relaxes
  have hsub : d.nodes ⊆ new := List.Subset.trans hsub₁ hsub₀
  have hbase : BaseInv c.sys c.locals c.root d (Kept.ofCfg cfg) (c.roots c.root) := by
    rw [h.roots]
    refine ⟨hd, fun ht => absurd hm.typeOf_base ht, fun q hq => ?_, hmark, hfree, rfl, .nil,
      List.nil_subset _⟩
    rw [hm.flagsOf_new (hsub hq)]
    decide
  have hone : ∀ q ∈ c.bases, q = c.root := fun q hq => by rwa [h.bases, List.mem_singleton] at hq
  refine ⟨new, fun _ => d, ⟨hchain, ?_, ?_, ?_, ?_, ?_, ?_, ?_⟩⟩
  · rw [h.bases]; exact .head _
  · intro q hq; rw [hone q hq]; exact .head _
  · intro q hq; rw [hone q hq]; exact hbase
  · exact fun q hq => hsub
  · intro q hq r hr hqr; exact absurd ((hone q hq).trans (hone r hr).symm) hqr
  · intro q hq r hr; rw [hone q hq]; exact (List.nodup_cons.mp hd.nodup).1
  · intro q hq r hr hqr; exact absurd ((hone q hq).trans (hone r hr).symm) hqr

theorem Start.inv {cfg : XBaseT} (h : Start env cfg c) : ∃ L t k, HeapInv c L t k := by
  obtain ⟨L, t, h⟩ := h.heapInv
  exact ⟨L, t, _, h⟩

end Steps

end XExpr
