import XExpr.Heap.Armed
import XExpr.Heap.Program

/-!
# What the steps of a program keep

Between two steps the registered frames are pairs off the chain, and the objects that the program
knows are unshared atoms and pairs on it, apart from the tree of the base.

* `HeapInv.setUnit`, `HeapInv.dropLocals`: stores into objects that are not part of a base, and
  objects off the chain that go.
* `ProgInv`: the invariant. One lemma for each thing that a step does: `setUnit`, `made`, `enter`,
  `left`, `collect`.
* `ProgInv.reach_iff`: what the marker finds from the frames is what the frames lead to in the view
  of the program.
-/

namespace XExpr

open Sys Chain Relation
open Mem (chase)

/-! ## Objects that go -/

namespace Sys

variable {s : Sys} {p q : Ptr} {i : Nat}

section DropAll

variable {D : List Ptr}

theorem obj_dropAll : (D.foldl Sys.drop s).obj q = if q ∈ D then none else s.obj q := by
  induction D generalizing s with
  | nil => simp
  | cons p D ih =>
    rw [List.foldl_cons, ih, obj_drop]
    by_cases h₁ : q ∈ D <;> by_cases h₂ : q = p <;> simp [h₁, h₂]

theorem trace_dropAll : (D.foldl Sys.drop s).trace = s.trace := by
  induction D generalizing s with
  | nil => rfl
  | cons p D ih => exact ih

theorem requests_dropAll : (D.foldl Sys.drop s).requests = s.requests := by
  induction D generalizing s with
  | nil => rfl
  | cons p D ih => exact ih

end DropAll

end Sys

/-! ## Stores and objects off the bases -/

namespace HeapInv

variable {c : Client} {L l : List Ptr} {t : Ptr → Cells Word} {k : Ptr → Kept} {p w : Ptr} {i : Nat}

/-- A store into an object that is not part of a base. -/
theorem setUnit (h : HeapInv c L t k) {v : Word} (hv : c.sys.unit p i = some v)
    (hp : ∀ b ∈ c.bases, p ∉ b :: (t b).nodes) :
    HeapInv { c with sys := c.sys.setUnit p i w } L t k := by
  refine ⟨h.chain.mono (fun q => live_setUnit) (fun q _ => next_setUnit)
      (fun q _ hq => block_setUnit.trans hq) fun q => ?_,
    h.root_mem, h.bases, fun b hb => ?_, h.nodes, h.apart, h.no_node, h.roots_apart⟩
  · change q ∈ XExpr.outstanding (Sys.setUnit c.sys p i w).trace ↔ _
    rw [Sys.setUnit, trace_modify]
  · have hbase := h.base b hb
    refine hbase.mono (hbase.tree.congr fun q hq j u hu => ?_) (fun ht => hbase.typed ?_)
      (fun q hq => ?_) (List.Subset.refl _) (fun q _ => next_setUnit) fun q _ u hu => ?_
    · rwa [unit_setUnit hv, if_neg fun e : q = p ∧ j = i => hp b hb (e.1 ▸ hq)]
    · rwa [typeOf_setUnit] at ht
    · rw [flagsOf_setUnit]
      exact hbase.shared q hq
    · rw [unit_setUnit hv]
      split
      · exact ⟨w, rfl⟩
      · exact ⟨u, hu⟩

/-- An object off the chain goes, which is not registered and no hook. -/
theorem dropLocal (h : HeapInv c L t k) (hl : c.locals = p :: l) (hp : p ∉ l)
    (hr : ∀ b ∈ c.bases, p ∉ c.roots b) (hh : ∀ b ∈ c.bases, (k b).mark ≠ p ∧ (k b).free ≠ p) :
    HeapInv { c with sys := c.sys.drop p, locals := l } L t k := by
  have hmem : ∀ q ∈ c.root :: L, q ≠ p := fun q hq e =>
    h.chain.apart p (hl ▸ .head _) (e ▸ hq)
  have hsub : l ⊆ c.locals := fun q hq => hl ▸ .tail _ hq
  have hne : ∀ q ∈ l, q ≠ p := fun q hq e => hp (e ▸ hq)
  have hhook : ∀ {a : Ptr}, a ≠ p → c.sys.Hook c.locals a → (c.sys.drop p).Hook l a := by
    rintro a ha (rfl | ⟨hm, u, hu⟩)
    · exact .inl rfl
    · rw [hl] at hm
      exact .inr ⟨(List.mem_cons.mp hm).resolve_left ha, u, (unit_drop ha).trans hu⟩
  refine ⟨⟨?_, h.chain.nodup, fun q => ?_, fun q hq => h.chain.apart q (hsub hq), h.chain.placed,
    h.chain.outstanding⟩, h.root_mem, h.bases, fun b hb => ?_, h.nodes, h.apart, h.no_node,
    h.roots_apart⟩
  · change Seg (c.sys.drop p).next ((c.sys.drop p).next c.root) L nil
    rw [next_drop (hmem c.root (.head _))]
    exact h.chain.chain.congr fun q hq => next_drop (hmem q (.tail _ hq))
  · change (c.sys.drop p).Live q ↔ _
    rw [live_drop, h.chain.live, hl, List.mem_cons (a := q) (b := p)]
    constructor
    · rintro ⟨hq, hm | rfl | hm⟩
      · exact .inl hm
      · exact absurd rfl hq
      · exact .inr hm
    · rintro (hm | hm)
      · exact ⟨hmem q hm, .inl hm⟩
      · exact ⟨hne q hm, .inr (.inr hm)⟩
  · have hbase := h.base b hb
    have hK : ∀ q ∈ c.roots b, q ≠ p := fun q hq e => hr b hb (e ▸ hq)
    refine ⟨hbase.tree.congr fun q hq i u hu => ?_, fun ht => hbase.typed ?_, fun q hq => ?_,
      hhook (hh b hb).1 hbase.mark, hhook (hh b hb).2 hbase.free,
      hbase.roots.congr fun q hq => next_drop (hK q hq), hbase.nodup, fun q hq => ?_⟩
    · rwa [unit_drop (hmem q (h.tree_mem hb hq))]
    · rwa [typeOf_drop (hmem b (h.bases hb))] at ht
    · rw [flagsOf_drop (hmem q (h.tree_mem hb (.tail _ hq)))]
      exact hbase.shared q hq
    · have hq' := hbase.subset hq
      rw [hl] at hq'
      exact (List.mem_cons.mp hq').resolve_left (hK q hq)

theorem dropLocals {D : List Ptr} (h : HeapInv c L t k) (hl : c.locals = D ++ l)
    (hn : D.Nodup) (hd : D.Disjoint l) (hr : ∀ b ∈ c.bases, D.Disjoint (c.roots b))
    (hh : ∀ b ∈ c.bases, (k b).mark ∉ D ∧ (k b).free ∉ D) :
    HeapInv { c with sys := D.foldl Sys.drop c.sys, locals := l } L t k := by
  induction D generalizing c with
  | nil =>
    rw [List.nil_append] at hl
    exact hl ▸ h
  | cons p D ih =>
    obtain ⟨hpD, hn⟩ := List.nodup_cons.mp hn
    obtain ⟨hpl, hd⟩ := List.disjoint_cons_left.mp hd
    have h₁ := h.dropLocal (l := D ++ l) hl (by simp [hpD, hpl])
      (fun b hb => (List.disjoint_cons_left.mp (hr b hb)).1)
      fun b hb => ⟨fun e => (hh b hb).1 (e ▸ .head _), fun e => (hh b hb).2 (e ▸ .head _)⟩
    exact ih h₁ rfl hn hd (fun b hb => (List.disjoint_cons_left.mp (hr b hb)).2)
      fun b hb => ⟨fun hm => (hh b hb).1 (.tail _ hm), fun hm => (hh b hb).2 (.tail _ hm)⟩

/-- A store into the head of the root chain leaves the hooks alone. -/
theorem hooks_eq {c' : Client} {L' : List Ptr} {t' : Ptr → Cells Word} {k' : Ptr → Kept}
    {b cell : Ptr} (h : HeapInv c L t k) (h' : HeapInv c' L' t' k') (hb : b ∈ c.bases)
    (hb' : b ∈ c'.bases) (hc : chase c.sys.unit b Field.heapRootChain.path = some cell)
    (hunit : ∀ q ∈ b :: (t b).nodes, ∀ j, c'.sys.unit q j =
      if q = cell ∧ j = 0 then some w else c.sys.unit q j) :
    (k' b).mark = (k b).mark ∧ (k' b).free = (k b).free := by
  obtain ⟨tb, htb, -⟩ := (h.base b hb).tree.assign (f := .heapRootChain) rfl hc hunit
  rw [Kept.cell_head] at htb
  have h₁ := (h'.base b hb').tree
  exact ⟨Option.some.inj ((h₁.fieldObj (f := .heapMark) rfl).symm.trans
    (htb.fieldObj (f := .heapMark) rfl)), Option.some.inj
    ((h₁.fieldObj (f := .heapFree) rfl).symm.trans (htb.fieldObj (f := .heapFree) rfl))⟩

end HeapInv

/-! ## The invariant of a program -/

/-- The memory after the `n` newest frames were left, with the head of the root chain in
`cell`. -/
def leftSys (s : Sys) (cell : Ptr) (K : List Ptr) (n : Nat) : Sys :=
  (K.take n).foldl Sys.drop (s.setUnit cell 0 ((K.drop n).headD nil))

/-- The object at `p` is the same node in both memories. -/
def Sys.SameNode (s s' : Sys) (p : Ptr) : Prop :=
  s'.typeOf p = s.typeOf p ∧ s'.dataOf p = s.dataOf p

theorem Sys.SameNode.node {s s' : Sys} {p : Ptr} (h : s.SameNode s' p) : s'.node p = s.node p := by
  simp only [Sys.node, Sys.unit, h.1, h.2]

/-- A program on the base `b` with the frames `K`, as a client with the objects `l` off the
chain. -/
def progClient (s : Sys) (b : Ptr) (K l : List Ptr) : Client :=
  ⟨s, b, [b], Function.update (fun _ => []) b K, l⟩

/-- The program knows the objects `A`; `S` are the static objects. -/
structure ProgInv (m : Mode) (F : Flags) (S : List Ptr) (b : Ptr) (s : Sys) (K : List Ptr)
    (A : Set Ptr) : Prop where
  inv : ∃ L t k, CleanInv F (progClient s b K (K ++ S)) L t k ∧
    (k b).mark ∈ nil :: S ∧ (k b).free ∈ nil :: S
  base : m.Holds s b S
  ne : b ∉ A
  own : ∀ p, s.flagsOf p &&& xObjFlagOwn = 0
  frame : ∀ p ∈ K, s.typeOf p = xTypePairObj ∧ (s.dataOf p).length = 2
  apart : ∀ p ∈ K, p ∉ S
  chain : ∀ p ∈ A, p ∈ outstanding s.trace ∧ s.flagsOf p &&& xObjFlagShared = 0
  shape : ∀ p ∈ A, s.typeOf p = xTypePairObj ∧ (s.dataOf p).length = 2 ∨
    s.typeOf p = xTypeAtomObj ∧ (s.dataOf p).length = 1

namespace ProgInv

variable {env : Env} {m : Mode} {F : Flags} {S K : List Ptr} {b p a : Ptr} {s s' : Sys}
  {A A' : Set Ptr} {w v : Word} {i : Nat}

theorem mono (h : ProgInv m F S b s K A) (hA : A' ⊆ A) : ProgInv m F S b s K A' :=
  ⟨h.inv, h.base, fun hb => h.ne (hA hb), h.own, h.frame, h.apart, fun p hp => h.chain p (hA hp),
    fun p hp => h.shape p (hA hp)⟩

theorem ne_base (h : ProgInv m F S b s K A) (hp : p ∈ A) : p ≠ b := fun e => h.ne (e ▸ hp)

/-- The objects of the program are off the trees of the bases. -/
theorem off_tree {L : List Ptr} {t : Ptr → Cells Word} {k : Ptr → Kept}
    (h : ProgInv m F S b s K A) (hi : HeapInv (progClient s b K (K ++ S)) L t k)
    (hp : p ∈ K ∨ p ∈ A) : p ∉ b :: (t b).nodes := by
  have hb : b ∈ (progClient s b K (K ++ S)).bases := .head _
  rcases hp with hp | hp
  · exact fun hm => hi.chain.apart p (List.mem_append_left _ hp) (hi.tree_mem hb hm)
  · rw [List.mem_cons, not_or]
    exact ⟨h.ne_base hp, fun hm => (hi.base b hb).shared p hm (h.chain p hp).2⟩

theorem live (h : ProgInv m F S b s K A) (hp : p ∈ K ∨ p ∈ A) : s.Live p := by
  obtain ⟨L, t, k, hi, -⟩ := h.inv
  rcases hp with hp | hp
  · exact hi.heap.chain.local_live (List.mem_append_left _ hp)
  · exact hi.heap.chain.mem_live ((hi.heap.chain.outstanding p).mp (h.chain p hp).1)

/-- They are neither the base nor shared objects of the chain. -/
theorem ne_shared {q : Ptr} (h : ProgInv m F S b s K A) (hp : p ∈ K ∨ p ∈ A)
    (hq : q = b ∨ q ∈ outstanding s.trace ∧ s.flagsOf q &&& xObjFlagShared ≠ 0) : q ≠ p := by
  rintro rfl
  obtain ⟨L, t, k, hi, -⟩ := h.inv
  rcases hp with hp | hp
  · refine hi.heap.chain.apart q (List.mem_append_left _ hp) ?_
    exact hq.elim (fun e => e ▸ .head _) fun hq => (hi.heap.chain.outstanding q).mp hq.1
  · exact hq.elim (fun e => h.ne_base hp e) fun hq => hq.2 (h.chain q hp).2

/-- Nor do they hold the count. -/
theorem ne_count (h : ProgInv m F S b s K A) (hp : p ∈ K ∨ p ∈ A) :
    s.fieldObj b .allocCount ≠ some p := fun hc => by
  obtain ⟨L, t, k, hi, -⟩ := h.inv
  obtain ⟨c, -, hc', hmem, -⟩ := (hi.heap.base b (.head _)).tree.fieldAtom (f := .allocCount) rfl
  obtain rfl : c = p := Option.some.inj (hc'.symm.trans hc)
  exact h.off_tree hi.heap hp (.tail _ hmem)

/-- A store of the program. -/
theorem setUnit (h : ProgInv m F S b s K A) (hp : p ∈ K ∨ p ∈ A) (hv : s.unit p i = some v) :
    ProgInv m F S b (s.setUnit p i w) K A := by
  have hlen : ∀ q, ((s.setUnit p i w).dataOf q).length = (s.dataOf q).length := fun q => by
    rw [dataOf_setUnit]
    split
    · next e => rw [e, List.length_set]
    · rfl
  obtain ⟨L, t, k, hi, hh⟩ := h.inv
  refine ⟨⟨L, t, k, ⟨hi.heap.setUnit hv fun q hq => ?_, fun q hq => ?_⟩, hh⟩, ?_, h.ne,
    fun q => ?_, fun q hq => ?_, h.apart, fun q hq => ?_, fun q hq => ?_⟩
  · rw [List.mem_singleton.mp hq]
    exact h.off_tree hi.heap hp
  · exact flagsOf_setUnit.symm ▸ hi.clean q hq
  · refine h.base.still typeOf_setUnit (fun q hq j => ?_) (fun q _ u hu => ?_)
      (fun q => by rw [show (s.setUnit p i w).trace = s.trace from trace_modify])
      fun q _ => by rw [flagsOf_setUnit]
    · rw [unit_setUnit hv, if_neg fun e => h.ne_shared hp hq e.1]
    · rw [unit_setUnit hv]
      split
      · exact ⟨w, rfl⟩
      · exact ⟨u, hu⟩
  · rw [flagsOf_setUnit, h.own]
  · rw [typeOf_setUnit, hlen]
    exact h.frame q hq
  · rw [flagsOf_setUnit, show (s.setUnit p i w).trace = s.trace from trace_modify]
    exact h.chain q hq
  · rw [typeOf_setUnit, hlen]
    exact h.shape q hq

theorem request (h : ProgInv m F S b s K A) : ProgInv m F S b s.request K A := by
  obtain ⟨L, t, k, hi, hh⟩ := h.inv
  exact ⟨⟨L, t, k, ⟨hi.heap.request, hi.clean⟩, hh⟩, h.base.still rfl (fun _ _ _ => rfl)
    (fun _ _ u hu => ⟨u, hu⟩) (fun _ => Iff.rfl) fun _ _ => rfl, h.ne, h.own, h.frame, h.apart,
    h.chain, h.shape⟩

theorem bare (h : ProgInv .bare F S b s K A) : s.Bare b := by
  obtain ⟨L, t, k, hi, -⟩ := h.inv
  exact .inr ⟨hi.heap.base_live (.head _), h.base⟩

/-- The objects of the chain and the static objects are there. -/
theorem known_live {q : Ptr} (h : ProgInv m F S b s K A)
    (hq : q = b ∨ q ∈ outstanding s.trace ∨ q ∈ S) : s.Live q := by
  obtain ⟨L, t, k, hi, -⟩ := h.inv
  rcases hq with rfl | hq | hq
  · exact hi.heap.base_live (.head _)
  · exact hi.heap.chain.mem_live ((hi.heap.chain.outstanding q).mp hq)
  · exact hi.heap.chain.local_live (List.mem_append_right _ hq)

theorem extraOf (h : ProgInv m F S b s K A) : s.extraOf b = 0 := by
  obtain ⟨L, t, k, hi, -⟩ := h.inv
  exact hi.heap.extraOf (.head _)

/-- The base counts a new object. -/
theorem base_made {ty : Ptr} {data : List Word} (h : ProgInv m F S b s K A)
    (hm : Made s b ty xObjFlagNone data p a s') (hflags : s'.flagsOf p = xObjFlagNone) :
    (m.add 1).Holds s' b S := by
  have hold : ∀ q, q = b ∨ q ∈ outstanding s.trace ∨ q ∈ S → q ≠ p := fun q hq e =>
    hm.new (e ▸ h.known_live hq)
  have hout : ∀ q, q ∈ outstanding s'.trace ↔ q = p ∨ q ∈ outstanding s.trace := fun q => by
    rw [hm.trace, outstanding, List.mem_cons]
  have hheld : s'.held b = insert p (s.held b) := Set.ext fun q => by
    by_cases hq : q = p
    · subst hq
      exact iff_of_true ⟨(hout q).mpr (.inl rfl), (hold b (.inl rfl)).symm, hflags ▸ by decide⟩
        (.inl rfl)
    · refine (and_congr ((hout q).trans (or_iff_right hq)) ?_).trans (or_iff_right hq).symm
      rw [hm.flagsOf_old q hq]
  have hnew : p ∉ s.held b := fun hp => hold p (.inr (.inl hp.1)) rfl
  rw [← h.base.withCount_add 1]
  refine h.base.step (d := 1) (hm.typeOf_old b (hold b (.inl rfl)))
    (fun q hq i => hm.unit_old q i (hold q (hq.imp id fun hq => .inl hq.1))) (fun q hq w hw => ?_)
    (fun q hq hs => ⟨(hout q).mpr (.inr hq), ?_⟩) ?_ rfl
  · rw [hm.unit_old q 0 (hold q (.inr (.inr hq)))]
    split
    · exact ⟨w + 1, by rw [hw]; rfl⟩
    · exact ⟨w, hw⟩
  · rwa [hm.flagsOf_old q (hold q (.inr (.inl hq)))]
  · rw [hheld, Set.ncard_insert_of_notMem hnew (s.held_finite b)]

/-- A new object of the program. -/
theorem made {ty : Ptr} {data : List Word} (h : ProgInv m F S b s K A)
    (hm : Made s b ty xObjFlagNone data p a s')
    (hty : ty = xTypePairObj ∧ data.length = 2 ∨ ty = xTypeAtomObj ∧ data.length = 1) :
    ProgInv (m.add 1) F S b s' K (insert p A) := by
  have hK : ∀ q ∈ K, q ≠ p := fun q hq e => hm.new (e ▸ h.live (.inl hq))
  have hA : ∀ q ∈ A, q ≠ p := fun q hq e => hm.new (e ▸ h.live (.inr hq))
  have hdata : ∀ q, q ∈ K ∨ q ∈ A → s'.dataOf q = s.dataOf q := fun q hq =>
    List.ext_getElem? fun i => (hm.unit_old q i (hq.elim (hK q) (hA q))).trans
      (if_neg fun e => h.ne_count hq e.2.1)
  have hflags : s'.flagsOf p = xObjFlagNone := by
    rw [hm.flagsOf_new, h.extraOf]
    rfl
  obtain ⟨L, t, k, hi, hh⟩ := h.inv
  have hbL : b ∈ b :: L := .head _
  obtain ⟨L', hi', hL⟩ := hi.heap.made hbL (fun _ => .head _) hm
  have hLp : ∀ q ∈ L, q ≠ p := fun q hq e => hm.new (e ▸ hi.heap.chain.mem_live (.tail _ hq))
  have hbp : b ≠ p := fun e => hm.new (e ▸ hi.heap.base_live (.head _))
  refine ⟨⟨L', t, k, ⟨hi', fun q hq => ?_⟩, hh⟩, h.base_made hm hflags,
    fun hb => hb.elim hbp h.ne, fun q => ?_, fun q hq => ?_, h.apart, fun q hq => ?_,
    fun q hq => ?_⟩
  · rcases (hL q).mp hq with rfl | hq
    · exact hflags.symm ▸ BitVec.zero_and
    · exact (hm.flagsOf_old q (hLp q hq)).symm ▸ hi.clean q hq
  · by_cases e : q = p
    · rw [e, hflags]
      rfl
    · rw [hm.flagsOf_old q e, h.own]
  · rw [hm.typeOf_old q (hK q hq), hdata q (.inl hq)]
    exact h.frame q hq
  · rw [hm.trace]
    rcases hq with rfl | hq
    · exact ⟨.head _, hflags.symm ▸ by decide⟩
    · rw [hm.flagsOf_old q (hA q hq)]
      exact ⟨.tail _ (h.chain q hq).1, (h.chain q hq).2⟩
  · rcases hq with rfl | hq
    · rw [hm.typeOf_new, hm.data_new]
      exact hty
    · rw [hm.typeOf_old q (hA q hq), hdata q (.inr hq)]
      exact h.shape q hq

/-- The unit that holds the head of the root chain. -/
theorem cell_ne {L : List Ptr} {t : Ptr → Cells Word} {k : Ptr → Kept} {cell q : Ptr}
    (h : ProgInv m F S b s K A) (hi : HeapInv (progClient s b K (K ++ S)) L t k)
    (hc : cell ∈ (t b).nodes) (hq : q ∈ K ∨ q ∈ A) : q ≠ cell := fun e =>
  h.off_tree hi hq (e ▸ .tail _ hc)

/-- A function is entered. -/
theorem enter (env : Env) (st : CStack) (h : ProgInv m F S b s K A) : ∃ s',
    Cmd.enter.run env st F b K s = .ok (st.address s :: K, none) s' ∧
    ProgInv m F S b s' (st.address s :: K) A ∧ s'.requests = s.requests ∧
    s'.dataOf (st.address s) = [nil, nil] ∧ ∀ q, q ∈ K ∨ q ∈ A → s.SameNode s' q := by
  obtain ⟨hpos, hnew⟩ := st.fresh s
  generalize hp : st.address s = p at hpos hnew ⊢
  obtain ⟨L, t, k, hi, hh⟩ := h.inv
  have h₁ := hi.heap.newLocal (o := frameObj) hpos hnew
  have hb : b ∈ (progClient (s.place p frameObj) b K (p :: (K ++ S))).bases := .head _
  obtain ⟨cell, hc, hu, hmem⟩ := h₁.rootSlot hb
  have hold : ∀ q, s.Live q → q ≠ p := fun q hq e => hnew (e ▸ hq)
  have hpl : (s.place p frameObj).Live p := (live_place hpos).mpr (.inl rfl)
  have hpS : p ∉ K ++ S := fun hm => hnew (hi.heap.chain.local_live hm)
  have hslot := xHeapRootSlot_run (h₁.base b hb).tree.isSet hc
  have hpush := xHeapRootPush_run hu hpl
  have hu' : ((s.place p frameObj).setHeap p (k b).head).unit cell 0 = some (k b).head := by
    rwa [unit_setHeap]
  obtain ⟨t', k', h₂⟩ := h₁.rootPush hb (.head _) (fun b' hb' => by
    rw [List.mem_singleton.mp hb', show Client.roots _ b = K by simp [progClient]]
    exact fun hm => hpS (List.mem_append_left _ hm)) hslot hpush
  have hhook := h₁.hooks_eq (w := p) h₂ hb (.head _) hc fun q _ j =>
    (unit_setUnit hu').trans (by rw [unit_setHeap]; rfl)
  have hcell : cell ≠ p := fun e => hold cell (hi.heap.node_live hb hmem) e
  have hbase : m.Holds ((s.place p frameObj).setHeap p (k b).head) b S := by
    have hne : ∀ q, q = b ∨ q ∈ outstanding s.trace ∨ q ∈ S → q ≠ p := fun q hq =>
      hold q (h.known_live hq)
    have hunit : ∀ q, q ≠ p → ∀ i,
        ((s.place p frameObj).setHeap p (k b).head).unit q i = s.unit q i := fun q hq i => by
      rw [unit_setHeap, Sys.unit, dataOf_place hpos, if_neg hq, Sys.unit]
    refine h.base.still ?_ (fun q hq => hunit q (hne q (hq.imp id fun hq => .inl hq.1)))
      (fun q hq w hw => ⟨w, (hunit q (hne q (.inr (.inr hq))) 0).trans hw⟩) (fun q => ?_)
      fun q hq => ?_
    · rw [typeOf_setHeap, typeOf_place hpos, if_neg (hne b (.inl rfl))]
    · rw [show ((s.place p frameObj).setHeap p (k b).head).trace = s.trace from
        trace_modify.trans trace_place]
    · rw [flagsOf_setHeap, flagsOf_place hpos, if_neg (hne q (.inr (.inl hq)))]
  have hbase' : m.Holds (((s.place p frameObj).setHeap p (k b).head).setUnit cell 0 p) b S := by
    refine hbase.setHead ?_ hu'
    rwa [show ((s.place p frameObj).setHeap p (k b).head).unit = (s.place p frameObj).unit from
      funext fun _ => funext fun _ => unit_setHeap]
  generalize hs : ((s.place p frameObj).setHeap p (k b).head).setUnit cell 0 p = s'
  have htype : ∀ q, s'.typeOf q = if q = p then xTypePairObj else s.typeOf q := fun q => by
    rw [← hs, typeOf_setUnit, typeOf_setHeap, typeOf_place hpos]
    rfl
  have hflags : ∀ q, s'.flagsOf q = if q = p then xObjFlagNone else s.flagsOf q := fun q => by
    rw [← hs, flagsOf_setUnit, flagsOf_setHeap, flagsOf_place hpos]
    rfl
  have hdata : ∀ q, q ≠ cell → s'.dataOf q = if q = p then [nil, nil] else s.dataOf q :=
    fun q hq => by
      rw [← hs, dataOf_setUnit, if_neg hq, dataOf_setHeap, dataOf_place hpos]
      rfl
  have htrace : s'.trace = s.trace := by
    rw [← hs]
    exact trace_modify.trans (trace_modify.trans trace_place)
  have hsame : ∀ q, q ∈ K ∨ q ∈ A → s.SameNode s' q := fun q hq => by
    have hqp := hold q (h.live hq)
    rw [Sys.SameNode, htype, hdata q (h.cell_ne hi.heap hmem hq), if_neg hqp, if_neg hqp]
    exact ⟨rfl, rfl⟩
  refine ⟨s', ?_, ⟨⟨L, t', k', ⟨?_, fun q hq => ?_⟩, ?_⟩, hs ▸ hbase', h.ne, fun q => ?_,
    fun q hq => ?_, fun q hq => ?_, fun q hq => ?_, fun q hq => ?_⟩, ?_, ?_, hsame⟩
  · rw [Cmd.run, Prog.get_bind, hp, ← hs]
    exact (Prog.bind_of_ok (Prog.modify_apply ..)).trans
      ((Prog.bind_of_ok hslot).trans (Prog.bind_of_ok hpush))
  · rw [← hs]
    simpa [progClient] using h₂
  · change s'.flagsOf q &&& F = 0
    rw [hflags, if_neg (hold q (hi.heap.chain.mem_live (.tail _ hq)))]
    exact hi.clean q hq
  · rwa [hhook.1, hhook.2]
  · rw [hflags]
    split
    · rfl
    · exact h.own q
  · rcases List.mem_cons.mp hq with rfl | hq
    · rw [htype, hdata q hcell.symm, if_pos rfl, if_pos rfl]
      exact ⟨rfl, rfl⟩
    · rw [(hsame q (.inl hq)).1, (hsame q (.inl hq)).2]
      exact h.frame q hq
  · rcases List.mem_cons.mp hq with rfl | hq
    · exact fun hm => hpS (List.mem_append_right _ hm)
    · exact h.apart q hq
  · rw [htrace, hflags, if_neg (hold q (h.live (.inr hq)))]
    exact h.chain q hq
  · rw [(hsame q (.inr hq)).1, (hsame q (.inr hq)).2]
    exact h.shape q hq
  · rw [← hs]
    exact requests_modify.trans (requests_modify.trans requests_place)
  · rw [hdata p hcell.symm, if_pos rfl]

/-- The root chain as the program left it. -/
theorem head (h : ProgInv m F S b s K A) : ∃ cell, s.IsSet b ∧
    chase s.unit b Field.heapRootChain.path = some cell ∧
    s.unit cell 0 = some (K.headD nil) ∧
    ∀ p K', K = p :: K' → s.Live p ∧ s.next p = K'.headD nil := by
  obtain ⟨L, t, k, hi, -⟩ := h.inv
  have hb : b ∈ (progClient s b K (K ++ S)).bases := .head _
  obtain ⟨cell, hc, hu, -⟩ := hi.heap.rootSlot hb
  have hbase := hi.heap.base b hb
  have hseg : Seg s.next (k b).head K nil := by simpa [progClient] using hbase.roots
  have hhead : ∀ {q : Ptr} {K' : List Ptr}, Seg s.next q K' nil → q = K'.headD nil := by
    rintro q (_ | ⟨x, K'⟩) hs
    · exact hs
    · exact hs.1
  refine ⟨cell, hbase.tree.isSet, hc, hu.trans (congrArg some (hhead hseg)), ?_⟩
  rintro p K' rfl
  exact ⟨h.live (.inl (.head _)), hhead hseg.2⟩

/-- The `n` newest frames are left. -/
theorem left {cell : Ptr} (n : Nat) (h : ProgInv m F S b s K A)
    (hc : chase s.unit b Field.heapRootChain.path = some cell) :
    ProgInv m F S b (leftSys s cell K n) (K.drop n) A ∧
      (leftSys s cell K n).requests = s.requests ∧
      ∀ q, q ∈ K.drop n ∨ q ∈ A → s.SameNode (leftSys s cell K n) q := by
  obtain ⟨L, t, k, hi, hh⟩ := h.inv
  have hb : b ∈ (progClient s b K (K ++ S)).bases := .head _
  have hr : (progClient s b K (K ++ S)).roots b = K := by simp [progClient]
  obtain ⟨cell', hc', hu, hmem⟩ := hi.heap.rootSlot hb
  obtain rfl : cell = cell' := Option.some.inj (hc.symm.trans hc')
  have hset := setXHeapRootChain_run (w := (K.drop n).headD nil) hc hu
  obtain ⟨t', k', h₁⟩ :=
    hi.heap.rootRestore hb (K := K.drop n) (hr.symm ▸ List.drop_suffix n K) hset
  have hhook := hi.heap.hooks_eq (w := (K.drop n).headD nil) h₁ hb (.head _) hc fun q _ j =>
    unit_setUnit hu
  have hnd : (K.take n ++ K.drop n).Nodup := by
    rw [List.take_append_drop, ← hr]
    exact (hi.heap.base b hb).nodup
  obtain ⟨hn₁, -, hn₂⟩ := List.nodup_append.mp hnd
  have hdK : (K.take n).Disjoint (K.drop n) := fun x hx hx' => hn₂ x hx x hx' rfl
  have hS : ∀ x ∈ K.take n, x ∉ S := fun x hx => h.apart x (List.mem_of_mem_take hx)
  have hhook' : ∀ x ∈ nil :: S, x ∉ K.take n := by
    rintro x hx hm
    rcases List.mem_cons.mp hx with rfl | hx
    · exact not_live_nil (h.live (.inl (List.mem_of_mem_take hm)))
    · exact hS x hm hx
  have h₂ := h₁.dropLocals (D := K.take n) (l := K.drop n ++ S)
    (by change K ++ S = _; rw [← List.append_assoc, List.take_append_drop]) hn₁
    (by rw [List.disjoint_append_right]; exact ⟨hdK, hS⟩)
    (fun q hq => by
      rw [List.mem_singleton.mp hq, show Client.roots _ b = K.drop n by simp]
      exact hdK)
    fun q hq => by
      rw [List.mem_singleton.mp hq, hhook.1, hhook.2]
      exact ⟨hhook' _ hh.1, hhook' _ hh.2⟩
  have hobj : ∀ q, q ∉ K.take n →
      (leftSys s cell K n).obj q = (s.setUnit cell 0 ((K.drop n).headD nil)).obj q :=
    fun q hq => by rw [leftSys, obj_dropAll, if_neg hq]
  have hflags : ∀ q, q ∉ K.take n → (leftSys s cell K n).flagsOf q = s.flagsOf q := fun q hq => by
    rw [flagsOf, hobj q hq]
    exact flagsOf_setUnit
  have htype : ∀ q, q ∉ K.take n → (leftSys s cell K n).typeOf q = s.typeOf q := fun q hq => by
    rw [typeOf, hobj q hq]
    exact typeOf_setUnit
  have htrace : (leftSys s cell K n).trace = s.trace := trace_dropAll.trans trace_modify
  have hchain : ∀ q ∈ b :: L, q ∉ K.take n := fun q hq hm =>
    hi.heap.chain.apart q (List.mem_append_left _ (List.mem_of_mem_take hm)) hq
  have hA : ∀ q ∈ A, q ∉ K.take n := fun q hq =>
    hchain q ((hi.heap.chain.outstanding q).mp (h.chain q hq).1)
  have hknown : ∀ q, q = b ∨ q ∈ outstanding (s.setUnit cell 0 ((K.drop n).headD nil)).trace ∨
      q ∈ S → q ∉ K.take n := by
    rw [show (s.setUnit cell 0 ((K.drop n).headD nil)).trace = s.trace from trace_modify]
    rintro q (rfl | hq | hq)
    · exact hchain q (.head _)
    · exact hchain q ((hi.heap.chain.outstanding q).mp hq)
    · exact fun hm => hS q hm hq
  have hunit : ∀ q, q ∉ K.take n → ∀ i, (leftSys s cell K n).unit q i =
      (s.setUnit cell 0 ((K.drop n).headD nil)).unit q i := fun q hq i => by
    rw [Sys.unit, dataOf, hobj q hq]
    rfl
  have hbase : m.Holds (leftSys s cell K n) b S := by
    refine (h.base.setHead (w := (K.drop n).headD nil) hc hu).still ?_
      (fun q hq => hunit q (hknown q (hq.imp id fun hq => .inl hq.1)))
      (fun q hq w hw => ⟨w, (hunit q (hknown q (.inr (.inr hq))) 0).trans hw⟩) (fun q => ?_)
      fun q hq => ?_
    · rw [htype b (hknown b (.inl rfl)), typeOf_setUnit]
    · rw [htrace, show (s.setUnit cell 0 ((K.drop n).headD nil)).trace = s.trace from trace_modify]
    · rw [hflags q (hknown q (.inr (.inl hq))), flagsOf_setUnit]
  have hsame : ∀ q, q ∈ K.drop n ∨ q ∈ A → s.SameNode (leftSys s cell K n) q := fun q hq => by
    have hq₁ : q ∉ K.take n := hq.elim (fun hq hm => hdK hm hq) (hA q)
    refine ⟨htype q hq₁, ?_⟩
    rw [dataOf, hobj q hq₁]
    refine dataOf_setUnit.trans (if_neg (h.cell_ne hi.heap hmem ?_))
    exact hq.imp List.mem_of_mem_drop id
  refine ⟨⟨⟨L, t', k', ⟨?_, fun q hq => ?_⟩, ?_⟩, hbase, h.ne, fun q => ?_, fun q hq => ?_,
    fun q hq => ?_, fun q hq => ?_, fun q hq => ?_⟩, requests_dropAll.trans requests_modify, hsame⟩
  · simpa [progClient, leftSys] using h₂
  · change (leftSys s cell K n).flagsOf q &&& F = 0
    rw [hflags q (hchain q (.tail _ hq))]
    exact hi.clean q hq
  · rwa [hhook.1, hhook.2]
  · by_cases hq : q ∈ K.take n
    · rw [leftSys, flagsOf, obj_dropAll, if_pos hq]
      rfl
    · rw [hflags q hq, h.own]
  · rw [(hsame q (.inl hq)).1, (hsame q (.inl hq)).2]
    exact h.frame q (List.mem_of_mem_drop hq)
  · exact h.apart q (List.mem_of_mem_drop hq)
  · rw [htrace, hflags q (hA q hq)]
    exact h.chain q hq
  · rw [(hsame q (.inr hq)).1, (hsame q (.inr hq)).2]
    exact h.shape q hq

end ProgInv

/-! ## A collection between two steps -/

/-- A collection makes no request. -/
theorem CleanInv.collect_requests {env : Env} {F : Flags} {c : Client} {L l₁ l₂ : List Ptr}
    {t : Ptr → Cells Word} {k : Ptr → Kept} {s' : Sys} (h : CleanInv F c L t k)
    (hin : env.FreeInert) (hF : F ≠ 0) (hsh : F &&& xObjFlagShared = 0)
    (hown : F &&& xObjFlagOwn = 0) (hl : c.CycleReady env (l₁ ++ l₂))
    (hr : XExpr.collect env c.root F l₁ l₂ c.sys = .ok () s') :
    s'.requests = c.sys.requests := by
  obtain ⟨s₁, hrun₁, hm, -⟩ := h.phase hF hl
  have h₁ : HeapInv { c with sys := s₁ } L t k :=
    h.heap.flags hm.same hm.block hm.trace fun q _ hq => by rwa [hm.flags_and hsh]
  obtain ⟨s₂, fn, hrun₂, hs, -⟩ := h₁.sweepRoot hin hsh (hm.ownReady hsh hown hl.own)
  have hroot : s₁.Live c.root := hm.same.live.mpr (h.heap.base_live h.heap.root_mem)
  unfold XExpr.collect at hr
  rw [Prog.bind_of_ok hrun₁, Prog.bind_of_ok (xObjHeap_eq hroot),
    Prog.bind_of_ok (show xHeapSweep env c.root (s₁.next c.root) F s₁ = _ from hrun₂)] at hr
  cases hr
  exact hs.requests.trans hm.requests

theorem slotOf_eq {p : Ptr} {w : Word} : slotOf w = some p ↔ p ≠ nil ∧ w = p := by
  unfold slotOf
  split
  · next e => simp [e, eq_comm]
  · next e =>
    simp only [Option.some.injEq]
    exact ⟨fun h => ⟨h ▸ e, h⟩, And.right⟩

/-- The mark hooks report nothing for an atom. -/
def Env.AtomsClosed (env : Env) : Prop :=
  ∀ fn s b p, s.typeOf p = xTypeAtomObj → (env.markFn fn).report s b p = ([], nil)

namespace ProgInv

variable {env : Env} {m : Mode} {F : Flags} {S K : List Ptr} {b p q : Ptr} {s s' : Sys}
  {A : Set Ptr} {fn : Word}

/-- A successor of a pair is in a slot of the pair. -/
theorem edge_pair {x : Ptr} (ht : s.typeOf x = xTypePairObj) (hl : (s.dataOf x).length = 2) :
    s.Edge env b fn x q ↔ some q ∈ (s.dataOf x).map slotOf := by
  obtain ⟨y, z, hd⟩ := List.length_eq_two.mp hl
  simp only [Sys.Edge, ht, Sys.unit, hd, List.map_cons, List.map_nil, List.mem_cons,
    List.not_mem_nil, or_false, eq_comm (a := some q), slotOf_eq]
  simp
  tauto

/-- What a program object leads to is in its slots. -/
theorem edge_iff (h : ProgInv m F S b s K A) (hat : env.AtomsClosed) (hp : p ∈ A) :
    s.Edge env b fn p q ↔ (s.view K).Edge p q := by
  rcases h.shape p hp with ⟨ht, hl⟩ | ⟨ht, hl⟩
  · rw [edge_pair ht hl, Mutator.Heap.Edge]
    simp [Sys.view, Sys.node, ht]
  · have hne : xTypeAtomObj ≠ xTypePairObj := by decide
    refine iff_of_false ?_ ?_
    · rintro ⟨hq, ⟨e, -⟩ | ⟨-, -, e⟩⟩
      · exact hne (ht.symm.trans e)
      · rw [hat fn s b p ht] at e
        exact e.elim List.not_mem_nil hq
    · rintro ⟨n, hn, hm⟩
      simp only [Sys.view, Sys.node, ht, hne, if_false, if_true, Option.map_eq_some_iff] at hn
      obtain ⟨w, -, rfl⟩ := hn
      exact List.not_mem_nil hm

/-- What the marker finds from the frames is what the frames lead to. -/
theorem reach_iff (h : ProgInv m F S b s K A) (hat : env.AtomsClosed)
    (hA : ∀ p, (s.view K).Rooted p → p ∈ A) :
    (∃ r ∈ K, ReflTransGen (s.Edge env b fn) r p) ↔ p ∈ K ∨ (s.view K).Rooted p := by
  constructor
  · rintro ⟨r, hr, hp⟩
    induction hp with
    | refl => exact .inl hr
    | @tail x y _ he ih =>
      refine .inr ?_
      rcases ih with hx | hx
      · obtain ⟨ht, hl⟩ := h.frame x hx
        exact ⟨_, List.mem_map_of_mem hx, y, (edge_pair ht hl).mp he, .refl⟩
      · obtain ⟨fr, hfr, r', hr', hpath⟩ := id hx
        exact ⟨fr, hfr, r', hr', hpath.tail ((h.edge_iff hat (hA x hx)).mp he)⟩
  · rintro (hp | ⟨fr, hfr, r, hr, hp⟩)
    · exact ⟨p, hp, .refl⟩
    · obtain ⟨x, hx, rfl⟩ := List.mem_map.mp hfr
      obtain ⟨ht, hl⟩ := h.frame x hx
      refine ⟨x, hx, .head ((edge_pair ht hl).mpr hr) ?_⟩
      induction hp with
      | refl => exact .refl
      | tail hpath he ih =>
        exact ih.tail ((h.edge_iff hat (hA _ ⟨_, hfr, r, hr, hpath⟩)).mpr he)

theorem onChain (h : ProgInv m F S b s K A) (hp : p ∈ A) {l : List Ptr} :
    (progClient s b K l).OnChain p := ⟨(h.chain p hp).1, h.ne_base hp⟩

/-- The objects of the frames can be marked. -/
theorem cycleReady (h : ProgInv m F S b s K A) (hat : env.AtomsClosed)
    (hA : ∀ p, (s.view K).Rooted p → p ∈ A) :
    (progClient s b K (K ++ S)).CycleReady env ([] ++ []) := by
  have hK : ([] ++ []) ++ (progClient s b K (K ++ S)).roots b = K := by simp [progClient]
  have hreach : ∀ p, (progClient s b K (K ++ S)).Reaches env ([] ++ []) p ↔
      p ∈ K ∨ (s.view K).Rooted p := fun p => by
    unfold Client.Reaches
    rw [show (progClient s b K (K ++ S)).root = b from rfl, hK]
    exact h.reach_iff hat hA
  refine ⟨fun r hr => absurd hr List.not_mem_nil, fun r hr => ?_, fun p hp hc _ => ?_,
    .of_flags h.own⟩
  · rw [show (progClient s b K (K ++ S)).root = b from rfl, hK] at hr
    refine walkable_of_closed (R := fun x => ∃ r ∈ K, ReflTransGen (s.Edge env b _) r x)
      ⟨r, hr, .refl⟩ (fun x y ⟨r, hr, hx⟩ he => ⟨r, hr, hx.tail he⟩) fun x hx => ?_
    have hx' := ((h.reach_iff hat hA).mp hx).imp id (hA x)
    refine ⟨h.live hx', fun ht => ?_⟩
    have hl : (s.dataOf x).length = 2 := by
      rcases hx' with hx' | hx'
      · exact (h.frame x hx').2
      · rcases h.shape x hx' with ⟨-, hl⟩ | ⟨e, -⟩
        · exact hl
        · exact absurd (e.symm.trans ht) (by decide)
    obtain ⟨y, z, hd⟩ := List.length_eq_two.mp hl
    exact ⟨y, z, by simp [progClient, Sys.unit, hd], by simp [progClient, Sys.unit, hd]⟩
  · rw [show (progClient s b K (K ++ S)).roots _ = K by simp [progClient]]
    exact ((hreach p).mp hp).resolve_right fun hm => hc (h.onChain (hA p hm))

/-- A collection between two steps returns. The frames and what they lead to stay as they are, and
nothing else of the program is left on the chain. -/
theorem collect (h : ProgInv m F S b s K A) (hin : env.FreeInert) (hat : env.AtomsClosed)
    (hF : F ≠ 0) (hsh : F &&& xObjFlagShared = 0) (hown : F &&& xObjFlagOwn = 0)
    (hA : ∀ p, (s.view K).Rooted p → p ∈ A) : ∃ s',
    XExpr.collect env b F [] [] s = .ok () s' ∧
    ProgInv (m.withCount (Set.ncard {p | (s.view K).Rooted p})) F S b s' K
      {p | (s.view K).Rooted p} ∧ s'.requests = s.requests ∧
    (∀ q, q ∈ K ∨ (s.view K).Rooted q → s.SameNode s' q) ∧
    s'.held b = {p | (s.view K).Rooted p} := by
  obtain ⟨L, t, k, hi, hh⟩ := h.inv
  have hr := h.cycleReady hat hA
  obtain ⟨s', L', hrun, hc, hi'⟩ := hi.collect hin hF hsh hown hr
  have hreq := hi.collect_requests hin hF hsh hown hr hrun
  change s'.requests = s.requests at hreq
  have hK : ([] ++ []) ++ (progClient s b K (K ++ S)).roots b = K := by simp [progClient]
  have hsurv : ∀ p, (progClient s b K (K ++ S)).Survives env ([] ++ []) p ↔
      s.flagsOf p &&& xObjFlagShared ≠ 0 ∨ p ∈ K ∨ (s.view K).Rooted p := fun p => by
    unfold Client.Survives Client.Reaches
    rw [show (progClient s b K (K ++ S)).root = b from rfl, hK]
    exact or_congr Iff.rfl (h.reach_iff hat hA)
  have hoff : ∀ q ∈ K ++ S, ¬ (progClient s b K (K ++ S)).OnChain q := fun q hq hm =>
    hi.heap.chain.apart q hq (.tail _ (hi.heap.onChain.mp hm))
  have hlive : ∀ q, q ∈ K ∨ (s.view K).Rooted q → s'.Live q := fun q hq =>
    (hc.live q).mpr ⟨h.live (hq.imp id (hA q)), fun _ => (hsurv q).mpr (.inr hq)⟩
  have hbl : s'.Live b := (hc.live b).mpr ⟨hi.heap.base_live (.head _), fun hm => absurd rfl hm.2⟩
  obtain ⟨fn, dead, hdn, hdead, -, hunit⟩ := hc.freed
  have hsame : ∀ q, q ∈ K ∨ (s.view K).Rooted q → s.SameNode s' q := fun q hq =>
    ⟨hc.typeOf q (hlive q hq), List.ext_getElem? fun i => (hunit q i (hlive q hq)).trans
      (if_neg fun e => h.ne_count (hq.imp id (hA q)) e.2.1)⟩
  have hflags : ∀ {g : Flags}, F &&& g = 0 → ∀ q, s'.Live q →
      s'.flagsOf q &&& g = s.flagsOf q &&& g := fun hg q hq => by
    have e := hc.flags q hq
    rw [← Flags.clear_and hg, e, Flags.clear_and hg]
    rfl
  have hmem : ∀ q, q ∈ outstanding s'.trace ↔ q ∈ b :: L' := hi'.heap.chain.outstanding
  -- What is left on the chain
  have hkeep : ∀ q, q ∈ outstanding s.trace → s'.Live q → q ∈ outstanding s'.trace := fun q hq hl =>
    (hmem q).mpr (((hi'.heap.chain.live q).mp hl).resolve_right fun hm =>
      hi.heap.chain.apart q hm ((hi.heap.chain.outstanding q).mp hq))
  have hheld : s'.held b = {p | (s.view K).Rooted p} := Set.ext fun p => by
    refine ⟨fun ⟨hp, hpb, hps⟩ => ?_, fun hp => ?_⟩
    · have hl : s'.Live p := hi'.heap.chain.mem_live ((hmem p).mp hp)
      obtain ⟨hpl, hp'⟩ := (hc.live p).mp hl
      have hpc : (progClient s b K (K ++ S)).OnChain p := by
        refine hi.heap.onChain.mpr
          (((hi.heap.chain.live p).mp hpl).elim (fun hm => ?_) fun hm => ?_)
        · exact (List.mem_cons.mp hm).resolve_left hpb
        · exact absurd ((hmem p).mp hp) (hi'.heap.chain.apart p hm)
      rcases (hsurv p).mp (hp' hpc) with hs | hs | hs
      · exact absurd ((hflags hsh p hl).symm.trans hps) hs
      · exact absurd hpc (hoff p (List.mem_append_left _ hs))
      · exact hs
    · have hl := hlive p (.inr hp)
      exact ⟨hkeep p (h.chain p (hA p hp)).1 hl, h.ne_base (hA p hp),
        (hflags hsh p hl).trans (h.chain p (hA p hp)).2⟩
  have hcount : ((s.held b).ncard : Int) + -(dead.length : Int) =
      (Set.ncard {p | (s.view K).Rooted p} : Nat) := by
    have hset : s.held b = {p | (s.view K).Rooted p} ∪ {p | p ∈ dead} := Set.ext fun p => by
      refine ⟨fun ⟨hp, hpb, hps⟩ => ?_, fun hp => hp.elim (fun hp => ?_) fun hp => ?_⟩
      · by_cases hs : (progClient s b K (K ++ S)).Survives env ([] ++ []) p
        · refine .inl ((((hsurv p).mp hs).resolve_left fun hn => hn hps).resolve_left fun hp' => ?_)
          exact hoff p (List.mem_append_left _ hp') ⟨hp, hpb⟩
        · exact .inr ((hdead p).mpr ⟨⟨hp, hpb⟩, hs⟩)
      · exact ⟨(h.chain p (hA p hp)).1, h.ne_base (hA p hp), (h.chain p (hA p hp)).2⟩
      · obtain ⟨hpc, hps⟩ := (hdead p).mp hp
        exact ⟨hpc.1, hpc.2, not_not.mp fun hs => hps ((hsurv p).mpr (.inl hs))⟩
    have hdisj : Disjoint {p | (s.view K).Rooted p} {p | p ∈ dead} :=
      Set.disjoint_left.mpr fun p hp hd => ((hdead p).mp hd).2 ((hsurv p).mpr (.inr (.inr hp)))
    have hfin : Set.Finite {p | (s.view K).Rooted p} := hheld ▸ s'.held_finite b
    rw [hset, Set.ncard_union_eq hdisj hfin dead.finite_toSet, ← List.coe_toFinset,
      Set.ncard_coe_finset, List.toFinset_card_of_nodup hdn]
    omega
  refine ⟨s', hrun, ⟨⟨L', t, k, ?_, hh⟩, ?_, fun hb => h.ne (hA b hb), fun q => ?_, fun q hq => ?_,
    h.apart, fun q hq => ?_, fun q hq => ?_⟩, hreq, hsame, hheld⟩
  · simpa [progClient, hbl] using hi'
  · have hshared : ∀ q, q ∈ outstanding s.trace → s.flagsOf q &&& xObjFlagShared ≠ 0 → s'.Live q :=
      fun q hq hs => (hc.live q).mpr
        ⟨h.known_live (.inr (.inl hq)), fun _ => (hsurv q).mpr (.inl hs)⟩
    refine h.base.step (hc.typeOf b hbl) (fun q hq i => ?_) (fun q hq w hw => ?_)
      (fun q hq hs => ⟨hkeep q hq (hshared q hq hs), ?_⟩) (congrArg Set.ncard hheld) hcount
    · exact hunit q i (hq.elim (fun e => e ▸ hbl) fun hq => hshared q hq.1 hq.2)
    · have hl : s'.Live q := (hc.live q).mpr ⟨h.known_live (.inr (.inr hq)), fun hm =>
        absurd hm (hoff q (List.mem_append_right _ hq))⟩
      rw [hunit q 0 hl]
      split
      · exact ⟨w - dead.length, congrArg (Option.map _) hw⟩
      · exact ⟨w, hw⟩
    · rwa [hflags hsh q (hshared q hq hs)]
  · by_cases hq : s'.Live q
    · rw [hflags hown q hq, h.own]
    · simp [flagsOf_not_live hq]
  · rw [(hsame q (.inl hq)).1, (hsame q (.inl hq)).2]
    exact h.frame q hq
  · have hq' : q ∈ s'.held b := hheld ▸ hq
    exact ⟨hq'.1, hq'.2.2⟩
  · rw [(hsame q (.inr hq)).1, (hsame q (.inr hq)).2]
    exact h.shape q (hA q hq)

end ProgInv

end XExpr
