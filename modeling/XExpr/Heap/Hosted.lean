import XExpr.Heap.Tracked

/-!
# A base and the blocks of all objects

Where the blocks of all objects are, of which those on the chain of a base are given back on it.

* `Hosted`: a base with its tree and its chain, and the blocks of all objects. `BlocksInv`: the base
  is full, and what lies in another way than the base says was there before.
* `BlocksInv.free_matches`, `BlocksInv.sweepWith`, `BlocksInv.teardown_matches`: a free, a sweep and
  a teardown give blocks back where they were obtained, if what they free lies as `x_obj_free`
  reads.
* `BlocksInv.free_wrong`, `BlocksInv.sweep_wrong`, `BlocksInv.teardown_wrong`: if it does not, they
  do not.
-/

namespace XExpr

open Sys Chain Relation

/-- A sweep of the chain behind `b` comes to an object that does not lie as the base says. -/
def Sys.SweepsWrong (s : Sys) (b : Ptr) (F : Flags) : Prop :=
  ∃ q, s.Behind b q ∧ s.Doomed F q ∧ ¬ s.Offset (s.extraOf b) q

/-- A teardown of `b` does. After it has freed the base there is no number of extra units to read,
and no object that it frees may have any in front of it. -/
def Sys.TearsWrong (s : Sys) (b : Ptr) : Prop :=
  if s.flagsOf b &&& xObjFlagShared = 0 then
    ¬ s.Offset (s.extraOf b) b ∨ ∃ q, s.Behind b q ∧ s.Doomed 0 q ∧ ¬ s.Offset 0 q
  else s.SweepsWrong b 0

/-- The base `b` with the tree `t` and its chain, and the blocks of all objects. -/
structure Hosted (s : Sys) (b : Ptr) (t : Cells Word) (k : Kept) (locals : List Ptr) : Prop where
  tree : BaseTree s b t k.cell
  shared : ∀ q ∈ t.nodes, s.flagsOf q &&& xObjFlagShared ≠ 0
  apart : ∀ q ∈ b :: t.nodes, q ∉ locals
  behind : ∀ q, s.Behind b q → q ∉ b :: locals
  tracked : s.Tracked locals
  matched : BlocksMatch s.trace

/-- The same of a full base. Only the objects `odd` lie in another way than it says. -/
structure BlocksInv (s : Sys) (b : Ptr) (t : Cells Word) (k : Kept) (locals : List Ptr)
    (odd : Ptr → Prop) : Prop extends Hosted s b t k locals where
  typed : s.typeOf b ≠ nil
  sized : ∀ q ∈ outstanding s.trace, s.Offset (toSizeT k.extra) q ∨ odd q

section Blocks

variable {env : Env} {store : Ptr → Ptr → M Unit} {s s' : Sys} {b p q a ty : Ptr} {t : Cells Word}
  {k : Kept} {n : Nat} {locals l : List Ptr} {F fl : Flags} {data : List Word} {fn w : Word}
  {odd : Ptr → Prop}

theorem next_of_not_live (h : ¬ s.Live p) : s.next p = nil := by
  rw [Sys.next, not_live_iff.mp h]
  rfl

/-- What leads on to an object is an object. -/
theorem Sys.Behind.live (h : s.Behind p q) (hq : q ≠ nil) : s.Live p := by
  by_contra hp
  have hnil : ∀ {x}, s.Behind p x → x = nil := fun hx => by
    induction hx with
    | single e => rw [← e, next_of_not_live hp]
    | tail _ e ih => rw [← e, ih, next_nil]
  exact hq (hnil h)

namespace Hosted

theorem base_live (h : Hosted s b t k locals) : s.Live b := h.tree.live

theorem node_mem (h : Hosted s b t k locals) (hq : q ∈ b :: t.nodes) : q ∈ outstanding s.trace :=
  h.tracked.mem_of_live (h.tree.mem_live hq) (h.apart q hq)

/-- A step that leaves the objects and their links alone. -/
theorem still (h : Hosted s b t k locals) (htree : BaseTree s' b t k.cell)
    (hshared : ∀ q ∈ t.nodes, s'.flagsOf q &&& xObjFlagShared ≠ 0)
    (hnext : ∀ q, s'.next q = s.next q) (htracked : s'.Tracked locals)
    (htrace : s'.trace = s.trace) : Hosted s' b t k locals :=
  ⟨htree, hshared, h.apart, fun q hq => h.behind q (hq.congr hnext), htracked, by
    rw [htrace]
    exact h.matched⟩

/-- A new object on the base is the first of its chain. -/
theorem behind_made (h : Hosted s b t k locals) (hm : Made s b ty fl data p a s')
    (hq : s'.Behind b q) : q = p ∨ s.Behind b q := by
  have hp : s'.next p = s.next b := hm.next_new
  induction hq with
  | single e =>
    rw [← e, hm.next_old b h.base_live, if_pos rfl]
    exact .inl rfl
  | @tail y q _ e ih =>
    refine .inr ?_
    rcases ih with rfl | hy
    · exact .single (hp.symm.trans e)
    have hyb : y ≠ b := fun hyb => h.behind y hy (hyb ▸ .head _)
    by_cases hyl : s.Live y
    · rw [hm.next_old y hyl, if_neg hyb] at e
      exact hy.tail e
    by_cases hyp : y = p
    · rw [hyp, hp] at e
      exact .single e
    · rw [next_of_not_live fun hl => ((hm.live y).mp hl).elim hyp hyl] at e
      exact hy.tail ((next_of_not_live hyl).trans e)

theorem made (h : Hosted s b t k locals) (hm : Made s b ty fl data p a s') :
    Hosted s' b t k locals := by
  have hold : ∀ q ∈ b :: t.nodes, q ≠ p := fun q hq e => hm.new (e ▸ h.tree.mem_live hq)
  refine ⟨h.tree.bump rfl fun q hq i => hm.unit_old q i (hold q hq), fun q hq => ?_, h.apart,
    fun q hq => ?_, h.tracked.made hm, ?_⟩
  · rw [hm.flagsOf_old q (hold q (.tail _ hq))]
    exact h.shared q hq
  · rcases h.behind_made hm hq with rfl | hq
    · intro hm'
      rcases List.mem_cons.mp hm' with e | hl
      · exact hold b (.head _) e.symm
      · exact hm.new ((h.tracked.live q).mpr (.inr hl))
    · exact h.behind q hq
  · rw [hm.trace]
    exact h.matched

/-- The chain to an object behind the base. -/
theorem path (h : Hosted s b t k locals) (hq : s.Behind b q) (hl : s.Live q) :
    ∃ l, Seg s.next (s.next b) l q ∧ (b :: q :: l).Nodup ∧ (∀ x ∈ q :: l, x ∈ outstanding s.trace) ∧
      (b :: q :: l).length < passes s := by
  obtain ⟨_, rfl, hbq⟩ := TransGen.head'_iff.mp hq
  obtain ⟨l, hseg, hn, hql⟩ := exists_seg hbq
  have hon : ∀ x ∈ q :: l, s.Live x ∧ x ∉ b :: locals := fun x hx => by
    rcases List.mem_cons.mp hx with rfl | hx
    · exact ⟨hl, h.behind x hq⟩
    obtain ⟨l₁, l₂, -, h₁, h₂⟩ := hseg.split hx
    have hxq : s.Behind x q := TransGen.head' rfl h₂.reaches
    exact ⟨hxq.live hl.ne_nil, h.behind x (TransGen.head' rfl h₁.reaches)⟩
  have hnodup : (b :: q :: l).Nodup :=
    List.nodup_cons.mpr ⟨fun hm => (hon b hm).2 (.head _), List.nodup_cons.mpr ⟨hql, hn⟩⟩
  refine ⟨l, hseg, hnodup, fun x hx => ?_, length_lt_passes hnodup fun x hx => ?_⟩
  · exact h.tracked.mem_of_live (hon x hx).1 (List.not_mem_of_not_mem_cons (hon x hx).2)
  · exact (List.mem_cons.mp hx).elim (fun e => e ▸ h.base_live) fun hx => (hon x hx).1

end Hosted

namespace BlocksInv

theorem full (h : BlocksInv s b t k locals odd) : s.Full b := ⟨h.typed, h.tree.isSet⟩

theorem extraOf (h : BlocksInv s b t k locals odd) : s.extraOf b = toSizeT k.extra := by
  rw [Sys.extraOf, if_pos h.full, h.tree.fieldInt (f := .objMetaExtra) rfl]
  rfl

theorem accounted (h : BlocksInv s b t k locals odd) : Accounted s b t k.cell :=
  ⟨.inr h.full, fun _ => h.tree, fun _ => ⟨k.extra, rfl, rfl⟩, fun _ => h.shared⟩

theorem walks (h : BlocksInv s b t k locals odd) (ho : OwnApart s s.collectable) :
    Walks s b t k.cell locals := ⟨h.accounted, h.tracked, ho⟩

/-- A step that makes no object. -/
theorem remains (h : BlocksInv s b t k locals odd) (hr : s.Remains s')
    (hs : Hosted s' b t k locals) (ht : s'.typeOf b ≠ nil) : BlocksInv s' b t k locals odd :=
  ⟨hs, ht, fun q hq => (h.sized q (hr q hq).1).imp_left ((hr q hq).2 _)⟩

/-- A new object on the base. -/
theorem made (h : BlocksInv s b t k locals odd) (hm : Made s b ty fl data p a s') :
    BlocksInv s' b t k locals odd := by
  refine ⟨h.toHosted.made hm, ?_, fun q hq => ?_⟩
  · rw [hm.typeOf_old b fun e => hm.new (e ▸ h.base_live)]
    exact h.typed
  · rw [hm.trace, outstanding, List.mem_cons] at hq
    by_cases hqp : q = p
    · exact .inl fun _ => by rw [hqp, hm.extrasOf_new, h.extraOf]
    · exact (h.sized q (hq.resolve_left hqp)).imp_left
        (Sys.Offset.congr · (hm.flagsOf_old q hqp) (hm.extrasOf_old q hqp))

theorem behind_shortened (h : BlocksInv s b t k locals odd) (hs : s.Shortened s') :
    ∀ q, s'.Behind b q → q ∉ b :: locals := fun q hq => by
  by_cases hn : q = nil
  · intro hm
    rcases List.mem_cons.mp (hn ▸ hm) with e | hl
    · exact h.base_live.ne_nil e.symm
    · exact ((h.tracked.live nil).mpr (.inr hl)).ne_nil rfl
  · exact h.behind q (hs b q hn hq)

/-- A walk on the base leaves it in order. -/
theorem walked (h : BlocksInv s b t k locals odd) (hw : Walked s b t k.cell locals s') :
    BlocksInv s' b t k locals odd := by
  have hf := hw.full.mpr h.full
  exact h.remains hw.remains ⟨hw.walks.base.tree hf, hw.walks.base.shared hf, h.apart,
    h.behind_shortened hw.shortened, hw.walks.tracked, hw.matched h.matched⟩ hf.1

/-! ### Frees -/

/-- Whatever it is that an object owns, `x_obj_free` steps back over the units that the base
says. -/
theorem free_matches (h : BlocksInv s b t k locals odd) (hp : p ∈ outstanding s.trace)
    (hx : s.Offset (s.extraOf b) p) : BlocksMatch (Prog.stateOf (xObjFree b p s)).trace := by
  let I : Sys → Prop := fun s' => s'.trace = s.trace ∧ ∀ q, s'.Live q → s'.flagsOf q = s.flagsOf q
  have hI : Framed I := by
    refine ⟨fun s₁ q i w ⟨htr, hf⟩ => ⟨trace_modify.trans htr, fun x hx => ?_⟩,
      fun s₁ a q ⟨htr, hf⟩ _ => ⟨htr, fun x hx => ?_⟩⟩
    · rw [flagsOf_setUnit]
      exact hf x (live_setUnit.mp hx)
    · obtain ⟨hxq, hx⟩ := live_drop.mp (live_dropBlock.mp hx)
      rw [← hf x hx, Sys.flagsOf, obj_dropBlock, obj_drop, if_neg hxq]
      rfl
  have hm : ∀ s' : Sys, I s' → BlocksMatch s'.trace := fun s' hi => by
    rw [hi.1]
    exact h.matched
  have hbump : Prog.Keeps I (if decide (s.Full b) = true then bumpCount b (-1) else return) :=
    .ite hI.bumpCount (.pure _)
  have hready := h.accounted.freeReady
  unfold xObjFree
  rw [Prog.bind_of_ok hready.readable, Prog.bind_of_ok (freeExtra_run hready)]
  refine hbump.andThen (J := fun s => BlocksMatch s.trace) ⟨rfl, fun _ _ => rfl⟩ hm
    fun _ s₁ hi => hI.freeOwned.andThen (J := fun s => BlocksMatch s.trace) hi hm fun _ s₂ hi => ?_
  by_cases hl : s₂.Live p
  swap
  · have hstop : xObjFlags p s₂ = .error _ s₂ := Prog.bind_of_error (deref_not_live hl)
    rw [Prog.bind_of_error hstop]
    exact hm s₂ hi
  -- The flags are what they were, and so the address is the one of the block.
  have hlog : XExpr.log (.objFree p (s.freeAddr (s.extraOf b) p)) s₂ =
    .ok ⟨⟩ (s₂.log (.objFree p (s.freeAddr (s.extraOf b) p))) := rfl
  rw [Prog.bind_of_ok (xObjFlags_eq hl), hi.2 p hl]
  change BlocksMatch (Prog.stateOf ((do
    XExpr.log (.objFree p (s.freeAddr (s.extraOf b) p))
    xSysFree (s.freeAddr (s.extraOf b) p) : M Unit) s₂)).trace
  rw [Prog.bind_of_ok hlog]
  have hframed : Framed fun s' : Sys => BlocksMatch s'.trace :=
    ⟨fun s₁ _ _ _ hi => by rwa [show (s₁.setUnit _ _ _).trace = s₁.trace from trace_modify],
      fun _ _ _ hi _ => hi⟩
  refine hframed.xSysFree _ ⟨?_, hm s₂ hi⟩
  rw [hi.1, h.tracked.known p hp, (h.tracked.freeAddr_eq_iff hp).mpr hx]

/-- If it is not where that leads to, the address is wrong. -/
theorem free_wrong (h : BlocksInv s b t k locals odd) (hp : p ∈ outstanding s.trace)
    (hpt : p ∉ t.nodes) (hown : s.flagsOf p &&& xObjFlagOwn ≠ 0 →
      ∃ w, s.unit p 0 = some w ∧ (w = nil ∨ s.block w = some nil))
    (hx : ¬ s.Offset (s.extraOf b) p) : ¬ BlocksMatch (Prog.stateOf (xObjFree b p s)).trace := by
  obtain ⟨s', hs, hrun⟩ := xObjFree_dying h.accounted.freeReady (h.tracked.mem_live hp) hown
    fun hf hc => hpt (h.accounted.count_mem hf hc)
  rw [hrun]
  exact logged_mismatch.framed.xSysFree _ (h.tracked.mismatch hp hs.trace hx)

/-- What is left when an object that is no part of the base was given back. -/
theorem freed (h : BlocksInv s b t k locals odd) (hp : p ∈ outstanding s.trace)
    (hpt : p ∉ b :: t.nodes) (hown : s.flagsOf p &&& xObjFlagOwn ≠ 0 →
      ∃ w, s.unit p 0 = some w ∧ (w = nil ∨ s.block w = some nil))
    (hs : Freed s b p (s.blockAddr p) s') : BlocksInv s' b t k locals odd := by
  have hold : ∀ q ∈ b :: t.nodes, q ≠ p := fun q hq e => hpt (e ▸ hq)
  refine h.remains (fun q hq => ?_) ⟨?_, fun q hq => ?_, h.apart, fun q hq => ?_,
    h.tracked.freed hp hown hs, ?_⟩ ?_
  · obtain ⟨hqp, hq⟩ := (outstanding_freed hs q).mp hq
    exact ⟨hq, fun e hx => hx.congr (hs.flagsOf q hqp) (hs.extrasOf q hqp)⟩
  · exact h.tree.bump (d := -1) rfl fun q hq i => hs.unit q i (hold q hq)
  · rw [hs.flagsOf q (hold q (.tail _ hq))]
    exact h.shared q hq
  · -- The chain stays, or ends where the object was.
    have hshort : s.Shortened s' := .of_skip fun y => by
      by_cases hy : y = p
      · exact .inl (hy ▸ hs.next_gone)
      · exact .inr (.inl (hs.next y hy))
    exact h.behind_shortened hshort q hq
  · rw [hs.trace]
    exact ⟨h.tracked.known p hp, h.matched⟩
  · rw [hs.typeOf b (hold b (.head _))]
    exact h.typed

/-! ### Sweeps -/

theorem walkAt (h : BlocksInv s b t k locals odd) (ho : OwnApart s s.collectable)
    (hno : ¬ s.SweepsWrong b F) : WalkAt s b t k.cell locals F b (s.next b) where
  walks := h.walks ho
  link _ := rfl
  off q hq _ := h.behind q (.head hq)
  offset q hq hd := by_contra fun hx => hno ⟨q, .head hq, hd, hx⟩

/-- A walk along the chain that comes to no object which lies otherwise. -/
theorem walk (h : BlocksInv s b t k locals odd) (hin : env.FreeInert) (hst : Links store)
    (hF : F &&& xObjFlagShared = 0) (hM : F &&& xObjFlagMeta = 0) (ho : OwnApart s s.collectable)
    (hno : ¬ s.SweepsWrong b F) : BlocksInv
      (Prog.stateOf (walkLoop env store F fn n b b (s.next b) s)) b t k locals odd :=
  h.walked ((h.walkAt ho hno).run hin hst hF hM)

theorem sweepWith (h : BlocksInv s b t k locals odd) (hin : env.FreeInert) (hst : Links store)
    (hF : F &&& xObjFlagShared = 0) (hM : F &&& xObjFlagMeta = 0) (ho : OwnApart s s.collectable)
    (hno : ¬ s.SweepsWrong b F) : BlocksInv
      (Prog.stateOf (XExpr.sweepWith env store b (s.next b) F s)) b t k locals odd := by
  rcases sweepWith_cases env store F h.base_live (s.next b) with ⟨fn, hrun⟩ | hrun <;> rw [hrun]
  · rw [if_pos rfl]
    exact h.walk hin hst hF hM ho hno
  · exact h

/-- A walk that comes to one. -/
theorem walk_wrong (h : BlocksInv s b t k locals odd) (hin : env.FreeInert) (hst : Links store)
    (hF : F &&& xObjFlagShared = 0) (hM : F &&& xObjFlagMeta = 0) (ho : OwnApart s s.collectable)
    (hn : passes s ≤ n + 1) (hq : s.Behind b q) (hl : s.Live q) (hk : s.kept F q = false)
    (hx : ¬ s.Offset (s.extraOf b) q) :
    ¬ BlocksMatch (Prog.stateOf (walkLoop env store F fn n b b (s.next b) s)).trace := by
  obtain ⟨l, hseg, hnodup, hmem, hlen⟩ := h.path hq hl
  obtain ⟨hb, hnodup⟩ := List.nodup_cons.mp hnodup
  refine (h.walks ho).wrong hin hst hF hM (.inl h.base_live) hk hx hseg hnodup
    (fun x hx => ⟨hmem x hx, fun e => hb (e ▸ hx)⟩) hb ?_
  simp only [List.length_cons] at hlen
  omega

theorem sweep_wrong (h : BlocksInv s b t k locals odd) (hin : env.FreeInert) (hst : Links store)
    (hF : F &&& xObjFlagShared = 0) (hM : F &&& xObjFlagMeta = 0) (ho : OwnApart s s.collectable)
    (hfn : s.hookWord .heapFree b = some fn) (hq : s.Behind b q) (hl : s.Live q)
    (hk : s.kept F q = false) (hx : ¬ s.Offset (s.extraOf b) q) :
    ¬ BlocksMatch (Prog.stateOf (XExpr.sweepWith env store b (s.next b) F s)).trace := by
  rw [sweepWith_eq hfn h.base_live, if_pos rfl, Prog.stateOf_bind fun _ _ => rfl]
  exact h.walk_wrong hin hst hF hM ho (Nat.le_succ _) hq hl hk hx

/-! ### Teardowns -/

/-- A base that is shared stays, and the rest is a sweep. -/
theorem walkLoop_shared (h : BlocksInv s b t k locals odd)
    (hs : s.flagsOf b &&& xObjFlagShared ≠ 0) : walkLoop env store 0 fn (n + 1) b b b s =
      walkLoop env store 0 fn n b b (s.next b) s := by
  rw [walkLoop_keep h.base_live (kept_zero.mpr hs),
    show ~~~(0 : Flags) = BitVec.allOnes 32 from rfl, BitVec.and_allOnes, setFlags_self]

/-- A base that is not is freed first, and the walk goes on without. -/
theorem free_base (fn : Word) (h : BlocksInv s b t k locals odd) (hin : env.FreeInert)
    (hst : Links store) (ho : OwnApart s s.collectable) (hs : s.flagsOf b &&& xObjFlagShared = 0)
    (hx : s.Offset (s.extraOf b) b) : ∃ s',
    walkLoop env store 0 fn (n + 1) b b b s = walkLoop env store 0 fn n nil b (s.next b) s' ∧
    Freed (s.unlinked fn b b) b b (s.blockAddr b) s' ∧ Walks s' nil t k.cell locals ∧
    BlocksMatch s'.trace := by
  have hstore : store b (s.next b) (s.hooked fn b) = .ok () (s.unlinked fn b b) :=
    (hst _ _ _).resolve_right fun hno => hno.1 (live_hooked.mpr h.base_live)
  obtain ⟨s', hrun, hfreed, htracked, hown, hmatch⟩ := (h.walks ho).dies (n := n) hin
    (h.node_mem (.head _)) (not_kept_zero.mpr hs) hstore hx
  rw [if_pos rfl] at hrun
  have hno : ¬ s'.Full nil := not_full_nil
  exact ⟨s', hrun, hfreed, ⟨⟨.inl (.inl rfl), fun hf => absurd hf hno, fun hf => absurd hf hno,
    fun hf => absurd hf hno⟩, htracked, hown⟩, hmatch h.matched⟩

theorem teardown_shared (h : BlocksInv s b t k locals odd) (hin : env.FreeInert)
    (hst : Links store) (ho : OwnApart s s.collectable) (hs : s.flagsOf b &&& xObjFlagShared ≠ 0)
    (hno : ¬ s.TearsWrong b) :
    BlocksInv (Prog.stateOf (XExpr.sweepWith env store b b 0 s)) b t k locals odd := by
  rw [TearsWrong, if_neg hs] at hno
  rcases sweepWith_cases env store 0 h.base_live b with ⟨fn, hrun⟩ | hrun <;> rw [hrun]
  · rw [ite_self, passes, h.walkLoop_shared hs]
    exact h.walk hin hst BitVec.zero_and BitVec.zero_and ho hno
  · exact h

theorem teardown_matches (h : BlocksInv s b t k locals odd) (hin : env.FreeInert)
    (hst : Links store) (ho : OwnApart s s.collectable) (hno : ¬ s.TearsWrong b) :
    BlocksMatch (Prog.stateOf (XExpr.sweepWith env store b b 0 s)).trace := by
  by_cases hs : s.flagsOf b &&& xObjFlagShared = 0
  swap
  · exact (h.teardown_shared hin hst ho hs hno).matched
  rw [TearsWrong, if_pos hs, not_or, not_not] at hno
  obtain ⟨hx, hno⟩ := hno
  rcases sweepWith_cases env store 0 h.base_live b with ⟨fn, hrun⟩ | hrun <;> rw [hrun]
  swap
  · exact h.matched
  obtain ⟨s', hloop, hfreed, hw, hmatch⟩ :=
    h.free_base (n := s.objs.keys.card) fn hin hst ho hs hx
  have hshort := hfreed.shortened fun _ hne => absurd rfl hne
  have hbehind : ∀ {q}, q = s.next b ∨ s'.Behind (s.next b) q → s'.Live q → s.Behind b q :=
    fun hq hl => .head (hq.imp_right (hshort _ _ hl.ne_nil))
  rw [ite_self, passes, hloop]
  refine (WalkAt.run hin hst BitVec.zero_and BitVec.zero_and
    ⟨hw, fun hl => absurd rfl (hfreed.live_unlinked.mp hl).1, fun q hq hl => ?_,
      fun q hq hd => ?_⟩).matched hmatch
  · exact List.not_mem_cons_of_ne_of_not_mem hl.ne_nil
      (List.not_mem_of_not_mem_cons (h.behind q (hbehind hq hl)))
  · obtain ⟨hl, hsh, hk⟩ := hd
    obtain ⟨hne, hl'⟩ := hfreed.live_unlinked.mp hl
    rw [hfreed.flags_unlinked hne] at hsh
    rw [kept_congr (hfreed.flags_unlinked hne)] at hk
    have hd : s.Doomed 0 q := ⟨hl', hsh, hk.imp_right (hshort _ _ hl.ne_nil)⟩
    rw [extraOf_of_not_full not_full_nil]
    exact (not_not.mp fun hx => hno ⟨q, hbehind hq hl, hd, hx⟩).congr (hfreed.flags_unlinked hne)
      (hfreed.extras_unlinked hne)

/-- A walk that gets past the freed base to an object behind extra units. It does if an assignment
through the base is lost, and if the first object is shared. -/
theorem past_base (h : BlocksInv s b t k locals odd) (hin : env.FreeInert) (hst : Links store)
    (ho : OwnApart s s.collectable) (hs : s.flagsOf b &&& xObjFlagShared = 0)
    (hx : s.Offset (s.extraOf b) b) (hq : s.Behind b q) (hl : s.Live q)
    (hsh : s.flagsOf q &&& xObjFlagShared = 0) (hxq : ¬ s.Offset 0 q)
    (hgo : (∀ s p w, store p w s = .ok () (s.setHeap p w)) ∨
      s.flagsOf (s.next b) &&& xObjFlagShared ≠ 0) :
    ¬ BlocksMatch (Prog.stateOf (walkLoop env store 0 fn (passes s) b b b s)).trace := by
  obtain ⟨s', hloop, hfreed, hw, -⟩ := h.free_base (n := s.objs.keys.card) fn hin hst ho hs hx
  obtain ⟨l, hseg, hnodup, hmem, hlen⟩ := h.path hq hl
  obtain ⟨hb, hnodup⟩ := List.nodup_cons.mp hnodup
  have hne : ∀ x ∈ q :: l, x ≠ b := fun x hx e => hb (e ▸ hx)
  have hflags : ∀ x ∈ q :: l, s'.flagsOf x = s.flagsOf x := fun x hx =>
    hfreed.flags_unlinked (hne x hx)
  have hk : s'.kept 0 q = false :=
    (kept_congr (hflags q (.head _))).trans (not_kept_zero.mpr hsh)
  have hxq' : ¬ s'.Offset (s'.extraOf nil) q := fun hx' => hxq (by
    rw [extraOf_of_not_full not_full_nil] at hx'
    exact hx'.congr (hflags q (.head _)).symm (hfreed.extras_unlinked (hne q (.head _))).symm)
  have hnext : ∀ x ∈ l, s'.next x = s.next x := fun x hx =>
    (hfreed.next_unlinked (hne x (.tail _ hx))).resolve_right fun e => hne x (.tail _ hx) e.1
  have hmem' : ∀ x ∈ q :: l, x ∈ outstanding s'.trace ∧ x ≠ nil := fun x hx => by
    rw [outstanding_freed hfreed, outstanding_unlinked]
    exact ⟨⟨hne x hx, hmem x hx⟩, (h.tracked.mem_live (hmem x hx)).ne_nil⟩
  simp only [List.length_cons, passes] at hlen
  rw [passes, hloop]
  rcases hgo with hgo | hfirst
  · exact hw.wrong hin hst BitVec.zero_and BitVec.zero_and (.inr hgo) hk hxq' (hseg.congr hnext)
      hnodup hmem' hb (by omega)
  rcases l with _ | ⟨x, l⟩
  · exact absurd (show s.next b = q from hseg) fun e => hfirst (e ▸ hsh)
  -- The first object is kept, and is the predecessor now.
  obtain ⟨rfl, hseg⟩ := hseg
  have hin' : s.next b ∈ q :: s.next b :: l := .tail _ (.head _)
  have hl' := hw.tracked.mem_live (hmem' _ hin').1
  obtain ⟨hn, hnodup⟩ := List.nodup_cons.mp ((List.Perm.swap ..).nodup_iff.mp hnodup)
  obtain ⟨n, hcard⟩ : ∃ n, s.objs.keys.card = n + 1 := ⟨s.objs.keys.card - 1, by omega⟩
  rw [hcard, walkLoop_keep hl' (kept_zero.mpr (by rwa [hflags _ hin'])),
    show ~~~(0 : Flags) = BitVec.allOnes 32 from rfl, BitVec.and_allOnes, setFlags_self]
  refine hw.wrong hin hst BitVec.zero_and BitVec.zero_and (.inl hl') hk hxq' ?_ hnodup
    (fun y hy => hmem' y ?_) hn ?_
  · rw [hnext _ (.head _)]
    exact hseg.congr fun y hy => hnext y (.tail _ hy)
  · exact (List.mem_cons.mp hy).elim (fun e => e ▸ .head _) fun hy => .tail _ (.tail _ hy)
  · simp only [List.length_cons] at hlen
    omega

/-- A teardown that comes to an object which lies otherwise. -/
theorem teardown_wrong (h : BlocksInv s b t k locals odd) (hin : env.FreeInert) (hst : Links store)
    (ho : OwnApart s s.collectable) (hfn : s.hookWord .heapFree b = some fn)
    (hno : s.TearsWrong b) (hgo : (∀ s p w, store p w s = .ok () (s.setHeap p w)) ∨
      s.flagsOf (s.next b) &&& xObjFlagShared ≠ 0) :
    ¬ BlocksMatch (Prog.stateOf (XExpr.sweepWith env store b b 0 s)).trace := by
  rw [sweepWith_eq hfn h.base_live, ite_self, Prog.stateOf_bind fun _ _ => rfl]
  by_cases hs : s.flagsOf b &&& xObjFlagShared = 0
  · rw [TearsWrong, if_pos hs] at hno
    by_cases hx : s.Offset (s.extraOf b) b
    · obtain ⟨q, hq, ⟨hl, hsh, -⟩, hxq⟩ := hno.resolve_left (not_not.mpr hx)
      exact h.past_base hin hst ho hs hx hq hl hsh hxq hgo
    · exact (h.walks ho).pass_wrong hin (h.node_mem (.head _)) (not_kept_zero.mpr hs)
        ((hst _ _ _).resolve_right fun hno => hno.1 (live_hooked.mpr h.base_live)) hx hst
  · rw [TearsWrong, if_neg hs] at hno
    obtain ⟨q, hq, ⟨hl, hsh, -⟩, hx⟩ := hno
    rw [passes, h.walkLoop_shared hs]
    exact h.walk_wrong hin hst BitVec.zero_and BitVec.zero_and ho le_rfl hq hl
      (not_kept_zero.mpr hsh) hx

end BlocksInv

end Blocks

end XExpr
