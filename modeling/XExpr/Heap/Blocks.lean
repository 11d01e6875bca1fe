import XExpr.Heap.Hosted
import XExpr.Heap.Limit

/-!
# Where blocks are given back

On a full base, over all runs of allocation, frees and sweeps.

* `MadeOn`, `ExtraSetup`: a new base, on whatever other base, that gets its type and its number of
  extra units. `MadeOn.hosted`, `Hosted.setup`: it stands in good order.
* `BlockStep`: what a program does with it then. `BlocksInv.step`: what one step keeps.
* `blocks_match_iff`: all of it over runs.
-/

namespace XExpr

open Sys Chain Relation

/-- `x_base_make` has made the base `b` on `parent`, of the objects `own`. Before that, all blocks
had been given back where they were obtained, and the chain of the parent passed objects, and did
not come back to it. -/
structure MadeOn (env : Env) (parent b : Ptr) (own locals : List Ptr) (s : Sys) : Prop where
  before : ∃ s₀ cfg, s₀.Tracked locals ∧ BlocksMatch s₀.trace ∧
    (∀ q, s₀.Behind parent q → q ≠ nil → s₀.Live q ∧ q ∉ parent :: locals) ∧
    env.malloc.GrantsFrom s₀.requests 56 ∧ xBaseMake env parent cfg s₀ = .ok b s ∧
    ∀ q, s.Live q → ¬ s₀.Live q → q ∈ own

/-- What is done to a base before anything is allocated on it: it gets its type, and its number of
extra units. -/
inductive ExtraSetup (b : Ptr) : Sys → Sys → Prop
  | setType {s s' : Sys} {ty : Ptr} (h : setXObjType b ty s = .ok () s') : ExtraSetup b s s'
  | setExtra {s s' : Sys} {x : Word} (h : Field.objMetaExtra.setInt b x s = .ok () s') :
      ExtraSetup b s s'

/-- What a program does with the base, which is made of the objects `own`. -/
inductive BlockStep (env : Env) (b : Ptr) (own : List Ptr) : Sys → Sys → Prop
  | alloc {s s' : Sys} {ty p : Ptr} {fl : Flags} {units : Nat}
      (h : xObjAlloc env b ty fl units s = .ok p s') : BlockStep env b own s s'
  | make {s s' : Sys} {ty p : Ptr} {fl : Flags} {data : List Word}
      (h : xObjMake env b ty fl data s = .ok p s') : BlockStep env b own s s'
  | mark {s s' : Sys} (h : s.Remarked s') : BlockStep env b own s s'
  /-- A block that is no object. -/
  | malloc {s s' : Sys} {a : Ptr} {size : Nat} (h : xSysMalloc env size s = .ok a s') :
      BlockStep env b own s s'
  | write {s s' : Sys} {p : Ptr} {i : Nat} {w : Word} (hg : (p, i) ∉ s.guarded b)
      (h : setXObjDataI p i w s = .ok () s') : BlockStep env b own s s'
  | free {s s' : Sys} {p : Ptr} (hm : p ∈ outstanding s.trace) (hp : p ∉ own)
      (ho : s.flagsOf p &&& xObjFlagOwn ≠ 0 →
        ∃ w, s.unit p 0 = some w ∧ (w = nil ∨ s.block w = some nil))
      (hx : s.Offset (s.extraOf b) p) (h : xObjFree b p s = .ok () s') : BlockStep env b own s s'
  | sweep {s s' : Sys} {r : Ptr} {F : Flags} (hF : F &&& xObjFlagShared = 0)
      (hM : F &&& xObjFlagMeta = 0) (ho : OwnApart s s.collectable) (hx : ¬ s.SweepsWrong b F)
      (h : xHeapSweep env b (s.next b) F s = .ok r s') : BlockStep env b own s s'
  /-- A teardown that the base survives. -/
  | teardown {s s' : Sys} {r : Ptr} (hs : s.flagsOf b &&& xObjFlagShared ≠ 0)
      (ho : OwnApart s s.collectable) (hx : ¬ s.TearsWrong b)
      (h : xHeapSweep env b b 0 s = .ok r s') : BlockStep env b own s s'

section Runs

variable {env : Env} {s₀ s₁ s s' : Sys} {parent b c p q a : Ptr} {t : Cells Word} {k k' : Kept}
  {locals own new : List Ptr} {odd : Ptr → Prop} {cfg : XBaseT} {w : Word}

/-! ### A new base -/

/-- New objects without extra units. -/
theorem Sys.Tracked.grown (h : s.Tracked locals) (hg : Grown s b new s') : s'.Tracked locals := by
  have hout : ∀ q, q ∈ outstanding s'.trace ↔ q ∈ new ∨ q ∈ outstanding s.trace := fun q => by
    rw [hg.trace, outstanding_map_alloc, List.mem_append]
  have hold : ∀ q ∈ outstanding s.trace, q ∉ new := fun q hq hn =>
    (hg.fresh q hn).2.1 (h.mem_live hq)
  have hnew : ∀ q ∈ new, s'.blockAddr q = q := fun q hq => by
    rw [blockAddr, hg.extrasOf_new q hq]
    exact sub_zero q
  constructor
  case live => intro q; rw [hg.live, h.live, hout, or_assoc]
  case off =>
    intro q hq
    rw [hout, not_or]
    exact ⟨fun hn => (hg.fresh q hn).2.1 ((h.live q).mpr (.inr hq)), h.off q hq⟩
  case known =>
    intro q hq
    rw [hg.trace, blockOf_map_alloc]
    rcases (hout q).mp hq with hq | hq
    · rw [if_pos hq, hnew q hq]
    · rw [if_neg (hold q hq), blockAddr_congr (hg.extrasOf_old q (h.mem_live hq))]
      exact h.known q hq
  case placed =>
    intro q hq
    rcases (hout q).mp hq with hq | hq
    · rw [hnew q hq, hg.block, if_pos hq]
      exact ⟨(hg.fresh q hq).1, rfl⟩
    · obtain ⟨h₁, h₂⟩ := h.placed q hq
      rw [blockAddr_congr (hg.extrasOf_old q (h.mem_live hq)), hg.block, if_neg, h₂]
      · exact ⟨h₁, rfl⟩
      · intro hn
        rw [(hg.fresh _ hn).2.2] at h₂
        cases h₂
  case bare =>
    intro q hq hf
    rcases (hout q).mp hq with hq | hq
    · exact hg.extrasOf_new q hq
    · rw [hg.flagsOf_old q (h.mem_live hq)] at hf
      rw [hg.extrasOf_old q (h.mem_live hq)]
      exact h.bare q hq hf

/-- A unit of an object is assigned. -/
theorem Sys.Tracked.setUnit {i : Nat} (h : s.Tracked locals) :
    (s.setUnit p i w).Tracked locals := by
  have htrace : (s.setUnit p i w).trace = s.trace := trace_modify
  exact h.still (fun _ => live_setUnit) (by rw [htrace]) (fun _ => by rw [htrace])
    (fun _ => by rw [flagsOf_setUnit]) (fun _ => extrasOf_setUnit)
    fun _ _ _ ha => block_setUnit.trans ha

theorem BaseMade.tracked (h : BaseMade env s parent cfg b a new t s') (ht : s.Tracked locals) :
    s'.Tracked locals := by
  obtain ⟨s₁, w, s₂, hm, hn, rfl⟩ := h.made
  exact ((ht.made hm).grown hn.grown).setUnit

/-- Behind a new base are its objects, and then what was behind its parent. -/
theorem BaseMade.behind (h : BaseMade env s parent cfg b a new t s')
    (hc : ∀ q, s.Behind parent q → q ≠ nil → s.Live q ∧ q ≠ parent) (hq : s'.Behind b q) :
    q ∈ new ∨ q = nil ∨ s.Behind parent q := by
  have hseg : Seg s'.next (s'.next b) new (s.next parent) := by
    by_cases hp : parent = nil
    · subst hp
      rw [next_nil]
      exact h.chain_nil
    · exact (h.chain hp).2
  have hfirst : ∀ {x l}, Seg s'.next x l (s.next parent) → l ⊆ new →
      x ∈ new ∨ x = nil ∨ s.Behind parent x := fun {x l} hs hl => by
    rcases l with _ | ⟨y, l⟩
    · exact .inr (.inr (.single hs.symm))
    · exact .inl (hs.1 ▸ hl (.head _))
  induction hq with
  | single e => exact e ▸ hfirst hseg (List.Subset.refl _)
  | @tail y q _ e ih =>
    subst e
    rcases ih with hy | rfl | hy
    · obtain ⟨l₁, l₂, rfl, -, h₂⟩ := hseg.split hy
      exact hfirst h₂ fun x hx => List.mem_append_right _ (.tail _ hx)
    · exact .inr (.inl next_nil)
    · by_cases hn : y = nil
      · exact .inr (.inl (by rw [hn, next_nil]))
      · obtain ⟨hl, hp⟩ := hc y hy hn
        rw [h.next_old hl hp]
        exact .inr (.inr (hy.tail rfl))

theorem MadeOn.hosted (h : MadeOn env parent b own locals s) :
    ∃ t k, Hosted s b t k locals ∧ b :: t.nodes ⊆ own := by
  obtain ⟨s₀, cfg, ht, hmatch, hc, hg, hrun, hown⟩ := h.before
  obtain ⟨a, new, t₀, hm⟩ := xBaseMake_ok hrun
  obtain ⟨t₁, ht₁, hsub₁, -⟩ := hm.baseTree fun i h₁ h₂ => hg i (by omega) (by omega)
  obtain ⟨t, htree, hsub, -⟩ := ht₁.relax cfg.cell_relaxes
  have hnew : b :: t.nodes ⊆ b :: new :=
    List.cons_subset_cons b (List.Subset.trans hsub hsub₁)
  have hlocal : ∀ q ∈ b :: new, q ∉ locals := fun q hq hl =>
    (hm.fresh q hq).2 ((ht.live q).mpr (.inr hl))
  have hnil : nil ∉ b :: locals := fun hn => by
    rcases List.mem_cons.mp hn with e | hl
    · exact htree.live.ne_nil e.symm
    · exact ((ht.live nil).mpr (.inr hl)).ne_nil rfl
  refine ⟨t, .ofCfg cfg, ⟨htree, fun q hq => ?_, fun q hq => hlocal q (hnew hq), fun q hq => ?_,
    hm.tracked ht, ?_⟩, fun q hq => ?_⟩
  · rw [hm.flagsOf_new (hsub₁ (hsub hq))]
    decide
  · rcases hm.behind (fun q hq hn => (hc q hq hn).imp_right List.ne_of_not_mem_cons) hq with
      hq | rfl | hq
    · exact List.not_mem_cons_of_ne_of_not_mem
        (fun e => (List.nodup_cons.mp hm.nodup).1 (e ▸ hq)) (hlocal q (.tail _ hq))
    · exact hnil
    · by_cases hn : q = nil
      · exact hn ▸ hnil
      · obtain ⟨hl, hq⟩ := hc q hq hn
        exact List.not_mem_cons_of_ne_of_not_mem (fun e => hm.new_base (e ▸ hl))
          (List.not_mem_of_not_mem_cons hq)
  · rw [hm.trace]
    exact blocksMatch_map_alloc.mpr hmatch
  · exact hown q ((hm.live q).mpr (.inl (hnew hq))) (hm.fresh q (hnew hq)).2

/-! ### Its set-up -/

/-- A unit is assigned, and the base still leads to a tree of the same nodes. -/
theorem Hosted.setUnit {t' : Cells Word} {i : Nat} (h : Hosted s b t k locals)
    (htree : BaseTree (s.setUnit p i w) b t' k'.cell) (hsub : t'.nodes ⊆ t.nodes) :
    Hosted (s.setUnit p i w) b t' k' locals := by
  refine ⟨htree, fun q hq => ?_, fun q hq => h.apart q (List.cons_subset_cons b hsub hq),
    fun q hq => h.behind q (hq.congr fun _ => next_setUnit), h.tracked.setUnit, ?_⟩
  · rw [flagsOf_setUnit]
    exact h.shared q (hsub hq)
  · rw [show (s.setUnit p i w).trace = s.trace from trace_modify]
    exact h.matched

theorem Hosted.setup (h : Hosted s b t k locals) (hs : ExtraSetup b s s') :
    ∃ t' k', Hosted s' b t' k' locals ∧ t'.nodes ⊆ t.nodes := by
  cases hs with
  | @setType ty hr =>
    obtain ⟨hl, rfl⟩ := setXObjType_ok.mp hr
    have htrace : (s.setType b ty).trace = s.trace := trace_modify
    refine ⟨t, k, h.still (h.tree.congr fun q _ i u hu => by rwa [unit_setType])
      (fun q hq => by rw [flagsOf_setType]; exact h.shared q hq) (fun _ => next_setType)
      (h.tracked.still (fun _ => live_setType) (by rw [htrace]) (fun _ => by rw [htrace])
        (fun _ => by rw [flagsOf_setType]) (fun _ => extrasOf_setType)
        fun _ _ _ ha => block_setType.trans ha) htrace, List.Subset.refl _⟩
  | @setExtra x hr =>
    obtain ⟨a, ha, ⟨v, hv⟩, rfl⟩ := Field.setInt_ok.mp hr
    obtain ⟨t', ht', hsub⟩ := h.tree.assignInt (w := x) (f := .objMetaExtra) rfl ha
      fun q _ j => unit_setUnit hv
    have hcell : Function.update k.cell .objMetaExtra (cellInt (some x)) =
        Kept.cell { k with extra := x } := by
      funext f
      cases f <;> rfl
    rw [hcell] at ht'
    exact ⟨t', _, h.setUnit ht' hsub, hsub⟩

/-- A new base with its type. -/
theorem MadeOn.blocksInv (h : MadeOn env parent b own locals s₁)
    (hset : ReflTransGen (ExtraSetup b) s₁ s₀) (hty : s₀.typeOf b ≠ nil) :
    ∃ t k, b :: t.nodes ⊆ own ∧ BlocksInv s₀ b t k locals fun q =>
      q ∈ outstanding s₀.trace ∧ ¬ s₀.Offset (s₀.extraOf b) q := by
  obtain ⟨t₀, k₀, h₁, hown₁⟩ := h.hosted
  obtain ⟨t, k, h₀, hown⟩ := Prog.invariant
    (I := fun s => ∃ t k, Hosted s b t k locals ∧ b :: t.nodes ⊆ own)
    (fun _ _ ⟨_, _, h, hown⟩ hstep => by
      obtain ⟨t', k', h', hsub⟩ := h.setup hstep
      exact ⟨t', k', h', List.Subset.trans (List.cons_subset_cons b hsub) hown⟩)
    hset ⟨t₀, k₀, h₁, hown₁⟩
  have hx : s₀.extraOf b = toSizeT k.extra := by
    rw [Sys.extraOf, if_pos ⟨hty, h₀.tree.isSet⟩, h₀.tree.fieldInt (f := .objMetaExtra) rfl]
    rfl
  refine ⟨t, k, hown, h₀, hty, fun q hq => ?_⟩
  rw [hx]
  exact or_iff_not_imp_left.mpr fun hno => ⟨hq, hno⟩

/-! ### Steps -/

/-- Units, links, flags and blocks of no object may change. -/
theorem BlocksInv.still (h : BlocksInv s b t k locals odd) (hs : Hosted s' b t k locals)
    (htype : s'.typeOf b = s.typeOf b) (htrace : s'.trace = s.trace)
    (hf : ∀ q, s'.flagsOf q &&& xObjFlagMeta = s.flagsOf q &&& xObjFlagMeta)
    (hx : ∀ q, s'.extrasOf q = s.extrasOf q) : BlocksInv s' b t k locals odd :=
  h.remains (.of_still (by rw [htrace]) hf hx) hs (by rw [htype]; exact h.typed)

theorem BlocksInv.remarked (h : BlocksInv s b t k locals odd) (hm : s.Remarked s') :
    BlocksInv s' b t k locals odd := by
  refine h.still (h.toHosted.still (h.tree.congr fun q _ i u hu => by rwa [hm.same.unit])
    (fun q hq => ?_) (fun _ => hm.same.next) (h.tracked.remarked hm) hm.trace) hm.same.typeOf
    hm.trace (fun _ => hm.flags_and (by decide)) fun _ => hm.same.extrasOf
  rw [hm.flags_and (by decide)]
  exact h.shared q hq

/-- A request of a block that is no object. -/
theorem BlocksInv.malloc {size : Nat} (h : BlocksInv s b t k locals odd)
    (hr : xSysMalloc env size s = .ok a s') : BlocksInv s' b t k locals odd := by
  rw [xSysMalloc_eq] at hr
  split at hr
  · cases hr
    refine h.still (h.toHosted.still (h.tree.congr fun _ _ _ _ => id) h.shared (fun _ => rfl)
      (h.tracked.still (fun _ => Iff.rfl) rfl (fun _ => rfl) (fun _ => rfl) (fun _ => rfl)
        fun q hq x hx => ?_) rfl) rfl rfl (fun _ => rfl) fun _ => rfl
    rw [block_setBlock, if_neg, block_request, hx]
    rintro rfl
    rw [(env.malloc.fresh _ _).2.1] at hx
    cases hx
  · cases hr
    exact h.still (h.toHosted.still (h.tree.congr fun _ _ _ _ => id) h.shared (fun _ => rfl)
      (h.tracked.still (fun _ => Iff.rfl) rfl (fun _ => rfl) (fun _ => rfl) (fun _ => rfl)
        fun _ _ _ => id) rfl) rfl rfl (fun _ => rfl) fun _ => rfl

/-- A unit is assigned that leads to none of the fields. -/
theorem BlocksInv.write {i : Nat} (h : BlocksInv s b t k locals odd) (hg : (p, i) ∉ s.guarded b)
    (hr : setXObjDataI p i w s = .ok () s') : BlocksInv s' b t k locals odd := by
  obtain ⟨⟨v, hv⟩, rfl⟩ := setXObjDataI_ok.mp hr
  have htree : BaseTree (s.setUnit p i w) b t k.cell := h.tree.mono fun q _ j u hu => by
    rw [unit_setUnit hv]
    split
    · next e => exact ⟨w, rfl, fun hf => absurd (h.tree.mem_guarded (e.1 ▸ e.2 ▸ hf)) hg⟩
    · exact ⟨u, hu, fun _ => rfl⟩
  exact h.still (h.toHosted.setUnit htree (List.Subset.refl _)) typeOf_setUnit trace_modify
    (fun _ => by rw [flagsOf_setUnit]) fun _ => extrasOf_setUnit

theorem BlocksInv.step (h : BlocksInv s b t k locals odd) (hin : env.FreeInert)
    (hown : b :: t.nodes ⊆ own) (hs : BlockStep env b own s s') :
    BlocksInv s' b t k locals odd := by
  cases hs with
  | alloc hr =>
    rcases xObjAlloc_ok hr with ⟨-, -, hf, -⟩ | ⟨a, data, -, hm, -⟩
    · exact absurd h.full hf
    · exact h.made hm
  | make hr =>
    rcases xObjMake_ok hr with ⟨-, -, hf, -⟩ | ⟨a, -, hm⟩
    · exact absurd h.full hf
    · exact h.made hm
  | mark hm => exact h.remarked hm
  | malloc hr => exact h.malloc hr
  | write hg hr => exact h.write hg hr
  | @free p hm hp ho hx hr =>
    have hpt : p ∉ b :: t.nodes := fun hq => hp (hown hq)
    obtain ⟨h₁, h₂⟩ := h.tracked.placed p hm
    have haddr := (h.tracked.freeAddr_eq_iff hm).mpr hx
    obtain ⟨s₁, hrun, hf⟩ := xObjFree_run h.accounted.freeReady (h.tracked.mem_live hm) ho
      (fun hf hc => hpt (.tail _ (h.accounted.count_mem hf hc))) (by rwa [haddr]) (by rwa [haddr])
    rw [hr] at hrun
    cases hrun
    exact h.freed hm hpt ho (haddr ▸ hf)
  | sweep hF hM ho hx hr =>
    have hi := h.sweepWith hin links_setXObjHeap hF hM ho hx
    rwa [sweepWith_setXObjHeap, hr] at hi
  | teardown hs ho hx hr =>
    have hi := h.teardown_shared hin links_setXObjHeap ho hs hx
    rwa [sweepWith_setXObjHeap, hr] at hi

theorem BlocksInv.run (h : BlocksInv s b t k locals odd) (hin : env.FreeInert)
    (hown : b :: t.nodes ⊆ own) (hr : ReflTransGen (BlockStep env b own) s s') :
    BlocksInv s' b t k locals odd :=
  Prog.invariant (I := fun s => BlocksInv s b t k locals odd)
    (fun _ _ hi hs => hi.step hin hown hs) hr h

/-- In every run the addresses match, and what does not lie as the base says was there before, and
did not. A further free matches if and only if its object lies so, and a further sweep or teardown
if and only if it does not come to one that does not lie as is read. A teardown that has freed the
base goes on with a lost assignment. -/
theorem blocks_match_iff (hin : env.FreeInert) (hb : MadeOn env parent b own locals s₁)
    (hset : ReflTransGen (ExtraSetup b) s₁ s₀) (hty : s₀.typeOf b ≠ nil)
    (hr : ReflTransGen (BlockStep env b own) s₀ s) :
    BlocksMatch s.trace ∧
    (∀ q ∈ outstanding s.trace, ¬ s.Offset (s.extraOf b) q →
      q ∈ outstanding s₀.trace ∧ ¬ s₀.Offset (s₀.extraOf b) q) ∧
    (∀ p ∈ outstanding s.trace,
      (s.Offset (s.extraOf b) p → BlocksMatch (Prog.stateOf (xObjFree b p s)).trace) ∧
      (p ∉ own → (s.flagsOf p &&& xObjFlagOwn ≠ 0 →
          ∃ w, s.unit p 0 = some w ∧ (w = nil ∨ s.block w = some nil)) →
        BlocksMatch (Prog.stateOf (xObjFree b p s)).trace → s.Offset (s.extraOf b) p)) ∧
    (OwnApart s s.collectable →
      (∀ F, F &&& xObjFlagShared = 0 → F &&& xObjFlagMeta = 0 →
        (¬ s.SweepsWrong b F →
          BlocksMatch (Prog.stateOf (xHeapSweep env b (s.next b) F s)).trace) ∧
        (s.hookWord .heapFree b ≠ none → (∀ q, s.Behind b q → s.Live q → ¬ s.Behind q q) →
          BlocksMatch (Prog.stateOf (xHeapSweep env b (s.next b) F s)).trace →
            ¬ s.SweepsWrong b F)) ∧
      (¬ s.TearsWrong b →
        BlocksMatch (Prog.stateOf (xHeapSweep env b b 0 s)).trace ∧
        BlocksMatch (Prog.stateOf (sweepWith env storeIfLive b b 0 s)).trace) ∧
      (s.hookWord .heapFree b ≠ none →
        BlocksMatch (Prog.stateOf (sweepWith env storeIfLive b b 0 s)).trace →
          ¬ s.TearsWrong b)) := by
  obtain ⟨t, k, hown, h₀⟩ := hb.blocksInv hset hty
  have h := h₀.run hin hown hr
  refine ⟨h.matched, fun q hq hx => (h.sized q hq).resolve_left (h.extraOf ▸ hx), fun p hp =>
    ⟨h.free_matches hp, fun hpo ho hm => ?_⟩, fun ho => ⟨fun F hF hM => ⟨fun hno => ?_,
      fun hfn hline hm => ?_⟩, fun hno => ⟨?_, ?_⟩, fun hfn hm hno => ?_⟩⟩
  · by_contra hx
    exact h.free_wrong hp (fun hq => hpo (hown (.tail _ hq))) ho hx hm
  · rw [← sweepWith_setXObjHeap]
    exact (h.sweepWith hin links_setXObjHeap hF hM ho hno).matched
  · rintro ⟨q, hq, ⟨hl, -, hk⟩, hx⟩
    obtain ⟨fn, hfn⟩ := Option.ne_none_iff_exists'.mp hfn
    rw [← sweepWith_setXObjHeap] at hm
    exact h.sweep_wrong hin links_setXObjHeap hF hM ho hfn hq hl
      (hk.resolve_right (hline q hq hl)) hx hm
  · rw [← sweepWith_setXObjHeap]
    exact h.teardown_matches hin links_setXObjHeap ho hno
  · exact h.teardown_matches hin links_storeIfLive ho hno
  · obtain ⟨fn, hfn⟩ := Option.ne_none_iff_exists'.mp hfn
    exact h.teardown_wrong hin links_storeIfLive ho hfn hno (.inl storeIfLive_eq) hm

end Runs

/-! ## Bases with two extra units -/

/-- No object owns anything, and those that lie behind extra units lie behind `e`. -/
def Sys.Plain (s : Sys) (e : Nat) : Prop :=
  ∀ q, s.Offset e q ∧ s.flagsOf q &&& xObjFlagOwn = 0

section Plain

variable {env : Env} {s s' : Sys} {b p q a ty : Ptr} {fl : Flags} {data : List Word} {e : Nat}
  {new : List Ptr} {t : Cells Word} {cfg : XBaseT}

theorem Sys.Plain.congr (h : s.Plain e) (hf : s'.flagsOf q = s.flagsOf q)
    (hx : s'.extrasOf q = s.extrasOf q) : s'.Offset e q ∧ s'.flagsOf q &&& xObjFlagOwn = 0 :=
  ⟨(h q).1.congr hf hx, by rw [hf, (h q).2]⟩

theorem Made.plain (hm : Made s b ty fl data p a s')
    (hx : s.extraOf b = e ∨ s.extraOf b = 0 ∧ fl &&& xObjFlagMeta = 0)
    (ho : fl &&& xObjFlagOwn = 0) (h : s.Plain e) : s'.Plain e := fun q => by
  by_cases hq : q = p
  · subst hq
    refine ⟨fun hf => ?_, ?_⟩
    · rcases hx with hx | ⟨hx, hfl⟩
      · rw [hm.extrasOf_new, hx]
      · rw [hm.flagsOf_new, hx, if_neg (lt_irrefl 0)] at hf
        exact absurd hfl hf
    · rw [hm.flagsOf_new]
      split
      · exact Flags.or_and ho (by decide)
      · exact ho
  · exact h.congr (hm.flagsOf_old q hq) (hm.extrasOf_old q hq)

theorem Grown.plain (hg : Grown s b new s') (h : s.Plain e) : s'.Plain e := fun q => by
  by_cases hn : q ∈ new
  · rw [Offset, hg.flagsOf_new q hn]
    exact ⟨fun hf => absurd rfl hf, rfl⟩
  by_cases hl : s.Live q
  · exact h.congr (hg.flagsOf_old q hl) (hg.extrasOf_old q hl)
  · have hno : s'.flagsOf q = 0 := flagsOf_not_live fun hl' => ((hg.live q).mp hl').elim hn hl
    rw [Offset, hno]
    exact ⟨fun hf => absurd rfl hf, rfl⟩

theorem BaseMade.plain (hm : BaseMade env s b cfg p a new t s')
    (hx : s.extraOf b = e ∨ s.extraOf b = 0) (h : s.Plain e) : s'.Plain e := by
  obtain ⟨s₁, w, s₂, hb, hn, rfl⟩ := hm.made
  have h₂ := hn.grown.plain (hb.plain (hx.imp_right fun hx => ⟨hx, rfl⟩) rfl h)
  exact fun q => h₂.congr flagsOf_setUnit extrasOf_setUnit

end Plain

/-- A configuration with two extra units. -/
def XBaseT.twoExtra : XBaseT := { XBaseT.standard with objMetaExtra := 2 }

/-- A typed base with two extra units. -/
theorem exists_twoExtra : ∃ (b : Ptr) (s₁ s₂ : Sys) (t : Cells Word) (own : List Ptr),
    xBaseMake (.plain fun _ => true) nil .twoExtra Sys.empty = .ok b s₁ ∧
    setXObjType b xTypePairObj s₁ = .ok () s₂ ∧ MadeOn (.plain fun _ => true) nil b own [] s₁ ∧
    ReportingBase s₂ b t ⟨2, 0, nil, nil, nil⟩ ∧ s₂.Plain 2 ∧ s₂.flagsOf b = xObjFlagNone ∧
    ∀ q, s₂.Behind b q → q ≠ nil → s₂.Live q := by
  have hno : ∀ q, ¬ Sys.empty.Live q := fun q => Finmap.notMem_empty
  have hempty : Sys.empty.Plain 2 := fun q => by
    rw [Offset, flagsOf_not_live (hno q)]
    exact ⟨fun hf => absurd rfl hf, rfl⟩
  obtain ⟨b, a, new, t₀, s₁, hrun, hm⟩ := xBaseMake_bare (.plain fun _ => true) .twoExtra
    (s := Sys.empty) (b := nil) (.inl rfl) rfl
  obtain ⟨t, hrep, -⟩ := hm.typed (fun _ _ _ => rfl) (show xTypePairObj ≠ nil by decide) (.inl rfl)
  have hx : Sys.empty.extraOf nil = 0 := extraOf_of_not_full not_full_nil
  have hplain := hm.plain (.inr hx) hempty
  have htracked : Sys.empty.Tracked [] := by
    constructor
    case live => exact fun q => iff_of_false (hno q) (by rintro (h | h) <;> cases h)
    all_goals exact fun q hq => absurd hq List.not_mem_nil
  refine ⟨b, s₁, _, t, b :: new, hrun, setXObjType_eq ((hm.live b).mpr (.inl (.head _))),
    ⟨Sys.empty, .twoExtra, htracked, trivial, fun q hq hn => absurd (hq.live hn) not_live_nil,
      fun _ _ _ => rfl, hrun, fun q hq hl => ((hm.live q).mp hq).resolve_right hl⟩,
    hrep, fun q => hplain.congr flagsOf_setType extrasOf_setType, ?_, fun q hq hn => ?_⟩
  · rw [flagsOf_setType, hm.flagsOf_base hx]
  · rw [live_setType]
    rcases hm.behind (fun q hq hn => absurd (hq.live hn) not_live_nil)
      (hq.congr fun _ => next_setType) with hq | hq | hq
    · exact (hm.live q).mpr (.inl (.tail _ hq))
    · exact absurd hq hn
    · exact absurd (hq.live hn) not_live_nil

/-- An object is made on it. -/
theorem exists_extraAtom : ∃ (b p : Ptr) (s₁ s₂ s₃ : Sys) (t tb : Cells Word) (k : Kept)
    (odd : Ptr → Prop),
    xBaseMake (.plain fun _ => true) nil .twoExtra Sys.empty = .ok b s₁ ∧
    setXObjType b xTypePairObj s₁ = .ok () s₂ ∧
    xObjMake (.plain fun _ => true) b xTypeAtomObj xObjFlagNone [41] s₂ = .ok p s₃ ∧
    ReportingBase s₃ b t ⟨2, 0, nil, nil, nil⟩ ∧ s₃.Plain 2 ∧ BlocksInv s₃ b tb k [] odd ∧
    s₃.next b = p ∧ s₃.Live p ∧ b ≠ p ∧ s₃.flagsOf b = xObjFlagNone ∧
    s₃.flagsOf p = xObjFlagMeta ∧ (s₃.extrasOf p).length = 2 ∧
    ∀ q, s₃.Behind b q → q ≠ nil → s₃.Live q := by
  obtain ⟨b, s₁, s₂, t, own, hrun₁, hrun₂, hmade, hrep₂, hplain₂, hfb, hlive₂⟩ := exists_twoExtra
  have hx₂ : s₂.extraOf b = 2 := hrep₂.extraOf
  obtain ⟨p, a, s₃, hrun₃, hm, hrep₃⟩ :=
    hrep₂.make rfl (.plain fun _ => true) xTypeAtomObj xObjFlagNone [41] rfl (by decide)
  obtain ⟨tb, k, -, h₂⟩ := hmade.blocksInv (.single (.setType hrun₂)) hrep₂.typed
  have hbp : b ≠ p := fun e => hm.new (e ▸ h₂.base_live)
  refine ⟨b, p, s₁, s₂, s₃, t, tb, k, _, hrun₁, hrun₂, hrun₃, hrep₃,
    hm.plain (.inl hx₂) rfl hplain₂, h₂.made hm, ?_, (hm.live p).mpr (.inl rfl), hbp,
    (hm.flagsOf_old b hbp).trans hfb, ?_, hm.extrasOf_new.trans hx₂,
    fun q hq hn => (hm.live q).mpr ?_⟩
  · rw [hm.next_old b h₂.base_live, if_pos rfl]
  · rw [hm.flagsOf_new, hx₂]
    rfl
  · exact (h₂.toHosted.behind_made hm hq).imp_right fun hq => hlive₂ q hq hn

/-- A base is made on a typed base that has an object, and both bases give two extra units. Both
objects are swept by way of the second base. -/
theorem blocks_match_nested : ∃ (s₁ s₂ s₃ s₄ s₅ s₆ : Sys) (parent b q p : Ptr),
    xBaseMake (.plain fun _ => true) nil .twoExtra Sys.empty = .ok parent s₁ ∧
    setXObjType parent xTypePairObj s₁ = .ok () s₂ ∧
    xObjMake (.plain fun _ => true) parent xTypeAtomObj xObjFlagNone [41] s₂ = .ok q s₃ ∧
    xBaseMake (.plain fun _ => true) parent .twoExtra s₃ = .ok b s₄ ∧
    setXObjType b xTypePairObj s₄ = .ok () s₅ ∧
    xObjMake (.plain fun _ => true) b xTypeAtomObj xObjFlagNone [42] s₅ = .ok p s₆ ∧
    s₆.next b = p ∧ s₆.Behind b q ∧ s₆.flagsOf p = xObjFlagMeta ∧ s₆.flagsOf q = xObjFlagMeta ∧
    BlocksMatch (Prog.stateOf
      (xHeapSweep (.plain fun _ => true) b (s₆.next b) xObjFlagMark s₆)).trace := by
  obtain ⟨parent, q, s₁, s₂, s₃, t₃, tb, k, odd, hrun₁, hrun₂, hrun₃, hrep₃, hplain₃, h₃, hqnext,
    hql, -, -, hfq, -, hlive₃⟩ := exists_extraAtom
  obtain ⟨b, ab, sb, hrunb, hmb, -⟩ :=
    hrep₃.make rfl (.plain fun _ => true) nil xObjFlagNone [nil] rfl (by decide)
  obtain ⟨new, t₄, s₄, hrun₄, hm₄⟩ := xBaseMake_made .twoExtra rfl hrunb hmb
  obtain ⟨t, hrep₅, -⟩ :=
    hm₄.typed (fun _ _ _ => rfl) (show xTypePairObj ≠ nil by decide) (.inl rfl)
  have hrun₅ : setXObjType b xTypePairObj s₄ = .ok () (s₄.setType b xTypePairObj) :=
    setXObjType_eq ((hm₄.live b).mpr (.inl (.head _)))
  have hx₅ : (s₄.setType b xTypePairObj).extraOf b = 2 := hrep₅.extraOf
  obtain ⟨p, ap, s₆, hrun₆, hm₆, hrep₆⟩ :=
    hrep₅.make rfl (.plain fun _ => true) xTypeAtomObj xObjFlagNone [42] rfl (by decide)
  have hx₆ : s₆.extraOf b = 2 := hrep₆.extraOf
  have hplain₄ : s₄.Plain 2 := hm₄.plain (.inl hrep₃.extraOf) hplain₃
  have hplain₆ : s₆.Plain 2 := hm₆.plain (.inl hx₅) rfl
    fun x => hplain₄.congr flagsOf_setType extrasOf_setType
  -- Before the second base was made, the chain of the first passed objects only.
  have hmade : MadeOn (.plain fun _ => true) parent b (b :: new) [] s₄ :=
    ⟨s₃, .twoExtra, h₃.tracked, h₃.matched, fun x hx hn => ⟨hlive₃ x hx hn, h₃.behind x hx⟩,
      fun _ _ _ => rfl, hrun₄, fun x hx hl => ((hm₄.live x).mp hx).resolve_right hl⟩
  have hqp : q ≠ p := fun e => hm₆.new (live_setType.mpr (e ▸ (hm₄.live q).mpr (.inr hql)))
  have hchain : Seg s₆.next (s₆.next p) new q := by
    have hseg := (hm₄.chain h₃.base_live.ne_nil).2
    rw [hqnext] at hseg
    rw [hm₆.next_new, next_setType]
    refine hseg.congr fun x hx => ?_
    rw [hm₆.next_old x (live_setType.mpr ((hm₄.live x).mpr (.inl (.tail _ hx)))), if_neg,
      next_setType]
    exact fun e => (List.nodup_cons.mp hm₄.nodup).1 (e ▸ hx)
  have hfirst : s₆.next b = p := by rw [hm₆.next_old b hrep₅.tree.live, if_pos rfl]
  refine ⟨s₁, s₂, s₃, s₄, _, s₆, parent, b, q, p, hrun₁, hrun₂, hrun₃, hrun₄, hrun₅, hrun₆, hfirst,
    TransGen.head hfirst (TransGen.head' rfl hchain.reaches), ?_, ?_, ?_⟩
  · rw [hm₆.flagsOf_new, hx₅]
    rfl
  · rw [hm₆.flagsOf_old q hqp, flagsOf_setType, hm₄.flagsOf_old hql, hfq]
  · refine (((blocks_match_iff Env.plain_inert hmade (.single (.setType hrun₅)) hrep₅.typed
      (.single (.make hrun₆))).2.2.2 (.of_flags fun x => (hplain₆ x).2)).1 xObjFlagMark
        (by decide) (by decide)).1 ?_
    rintro ⟨x, -, -, hno⟩
    exact hno (hx₆ ▸ (hplain₆ x).1)

/-- An object is made on a typed base with two extra units. A teardown frees the base, and then
gives the object back inside its block. It gets there whatever an assignment through the base does,
if a shared object was made after the other. -/
theorem blocks_match_fails : ∃ (s₁ s₂ s₃ s₄ : Sys) (b p q : Ptr),
    xBaseMake (.plain fun _ => true) nil .twoExtra Sys.empty = .ok b s₁ ∧
    setXObjType b xTypePairObj s₁ = .ok () s₂ ∧
    xObjMake (.plain fun _ => true) b xTypeAtomObj xObjFlagNone [41] s₂ = .ok p s₃ ∧
    ¬ BlocksMatch (Prog.stateOf (sweepWith (.plain fun _ => true) storeIfLive b b 0 s₃)).trace ∧
    xObjMake (.plain fun _ => true) b xTypeAtomObj xObjFlagShared [42] s₃ = .ok q s₄ ∧
    ¬ BlocksMatch (Prog.stateOf (xHeapSweep (.plain fun _ => true) b b 0 s₄)).trace := by
  obtain ⟨b, p, s₁, s₂, s₃, t, tb, k, odd, hrun₁, hrun₂, hrun₃, hrep₃, hplain₃, h₃, hfirst, hpl,
    hbp, hfb, hfp, hlen, -⟩ := exists_extraAtom
  have hx₃ : s₃.extraOf b = 2 := hrep₃.extraOf
  obtain ⟨q, a, s₄, hrun₄, hm, hrep₄⟩ :=
    hrep₃.make rfl (.plain fun _ => true) xTypeAtomObj xObjFlagShared [42] rfl (by decide)
  have hbq : b ≠ q := fun e => hm.new (e ▸ h₃.base_live)
  have hpq : p ≠ q := fun e => hm.new (e ▸ hpl)
  have hf : s₄.flagsOf p = xObjFlagMeta := (hm.flagsOf_old p hpq).trans hfp
  -- With no base left the object is looked for where it begins.
  have hdoomed : ∀ {s : Sys}, s.Live p → s.flagsOf p = xObjFlagMeta →
      (s.extrasOf p).length = 2 → s.Doomed 0 p ∧ ¬ s.Offset 0 p := fun hl hf hx => by
    refine ⟨⟨hl, by rw [hf]; decide, .inl (not_kept_zero.mpr (by rw [hf]; decide))⟩, fun h₀ => ?_⟩
    have h₀ := h₀ (by rw [hf]; decide)
    rw [hx] at h₀
    exact absurd h₀ (by decide)
  have hwrong₃ : s₃.TearsWrong b := by
    rw [TearsWrong, if_pos (by rw [hfb]; rfl)]
    exact .inr ⟨p, .single hfirst, hdoomed hpl hfp hlen⟩
  have hwrong₄ : s₄.TearsWrong b := by
    rw [TearsWrong, if_pos (by rw [hm.flagsOf_old b hbq, hfb]; rfl)]
    refine .inr ⟨p, TransGen.head (hm.next_old b h₃.base_live) (.single ?_),
      hdoomed ((hm.live p).mpr (.inr hpl)) hf (by rw [hm.extrasOf_old p hpq, hlen])⟩
    rw [if_pos rfl, hm.next_new, hfirst]
  obtain ⟨fn₃, hfn₃⟩ := hrep₃.tree.hookWord (f := .heapFree) rfl (.inl rfl)
  obtain ⟨fn₄, hfn₄⟩ := hrep₄.tree.hookWord (f := .heapFree) rfl (.inl rfl)
  refine ⟨s₁, s₂, s₃, s₄, b, p, q, hrun₁, hrun₂, hrun₃, ?_, hrun₄, ?_⟩
  · exact h₃.teardown_wrong Env.plain_inert links_storeIfLive
      (.of_flags fun x => (hplain₃ x).2) hfn₃ hwrong₃ (.inl storeIfLive_eq)
  · rw [← sweepWith_setXObjHeap]
    refine (h₃.made hm).teardown_wrong Env.plain_inert links_setXObjHeap
      (.of_flags fun x => (hm.plain (.inl hx₃) rfl hplain₃ x).2) hfn₄ hwrong₄ (.inr ?_)
    rw [show s₄.next b = q by rw [hm.next_old b h₃.base_live, if_pos rfl], hm.flagsOf_new, hx₃]
    decide

end XExpr
