import XExpr.Heap.Steps

/-!
# Both chains are well formed in every run

`heap_wellFormed`: whatever order the calls of `Mutate` and `Collect` come in, the allocation
chain from the root base is terminated and passes each object that was allocated and not freed
once, and the root chain of each base that is still there passes what is registered on it, newest
first, off the allocation chain and off the other root chains.
-/

namespace XExpr

open Sys Chain Relation

/-- The chains of a client's heap are as they should be. -/
structure Client.WellFormed (c : Client) : Prop where
  chain : ∃ l, Seg c.sys.next c.root l nil ∧ l.Nodup ∧
    ∀ p, p ∈ l ↔ p ∈ outstanding c.sys.trace
  base : ∀ b ∈ c.bases, b ∈ outstanding c.sys.trace
  rootChain : ∀ b ∈ c.bases, ∃ head, xHeapRootChain b c.sys = .ok head c.sys ∧
    Seg c.sys.next head (c.roots b) nil
  nodup : ∀ b ∈ c.bases, (c.roots b).Nodup
  off : ∀ b ∈ c.bases, ∀ p ∈ c.roots b, p ∉ outstanding c.sys.trace
  apart : ∀ b ∈ c.bases, ∀ b' ∈ c.bases, b ≠ b' → (c.roots b).Disjoint (c.roots b')

variable {env : Env} {cfg : XBaseT} {c c' c₀ : Client} {L : List Ptr} {t : Ptr → Cells Word}
  {k : Ptr → Kept} {b p : Ptr} {F : Flags}

theorem HeapInv.wellFormed (h : HeapInv c L t k) : c.WellFormed where
  chain := ⟨c.root :: L, ⟨rfl, h.chain.chain⟩, h.chain.nodup, fun p => (h.chain.outstanding p).symm⟩
  base b hb := (h.chain.outstanding b).mpr (h.bases hb)
  rootChain b hb :=
    ⟨(k b).head, Field.obj_run ((h.base b hb).tree.fieldObj rfl), (h.base b hb).roots⟩
  nodup b hb := (h.base b hb).nodup
  off b hb p hp ho :=
    h.chain.apart p ((h.base b hb).subset hp) ((h.chain.outstanding p).mp ho)
  apart := h.roots_apart

/-! ## What a run reads of the chain -/

/-- The mark hook of a base, `nil` for none. -/
def Sys.markHook (s : Sys) (b : Ptr) : Word := (s.hookWord .heapMark b).getD nil

/-- `p` is on the allocation chain behind the root base. -/
def Client.OnChain (c : Client) (p : Ptr) : Prop := p ∈ outstanding c.sys.trace ∧ p ≠ c.root

theorem ChainInv.onChain (h : ChainInv c.sys c.root L c.locals) : c.OnChain p ↔ p ∈ L := by
  rw [Client.OnChain, h.outstanding, List.mem_cons]
  have := (List.nodup_cons.mp h.nodup).1
  constructor
  · rintro ⟨e | hp, hn⟩
    · exact absurd e hn
    · exact hp
  · exact fun hp => ⟨.inr hp, fun e => this (e ▸ hp)⟩

theorem HeapInv.onChain (h : HeapInv c L t k) : c.OnChain p ↔ p ∈ L := h.chain.onChain

theorem HeapInv.markHook (h : HeapInv c L t k) :
    c.sys.hookWord .heapMark c.root = some (c.sys.markHook c.root) := by
  have hbase := h.base c.root h.root_mem
  obtain ⟨fn, hfn⟩ := hbase.tree.hookWord (f := .heapMark) rfl (hbase.mark.imp id And.right)
  rw [Sys.markHook, hfn]
  rfl

/-! ## Runs -/

/-- Every run keeps the heap invariant. -/
theorem run_inv (hin : env.FreeInert) (hs : ∃ L t k, HeapInv c₀ L t k)
    (hr : ReflTransGen (fun c c' => Mutate env 0 c c' ∨ Collect env c c') c₀ c) :
    ∃ L t k, HeapInv c L t k := by
  refine Prog.invariant (I := fun c => ∃ L t k, HeapInv c L t k) ?_ hr hs
  rintro c c' ⟨L, t, k, h⟩ (hm | hc)
  · exact hm.inv h
  · exact hc.inv hin h

theorem heap_wellFormed (hin : env.FreeInert) (hs : Start env cfg c₀)
    (hr : ReflTransGen (fun c c' => Mutate env 0 c c' ∨ Collect env c c') c₀ c) :
    c.WellFormed := by
  obtain ⟨L, t, k, h⟩ := run_inv hin hs.inv hr
  exact h.wellFormed

/-- A base can be made in an empty memory. -/
theorem Start.exists (env : Env) (cfg : XBaseT) (hg : env.malloc.GrantsFrom 0 56)
    (hm : cfg.heapMark = nil) (hf : cfg.heapFree = nil) : ∃ c, Start env cfg c ∧ c.locals = [] := by
  obtain ⟨p, a, new, t, s', hrun, -⟩ := xBaseMake_bare env cfg
    (s := Sys.empty) (b := nil) (.inl rfl) (hg 0 le_rfl (by omega))
  refine ⟨⟨s', p, [p], fun _ => [], []⟩, ⟨⟨Sys.empty, fun q => ?_, rfl, hg, .inl hm, .inl hf,
    hrun⟩, rfl, rfl⟩, rfl⟩
  exact iff_of_false Finmap.notMem_empty (List.not_mem_nil)

theorem Start.bare (h : Start env cfg c) : c.sys.Bare c.root := by
  obtain ⟨s, -, -, -, -, -, hrun⟩ := h.before
  obtain ⟨a, new, t, hm⟩ := xBaseMake_ok hrun
  exact .inr ⟨(hm.live _).mpr (.inl (.head _)), hm.typeOf_base⟩

/-- Objects that own nothing, and new ones that own nothing either. -/
theorem Mutate.flags_own (h : HeapInv c L t k) (hs : Mutate env xObjFlagOwn c c')
    (hf : ∀ p, c.sys.flagsOf p &&& xObjFlagOwn = 0) (p : Ptr) :
    c'.sys.flagsOf p &&& xObjFlagOwn = 0 := by
  by_cases hp : c'.sys.Live p
  · rcases hs.flags h (by decide) p hp with ⟨-, e⟩ | e
    · rw [e, hf]
    · exact e
  · simp [flagsOf_not_live hp]

theorem Start.flags (h : Start env cfg c) (hp : c.sys.Live p) (hl : p ∉ c.locals) :
    c.sys.flagsOf p = xObjFlagNone ∨ c.sys.flagsOf p = xObjFlagShared := by
  obtain ⟨s, hlive, -, -, -, -, hrun⟩ := h.before
  obtain ⟨a, new, t₀, hm⟩ := xBaseMake_ok hrun
  rcases (hm.live p).mp hp with hn | hp
  · rcases List.mem_cons.mp hn with rfl | hn
    · exact .inl (hm.flagsOf_base (extraOf_of_not_full not_full_nil))
    · exact .inr (hm.flagsOf_new hn)
  · exact absurd ((hlive p).mp hp) hl

/-- Objects that own nothing. -/
theorem Client.OwnReady.of_flags (h : ∀ p, c.sys.flagsOf p &&& xObjFlagOwn = 0) :
    c.OwnReady F where
  block p _ _ _ _ ho := absurd (h p) ho
  apart p _ _ _ _ _ ho := absurd (h p) ho.1

/-- The objects of a new base own nothing. -/
theorem Start.flags_own (hs : Start env cfg c) (hloc : c.locals = []) (p : Ptr) :
    c.sys.flagsOf p &&& xObjFlagOwn = 0 := by
  by_cases hp : c.sys.Live p
  · rcases hs.flags hp (by rw [hloc]; exact List.not_mem_nil) with e | e <;> rw [e] <;> rfl
  · simp [flagsOf_not_live hp]

/-- The chain behind the root base is all of it. -/
theorem HeapInv.behind_root {l₁ l₂ : List Ptr} (h : HeapInv c L t k)
    (he : c.root :: L = l₁ ++ c.root :: l₂) : l₁ = [] ∧ l₂ = L := by
  rcases l₁ with _ | ⟨x, l₁⟩
  · exact ⟨rfl, (List.cons.inj he).2.symm⟩
  · refine absurd ?_ (List.nodup_cons.mp h.chain.nodup).1
    rw [(List.cons.inj he).2]
    simp

/-- A sweep of it returns, and filters it. -/
theorem HeapInv.sweepRoot (h : HeapInv c L t k) (hin : env.FreeInert)
    (hF : F &&& xObjFlagShared = 0) (ho : c.OwnReady F) :
    ∃ s' fn, xHeapSweep env c.root (c.sys.next c.root) F c.sys = .ok c.root s' ∧
      Swept c.sys c.root F fn c.root L s' ∧
      HeapInv { c with sys := s', bases := c.bases.filter fun b => decide (s'.Live b) }
        (L.filter (c.sys.kept F)) t k := by
  obtain ⟨s', fn, l₁, l₂, L', hrun, he, hs, hL', hi⟩ := h.sweep hin h.root_mem hF ho
  obtain ⟨rfl, rfl⟩ := h.behind_root he
  obtain rfl := (List.cons.inj hL').2
  exact ⟨s', fn, hrun, hs, hi⟩

theorem HeapInv.freeHook (h : HeapInv c L t k) (hb : b ∈ c.bases) :
    ∃ fn, c.sys.hookWord .heapFree b = some fn := by
  have hbase := h.base b hb
  exact hbase.tree.hookWord rfl (hbase.free.imp id And.right)

/-- An atom is made on a new base, and then the base gets a type. -/
theorem exists_typed {fl : Flags} (hfl : fl &&& xObjFlagOwn = 0) :
    ∃ (c₀ c₁ c : Client) (p : Ptr) (L : List Ptr) (t : Ptr → Cells Word) (k : Ptr → Kept),
    Start (.plain fun _ => true) .standard c₀ ∧ c.root = c₀.root ∧
    xObjMake (.plain fun _ => true) c₀.root xTypeAtomObj fl [41] c₀.sys = .ok p c₁.sys ∧
    setXObjType c₀.root xTypePairObj c₁.sys = .ok () c.sys ∧
    Mutate (.plain fun _ => true) 0 c₀ c₁ ∧ Mutate (.plain fun _ => true) 0 c₁ c ∧
    HeapInv c (p :: L) t k ∧ c.sys.Full c.root ∧ c.sys.flagsOf p = fl ∧
    c.sys.flagsOf c.root = xObjFlagNone ∧ ∀ x, c.sys.flagsOf x &&& xObjFlagOwn = 0 := by
  obtain ⟨c₀, hs, hloc⟩ := Start.exists (.plain fun _ => true) .standard
    (fun _ _ _ => rfl) rfl rfl
  obtain ⟨L, t, h⟩ := hs.heapInv
  have hroot := h.base_live h.root_mem
  obtain ⟨p, a, s₁, hrun, hm, -, hfp⟩ := xObjMake_granted (.plain fun _ => true) xTypeAtomObj
    fl [41] hs.bare rfl (by decide)
  have hrp : c₀.root ≠ p := fun e => hm.new (e ▸ hroot)
  have hroot₁ : s₁.Live c₀.root := (hm.live _).mpr (.inr hroot)
  obtain ⟨L₁, h₁, -⟩ := h.made (.head _) (fun _ => h.root_mem) hm
  have htype := setXObjType_eq (t := xTypePairObj) hroot₁
  have hstep₁ : Mutate (.plain fun _ => true) 0 c₀ { c₀ with sys := s₁ } :=
    .make h.root_mem BitVec.and_zero hrun
  have hstep₂ : Mutate (.plain fun _ => true) 0 { c₀ with sys := s₁ }
      { c₀ with sys := s₁.setType c₀.root xTypePairObj } := by
    refine .setType (fun hb => ?_) htype
    exact (h₁.base _ hb).tree.fieldInt (f := .objMetaExtra) rfl
  obtain ⟨L₂, t₂, k₂, h₂⟩ := hstep₂.inv h₁
  have hchain := h₂.chain.chain
  rw [show Sys.next _ c₀.root = p from by
    rw [next_setType, hm.next_old _ hroot, if_pos rfl]] at hchain
  have hflags : ∀ x, (s₁.setType c₀.root xTypePairObj).flagsOf x &&& xObjFlagOwn = 0 := by
    intro x
    rw [flagsOf_setType]
    by_cases hx : x = p
    · rw [hx, hfp]
      exact hfl
    · rw [hm.flagsOf_old x hx]
      exact hs.flags_own hloc x
  obtain ⟨L₃, rfl⟩ : ∃ L₃, L₂ = p :: L₃ := by
    rcases L₂ with _ | ⟨x, L₃⟩
    · exact absurd hchain hm.ne_nil
    · exact ⟨L₃, by rw [show p = x from hchain.1]⟩
  refine ⟨c₀, _, { c₀ with sys := s₁.setType c₀.root xTypePairObj }, p, L₃, t₂, k₂, hs, rfl, hrun,
    htype, hstep₁, hstep₂, h₂, ⟨?_, ?_⟩, ?_, ?_, hflags⟩
  · rw [typeOf_setType hroot₁, if_pos rfl]
    decide
  · exact (h₂.base _ h₂.root_mem).tree.isSet
  · rw [flagsOf_setType, hfp]
  · obtain ⟨s, new, t₀, hm₀, -⟩ := hs.made
    rw [flagsOf_setType, hm.flagsOf_old _ hrp,
      hm₀.flagsOf_base (extraOf_of_not_full not_full_nil)]

/-- Without a hook that reports any, only pairs have successors. -/
theorem not_edge_plain {s : Sys} {b q : Ptr} {fn : Word} {grants : Nat → Bool}
    (ht : s.typeOf p ≠ xTypePairObj) : ¬ s.Edge (.plain grants) b fn p q := by
  rintro ⟨hq, ⟨h, -⟩ | ⟨-, -, h | h⟩⟩
  · exact ht h
  · exact List.not_mem_nil h
  · exact hq h

theorem reach_plain {s : Sys} {b q : Ptr} {fn : Word} {grants : Nat → Bool}
    (ht : s.typeOf p ≠ xTypePairObj)
    (h : ReflTransGen (s.Edge (.plain grants) b fn) p q) : q = p := by
  rcases h.cases_head with e | ⟨y, hy, -⟩
  · exact e.symm
  · exact absurd hy (not_edge_plain ht)

theorem walkable_plain {s : Sys} {b : Ptr} {fn : Word} {grants : Nat → Bool} (hl : s.Live p)
    (ht : s.typeOf p ≠ xTypePairObj) : s.Walkable (.plain grants) b fn p := by
  intro q hq
  rw [reach_plain ht hq]
  exact ⟨hl, fun e => absurd e ht⟩

/-- So the marker marks no other object. -/
theorem MarkedFrom.plain {s : Sys} {b : Ptr} {fn : Word} {grants : Nat → Bool}
    (h : MarkedFrom (.plain grants) b fn F s [p] s') (hl : s.Live p)
    (ht : s.typeOf p ≠ xTypePairObj) : Marked s F {p} s' := by
  refine ⟨h.same, fun x hx hxl => ?_, fun x hx => ?_, h.block, h.requests, h.trace⟩
  · obtain rfl := Set.mem_singleton_iff.mp hx
    exact h.flags_mem x (Reach.mem_markList_of_mem (mem_nonNil.mpr ⟨.head _, hl.ne_nil⟩)) hxl
  · by_cases hA : x ∈ Reach.markList (s.Edge (.plain grants) b fn) (s.marks F) (nonNil [p])
    swap
    · exact h.flags_notMem x hA
    rcases Reach.mem_markList.mp hA with hm | ⟨y, hy, hw⟩
    · by_cases hxl : s.Live x
      · rw [h.flags_mem x hA hxl, Flags.or_of_and hm]
      · rw [flagsOf_not_live hxl, flagsOf_not_live (mt h.same.live.mp hxl)]
    · rw [List.mem_singleton.mp (mem_nonNil.mp hy).1] at hw
      exact absurd (Set.mem_singleton_iff.mpr (reach_plain ht hw.reach)) hx

/-- A pair on the stack is registered on the root chain of a base. The other objects stay. -/
theorem HeapInv.exists_registered (env : Env) (F : Flags) (h : HeapInv c L t k)
    (hb : b ∈ c.bases) : ∃ (x : Ptr) (c₁ c' : Client) (t' : Ptr → Cells Word) (k' : Ptr → Kept),
      Mutate env F c c₁ ∧ Mutate env F c₁ c' ∧ HeapInv c' L t' k' ∧ ¬ c.sys.Live x ∧
      c'.root = c.root ∧ c'.bases = c.bases ∧ c'.locals = x :: c.locals ∧
      c'.roots = Function.update c.roots b (x :: c.roots b) ∧
      (∀ q, c'.sys.Live q ↔ q = x ∨ c.sys.Live q) ∧ c'.sys.flagsOf x = xObjFlagNone ∧
      ∀ q, q ≠ x → c'.sys.typeOf q = c.sys.typeOf q ∧ c'.sys.flagsOf q = c.sys.flagsOf q := by
  obtain ⟨x, hx⟩ : ∃ x : Ptr, x = (c.sys.top + 1 : Nat) := ⟨_, rfl⟩
  have hpos : nil < x := hx ▸ Int.natCast_pos.mpr (Nat.succ_pos _)
  have hnew : ¬ c.sys.Live x := fun hl =>
    absurd (Int.ofNat_le.mp (hx ▸ le_top (.inl hl))) (Nat.not_succ_le_self _)
  let o : Obj := ⟨nil, xTypePairObj, xObjFlagNone, [], [nil, nil]⟩
  have h₁ := h.newLocal (o := o) hpos hnew
  obtain ⟨cell, hc, hu, -⟩ := h₁.rootSlot hb
  have hslot := xHeapRootSlot_run (h₁.base b hb).tree.isSet hc
  have hpush := xHeapRootPush_run hu ((live_place hpos (o := o)).mpr (.inl rfl))
  have hroots : ∀ b' ∈ c.bases, x ∉ c.roots b' := fun b' hb' hm =>
    hnew (h.chain.local_live ((h.base b' hb').subset hm))
  obtain ⟨t', k', h₂⟩ := h₁.rootPush hb (.head _) hroots hslot hpush
  refine ⟨x, _, _, t', k', .newLocal hpos hnew BitVec.zero_and, .rootPush hb (.head _) hroots hslot
    hpush, h₂, hnew, rfl, rfl, rfl, rfl, fun q => ?_, ?_, fun q hq => ⟨?_, ?_⟩⟩
  · rw [live_setUnit, live_setHeap, live_place hpos]
  · rw [flagsOf_setUnit, flagsOf_setHeap, flagsOf_place hpos, if_pos rfl]
  · rw [typeOf_setUnit, typeOf_setHeap, typeOf_place hpos, if_neg hq]
  · rw [flagsOf_setUnit, flagsOf_setHeap, flagsOf_place hpos, if_neg hq]

/-- An object, a registered pair and a second base are made on a new base. -/
theorem exists_twoBases : ∃ (c₀ c : Client) (p b x : Ptr) (L : List Ptr)
    (t : Ptr → Cells Word) (k : Ptr → Kept),
    Start (.plain fun _ => true) .standard c₀ ∧
    ReflTransGen (fun c c' => Mutate (.plain fun _ => true) 0 c c' ∨
      Collect (.plain fun _ => true) c c') c₀ c ∧
    HeapInv c L t k ∧ c.bases = [b, c.root] ∧ c.roots c.root = [x] ∧ p ∈ L ∧ b ∈ L ∧
    c.sys.flagsOf p = xObjFlagNone ∧ c.sys.flagsOf b = xObjFlagNone ∧
    ∀ q, c.sys.flagsOf q &&& xObjFlagOwn = 0 := by
  obtain ⟨c₀, hs, hloc⟩ := Start.exists (.plain fun _ => true) .standard
    (fun _ _ _ => rfl) rfl rfl
  obtain ⟨L, t, k, h⟩ := hs.inv
  have hroot := h.base_live h.root_mem
  -- The object.
  obtain ⟨p, a, s₁, hrun, hm, hbare₁, hfp₁⟩ := xObjMake_granted (.plain fun _ => true)
    xTypeAtomObj xObjFlagNone [41] hs.bare rfl (by decide)
  have hmake : ∀ F, Mutate (.plain fun _ => true) F c₀ { c₀ with sys := s₁ } := fun F =>
    .make h.root_mem BitVec.zero_and hrun
  obtain ⟨L₁, t₁, k₁, h₁⟩ := (hmake 0).inv h
  have hpl₁ : s₁.Live p := (hm.live p).mpr (.inl rfl)
  -- The pair.
  obtain ⟨x, c₂, c₃, t₃, k₃, hst₂, hst₃, h₃, hx, e₁, e₂, e₃, e₄, hlive₃, hfx, hold⟩ :=
    h₁.exists_registered (.plain fun _ => true) 0 (b := c₀.root) h.root_mem
  have hrx : c₀.root ≠ x := fun e => hx (e ▸ (hm.live _).mpr (.inr hroot))
  have hpx : p ≠ x := fun e => hx (e ▸ hpl₁)
  have hpl₃ : c₃.sys.Live p := (hlive₃ p).mpr (.inr hpl₁)
  have hbare₃ : c₃.sys.Bare c₃.root := by
    rw [e₁]
    refine hbare₁.imp_right fun ⟨hl, ht⟩ => ⟨(hlive₃ _).mpr (.inr hl), ?_⟩
    exact (hold _ hrx).1.trans ht
  have hown₃ : ∀ q, c₃.sys.flagsOf q &&& xObjFlagOwn = 0 := fun q => by
    by_cases e : q = x
    · rw [e, hfx]
      rfl
    · rw [(hold q e).2]
      exact (hmake _).flags_own h (hs.flags_own hloc) q
  -- The base.
  obtain ⟨b, ab, new, tb, s₄, hrunb, hmb⟩ := xBaseMake_bare (.plain fun _ => true) .standard
    hbare₃ rfl
  have hbm : ∀ F, Mutate (.plain fun _ => true) F c₃ { c₃ with
      sys := s₄, bases := b :: c₃.bases, roots := Function.update c₃.roots b [] } := fun F =>
    .baseMake h₃.root_mem (fun _ _ _ => rfl) (.inl rfl) (.inl rfl) hrunb
  obtain ⟨L₄, t₄, k₄, h₄⟩ := (hbm 0).inv h₃
  have hbr : c₃.root ≠ b := fun e => hmb.new_base (e ▸ h₃.base_live h₃.root_mem)
  refine ⟨c₀, _, p, b, x, L₄, t₄, k₄, hs,
    (((ReflTransGen.single (.inl (hmake 0))).tail (.inl hst₂)).tail (.inl hst₃)).tail
      (.inl (hbm 0)), h₄, ?_, ?_, ?_, ?_, ?_, ?_, (hbm _).flags_own h₃ hown₃⟩
  · exact congrArg (b :: ·) (show c₃.bases = [c₃.root] by rw [e₁, e₂, hs.bases])
  · change Function.update c₃.roots b [] c₃.root = [x]
    rw [Function.update_of_ne hbr, e₁, e₄, Function.update_self, hs.roots]
  · refine h₄.chain.mem_of_live ((hmb.live p).mpr (.inr hpl₃)) (fun e => ?_) fun hl => ?_
    · exact hm.new (e.trans e₁ ▸ hroot)
    · rw [e₃, hloc] at hl
      exact hpx (List.mem_singleton.mp hl)
  · exact h₄.chain.mem_of_live ((hmb.live b).mpr (.inl (.head _))) hbr.symm fun hl =>
      hmb.new_base (h₃.chain.local_live hl)
  · exact ((hmb.flagsOf_old hpl₃).trans (hold p hpx).2).trans hfp₁
  · exact hmb.flagsOf_base (extraOf_of_not_full hbare₃.not_full)

/-- A sweep frees the object and the second base. -/
theorem heap_wellFormed_standard : ∃ (c₀ c c' : Client) (p b x : Ptr),
    Start (.plain fun _ => true) .standard c₀ ∧
    ReflTransGen (fun c c' => Mutate (.plain fun _ => true) 0 c c' ∨
      Collect (.plain fun _ => true) c c') c₀ c ∧
    c.OnChain p ∧ c.bases = [b, c.root] ∧ c.roots c.root = [x] ∧
    Collect (.plain fun _ => true) c c' ∧ ¬ c'.sys.Live p ∧ c'.bases = [c'.root] ∧
    c'.roots c'.root = [x] ∧ c'.WellFormed := by
  obtain ⟨c₀, c, p, b, x, L, t, k, hs, hr, h, hbases, hroots, hp, hb, hfp, hfb, hown⟩ :=
    exists_twoBases
  obtain ⟨s', fn, hrun, hsw, h'⟩ := h.sweepRoot (F := xObjFlagMark) Env.plain_inert (by decide)
    (.of_flags hown)
  have hsweep : Collect (.plain fun _ => true) c { c with
      sys := s', bases := c.bases.filter fun b => decide (s'.Live b) } :=
    .sweep h.root_mem (by decide) (.of_flags hown) hrun
  have hdead : ∀ q ∈ L, c.sys.flagsOf q = xObjFlagNone → ¬ s'.Live q := fun q hq hf hl => by
    have hk := ((hsw.live q).mp hl).2 hq
    rw [kept, hf] at hk
    cases hk
  refine ⟨c₀, c, _, p, b, x, hs, hr, h.onChain.mpr hp, hbases, hroots, hsweep, hdead p hp hfp, ?_,
    hroots, heap_wellFormed Env.plain_inert hs (hr.tail (.inr hsweep))⟩
  change c.bases.filter (fun b => decide (s'.Live b)) = [c.root]
  rw [hbases, List.filter_cons_of_neg (by simpa using hdead b hb hfb),
    List.filter_cons_of_pos (by simpa using h'.base_live h'.root_mem), List.filter_nil]

end XExpr
