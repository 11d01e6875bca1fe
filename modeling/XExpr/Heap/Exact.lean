import XExpr.Heap.Cycle
import XExpr.Heap.WellFormed

/-!
# Collection is exact

* `collect_exact`: in every run of allocations, mutations and collections, a collection returns,
  and it frees exactly the objects of the chain that are not shared and that neither its roots nor
  the registered objects reach.
* `Cycle.inv`: a collection keeps the heap invariant, and leaves no mark on the chain.
-/

namespace XExpr

open Sys Chain Relation

variable {env : Env} {cfg : XBaseT} {F : Flags} {c c' c₀ : Client} {L l l₁ l₂ : List Ptr}
  {t : Ptr → Cells Word} {k : Ptr → Kept} {p : Ptr} {s' : Sys}

/-! ## A collection -/

namespace Client

/-- The roots `l` or the registered objects reach `p`. -/
def Reaches (env : Env) (c : Client) (l : List Ptr) (p : Ptr) : Prop :=
  ∃ r ∈ l ++ c.roots c.root,
    ReflTransGen (c.sys.Edge env c.root (c.sys.markHook c.root)) r p

/-- A collection has to keep `p`. -/
def Survives (env : Env) (c : Client) (l : List Ptr) (p : Ptr) : Prop :=
  c.sys.flagsOf p &&& xObjFlagShared ≠ 0 ∨ c.Reaches env l p

/-- What a collection with the roots `l` relies on. -/
structure CycleReady (env : Env) (c : Client) (l : List Ptr) : Prop where
  roots : ∀ r ∈ l, c.OnChain r
  walkable : ∀ r ∈ l ++ c.roots c.root, c.sys.Walkable env c.root (c.sys.markHook c.root) r
  registered : ∀ p, c.Reaches env l p → ¬ c.OnChain p →
    (∃ q, c.sys.Edge env c.root (c.sys.markHook c.root) p q) → p ∈ c.roots c.root
  own : c.OwnReady 0

/-- `s'` is the memory after a collection with the roots `l`. -/
structure Collected (env : Env) (c : Client) (F : Flags) (l : List Ptr) (s' : Sys) : Prop where
  /-- Nothing else is freed, and nothing else of the chain is there. -/
  live : ∀ p, s'.Live p ↔ c.sys.Live p ∧ (c.OnChain p → c.Survives env l p)
  /-- The chain keeps its order. -/
  chain : ∃ l₁ l₂, Seg c.sys.next (c.sys.next c.root) l₁ nil ∧
    Seg s'.next (s'.next c.root) l₂ nil ∧ l₂.Sublist l₁ ∧
    (∀ p, p ∈ l₁ ↔ c.OnChain p) ∧ ∀ p, p ∈ l₂ ↔ p ∈ l₁ ∧ c.Survives env l p
  /-- Each object that does not survive is given back once, at its own address. -/
  freed : ∃ (fn : Word) (dead : List Ptr), dead.Nodup ∧
    (∀ p, p ∈ dead ↔ c.OnChain p ∧ ¬ c.Survives env l p) ∧
    s'.trace = dead.foldl (fun tr p => freeEvents fn p p ++ tr) c.sys.trace ∧
    ∀ p i, s'.Live p → s'.unit p i =
      if c.sys.Full c.root ∧ c.sys.fieldObj c.root .allocCount = some p ∧ i = 0 then
        (c.sys.unit p 0).map (· - (dead.length : Int))
      else c.sys.unit p i
  typeOf : ∀ p, s'.Live p → s'.typeOf p = c.sys.typeOf p
  flags : ∀ p, s'.Live p → s'.flagsOf p &&& ~~~F = c.sys.flagsOf p &&& ~~~F
  /-- No mark is left on the chain. -/
  clean : ∀ p, c.OnChain p → s'.Live p → s'.flagsOf p &&& F = 0
  /-- The other links are untouched. -/
  next : ∀ p, c.sys.Live p → ¬ c.OnChain p → p ≠ c.root → s'.next p = c.sys.next p

end Client

/-! ## The invariant -/

/-- The heap invariant, with no bit of `F` on the chain. -/
structure CleanInv (F : Flags) (c : Client) (L : List Ptr) (t : Ptr → Cells Word)
    (k : Ptr → Kept) : Prop where
  heap : HeapInv c L t k
  clean : ∀ p ∈ L, c.sys.flagsOf p &&& F = 0

/-- After the mark phase, the sweep keeps what survives. -/
theorem CleanInv.phase (h : CleanInv F c L t k) (hF : F ≠ 0)
    (hl : c.CycleReady env (l₁ ++ l₂)) :
    ∃ s₁, markPhase env c.root F l₁ l₂ c.sys = .ok () s₁ ∧
      PhaseMarked env c.sys c.root (c.sys.markHook c.root) F l₁ (c.roots c.root) l₂ s₁ ∧
      ∀ p ∈ L, s₁.kept F p = true ↔ c.Survives env (l₁ ++ l₂) p := by
  have hbase := h.heap.base c.root h.heap.root_mem
  have hchain : ∀ r ∈ l₁ ++ l₂, r ∈ L := fun r hr => h.heap.onChain.mp (hl.roots r hr)
  have hnil : nil ∉ L := fun hm => not_live_nil (h.heap.chain.mem_live (.tail _ hm))
  have hreach : ∀ p, c.Reaches env (l₁ ++ l₂) p ↔ ∃ r ∈ l₁ ++ c.roots c.root ++ l₂,
      ReflTransGen (c.sys.Edge env c.root (c.sys.markHook c.root)) r p := fun p => by
    refine exists_congr fun r => and_congr_left fun _ => ?_
    simp only [List.mem_append]
    tauto
  obtain ⟨s₁, hrun, hm⟩ := markPhase_run env l₁ l₂ hF hbase.tree.isSet h.heap.markHook
    (hbase.tree.fieldObj (f := .heapRootChain) rfl) hbase.roots hbase.nodup
    (fun q hq => h.heap.chain.local_live (hbase.subset hq))
    (fun hm => hnil (hchain nil (List.mem_append_left _ hm)))
    (fun hm => hnil (hchain nil (List.mem_append_right _ hm)))
    fun q hq => hl.walkable q (by
      simp only [List.mem_append] at hq ⊢
      tauto)
  refine ⟨s₁, hrun, hm, fun p hp => ?_⟩
  have hpK : p ∉ c.roots c.root := fun hK =>
    h.heap.chain.apart p (hbase.subset hK) (.tail _ hp)
  have hunmarked : ∀ p ∈ L, p ∉ c.sys.marks F := fun p hp (e : _ = F) =>
    hF (e.symm.trans (h.clean p hp))
  rw [hm.kept hF (h.heap.chain.mem_live (.tail _ hp)) hpK (h.clean p hp),
    hm.mem_marks hunmarked (fun x hx hxL hxK q he => hxK (hl.registered x ((hreach x).mpr hx)
      (fun hc => hxL (h.heap.onChain.mp hc)) ⟨q, he⟩)) hp, ← hreach]
  exact or_comm

/-- Marking does not change what the owning objects own. -/
theorem PhaseMarked.ownReady {s₁ : Sys} {b : Ptr} {fn : Word} {K : List Ptr}
    (hm : PhaseMarked env c.sys b fn F l₁ K l₂ s₁) (hsh : F &&& xObjFlagShared = 0)
    (hown : F &&& xObjFlagOwn = 0) (ho : c.OwnReady 0) :
    Client.OwnReady { c with sys := s₁ } F := by
  have hk : ∀ p, s₁.kept F p = false → c.sys.kept 0 p = false := fun p hk => by
    rw [kept_eq_false, not_or, hm.flags_and hsh] at hk
    rw [kept_eq_false, not_or]
    exact ⟨fun h => h.1 rfl, hk.2⟩
  have howns : ∀ p w, s₁.Owns p w ↔ c.sys.Owns p w := fun p w => by
    simp only [Owns, hm.flags_and hown, hm.same.unit]
  constructor
  · intro p hp hr hloc hkept hf
    rw [show Client.sys { c with sys := s₁ } = s₁ from rfl, hm.flags_and hown] at hf
    obtain ⟨w, hw, hb⟩ := ho.block p (hm.same.live.mp hp) hr hloc (hk p hkept) hf
    refine ⟨w, ?_, hb.imp id fun hb => ?_⟩
    · rw [show Client.sys { c with sys := s₁ } = s₁ from rfl, hm.same.unit]
      exact hw
    · exact (congrArg (Finmap.lookup w) hm.block).trans hb
  · intro p q w hkp hkq hne h₁ h₂
    exact ho.apart p q w (hk p hkp) (hk q hkq) hne ((howns p w).mp h₁) ((howns q w).mp h₂)

/-- A collection returns, and collects what does not survive. -/
theorem CleanInv.collect (h : CleanInv F c L t k) (hin : env.FreeInert) (hF : F ≠ 0)
    (hsh : F &&& xObjFlagShared = 0) (hown : F &&& xObjFlagOwn = 0)
    (hl : c.CycleReady env (l₁ ++ l₂)) :
    ∃ s' L', collect env c.root F l₁ l₂ c.sys = .ok () s' ∧
      c.Collected env F (l₁ ++ l₂) s' ∧
      CleanInv F { c with
        sys := s', bases := c.bases.filter fun b => decide (s'.Live b) } L' t k := by
  obtain ⟨s₁, hrun₁, hm, hkept⟩ := h.phase hF hl
  have h₁ : HeapInv { c with sys := s₁ } L t k :=
    h.heap.flags hm.same hm.block hm.trace fun q _ hq => by rwa [hm.flags_and hsh]
  obtain ⟨s', fn, hrun₂, hs, hi⟩ := h₁.sweepRoot hin hsh (hm.ownReady hsh hown hl.own)
  have hroot : s₁.Live c.root := hm.same.live.mpr (h.heap.base_live h.heap.root_mem)
  have hrun : XExpr.collect env c.root F l₁ l₂ c.sys = .ok () s' := by
    unfold XExpr.collect
    rw [Prog.bind_of_ok hrun₁, Prog.bind_of_ok (xObjHeap_eq hroot)]
    exact Prog.bind_of_ok hrun₂
  have hmem' : ∀ p, p ∈ L.filter (s₁.kept F) ↔ p ∈ L ∧ c.Survives env (l₁ ++ l₂) p := fun p => by
    rw [List.mem_filter]
    exact and_congr_right fun hp => hkept p hp
  have hlive : ∀ p, s'.Live p ↔ c.sys.Live p ∧ (c.OnChain p → c.Survives env (l₁ ++ l₂) p) :=
    fun p => by
      rw [hs.live, hm.same.live]
      refine and_congr_right fun _ => ?_
      rw [h.heap.onChain]
      exact forall_congr' fun hp => hkept p hp
  have hclean : ∀ p ∈ L.filter (s₁.kept F), s'.flagsOf p &&& F = 0 := fun p hp => by
    obtain ⟨hpL, hk⟩ := List.mem_filter.mp hp
    rw [hs.flags_mem p hpL hk, Flags.clear_and_self]
  refine ⟨s', _, hrun, ?_, hi, hclean⟩
  constructor
  case live => exact hlive
  case chain =>
    refine ⟨L, _, h.heap.chain.chain, hi.chain.chain, List.filter_sublist,
      fun p => h.heap.onChain.symm, hmem'⟩
  case freed =>
    have hfree : (fun tr p => freeEvents fn (s₁.freeAddr (s₁.extraOf c.root) p) p ++ tr) =
        fun tr p => freeEvents fn p p ++ tr := by
      funext tr p
      rw [h₁.extraOf h.heap.root_mem, freeAddr_zero]
    refine ⟨fn, L.filter fun p => !s₁.kept F p,
      ((List.nodup_cons.mp h.heap.chain.nodup).2).filter _, fun p => ?_, ?_, fun p i hp => ?_⟩
    · rw [List.mem_filter, h.heap.onChain]
      refine and_congr_right fun hp => ?_
      rw [← hkept p hp]
      simp
    · rw [hs.trace, hm.trace, hfree]
    · rw [hs.unit p i hp]
      have hfull : s₁.Full c.root ↔ c.sys.Full c.root := by
        simp only [Full, hm.same.typeOf, hm.same.isSet]
      have hobj : s₁.fieldObj c.root .allocCount = c.sys.fieldObj c.root .allocCount := by
        rw [fieldObj, hm.same.unit]
        rfl
      simp only [hfull, hobj, hm.same.unit]
  case typeOf => intro p hp; rw [hs.typeOf p hp, hm.same.typeOf]
  case flags =>
    intro p hp
    by_cases hL : p ∈ L
    · have hk := ((hs.live p).mp hp).2 hL
      rw [hs.flags_mem p hL hk, Flags.clear_clear_self, hm.others]
    · rw [hs.flags_notMem p hL, hm.others]
  case clean =>
    intro p hp hl'
    have hp₂ := h.heap.onChain.mp hp
    exact hclean p ((hmem' p).mpr ⟨hp₂, ((hlive p).mp hl').2 hp⟩)
  case next =>
    intro p _ hp hr
    rw [hs.next p hr fun hm => hp (h.heap.onChain.mpr hm), hm.same.next]

/-! ## Runs -/

/-- A collection of the root base as a step. -/
inductive Cycle (env : Env) (F : Flags) : Client → Client → Prop
  | collect {c : Client} {l₁ l₂ : List Ptr} {s' : Sys} (hl : c.CycleReady env (l₁ ++ l₂))
      (h : collect env c.root F l₁ l₂ c.sys = .ok () s') :
      Cycle env F c { c with sys := s', bases := c.bases.filter fun b => decide (s'.Live b) }

theorem Mutate.clean (h : CleanInv F c L t k) (hsh : F &&& xObjFlagShared = 0)
    (hs : Mutate env F c c') : ∃ L' t' k', CleanInv F c' L' t' k' := by
  obtain ⟨L', t', k', hi⟩ := hs.inv h.heap
  refine ⟨L', t', k', hi, fun p hp => ?_⟩
  rcases hs.flags h.heap hsh p (hi.chain.mem_live (.tail _ hp)) with ⟨hl, hf⟩ | hf
  · rw [hf]
    refine h.clean p ?_
    rcases (h.heap.chain.live p).mp hl with hm | hm
    · refine (List.mem_cons.mp hm).resolve_left fun e => ?_
      rw [← hs.root_eq] at e
      exact (List.nodup_cons.mp hi.chain.nodup).1 (e ▸ hp)
    · exact absurd (List.mem_cons_of_mem _ hp) (hi.chain.apart p (hs.locals_subset hm))
  · exact hf

theorem Start.clean (h : Start env cfg c) (hsh : F &&& xObjFlagShared = 0) :
    ∃ L t k, CleanInv F c L t k := by
  obtain ⟨L, t, k, hi⟩ := h.inv
  refine ⟨L, t, k, hi, fun p hp => ?_⟩
  obtain ⟨s, hlive, -, -, -, -, hrun⟩ := h.before
  obtain ⟨a, new, t₀, hm⟩ := xBaseMake_ok hrun
  have hpl := (hm.live p).mp (hi.chain.mem_live (.tail _ hp))
  rcases hpl with hn | hl
  · have hne : p ≠ c.root := fun e => (List.nodup_cons.mp hi.chain.nodup).1 (e ▸ hp)
    rw [hm.flagsOf_new ((List.mem_cons.mp hn).resolve_left hne), BitVec.and_comm, hsh]
  · exact absurd (List.mem_cons_of_mem _ hp) (hi.chain.apart p ((hlive p).mp hl))

theorem collect_exact (hin : env.FreeInert) (hF : F ≠ 0) (hsh : F &&& xObjFlagShared = 0)
    (hown : F &&& xObjFlagOwn = 0) (hs : Start env cfg c₀)
    (hr : ReflTransGen (fun c c' => Mutate env F c c' ∨ Cycle env F c c') c₀ c)
    (hl : c.CycleReady env (l₁ ++ l₂)) :
    ∃ s', collect env c.root F l₁ l₂ c.sys = .ok () s' ∧ c.Collected env F (l₁ ++ l₂) s' := by
  have hinv : ∃ L t k, CleanInv F c L t k := by
    refine Prog.invariant (I := fun c => ∃ L t k, CleanInv F c L t k) ?_ hr (hs.clean hsh)
    rintro c c' ⟨L, t, k, h⟩ (hm | ⟨hl, hrun⟩)
    · exact hm.clean h hsh
    · obtain ⟨s', L', hrun', -, hi⟩ := h.collect hin hF hsh hown hl
      cases hrun.symm.trans hrun'
      exact ⟨L', t, k, hi⟩
  obtain ⟨L, t, k, h⟩ := hinv
  obtain ⟨s', L', hrun, hc, -⟩ := h.collect hin hF hsh hown hl
  exact ⟨s', hrun, hc⟩

/-! ## A collection of two atoms -/

/-- Of two atoms, the one that is a root survives. -/
theorem collect_exact_standard : ∃ (c : Client) (p q : Ptr) (s' : Sys), c.OnChain p ∧ c.OnChain q ∧
    collect (.plain fun _ => true) c.root xObjFlagMark [p] [] c.sys = .ok () s' ∧
    s'.Live p ∧ ¬ s'.Live q := by
  obtain ⟨c₀, hs, hloc⟩ := Start.exists (.plain fun _ => true) .standard
    (fun _ _ _ => rfl) rfl rfl
  obtain ⟨L, t, k, h⟩ := hs.inv
  have hroot := h.base_live h.root_mem
  obtain ⟨p, a, s₁, hrun₁, hm₁, hbare, hfp₁⟩ := xObjMake_granted (.plain fun _ => true)
    xTypeAtomObj xObjFlagNone [41] hs.bare rfl (by decide)
  obtain ⟨q, a', s₂, hrun₂, hm₂, -, hfq⟩ := xObjMake_granted (.plain fun _ => true)
    xTypeAtomObj xObjFlagNone [42] hbare rfl (by decide)
  let c : Client := { c₀ with sys := s₂ }
  have hr : ReflTransGen (fun c c' => Mutate (.plain fun _ => true) xObjFlagMark c c' ∨
      Cycle (.plain fun _ => true) xObjFlagMark c c') c₀ c :=
    (ReflTransGen.single (.inl (.make h.root_mem (by decide) hrun₁))).tail
      (.inl (.make (c := { c₀ with sys := s₁ }) h.root_mem (by decide) hrun₂))
  have hpl : s₁.Live p := (hm₁.live p).mpr (.inl rfl)
  have hpq : p ≠ q := fun e => hm₂.new (e ▸ hpl)
  have hfp : s₂.flagsOf p = xObjFlagNone := (hm₂.flagsOf_old p hpq).trans hfp₁
  have hflags : ∀ x, s₂.flagsOf x &&& xObjFlagOwn = 0 := by
    intro x
    by_cases hxq : x = q
    · rw [hxq, hfq]; rfl
    by_cases hxp : x = p
    · rw [hxp, hfp]; rfl
    rw [hm₂.flagsOf_old x hxq, hm₁.flagsOf_old x hxp]
    exact hs.flags_own hloc x
  have htr : outstanding s₂.trace = q :: p :: outstanding c₀.sys.trace := by
    rw [hm₂.trace, hm₁.trace]
    rfl
  have hne : ∀ x, ¬ c₀.sys.Live x → x ≠ c₀.root := fun x hx e => hx (e ▸ hroot)
  have hq₀ : ¬ c₀.sys.Live q := fun hl => hm₂.new ((hm₁.live q).mpr (.inr hl))
  have hcp : c.OnChain p := ⟨by rw [htr]; simp, hne p hm₁.new⟩
  have hcq : c.OnChain q := ⟨by rw [htr]; simp, hne q hq₀⟩
  have htp : s₂.typeOf p ≠ xTypePairObj := by
    rw [hm₂.typeOf_old p hpq, hm₁.typeOf_new]
    decide
  have hroots : [p] ++ c.roots c.root = [p] := by
    rw [show c.roots c.root = [] from hs.roots]
    rfl
  have hR : ∀ x, c.Reaches (.plain fun _ => true) ([p] ++ []) x ↔ x = p := by
    intro x
    unfold Client.Reaches
    rw [List.append_nil, hroots]
    simp only [List.mem_singleton, exists_eq_left]
    exact ⟨reach_plain htp, fun e => e ▸ .refl⟩
  have hl : c.CycleReady (.plain fun _ => true) ([p] ++ []) := by
    refine ⟨fun r hr => ?_, fun r hr => ?_, fun x hx hc => ?_, .of_flags hflags⟩
    · rw [List.append_nil, List.mem_singleton] at hr
      rw [hr]; exact hcp
    · rw [List.append_nil, hroots, List.mem_singleton] at hr
      rw [hr]
      exact walkable_plain ((hm₂.live p).mpr (.inr hpl)) htp
    · rw [(hR x).mp hx] at hc
      exact absurd hcp hc
  obtain ⟨s', hrun, hcol⟩ := collect_exact Env.plain_inert (by decide) (by decide)
    (by decide) hs hr hl
  refine ⟨c, p, q, s', hcp, hcq, hrun, (hcol.live p).mpr ⟨(hm₂.live p).mpr (.inr hpl), fun _ =>
    .inr ((hR p).mpr rfl)⟩, fun hl => ?_⟩
  rcases ((hcol.live q).mp hl).2 hcq with hsh | hre
  · exact hsh (by rw [show c.sys.flagsOf q = _ from hfq]; rfl)
  · exact hpq ((hR q).mp hre).symm

end XExpr
