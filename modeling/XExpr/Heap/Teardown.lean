import XExpr.Heap.WellFormed

/-!
# Teardown

`x_heap_sweep(base, base, X_OBJ_FLAG_NONE)` frees a base with its chain. The base goes first, and
stays the predecessor of the walk until a node is kept: a shared one. The next node to be freed is
linked out by a store into that predecessor.

* `Tearable`: a base with its chain, of which all that is not shared can be given back.
* `Tearable.returns`: if the first node of the chain is shared, or there is none, the sweep frees
  the base and the other nodes, each once.
* `Tearable.dangles`: otherwise it stores into the base after that was freed.
* `teardown_iff`: so it is for every base that the library makes, and whatever is made on it.
-/

namespace XExpr

open Sys Chain Relation

/-- The base `b`, not shared and without extra metadata units, with the chain `l` behind it. What is
not shared can be given back, the base included. -/
structure Tearable (s : Sys) (b : Ptr) (t : Cells Word) (cell : Field → Layout Word)
    (l : List Ptr) : Prop where
  base : Accounted s b t cell
  extra : s.extraOf b = 0
  notShared : s.kept 0 b = false
  seg : Seg s.next (s.next b) l nil
  nodup : (b :: l).Nodup
  live : ∀ q ∈ b :: l, s.Live q
  back : Returnable s 0 0 (b :: l)

/-- The free hook leaves the memory alone when it is called on an object of `l` that is what it was,
with the base or with `NULL`. -/
def Env.InertFor (env : Env) (fn : Word) (b : Ptr) (s : Sys) (l : List Ptr) : Prop :=
  ∀ q ∈ l, s.kept 0 q = false → env.InertOn fn b s q ∧ env.InertOn fn nil s q

/-- `s'` is `s` without the base, the nodes of its chain that are not shared, their blocks and what
they owned, each given back once. -/
structure TornDown (s : Sys) (b : Ptr) (fn : Word) (l : List Ptr) (s' : Sys) : Prop where
  live : ∀ q, s'.Live q ↔ s.Live q ∧ (q ∈ b :: l → s.kept 0 q = true)
  block : ∀ a, s'.block a =
    if ∃ p ∈ b :: l, s.kept 0 p = false ∧ (a = p ∨ s.Owns p a) then none else s.block a
  trace : s'.trace = ((b :: l).filter fun p => !s.kept 0 p).foldl
    (fun tr p => freeEvents fn p p ++ tr) s.trace

section Teardown

variable {env : Env} {s s₁ s' : Sys} {b p q : Ptr} {t : Cells Word}
  {cell : Field → Layout Word} {fn : Word} {l : List Ptr} {n : Nat}

theorem accounted_nil : Accounted s nil t cell :=
  ⟨.inl (.inl rfl), fun h => absurd h not_full_nil, fun h => absurd h not_full_nil,
    fun h => absurd h not_full_nil⟩

/-- The memory after the base was freed. -/
def FreedBase (s : Sys) (b : Ptr) (fn : Word) (s₁ : Sys) : Prop :=
  Freed ((s.hooked fn b).setHeap b (s.next b)) b b b s₁

theorem FreedBase.live_iff (hs : FreedBase s b fn s₁) : s₁.Live q ↔ q ≠ b ∧ s.Live q := by
  rw [hs.live, live_setHeap, live_hooked]

theorem FreedBase.flags_eq (hs : FreedBase s b fn s₁) (hq : q ≠ b) :
    s₁.flagsOf q = s.flagsOf q := by
  rw [hs.flagsOf q hq, flagsOf_setHeap, flagsOf_hooked]

theorem FreedBase.block_eq (hs : FreedBase s b fn s₁) (a : Ptr) :
    s₁.block a = if a = b ∨ s.Owns b a then none else s.block a := by
  rw [hs.block, block_setHeap, block_hooked]
  refine if_congr (or_congr_right (owns_congr ?_ ?_)) rfl rfl
  · rw [flagsOf_setHeap, flagsOf_hooked]
  · rw [unit_setHeap, unit_hooked]

namespace Tearable

theorem base_live (h : Tearable s b t cell l) : s.Live b := h.live b (.head _)

/-- The base is freed. -/
theorem freeBase (h : Tearable s b t cell l) (fn : Word) :
    ∃ s₁, xObjFree b b ((s.hooked fn b).setHeap b (s.next b)) = .ok () s₁ ∧
      FreedBase s b fn s₁ := by
  have hunit : ((s.hooked fn b).setHeap b (s.next b)).unit = s.unit := by
    funext q i
    rw [unit_setHeap, unit_hooked]
  have hflags : ∀ q, ((s.hooked fn b).setHeap b (s.next b)).flagsOf q = s.flagsOf q := fun q => by
    rw [flagsOf_setHeap, flagsOf_hooked]
  obtain ⟨hacc, hfull, hextra, hcount⟩ := h.base.step ((s.hooked fn b).setHeap b (s.next b))
    (fun hl => live_setHeap.mpr (live_hooked.mpr hl)) (by rw [typeOf_setHeap, typeOf_hooked])
    (fun _ => by rw [hunit]) (fun hf => (h.base.tree hf).congr fun _ _ _ _ hu => by rwa [hunit])
    fun hf q hq => by rw [hflags]; exact h.base.shared hf q hq
  have hready := hacc.freeReady
  rw [hextra, h.extra] at hready
  have hblock : ∀ a, ((s.hooked fn b).setHeap b (s.next b)).block a = s.block a := fun a => by
    rw [block_setHeap, block_hooked]
  have haddr : ((s.hooked fn b).setHeap b (s.next b)).freeAddr 0 b = b := freeAddr_zero
  have hb := h.back.placed b (.head _) h.notShared
  rw [freeAddr_zero] at hb
  have hown := h.back.own b (.head _) h.notShared
  have hc : ((s.hooked fn b).setHeap b (s.next b)).Full b →
      ((s.hooked fn b).setHeap b (s.next b)).fieldObj b .allocCount ≠ some b := fun hf hc => by
    -- The count is in a node of the tree, which the base is not.
    have hf := hfull.mp hf
    rw [hcount hf] at hc
    exact (List.nodup_cons.mp (h.base.tree hf).nodup).1 (h.base.count_mem hf hc)
  obtain ⟨s₁, hrun, hfreed⟩ := xObjFree_run hready (live_setHeap.mpr (live_hooked.mpr h.base_live))
    (by simpa only [hflags, hunit, hblock] using hown) hc (by rw [haddr]; exact hb.1)
    (by rw [haddr, hblock]; exact hb.2)
  rw [haddr] at hfreed
  exact ⟨s₁, hrun, hfreed⟩

theorem ne_base (h : Tearable s b t cell l) (hq : q ∈ l) : q ≠ b :=
  fun e => (List.nodup_cons.mp h.nodup).1 (e ▸ hq)

section Freed

variable (h : Tearable s b t cell l) (hs : FreedBase s b fn s₁)

include h hs

theorem freed_next (hq : q ≠ b) : s₁.next q = s.next q := by
  rw [hs.next q hq, next_setHeap (live_hooked.mpr h.base_live), if_neg hq, next_hooked]

/-- Another node that is not shared is what it was. -/
theorem freed_intact (hq : q ∈ l) (hk : s.kept 0 q = false) : s.Intact q s₁ := by
  exact hs.intact h.base_live (h.live q (.tail _ hq)) (h.ne_base hq) (h.ne_base hq)
    (h.base.count_ne hk)

theorem freed_seg : Seg s₁.next (s.next b) l nil :=
  h.seg.congr fun _ hq => h.freed_next hs (h.ne_base hq)

theorem freed_back : Returnable s₁ 0 0 l := by
  refine h.back.free (List.nodup_cons.mp h.nodup).1 h.live h.notShared
    (fun q hq => hs.flags_eq (h.ne_base hq)) (fun q hq hk => (h.freed_intact hs hq hk).unit 0)
    fun a => ?_
  rw [freeAddr_zero]
  exact hs.block_eq a

/-- The nodes behind a kept one can be swept without a base. -/
theorem freed_sweepable {l' : List Ptr} (hl : l = p :: l') :
    Sweepable s₁ nil t cell 0 p (s₁.next p) l' := by
  subst hl
  obtain ⟨hpl, hn⟩ := List.nodup_cons.mp (List.nodup_cons.mp h.nodup).2
  have hlive : ∀ q ∈ p :: l', s₁.Live q := fun q hq =>
    hs.live_iff.mpr ⟨h.ne_base hq, h.live q (.tail _ hq)⟩
  have hx : s₁.extraOf nil = 0 := extraOf_of_not_full not_full_nil
  have hr := h.freed_back hs
  rw [← hx] at hr
  exact {
    base := accounted_nil
    seg := (h.freed_seg hs).2
    nodup := hn
    live := fun q hq => hlive q (.tail _ hq)
    prev_live := hlive p (.head _)
    prev_notMem := hpl
    base_notMem := fun hm => (hlive nil (.tail _ hm)).ne_nil rfl
    placed := fun q hq => hr.placed q (.tail _ hq)
    own := fun q hq => hr.own q (.tail _ hq)
    own_inj := fun q hq r hr' => hr.own_inj q (.tail _ hq) r (.tail _ hr') }

/-- What is gone when the chain was swept after the base was freed. -/
theorem tornDown (hr : Reclaimed s₁ nil 0 fn l s') : TornDown s b fn l s' := by
  have hkept : ∀ q ∈ l, s₁.kept 0 q = s.kept 0 q := fun q hq =>
    kept_congr (hs.flags_eq (h.ne_base hq))
  have hx : s₁.extraOf nil = 0 := extraOf_of_not_full not_full_nil
  constructor
  case live =>
    intro q
    rw [hr.live, hs.live_iff]
    have hb := h.notShared
    constructor
    · rintro ⟨⟨hqb, hl⟩, hq⟩
      refine ⟨hl, fun hm => ?_⟩
      have hm := (List.mem_cons.mp hm).resolve_left hqb
      rw [← hkept q hm]
      exact hq hm
    · rintro ⟨hl, hq⟩
      refine ⟨⟨?_, hl⟩, fun hm => by rw [hkept q hm]; exact hq (.tail _ hm)⟩
      rintro rfl
      rw [hq (.head _)] at hb
      cases hb
  case block =>
    intro a
    simp only [hr.block, hx, freeAddr_zero, hs.block_eq]
    by_cases hb : a = b ∨ s.Owns b a
    · rw [if_pos hb, ite_self, if_pos ⟨b, .head _, h.notShared, hb⟩]
    · rw [if_neg hb]
      refine if_congr ⟨?_, ?_⟩ rfl rfl
      · rintro ⟨q, hq, hk, ha⟩
        rw [hkept q hq] at hk
        have hi := h.freed_intact hs hq hk
        rw [owns_congr hi.flagsOf (hi.unit 0)] at ha
        exact ⟨q, .tail _ hq, hk, ha⟩
      · rintro ⟨q, hq, hk, ha⟩
        rcases List.mem_cons.mp hq with rfl | hq
        · exact absurd ha hb
        · have hi := h.freed_intact hs hq hk
          rw [← owns_congr hi.flagsOf (hi.unit 0)] at ha
          exact ⟨q, hq, (hkept q hq).trans hk, ha⟩
  case trace =>
    have hfilter : (l.filter fun q => !s₁.kept 0 q) = l.filter fun q => !s.kept 0 q :=
      List.filter_congr fun q hq => by rw [hkept q hq]
    rw [hr.trace, hfilter, Freed.trace_hooked hs, List.filter_cons, h.notShared]
    simp only [hx, freeAddr_zero, Bool.not_false, if_true, List.foldl_cons]

end Freed

/-! ## The walk -/

/-- The first pass frees the base. -/
theorem loop (h : Tearable s b t cell l) (hin : env.InertFor fn b s (b :: l)) :
    ∃ s₁, FreedBase s b fn s₁ ∧ sweepLoop env 0 fn (n + 1) b b b s =
      sweepLoop env 0 fn n nil b (s.next b) s₁ := by
  have hb := h.base_live
  obtain ⟨s₁, hrun, hs⟩ := h.freeBase fn
  refine ⟨s₁, hs, ?_⟩
  rw [sweepLoop_unlink (hin b (.head _) h.notShared).1 hb h.notShared hb, Prog.bind_of_ok hrun,
    if_pos rfl]

/-- The sweep of a base from the base on. -/
theorem sweep_eq (h : Tearable s b t cell l) (hfn : s.hookWord .heapFree b = some fn) :
    xHeapSweep env b b 0 s = (do sweepLoop env 0 fn (passes s) b b b; return b : M Ptr) s := by
  rw [xHeapSweep_eq hfn h.base_live, ite_self]

theorem length_lt (h : Tearable s b t cell l) : l.length < s.objs.keys.card :=
  Nat.lt_of_succ_lt_succ (length_lt_passes h.nodup h.live)

/-- A teardown whose walk meets a shared node first, or none, returns. -/
theorem returns (h : Tearable s b t cell l) (hfn : s.hookWord .heapFree b = some fn)
    (hin : env.InertFor fn b s (b :: l)) (hl : ∀ p ∈ l.head?, s.kept 0 p = true) :
    ∃ s', xHeapSweep env b b 0 s = .ok b s' ∧ TornDown s b fn l s' := by
  obtain ⟨s₁, hs, hloop⟩ := h.loop (n := s.objs.keys.card) hin
  have hlen := h.length_lt
  rw [h.sweep_eq hfn, passes]
  rcases l with _ | ⟨p, l⟩
  · obtain ⟨n, hn⟩ := Nat.exists_eq_succ_of_ne_zero hlen.ne'
    have hnil : s.next b = nil := h.seg
    have hrun : sweepLoop env 0 fn (s.objs.keys.card + 1) b b b s = .ok () s₁ := by
      rw [hloop, hnil, hn]
      rfl
    rw [Prog.bind_of_ok hrun]
    exact ⟨s₁, rfl, h.tornDown hs .nil⟩
  · obtain ⟨n, hn⟩ := Nat.exists_eq_succ_of_ne_zero (Nat.ne_zero_of_lt hlen)
    have hp : s.next b = p := h.seg.1
    have hk := hl p rfl
    have hpb := h.ne_base (.head _)
    have hk₁ : s₁.kept 0 p = true := (kept_congr (hs.flags_eq hpb)).trans hk
    have hrest := h.freed_sweepable hs rfl
    have hp₁ := hrest.prev_live
    have hin' : ∀ q ∈ l, (s₁.setFlags p (s₁.flagsOf p &&& ~~~0)).kept 0 q = false →
        env.InertOn fn nil (s₁.setFlags p (s₁.flagsOf p &&& ~~~0)) q := by
      intro q hq hkq
      have hi := intact_setFlags (s₁.flagsOf p &&& ~~~0) hp₁ (hrest.live q hq)
        fun e => hrest.prev_notMem (e ▸ hq)
      rw [kept_congr hi.flagsOf, kept_congr (hs.flags_eq (h.ne_base (.tail _ hq)))] at hkq
      exact (hin q (.tail _ (.tail _ hq)) hkq).2.intact
        ((h.freed_intact hs (.tail _ hq) hkq).trans hi)
    have hlen' : l.length < n := by
      rw [hn, List.length_cons] at hlen
      omega
    obtain ⟨s', hrun, hsw⟩ := sweepLoop_run (F := 0) BitVec.zero_and hin'
      (hrest.clear hp₁ hrest.prev_notMem BitVec.zero_and) next_setFlags hlen'
    have hrun' : sweepLoop env 0 fn (s.objs.keys.card + 1) b b b s = .ok () s' := by
      rw [hloop, hp, hn, sweepLoop_keep hp₁ hk₁, hrun]
    rw [Prog.bind_of_ok hrun']
    exact ⟨s', rfl, h.tornDown hs
      (hsw.toReclaimed.keep hrest.base hp₁ hrest.prev_notMem hrest.live hk₁ BitVec.zero_and)⟩

/-- A teardown whose walk meets a node first that is not shared stores into the freed base. -/
theorem dangles (h : Tearable s b t cell l) (hfn : s.hookWord .heapFree b = some fn)
    (hin : env.InertFor fn b s (b :: l)) (hp : p ∈ l.head?) (hk : s.kept 0 p = false) :
    ∃ s', xHeapSweep env b b 0 s = .error (.fault (.dangling b)) s' := by
  obtain ⟨s₁, hs, hloop⟩ := h.loop (n := s.objs.keys.card) hin
  have hlen := h.length_lt
  obtain ⟨l, rfl⟩ : ∃ l', l = p :: l' := by
    rcases l with _ | ⟨x, l⟩
    · cases hp
    · exact ⟨l, by rw [Option.some.inj hp]⟩
  obtain ⟨n, hn⟩ := Nat.exists_eq_succ_of_ne_zero (Nat.ne_zero_of_lt hlen)
  have hpb := h.ne_base (.head _)
  have hnext : s.next b = p := h.seg.1
  have hp₁ : s₁.Live p := hs.live_iff.mpr ⟨hpb, h.live p (.tail _ (.head _))⟩
  have hk₁ : s₁.kept 0 p = false := (kept_congr (hs.flags_eq hpb)).trans hk
  have hi := h.freed_intact hs (.head _) hk
  have hin₁ : env.InertOn fn nil s₁ p := (hin p (.tail _ (.head _)) hk).2.intact hi
  have hb₁ : ¬ (s₁.hooked fn p).Live b := fun hl =>
    (hs.live_iff.mp (live_hooked.mp hl)).1 rfl
  have hset : setXObjHeap b (s₁.next p) (s₁.hooked fn p) =
      .error (.fault (.dangling b)) (s₁.hooked fn p) := by
    have hd := deref_not_live hb₁
    rw [if_neg h.base_live.ne_nil] at hd
    exact Prog.bind_of_error hd
  refine ⟨s₁.hooked fn p, ?_⟩
  rw [h.sweep_eq hfn, passes]
  refine Prog.bind_of_error ?_
  rw [hloop, hnext, hn, sweepLoop_hooked hin₁ hp₁ hk₁, Prog.bind_of_error hset]

/-- A teardown is right if and only if its walk meets a shared node first, or none. -/
theorem iff (h : Tearable s b t cell l) (hfn : s.hookWord .heapFree b = some fn)
    (hin : env.InertFor fn b s (b :: l)) :
    (∃ s', xHeapSweep env b b 0 s = .ok b s' ∧ TornDown s b fn l s') ↔
      ∀ p ∈ l.head?, s.flagsOf p &&& xObjFlagShared ≠ 0 := by
  constructor
  · rintro ⟨s', hrun, -⟩ p hp
    rw [← kept_zero]
    by_contra hno
    obtain ⟨s₂, hrun₂⟩ := h.dangles hfn hin hp (Bool.not_eq_true _ ▸ hno)
    rw [hrun] at hrun₂
    cases hrun₂
  · exact fun hl => h.returns hfn hin fun p hp => kept_zero.mpr (hl p hp)

end Tearable

/-! ## The bases that the library makes -/

/-- What a program does with a base that is not set. -/
inductive MinimalStep (env : Env) (b : Ptr) : Sys → Sys → Prop
  | alloc {t p : Ptr} {fl : Flags} {units : Nat} {s s' : Sys}
      (h : xObjAlloc env b t fl units s = .ok p s') : MinimalStep env b s s'
  | make {t p : Ptr} {fl : Flags} {data : List Word} {s s' : Sys}
      (h : xObjMake env b t fl data s = .ok p s') : MinimalStep env b s s'
  | setType {p t : Ptr} {s s' : Sys} (h : setXObjType p t s = .ok () s') : MinimalStep env b s s'
  | setFlags {p : Ptr} {fl : Flags} {s s' : Sys} (h : setXObjFlags p fl s = .ok () s') :
      MinimalStep env b s s'
  | write {p : Ptr} {i : Nat} {w : Word} {s s' : Sys} (hb : (p, i) ≠ (b, 0))
      (h : setXObjDataI p i w s = .ok () s') : MinimalStep env b s s'
  /-- A block that is no object. -/
  | malloc {a : Ptr} {size : Nat} {s s' : Sys} (h : xSysMalloc env size s = .ok a s') :
      MinimalStep env b s s'

/-- A base that the library has made: a minimal one of `x_mksatom`, or one of `x_base_make`. -/
inductive TeardownBase (env : Env) : Sys → Ptr → Prop
  | minimal {fl : Flags} {s₀ s₁ s : Sys} {b : Ptr} (htr : s₀.trace = [])
      (h : xMksatom env nil fl nil s₀ = .ok b s₁) (hb : b ≠ nil)
      (hr : ReflTransGen (MinimalStep env b) s₁ s) : TeardownBase env s b
  | made {cfg : XBaseT} {c₀ c : Client} {b : Ptr} (hs : Start env cfg c₀)
      (hr : ReflTransGen (fun c c' => Mutate env 0 c c' ∨ Collect env c c') c₀ c)
      (hb : b ∈ c.bases) : TeardownBase env c.sys b

/-- A base that is not set, with its chain. -/
structure MinimalInv (s : Sys) (b : Ptr) (L locals : List Ptr) : Prop where
  chain : ChainInv s b L locals
  unset : s.unit b 0 = some nil

namespace MinimalInv

variable {L locals : List Ptr}

theorem minimal (h : MinimalInv s b L locals) : s.Minimal b :=
  .inr ⟨h.chain.mem_live (.head _), .inr h.unset⟩

theorem made {ty a : Ptr} {fl : Flags} {data : List Word} (h : MinimalInv s b L locals)
    (hm : Made s b ty fl data p a s') : ∃ L', MinimalInv s' b L' locals := by
  obtain ⟨L', hc, -⟩ := h.chain.made (.head _) (extraOf_of_not_full h.minimal.not_full) hm
  refine ⟨L', hc, ?_⟩
  rw [hm.unit_old b 0 fun e => hm.new (e ▸ h.chain.mem_live (.head _)),
    if_neg fun hf => h.minimal.not_full hf.1, h.unset]

/-- A step that makes no object and leaves the base unset. -/
theorem still (h : MinimalInv s b L locals) (hlive : ∀ q, s'.Live q ↔ s.Live q)
    (hnext : ∀ q, s'.next q = s.next q)
    (hblock : ∀ q, s.block q = some q → s'.block q = some q) (htrace : s'.trace = s.trace)
    (hunit : s'.unit b 0 = s.unit b 0) : MinimalInv s' b L locals where
  chain := h.chain.mono hlive (fun q _ => hnext q) (fun q _ => hblock q) fun q => by rw [htrace]
  unset := hunit.trans h.unset

theorem step (h : MinimalInv s b L locals) (hs : MinimalStep env b s s') :
    ∃ L', MinimalInv s' b L' locals := by
  have hreq : MinimalInv s.request b L locals :=
    h.still (fun _ => Iff.rfl) (fun _ => rfl) (fun _ => id) rfl rfl
  cases hs with
  | alloc hr =>
    rcases xObjAlloc_ok hr with ⟨-, -, -, rfl⟩ | ⟨a, data, -, hm, -⟩
    · exact ⟨L, hreq⟩
    · exact h.made hm
  | make hr =>
    rcases xObjMake_ok hr with ⟨-, -, -, rfl⟩ | ⟨a, -, hm⟩
    · exact ⟨L, hreq⟩
    · exact h.made hm
  | setType hr =>
    obtain ⟨-, rfl⟩ := setXObjType_ok.mp hr
    exact ⟨L, h.still (fun _ => live_setType) (fun _ => next_setType)
      (fun _ hq => block_setType.trans hq) trace_modify unit_setType⟩
  | setFlags hr =>
    obtain ⟨-, rfl⟩ := setXObjFlags_ok.mp hr
    exact ⟨L, h.still (fun _ => live_setFlags) (fun _ => next_setFlags)
      (fun _ hq => block_setFlags.trans hq) trace_modify unit_setFlags⟩
  | @write p i w _ _ hb hr =>
    obtain ⟨⟨v, hv⟩, rfl⟩ := setXObjDataI_ok.mp hr
    refine ⟨L, h.still (fun _ => live_setUnit) (fun _ => next_setUnit)
      (fun _ hq => block_setUnit.trans hq) trace_modify ?_⟩
    rw [unit_setUnit hv, if_neg fun e => hb (by rw [← e.1, ← e.2])]
  | malloc hr =>
    rw [xSysMalloc_eq] at hr
    split at hr
    · cases hr
      refine ⟨L, hreq.still (fun _ => Iff.rfl) (fun _ => rfl) (fun q hq => ?_) rfl rfl⟩
      rw [block_setBlock, if_neg, hq]
      rintro rfl
      rw [block_request, (env.malloc.fresh _ _).2.1] at hq
      cases hq
    · cases hr
      exact ⟨L, hreq⟩

/-- A base of `x_mksatom`. -/
theorem mksatom {fl : Flags} (htr : s.trace = []) (h : xMksatom env nil fl nil s = .ok b s')
    (hb : b ≠ nil) : ∃ locals, MinimalInv s' b [] locals := by
  rcases xObjMake_ok h with ⟨e, -⟩ | ⟨a, -, hm⟩
  · exact absurd e hb
  · have hlive : ∀ q, q ∈ s.objs.keys.toList ↔ s.Live q := fun q => by
      rw [Finset.mem_toList, Finmap.mem_keys]
      rfl
    obtain rfl : b = a := by
      have := hm.addr
      simpa [extraOf_of_not_full not_full_nil] using this
    refine ⟨s.objs.keys.toList, ⟨?_, List.nodup_singleton b, fun q => ?_, fun q hq => ?_,
      fun q hq => ?_, fun q => ?_⟩, ?_⟩
    · exact hm.next_new.trans next_nil
    · rw [hm.live, List.mem_singleton, hlive]
    · rw [List.mem_singleton]
      exact fun e => hm.new (e ▸ (hlive q).mp hq)
    · rw [List.mem_singleton.mp hq, hm.block, if_pos rfl]
    · rw [hm.trace, htr]
      rfl
    · rw [unit, hm.data_new]
      rfl

end MinimalInv

/-- The objects of `l` that are not shared own blocks of their own. -/
structure OwnApart (s : Sys) (l : List Ptr) : Prop where
  block : ∀ p ∈ l, s.flagsOf p &&& xObjFlagShared = 0 → s.flagsOf p &&& xObjFlagOwn ≠ 0 →
    ∃ w, s.unit p 0 = some w ∧ (w = nil ∨ s.block w = some nil)
  apart : ∀ p ∈ l, ∀ q ∈ l, ∀ w, p ≠ q → s.Owns p w → ¬ s.Owns q w

theorem ChainInv.tearable {root : Ptr} {L locals : List Ptr} (h : ChainInv s root L locals)
    (hacc : Accounted s b t cell) (hx : s.extraOf b = 0) (hsh : s.flagsOf b &&& xObjFlagShared = 0)
    (hb : b ∈ root :: L) (hseg : Seg s.next (s.next b) l nil) (hl : ∀ q ∈ l, s.Live q)
    (ho : OwnApart s (b :: l)) : Tearable s b t cell l := by
  obtain ⟨l₁, l₂, he, -, hseg₂⟩ := h.split hb
  have hmem : ∀ q ∈ b :: l₂, q ∈ root :: L := fun q hq => by
    rw [he]
    exact List.mem_append_right _ hq
  have hn : (l₁ ++ b :: l₂).Nodup := he ▸ h.nodup
  obtain rfl : l = l₂ := hseg.unique hseg₂ (fun hm => (hl nil hm).ne_nil rfl)
    fun hm => (h.mem_live (hmem nil (.tail _ hm))).ne_nil rfl
  have hlive : ∀ q ∈ b :: l, s.Live q := fun q hq => h.mem_live (hmem q hq)
  refine ⟨hacc, hx, ?_, hseg, (List.nodup_append.mp hn).2.1, hlive, ⟨fun p hp _ => ?_,
    fun p hp hk => ?_, fun p hp q hq w _ _ hne => ho.apart p hp q hq w hne⟩⟩
  · rw [not_kept_zero, hsh]
  · rw [freeAddr_zero]
    exact ⟨(hlive p hp).ne_nil, h.placed p (hmem p hp)⟩
  · exact ho.block p hp (not_kept_zero.mp hk)

/-- Every base of the library can be torn down, as far as its chain is concerned. -/
theorem TeardownBase.tearable (hb : TeardownBase env s b) (hin : env.FreeInert)
    (hsh : s.flagsOf b &&& xObjFlagShared = 0) (hseg : Seg s.next (s.next b) l nil)
    (hl : ∀ q ∈ l, s.Live q) (ho : OwnApart s (b :: l)) :
    ∃ t cell fn, Tearable s b t cell l ∧ s.hookWord .heapFree b = some fn := by
  cases hb with
  | minimal htr h hb hr =>
    obtain ⟨locals, h₁⟩ := MinimalInv.mksatom htr h hb
    obtain ⟨L, h⟩ := Prog.invariant (I := fun s => ∃ L, MinimalInv s b L locals)
      (fun _ _ ⟨_, h⟩ hs => h.step hs) hr ⟨[], h₁⟩
    have hno := h.minimal.not_full
    have hfn : s.hookWord .heapFree b = some nil := by
      rw [Sys.hookWord, if_neg fun hs => hs (by rw [h.unset]; rfl),
        if_pos (.inr (by rw [h.unset]; rfl))]
    exact ⟨.leaf none, fun _ => anyWord, nil, h.chain.tearable ⟨.inl h.minimal,
      fun hf => absurd hf hno, fun hf => absurd hf hno, fun hf => absurd hf hno⟩
      (extraOf_of_not_full hno) hsh (.head _) hseg hl ho, hfn⟩
  | @made cfg c₀ c _ hs hr hb =>
    obtain ⟨L, t, k, h⟩ := run_inv hin hs.inv hr
    obtain ⟨fn, hfn⟩ := h.freeHook hb
    exact ⟨_, _, fn, h.chain.tearable (h.accounted hb) (h.extraOf hb) hsh (h.bases hb) hseg hl ho,
      hfn⟩

/-- The teardown of a base is right if and only if its chain is empty or begins with a shared
object. -/
theorem teardown_iff (hb : TeardownBase env s b) (hin : env.FreeInert)
    (hsh : s.flagsOf b &&& xObjFlagShared = 0) (hseg : Seg s.next (s.next b) l nil)
    (hl : ∀ q ∈ l, s.Live q) (ho : OwnApart s (b :: l)) : ∃ fn, s.hookWord .heapFree b = some fn ∧
      ((∃ s', xHeapSweep env b b 0 s = .ok b s' ∧ TornDown s b fn l s') ↔
        ∀ p ∈ l.head?, s.flagsOf p &&& xObjFlagShared ≠ 0) := by
  obtain ⟨t, cell, fn, h, hfn⟩ := hb.tearable hin hsh hseg hl ho
  exact ⟨fn, hfn, h.iff hfn fun q _ _ => ⟨hin.on, hin.on⟩⟩

end Teardown

/-- A typed base with one atom on it that is not shared. -/
theorem teardown_dangles : ∃ (s s' : Sys) (b p : Ptr) (l : List Ptr),
    TeardownBase (.plain fun _ => true) s b ∧ s.flagsOf b &&& xObjFlagShared = 0 ∧
    Seg s.next (s.next b) (p :: l) nil ∧ OwnApart s (b :: p :: l) ∧
    s.flagsOf p &&& xObjFlagShared = 0 ∧
    xHeapSweep (.plain fun _ => true) b b 0 s = .error (.fault (.dangling b)) s' := by
  obtain ⟨c₀, c₁, c, p, L, t, k, hs, hc, -, -, h₁, h₂, h, -, hp, hb, ho⟩ :=
    exists_typed (BitVec.zero_and (x := xObjFlagOwn))
  have hsh : c.sys.flagsOf c.root &&& xObjFlagShared = 0 := by rw [hb]; rfl
  have hown : OwnApart c.sys (c.root :: p :: L) :=
    ⟨fun q _ _ hq => absurd (ho q) hq, fun q _ _ _ _ _ hq => absurd (ho q) hq.1⟩
  have ht := h.chain.tearable (h.accounted h.root_mem) (h.extraOf h.root_mem) hsh (.head _)
    h.chain.chain (fun q hq => h.chain.mem_live (.tail _ hq)) hown
  obtain ⟨fn, hfn⟩ := h.freeHook h.root_mem
  obtain ⟨s', hrun⟩ := ht.dangles hfn
    (fun _ _ _ => ⟨Env.plain_inert.on, Env.plain_inert.on⟩) rfl (by rw [kept, hp]; rfl)
  exact ⟨c.sys, s', c.root, p, L, .made hs ((ReflTransGen.single (.inl h₁)).tail (.inl h₂))
    h.root_mem, hsh, h.chain.chain, hown, by rw [hp]; rfl, hrun⟩

/-- A typed base with one shared atom on it. -/
theorem teardown_standard : ∃ (s s' : Sys) (b p : Ptr) (l : List Ptr) (fn : Word),
    TeardownBase (.plain fun _ => true) s b ∧ Seg s.next (s.next b) (p :: l) nil ∧
    xHeapSweep (.plain fun _ => true) b b 0 s = .ok b s' ∧ TornDown s b fn (p :: l) s' ∧
    ¬ s'.Live b := by
  obtain ⟨c₀, c₁, c, p, L, t, k, hs, hc, -, -, h₁, h₂, h, -, hp, hb, ho⟩ :=
    exists_typed (show xObjFlagShared &&& xObjFlagOwn = 0 from rfl)
  have hsh : c.sys.flagsOf c.root &&& xObjFlagShared = 0 := by rw [hb]; rfl
  have htb : TeardownBase (.plain fun _ => true) c.sys c.root :=
    .made hs ((ReflTransGen.single (.inl h₁)).tail (.inl h₂)) h.root_mem
  obtain ⟨fn, -, hiff⟩ := teardown_iff htb Env.plain_inert hsh h.chain.chain
    (fun q hq => h.chain.mem_live (.tail _ hq))
    ⟨fun q _ _ hq => absurd (ho q) hq, fun q _ _ _ _ _ hq => absurd (ho q) hq.1⟩
  obtain ⟨s', hrun, hd⟩ := hiff.mpr fun q hq => by
    obtain rfl := Option.some.inj hq
    rw [hp]
    decide
  refine ⟨c.sys, s', c.root, p, L, fn, htb, h.chain.chain, hrun, hd, fun hl => ?_⟩
  have := ((hd.live _).mp hl).2 (.head _)
  rw [kept_zero, hsh] at this
  exact this rfl

end XExpr
