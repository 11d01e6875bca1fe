import XExpr.Heap.Cycle
import XExpr.Heap.WellFormed

/-!
# A consumer's reachability pass

A consumer borrows `x_heap_tree_mark` to mark what its roots reach with a flag of its own, looks at
the marks, and takes them back with `x_heap_chain_clear`. Marking follows the edges of the graph
and clearing the allocation chain, so an object off the chain keeps its mark, and the next pass
stops there.

* `pass_iff`: in every run of passes, allocations and mutations, a pass finds what its roots reach
  and leaves no mark on it if and only if all of it is on the allocation chain.
* `pass_fails`: a pass from a pair on the stack leaves its mark there.
-/

namespace XExpr

open Sys Chain Relation

variable {env : Env} {cfg : XBaseT} {G : Flags} {c c' c₀ : Client} {L l : List Ptr}
  {t : Ptr → Cells Word} {k : Ptr → Kept} {p : Ptr} {s₁ s₂ : Sys}

/-- The end of a pass: the chain behind the base is cleared. -/
def clearBehind (b : Ptr) (G : Flags) : M Unit := do
  let _ ← xHeapChainClear (← xObjHeap b) G

namespace Client

/-- The roots `l` of a pass reach `p`. -/
def Found (env : Env) (c : Client) (l : List Ptr) (p : Ptr) : Prop :=
  ∃ r ∈ l, r ≠ nil ∧ ReflTransGen (c.sys.Edge env c.root (c.sys.markHook c.root)) r p

/-- The marker can be sent to the roots `l`. -/
def PassReady (env : Env) (c : Client) (l : List Ptr) : Prop :=
  c.sys.WalkableFrom env c.root (c.sys.markHook c.root) l

/-- `s₁` is the memory that a pass with the roots `l` inspects, and `s₂` the one it leaves. -/
structure Passed (env : Env) (c : Client) (G : Flags) (l : List Ptr) (s₁ s₂ : Sys) : Prop where
  found : ∀ p, s₁.flagsOf p &&& G = G ↔ c.Found env l p
  cleared : ∀ p, c.Found env l p → s₂.flagsOf p &&& G ≠ G
  same : c.sys.SameButFlags s₂
  flags : ∀ p, s₂.flagsOf p &&& ~~~G = c.sys.flagsOf p &&& ~~~G

end Client

/-- A pass whose roots reach objects of the chain only, as a step. -/
inductive Pass (env : Env) (G : Flags) : Client → Client → Prop
  | pass {c : Client} {l : List Ptr} {s₁ s₂ : Sys} (hw : c.PassReady env l)
      (hl : ∀ p, c.Found env l p → c.OnChain p) (h₁ : markAll env c.root G l c.sys = .ok () s₁)
      (h₂ : clearBehind c.root G s₁ = .ok () s₂) : Pass env G c { c with sys := s₂ }

/-- The heap invariant, with no bit of `G` on any object. -/
structure Unmarked (G : Flags) (c : Client) (L : List Ptr) (t : Ptr → Cells Word)
    (k : Ptr → Kept) : Prop where
  heap : HeapInv c L t k
  clean : ∀ p, c.sys.Live p → c.sys.flagsOf p &&& G = 0

theorem Unmarked.marks (h : Unmarked G c L t k) (hG : G ≠ 0) : c.sys.marks G = ∅ := by
  refine Set.eq_empty_of_forall_notMem fun p (hp : c.sys.flagsOf p &&& G = G) => hG ?_
  by_cases hl : c.sys.Live p
  · rw [← hp, h.clean p hl]
  · rw [← hp]
    simp [flagsOf_not_live hl]

/-- One pass. -/
theorem Unmarked.pass (h : Unmarked G c L t k) (hG : G ≠ 0) (hsh : G &&& xObjFlagShared = 0)
    (hw : c.PassReady env l) :
    ∃ s₁ s₂, markAll env c.root G l c.sys = .ok () s₁ ∧ clearBehind c.root G s₁ = .ok () s₂ ∧
      (c.Passed env G l s₁ s₂ ↔ ∀ p, c.Found env l p → c.OnChain p) ∧
      ((∀ p, c.Found env l p → c.OnChain p) → Unmarked G { c with sys := s₂ } L t k) := by
  obtain ⟨s₁, hrun₁, hm⟩ := markAll_run (F := G) h.heap.markHook hw
  have hmarks : ∀ p, s₁.flagsOf p &&& G = G ↔ c.Found env l p := fun p => by
    have hs := hm.marks hw
    rw [h.marks hG] at hs
    change p ∈ s₁.marks G ↔ _
    rw [hs, Reach.mem_markList_empty]
    refine exists_congr fun r => ?_
    rw [mem_nonNil, and_assoc]
  obtain ⟨s₂, hrun₂, hc⟩ := xHeapChainClear_run (F := G)
    (h.heap.chain.chain.congr fun q _ => hm.same.next) (List.nodup_cons.mp h.heap.chain.nodup).2
    fun q hq => hm.same.live.mpr (h.heap.chain.mem_live (.tail _ hq))
  have hroot : s₁.Live c.root := hm.same.live.mpr (h.heap.base_live h.heap.root_mem)
  have hclear : clearBehind c.root G s₁ = .ok () s₂ := by
    unfold clearBehind
    rw [Prog.bind_of_ok (xObjHeap_eq hroot), hm.same.next, Prog.bind_of_ok hrun₂]
    rfl
  have hon : ∀ p ∈ L, s₂.flagsOf p &&& G = 0 := fun p hp => by
    rw [hc.flags_mem p hp, Flags.clear_and_self]
  refine ⟨s₁, s₂, hrun₁, hclear, ⟨fun hpass p hp => ?_, fun hl => ?_⟩, fun hl => ⟨?_, ?_⟩⟩
  · -- An object off the chain is marked, and not cleared.
    by_contra hoff
    rw [h.heap.onChain] at hoff
    refine hpass.cleared p hp ?_
    rw [hc.flags_notMem p hoff]
    exact (hmarks p).mpr hp
  · refine ⟨hmarks, fun p hp => ?_, hm.same.trans hc.same, fun p => ?_⟩
    · rw [hon p (h.heap.onChain.mp (hl p hp))]
      exact hG.symm
    · rw [← Marked.others hm]
      by_cases hp : p ∈ L
      · rw [hc.flags_mem p hp, Flags.clear_clear_self]
      · rw [hc.flags_notMem p hp]
  · have h₁ : HeapInv { c with sys := s₁ } L t k := h.heap.marked hm
    exact h₁.cleared hc (.inl hsh)
  · intro p hp
    by_cases hpL : p ∈ L
    · exact hon p hpL
    · have hpl := hm.same.live.mp (hc.same.live.mp hp)
      rw [show Sys.flagsOf _ p = _ from hc.flags_notMem p hpL]
      rcases Marked.all_or_none hm hpl with e | e
      · rw [e, h.clean p hpl]
      · refine absurd (hl p ((hmarks p).mp ?_)) fun ho => hpL (h.heap.onChain.mp ho)
        rw [e, Flags.or_and_self]

theorem Mutate.unmarked (h : Unmarked G c L t k) (hsh : G &&& xObjFlagShared = 0)
    (hs : Mutate env G c c') : ∃ L' t' k', Unmarked G c' L' t' k' := by
  obtain ⟨L', t', k', hi⟩ := hs.inv h.heap
  refine ⟨L', t', k', hi, fun p hp => ?_⟩
  rcases hs.flags h.heap hsh p hp with ⟨hl, hf⟩ | hf
  · rw [hf, h.clean p hl]
  · exact hf

theorem Start.unmarked (h : Start env cfg c) (hsh : G &&& xObjFlagShared = 0)
    (hloc : ∀ p ∈ c.locals, c.sys.flagsOf p &&& G = 0) : ∃ L t k, Unmarked G c L t k := by
  obtain ⟨L, t, k, hi⟩ := h.inv
  refine ⟨L, t, k, hi, fun p hp => ?_⟩
  by_cases hl : p ∈ c.locals
  · exact hloc p hl
  · rcases h.flags hp hl with e | e
    · rw [e]; exact BitVec.zero_and
    · rw [e, BitVec.and_comm, hsh]

theorem pass_iff (hG : G ≠ 0) (hsh : G &&& xObjFlagShared = 0) (hs : Start env cfg c₀)
    (hloc : ∀ p ∈ c₀.locals, c₀.sys.flagsOf p &&& G = 0)
    (hr : ReflTransGen (fun c c' => Mutate env G c c' ∨ Pass env G c c') c₀ c)
    (hw : c.PassReady env l) :
    ∃ s₁ s₂, markAll env c.root G l c.sys = .ok () s₁ ∧ clearBehind c.root G s₁ = .ok () s₂ ∧
      (c.Passed env G l s₁ s₂ ↔ ∀ p, c.Found env l p → c.OnChain p) := by
  have hinv : ∃ L t k, Unmarked G c L t k := by
    refine Prog.invariant (I := fun c => ∃ L t k, Unmarked G c L t k) ?_ hr
      (hs.unmarked hsh hloc)
    rintro c c' ⟨L, t, k, h⟩ (hm | ⟨hw, hl, h₁, h₂⟩)
    · exact hm.unmarked h hsh
    · obtain ⟨s₁, s₂, hrun₁, hrun₂, -, hi⟩ := h.pass hG hsh hw
      cases h₁.symm.trans hrun₁
      cases h₂.symm.trans hrun₂
      exact ⟨L, t, k, hi hl⟩
  obtain ⟨L, t, k, h⟩ := hinv
  obtain ⟨s₁, s₂, hrun₁, hrun₂, hiff, -⟩ := h.pass hG hsh hw
  exact ⟨s₁, s₂, hrun₁, hrun₂, hiff⟩

/-! ## A pair on the stack -/

/-- A pair of nils has no successors. -/
theorem not_edge_nils {s : Sys} {b q : Ptr} {fn : Word} (ht : s.typeOf p = xTypePairObj)
    (h₀ : s.unit p 0 = some nil) (h₁ : s.unit p 1 = some nil) : ¬ s.Edge env b fn p q := by
  rintro ⟨hq, ⟨-, h | h⟩ | ⟨h, -⟩⟩
  · exact hq (Option.some.inj (h.symm.trans h₀))
  · exact hq (Option.some.inj (h.symm.trans h₁))
  · exact h ht

/-- A pass from a pair on the stack leaves its mark there. -/
theorem pass_fails : ∃ (c₀ c : Client) (p : Ptr) (s₁ s₂ : Sys),
    Start (.plain fun _ => true) .standard c₀ ∧ c₀.locals = [] ∧
    Mutate (.plain fun _ => true) xObjFlagMark c₀ c ∧
    c.PassReady (.plain fun _ => true) [p] ∧
    markAll (.plain fun _ => true) c.root xObjFlagMark [p] c.sys = .ok () s₁ ∧
    clearBehind c.root xObjFlagMark s₁ = .ok () s₂ ∧
    ¬ c.Passed (.plain fun _ => true) xObjFlagMark [p] s₁ s₂ := by
  obtain ⟨c₀, hs, hloc⟩ := Start.exists (.plain fun _ => true) .standard
    (fun _ _ _ => rfl) rfl rfl
  obtain ⟨hp, -, hfree⟩ := (Env.plain fun _ => true).malloc.fresh c₀.sys 40
  let p : Ptr := (Env.plain fun _ => true).malloc.address c₀.sys 40
  let o : Obj := ⟨nil, xTypePairObj, xObjFlagNone, [], [nil, nil]⟩
  let c : Client := { c₀ with sys := c₀.sys.place p o, locals := p :: c₀.locals }
  have hnew : ¬ c₀.sys.Live p := hfree p le_rfl (lt_add_of_pos_right p (by decide))
  have hm : Mutate (.plain fun _ => true) xObjFlagMark c₀ c := .newLocal hp hnew (by decide)
  obtain ⟨L, t, k, h⟩ := hs.unmarked (G := xObjFlagMark) (by decide) fun q hq => by
    rw [hloc] at hq; cases hq
  obtain ⟨L', t', k', h'⟩ := hm.unmarked h (by decide)
  have ht : c.sys.typeOf p = xTypePairObj := by rw [typeOf_place hp, if_pos rfl]
  have h₀ : c.sys.unit p 0 = some nil := by rw [unit_place hp, if_pos rfl]; rfl
  have h₁ : c.sys.unit p 1 = some nil := by rw [unit_place hp, if_pos rfl]; rfl
  have hw : c.PassReady (.plain fun _ => true) [p] := by
    intro r hr x hx
    obtain ⟨hr, -⟩ := mem_nonNil.mp hr
    rw [List.mem_singleton.mp hr] at hx
    rcases hx.cases_head with rfl | ⟨y, hy, -⟩
    · exact ⟨live_of_unit h₀, fun _ => ⟨nil, nil, h₀, h₁⟩⟩
    · exact absurd hy (not_edge_nils ht h₀ h₁)
  obtain ⟨s₁, s₂, hrun₁, hrun₂, hiff, -⟩ := h'.pass (by decide) (by decide) hw
  refine ⟨c₀, c, p, s₁, s₂, hs, hloc, hm, hw, hrun₁, hrun₂, fun hpass => ?_⟩
  have hon := hiff.mp hpass p ⟨p, .head _, hp.ne', .refl⟩
  exact h'.heap.chain.apart p (.head _) (.tail _ (h'.heap.onChain.mp hon))

/-- A pair that holds an atom twice leads to the atom. -/
theorem fork_ready {q : Ptr} (grants : Nat → Bool) (ht : c.sys.typeOf q = xTypePairObj)
    (hd : c.sys.dataOf q = [p, p]) (hp : c.sys.typeOf p ≠ xTypePairObj) (hl : c.sys.Live p) :
    c.PassReady (.plain grants) [q] ∧
      ∀ x, c.Found (.plain grants) [q] x → x = q ∨ x = p := by
  have h₀ : c.sys.unit q 0 = some p := by rw [unit, hd]; rfl
  have h₁ : c.sys.unit q 1 = some p := by rw [unit, hd]; rfl
  have hclosed : ∀ x y, (x = q ∨ x = p) →
      c.sys.Edge (.plain grants) c.root (c.sys.markHook c.root) x y → y = q ∨ y = p := by
    rintro x y (rfl | rfl) he
    · rcases he with ⟨-, ⟨-, h | h⟩ | ⟨h, -⟩⟩
      · exact .inr (Option.some.inj (h.symm.trans h₀))
      · exact .inr (Option.some.inj (h.symm.trans h₁))
      · exact absurd ht h
    · exact absurd he (not_edge_plain hp)
  refine ⟨fun r hr => ?_, fun x hx => ?_⟩
  · rw [List.mem_singleton.mp (mem_nonNil.mp hr).1]
    refine walkable_of_closed (.inl rfl) hclosed ?_
    rintro x (rfl | rfl)
    · exact ⟨live_of_unit h₀, fun _ => ⟨_, _, h₀, h₁⟩⟩
    · exact ⟨hl, fun e => absurd e hp⟩
  · obtain ⟨r, hr, -, hx⟩ := hx
    rw [List.mem_singleton.mp hr] at hx
    induction hx with
    | refl => exact .inl rfl
    | tail _ he ih => exact hclosed _ _ ih he

/-- Such a pair is made on a new base. -/
theorem exists_fork : ∃ (c₀ c : Client) (p q : Ptr) (L : List Ptr) (t : Ptr → Cells Word)
    (k : Ptr → Kept), Start (.plain fun _ => true) .standard c₀ ∧ c₀.locals = [] ∧
    ReflTransGen (Mutate (.plain fun _ => true) xObjFlagMark) c₀ c ∧
    Unmarked xObjFlagMark c L t k ∧ c.sys.typeOf q = xTypePairObj ∧ c.sys.dataOf q = [p, p] ∧
    c.sys.typeOf p ≠ xTypePairObj ∧ p ∈ L ∧ q ∈ L := by
  obtain ⟨c₀, hs, hloc⟩ := Start.exists (.plain fun _ => true) .standard
    (fun _ _ _ => rfl) rfl rfl
  obtain ⟨L, t, k, h⟩ := hs.unmarked (G := xObjFlagMark) (by decide) fun q hq => by
    rw [hloc] at hq; cases hq
  have hroot := h.heap.base_live h.heap.root_mem
  obtain ⟨p, a, s, hrun, hm, hbare, -⟩ := xObjMake_granted (.plain fun _ => true) xTypeAtomObj
    xObjFlagNone [42] hs.bare rfl (by decide)
  obtain ⟨q, a', s', hrun', hm', -⟩ := xObjMake_granted (.plain fun _ => true) xTypePairObj
    xObjFlagNone [p, p] hbare rfl (by simp)
  have hst₁ : Mutate (.plain fun _ => true) xObjFlagMark c₀ { c₀ with sys := s } :=
    .make h.heap.root_mem (by decide) hrun
  have hst₂ : Mutate (.plain fun _ => true) xObjFlagMark { c₀ with sys := s }
      { c₀ with sys := s' } := .make (c := { c₀ with sys := s }) h.heap.root_mem (by decide) hrun'
  obtain ⟨L₁, t₁, k₁, h₁⟩ := hst₁.unmarked h (by decide)
  obtain ⟨L₂, t₂, k₂, h₂⟩ := hst₂.unmarked h₁ (by decide)
  have hpl : s.Live p := (hm.live p).mpr (.inl rfl)
  have hpq : p ≠ q := fun e => hm'.new (e ▸ hpl)
  refine ⟨c₀, _, p, q, L₂, t₂, k₂, hs, hloc, (ReflTransGen.single hst₁).tail hst₂, h₂,
    hm'.typeOf_new, hm'.data_new, ?_, ?_, ?_⟩
  · rw [show Sys.typeOf _ p = _ from hm'.typeOf_old p hpq, hm.typeOf_new]
    decide
  · exact h₂.heap.chain.mem_of_live ((hm'.live p).mpr (.inr hpl))
      (fun e => hm.new (e ▸ hroot)) (hloc ▸ List.not_mem_nil)
  · exact h₂.heap.chain.mem_of_live ((hm'.live q).mpr (.inl rfl))
      (fun e => hm'.new (e ▸ (hm.live _).mpr (.inr hroot))) (hloc ▸ List.not_mem_nil)

/-- Two passes from it, one after the other. -/
theorem pass_iff_standard : ∃ (c₀ c c' : Client) (p q : Ptr) (s₁ s₂ : Sys),
    Start (.plain fun _ => true) .standard c₀ ∧
    ReflTransGen (Mutate (.plain fun _ => true) xObjFlagMark) c₀ c ∧
    c.sys.typeOf q = xTypePairObj ∧ c.sys.dataOf q = [p, p] ∧
    Pass (.plain fun _ => true) xObjFlagMark c c' ∧ c'.Found (.plain fun _ => true) [q] p ∧
    markAll (.plain fun _ => true) c'.root xObjFlagMark [q] c'.sys = .ok () s₁ ∧
    clearBehind c'.root xObjFlagMark s₁ = .ok () s₂ ∧
    c'.Passed (.plain fun _ => true) xObjFlagMark [q] s₁ s₂ := by
  obtain ⟨c₀, c, p, q, L, t, k, hs, hloc, hr, h, ht, hd, htp, hp, hq⟩ := exists_fork
  have hpl : c.sys.Live p := h.heap.chain.mem_live (.tail _ hp)
  have hL : ∀ x, x = q ∨ x = p → x ∈ L := by
    rintro x (rfl | rfl)
    · exact hq
    · exact hp
  obtain ⟨hw, hfound⟩ := fork_ready (fun _ => true) ht hd htp hpl
  have hon : ∀ x, c.Found (.plain fun _ => true) [q] x → c.OnChain x := fun x hx =>
    h.heap.onChain.mpr (hL x (hfound x hx))
  obtain ⟨u₁, u₂, hu₁, hu₂, hpass, hi⟩ := h.pass (by decide) (by decide) hw
  have hsame : c.sys.SameButFlags u₂ := (hpass.mpr hon).same
  have ht' : u₂.typeOf q = xTypePairObj := hsame.typeOf.trans ht
  have hd' : u₂.dataOf q = [p, p] := hsame.dataOf.trans hd
  obtain ⟨hw', hfound'⟩ := fork_ready (c := { c with sys := u₂ }) (fun _ => true) ht' hd'
    (by rw [show Sys.typeOf _ p = _ from hsame.typeOf]; exact htp) (hsame.live.mpr hpl)
  have hst : Pass (.plain fun _ => true) xObjFlagMark c { c with sys := u₂ } :=
    .pass hw hon hu₁ hu₂
  have hr' : ReflTransGen (fun c c' => Mutate (.plain fun _ => true) xObjFlagMark c c' ∨
      Pass (.plain fun _ => true) xObjFlagMark c c') c₀ c :=
    ReflTransGen.mono (fun _ _ => .inl) _ _ hr
  obtain ⟨s₁, s₂, hrun₁, hrun₂, hiff⟩ := pass_iff (G := xObjFlagMark) (by decide) (by decide) hs
    (by rw [hloc]; exact fun x hx => absurd hx List.not_mem_nil)
    (hr'.tail (.inr hst)) hw'
  refine ⟨c₀, c, _, p, q, s₁, s₂, hs, hr, ht, hd, hst,
    ⟨q, .head _, (h.heap.chain.mem_live (.tail _ hq)).ne_nil, .single ⟨hpl.ne_nil, .inl ⟨ht',
      .inl ?_⟩⟩⟩, hrun₁, hrun₂,
    hiff.mpr fun x hx => (hi hon).heap.onChain.mpr (hL x (hfound' x hx))⟩
  change u₂.unit q 0 = some p
  rw [unit, hd']
  rfl

end XExpr
