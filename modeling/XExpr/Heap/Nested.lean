import XExpr.Heap.Exact

/-!
# A base made on a base

`x_base_make` on a base links the nodes of the new tree into the parent's chain, so a sweep of the
parent passes them. The pairs and atoms of the tree are shared, and stay. The base object itself is
made with no flags, so it stays for as long as each sweep finds a mark on it.

* `child_intact`: in every run of allocations, marks and sweeps in which the child base object is
  shared or marked at each sweep, the nodes of the child are there, and its accessors read what
  they read when it was made.
* `child_fails`: a sweep that finds no mark frees the child base object.
-/

namespace XExpr

open Sys Chain Relation

variable {env : Env} {cfg cfg₀ : XBaseT} {c c' c₀ : Client} {L new : List Ptr}
  {t : Ptr → Cells Word} {k : Ptr → Kept} {parent child : Ptr} {s₁ s' : Sys}

/-- The child that was made from `s` to `s₁` is still there in `s'`. -/
structure Intact (s s₁ : Sys) (child : Ptr) (s' : Sys) : Prop where
  live : ∀ q, s₁.Live q → ¬ s.Live q → s'.Live q
  cell : ∀ (f : Field) v, f.get child s₁ = .ok v s₁ → f.get child s' = .ok v s'
  obj : ∀ (f : Field) v, f.obj child s₁ = .ok v s₁ → f.obj child s' = .ok v s'
  int : ∀ (f : Field) v, f.isInt → f.int child s₁ = .ok v s₁ → f.int child s' = .ok v s'

/-- Steps with a base and its child. A sweep finds the child base object shared or marked. -/
inductive Nested (env : Env) (parent child : Ptr) : Client → Client → Prop
  | alloc {c : Client} {b t p : Ptr} {fl : Flags} {units : Nat} {s' : Sys}
      (hb : b = parent ∨ b = child) (h : xObjAlloc env b t fl units c.sys = .ok p s') :
      Nested env parent child c { c with sys := s' }
  | make {c : Client} {b t p : Ptr} {fl : Flags} {data : List Word} {s' : Sys}
      (hb : b = parent ∨ b = child) (h : xObjMake env b t fl data c.sys = .ok p s') :
      Nested env parent child c { c with sys := s' }
  | treeMark {c : Client} {b p r : Ptr} {F : Flags} {s' : Sys}
      (h : xHeapTreeMark env b p F c.sys = .ok r s') :
      Nested env parent child c { c with sys := s' }
  | rootChainMark {c : Client} {r : Ptr} {F : Flags} {s' : Sys}
      (h : xHeapRootChainMark env parent F c.sys = .ok r s') :
      Nested env parent child c { c with sys := s' }
  | chainClear {c : Client} {p r : Ptr} {F : Flags} {s' : Sys} (hF : F &&& xObjFlagShared = 0)
      (h : xHeapChainClear p F c.sys = .ok r s') : Nested env parent child c { c with sys := s' }
  | sweep {c : Client} {r : Ptr} {F : Flags} {s' : Sys} (hF : F &&& xObjFlagShared = 0)
      (ho : c.OwnReady F) (hk : c.sys.kept F child = true)
      (h : xHeapSweep env parent (c.sys.next parent) F c.sys = .ok r s') :
      Nested env parent child c
        { c with sys := s', bases := c.bases.filter fun b => decide (s'.Live b) }

/-- The heap invariant, with the nodes `child :: new` of the child as they were in `s₁`. -/
structure NestedInv (parent child : Ptr) (new : List Ptr) (s₁ : Sys) (c : Client) (L : List Ptr)
    (t : Ptr → Cells Word) (k : Ptr → Kept) : Prop where
  heap : HeapInv c L t k
  parent_mem : parent ∈ c.bases
  untyped : c.sys.typeOf child = nil
  nodes : ∀ q ∈ child :: new, q ∈ L
  shared : ∀ q ∈ new, c.sys.flagsOf q &&& xObjFlagShared ≠ 0
  unit : ∀ q ∈ child :: new, ∀ i, c.sys.unit q i = s₁.unit q i
  apart : ∀ q ∈ (t parent).nodes, q ∉ child :: new

namespace NestedInv

theorem not_full (h : NestedInv parent child new s₁ c L t k) : ¬ c.sys.Full child :=
  fun hf => hf.1 h.untyped

theorem live (h : NestedInv parent child new s₁ c L t k) {q : Ptr} (hq : q ∈ child :: new) :
    c.sys.Live q := h.heap.chain.mem_live (.tail _ (h.nodes q hq))

/-- The object count of the parent is in no node of the child. -/
theorem no_count (h : NestedInv parent child new s₁ c L t k) {q : Ptr} (hq : q ∈ child :: new) :
    c.sys.fieldObj parent .allocCount ≠ some q := by
  obtain ⟨a, -, ha, hmem, -⟩ :=
    (h.heap.base parent h.parent_mem).tree.fieldAtom (f := .allocCount) rfl
  rw [ha]
  exact fun e => h.apart a hmem (Option.some.inj e ▸ hq)

/-- A step that changes flags only, and keeps the shared ones. -/
theorem flags (h : NestedInv parent child new s₁ c L t k)
    (hi : HeapInv { c with sys := s' } L t k) (hs : c.sys.SameButFlags s')
    (hsh : ∀ q ∈ new, s'.flagsOf q &&& xObjFlagShared ≠ 0) :
    NestedInv parent child new s₁ { c with sys := s' } L t k where
  heap := hi
  parent_mem := h.parent_mem
  untyped := hs.typeOf.trans h.untyped
  nodes := h.nodes
  shared := hsh
  unit q hq i := by
    rw [show Client.sys { c with sys := s' } = s' from rfl, hs.unit]
    exact h.unit q hq i
  apart := h.apart

theorem marked {F : Flags} {A : Set Ptr} (h : NestedInv parent child new s₁ c L t k)
    (hm : Marked c.sys F A s') : NestedInv parent child new s₁ { c with sys := s' } L t k := by
  refine h.flags (h.heap.marked hm) hm.same fun q hq => ?_
  by_cases hA : q ∈ A
  · rw [hm.flags_mem q hA (h.live (.tail _ hq))]
    exact Flags.or_and_ne_zero (h.shared q hq)
  · rw [hm.flags_notMem q hA]
    exact h.shared q hq

theorem cleared {F : Flags} {l : List Ptr} (h : NestedInv parent child new s₁ c L t k)
    (hc : Cleared c.sys F l s') (hF : F &&& xObjFlagShared = 0 ∨ l.Disjoint L) :
    NestedInv parent child new s₁ { c with sys := s' } L t k := by
  refine h.flags (h.heap.cleared hc hF) hc.same fun q hq => ?_
  by_cases hl : q ∈ l
  · have hF := hF.resolve_right fun hd => hd hl (h.nodes q (.tail _ hq))
    rw [hc.flags_mem q hl, Flags.clear_and hF]
    exact h.shared q hq
  · rw [hc.flags_notMem q hl]
    exact h.shared q hq

theorem request (h : NestedInv parent child new s₁ c L t k) :
    NestedInv parent child new s₁ { c with sys := c.sys.request } L t k :=
  h.flags h.heap.request (.refl _) h.shared

theorem made {b ty p a : Ptr} {fl : Flags} {data : List Word}
    (h : NestedInv parent child new s₁ c L t k) (hb : b = parent ∨ b = child)
    (hm : Made c.sys b ty fl data p a s') :
    ∃ L', NestedInv parent child new s₁ { c with sys := s' } L' t k := by
  have hbL : b ∈ c.root :: L := by
    rcases hb with rfl | rfl
    · exact h.heap.bases h.parent_mem
    · exact .tail _ (h.nodes _ (.head _))
  have hbb : c.sys.Full b → b ∈ c.bases := fun hf => by
    rcases hb with rfl | rfl
    · exact h.parent_mem
    · exact absurd hf h.not_full
  have hold : ∀ q ∈ child :: new, q ≠ p := fun q hq e => hm.new (e ▸ h.live hq)
  obtain ⟨L', hi, hL⟩ := h.heap.made hbL hbb hm
  refine ⟨L', hi, h.parent_mem, ?_, fun q hq => (hL q).mpr (.inr (h.nodes q hq)), fun q hq => ?_,
    fun q hq i => ?_, h.apart⟩
  · exact (hm.typeOf_old child (hold _ (.head _))).trans h.untyped
  · rw [show Sys.flagsOf _ q = _ from hm.flagsOf_old q (hold q (.tail _ hq))]
    exact h.shared q hq
  · rw [show Sys.unit _ q i = _ from hm.unit_old q i (hold q hq), if_neg, h.unit q hq i]
    rintro ⟨hf, hc, -⟩
    rcases hb with rfl | rfl
    · exact h.no_count hq hc
    · exact h.not_full hf

theorem rootChainMark {F : Flags} {r : Ptr} (h : NestedInv parent child new s₁ c L t k)
    (hr : xHeapRootChainMark env parent F c.sys = .ok r s') :
    NestedInv parent child new s₁ { c with sys := s' } L t k := by
  have hbase := h.heap.base parent h.parent_mem
  obtain ⟨s₂, A, hc, hA⟩ := h.heap.rootChainMark_ok h.parent_mem hr
  refine NestedInv.marked (c := { c with sys := s₂ }) (h.cleared hc (.inr fun q hq hL => ?_)) hA
  exact h.heap.chain.apart q (hbase.subset hq) (.tail _ hL)

/-- A sweep keeps the nodes of the child, if it keeps the child base object. -/
theorem sweep {F : Flags} {r : Ptr} (h : NestedInv parent child new s₁ c L t k)
    (hin : env.FreeInert) (hF : F &&& xObjFlagShared = 0) (ho : c.OwnReady F)
    (hk : c.sys.kept F child = true)
    (hr : xHeapSweep env parent (c.sys.next parent) F c.sys = .ok r s') :
    ∃ L', NestedInv parent child new s₁
      { c with sys := s', bases := c.bases.filter fun b => decide (s'.Live b) } L' t k := by
  obtain ⟨s₂, fn, l₁, l₂, L', hrun, he, hs, hL', hi⟩ := h.heap.sweep hin h.parent_mem hF ho
  cases hr.symm.trans hrun
  have hkept : ∀ q ∈ child :: new, c.sys.kept F q = true := fun q hq => by
    rcases List.mem_cons.mp hq with rfl | hq
    · exact hk
    · exact kept_of_shared (h.shared q hq)
  have hlive : ∀ q ∈ child :: new, s'.Live q := fun q hq =>
    (hs.live q).mpr ⟨h.live hq, fun _ => hkept q hq⟩
  have hn : (l₁ ++ parent :: l₂).Nodup := he ▸ h.heap.chain.nodup
  have hpl : parent ∉ l₂ := fun hm =>
    (List.nodup_cons.mp (List.nodup_middle.mp hn)).1 (List.mem_append_right _ hm)
  have hplive : s'.Live parent :=
    (hs.live parent).mpr ⟨h.heap.base_live h.parent_mem, fun hm => absurd hm hpl⟩
  refine ⟨L', hi, List.mem_filter.mpr ⟨h.parent_mem, decide_eq_true hplive⟩, ?_, fun q hq => ?_,
    fun q hq => ?_, fun q hq i => ?_, h.apart⟩
  · exact (hs.typeOf child (hlive _ (.head _))).trans h.untyped
  · refine hi.chain.mem_of_live (hlive q hq) (fun e => ?_) fun hm =>
      h.heap.chain.apart q hm (.tail _ (h.nodes q hq))
    exact (List.nodup_cons.mp h.heap.chain.nodup).1 (e ▸ h.nodes q hq)
  · by_cases hm : q ∈ l₂
    · rw [show Sys.flagsOf _ q = _ from hs.flags_mem q hm (hkept q (.tail _ hq)),
        Flags.clear_and hF]
      exact h.shared q hq
    · rw [show Sys.flagsOf _ q = _ from hs.flags_notMem q hm]
      exact h.shared q hq
  · rw [show Sys.unit _ q i = _ from hs.unit q i (hlive q hq), if_neg, h.unit q hq i]
    exact fun hc => h.no_count hq hc.2.1

end NestedInv

/-! ## Runs -/

theorem Nested.inv (hin : env.FreeInert) (h : NestedInv parent child new s₁ c L t k)
    (hs : Nested env parent child c c') :
    ∃ L', NestedInv parent child new s₁ c' L' t k := by
  cases hs with
  | alloc hb hr =>
    rcases xObjAlloc_ok hr with ⟨-, -, -, rfl⟩ | ⟨a, data, -, hm, -⟩
    · exact ⟨L, h.request⟩
    · exact h.made hb hm
  | make hb hr =>
    rcases xObjMake_ok hr with ⟨-, -, -, rfl⟩ | ⟨a, -, hm⟩
    · exact ⟨L, h.request⟩
    · exact h.made hb hm
  | treeMark hr =>
    obtain ⟨A, hA⟩ := xHeapTreeMark_ok hr
    exact ⟨L, h.marked hA⟩
  | rootChainMark hr => exact ⟨L, h.rootChainMark hr⟩
  | chainClear hF hr =>
    obtain ⟨l, hc⟩ := xHeapChainClear_ok hr
    exact ⟨L, h.cleared hc (.inl hF)⟩
  | sweep hF ho hk hr => exact h.sweep hin hF ho hk hr

/-- The state after the child was made. -/
theorem HeapInv.nested {a : Ptr} {t₀ : Cells Word} (h : HeapInv c L t k) (hp : parent ∈ c.bases)
    (hm : BaseMade env c.sys parent cfg child a new t₀ s₁) :
    ∃ L', NestedInv parent child new s₁ { c with sys := s₁ } L' t k := by
  obtain ⟨L', hi, hL⟩ := h.linked hp hm
  refine ⟨L', hi, hp, hm.typeOf_base, fun q hq => (hL q).mpr (.inl hq), fun q hq => ?_,
    fun _ _ _ => rfl, fun q hq hn => (hm.fresh q hn).2 (h.node_live hp hq)⟩
  rw [show Sys.flagsOf _ q = _ from hm.flagsOf_new hq]
  decide

/-- What the accessors of the child read is in its nodes. -/
theorem NestedInv.intact {a : Ptr} {t₀ : Cells Word} {s : Sys}
    (h : NestedInv parent child new s₁ c L t k)
    (hm : BaseMade env s parent cfg child a new t₀ s₁) : Intact s s₁ child c.sys := by
  have hchase : ∀ {π v}, (Layout.atom cfg.tree).sub π ≠ none →
      chaseM child π s₁ = .ok v s₁ → chaseM child π c.sys = .ok v c.sys := by
    intro π v hπ hv
    rw [chaseM_ok, and_iff_left rfl] at hv ⊢
    rw [← hv]
    refine Mem.chase_congr fun x hx => ?_
    rcases hm.walk hπ x hx with hq | hq
    · exact h.unit x.1 hq x.2
    · rw [hq, unit_nil, unit_nil]
  constructor
  case live =>
    intro q hq hn
    exact h.live (((hm.live q).mp hq).resolve_right hn)
  case cell =>
    intro f v hv
    rw [Field.get_eq] at hv ⊢
    refine hchase (fun hn => (cfg.tree_sub f).1 ?_) hv
    rw [Field.valuePath, Layout.sub_append, hn]
    rfl
  case obj =>
    intro f v hv
    rw [Field.obj_eq] at hv ⊢
    exact hchase (cfg.tree_sub f).1 hv
  case int =>
    intro f v hf hv
    rw [Field.int_eq] at hv ⊢
    exact hchase ((cfg.tree_sub f).2 hf) hv

theorem child_intact (hin : env.FreeInert) (hs : Start env cfg₀ c₀)
    (hr₀ : ReflTransGen (fun c c' => Mutate env 0 c c' ∨ Collect env c c') c₀ c)
    (hp : parent ∈ c.bases) (hm : xBaseMake env parent cfg c.sys = .ok child s₁)
    (hr : ReflTransGen (Nested env parent child) { c with sys := s₁ } c') :
    Intact c.sys s₁ child c'.sys := by
  obtain ⟨L, t, k, h⟩ := run_inv hin hs.inv hr₀
  obtain ⟨a, new, t₀, hmade⟩ := xBaseMake_ok hm
  have hinv : ∃ L, NestedInv parent child new s₁ c' L t k := by
    refine Prog.invariant (I := fun c => ∃ L, NestedInv parent child new s₁ c L t k) ?_ hr
      (h.nested hp hmade)
    rintro c c' ⟨L, h⟩ hs
    exact hs.inv hin h
  obtain ⟨L', h'⟩ := hinv
  exact h'.intact hmade

/-! ## A child of the root base -/

/-- The objects of a base and its child own nothing. -/
theorem Start.child_flags {a : Ptr} {t₀ : Cells Word} (hs : Start env cfg₀ c₀)
    (hloc : c₀.locals = []) (hm : BaseMade env c₀.sys c₀.root cfg child a new t₀ s₁) (p : Ptr) :
    s₁.flagsOf p &&& xObjFlagOwn = 0 := by
  by_cases hp : s₁.Live p
  · rcases (hm.live p).mp hp with hn | hl
    · rcases List.mem_cons.mp hn with rfl | hn
      · rw [hm.flagsOf_base (extraOf_of_not_full hs.bare.not_full)]
        rfl
      · rw [hm.flagsOf_new hn]
        rfl
    · rw [hm.flagsOf_old hl]
      rcases hs.flags hl (by rw [hloc]; exact List.not_mem_nil) with e | e <;> rw [e] <;> rfl
  · simp [flagsOf_not_live hp]

/-- A sweep that finds no mark frees the child base object. -/
theorem child_fails : ∃ (c₀ : Client) (child : Ptr) (s₁ s' : Sys),
    Start (.plain fun _ => true) .standard c₀ ∧
    xBaseMake (.plain fun _ => true) c₀.root .standard c₀.sys = .ok child s₁ ∧
    xHeapSweep (.plain fun _ => true) c₀.root (s₁.next c₀.root) xObjFlagMark s₁ =
      .ok c₀.root s' ∧
    ¬ Intact c₀.sys s₁ child s' := by
  obtain ⟨c₀, hs, hloc⟩ := Start.exists (.plain fun _ => true) .standard
    (fun _ _ _ => rfl) rfl rfl
  obtain ⟨L, t, k, h⟩ := hs.inv
  obtain ⟨child, a, new, t₀, s₁, hrun, hm⟩ := xBaseMake_bare (.plain fun _ => true)
    .standard hs.bare rfl
  obtain ⟨L', h'⟩ := h.nested h.root_mem hm
  have ho : Client.OwnReady { c₀ with sys := s₁ } xObjFlagMark :=
    .of_flags (hs.child_flags hloc hm)
  obtain ⟨s', fn, hrun', hsw, -⟩ := h'.heap.sweepRoot Env.plain_inert (by decide) ho
  refine ⟨c₀, child, s₁, s', hs, hrun, hrun', fun hi => ?_⟩
  have hl := hi.live child (h'.live (.head _)) hm.new_base
  have hk := ((hsw.live child).mp hl).2 (h'.nodes child (.head _))
  rw [kept_eq_true, show Sys.flagsOf _ child = _ from
    hm.flagsOf_base (extraOf_of_not_full hs.bare.not_full)] at hk
  exact hk.elim (fun h => h.2 rfl) fun h => h rfl

/-- A sweep keeps a child that was marked. -/
theorem child_intact_standard : ∃ (c₀ : Client) (child r : Ptr) (s₁ s₂ s' : Sys),
    xBaseMake (.plain fun _ => true) c₀.root .standard c₀.sys = .ok child s₁ ∧
    xHeapTreeMark (.plain fun _ => true) c₀.root child xObjFlagMark s₁ = .ok r s₂ ∧
    xHeapSweep (.plain fun _ => true) c₀.root (s₂.next c₀.root) xObjFlagMark s₂ =
      .ok c₀.root s' ∧
    Intact c₀.sys s₁ child s' := by
  obtain ⟨c₀, hs, hloc⟩ := Start.exists (.plain fun _ => true) .standard
    (fun _ _ _ => rfl) rfl rfl
  obtain ⟨L, t, k, h⟩ := hs.inv
  obtain ⟨child, a, new, t₀, s₁, hrun, hm⟩ := xBaseMake_bare (.plain fun _ => true)
    .standard hs.bare rfl
  obtain ⟨L', h'⟩ := h.nested h.root_mem hm
  have ht : s₁.typeOf child ≠ xTypePairObj := by rw [hm.typeOf_base]; decide
  have hw : s₁.Walkable (.plain fun _ => true) c₀.root (s₁.markHook c₀.root) child :=
    walkable_plain (h'.live (.head _)) ht
  obtain ⟨r, s₂, hrun₂, hm₂⟩ := xHeapTreeMark_run (F := xObjFlagMark) h'.heap.markHook fun _ => hw
  have h₂ := h'.marked hm₂
  have hk : s₂.kept xObjFlagMark child = true := by
    rw [kept_eq_true, (hm₂.plain (h'.live (.head _)) ht).flags_mem child rfl (h'.live (.head _)),
      Flags.or_and_self]
    exact .inl ⟨by decide, by decide⟩
  have ho : Client.OwnReady { c₀ with sys := s₂ } xObjFlagMark := by
    refine .of_flags fun p => ?_
    have hd : xObjFlagMark &&& xObjFlagOwn = 0 := by decide
    rw [show Client.sys { c₀ with sys := s₂ } = s₂ from rfl, ← Flags.clear_and hd,
      Marked.others hm₂, Flags.clear_and hd]
    exact hs.child_flags hloc hm p
  obtain ⟨s', -, hrun₃, -⟩ := h₂.heap.sweepRoot Env.plain_inert (by decide) ho
  refine ⟨c₀, child, r, s₁, s₂, s', hrun, hrun₂, hrun₃, ?_⟩
  exact child_intact Env.plain_inert hs .refl h.root_mem hrun
    ((ReflTransGen.single (.treeMark hrun₂)).tail
      (.sweep (c := { c₀ with sys := s₂ }) (by decide) ho hk hrun₃))

end XExpr
