import XExpr.Heap.Sweep

/-!
# Marking before a sweep

The mark phase of a collection is a client of `x_heap_tree_mark` and `x_heap_root_chain_mark`:
some roots are marked, then the registered objects, then other roots.

* `markAll_run`: marking from a list of roots.
* `markPhase_run`: the marks at the end are `Reach.markRoots` of those before, and nothing but the
  marks has changed.
-/

namespace XExpr

open Sys Chain Relation

/-- Marking from some roots, one after the other. -/
def markAll (env : Env) (b : Ptr) (F : Flags) : List Ptr → M Unit
  | [] => return
  | r :: l => do
    let _ ← xHeapTreeMark env b r F
    markAll env b F l

/-- The mark phase: the registered objects are marked between the roots `l₁` and `l₂`. -/
def markPhase (env : Env) (b : Ptr) (F : Flags) (l₁ l₂ : List Ptr) : M Unit := do
  markAll env b F l₁
  let _ ← xHeapRootChainMark env b F
  markAll env b F l₂

/-- A collection: the mark phase and a sweep of the chain behind the base. -/
def collect (env : Env) (b : Ptr) (F : Flags) (l₁ l₂ : List Ptr) : M Unit := do
  markPhase env b F l₁ l₂
  let _ ← xHeapSweep env b (← xObjHeap b) F

variable {env : Env} {s s' : Sys} {b p h : Ptr} {fn : Word} {F : Flags} {l l₁ l₂ K : List Ptr}

theorem nonNil_eq (hl : nil ∉ l) : nonNil l = l :=
  List.filter_eq_self.mpr fun q hq => decide_eq_true fun e : q = nil => hl (e ▸ hq)

theorem markAll_run (hfn : s.hookWord .heapMark b = some fn) (hw : s.WalkableFrom env b fn l) :
    ∃ s', markAll env b F l s = .ok () s' ∧ MarkedFrom env b fn F s l s' := by
  induction l generalizing s with
  | nil => exact ⟨s, rfl, .nil s⟩
  | cons q l ih =>
    have hw₁ : s.WalkableFrom env b fn [q] := fun x hx =>
      hw x (mem_nonNil.mpr ⟨by rw [List.mem_singleton.mp (mem_nonNil.mp hx).1]; exact .head _,
        (mem_nonNil.mp hx).2⟩)
    have hw₂ : s.WalkableFrom env b fn l := fun x hx =>
      hw x (mem_nonNil.mpr ⟨.tail _ (mem_nonNil.mp hx).1, (mem_nonNil.mp hx).2⟩)
    obtain ⟨r, s₁, hrun, h₁⟩ := xHeapTreeMark_run (F := F) hfn fun hq =>
      hw₁ q (mem_nonNil.mpr ⟨.head _, hq⟩)
    obtain ⟨s₂, hrun₂, h₂⟩ := ih (h₁.same.hookWord.trans hfn) (h₁.same.walkableFrom.mpr hw₂)
    exact ⟨s₂, (Prog.bind_of_ok hrun).trans hrun₂, h₁.append h₂ hw₁⟩

/-- Clearing takes the marks away. -/
theorem Cleared.marks (hc : Cleared s F l s') (hF : F ≠ 0) :
    s'.marks F = s.marks F \ {p | p ∈ l} := by
  ext p
  simp only [Sys.marks, Set.mem_ofPred_eq, Set.mem_sdiff]
  by_cases hp : p ∈ l
  · rw [hc.flags_mem p hp, Flags.clear_and_self]
    exact iff_of_false hF.symm fun h => h.2 hp
  · rw [hc.flags_notMem p hp]
    simp [hp]

theorem Marked.others {A : Set Ptr} (hm : Marked s F A s') (p : Ptr) :
    s'.flagsOf p &&& ~~~F = s.flagsOf p &&& ~~~F := by
  by_cases hl : s.Live p
  · by_cases hA : p ∈ A
    · rw [hm.flags_mem p hA hl, Flags.or_clear_self]
    · rw [hm.flags_notMem p hA]
  · have h₁ : s.obj p = none := not_live_iff.mp hl
    have h₂ : s'.obj p = none := not_live_iff.mp (mt hm.same.live.mp hl)
    simp [flagsOf, h₁, h₂]

/-- On an object, marking sets all of `F` or nothing. -/
theorem Marked.all_or_none {A : Set Ptr} (hm : Marked s F A s') (hp : s.Live p) :
    s'.flagsOf p = s.flagsOf p ∨ s'.flagsOf p = s.flagsOf p ||| F := by
  by_cases hA : p ∈ A
  · exact .inr (hm.flags_mem p hA hp)
  · exact .inl (hm.flags_notMem p hA)

/-- `s'` is `s` after a mark phase from `l₁` and `l₂` with the registered objects `K`. -/
structure PhaseMarked (env : Env) (s : Sys) (b : Ptr) (fn : Word) (F : Flags)
    (l₁ K l₂ : List Ptr) (s' : Sys) : Prop where
  same : s.SameButFlags s'
  marks : s'.marks F = Reach.markRoots (s.Edge env b fn) (s.marks F) l₁ K l₂
  all_or_none : ∀ p, s.Live p → p ∉ K →
    s'.flagsOf p = s.flagsOf p ∨ s'.flagsOf p = s.flagsOf p ||| F
  others : ∀ p, s'.flagsOf p &&& ~~~F = s.flagsOf p &&& ~~~F
  block : s'.blocks = s.blocks
  requests : s'.requests = s.requests
  trace : s'.trace = s.trace

theorem markPhase_run (env : Env) (l₁ l₂ : List Ptr) (hF : F ≠ 0) (hset : s.IsSet b)
    (hfn : s.hookWord .heapMark b = some fn)
    (hhead : s.fieldObj b .heapRootChain = some h) (hseg : Seg s.next h K nil) (hn : K.Nodup)
    (hl : ∀ q ∈ K, s.Live q) (h₁ : nil ∉ l₁) (h₂ : nil ∉ l₂)
    (hw : ∀ q ∈ l₁ ++ K ++ l₂, s.Walkable env b fn q) :
    ∃ s', markPhase env b F l₁ l₂ s = .ok () s' ∧ PhaseMarked env s b fn F l₁ K l₂ s' := by
  have hK : nil ∉ K := fun hm => not_live_nil (hl nil hm)
  have hw' : ∀ l, l ⊆ l₁ ++ K ++ l₂ → s.WalkableFrom env b fn l := fun l hl q hq =>
    hw q (hl (mem_nonNil.mp hq).1)
  have hw₁ := hw' l₁ fun q hq => List.mem_append_left _ (List.mem_append_left _ hq)
  have hwK := hw' K fun q hq => List.mem_append_left _ (List.mem_append_right _ hq)
  have hw₂ := hw' l₂ fun q hq => List.mem_append_right _ hq
  obtain ⟨s₁, hrun₁, hm₁⟩ := markAll_run (F := F) hfn hw₁
  obtain ⟨s₂, s₃, hrun₂, hc, hm₂⟩ := xHeapRootChainMark_run (F := F) (hm₁.same.isSet.mpr hset)
    (hm₁.same.hookWord.trans hfn) (by rw [fieldObj, hm₁.same.unit]; exact hhead)
    (hseg.congr fun q _ => hm₁.same.next) hn (fun q hq => hm₁.same.live.mpr (hl q hq))
    (hm₁.same.walkableFrom.mpr hwK)
  have hs₂ : s.SameButFlags s₂ := hm₁.same.trans hc.same
  have hs₃ : s.SameButFlags s₃ := hs₂.trans hm₂.same
  obtain ⟨s₄, hrun₃, hm₃⟩ := markAll_run (F := F) (hs₃.hookWord.trans hfn)
    (hs₃.walkableFrom.mpr hw₂)
  refine ⟨s₄, ?_, hs₃.trans hm₃.same, ?_, fun p hp hpK => ?_, fun p => ?_, ?_, ?_, ?_⟩
  · unfold markPhase
    rw [Prog.bind_of_ok hrun₁, Prog.bind_of_ok hrun₂]
    exact hrun₃
  · rw [hm₃.marks (hs₃.walkableFrom.mpr hw₂), hm₂.marks (hs₂.walkableFrom.mpr hwK), hc.marks hF,
      hm₁.marks hw₁, nonNil_eq h₁, nonNil_eq h₂, nonNil_eq hK, hs₃.edge, hs₂.edge]
    rfl
  · have h₁ := Marked.all_or_none hm₁ hp
    have h₂ := Marked.all_or_none hm₂ (hs₂.live.mpr hp)
    have h₃ := Marked.all_or_none hm₃ (hs₃.live.mpr hp)
    rw [hc.flags_notMem p hpK] at h₂
    have hor : (s.flagsOf p ||| F) ||| F = s.flagsOf p ||| F := Flags.or_or_self
    rcases h₁ with e₁ | e₁ <;> rcases h₂ with e₂ | e₂ <;> rcases h₃ with e₃ | e₃ <;>
      simp [e₁, e₂, e₃, hor]
  · rw [Marked.others hm₃, Marked.others hm₂, ← Marked.others hm₁]
    by_cases hp : p ∈ K
    · rw [hc.flags_mem p hp, Flags.clear_clear_self]
    · rw [hc.flags_notMem p hp]
  · exact hm₃.block.trans (hm₂.block.trans (hc.block.trans hm₁.block))
  · exact hm₃.requests.trans (hm₂.requests.trans (hc.requests.trans hm₁.requests))
  · exact hm₃.trace.trans (hm₂.trace.trans (hc.trace.trans hm₁.trace))

namespace PhaseMarked

/-- If no object of the chain was marked before, then those are marked afterwards that the roots
reach. -/
theorem mem_marks {L : List Ptr} (h : PhaseMarked env s b fn F l₁ K l₂ s')
    (hL : ∀ p ∈ L, p ∉ s.marks F)
    (hoff : ∀ x, (∃ r ∈ l₁ ++ K ++ l₂, ReflTransGen (s.Edge env b fn) r x) → x ∉ L → x ∉ K →
      ∀ q, ¬ s.Edge env b fn x q) (hp : p ∈ L) :
    p ∈ s'.marks F ↔ ∃ r ∈ l₁ ++ K ++ l₂, ReflTransGen (s.Edge env b fn) r p := by
  rw [h.marks]
  refine ⟨fun hm => (Reach.markRoots_subset hm).resolve_left (hL p hp), fun hr => ?_⟩
  exact Reach.reach_subset_markRoots
    (fun x hx hR hK => hoff x hR (fun hxL => hL x hxL hx) hK) hr

/-- The test of the sweep, afterwards. -/
theorem kept (h : PhaseMarked env s b fn F l₁ K l₂ s') (hF : F ≠ 0) (hp : s.Live p)
    (hpK : p ∉ K) (hclean : s.flagsOf p &&& F = 0) :
    s'.kept F p = true ↔ p ∈ s'.marks F ∨ s.flagsOf p &&& xObjFlagShared ≠ 0 := by
  rw [kept_eq_true]
  simp only [Sys.marks, Set.mem_ofPred_eq]
  rcases h.all_or_none p hp hpK with e | e
  · rw [e, hclean]
    exact or_congr (iff_of_false (fun h => h.2 rfl) hF.symm) Iff.rfl
  · rw [e, Flags.or_and_self]
    exact iff_of_true (.inl ⟨hF, hF⟩) (.inl rfl)

/-- Bits outside `F` are not touched. -/
theorem flags_and {g : Flags} (h : PhaseMarked env s b fn F l₁ K l₂ s') (hg : F &&& g = 0) :
    s'.flagsOf p &&& g = s.flagsOf p &&& g := by
  rw [← Flags.clear_and hg, h.others, Flags.clear_and hg]

end PhaseMarked

end XExpr
