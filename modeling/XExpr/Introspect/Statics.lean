import XExpr.Heap.WellFormed
import XExpr.Introspect.Prim

/-!
# The static atoms

What introspection answers for the built-in types stands in static atoms. A program may use the
library in any way as long as it does not store other values into them.

* `LoadedStep`: the steps of such a program.
* `HeapInv.unit_made` and the lemmas behind it: the calls that change units of objects leave those
  of the objects outside the chain.
* `LoadedStep.run`: the static atoms hold their values in every state of every run.
-/

namespace XExpr

open Sys Relation

/-- The static atoms are there, with their values. -/
def Client.Loaded (c : Client) : Prop :=
  ∀ x ∈ staticAtoms, x.1 ∈ c.locals ∧ c.sys.unit x.1 0 = some x.2

/-- A store of another value into a static atom. -/
def Sys.Spoils (s s' : Sys) : Prop :=
  ∃ x ∈ staticAtoms, ∃ i w, setXObjDataI x.1 i w s = .ok () s' ∧ s.unit x.1 i ≠ some w

/-- Steps of a program that does not change the static atoms. -/
def LoadedStep (env : Env) (c c' : Client) : Prop :=
  Mutate env 0 c c' ∧ ¬ c.sys.Spoils c'.sys ∨ Collect env c c'

variable {env : Env} {c c' c₀ : Client} {s s' : Sys} {p q b t a w cell : Ptr} {v : Word}
  {fl : Flags} {data : List Word} {cfg : XBaseT} {i : Nat} {o : Obj}

theorem Client.Loaded.keep (h : c.Loaded) (hl : c.locals ⊆ c'.locals)
    (hu : ∀ x ∈ staticAtoms, x.1 ∈ c.locals → c'.sys.unit x.1 0 = c.sys.unit x.1 0) :
    c'.Loaded := fun x hx =>
  ⟨hl (h x hx).1, (hu x hx (h x hx).1).trans (h x hx).2⟩

/-! ## Objects outside the chain -/

section Locals

variable {L : List Ptr} {d : Ptr → Cells Word} {k : Ptr → Kept}

/-- An object outside the chain is no cell of a base. -/
theorem HeapInv.local_ne_node (h : HeapInv c L d k) (hb : b ∈ c.bases) (hp : p ∈ c.locals)
    (hq : q ∈ (d b).nodes) : p ≠ q := fun e =>
  h.chain.apart p hp (.tail _ (h.nodes b hb (e ▸ hq)))

/-- Nor is it the atom that counts the objects. -/
theorem HeapInv.local_ne_count (h : HeapInv c L d k) (hb : b ∈ c.bases) (hp : p ∈ c.locals) :
    c.sys.fieldObj b .allocCount ≠ some p := fun e => by
  obtain ⟨x, -, hx, hmem, -⟩ := (h.base b hb).tree.fieldAtom (f := .allocCount) rfl
  exact h.local_ne_node hb hp hmem (Option.some.inj (e.symm.trans hx))

theorem HeapInv.unit_made (h : HeapInv c L d k) (hb : b ∈ c.bases)
    (hm : Made c.sys b t fl data q a s') (hp : p ∈ c.locals) :
    s'.unit p i = c.sys.unit p i := by
  have hne : p ≠ q := fun e => hm.new (e ▸ h.chain.local_live hp)
  exact (hm.unit_old p i hne).trans (if_neg fun e => h.local_ne_count hb hp e.2.1)

theorem HeapInv.unit_baseMade {new : List Ptr} {t : Cells Word} (h : HeapInv c L d k)
    (hb : b ∈ c.bases) (hm : BaseMade env c.sys b cfg q a new t s') (hp : p ∈ c.locals) :
    s'.unit p i = c.sys.unit p i :=
  (hm.unit_old (h.chain.local_live hp)).trans (if_neg fun e => h.local_ne_count hb hp e.2.1)

theorem HeapInv.unit_place (h : HeapInv c L d k) (hn : nil < q) (hq : ¬ c.sys.Live q)
    (hp : p ∈ c.locals) : (c.sys.place q o).unit p i = c.sys.unit p i :=
  (Sys.unit_place hn).trans (if_neg fun e : p = q => hq (e ▸ h.chain.local_live hp))

/-- A store into a cell of a base. -/
theorem HeapInv.unit_cell (h : HeapInv c L d k) (hb : b ∈ c.bases) (hc : cell ∈ (d b).nodes)
    (hu : s.unit cell 0 = some v) (hp : p ∈ c.locals) :
    (s.setUnit cell 0 w).unit p i = s.unit p i :=
  (unit_setUnit hu).trans (if_neg fun e => h.local_ne_node hb hp hc e.1)

end Locals

/-! ## Runs -/

/-- What holds in each state of a run. -/
structure LoadedInv (c : Client) : Prop where
  heap : ∃ L d k, HeapInv c L d k
  loaded : c.Loaded

theorem Collect.loaded (hin : env.FreeInert) (h : LoadedInv c) (hs : Collect env c c') :
    LoadedInv c' := by
  obtain ⟨L, d, k, hi⟩ := h.heap
  refine ⟨hs.inv hin hi, ?_⟩
  cases hs with
  | treeMark hb hr =>
    obtain ⟨A, hA⟩ := xHeapTreeMark_ok hr
    exact h.loaded.keep (List.Subset.refl _) fun x _ _ => by rw [hA.same.unit]
  | rootChainMark hb hr =>
    obtain ⟨s₁, A, hc, hA⟩ := hi.rootChainMark_ok hb hr
    exact h.loaded.keep (List.Subset.refl _) fun x _ _ => by rw [(hc.same.trans hA.same).unit]
  | chainClear hF hr =>
    obtain ⟨l, hc⟩ := xHeapChainClear_ok hr
    exact h.loaded.keep (List.Subset.refl _) fun x _ _ => by rw [hc.same.unit]
  | sweep hb hF ho hr =>
    obtain ⟨s', fn, l₁, l₂, L', hrun, -, hw, -, hi'⟩ := hi.sweep hin hb hF ho
    cases hr.symm.trans hrun
    refine h.loaded.keep (List.Subset.refl _) fun x _ hx => ?_
    rw [hw.unit _ _ (hi'.chain.local_live hx), if_neg]
    exact fun e => hi.local_ne_count hb hx e.2.1

theorem Mutate.loaded (h : LoadedInv c) (hs : Mutate env 0 c c') (hw : ¬ c.sys.Spoils c'.sys) :
    LoadedInv c' := by
  obtain ⟨L, d, k, hi⟩ := h.heap
  refine ⟨hs.inv hi, h.loaded.keep hs.locals_subset fun x hx hxl => ?_⟩
  cases hs with
  | alloc hb _ hr =>
    rcases xObjAlloc_ok hr with ⟨-, -, -, rfl⟩ | ⟨a, data, -, hm, -⟩
    · rfl
    · exact hi.unit_made hb hm hxl
  | make hb _ hr =>
    rcases xObjMake_ok hr with ⟨-, -, -, rfl⟩ | ⟨a, -, hm⟩
    · rfl
    · exact hi.unit_made hb hm hxl
  | baseMake hb hg hm hf hr =>
    obtain ⟨a, new, t₀, hmade⟩ := xBaseMake_ok hr
    exact hi.unit_baseMade hb hmade hxl
  | setType hp hr =>
    obtain ⟨hl, rfl⟩ := setXObjType_ok.mp hr
    exact unit_setType
  | @write p j w s' hg hr =>
    obtain ⟨⟨v, hv⟩, rfl⟩ := setXObjDataI_ok.mp hr
    rw [unit_setUnit hv]
    split
    · next e =>
      -- The value was there before, or else the store would be excluded.
      obtain ⟨rfl, rfl⟩ := e
      by_contra hne
      exact hw ⟨x, hx, 0, w, hr, fun hv => hne hv.symm⟩
    · rfl
  | malloc hr =>
    rw [xSysMalloc_eq] at hr
    split at hr <;> cases hr <;> rfl
  | newLocal hn hp _ => exact hi.unit_place hn hp hxl
  | rootPush hb hp hnew hs hr =>
    obtain ⟨cell, hc, hu, hmem⟩ := hi.rootSlot hb
    cases hs.symm.trans (xHeapRootSlot_run (hi.base _ hb).tree.isSet hc)
    cases hr.symm.trans (xHeapRootPush_run hu (hi.chain.local_live hp))
    exact (hi.unit_cell hb hmem (unit_setHeap.trans hu) hxl).trans unit_setHeap
  | rootPop hb hK hs hr =>
    obtain ⟨cell, hc, hu, hmem⟩ := hi.rootSlot hb
    have hbase := hi.base _ hb
    cases hs.symm.trans (xHeapRootSlot_run hbase.tree.isSet hc)
    have hseg := hbase.roots
    rw [hK] at hseg
    rw [hseg.1] at hu
    cases hr.symm.trans (xHeapRootPop_run hu (hi.chain.local_live (hbase.subset (hK ▸ .head _))))
    exact hi.unit_cell hb hmem hu hxl
  | rootRestore hb hK hr =>
    obtain ⟨cell, hc, hu, hmem⟩ := hi.rootSlot hb
    cases hr.symm.trans (setXHeapRootChain_run hc hu)
    exact hi.unit_cell hb hmem hu hxl

theorem LoadedStep.loaded (hin : env.FreeInert) (h : LoadedInv c) (hs : LoadedStep env c c') :
    LoadedInv c' := by
  rcases hs with ⟨hs, hw⟩ | hs
  · exact hs.loaded h hw
  · exact hs.loaded hin h

/-- The static atoms hold their values in every state of every run. -/
theorem LoadedStep.run (hin : env.FreeInert) (hs : Start env cfg c₀) (hl : c₀.Loaded)
    (hr : ReflTransGen (LoadedStep env) c₀ c) : LoadedInv c :=
  Prog.invariant (I := LoadedInv) (fun _ _ h hst => hst.loaded hin h) hr ⟨hs.inv, hl⟩

/-- A call that makes an object does more than a store. -/
theorem Made.not_spoils (hm : Made s b t fl data p a s') : ¬ s.Spoils s' := by
  rintro ⟨x, hx, i, w, hr, -⟩
  obtain ⟨-, rfl⟩ := setXObjDataI_ok.mp hr
  exact hm.new (live_setUnit.mp ((hm.live p).mpr (.inl rfl)))

/-! ## A memory with them -/

/-- A memory with the static atoms. -/
def staticMemory : Sys :=
  staticAtoms.foldl (fun s x => s.place x.1 ⟨nil, nil, xObjFlagNone, [], [x.2]⟩) .empty

theorem staticMemory_live {q : Ptr} :
    staticMemory.Live q ↔ q ∈ staticAtoms.map Prod.fst := by
  rw [staticMemory, live_foldl_place (by decide)]
  exact or_iff_left Finmap.notMem_empty

end XExpr
