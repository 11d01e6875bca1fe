import XExpr.Heap.Collect
import XExpr.Lib.Chain
import XExpr.Lib.Reach
import XExpr.Obj.AllocLemmas

/-!
# What marking does

The successors of an object are the first and the rest of a built-in pair, and what the mark hook
reports for an object that is not a pair (`Sys.Edge`). Marking changes nothing but flags, so the
graph stays the same while it is marked, and `x_heap_tree_mark` computes `Reach.mark` on it.

* `Marked`: the memory after a set of objects was marked.
* `loopMarks`, `xHeapTreeMark_run`: on a graph whose objects are there, the marker returns,
  and it has marked what a path of unmarked objects joins to its root.
* `xHeapChainClear_run`: a terminated chain is cleared, and nothing else changes.
* `xHeapRootChainMark_run`: the registered objects are cleared and marked one after the other.
-/

namespace XExpr

open Sys Relation Chain

/-! ## Memories that differ in flags only -/

namespace Sys

variable {s s' s'' : Sys} {p q b : Ptr} {i : Nat} {f : Field}

theorem SameButFlags.refl (s : Sys) : s.SameButFlags s := fun _ => rfl

theorem SameButFlags.trans (h : s.SameButFlags s') (h' : s'.SameButFlags s'') :
    s.SameButFlags s'' := fun p => (h p).trans (h' p)

theorem SameButFlags.map {α : Type} {g : Obj → α} (h : s.SameButFlags s')
    (hg : ∀ o : Obj, g { o with flags := 0 } = g o) :
    (s'.obj p).map g = (s.obj p).map g := by
  have e := congrArg (Option.map g) (h p)
  simp only [Option.map_map, Function.comp_def, hg] at e
  exact e.symm

theorem SameButFlags.live (h : s.SameButFlags s') : s'.Live p ↔ s.Live p := by
  have e := h.map (p := p) (g := fun _ => ()) fun _ => rfl
  rw [live_iff, live_iff, ← Option.isSome_iff_exists, ← Option.isSome_iff_exists,
    ← Option.isSome_map (f := fun _ => ()), e, Option.isSome_map]

theorem SameButFlags.next (h : s.SameButFlags s') : s'.next p = s.next p :=
  congrArg (Option.getD · nil) (h.map fun _ => rfl)

theorem SameButFlags.typeOf (h : s.SameButFlags s') : s'.typeOf p = s.typeOf p :=
  congrArg (Option.getD · nil) (h.map fun _ => rfl)

theorem SameButFlags.dataOf (h : s.SameButFlags s') : s'.dataOf p = s.dataOf p :=
  congrArg (Option.getD · []) (h.map fun _ => rfl)

theorem SameButFlags.extrasOf (h : s.SameButFlags s') : s'.extrasOf p = s.extrasOf p :=
  congrArg (Option.getD · []) (h.map fun _ => rfl)

theorem SameButFlags.unit (h : s.SameButFlags s') : s'.unit = s.unit := by
  funext p i
  rw [Sys.unit, Sys.unit, h.dataOf]

theorem SameButFlags.setFlags (s : Sys) (p : Ptr) (fl : Flags) :
    s.SameButFlags (s.setFlags p fl) := fun _ =>
  (map_modify (f := fun o => { o with flags := fl }) fun _ => rfl).symm

/-- The function in a heap hook, as the heap functions look it up. -/
def hookWord (s : Sys) (f : Field) (b : Ptr) : Option Word :=
  if s.IsSet b then
    (s.fieldObj b f).bind fun a => if a = nil then some nil else s.unit a 0
  else if b = nil ∨ (s.unit b 0).isSome then some nil else none

theorem SameButFlags.isSet (h : s.SameButFlags s') : s'.IsSet b ↔ s.IsSet b := by
  simp only [IsSet, h.unit]

theorem SameButFlags.hookWord (h : s.SameButFlags s') : s'.hookWord f b = s.hookWord f b := by
  simp only [Sys.hookWord, h.isSet, fieldObj, h.unit]

end Sys

theorem heapFn_run {s : Sys} {f : Field} {b : Ptr} {w : Word} (h : s.hookWord f b = some w) :
    heapFn f b s = .ok w s := by
  unfold hookWord at h
  unfold heapFn
  split at h
  · next hs =>
    rw [Prog.bind_of_ok (xBaseIsset_run hs), if_pos rfl]
    obtain ⟨a, ha, h⟩ := Option.bind_eq_some_iff.mp h
    rw [Prog.bind_of_ok (Field.obj_run ha)]
    split at h
    · next e =>
      cases h
      simp [e]
    · next e => simpa [e] using xFirst_eq h
  · next hs =>
    split at h
    · next hb =>
      cases h
      have hr : xBaseIsset b s = .ok false s := by
        refine xBaseIsset_ok.mpr ⟨?_, by simp [hs], rfl⟩
        exact hb.imp id fun hu => Option.isSome_iff_exists.mp hu
      rw [Prog.bind_of_ok hr]
      rfl
    · cases h

/-! ## The graph -/

section Graph

variable (env : Env) (s : Sys) (b : Ptr) (fn : Word)

/-- `q` is a successor of `p`, where `fn` is the mark hook of the base `b`. -/
def Sys.Edge (p q : Ptr) : Prop :=
  q ≠ nil ∧
    (s.typeOf p = xTypePairObj ∧ (s.unit p 0 = some q ∨ s.unit p 1 = some q) ∨
      s.typeOf p ≠ xTypePairObj ∧ fn ≠ nil ∧
        (q ∈ ((env.markFn fn).report s b p).1 ∨ q = ((env.markFn fn).report s b p).2))

/-- The successors of `p` in the order in which they are marked. -/
def Sys.succs (p : Ptr) : List Ptr :=
  if s.typeOf p = xTypePairObj then (s.unit p 0).toList ++ (s.unit p 1).toList
  else if fn ≠ nil then
    ((env.markFn fn).report s b p).1 ++ [((env.markFn fn).report s b p).2]
  else []

/-- The marker can be sent to `p`: everything reachable is there, and pairs have two units. -/
def Sys.Walkable (p : Ptr) : Prop :=
  ∀ q, ReflTransGen (s.Edge env b fn) p q →
    s.Live q ∧ (s.typeOf q = xTypePairObj → ∃ x y, s.unit q 0 = some x ∧ s.unit q 1 = some y)

/-- The objects that carry all of `F`. -/
def Sys.marks (F : Flags) : Set Ptr := {p | s.flagsOf p &&& F = F}

variable {env s b fn} {s' s'' : Sys} {p q : Ptr} {F : Flags}

theorem Sys.mem_succs : q ∈ (s.succs env b fn p).filter (· ≠ nil) ↔ s.Edge env b fn p q := by
  unfold succs Edge
  rw [List.mem_filter]
  by_cases hp : s.typeOf p = xTypePairObj
  · simp only [hp, if_true, List.mem_append, Option.mem_toList]
    simp [and_comm]
  · by_cases hf : fn = nil
    · simp [hp, hf]
    · simp [hp, hf, and_comm]

theorem Sys.SameButFlags.edge (h : s.SameButFlags s') :
    s'.Edge env b fn = s.Edge env b fn := by
  funext p q
  simp only [Edge, h.typeOf, h.unit, ← (env.markFn fn).stable s s' h]

theorem Sys.SameButFlags.walkable (h : s.SameButFlags s') :
    s'.Walkable env b fn p ↔ s.Walkable env b fn p := by
  simp only [Walkable, h.edge, h.live, h.typeOf, h.unit]

theorem Sys.Walkable.edge (h : s.Walkable env b fn p) (he : s.Edge env b fn p q) :
    s.Walkable env b fn q := fun x hx => h x (.head he hx)

theorem Sys.Walkable.live (h : s.Walkable env b fn p) : s.Live p := (h p .refl).1

/-- Everything reached from `p` is in a set of objects that is closed. -/
theorem walkable_of_closed {R : Ptr → Prop} (hp : R p)
    (hclosed : ∀ x y, R x → s.Edge env b fn x y → R y)
    (hl : ∀ x, R x → s.Live x ∧
      (s.typeOf x = xTypePairObj → ∃ y z, s.unit x 0 = some y ∧ s.unit x 1 = some z)) :
    s.Walkable env b fn p := by
  intro x hx
  refine hl x ?_
  induction hx with
  | refl => exact hp
  | tail _ he ih => exact hclosed _ _ ih he

end Graph

/-! ## A marked memory -/

/-- `s'` is `s` with all of `F` set on the objects in `A`. -/
structure Marked (s : Sys) (F : Flags) (A : Set Ptr) (s' : Sys) : Prop where
  same : s.SameButFlags s'
  flags_mem : ∀ p ∈ A, s.Live p → s'.flagsOf p = s.flagsOf p ||| F
  flags_notMem : ∀ p, p ∉ A → s'.flagsOf p = s.flagsOf p
  block : s'.blocks = s.blocks
  requests : s'.requests = s.requests
  trace : s'.trace = s.trace

namespace Marked

variable {s s' s'' : Sys} {F : Flags} {A A' : Set Ptr} {p : Ptr}

theorem refl (s : Sys) (F : Flags) : Marked s F (s.marks F) s where
  same := .refl s
  flags_mem _ hp _ := (Flags.or_of_and hp).symm
  flags_notMem _ _ := rfl
  block := rfl
  requests := rfl
  trace := rfl

/-- The objects that carry `F` afterwards. -/
theorem marks (h : Marked s F A s') (hA : s.marks F ⊆ A) (hl : ∀ p ∈ A, p ∈ s.marks F ∨ s.Live p) :
    s'.marks F = A := by
  ext p
  by_cases hp : p ∈ A
  · simp only [Sys.marks, Set.mem_ofPred_eq, hp, iff_true]
    by_cases hlive : s.Live p
    · rw [h.flags_mem p hp hlive, Flags.or_and_self]
    · have h₁ : s'.flagsOf p = s.flagsOf p := by
        rw [flagsOf_not_live hlive, flagsOf_not_live (mt h.same.live.mp hlive)]
      rw [h₁]
      exact (hl p hp).resolve_right hlive
  · simp only [hp, iff_false]
    intro hm
    exact hp (hA (show s.flagsOf p &&& F = F by rw [← h.flags_notMem p hp]; exact hm))

theorem trans (h : Marked s F A s') (h' : Marked s' F A' s'') (hA : A ⊆ A') :
    Marked s F A' s'' where
  same := h.same.trans h'.same
  flags_mem p hp hl := by
    rw [h'.flags_mem p hp (h.same.live.mpr hl)]
    by_cases hpA : p ∈ A
    · rw [h.flags_mem p hpA hl, Flags.or_or_self]
    · rw [h.flags_notMem p hpA]
  flags_notMem p hp := by rw [h'.flags_notMem p hp, h.flags_notMem p fun hm => hp (hA hm)]
  block := h'.block.trans h.block
  requests := h'.requests.trans h.requests
  trace := h'.trace.trans h.trace

theorem union (h : Marked s F A s') (h' : Marked s' F A' s'') : Marked s F (A ∪ A') s'' where
  same := h.same.trans h'.same
  flags_mem p hp hl := by
    have hl' := h.same.live.mpr hl
    by_cases hA' : p ∈ A'
    · rw [h'.flags_mem p hA' hl']
      by_cases hA : p ∈ A
      · rw [h.flags_mem p hA hl, Flags.or_or_self]
      · rw [h.flags_notMem p hA]
    · rw [h'.flags_notMem p hA', h.flags_mem p (hp.resolve_right hA') hl]
  flags_notMem p hp := by
    rw [h'.flags_notMem p fun hm => hp (.inr hm), h.flags_notMem p fun hm => hp (.inl hm)]
  block := h'.block.trans h.block
  requests := h'.requests.trans h.requests
  trace := h'.trace.trans h.trace

/-- One object marked. -/
theorem setFlags (hp : s.Live p) :
    Marked s F (insert p (s.marks F)) (s.setFlags p (s.flagsOf p ||| F)) where
  same := .setFlags s p _
  flags_mem q hq _ := by
    rw [flagsOf_setFlags hp]
    split
    · next e => rw [e]
    · next e => exact (Flags.or_of_and (hq.resolve_left e)).symm
  flags_notMem q hq := by
    rw [flagsOf_setFlags hp, if_neg fun e => hq (.inl e)]
  block := blocks_modify
  requests := requests_modify
  trace := trace_modify

end Marked

/-! ## Marking from a list of roots -/

section MarkedFrom

variable (env : Env) (b : Ptr) (fn : Word) (F : Flags)

/-- The roots of a list that are not nil. -/
def nonNil (l : List Ptr) : List Ptr := l.filter (· ≠ nil)

/-- `s'` is `s` marked from the roots `l`, one after the other. -/
def MarkedFrom (s : Sys) (l : List Ptr) (s' : Sys) : Prop :=
  Marked s F (Reach.markList (s.Edge env b fn) (s.marks F) (nonNil l)) s'

/-- The marker can be sent to every root of `l`. -/
def Sys.WalkableFrom (s : Sys) (l : List Ptr) : Prop := ∀ q ∈ nonNil l, s.Walkable env b fn q

variable {env b fn F} {s s' s'' : Sys} {p : Ptr} {l l' : List Ptr}

theorem mem_nonNil : p ∈ nonNil l ↔ p ∈ l ∧ p ≠ nil := by simp [nonNil]

theorem nonNil_append : nonNil (l ++ l') = nonNil l ++ nonNil l' := List.filter_append ..

theorem Sys.SameButFlags.walkableFrom (h : s.SameButFlags s') :
    s'.WalkableFrom env b fn l ↔ s.WalkableFrom env b fn l := by
  simp only [WalkableFrom, h.walkable]

theorem MarkedFrom.nil (s : Sys) : MarkedFrom env b fn F s [] s := Marked.refl s F

theorem MarkedFrom.marks (h : MarkedFrom env b fn F s l s') (hw : s.WalkableFrom env b fn l) :
    s'.marks F = Reach.markList (s.Edge env b fn) (s.marks F) (nonNil l) := by
  refine Marked.marks h Reach.subset_markList fun p hp => ?_
  rcases Reach.mem_markList.mp hp with hp | ⟨q, hq, hwhite⟩
  · exact .inl hp
  · exact .inr (hw q hq p hwhite.reach).1

theorem MarkedFrom.append (h : MarkedFrom env b fn F s l s') (h' : MarkedFrom env b fn F s' l' s'')
    (hw : s.WalkableFrom env b fn l) : MarkedFrom env b fn F s (l ++ l') s'' := by
  unfold MarkedFrom at h' ⊢
  rw [h.marks hw, h.same.edge] at h'
  rw [nonNil_append, Reach.markList_append]
  exact h.trans h' Reach.subset_markList

theorem walkableFrom_append : s.WalkableFrom env b fn (l ++ l') ↔
    s.WalkableFrom env b fn l ∧ s.WalkableFrom env b fn l' := by
  unfold Sys.WalkableFrom
  rw [nonNil_append, List.forall_mem_append]

/-- A root that carries the bits is passed over. -/
theorem markedFrom_seen (hp : p ≠ nil) (hm : s.flagsOf p &&& F = F) :
    MarkedFrom env b fn F s [p] s := by
  have hself : nonNil [p] = [p] := by simp [nonNil, hp]
  unfold MarkedFrom
  rw [hself]
  simp only [Reach.markList]
  rw [Reach.mark_of_mem (show p ∈ s.marks F from hm)]
  exact .refl s F

/-- A root is marked when it is flagged and its successors are marked after that. -/
theorem markedFrom_node (h : MarkedFrom env b fn F (s.setFlags p (s.flagsOf p ||| F)) l s')
    (hp : p ≠ nil) (hlive : s.Live p) (hm : s.flagsOf p &&& F ≠ F) (hl : l = s.succs env b fn p) :
    MarkedFrom env b fn F s [p] s' := by
  have hself : nonNil [p] = [p] := by simp [nonNil, hp]
  have h₁ := Marked.setFlags (F := F) hlive
  have hM₁ := h₁.marks (Set.subset_insert ..) fun q hq => hq.elim (fun e => .inr (e ▸ hlive)) .inl
  unfold MarkedFrom at h ⊢
  rw [hM₁, h₁.same.edge, hl] at h
  rw [hself]
  simp only [Reach.markList]
  rw [Reach.mark_eq_markList (show p ∉ s.marks F from hm) fun q => mem_succs]
  exact h₁.trans h Reach.subset_markList

end MarkedFrom

/-! ## `x_heap_tree_mark` -/

section TreeMark

variable {env : Env} {b p : Ptr} {fn : Word} {F : Flags} {s s' : Sys} {n : Nat} {l : List Ptr}

/-- The number of objects that lack some bit of `F`. -/
def Sys.unmarked (s : Sys) (F : Flags) : Nat :=
  (s.objs.keys.filter fun p => s.flagsOf p &&& F ≠ F).card

theorem Sys.unmarked_lt_passes : s.unmarked F < passes s :=
  Nat.lt_succ_of_le (Finset.card_filter_le _ _)

theorem mem_keys : p ∈ s.objs.keys ↔ s.Live p := Finmap.mem_keys

theorem Marked.unmarked_le {A : Set Ptr} (h : Marked s F A s') : s'.unmarked F ≤ s.unmarked F := by
  refine Finset.card_le_card fun p hp => ?_
  rw [Finset.mem_filter, mem_keys] at hp ⊢
  have hl := h.same.live.mp hp.1
  refine ⟨hl, fun hm => hp.2 ?_⟩
  by_cases hA : p ∈ A
  · rw [h.flags_mem p hA hl, Flags.or_and_self]
  · rw [h.flags_notMem p hA, hm]

theorem Sys.unmarked_setFlags_lt (hp : s.Live p) (hm : s.flagsOf p &&& F ≠ F) :
    (s.setFlags p (s.flagsOf p ||| F)).unmarked F < s.unmarked F := by
  refine Finset.card_lt_card (Finset.ssubset_iff_of_subset (fun q hq => ?_) |>.mpr ⟨p, ?_, ?_⟩)
  · rw [Finset.mem_filter, mem_keys, live_setFlags, flagsOf_setFlags hp] at hq
    rw [Finset.mem_filter, mem_keys]
    refine ⟨hq.1, ?_⟩
    split at hq
    · exact absurd Flags.or_and_self hq.2
    · exact hq.2
  · rw [Finset.mem_filter, mem_keys]
    exact ⟨hp, hm⟩
  · rw [Finset.mem_filter, flagsOf_setFlags hp, if_pos rfl]
    exact fun h => h.2 Flags.or_and_self

/-- With `n` passes the loop marks from any root. -/
def LoopMarks (env : Env) (b : Ptr) (fn : Word) (F : Flags) (n : Nat) : Prop :=
  ∀ s p, s.hookWord .heapMark b = some fn → s.unmarked F < n →
    (p ≠ nil → s.Walkable env b fn p) →
    ∃ r s', treeMarkLoop env b F n fn p s = .ok r s' ∧ MarkedFrom env b fn F s [p] s'

/-- The calls of a mark hook. -/
theorem LoopMarks.forM (hloop : LoopMarks env b fn F n) (hfn : s.hookWord .heapMark b = some fn)
    (hn : s.unmarked F < n) (hw : s.WalkableFrom env b fn l) :
    ∃ s', (l.forM fun q => do
        let fn' ← heapFn .heapMark b
        let _ ← treeMarkLoop env b F n fn' q) s = .ok () s' ∧ MarkedFrom env b fn F s l s' := by
  induction l generalizing s with
  | nil => exact ⟨s, rfl, .nil s⟩
  | cons q l ih =>
    have hw₁ : s.WalkableFrom env b fn [q] := fun x hx =>
      hw x (mem_nonNil.mpr ⟨by rw [List.mem_singleton.mp (mem_nonNil.mp hx).1]; exact .head _,
        (mem_nonNil.mp hx).2⟩)
    have hw₂ : s.WalkableFrom env b fn l := fun x hx =>
      hw x (mem_nonNil.mpr ⟨.tail _ (mem_nonNil.mp hx).1, (mem_nonNil.mp hx).2⟩)
    obtain ⟨r, s₁, hrun, h₁⟩ := hloop s q hfn hn fun hq => hw₁ q (mem_nonNil.mpr ⟨.head _, hq⟩)
    obtain ⟨s₂, hrun₂, h₂⟩ := ih (s := s₁) (h₁.same.hookWord.trans hfn)
      (h₁.unmarked_le.trans_lt hn) (h₁.same.walkableFrom.mpr hw₂)
    refine ⟨s₂, ?_, h₁.append h₂ hw₁⟩
    have hq : (do
        let fn' ← heapFn .heapMark b
        let _ ← treeMarkLoop env b F n fn' q : M PUnit) s = .ok ⟨⟩ s₁ := by
      rw [Prog.bind_of_ok (heapFn_run hfn), Prog.bind_of_ok hrun]
      rfl
    exact (Prog.bind_of_ok hq).trans hrun₂

/-- The first of a flagged pair, by a call, and the rest, by the loop. -/
theorem LoopMarks.pair {x y : Word} (hloop : LoopMarks env b fn F n)
    (hfn : s.hookWord .heapMark b = some fn) (hn : s.unmarked F < n) (hx : s.unit p 0 = some x)
    (hy : s.unit p 1 = some y) (hw : s.WalkableFrom env b fn ([x] ++ [y])) :
    ∃ r s', (do
        let first ← xFirst p
        let fn' ← heapFn .heapMark b
        let _ ← treeMarkLoop env b F n fn' first
        treeMarkLoop env b F n fn (← xRest p)) s = .ok r s' ∧
      MarkedFrom env b fn F s ([x] ++ [y]) s' := by
  obtain ⟨hw₁, hw₂⟩ := walkableFrom_append.mp hw
  rw [Prog.bind_of_ok (xFirst_eq hx), Prog.bind_of_ok (heapFn_run hfn)]
  obtain ⟨r, s₁, hrun, h₁⟩ := hloop s x hfn hn fun hx => hw₁ x (mem_nonNil.mpr ⟨.head _, hx⟩)
  have hy₁ : s₁.unit p 1 = some y := by rw [h₁.same.unit, hy]
  rw [Prog.bind_of_ok hrun, Prog.bind_of_ok (xRest_eq hy₁)]
  obtain ⟨r', s₂, hrun', h₂⟩ := hloop s₁ y (h₁.same.hookWord.trans hfn)
    (h₁.unmarked_le.trans_lt hn) fun hy => h₁.same.walkable.mpr
      (hw₂ y (mem_nonNil.mpr ⟨.head _, hy⟩))
  exact ⟨r', s₂, hrun', h₁.append h₂ hw₁⟩

/-- The objects a mark hook has the marker called on, and the one it returns. -/
theorem LoopMarks.report {q : Ptr} (hloop : LoopMarks env b fn F n)
    (hfn : s.hookWord .heapMark b = some fn) (hn : s.unmarked F < n)
    (hw : s.WalkableFrom env b fn (l ++ [q])) :
    ∃ r s', (do
        l.forM fun q => do
          let fn' ← heapFn .heapMark b
          let _ ← treeMarkLoop env b F n fn' q
        if q ≠ nil then treeMarkLoop env b F n fn q else return nil) s = .ok r s' ∧
      MarkedFrom env b fn F s (l ++ [q]) s' := by
  obtain ⟨hw₁, hw₂⟩ := walkableFrom_append.mp hw
  obtain ⟨s₁, hrun, h₁⟩ := hloop.forM hfn hn hw₁
  rw [Prog.bind_of_ok hrun]
  by_cases hq : q = nil
  · rw [if_neg (not_not.mpr hq), hq]
    exact ⟨nil, s₁, rfl, h₁.append (.nil s₁) hw₁⟩
  · rw [if_pos hq]
    obtain ⟨r, s₂, hrun', h₂⟩ := hloop s₁ q (h₁.same.hookWord.trans hfn)
      (h₁.unmarked_le.trans_lt hn) fun hq => h₁.same.walkable.mpr
        (hw₂ q (mem_nonNil.mpr ⟨.head _, hq⟩))
    exact ⟨r, s₂, hrun', h₁.append h₂ hw₁⟩

theorem loopMarks (n : Nat) : LoopMarks env b fn F n := by
  induction n with
  | zero => exact fun s p _ hn => absurd hn (Nat.not_lt_zero _)
  | succ n ih =>
    intro s p hfn hn hw
    unfold treeMarkLoop
    by_cases hp : p = nil
    · rw [if_pos hp]
      exact ⟨p, s, rfl, hp ▸ .nil s⟩
    rw [if_neg hp]
    have hwp := hw hp
    rw [Prog.bind_of_ok (xObjFlags_eq hwp.live)]
    by_cases hm : s.flagsOf p &&& F = F
    · rw [if_pos hm]
      exact ⟨p, s, rfl, markedFrom_seen hp hm⟩
    rw [if_neg hm, Prog.bind_of_ok (setXObjFlags_eq hwp.live)]
    -- The object is flagged: its successors are walked on one pass less.
    have h₁ := Marked.setFlags (F := F) hwp.live
    have hlt : (s.setFlags p (s.flagsOf p ||| F)).unmarked F < n :=
      lt_of_lt_of_le (unmarked_setFlags_lt hwp.live hm) (Nat.lt_succ_iff.mp hn)
    have hfn₁ : (s.setFlags p (s.flagsOf p ||| F)).hookWord .heapMark b = some fn :=
      h₁.same.hookWord.trans hfn
    have hwsucc : (s.setFlags p (s.flagsOf p ||| F)).WalkableFrom env b fn (s.succs env b fn p) :=
      fun q hq => h₁.same.walkable.mpr (hwp.edge (mem_succs.mp hq))
    rw [Prog.bind_of_ok (xObjTypeIsspair_eq (live_setFlags.mpr hwp.live)), typeOf_setFlags]
    by_cases hpair : s.typeOf p = xTypePairObj
    · rw [decide_eq_true hpair, if_pos rfl]
      obtain ⟨x, y, hx, hy⟩ := (hwp p .refl).2 hpair
      have hsucc : s.succs env b fn p = [x] ++ [y] := by simp [succs, hpair, hx, hy]
      rw [hsucc] at hwsucc
      obtain ⟨r, s', hrun, h'⟩ := ih.pair hfn₁ hlt (unit_setFlags.trans hx)
        (unit_setFlags.trans hy) hwsucc
      exact ⟨r, s', hrun, markedFrom_node h' hp hwp.live hm hsucc.symm⟩
    rw [decide_eq_false hpair, if_neg Bool.false_ne_true]
    by_cases hf : fn = nil
    · rw [if_neg (not_not.mpr hf)]
      have hsucc : s.succs env b fn p = [] := by simp [succs, hpair, hf]
      exact ⟨p, _, rfl, markedFrom_node (.nil _) hp hwp.live hm hsucc.symm⟩
    · rw [if_pos hf, Prog.get_bind, ← (env.markFn fn).stable _ _ h₁.same]
      have hsucc : s.succs env b fn p = ((env.markFn fn).report s b p).1 ++
          [((env.markFn fn).report s b p).2] := by simp [succs, hpair, hf]
      rw [hsucc] at hwsucc
      obtain ⟨r, s', hrun, h'⟩ := ih.report hfn₁ hlt hwsucc
      exact ⟨r, s', hrun, markedFrom_node h' hp hwp.live hm hsucc.symm⟩

/-- The marker returns, and has marked from its root. -/
theorem xHeapTreeMark_run (hfn : s.hookWord .heapMark b = some fn)
    (hw : p ≠ nil → s.Walkable env b fn p) :
    ∃ r s', xHeapTreeMark env b p F s = .ok r s' ∧ MarkedFrom env b fn F s [p] s' := by
  unfold xHeapTreeMark
  rw [Prog.bind_of_ok (heapFn_run hfn)]
  exact loopMarks (passes s) s p hfn unmarked_lt_passes hw

/-! ### On any graph -/

/-- A lookup of a hook changes nothing. -/
theorem heapFn_ok {f : Field} {w : Word} (h : heapFn f b s = .ok w s') : s' = s := by
  unfold heapFn at h
  rw [Prog.bind_ok] at h
  obtain ⟨r, s₁, hr, h⟩ := h
  obtain ⟨-, -, rfl⟩ := xBaseIsset_ok.mp hr
  split at h
  · rw [Prog.bind_ok] at h
    obtain ⟨a, s₂, ha, h⟩ := h
    obtain ⟨-, rfl⟩ := Field.obj_ok.mp ha
    split at h
    · exact (xFirst_ok.mp h).2
    · cases h; rfl
  · cases h; rfl

theorem Marked.rfl : ∃ A, Marked s F A s := ⟨_, .refl s F⟩

theorem Marked.after {A : Set Ptr} {s'' : Sys} (h : Marked s F A s')
    (h' : ∃ A', Marked s' F A' s'') : ∃ A', Marked s F A' s'' := by
  obtain ⟨A', h'⟩ := h'
  exact ⟨_, h.union h'⟩

theorem markCalls_ok {u : Unit} (hloop : ∀ {s s' : Sys} {fn : Word} {p r : Ptr},
    treeMarkLoop env b F n fn p s = .ok r s' → ∃ A, Marked s F A s')
    (h : (l.forM fun q => do
      let fn' ← heapFn .heapMark b
      let _ ← treeMarkLoop env b F n fn' q) s = .ok u s') : ∃ A, Marked s F A s' := by
  induction l generalizing s with
  | nil => cases h; exact Marked.rfl
  | cons q l ih =>
    obtain ⟨_, s₁, hq, hl⟩ := Prog.bind_ok (f := fun _ : PUnit => l.forM _).mp h
    rw [Prog.bind_ok] at hq
    obtain ⟨fn', s₂, hfn, hq⟩ := hq
    obtain rfl := heapFn_ok hfn
    rw [Prog.bind_ok] at hq
    obtain ⟨r', s₃, hm, hq⟩ := hq
    cases hq
    obtain ⟨A, hA⟩ := hloop hm
    exact hA.after (ih hl)

/-- A marker that returns has marked some objects and changed nothing else. -/
theorem treeMarkLoop_ok {r : Ptr} (h : treeMarkLoop env b F n fn p s = .ok r s') :
    ∃ A, Marked s F A s' := by
  induction n generalizing s s' fn p r with
  | zero => cases h
  | succ n ih =>
    unfold treeMarkLoop at h
    split at h
    · cases h; exact Marked.rfl
    rw [Prog.bind_ok] at h
    obtain ⟨fl, s₁, hfl, h⟩ := h
    obtain ⟨hp, rfl, rfl⟩ := xObjFlags_ok.mp hfl
    split at h
    · cases h; exact Marked.rfl
    rw [Prog.bind_of_ok (setXObjFlags_eq hp),
      Prog.bind_of_ok (xObjTypeIsspair_eq (live_setFlags.mpr hp))] at h
    refine (Marked.setFlags (F := F) hp).after ?_
    -- The first of a pair, and the calls of a hook, come before the loop goes on.
    split at h
    · rw [Prog.bind_ok] at h
      obtain ⟨x, s₂, hx, h⟩ := h
      obtain ⟨-, rfl⟩ := xFirst_ok.mp hx
      rw [Prog.bind_ok] at h
      obtain ⟨fn', s₃, hfn, h⟩ := h
      obtain rfl := heapFn_ok hfn
      rw [Prog.bind_ok] at h
      obtain ⟨r', s₄, hm, h⟩ := h
      obtain ⟨A, hA⟩ := ih hm
      rw [Prog.bind_ok] at h
      obtain ⟨y, s₅, hy, h⟩ := h
      obtain ⟨-, rfl⟩ := xRest_ok.mp hy
      exact hA.after (ih h)
    · split at h
      · rw [Prog.get_bind, Prog.bind_ok] at h
        obtain ⟨u, s₂, hcalls, h⟩ := h
        obtain ⟨A, hA⟩ := markCalls_ok ih hcalls
        refine hA.after ?_
        split at h
        · exact ih h
        · cases h; exact Marked.rfl
      · cases h; exact Marked.rfl

theorem xHeapTreeMark_ok {r : Ptr} (h : xHeapTreeMark env b p F s = .ok r s') :
    ∃ A, Marked s F A s' := by
  unfold xHeapTreeMark at h
  rw [Prog.bind_ok] at h
  obtain ⟨fn, s₁, hfn, h⟩ := h
  obtain rfl := heapFn_ok hfn
  rw [Prog.get_bind] at h
  exact treeMarkLoop_ok h

theorem rootMarkLoop_ok {u : Unit} (h : rootMarkLoop env b F n p s = .ok u s') :
    ∃ A, Marked s F A s' := by
  induction n generalizing s s' p with
  | zero => cases h
  | succ n ih =>
    unfold rootMarkLoop at h
    split at h
    · cases h; exact Marked.rfl
    rw [Prog.bind_ok] at h
    obtain ⟨r, s₁, hm, h⟩ := h
    obtain ⟨A, hA⟩ := xHeapTreeMark_ok hm
    rw [Prog.bind_ok] at h
    obtain ⟨q, s₂, hq, h⟩ := h
    obtain ⟨-, rfl, rfl⟩ := xObjHeap_ok.mp hq
    exact hA.after (ih h)

end TreeMark

/-! ## `x_heap_chain_clear` -/

/-- `s'` is `s` with `F` cleared on the objects of `l`. -/
structure Cleared (s : Sys) (F : Flags) (l : List Ptr) (s' : Sys) : Prop where
  same : s.SameButFlags s'
  flags_mem : ∀ p ∈ l, s'.flagsOf p = s.flagsOf p &&& ~~~F
  flags_notMem : ∀ p, p ∉ l → s'.flagsOf p = s.flagsOf p
  block : s'.blocks = s.blocks
  requests : s'.requests = s.requests
  trace : s'.trace = s.trace

section Chains

variable {env : Env} {b p : Ptr} {fn : Word} {F : Flags} {s s' : Sys} {n : Nat} {l K : List Ptr}

/-- A chain has fewer objects than there are passes. -/
theorem length_lt_passes (hn : l.Nodup) (hl : ∀ q ∈ l, s.Live q) : l.length < passes s := by
  refine Nat.lt_succ_of_le ?_
  rw [← List.toFinset_card_of_nodup hn]
  refine Finset.card_le_card fun q hq => ?_
  exact mem_keys.mpr (hl q (List.mem_toFinset.mp hq))

theorem chainClearLoop_run (hseg : Seg s.next p l nil) (hn : l.Nodup) (hl : ∀ q ∈ l, s.Live q)
    (hlen : l.length < n) :
    ∃ s', chainClearLoop F n p s = .ok () s' ∧ Cleared s F l s' := by
  induction l generalizing s p n with
  | nil =>
    cases n with
    | zero => omega
    | succ n =>
      obtain rfl : p = nil := hseg
      exact ⟨s, rfl, .refl s, by simp, fun _ _ => rfl, rfl, rfl, rfl⟩
  | cons x l ih =>
    cases n with
    | zero => simp at hlen
    | succ n =>
      obtain ⟨rfl, hseg⟩ := hseg
      obtain ⟨hx, hn⟩ := List.nodup_cons.mp hn
      have hp : s.Live p := hl p (.head _)
      have hp₁ : (s.setFlags p (s.flagsOf p &&& ~~~F)).Live p := live_setFlags.mpr hp
      unfold chainClearLoop
      rw [if_neg hp.ne_nil, Prog.bind_of_ok (xObjFlags_eq hp),
        Prog.bind_of_ok (setXObjFlags_eq hp), Prog.bind_of_ok (xObjHeap_eq hp₁), next_setFlags]
      obtain ⟨s', hrun, hc⟩ := ih (s := s.setFlags p (s.flagsOf p &&& ~~~F)) (n := n)
        (hseg.congr fun q _ => next_setFlags) hn
        (fun q hq => live_setFlags.mpr (hl q (.tail _ hq))) (by simpa using hlen)
      refine ⟨s', hrun, (SameButFlags.setFlags s p _).trans hc.same, fun q hq => ?_, fun q hq => ?_,
        hc.block.trans blocks_modify, hc.requests.trans requests_modify,
        hc.trace.trans trace_modify⟩
      · rcases List.mem_cons.mp hq with rfl | hq
        · rw [hc.flags_notMem q hx, flagsOf_setFlags hp, if_pos rfl]
        · have hqp : q ≠ p := fun e => hx (e ▸ hq)
          rw [hc.flags_mem q hq, flagsOf_setFlags hp, if_neg hqp]
      · rw [List.mem_cons, not_or] at hq
        rw [hc.flags_notMem q hq.2, flagsOf_setFlags hp, if_neg hq.1]

/-- A terminated chain is cleared. -/
theorem xHeapChainClear_run (hseg : Seg s.next p l nil) (hn : l.Nodup)
    (hl : ∀ q ∈ l, s.Live q) :
    ∃ s', xHeapChainClear p F s = .ok nil s' ∧ Cleared s F l s' := by
  obtain ⟨s', hrun, hc⟩ := chainClearLoop_run (F := F) hseg hn hl (length_lt_passes hn hl)
  refine ⟨s', ?_, hc⟩
  rw [xHeapChainClear, Prog.get_bind, Prog.bind_of_ok hrun]
  rfl

/-- A clear that returns has cleared some objects and changed nothing else. -/
theorem chainClearLoop_ok {u : Unit} (h : chainClearLoop F n p s = .ok u s') :
    ∃ l, Cleared s F l s' := by
  induction n generalizing s s' p with
  | zero => cases h
  | succ n ih =>
    unfold chainClearLoop at h
    split at h
    · cases h
      exact ⟨[], .refl s, by simp, fun _ _ => rfl, rfl, rfl, rfl⟩
    rw [Prog.bind_ok] at h
    obtain ⟨fl, s₁, hfl, h⟩ := h
    obtain ⟨hp, rfl, rfl⟩ := xObjFlags_ok.mp hfl
    rw [Prog.bind_of_ok (setXObjFlags_eq hp),
      Prog.bind_of_ok (xObjHeap_eq (live_setFlags.mpr hp))] at h
    obtain ⟨l, hc⟩ := ih h
    refine ⟨p :: l, (SameButFlags.setFlags s₁ p _).trans hc.same, fun q hq => ?_, fun q hq => ?_,
      hc.block.trans blocks_modify, hc.requests.trans requests_modify, hc.trace.trans trace_modify⟩
    · by_cases hl : q ∈ l
      · rw [hc.flags_mem q hl, flagsOf_setFlags hp]
        split
        · next e => rw [e, Flags.clear_clear_self]
        · rfl
      · obtain rfl := (List.mem_cons.mp hq).resolve_right hl
        rw [hc.flags_notMem q hl, flagsOf_setFlags hp, if_pos rfl]
    · rw [List.mem_cons, not_or] at hq
      rw [hc.flags_notMem q hq.2, flagsOf_setFlags hp, if_neg hq.1]

theorem xHeapChainClear_ok {r : Ptr} (h : xHeapChainClear p F s = .ok r s') :
    ∃ l, Cleared s F l s' := by
  unfold xHeapChainClear at h
  rw [Prog.get_bind, Prog.bind_ok] at h
  obtain ⟨u, s₁, hc, h⟩ := h
  cases h
  exact chainClearLoop_ok hc

/-! ## `x_heap_root_chain_mark` -/

theorem rootMarkLoop_run (hfn : s.hookWord .heapMark b = some fn) (hseg : Seg s.next p K nil)
    (hl : ∀ q ∈ K, s.Live q) (hw : s.WalkableFrom env b fn K) (hlen : K.length < n) :
    ∃ s', rootMarkLoop env b F n p s = .ok () s' ∧ MarkedFrom env b fn F s K s' := by
  induction K generalizing s p n with
  | nil =>
    cases n with
    | zero => omega
    | succ n =>
      obtain rfl : p = nil := hseg
      exact ⟨s, rfl, .nil s⟩
  | cons x K ih =>
    cases n with
    | zero => simp at hlen
    | succ n =>
      obtain ⟨rfl, hseg⟩ := hseg
      have hp : s.Live p := hl p (.head _)
      have hwp : s.WalkableFrom env b fn [p] := fun q hq =>
        hw q (mem_nonNil.mpr ⟨by rw [List.mem_singleton.mp (mem_nonNil.mp hq).1]; exact .head _,
          (mem_nonNil.mp hq).2⟩)
      obtain ⟨r, s₁, hrun, h₁⟩ := xHeapTreeMark_run (F := F) hfn fun hp =>
        hwp p (mem_nonNil.mpr ⟨.head _, hp⟩)
      have hp₁ : s₁.Live p := h₁.same.live.mpr hp
      unfold rootMarkLoop
      rw [if_neg hp.ne_nil, Prog.bind_of_ok hrun, Prog.bind_of_ok (xObjHeap_eq hp₁), h₁.same.next]
      obtain ⟨s', hrun', h₂⟩ := ih (s := s₁) (n := n) (h₁.same.hookWord.trans hfn)
        (hseg.congr fun q _ => h₁.same.next) (fun q hq => h₁.same.live.mpr (hl q (.tail _ hq)))
        (h₁.same.walkableFrom.mpr fun q hq =>
          hw q (mem_nonNil.mpr ⟨.tail _ (mem_nonNil.mp hq).1, (mem_nonNil.mp hq).2⟩))
        (by simpa using hlen)
      exact ⟨s', hrun', h₁.append h₂ hwp⟩

/-- The registered objects are cleared, and then marked one after the other. -/
theorem xHeapRootChainMark_run (hset : s.IsSet b) (hfn : s.hookWord .heapMark b = some fn)
    (hhead : s.fieldObj b .heapRootChain = some p) (hseg : Seg s.next p K nil) (hn : K.Nodup)
    (hl : ∀ q ∈ K, s.Live q) (hw : s.WalkableFrom env b fn K) :
    ∃ s₁ s', xHeapRootChainMark env b F s = .ok nil s' ∧ Cleared s F K s₁ ∧
      MarkedFrom env b fn F s₁ K s' := by
  obtain ⟨s₁, hrun₁, h₁⟩ := xHeapChainClear_run (F := F) hseg hn hl
  have hl₁ : ∀ q ∈ K, s₁.Live q := fun q hq => h₁.same.live.mpr (hl q hq)
  have hhead₁ : s₁.fieldObj b .heapRootChain = some p := by
    rw [fieldObj, h₁.same.unit]; exact hhead
  obtain ⟨s', hrun₂, h₂⟩ := rootMarkLoop_run (F := F) (h₁.same.hookWord.trans hfn)
    (hseg.congr fun q _ => h₁.same.next) hl₁ (h₁.same.walkableFrom.mpr hw)
    (length_lt_passes hn hl₁)
  refine ⟨s₁, s', ?_, h₁, h₂⟩
  unfold xHeapRootChainMark xHeapRootChain
  rw [Prog.bind_of_ok (xBaseIsset_run hset), if_pos rfl, Prog.bind_of_ok (Field.obj_run hhead),
    Prog.bind_of_ok hrun₁, Prog.get_bind, Prog.bind_of_ok (Field.obj_run hhead₁),
    Prog.bind_of_ok hrun₂]
  rfl

end Chains

end XExpr
