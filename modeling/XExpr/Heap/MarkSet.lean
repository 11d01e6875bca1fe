import XExpr.Heap.Cycle

/-!
# Marking from any marks

`x_heap_tree_mark` may start from marks that are set anywhere, partly or not at all. It stops at
an object that carries the whole flag set, so what it adds is what a path of objects without the
whole set joins to its root.

* `WhiteFrom`: joined to one of some roots by such a path.
* `MarkedWhite`: the memory in which exactly these objects got the flags.
* `treeMark_exact`: the marker leaves this memory, and a list of roots the same flags in every
  order.
-/

namespace XExpr

open Sys Chain Relation

/-- A path of objects that lack some bit of `F` joins `q` to a root in `l`. -/
def Sys.WhiteFrom (env : Env) (b : Ptr) (fn : Word) (F : Flags) (s : Sys) (l : List Ptr)
    (q : Ptr) : Prop :=
  ∃ r ∈ l, r ≠ nil ∧ Reach.White (s.Edge env b fn) (s.marks F) r q

/-- `s'` is `s` after the objects in `W` got the bits of `F`. -/
structure MarkedWhite (F : Flags) (W : Ptr → Prop) (s s' : Sys) : Prop where
  /-- Links, types, units and the objects themselves stay. -/
  same : s.SameButFlags s'
  marked : ∀ q, s.Live q → (s'.flagsOf q &&& F = F ↔ s.flagsOf q &&& F = F ∨ W q)
  others : ∀ q, ¬ W q → s'.flagsOf q = s.flagsOf q
  bits : ∀ q, s'.flagsOf q &&& ~~~F = s.flagsOf q &&& ~~~F

section MarkSet

variable {env : Env} {s s' : Sys} {b p q : Ptr} {fn : Word} {F : Flags} {l l' : List Ptr}

theorem whiteFrom_perm (h : l.Perm l') :
    s.WhiteFrom env b fn F l q ↔ s.WhiteFrom env b fn F l' q := by
  simp only [WhiteFrom, h.mem_iff]

theorem mem_markList_nonNil :
    q ∈ Reach.markList (s.Edge env b fn) (s.marks F) (nonNil l) ↔
      s.flagsOf q &&& F = F ∨ s.WhiteFrom env b fn F l q := by
  rw [Reach.mem_markList]
  refine or_congr Iff.rfl ?_
  simp only [WhiteFrom, mem_nonNil, and_assoc]

/-- The flags after marking from a list of roots. -/
theorem MarkedFrom.flags (h : MarkedFrom env b fn F s l s') :
    (∀ q, s.Live q → (s.flagsOf q &&& F = F ∨ s.WhiteFrom env b fn F l q) →
      s'.flagsOf q = s.flagsOf q ||| F) ∧
    ∀ q, ¬ s.WhiteFrom env b fn F l q → s'.flagsOf q = s.flagsOf q := by
  refine ⟨fun q hl hq => h.flags_mem q (mem_markList_nonNil.mpr hq) hl, fun q hq => ?_⟩
  by_cases hm : s.flagsOf q &&& F = F
  · by_cases hl : s.Live q
    · rw [h.flags_mem q (mem_markList_nonNil.mpr (.inl hm)) hl, Flags.or_of_and hm]
    · rw [flagsOf_not_live hl, flagsOf_not_live (mt h.same.live.mp hl)]
  · exact h.flags_notMem q fun hmem => (mem_markList_nonNil.mp hmem).elim hm hq

theorem MarkedFrom.white (h : MarkedFrom env b fn F s l s') :
    MarkedWhite F (s.WhiteFrom env b fn F l) s s' where
  same := h.same
  marked q hl := by
    constructor
    · intro hq
      by_contra hn
      rw [not_or] at hn
      exact hn.1 (h.flags.2 q hn.2 ▸ hq)
    · intro hq
      rw [h.flags.1 q hl hq, Flags.or_and_self]
  others := h.flags.2
  bits q := by
    by_cases hq : s.WhiteFrom env b fn F l q
    · by_cases hl : s.Live q
      · rw [h.flags.1 q hl (.inr hq), Flags.or_clear_self]
      · rw [flagsOf_not_live hl, flagsOf_not_live (mt h.same.live.mp hl)]
    · rw [h.flags.2 q hq]

/-- The same objects marked: the same flags. -/
theorem MarkedFrom.perm {s'' : Sys} (h : MarkedFrom env b fn F s l s')
    (h' : MarkedFrom env b fn F s l' s'') (hp : l.Perm l') : s'.flagsOf q = s''.flagsOf q := by
  by_cases hq : s.WhiteFrom env b fn F l q
  · by_cases hl : s.Live q
    · rw [h.flags.1 q hl (.inr hq), h'.flags.1 q hl (.inr ((whiteFrom_perm hp).mp hq))]
    · rw [flagsOf_not_live (mt h.same.live.mp hl), flagsOf_not_live (mt h'.same.live.mp hl)]
  · rw [h.flags.2 q hq, h'.flags.2 q (mt (whiteFrom_perm hp).mpr hq)]

/-- From any marks the marker returns, has marked exactly what a path of objects without all of
`F` joins to its root, and has changed nothing else. Roots marked one after the other leave the
same flags in every order. -/
theorem treeMark_exact (hfn : s.hookWord .heapMark b = some fn)
    (hp : p ≠ nil → s.Walkable env b fn p) (hl : s.WalkableFrom env b fn l) (hperm : l.Perm l') :
    (∃ r s', xHeapTreeMark env b p F s = .ok r s' ∧
      MarkedWhite F (s.WhiteFrom env b fn F [p]) s s') ∧
    ∃ s₁ s₂, markAll env b F l s = .ok () s₁ ∧ markAll env b F l' s = .ok () s₂ ∧
      MarkedWhite F (s.WhiteFrom env b fn F l) s s₁ ∧ ∀ q, s₁.flagsOf q = s₂.flagsOf q := by
  obtain ⟨r, s', hrun, hm⟩ := xHeapTreeMark_run (F := F) hfn hp
  have hl' : s.WalkableFrom env b fn l' := fun q hq =>
    hl q (mem_nonNil.mpr ⟨hperm.mem_iff.mpr (mem_nonNil.mp hq).1, (mem_nonNil.mp hq).2⟩)
  obtain ⟨s₁, hrun₁, h₁⟩ := markAll_run (F := F) hfn hl
  obtain ⟨s₂, hrun₂, h₂⟩ := markAll_run (F := F) hfn hl'
  exact ⟨⟨r, s', hrun, hm.white⟩, s₁, s₂, hrun₁, hrun₂, h₁.white, fun q => h₁.perm h₂ hperm⟩

end MarkSet

/-- Two pairs that refer to themselves and to each other; the second has one of two bits. -/
def cyclicPairs : Sys :=
  (Sys.empty.place 8 ⟨nil, xTypePairObj, xObjFlagNone, [], [8, 40]⟩).place 40
    ⟨nil, xTypePairObj, xObjFlagMark, [], [8, nil]⟩

theorem cyclicPairs_obj (q : Ptr) : cyclicPairs.obj q =
    if q = 40 then some ⟨nil, xTypePairObj, xObjFlagMark, [], [8, nil]⟩
    else if q = 8 then some ⟨nil, xTypePairObj, xObjFlagNone, [], [8, 40]⟩ else none := by
  rw [cyclicPairs, obj_place (by decide), obj_place (by decide)]
  rfl

theorem cyclicPairs_walkable (env : Env) {p : Ptr} (hp : p = 8 ∨ p = 40) :
    cyclicPairs.Walkable env nil nil p := by
  refine walkable_of_closed (R := fun x => x = 8 ∨ x = 40) hp ?_ ?_
  · rintro x y (rfl | rfl) ⟨hy, ⟨-, h⟩ | ⟨-, h, -⟩⟩
    · simp [unit, dataOf, cyclicPairs_obj] at h
      grind
    · exact absurd rfl h
    · simp [unit, dataOf, cyclicPairs_obj] at h
      grind
    · exact absurd rfl h
  · rintro x (rfl | rfl)
    · exact ⟨live_iff.mpr ⟨_, by rw [cyclicPairs_obj]; rfl⟩, fun _ => ⟨8, 40, rfl, rfl⟩⟩
    · exact ⟨live_iff.mpr ⟨_, by rw [cyclicPairs_obj]; rfl⟩, fun _ => ⟨8, nil, rfl, rfl⟩⟩

theorem treeMark_exact_cyclic :
    (∃ r s', xHeapTreeMark (.plain fun _ => true) nil 8 0xa00 cyclicPairs = .ok r s' ∧
      MarkedWhite 0xa00 (cyclicPairs.WhiteFrom (.plain fun _ => true) nil nil 0xa00 [8])
        cyclicPairs s') ∧
    ∃ s₁ s₂, markAll (.plain fun _ => true) nil 0xa00 [8, 40] cyclicPairs = .ok () s₁ ∧
      markAll (.plain fun _ => true) nil 0xa00 [40, 8] cyclicPairs = .ok () s₂ ∧
      MarkedWhite 0xa00 (cyclicPairs.WhiteFrom (.plain fun _ => true) nil nil 0xa00 [8, 40])
        cyclicPairs s₁ ∧ ∀ q, s₁.flagsOf q = s₂.flagsOf q := by
  have hfn : cyclicPairs.hookWord .heapMark nil = some nil := rfl
  refine treeMark_exact hfn (fun _ => cyclicPairs_walkable _ (.inl rfl)) ?_ (List.Perm.swap ..)
  intro q hq
  have hmem := (mem_nonNil.mp hq).1
  simp only [List.mem_cons, List.not_mem_nil, or_false] at hmem
  exact cyclicPairs_walkable _ hmem

end XExpr
