import Mathlib.Logic.Relation
import Mathlib.Data.Set.Insert

/-!
# Marking a graph

A graph is an edge relation `E` on nodes; a marker holds a set `M` of marked nodes. Marking from
a node `r` adds the nodes that a path of unmarked nodes joins to `r` (`White E M r`).

* `mark_of_mem`, `mark_eq_markList`: marking stops at a marked node; at an unmarked one it marks
  the node and then its successors, one after the other. These two equations are the marker's
  recursion, so an implementation that follows them computes `mark`.
* `mem_markList`: what marking a list of roots adds does not depend on their order.
* `markRoots`: a marker that is interrupted once to clear and re-mark a set `K` of registered
  nodes. If the stale marks it starts from are on nodes without successors or on registered
  nodes, it ends with every node reachable from its roots marked (`reach_subset_markRoots`), and
  it marks nothing else (`markRoots_subset`).
-/

namespace Reach

open Relation

variable {α : Type} {E : α → α → Prop} {M M' K : Set α} {r x q : α}

/-- A path from `r` to `x` whose nodes, both ends included, are outside `M`. -/
inductive White (E : α → α → Prop) (M : Set α) : α → α → Prop
  | refl {r : α} : r ∉ M → White E M r r
  | step {r q x : α} : r ∉ M → E r q → White E M q x → White E M r x

theorem White.left (h : White E M r x) : r ∉ M := by
  cases h <;> assumption

theorem White.right (h : White E M r x) : x ∉ M := by
  induction h with
  | refl h => exact h
  | step _ _ _ ih => exact ih

theorem White.reach (h : White E M r x) : ReflTransGen E r x := by
  induction h with
  | refl _ => exact .refl
  | step _ he _ ih => exact .head he ih

theorem White.anti (h : White E M' r x) (hM : M ⊆ M') : White E M r x := by
  induction h with
  | refl h => exact .refl fun hm => h (hM hm)
  | step h he _ ih => exact .step (fun hm => h (hM hm)) he ih

theorem White.trans {y : α} (h : White E M r y) (h' : White E M y x) : White E M r x := by
  induction h with
  | refl _ => exact h'
  | step hr he _ ih => exact .step hr he (ih h')

theorem White.snoc (h : White E M r x) (he : E x q) (hq : q ∉ M) : White E M r q :=
  h.trans (.step h.right he (.refl hq))

/-- A node without successors is on no path to another one. -/
theorem White.avoid_sink (h : White E M q x) (hr : ∀ q, ¬ E r q) (hx : x ≠ r) :
    White E (insert r M) q x := by
  induction h with
  | refl h => exact .refl fun hm => hm.elim hx h
  | step h he _ ih =>
    refine .step (fun hm => hm.elim (fun e => ?_) h) he (ih hx)
    exact hr _ (e ▸ he)

/-- A node beyond `r` is reached by a path that does not come back to `r`. -/
theorem White.avoid {y : α} (h : White E M y x) :
    White E (insert r M) y x ∨ x = r ∨ ∃ q, E r q ∧ White E (insert r M) q x := by
  induction h with
  | @refl y hy =>
    by_cases e : y = r
    · exact .inr (.inl e)
    · exact .inl (.refl fun hm => hm.elim e hy)
  | @step y q x hy he _ ih =>
    rcases ih with h | h
    · by_cases e : y = r
      · subst e; exact .inr (.inr ⟨q, he, h⟩)
      · exact .inl (.step (fun hm => hm.elim e hy) he h)
    · exact .inr h

/-! ## Marking from one node -/

/-- The marks after marking from `r`. -/
def mark (E : α → α → Prop) (M : Set α) (r : α) : Set α := M ∪ {x | White E M r x}

theorem mem_mark : x ∈ mark E M r ↔ x ∈ M ∨ White E M r x := Iff.rfl

theorem subset_mark : M ⊆ mark E M r := fun _ h => .inl h

/-- Marking stops at a marked node. -/
theorem mark_of_mem (h : r ∈ M) : mark E M r = M := by
  refine Set.Subset.antisymm (fun x hx => ?_) subset_mark
  exact hx.elim id fun hw => absurd h hw.left

/-- The marks after marking from each node of a list in turn. -/
def markList (E : α → α → Prop) : Set α → List α → Set α
  | M, [] => M
  | M, q :: l => markList E (mark E M q) l

theorem mem_markList {l : List α} : x ∈ markList E M l ↔ x ∈ M ∨ ∃ q ∈ l, White E M q x := by
  induction l generalizing M with
  | nil => simp [markList]
  | cons p l ih =>
    simp only [markList, ih, mem_mark, List.mem_cons, exists_eq_or_imp]
    constructor
    · rintro ((h | h) | ⟨q, hq, h⟩)
      · exact .inl h
      · exact .inr (.inl h)
      · exact .inr (.inr ⟨q, hq, h.anti subset_mark⟩)
    · rintro (h | h | ⟨q, hq, h⟩)
      · exact .inl (.inl h)
      · exact .inl (.inr h)
      · -- The path from `q` meets what was marked from `p`, and then `x` was marked from `p`
        -- too, or it does not, and then it is still white.
        suffices White E M p x ∨ White E (mark E M p) q x by
          rcases this with h' | h'
          · exact .inl (.inr h')
          · exact .inr ⟨q, hq, h'⟩
        clear ih hq
        induction h with
        | @refl q hq =>
          by_cases hp : White E M p q
          · exact .inl hp
          · exact .inr (.refl fun hm => hm.elim hq hp)
        | @step q q' x hq he _ ih =>
          rcases ih with h | h
          · exact .inl h
          · by_cases hp : White E M p q
            · exact absurd (Or.inr (hp.snoc he fun hm => h.left (.inl hm))) h.left
            · exact .inr (.step (fun hm => hm.elim hq hp) he h)

theorem subset_markList {l : List α} : M ⊆ markList E M l := fun _ h => mem_markList.mpr (.inl h)

theorem mem_markList_of_mem {l : List α} (h : q ∈ l) : q ∈ markList E M l := by
  refine mem_markList.mpr ?_
  by_cases hq : q ∈ M
  · exact .inl hq
  · exact .inr ⟨q, h, .refl hq⟩

theorem markList_append {l l' : List α} :
    markList E M (l ++ l') = markList E (markList E M l) l' := by
  induction l generalizing M with
  | nil => rfl
  | cons q l ih => exact ih

/-- At an unmarked node, the marker marks the node and then its successors in turn. -/
theorem mark_eq_markList {l : List α} (hr : r ∉ M) (hl : ∀ q, q ∈ l ↔ E r q) :
    mark E M r = markList E (insert r M) l := by
  ext x
  rw [mem_mark, mem_markList]
  constructor
  · rintro (h | h)
    · exact .inl (.inr h)
    · rcases h.avoid (r := r) with h | rfl | ⟨q, he, h⟩
      · exact absurd (Set.mem_insert r M) h.left
      · exact .inl (.inl rfl)
      · exact .inr ⟨q, (hl q).mpr he, h⟩
  · rintro ((rfl | h) | ⟨q, hq, h⟩)
    · exact .inr (.refl hr)
    · exact .inl h
    · exact .inr (.step hr ((hl q).mp hq) (h.anti (Set.subset_insert r M)))

/-- From no marks, the marker marks what its roots reach. -/
theorem mem_markList_empty {l : List α} :
    x ∈ markList E ∅ l ↔ ∃ q ∈ l, ReflTransGen E q x := by
  rw [mem_markList]
  constructor
  · rintro (h | ⟨q, hq, h⟩)
    · exact absurd h (Set.notMem_empty x)
    · exact ⟨q, hq, h.reach⟩
  · rintro ⟨q, hq, h⟩
    refine .inr ⟨q, hq, ?_⟩
    clear hq
    induction h using ReflTransGen.head_induction_on with
    | refl => exact .refl (Set.notMem_empty _)
    | head he _ ih => exact .step (Set.notMem_empty _) he ih

/-! ## Marking with a registered set -/

/-- Every marked node of `R` outside `K` has its successors marked or in `K`. -/
def ClosedUpTo (E : α → α → Prop) (R K M : Set α) : Prop :=
  ∀ x ∈ M, x ∈ R → x ∉ K → ∀ q, E x q → q ∈ M ∨ q ∈ K

theorem ClosedUpTo.markList {R : Set α} (h : ClosedUpTo E R K M) (l : List α) :
    ClosedUpTo E R K (markList E M l) := by
  intro x hx hR hK q he
  rcases mem_markList.mp hx with hm | ⟨p, hp, hw⟩
  · exact (h x hm hR hK q he).imp (fun hq => subset_markList hq) id
  · by_cases hq : q ∈ M
    · exact .inl (subset_markList hq)
    · exact .inl (mem_markList.mpr (.inr ⟨p, hp, hw.snoc he hq⟩))

theorem ClosedUpTo.diff {R : Set α} (h : ClosedUpTo E R K M) : ClosedUpTo E R K (M \ K) := by
  intro x hx hR hK q he
  by_cases hq : q ∈ K
  · exact .inr hq
  · exact .inl ⟨(h x hx.1 hR hK q he).resolve_right hq, hq⟩

/-- Re-marking the registered nodes closes the marks. -/
theorem ClosedUpTo.remark {R : Set α} {k : List α} (h : ClosedUpTo E R K M)
    (hk : ∀ x, x ∈ k ↔ x ∈ K) : ClosedUpTo E R ∅ (Reach.markList E (M \ K) k) := by
  intro x hx hR _ q he
  by_cases hK : x ∈ K
  · refine .inl ?_
    by_cases hq : q ∈ M \ K
    · exact subset_markList hq
    · exact mem_markList.mpr (.inr ⟨x, (hk x).mpr hK,
        .step (fun hm => hm.2 hK) he (.refl hq)⟩)
  · rcases h.diff.markList k x hx hR hK q he with hq | hq
    · exact .inl hq
    · exact .inl (mem_markList_of_mem ((hk q).mpr hq))

/-- A marker that marks from `l₁`, clears and re-marks the registered nodes `k`, and marks from
`l₂`. -/
def markRoots (E : α → α → Prop) (M : Set α) (l₁ k l₂ : List α) : Set α :=
  markList E (markList E (markList E M l₁ \ {x | x ∈ k}) k) l₂

section MarkRoots

variable {l₁ k l₂ : List α}

/-- It marks only what its roots reach. -/
theorem markRoots_subset (hx : x ∈ markRoots E M l₁ k l₂) :
    x ∈ M ∨ ∃ q ∈ l₁ ++ k ++ l₂, ReflTransGen E q x := by
  rcases mem_markList.mp hx with hx | ⟨q, hq, h⟩
  · rcases mem_markList.mp hx with hx | ⟨q, hq, h⟩
    · rcases mem_markList.mp hx.1 with hx | ⟨q, hq, h⟩
      · exact .inl hx
      · exact .inr ⟨q, by simp [hq], h.reach⟩
    · exact .inr ⟨q, by simp [hq], h.reach⟩
  · exact .inr ⟨q, by simp [hq], h.reach⟩

/-- From a root without successors and the registered nodes, it marks what these reach along nodes
without a stale mark. -/
theorem mem_markRoots_sink (hr : ∀ q, ¬ E r q) (hxr : x ≠ r) (hx : x ∉ M) :
    x ∈ markRoots E M [r] k [] ↔ ∃ q ∈ k, White E (M \ {x | x ∈ k}) q x := by
  have hmark : ∀ y ∈ mark E M r, y = r ∨ y ∈ M := fun y hy => by
    rcases hy with hy | hy
    · exact .inr hy
    · cases hy with
      | refl _ => exact .inl rfl
      | step _ he _ => exact absurd he (hr _)
  have hwhite : ∀ q, White E (mark E M r \ {x | x ∈ k}) q x ↔ White E (M \ {x | x ∈ k}) q x :=
    fun q => by
      refine ⟨fun h => h.anti fun y hy => ⟨subset_mark hy.1, hy.2⟩, fun h => ?_⟩
      refine (h.avoid_sink hr hxr).anti fun y hy => ?_
      exact (hmark y hy.1).elim .inl fun hm => .inr ⟨hm, hy.2⟩
  unfold markRoots
  simp only [markList]
  rw [mem_markList]
  simp only [hwhite]
  refine or_iff_right fun h => ?_
  rcases hmark x h.1 with e | hm
  · exact hxr e
  · exact hx hm

/-- If the stale marks on reachable nodes are on registered ones or on nodes without successors,
it marks everything that its roots reach. -/
theorem reach_subset_markRoots
    (hM : ∀ x ∈ M, (∃ q ∈ l₁ ++ k ++ l₂, ReflTransGen E q x) → x ∉ k → ∀ q, ¬ E x q)
    (hx : ∃ q ∈ l₁ ++ k ++ l₂, ReflTransGen E q x) : x ∈ markRoots E M l₁ k l₂ := by
  have h₀ : ClosedUpTo E {x | ∃ q ∈ l₁ ++ k ++ l₂, ReflTransGen E q x} {x | x ∈ k} M :=
    fun x hx hR hK q he => absurd he (hM x hx hR hK q)
  have h₁ : ClosedUpTo E {x | ∃ q ∈ l₁ ++ k ++ l₂, ReflTransGen E q x} ∅
      (markRoots E M l₁ k l₂) :=
    ((h₀.markList l₁).remark fun x => Iff.rfl).markList l₂
  obtain ⟨r, hr, h⟩ := hx
  have hroot : r ∈ markRoots E M l₁ k l₂ := by
    by_cases hk : r ∈ k
    · exact subset_markList (mem_markList_of_mem hk)
    · rcases List.mem_append.mp hr with hr | hr
      · rcases List.mem_append.mp hr with hr | hr
        · exact subset_markList (subset_markList ⟨mem_markList_of_mem hr, hk⟩)
        · exact absurd hr hk
      · exact mem_markList_of_mem hr
  induction h with
  | refl => exact hroot
  | @tail y z hy he ih =>
    rcases h₁ y ih ⟨r, hr, hy⟩ (Set.notMem_empty y) z he with hz | hz
    · exact hz
    · exact absurd hz (Set.notMem_empty z)

end MarkRoots

end Reach
