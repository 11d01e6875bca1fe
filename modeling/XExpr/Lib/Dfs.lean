import Mathlib.Data.Set.Insert

/-!
# Depth-first search

A graph is given by the list of the successors of each node. The search works on a list of nodes:
it skips what was visited before, and puts the successors of a node in front of what is left.

* `Dfs succs M l v`: from the list `l`, where the nodes in `M` were visited before, the search
  visits `v`, in this order.
* `Dfs.append`: a search of two lists one after the other.
* `Dfs.notMem`, `Dfs.nodup`: the search visits nodes that are new, each of them once.
-/

namespace Reach

variable {α : Type} {succs : α → List α} {M : Set α} {l l' v v' : List α} {x : α}

/-- The list `v` is what depth-first search visits from the nodes `l`. -/
inductive Dfs (succs : α → List α) : Set α → List α → List α → Prop
  | done {M : Set α} : Dfs succs M [] []
  | seen {M : Set α} {p : α} {l v : List α} (hp : p ∈ M) (h : Dfs succs M l v) :
      Dfs succs M (p :: l) v
  | visit {M : Set α} {p : α} {l v : List α} (hp : p ∉ M)
      (h : Dfs succs (insert p M) (succs p ++ l) v) : Dfs succs M (p :: l) (p :: v)

/-- The order is determined. -/
theorem Dfs.unique (h : Dfs succs M l v) (h' : Dfs succs M l v') : v = v' := by
  induction h generalizing v' with
  | done => cases h'; rfl
  | seen hp _ ih =>
    cases h' with
    | seen _ h' => exact ih h'
    | visit hp' _ => exact absurd hp hp'
  | visit hp _ ih =>
    cases h' with
    | seen hp' _ => exact absurd hp' hp
    | visit _ h' => rw [ih h']

theorem insert_union_mem {p : α} : insert p M ∪ {x | x ∈ v} = M ∪ {x | x ∈ p :: v} := by
  ext x
  simp only [Set.mem_union, Set.mem_insert_iff, Set.mem_ofPred_eq, List.mem_cons]
  rw [or_assoc, or_left_comm]

theorem union_mem_append : M ∪ {x | x ∈ v} ∪ {x | x ∈ v'} = M ∪ {x | x ∈ v ++ v'} := by
  ext x
  simp only [Set.mem_union, Set.mem_ofPred_eq, List.mem_append, or_assoc]

theorem Dfs.append (h : Dfs succs M l v) (h' : Dfs succs (M ∪ {x | x ∈ v}) l' v') :
    Dfs succs M (l ++ l') (v ++ v') := by
  induction h with
  | @done M =>
    have e : M ∪ {x | x ∈ ([] : List α)} = M := by simp
    exact e ▸ h'
  | seen hp _ ih => exact .seen hp (ih h')
  | visit hp _ ih =>
    rw [← insert_union_mem] at h'
    exact .visit hp (List.append_assoc .. ▸ ih h')

theorem Dfs.notMem (h : Dfs succs M l v) (hx : x ∈ v) : x ∉ M := by
  induction h with
  | done => cases hx
  | seen _ _ ih => exact ih hx
  | visit hp _ ih =>
    rcases List.mem_cons.mp hx with rfl | hx
    · exact hp
    · exact fun hm => ih hx (.inr hm)

theorem Dfs.nodup (h : Dfs succs M l v) : v.Nodup := by
  induction h with
  | done => exact List.nodup_nil
  | seen _ _ ih => exact ih
  | visit _ h ih => exact List.nodup_cons.mpr ⟨fun hm => h.notMem hm (.inl rfl), ih⟩

end Reach
