import Mathlib.Data.List.Nodup

/-!
# Trees of cells in memory

A memory gives the units of the node at an address, `mem p i`. A tree of cells is built from
atoms, with one unit, and pairs, with two. `Layout` is a tree without addresses, `Cells` the same
tree with the address of each node; a leaf is a word, or `none` for a word that nobody fixes.

* `Cells.Fits mem c w`: the word `w` leads to the tree `c`.
* `Fits.chase`: a path of the tree is a path in memory.
* `Fits.congr`, `Fits.mono`: which units the tree depends on.
* `Fits.put`: a unit of the tree assigned, when no node occurs twice.
* `Fits.walk_fixed`: every fixed unit lies on a path to a fixed position.
-/

/-- A tree without addresses. -/
inductive Layout (α : Type)
  | leaf (w : Option α)
  | atom (c : Layout α)
  | pair (l r : Layout α)
deriving DecidableEq

/-- A tree with the address of each node. -/
inductive Cells (α : Type)
  | leaf (w : Option α)
  | atom (p : α) (c : Cells α)
  | pair (p : α) (l r : Cells α)

variable {α : Type} {mem mem' : α → Nat → Option α} {w u p : α} {i : Nat} {π ρ : List Bool}
  {b : Bool}

/-! ## Layouts -/

namespace Layout

variable {t d : Layout α}

/-- The subtree at a path: `false` is the first unit, `true` the second. -/
def sub : Layout α → List Bool → Option (Layout α)
  | t, [] => some t
  | atom c, false :: π => c.sub π
  | pair l _, false :: π => l.sub π
  | pair _ r, true :: π => r.sub π
  | leaf _, _ :: _ => none
  | atom _, true :: _ => none

/-- The tree with the subtree at a path replaced. -/
def put : Layout α → List Bool → Layout α → Layout α
  | _, [], d => d
  | atom c, false :: π, d => atom (c.put π d)
  | pair l r, false :: π, d => pair (l.put π d) r
  | pair l r, true :: π, d => pair l (r.put π d)
  | leaf w, _ :: _, _ => leaf w
  | atom c, true :: _, _ => atom c

/-- The number of nodes. -/
def size : Layout α → Nat
  | leaf _ => 0
  | atom c => c.size + 1
  | pair l r => l.size + r.size + 1

/-- The paths to the nodes. -/
def nodePaths : Layout α → List (List Bool)
  | leaf _ => []
  | atom c => [] :: c.nodePaths.map (false :: ·)
  | pair l r => [] :: (l.nodePaths.map (false :: ·) ++ r.nodePaths.map (true :: ·))

/-- Without atoms. -/
def atomFree : Layout α → Bool
  | leaf _ => true
  | atom _ => false
  | pair l r => l.atomFree && r.atomFree

/-- The leaf at the root. -/
def top : Layout α → List (Option α)
  | leaf w => [w]
  | _ => []

/-- The leaves in the units of pairs. -/
def links : Layout α → List (Option α)
  | leaf _ => []
  | atom c => c.links
  | pair l r => l.top ++ r.top ++ (l.links ++ r.links)

/-- Whether the tree says something about the word that leads to it. -/
def pinned : Layout α → Bool
  | leaf none => false
  | _ => true

/-- The paths below the root to subtrees that are pinned. -/
def pins : Layout α → List (List Bool)
  | leaf _ => []
  | atom c => (if c.pinned then [[false]] else []) ++ c.pins.map (false :: ·)
  | pair l r => (if l.pinned then [[false]] else []) ++ l.pins.map (false :: ·) ++
      ((if r.pinned then [[true]] else []) ++ r.pins.map (true :: ·))

/-- `t'` says no more than `t`: some subtrees are unpinned. -/
def relaxes : Layout α → Layout α → Prop
  | _, leaf none => True
  | leaf w, leaf (some v) => w = some v
  | atom c, atom c' => c.relaxes c'
  | pair l r, pair l' r' => l.relaxes l' ∧ r.relaxes r'
  | _, _ => False

theorem relaxes_refl (t : Layout α) : t.relaxes t := by
  induction t with
  | leaf w => cases w <;> simp [relaxes]
  | atom c ih => exact ih
  | pair l r ihl ihr => exact ⟨ihl, ihr⟩

@[simp] theorem sub_nil : t.sub [] = some t := by cases t <;> rfl

@[simp] theorem put_nil : t.put [] d = d := by cases t <;> rfl

theorem sub_append : t.sub (π ++ ρ) = (t.sub π).bind (·.sub ρ) := by
  induction t, π using sub.induct <;> simp_all [sub]

theorem put_append {e : Layout α} (h : t.sub π = some e) :
    t.put (π ++ ρ) d = t.put π (e.put ρ d) := by
  induction t, π using sub.induct with
  | case1 t =>
    rw [sub_nil] at h
    obtain rfl := Option.some.inj h
    simp
  | case2 c π ih => exact congrArg atom (ih h)
  | case3 l r π ih => exact congrArg (pair · r) (ih h)
  | case4 l r π ih => exact congrArg (pair l) (ih h)
  | case5 => simp [sub] at h
  | case6 => simp [sub] at h

end Layout

/-! ## Paths in memory -/

namespace Mem

/-- The unit that a step reads. -/
def bit (b : Bool) : Nat := if b then 1 else 0

@[simp] theorem bit_false : bit false = 0 := rfl

@[simp] theorem bit_true : bit true = 1 := rfl

/-- The word at the end of a path. -/
def chase (mem : α → Nat → Option α) : α → List Bool → Option α
  | w, [] => some w
  | w, b :: π => (mem w (bit b)).bind (chase mem · π)

/-- The units that a path reads. -/
def walk (mem : α → Nat → Option α) : α → List Bool → List (α × Nat)
  | _, [] => []
  | w, b :: π => (w, bit b) :: ((mem w (bit b)).map (walk mem · π)).getD []

theorem chase_append : chase mem w (π ++ ρ) = (chase mem w π).bind (chase mem · ρ) := by
  induction π generalizing w with
  | nil => rfl
  | cons b π ih =>
    simp only [List.cons_append, chase]
    cases mem w (bit b) with
    | none => rfl
    | some v => simpa using ih

/-- A path that is there in a part of a memory. -/
theorem chase_mono (hm : ∀ q i u, mem q i = some u → mem' q i = some u)
    (h : chase mem w π = some p) : chase mem' w π = some p := by
  induction π generalizing w with
  | nil => exact h
  | cons b π ih =>
    obtain ⟨v, hv, h⟩ := Option.bind_eq_some_iff.mp h
    rw [chase, hm w (bit b) v hv]
    exact ih h

theorem walk_subset_append : walk mem w π ⊆ walk mem w (π ++ ρ) := by
  induction π generalizing w with
  | nil => exact List.nil_subset _
  | cons b π ih =>
    simp only [List.cons_append, walk]
    cases mem w (bit b) with
    | none => simp
    | some v => exact List.cons_subset_cons _ ih

/-- The last unit that a path reads. -/
theorem walk_concat (h : chase mem w π = some p) :
    walk mem w (π ++ [b]) = walk mem w π ++ [(p, bit b)] := by
  induction π generalizing w with
  | nil =>
    obtain rfl := Option.some.inj h
    cases hv : mem w (bit b) <;> simp [walk, hv]
  | cons a π ih =>
    obtain ⟨v, hv, h⟩ := Option.bind_eq_some_iff.mp h
    simpa [walk, hv] using ih h

theorem mem_walk_of_chase (h : chase mem w π = some p) : (p, bit b) ∈ walk mem w (π ++ [b]) := by
  rw [walk_concat h]
  exact List.mem_append_right _ (List.mem_singleton_self _)

/-- The units that a path reads hold words. -/
theorem walk_some {x : α × Nat} (h : chase mem w π = some p) (hx : x ∈ walk mem w π) :
    ∃ v, mem x.1 x.2 = some v := by
  induction π generalizing w with
  | nil => cases hx
  | cons a π ih =>
    obtain ⟨v, hv, h⟩ := Option.bind_eq_some_iff.mp h
    rw [walk, hv] at hx
    rcases List.mem_cons.mp hx with rfl | hx
    · exact ⟨v, hv⟩
    · exact ih h hx

/-- A path depends on the units that it reads. -/
theorem chase_congr (h : ∀ x ∈ walk mem w π, mem' x.1 x.2 = mem x.1 x.2) :
    chase mem' w π = chase mem w π := by
  induction π generalizing w with
  | nil => rfl
  | cons b π ih =>
    have hw : mem' w (bit b) = mem w (bit b) := h _ (List.mem_cons_self ..)
    simp only [chase, hw]
    cases hu : mem w (bit b) with
    | none => rfl
    | some v => exact ih fun x hx => h x (by simp [walk, hu, hx])

theorem walk_congr (h : ∀ x ∈ walk mem w π, mem' x.1 x.2 = mem x.1 x.2) :
    walk mem' w π = walk mem w π := by
  induction π generalizing w with
  | nil => rfl
  | cons b π ih =>
    have hw : mem' w (bit b) = mem w (bit b) := h _ (List.mem_cons_self ..)
    simp only [walk, hw]
    cases hu : mem w (bit b) with
    | none => rfl
    | some v => exact congrArg _ (ih fun x hx => h x (by simp [walk, hu, hx]))

end Mem

/-! ## Trees in memory -/

namespace Cells

open Mem (bit walk)

variable {c d : Cells α}

def layout : Cells α → Layout α
  | leaf w => .leaf w
  | atom _ c => .atom c.layout
  | pair _ l r => .pair l.layout r.layout

/-- The addresses of the nodes, from the root on. -/
def nodes : Cells α → List α
  | leaf _ => []
  | atom p c => p :: c.nodes
  | pair p l r => p :: (l.nodes ++ r.nodes)

/-- The addresses of the pairs among them. -/
def pairs : Cells α → List α
  | leaf _ => []
  | atom _ c => c.pairs
  | pair p l r => p :: (l.pairs ++ r.pairs)

/-- The addresses of the atoms among them. -/
def atoms : Cells α → List α
  | leaf _ => []
  | atom p c => p :: c.atoms
  | pair _ l r => l.atoms ++ r.atoms

def sub : Cells α → List Bool → Option (Cells α)
  | c, [] => some c
  | atom _ c, false :: π => c.sub π
  | pair _ l _, false :: π => l.sub π
  | pair _ _ r, true :: π => r.sub π
  | leaf _, _ :: _ => none
  | atom _ _, true :: _ => none

def put : Cells α → List Bool → Cells α → Cells α
  | _, [], d => d
  | atom p c, false :: π, d => atom p (c.put π d)
  | pair p l r, false :: π, d => pair p (l.put π d) r
  | pair p l r, true :: π, d => pair p l (r.put π d)
  | leaf w, _ :: _, _ => leaf w
  | atom p c, true :: _, _ => atom p c

/-- The unit that holds the word which leads to the subtree at a path. -/
def slot : Cells α → List Bool → Option (α × Nat)
  | atom p _, [false] => some (p, 0)
  | pair p _ _, [b] => some (p, bit b)
  | atom _ c, false :: π => c.slot π
  | pair _ l _, false :: π => l.slot π
  | pair _ _ r, true :: π => r.slot π
  | _, _ => none

/-- The units whose words the tree fixes. -/
def fixed : Cells α → List (α × Nat)
  | leaf _ => []
  | atom p c => (if c.layout.pinned then [(p, 0)] else []) ++ c.fixed
  | pair p l r => (if l.layout.pinned then [(p, 0)] else []) ++ l.fixed ++
      ((if r.layout.pinned then [(p, 1)] else []) ++ r.fixed)

/-- The word `w` leads to the tree. -/
def Fits (mem : α → Nat → Option α) : Cells α → α → Prop
  | leaf v, w => ∀ u ∈ v, w = u
  | atom p c, w => w = p ∧ ∃ u, mem p 0 = some u ∧ c.Fits mem u
  | pair p l r, w => w = p ∧ (∃ u, mem p 0 = some u ∧ l.Fits mem u) ∧
      ∃ v, mem p 1 = some v ∧ r.Fits mem v

theorem pairs_subset (c : Cells α) : c.pairs ⊆ c.nodes := by
  induction c with
  | leaf _ => exact List.nil_subset _
  | atom p c ih => exact fun x hx => List.mem_cons_of_mem _ (ih hx)
  | pair p l r ihl ihr =>
    refine List.cons_subset_cons p (List.append_subset.mpr ⟨fun x hx => ?_, fun x hx => ?_⟩)
    · exact List.mem_append_left _ (ihl hx)
    · exact List.mem_append_right _ (ihr hx)

theorem atoms_subset (c : Cells α) : c.atoms ⊆ c.nodes := by
  induction c with
  | leaf _ => exact List.nil_subset _
  | atom p c ih => exact List.cons_subset_cons p ih
  | pair p l r ihl ihr =>
    refine List.append_subset.mpr ⟨fun x hx => ?_, fun x hx => ?_⟩
    · exact List.mem_cons_of_mem _ (List.mem_append_left _ (ihl hx))
    · exact List.mem_cons_of_mem _ (List.mem_append_right _ (ihr hx))

theorem pair_or_atom {c : Cells α} {x : α} (h : x ∈ c.nodes) : x ∈ c.pairs ∨ x ∈ c.atoms := by
  induction c with
  | leaf _ => cases h
  | atom p c ih =>
    rcases List.mem_cons.mp h with rfl | h
    · exact .inr (List.mem_cons_self ..)
    · exact (ih h).imp id (List.mem_cons_of_mem _)
  | pair p l r ihl ihr =>
    simp only [nodes, pairs, atoms, List.mem_cons, List.mem_append] at h ⊢
    tauto

/-- Without atoms all nodes are pairs. -/
theorem nodes_subset_pairs (h : c.layout.atomFree = true) : c.nodes ⊆ c.pairs := by
  induction c with
  | leaf _ => exact List.nil_subset _
  | atom p c => cases h
  | pair p l r ihl ihr =>
    obtain ⟨hl, hr⟩ := Bool.and_eq_true_iff.mp h
    refine List.cons_subset_cons p (List.append_subset.mpr ⟨fun x hx => ?_, fun x hx => ?_⟩)
    · exact List.mem_append_left _ (ihl hl hx)
    · exact List.mem_append_right _ (ihr hr hx)

@[simp] theorem sub_nil : c.sub [] = some c := by cases c <;> rfl

@[simp] theorem put_nil : c.put [] d = d := by cases c <;> rfl

theorem sub_layout : c.layout.sub π = (c.sub π).map layout := by
  induction c, π using sub.induct <;> simp_all [sub, layout, Layout.sub]

theorem sub_append : c.sub (π ++ ρ) = (c.sub π).bind (·.sub ρ) := by
  induction c, π using sub.induct <;> simp_all [sub]

theorem layout_put : (c.put π d).layout = c.layout.put π d.layout := by
  induction c, π, d using put.induct <;> simp_all [put, layout, Layout.put]

theorem put_sub (h : c.sub π = some d) : c.put π d = c := by
  induction c, π using sub.induct with
  | case1 c =>
    rw [sub_nil] at h
    obtain rfl := Option.some.inj h
    exact put_nil
  | case2 p c π ih => rw [put, ih h]
  | case3 p l r π ih => rw [put, ih h]
  | case4 p l r π ih => rw [put, ih h]
  | case5 => simp [sub] at h
  | case6 => simp [sub] at h

/-- The nodes of a tree, around those of a subtree. -/
theorem nodes_put (h : c.sub π = some d) :
    ∃ l₁ l₂, c.nodes = l₁ ++ d.nodes ++ l₂ ∧
      ∀ e : Cells α, (c.put π e).nodes = l₁ ++ e.nodes ++ l₂ := by
  induction c, π using sub.induct with
  | case1 c =>
    rw [sub_nil] at h
    obtain rfl := Option.some.inj h
    exact ⟨[], [], by simp, fun e => by simp⟩
  | case2 p c π ih =>
    obtain ⟨l₁, l₂, h₁, h₂⟩ := ih h
    exact ⟨p :: l₁, l₂, by simp [nodes, h₁], fun e => by simp [put, nodes, h₂]⟩
  | case3 p l r π ih =>
    obtain ⟨l₁, l₂, h₁, h₂⟩ := ih h
    exact ⟨p :: l₁, l₂ ++ r.nodes, by simp [nodes, h₁], fun e => by simp [put, nodes, h₂]⟩
  | case4 p l r π ih =>
    obtain ⟨l₁, l₂, h₁, h₂⟩ := ih h
    exact ⟨p :: (l.nodes ++ l₁), l₂, by simp [nodes, h₁], fun e => by simp [put, nodes, h₂]⟩
  | case5 => simp [sub] at h
  | case6 => simp [sub] at h

theorem nodes_sub (h : c.sub π = some d) : d.nodes ⊆ c.nodes := by
  obtain ⟨l₁, l₂, h₁, -⟩ := nodes_put h
  rw [h₁]
  intro x hx
  simp [hx]

theorem nodup_sub (hn : c.nodes.Nodup) (h : c.sub π = some d) : d.nodes.Nodup := by
  obtain ⟨l₁, l₂, h₁, -⟩ := nodes_put h
  rw [h₁] at hn
  exact (List.nodup_append.mp (List.nodup_append.mp hn).1).2.1

theorem mem_pairs_put {e : Cells α} {x : α} (hx : x ∈ (c.put π e).pairs) :
    x ∈ c.pairs ∨ x ∈ e.pairs := by
  induction c, π, e using put.induct with
  | case1 c e => exact .inr (by simpa using hx)
  | case2 p c π e ih => exact ih hx
  | case3 p l r π e ih =>
    simp only [put, pairs, List.mem_cons, List.mem_append] at hx ⊢
    have := ih
    tauto
  | case4 p l r π e ih =>
    simp only [put, pairs, List.mem_cons, List.mem_append] at hx ⊢
    have := ih
    tauto
  | case5 => exact .inl (by simpa [put] using hx)
  | case6 => exact .inl (by simpa [put] using hx)

/-- A subtree replaced by one with new nodes, or with some of the old ones. -/
theorem nodup_put {e : Cells α} (hc : c.nodes.Nodup) (h : c.sub π = some d) (he : e.nodes.Nodup)
    (hn : ∀ x ∈ e.nodes, x ∈ c.nodes → x ∈ d.nodes) : (c.put π e).nodes.Nodup := by
  obtain ⟨l₁, l₂, h₁, h₂⟩ := nodes_put h
  rw [h₂ e]
  rw [h₁] at hc hn
  simp only [List.nodup_append, List.mem_append] at hc hn ⊢
  grind

theorem mem_nodes_put {e : Cells α} {x : α} (h : c.sub π = some d)
    (hx : x ∈ (c.put π e).nodes) : x ∈ c.nodes ∨ x ∈ e.nodes := by
  obtain ⟨l₁, l₂, h₁, h₂⟩ := nodes_put h
  rw [h₂ e] at hx
  rw [h₁]
  simp only [List.mem_append] at hx ⊢
  tauto

/-! ### Reading -/

/-- A path of the tree is a path in memory. -/
theorem Fits.chase (h : c.Fits mem w) (hd : c.sub π = some d) :
    ∃ u, Mem.chase mem w π = some u ∧ d.Fits mem u := by
  induction c, π using sub.induct generalizing w with
  | case1 c =>
    rw [sub_nil] at hd
    obtain rfl := Option.some.inj hd
    exact ⟨w, rfl, h⟩
  | case2 p c π ih =>
    obtain ⟨rfl, u, hu, hc⟩ := h
    simpa [Mem.chase, hu] using ih hc hd
  | case3 p l r π ih =>
    obtain ⟨rfl, ⟨u, hu, hc⟩, -⟩ := h
    simpa [Mem.chase, hu] using ih hc hd
  | case4 p l r π ih =>
    obtain ⟨rfl, -, u, hu, hc⟩ := h
    simpa [Mem.chase, hu] using ih hc hd
  | case5 => simp [sub] at hd
  | case6 => simp [sub] at hd

theorem Fits.top (h : c.Fits mem w) :
    w ∈ c.nodes ∨ some w ∈ c.layout.top ∨ none ∈ c.layout.top := by
  rcases c with (_ | v) | ⟨p, c⟩ | ⟨p, l, r⟩
  · exact .inr (.inr (List.mem_singleton_self _))
  · obtain rfl : w = v := h v rfl
    exact .inr (.inl (List.mem_singleton_self _))
  · exact .inl (h.1 ▸ List.mem_cons_self ..)
  · exact .inl (h.1 ▸ List.mem_cons_self ..)

/-- The units of a pair lead to nodes or are leaves. -/
theorem Fits.links {q : α} (h : c.Fits mem w) (hq : q ∈ c.pairs) :
    ∃ x y, mem q 0 = some x ∧ mem q 1 = some y ∧ ∀ z, z = x ∨ z = y →
      z ∈ c.nodes ∨ some z ∈ c.layout.links ∨ none ∈ c.layout.links := by
  induction c generalizing w with
  | leaf _ => cases hq
  | atom p c ih =>
    obtain ⟨-, u, -, hc⟩ := h
    obtain ⟨x, y, hx, hy, hz⟩ := ih hc hq
    exact ⟨x, y, hx, hy, fun z h => (hz z h).imp (List.mem_cons_of_mem _) id⟩
  | pair p l r ihl ihr =>
    obtain ⟨rfl, ⟨u, hu, hl⟩, v, hv, hr⟩ := h
    simp only [layout, Layout.links, nodes, List.mem_cons, List.mem_append]
    rcases List.mem_cons.mp hq with rfl | hq
    · refine ⟨u, v, hu, hv, ?_⟩
      rintro z (rfl | rfl)
      · have := hl.top
        tauto
      · have := hr.top
        tauto
    · rcases List.mem_append.mp hq with hq | hq
      · obtain ⟨x, y, hx, hy, hz⟩ := ihl hl hq
        refine ⟨x, y, hx, hy, fun z h => ?_⟩
        have := hz z h
        tauto
      · obtain ⟨x, y, hx, hy, hz⟩ := ihr hr hq
        refine ⟨x, y, hx, hy, fun z h => ?_⟩
        have := hz z h
        tauto

/-- The unit of a nonempty path: the node before its last step. -/
theorem Fits.slot (h : c.Fits mem w) (hs : c.slot (π ++ [b]) = some (p, i)) :
    Mem.chase mem w π = some p ∧ i = bit b ∧ p ∈ c.nodes := by
  induction c generalizing w π with
  | leaf v => simp [Cells.slot] at hs
  | atom q c ih =>
    obtain ⟨rfl, u, hu, hc⟩ := h
    rcases π with _ | ⟨a, π⟩
    · cases b <;> simp_all [Cells.slot, Mem.chase, nodes]
    · cases a with
      | true => cases π <;> simp [Cells.slot] at hs
      | false =>
        have hs' : c.slot (π ++ [b]) = some (p, i) := by cases π <;> exact hs
        obtain ⟨h₁, h₂, h₃⟩ := ih hc hs'
        exact ⟨by simpa [Mem.chase, hu] using h₁, h₂, List.mem_cons_of_mem _ h₃⟩
  | pair q l r ihl ihr =>
    obtain ⟨rfl, ⟨u, hu, hl⟩, v, hv, hr⟩ := h
    rcases π with _ | ⟨a, π⟩
    · cases b <;> simp_all [Cells.slot, Mem.chase, nodes]
    · cases a with
      | false =>
        have hs' : l.slot (π ++ [b]) = some (p, i) := by cases π <;> exact hs
        obtain ⟨h₁, h₂, h₃⟩ := ihl hl hs'
        exact ⟨by simpa [Mem.chase, hu] using h₁, h₂, by simp [nodes, h₃]⟩
      | true =>
        have hs' : r.slot (π ++ [b]) = some (p, i) := by cases π <;> exact hs
        obtain ⟨h₁, h₂, h₃⟩ := ihr hr hs'
        exact ⟨by simpa [Mem.chase, hv] using h₁, h₂, by simp [nodes, h₃]⟩

theorem mem_nodes_of_slot (hs : c.slot π = some (p, i)) : p ∈ c.nodes := by
  induction c, π using Cells.slot.induct <;> simp_all [Cells.slot, nodes]

/-- Different paths end in different units. -/
theorem slot_inj (hn : c.nodes.Nodup) (h₁ : c.slot π = some (p, i)) (h₂ : c.slot ρ = some (p, i)) :
    π = ρ := by
  induction c generalizing π ρ with
  | leaf v => simp [Cells.slot] at h₁
  | atom q c ih =>
    obtain ⟨hq, hn⟩ := List.nodup_cons.mp hn
    have hslot : ∀ σ, (atom q c).slot σ = some (p, i) →
        σ = [false] ∧ p = q ∨ ∃ σ', σ = false :: σ' ∧ c.slot σ' = some (p, i) := by
      intro σ h
      rcases σ with _ | ⟨_ | _, _ | ⟨a, σ⟩⟩
      · simp [Cells.slot] at h
      · exact .inl ⟨rfl, (Prod.mk.inj (Option.some.inj h)).1.symm⟩
      · exact .inr ⟨_, rfl, h⟩
      · simp [Cells.slot] at h
      · simp [Cells.slot] at h
    have hin : ∀ σ, c.slot σ = some (p, i) → p ≠ q := fun σ h e => hq (e ▸ mem_nodes_of_slot h)
    rcases hslot π h₁ with ⟨rfl, e⟩ | ⟨π', rfl, g₁⟩ <;>
      rcases hslot ρ h₂ with ⟨rfl, e'⟩ | ⟨ρ', rfl, g₂⟩
    · rfl
    · exact absurd e (hin _ g₂)
    · exact absurd e' (hin _ g₁)
    · rw [ih hn g₁ g₂]
  | pair q l r ihl ihr =>
    obtain ⟨hq, hn⟩ := List.nodup_cons.mp hn
    obtain ⟨hl, hr, hlr⟩ := List.nodup_append.mp hn
    have hslot : ∀ σ, (pair q l r).slot σ = some (p, i) → (∃ b, σ = [b] ∧ p = q ∧ i = bit b) ∨
        (∃ σ', σ = false :: σ' ∧ l.slot σ' = some (p, i)) ∨
        ∃ σ', σ = true :: σ' ∧ r.slot σ' = some (p, i) := by
      intro σ h
      rcases σ with _ | ⟨a, _ | ⟨a', σ⟩⟩
      · simp [Cells.slot] at h
      · obtain ⟨rfl, rfl⟩ := Prod.mk.inj (Option.some.inj h)
        exact .inl ⟨a, rfl, rfl, rfl⟩
      · cases a
        · exact .inr (.inl ⟨_, rfl, h⟩)
        · exact .inr (.inr ⟨_, rfl, h⟩)
    have hinl : ∀ σ, l.slot σ = some (p, i) → p ≠ q := fun σ h e =>
      hq (List.mem_append_left _ (e ▸ mem_nodes_of_slot h))
    have hinr : ∀ σ, r.slot σ = some (p, i) → p ≠ q := fun σ h e =>
      hq (List.mem_append_right _ (e ▸ mem_nodes_of_slot h))
    rcases hslot π h₁ with ⟨b, rfl, e, hb⟩ | ⟨π', rfl, g₁⟩ | ⟨π', rfl, g₁⟩ <;>
      rcases hslot ρ h₂ with ⟨b', rfl, e', hb'⟩ | ⟨ρ', rfl, g₂⟩ | ⟨ρ', rfl, g₂⟩
    · cases b <;> cases b' <;> simp_all
    · exact absurd e (hinl _ g₂)
    · exact absurd e (hinr _ g₂)
    · exact absurd e' (hinl _ g₁)
    · rw [ihl hl g₁ g₂]
    · exact absurd rfl (hlr p (mem_nodes_of_slot g₁) p (mem_nodes_of_slot g₂))
    · exact absurd e' (hinr _ g₁)
    · exact absurd rfl (hlr p (mem_nodes_of_slot g₂) p (mem_nodes_of_slot g₁))
    · rw [ihr hr g₁ g₂]

/-- The node of a unit is above what the unit leads to. -/
theorem slot_notMem (hn : c.nodes.Nodup) (hs : c.slot π = some (p, i)) (hd : c.sub π = some d) :
    p ∉ d.nodes := by
  induction c, π using Cells.slot.induct with
  | case1 q c =>
    obtain ⟨rfl, -⟩ := Prod.mk.inj (Option.some.inj hs)
    obtain rfl : c = d := by simpa [sub] using hd
    exact (List.nodup_cons.mp hn).1
  | case2 q l r b =>
    obtain ⟨rfl, -⟩ := Prod.mk.inj (Option.some.inj hs)
    have hq := (List.nodup_cons.mp hn).1
    cases b
    · obtain rfl : l = d := by simpa [sub] using hd
      exact fun hm => hq (List.mem_append_left _ hm)
    · obtain rfl : r = d := by simpa [sub] using hd
      exact fun hm => hq (List.mem_append_right _ hm)
  | case3 q c π hne ih =>
    exact ih (List.nodup_cons.mp hn).2 (by simpa [Cells.slot, hne] using hs) hd
  | case4 q l r π hne ih =>
    have hl := (List.nodup_append.mp (List.nodup_cons.mp hn).2).1
    exact ih hl (by simpa [Cells.slot, hne] using hs) hd
  | case5 q l r π hne ih =>
    have hr := (List.nodup_append.mp (List.nodup_cons.mp hn).2).2.1
    exact ih hr (by simpa [Cells.slot, hne] using hs) hd
  | case6 => simp_all [Cells.slot]

/-- Every subtree below the root has a unit. -/
theorem slot_of_sub (h : c.sub (π ++ [b]) = some d) :
    ∃ p, c.slot (π ++ [b]) = some (p, bit b) := by
  induction c generalizing π with
  | leaf v => cases π <;> simp [sub] at h
  | atom q c ih =>
    rcases π with _ | ⟨a, π⟩
    · cases b <;> simp_all [Cells.slot, sub]
    · cases a with
      | true => simp [sub] at h
      | false =>
        obtain ⟨p, hp⟩ := ih (π := π) h
        exact ⟨p, by rw [← hp]; cases π <;> rfl⟩
  | pair q l r ihl ihr =>
    rcases π with _ | ⟨a, π⟩
    · exact ⟨q, rfl⟩
    · cases a with
      | false =>
        obtain ⟨p, hp⟩ := ihl (π := π) h
        exact ⟨p, by rw [← hp]; cases π <;> rfl⟩
      | true =>
        obtain ⟨p, hp⟩ := ihr (π := π) h
        exact ⟨p, by rw [← hp]; cases π <;> rfl⟩

/-- The units that a path of the tree reads lie before its steps. -/
theorem Fits.walk_slot {x : α × Nat} (h : c.Fits mem w) (hd : c.sub π = some d)
    (hx : x ∈ walk mem w π) : ∃ ρ a, ρ ++ [a] <+: π ∧ c.slot (ρ ++ [a]) = some x := by
  induction c, π using sub.induct generalizing w with
  | case1 c => cases hx
  | case2 p c π ih =>
    obtain ⟨rfl, u, hu, hc⟩ := h
    rw [walk, Mem.bit_false, hu] at hx
    rcases List.mem_cons.mp hx with rfl | hx
    · exact ⟨[], false, List.prefix_append _ π, rfl⟩
    · obtain ⟨ρ, a, hρ, hs⟩ := ih hc hd hx
      exact ⟨false :: ρ, a, List.cons_prefix_cons.mpr ⟨rfl, hρ⟩, by rw [← hs]; cases ρ <;> rfl⟩
  | case3 p l r π ih =>
    obtain ⟨rfl, ⟨u, hu, hl⟩, -⟩ := h
    rw [walk, Mem.bit_false, hu] at hx
    rcases List.mem_cons.mp hx with rfl | hx
    · exact ⟨[], false, List.prefix_append _ π, rfl⟩
    · obtain ⟨ρ, a, hρ, hs⟩ := ih hl hd hx
      exact ⟨false :: ρ, a, List.cons_prefix_cons.mpr ⟨rfl, hρ⟩, by rw [← hs]; cases ρ <;> rfl⟩
  | case4 p l r π ih =>
    obtain ⟨rfl, -, v, hv, hr⟩ := h
    rw [walk, Mem.bit_true, hv] at hx
    rcases List.mem_cons.mp hx with rfl | hx
    · exact ⟨[], true, List.prefix_append _ π, rfl⟩
    · obtain ⟨ρ, a, hρ, hs⟩ := ih hr hd hx
      exact ⟨true :: ρ, a, List.cons_prefix_cons.mpr ⟨rfl, hρ⟩, by rw [← hs]; cases ρ <;> rfl⟩
  | case5 => simp [sub] at hd
  | case6 => simp [sub] at hd

/-- Every fixed unit lies on the path to a fixed position. -/
theorem Fits.walk_fixed (h : c.Fits mem w) (hf : (p, i) ∈ c.fixed) :
    ∃ π ∈ c.layout.pins, (p, i) ∈ walk mem w π := by
  induction c generalizing w with
  | leaf v => simp [fixed] at hf
  | atom q c ih =>
    obtain ⟨rfl, u, hu, hc⟩ := h
    rcases List.mem_append.mp hf with hf | hf
    · split at hf
      · next hp =>
        obtain ⟨rfl, rfl⟩ : p = w ∧ i = 0 := by simpa using hf
        exact ⟨[false], by simp [layout, Layout.pins, hp], by simp [Mem.walk]⟩
      · simp at hf
    · obtain ⟨π, hπ, hw⟩ := ih hc hf
      exact ⟨false :: π, by simp [layout, Layout.pins, hπ], by simp [Mem.walk, hu, hw]⟩
  | pair q l r ihl ihr =>
    obtain ⟨rfl, ⟨u, hu, hl⟩, v, hv, hr⟩ := h
    simp only [fixed, List.mem_append] at hf
    rcases hf with (hf | hf) | hf | hf
    · split at hf
      · next hp =>
        obtain ⟨rfl, rfl⟩ : p = w ∧ i = 0 := by simpa using hf
        exact ⟨[false], by simp [layout, Layout.pins, hp], by simp [Mem.walk]⟩
      · simp at hf
    · obtain ⟨π, hπ, hw⟩ := ihl hl hf
      exact ⟨false :: π, by simp [layout, Layout.pins, hπ], by simp [Mem.walk, hu, hw]⟩
    · split at hf
      · next hp =>
        obtain ⟨rfl, rfl⟩ : p = w ∧ i = 1 := by simpa using hf
        exact ⟨[true], by simp [layout, Layout.pins, hp], by simp [Mem.walk]⟩
      · simp at hf
    · obtain ⟨π, hπ, hw⟩ := ihr hr hf
      exact ⟨true :: π, by simp [layout, Layout.pins, hπ], by simp [Mem.walk, hv, hw]⟩

/-- The same tree with less said about it. -/
theorem Fits.relax {t : Layout α} (h : c.Fits mem w) (ht : c.layout.relaxes t) :
    ∃ d : Cells α, d.Fits mem w ∧ d.layout = t ∧ d.nodes.Sublist c.nodes ∧ d.pairs ⊆ c.pairs := by
  induction c generalizing w t with
  | leaf v =>
    rcases t with (_ | v') | _ | _
    · exact ⟨leaf none, by simp [Fits], rfl, .slnil, List.nil_subset _⟩
    · obtain rfl : v = some v' := ht
      exact ⟨leaf (some v'), h, rfl, .slnil, List.nil_subset _⟩
    · exact ht.elim
    · exact ht.elim
  | atom p c ih =>
    rcases t with (_ | v') | c' | _
    · exact ⟨leaf none, by simp [Fits], rfl, List.nil_sublist _, List.nil_subset _⟩
    · exact ht.elim
    · obtain ⟨rfl, u, hu, hc⟩ := h
      obtain ⟨d, h₁, h₂, h₃, h₄⟩ := ih hc ht
      exact ⟨atom _ d, ⟨rfl, u, hu, h₁⟩, by rw [layout, h₂], h₃.cons_cons _, h₄⟩
    · exact ht.elim
  | pair p l r ihl ihr =>
    rcases t with (_ | v') | _ | ⟨l', r'⟩
    · exact ⟨leaf none, by simp [Fits], rfl, List.nil_sublist _, List.nil_subset _⟩
    · exact ht.elim
    · exact ht.elim
    · obtain ⟨rfl, ⟨u, hu, hl⟩, v, hv, hr⟩ := h
      obtain ⟨d, h₁, h₂, h₃, hd⟩ := ihl hl ht.1
      obtain ⟨e, h₄, h₅, h₆, he⟩ := ihr hr ht.2
      exact ⟨pair _ d e, ⟨rfl, ⟨u, hu, h₁⟩, v, hv, h₄⟩, by rw [layout, h₂, h₅],
        (h₃.append h₆).cons_cons _, List.cons_subset_cons _ (List.append_subset.mpr
          ⟨fun x hx => List.mem_append_left _ (hd hx),
            fun x hx => List.mem_append_right _ (he hx)⟩)⟩

/-! ### Changes of the memory -/

/-- The tree stays where the nodes keep their units, and the fixed ones their words. -/
theorem Fits.mono (h : c.Fits mem w) (hm : ∀ p ∈ c.nodes, ∀ i u, mem p i = some u →
    ∃ u', mem' p i = some u' ∧ ((p, i) ∈ c.fixed → u' = u)) : c.Fits mem' w := by
  induction c generalizing w with
  | leaf v => exact h
  | atom q c ih =>
    obtain ⟨rfl, u, hu, hc⟩ := h
    obtain ⟨u', hu', he⟩ := hm _ (List.mem_cons_self ..) 0 u hu
    refine ⟨rfl, u', hu', ?_⟩
    cases hp : c.layout.pinned with
    | true =>
      rw [he (by simp [fixed, hp])]
      refine ih hc fun p hp i u hu => ?_
      obtain ⟨u', h₁, h₂⟩ := hm p (List.mem_cons_of_mem _ hp) i u hu
      exact ⟨u', h₁, fun hf => h₂ (by simp [fixed, hf])⟩
    | false =>
      rcases c with (_ | v) | _ | _
      · simp [Fits]
      all_goals simp [layout, Layout.pinned] at hp
  | pair q l r ihl ihr =>
    obtain ⟨rfl, ⟨u, hu, hl⟩, v, hv, hr⟩ := h
    obtain ⟨u', hu', heu⟩ := hm _ (List.mem_cons_self ..) 0 u hu
    obtain ⟨v', hv', hev⟩ := hm _ (List.mem_cons_self ..) 1 v hv
    refine ⟨rfl, ⟨u', hu', ?_⟩, v', hv', ?_⟩
    · cases hp : l.layout.pinned with
      | true =>
        rw [heu (by simp [fixed, hp])]
        refine ihl hl fun p hp i u hu => ?_
        obtain ⟨u', h₁, h₂⟩ := hm p (by simp [nodes, hp]) i u hu
        exact ⟨u', h₁, fun hf => h₂ (by simp [fixed, hf])⟩
      | false =>
        rcases l with (_ | v) | _ | _
        · simp [Fits]
        all_goals simp [layout, Layout.pinned] at hp
    · cases hp : r.layout.pinned with
      | true =>
        rw [hev (by simp [fixed, hp])]
        refine ihr hr fun p hp i u hu => ?_
        obtain ⟨u', h₁, h₂⟩ := hm p (by simp [nodes, hp]) i u hu
        exact ⟨u', h₁, fun hf => h₂ (by simp [fixed, hf])⟩
      | false =>
        rcases r with (_ | v) | _ | _
        · simp [Fits]
        all_goals simp [layout, Layout.pinned] at hp

/-- The tree stays where its nodes keep their words. -/
theorem Fits.congr (h : c.Fits mem w)
    (hm : ∀ p ∈ c.nodes, ∀ i u, mem p i = some u → mem' p i = some u) : c.Fits mem' w :=
  h.mono fun p hp i u hu => ⟨u, hm p hp i u hu, fun _ => rfl⟩

/-- The unit of a path assigned. -/
theorem Fits.put (h : c.Fits mem w) (hn : c.nodes.Nodup) (hs : c.slot π = some (p, i))
    (hm : ∀ q ∈ c.nodes, ∀ j u, (q, j) ≠ (p, i) → mem q j = some u → mem' q j = some u)
    (hu : mem' p i = some u) (hd : d.Fits mem' u) : (c.put π d).Fits mem' w := by
  induction c generalizing w π with
  | leaf v => simp [Cells.slot] at hs
  | atom q c ih =>
    obtain ⟨rfl, x, hx, hc⟩ := h
    obtain ⟨hq, hn⟩ := List.nodup_cons.mp hn
    rcases π with _ | ⟨a, _ | ⟨a', π⟩⟩
    · simp [Cells.slot] at hs
    · cases a with
      | true => simp [Cells.slot] at hs
      | false =>
        obtain ⟨rfl, rfl⟩ : w = p ∧ 0 = i := by simpa [Cells.slot] using hs
        exact ⟨rfl, u, hu, by rwa [put_nil]⟩
    · cases a with
      | true => simp [Cells.slot] at hs
      | false =>
        have hp : p ∈ c.nodes := mem_nodes_of_slot (π := a' :: π) hs
        refine ⟨rfl, x, hm w (List.mem_cons_self ..) 0 x ?_ hx, ?_⟩
        · rintro ⟨⟩; exact hq hp
        · exact ih hc hn hs fun q hq => hm q (List.mem_cons_of_mem _ hq)
  | pair q l r ihl ihr =>
    obtain ⟨rfl, ⟨x, hx, hl⟩, y, hy, hr⟩ := h
    obtain ⟨hq, hn⟩ := List.nodup_cons.mp hn
    rw [List.mem_append, not_or] at hq
    obtain ⟨hnl, hnr, hlr⟩ := List.nodup_append.mp hn
    rcases π with _ | ⟨a, _ | ⟨a', π⟩⟩
    · simp [Cells.slot] at hs
    · obtain ⟨rfl, rfl⟩ : w = p ∧ bit a = i := by simpa [Cells.slot] using hs
      cases a with
      | false =>
        refine ⟨rfl, ⟨u, hu, by rwa [put_nil]⟩, y, hm w (List.mem_cons_self ..) 1 y (by simp) hy,
          ?_⟩
        refine hr.congr fun q hq' j v => hm q (by simp [nodes, hq']) j v ?_
        rintro ⟨⟩; exact hq.2 hq'
      | true =>
        refine ⟨rfl, ⟨x, hm w (List.mem_cons_self ..) 0 x (by simp) hx, ?_⟩, u, hu,
          by rwa [put_nil]⟩
        refine hl.congr fun q hq' j v => hm q (by simp [nodes, hq']) j v ?_
        rintro ⟨⟩; exact hq.1 hq'
    · cases a with
      | false =>
        have hp : p ∈ l.nodes := mem_nodes_of_slot (π := a' :: π) hs
        refine ⟨rfl, ⟨x, hm w (List.mem_cons_self ..) 0 x ?_ hx, ?_⟩,
          y, hm w (List.mem_cons_self ..) 1 y ?_ hy, ?_⟩
        · rintro ⟨⟩; exact hq.1 hp
        · exact ihl hl hnl hs fun q hq' => hm q (by simp [nodes, hq'])
        · rintro ⟨⟩; exact hq.1 hp
        · refine hr.congr fun q hq' j v => hm q (by simp [nodes, hq']) j v ?_
          rintro ⟨⟩; exact hlr p hp p hq' rfl
      | true =>
        have hp : p ∈ r.nodes := mem_nodes_of_slot (π := a' :: π) hs
        refine ⟨rfl, ⟨x, hm w (List.mem_cons_self ..) 0 x ?_ hx, ?_⟩,
          y, hm w (List.mem_cons_self ..) 1 y ?_ hy, ?_⟩
        · rintro ⟨⟩; exact hq.2 hp
        · refine hl.congr fun q hq' j v => hm q (by simp [nodes, hq']) j v ?_
          rintro ⟨⟩; exact hlr p hq' p hp rfl
        · rintro ⟨⟩; exact hq.2 hp
        · exact ihr hr hnr hs fun q hq' => hm q (by simp [nodes, hq'])

end Cells
