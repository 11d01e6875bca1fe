import Mathlib.Data.List.Nodup
import Mathlib.Logic.Relation

/-!
# Linked chains

A chain is given by a link function `next : α → α`. `Seg next a l z`: following `next` from `a`
passes exactly the nodes `l`, in this order, and arrives at `z`. A terminated chain ends at a
value `z` that is no node.

* `Seg.congr`: only the links of the nodes matter.
* `Seg.unique`: a terminated chain has one list of nodes.
* `Seg.insert`: a node linked in after another one.
* `Seg.split`: the chain from one of its nodes on.
* `exists_seg`, `transGen_of_skip`: what is reached by the links.
-/

namespace Chain

variable {α : Type} {next next' : α → α}

/-- Following `next` from `a` passes the nodes `l` and arrives at `z`. -/
def Seg (next : α → α) : α → List α → α → Prop
  | a, [], z => a = z
  | a, x :: l, z => a = x ∧ Seg next (next x) l z

@[simp] theorem seg_nil {a z : α} : Seg next a [] z ↔ a = z := Iff.rfl

@[simp] theorem seg_cons {a x z : α} {l : List α} :
    Seg next a (x :: l) z ↔ a = x ∧ Seg next (next x) l z := Iff.rfl

theorem seg_append {a z : α} {l₁ l₂ : List α} :
    Seg next a (l₁ ++ l₂) z ↔ ∃ m, Seg next a l₁ m ∧ Seg next m l₂ z := by
  induction l₁ generalizing a with
  | nil => simp
  | cons x l₁ ih => simp [ih, and_assoc]

/-- Only the links of the nodes matter. -/
theorem Seg.congr {a z : α} {l : List α} (h : Seg next a l z) (hn : ∀ x ∈ l, next' x = next x) :
    Seg next' a l z := by
  induction l generalizing a with
  | nil => exact h
  | cons x l ih =>
    obtain ⟨rfl, h⟩ := h
    refine ⟨rfl, ?_⟩
    rw [hn _ (List.mem_cons_self ..)]
    exact ih h fun y hy => hn y (List.mem_cons_of_mem _ hy)

/-- A chain that ends at `z` has one list of nodes, if `z` is no node. -/
theorem Seg.unique {a z : α} {l l' : List α} (h : Seg next a l z) (h' : Seg next a l' z)
    (hz : z ∉ l) (hz' : z ∉ l') : l = l' := by
  induction l generalizing a l' with
  | nil =>
    cases l' with
    | nil => rfl
    | cons x l' =>
      have e : x = z := h'.1.symm.trans h
      exact absurd (e ▸ List.mem_cons_self ..) hz'
  | cons x l ih =>
    cases l' with
    | nil =>
      have e : x = z := h.1.symm.trans h'
      exact absurd (e ▸ List.mem_cons_self ..) hz
    | cons y l' =>
      obtain ⟨rfl, h⟩ := h
      obtain ⟨rfl, h'⟩ := h'
      rw [ih h h' (fun hm => hz (List.mem_cons_of_mem _ hm))
        fun hm => hz' (List.mem_cons_of_mem _ hm)]

/-- The chain from one of its nodes on. -/
theorem Seg.split {a b z : α} {l : List α} (h : Seg next a l z) (hb : b ∈ l) :
    ∃ l₁ l₂, l = l₁ ++ b :: l₂ ∧ Seg next a l₁ b ∧ Seg next (next b) l₂ z := by
  obtain ⟨l₁, l₂, rfl⟩ := List.append_of_mem hb
  obtain ⟨m, h₁, rfl, h₂⟩ := seg_append.mp h
  exact ⟨l₁, l₂, rfl, h₁, h₂⟩

/-- Nodes `new` linked in after the node `b`, which linked to the old rest before. -/
theorem Seg.insert {a b z : α} {l₁ l₂ new : List α} (h : Seg next a (l₁ ++ b :: l₂) z)
    (hn : ∀ x ∈ l₁ ++ l₂, next' x = next x) (hnew : Seg next' (next' b) new (next b)) :
    Seg next' a (l₁ ++ b :: (new ++ l₂)) z := by
  obtain ⟨m, h₁, rfl, h₂⟩ := seg_append.mp h
  refine seg_append.mpr ⟨_, h₁.congr fun x hx => hn x (List.mem_append_left _ hx), rfl, ?_⟩
  exact seg_append.mpr ⟨_, hnew, h₂.congr fun x hx => hn x (List.mem_append_right _ hx)⟩

/-- The chain after the node `b` replaced by another one. -/
theorem Seg.relink {a b z : α} {l₁ l₂ l₂' : List α} (h : Seg next a (l₁ ++ b :: l₂) z)
    (hn : ∀ x ∈ l₁, next' x = next x) (h₂ : Seg next' (next' b) l₂' z) :
    Seg next' a (l₁ ++ b :: l₂') z := by
  obtain ⟨m, h₁, rfl, -⟩ := seg_append.mp h
  exact seg_append.mpr ⟨_, h₁.congr hn, rfl, h₂⟩

/-! ## Reached nodes -/

open Relation

theorem Seg.reaches {a z : α} {l : List α} (h : Seg next a l z) :
    ReflTransGen (fun x y => next x = y) a z := by
  induction l generalizing a with
  | nil => exact h ▸ .refl
  | cons x l ih =>
    obtain ⟨rfl, h⟩ := h
    exact .head rfl (ih h)

/-- What is reached is at the end of a chain that does not come by it before. -/
theorem exists_seg {a z : α} (h : ReflTransGen (fun x y => next x = y) a z) :
    ∃ l, Seg next a l z ∧ l.Nodup ∧ z ∉ l := by
  induction h using ReflTransGen.head_induction_on with
  | refl => exact ⟨[], rfl, .nil, List.not_mem_nil⟩
  | @head a b hab _ ih =>
    obtain ⟨l, hseg, hn, hz⟩ := ih
    subst hab
    by_cases haz : a = z
    · exact ⟨[], haz, .nil, List.not_mem_nil⟩
    by_cases ha : a ∈ l
    · -- A way back to `a` is left out.
      obtain ⟨l₁, l₂, rfl, -, h₂⟩ := hseg.split ha
      exact ⟨a :: l₂, ⟨rfl, h₂⟩, (List.nodup_append.mp hn).2.1,
        fun hm => hz (List.mem_append_right _ hm)⟩
    · exact ⟨a :: l, ⟨rfl, hseg⟩, List.nodup_cons.mpr ⟨ha, hn⟩,
        fun hm => (List.mem_cons.mp hm).elim (fun e => haz e.symm) hz⟩

/-- Links that are chains of old ones, or lead to a dead end `z`, lead to nothing else that is
new. -/
theorem transGen_of_skip {x q z : α} (hz : next' z = z)
    (hn : ∀ y, next' y = z ∨ TransGen (fun a b => next a = b) y (next' y)) (hq : q ≠ z)
    (h : TransGen (fun a b => next' a = b) x q) : TransGen (fun a b => next a = b) x q := by
  induction h with
  | single h =>
    subst h
    exact (hn x).resolve_left hq
  | @tail y q _ h ih =>
    subst h
    have hy : y ≠ z := by
      rintro rfl
      exact hq hz
    exact (ih hy).trans ((hn y).resolve_left hq)

end Chain
