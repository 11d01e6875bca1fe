import Mathlib.Data.List.Basic

/-!
# Lists laid out in a memory

A memory maps integer addresses to values; where there is none it is not mapped. `At m a l` says
that the list `l` is at the address `a`, and `store m a l` puts it there.

* `at_append`: a list is there if its two parts are, one behind the other.
* `store_append`: a store of one behind a store of the other is a store of both.
* `At.store`: a list stays where it is under a store somewhere else.
-/

namespace Bytes

variable {α : Type} {m : Int → Option α} {a a' x : Int} {l l' : List α} {v : α}

/-- The list `l` is at `a`. -/
def At (m : Int → Option α) (a : Int) (l : List α) : Prop := ∀ i < l.length, m (a + i) = l[i]?

/-- The addresses from `a` on that a list of `n` values takes. -/
def In (a : Int) (n : Nat) (x : Int) : Prop := a ≤ x ∧ x < a + n

instance (a : Int) (n : Nat) (x : Int) : Decidable (In a n x) :=
  inferInstanceAs (Decidable (_ ∧ _))

/-- The memory with `l` put at `a`. -/
def store (m : Int → Option α) (a : Int) (l : List α) (x : Int) : Option α :=
  if In a l.length x then l[(x - a).toNat]? else m x

theorem in_iff {n : Nat} : In a n x ↔ ∃ i < n, x = a + (i : Int) := by
  constructor
  · rintro ⟨h₁, h₂⟩
    exact ⟨(x - a).toNat, by omega, by omega⟩
  · rintro ⟨i, hi, rfl⟩
    exact ⟨by omega, by omega⟩

theorem not_in_zero : ¬ In a 0 x := by
  rintro ⟨h₁, h₂⟩
  omega

theorem store_in {i : Nat} (hi : i < l.length) : store m a l (a + i) = l[i]? := by
  have h : (a + (i : Int) - a).toNat = i := by omega
  rw [store, if_pos (in_iff.mpr ⟨i, hi, rfl⟩), h]

theorem store_out (h : ¬ In a l.length x) : store m a l x = m x := if_neg h

theorem at_store : At (store m a l) a l := fun _ hi => store_in hi

@[simp] theorem store_nil : store m a [] = m := by
  funext x
  exact store_out not_in_zero

theorem at_nil : At m a [] := fun _ hi => absurd hi (Nat.not_lt_zero _)

theorem at_cons : At m a (v :: l) ↔ m a = some v ∧ At m (a + 1) l := by
  have e : ∀ i : Nat, a + ((i + 1 : Nat) : Int) = a + 1 + i := by omega
  constructor
  · intro h
    refine ⟨?_, fun i hi => ?_⟩
    · simpa using h 0 (by simp)
    · have := h (i + 1) (by simpa using hi)
      rwa [e, List.getElem?_cons_succ] at this
  · rintro ⟨h₁, h₂⟩ (_ | i) hi
    · simpa using h₁
    · rw [e, List.getElem?_cons_succ]
      exact h₂ i (by simpa using hi)

theorem at_append : At m a (l ++ l') ↔ At m a l ∧ At m (a + l.length) l' := by
  induction l generalizing a with
  | nil => simp [at_nil]
  | cons v l ih =>
    have e : a + 1 + (l.length : Int) = a + ((v :: l).length : Int) := by
      rw [List.length_cons]; omega
    rw [List.cons_append, at_cons, at_cons, ih, e, and_assoc]

/-- The first values of a list that is there. -/
theorem At.initial (h : At m a l') (hl : l <+: l') : At m a l := by
  obtain ⟨r, rfl⟩ := hl
  exact (at_append.mp h).1

/-- A store of the first value, and then of the others behind it. -/
theorem store_cons : store (store m a [v]) (a + 1) l = store m a (v :: l) := by
  funext x
  by_cases hx : In a (v :: l).length x
  · obtain ⟨i, hi, rfl⟩ := in_iff.mp hx
    rw [store_in hi]
    rcases i with _ | i
    · have hn : ¬ In (a + 1) l.length (a + (0 : Nat)) := by
        rintro ⟨h, -⟩
        omega
      rw [store_out hn, store_in (by simp)]
      rfl
    · have e : a + ((i + 1 : Nat) : Int) = a + 1 + i := by omega
      rw [e, store_in (by simpa using hi), List.getElem?_cons_succ]
  · have h₁ : ¬ In (a + 1) l.length x := by
      rintro ⟨h, h'⟩
      exact hx ⟨by omega, by rw [List.length_cons]; omega⟩
    have h₂ : ¬ In a [v].length x := by
      rintro ⟨h, h'⟩
      exact hx ⟨h, by simp at h' ⊢; omega⟩
    rw [store_out h₁, store_out h₂, store_out hx]

theorem store_append : store (store m a l) (a + l.length) l' = store m a (l ++ l') := by
  induction l generalizing m a with
  | nil => simp
  | cons v l ih =>
    have e : a + ((v :: l).length : Int) = a + 1 + l.length := by
      rw [List.length_cons]; omega
    rw [← store_cons, e, ih, List.cons_append, store_cons]

/-- A store somewhere else. -/
theorem At.store (h : At m a l) (hd : ∀ x, In a l.length x → ¬ In a' l'.length x) :
    At (store m a' l') a l := fun i hi => by
  rw [store_out (hd _ (in_iff.mpr ⟨i, hi, rfl⟩))]
  exact h i hi

end Bytes
