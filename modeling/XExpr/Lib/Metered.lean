import Mathlib.Data.Set.Card
import XExpr.Lib.Mutator

/-!
# Programs on a heap with a ceiling

A collected heap holds the nodes that were made since the last collection, and those that the frames
led to then. A program is stopped when it asks for a node and this number has reached the ceiling,
or the request is refused. If the ceiling is 0 there is none, and under a negative one no request is
answered.

* `Metered`: an ideal heap with this number. `Metered.run`: a program with its collections.
  `Metered.run_of_ideal`: unless it is stopped, it does what it does without a ceiling.
* `Metered.Closed`: the frames lead to no more nodes than the number says.
* `Metered.run_collecting`: a program that gets through with the collections it makes gets through
  with one before every request instead.
-/

namespace Mutator

variable {L A B : Type}

/-- A copy does not depend on what happens to other addresses. -/
theorem Renames.congr_left {f g : A → B} {R : Set A} {h : Heap L A} {h' : Heap L B}
    (hr : Renames f R h h') (hg : ∀ a ∈ R, g a = f a) : Renames g R h h' := by
  have hmap : ∀ vs : List (Option A), (∀ a, some a ∈ vs → a ∈ R) →
      vs.map (Option.map g) = vs.map (Option.map f) := by
    intro vs hvs
    refine List.map_congr_left fun v hv => ?_
    cases v with
    | none => rfl
    | some a => exact congrArg some (hg a (hvs a hv))
  refine ⟨fun a ha b hb e => hr.inj ha hb ?_, ?_, hr.frame_mem, fun a ha => ?_⟩
  · rwa [← hg a ha, ← hg b hb]
  · rw [hr.frames]
    exact List.map_congr_left fun fr hfr => (hmap fr (hr.frame_mem fr hfr)).symm
  · obtain ⟨n, h₁, h₂, h₃⟩ := hr.node a ha
    refine ⟨n, h₁, ?_, h₃⟩
    rw [hg a ha, h₂, Node.map, Node.map, hmap n.slots h₃]

/-- An ideal heap, with the number of nodes that a collected heap holds. -/
structure Metered (L : Type) where
  ideal : Ideal L
  count : Nat

namespace Metered

/-- A request is answered. -/
def Answers (grants : Nat → Bool) (limit : Int) (m : Metered L) : Prop :=
  grants m.ideal.asked = true ∧ 0 ≤ limit ∧ (0 < limit → (m.count : Int) < limit)

instance (grants : Nat → Bool) (limit : Int) (m : Metered L) : Decidable (m.Answers grants limit) :=
  inferInstanceAs (Decidable (_ ∧ _ ∧ _))

/-- An operation, or a collection. There is no state afterwards if the program is stopped. -/
noncomputable def step (grants : Nat → Bool) (limit : Int) (m : Metered L) :
    Option (Op L) → Option (Option (Metered L) × Option (Obs L))
  | none => some (some ⟨m.ideal, Set.ncard {a | m.ideal.heap.Rooted a}⟩, none)
  | some op => (m.ideal.step grants op).map fun r =>
    if op.asks = true ∧ ¬ m.Answers grants limit then (none, none)
    else (some ⟨r.1, m.count + op.asks.toNat⟩, r.2)

/-- The steps one after the other, and what the program learns from them. -/
noncomputable def run (grants : Nat → Bool) (limit : Int) :
    List (Option (Op L)) → Metered L → Option (Option (Metered L) × List (Obs L))
  | [], m => some (some m, [])
  | c :: cs, m => do
    let (r, o) ← m.step grants limit c
    match r with
    | none => return (none, [])
    | some m₁ =>
      let (r', os) ← run grants limit cs m₁
      return (r', o.toList ++ os)

section Run

variable {grants : Nat → Bool} {limit : Int} {m m' : Metered L} {op : Op L}
  {cs : List (Option (Op L))} {r : Option (Metered L)} {os : List (Obs L)} {R : Set Nat}

theorem run_collect : run grants limit (none :: cs) m =
    run grants limit cs ⟨m.ideal, Set.ncard {a | m.ideal.heap.Rooted a}⟩ := by
  simp [run, step]

/-- A program that goes on with an operation is stopped by it, or goes on behind it. -/
theorem run_op : run grants limit (some op :: cs) m = some (r, os) ↔
    ∃ i o, m.ideal.step grants op = some (i, o) ∧
      (op.asks = true ∧ ¬ m.Answers grants limit ∧ r = none ∧ os = [] ∨
        (op.asks = true → m.Answers grants limit) ∧ ∃ os',
          run grants limit cs ⟨i, m.count + op.asks.toNat⟩ = some (r, os') ∧
          os = o.toList ++ os') := by
  simp only [run, step, Option.bind_eq_bind, Option.bind_eq_some_iff, Option.map_eq_some_iff]
  constructor
  · rintro ⟨⟨r₁, o₁⟩, ⟨⟨i, o⟩, hi, e⟩, h⟩
    refine ⟨i, o, hi, ?_⟩
    by_cases hs : op.asks = true ∧ ¬ m.Answers grants limit
    · rw [if_pos hs] at e
      cases e
      cases h
      exact .inl ⟨hs.1, hs.2, rfl, rfl⟩
    · rw [if_neg hs] at e
      cases e
      obtain ⟨⟨r', os'⟩, hrun, e⟩ := Option.bind_eq_some_iff.mp h
      cases e
      exact .inr ⟨fun ha => not_not.mp fun hn => hs ⟨ha, hn⟩, os', hrun, rfl⟩
  · rintro ⟨i, o, hi, ⟨ha, hn, rfl, rfl⟩ | ⟨ha, os', hrun, rfl⟩⟩
    · exact ⟨_, ⟨_, hi, if_pos ⟨ha, hn⟩⟩, rfl⟩
    · refine ⟨_, ⟨_, hi, if_neg fun hs => hs.2 (ha hs.1)⟩, ?_⟩
      exact Option.bind_eq_some_iff.mpr ⟨_, hrun, rfl⟩

/-- A program with a meaning on the ideal heap has one here. If it is not stopped, they agree. -/
theorem run_of_ideal {i : Ideal L} (h : m.ideal.run grants (cs.filterMap id) = some (i, os)) :
    ∃ r os', run grants limit cs m = some (r, os') ∧ ∀ m' ∈ r, m'.ideal = i ∧ os' = os := by
  induction cs generalizing m os with
  | nil =>
    cases h
    refine ⟨_, _, rfl, fun m' hm => ?_⟩
    obtain rfl := Option.some.inj hm
    exact ⟨rfl, rfl⟩
  | cons c cs ih =>
    cases c with
    | none =>
      rw [run_collect]
      exact ih h
    | some op =>
      have hcs : (some op :: cs).filterMap id = op :: cs.filterMap id :=
        List.filterMap_cons_some rfl
      rw [hcs] at h
      obtain ⟨i₁, o, os', hi, hrest, rfl⟩ := Ideal.run_cons.mp h
      by_cases hs : op.asks = true ∧ ¬ m.Answers grants limit
      · exact ⟨none, [], run_op.mpr ⟨i₁, o, hi, .inl ⟨hs.1, hs.2, rfl, rfl⟩⟩, nofun⟩
      · obtain ⟨r, os'', hrun, hr⟩ := @ih ⟨i₁, m.count + op.asks.toNat⟩ _ hrest
        refine ⟨r, _, run_op.mpr ⟨i₁, o, hi, .inr
          ⟨fun ha => not_not.mp fun hn => hs ⟨ha, hn⟩, os'', hrun, rfl⟩⟩, fun m' hm => ?_⟩
        exact ⟨(hr m' hm).1, by rw [(hr m' hm).2]⟩

/-! ## How many nodes there are -/

/-- The nodes `R` hold what the frames lead to, and they are no more than were counted. -/
structure Closed (m : Metered L) (R : Set Nat) : Prop where
  copy : Renames id R m.ideal.heap m.ideal.heap
  finite : R.Finite
  old : ∀ a ∈ R, a < m.ideal.asked
  le : R.ncard ≤ m.count

theorem Closed.rooted_le (h : m.Closed R) : Set.ncard {a | m.ideal.heap.Rooted a} ≤ m.count :=
  (Set.ncard_le_ncard (fun _ => h.copy.rooted_mem) h.finite).trans h.le

theorem Closed.collect (h : m.Closed R) :
    Closed ⟨m.ideal, Set.ncard {a | m.ideal.heap.Rooted a}⟩ {a | m.ideal.heap.Rooted a} :=
  ⟨h.copy.collect rfl fun _ _ => rfl, h.finite.subset fun _ => h.copy.rooted_mem,
    fun a ha => h.old a (h.copy.rooted_mem ha), le_rfl⟩

/-- An operation adds no node but the one it asks for. -/
theorem Closed.apply {i : Ideal L} {o : Option (Obs L)} (h : m.Closed R)
    (hi : m.ideal.step grants op = some (i, o)) :
    ∃ R', Closed ⟨i, m.count + op.asks.toNat⟩ R' := by
  obtain ⟨new, hnew, ha⟩ : ∃ new : Option Nat, (∀ a ∈ new, op.asks = true ∧ a = m.ideal.asked) ∧
      m.ideal.heap.apply new op = some (i.heap, o) := by
    cases hop : op.asks with
    | false => exact ⟨none, nofun, (Ideal.step_still hop hi).1⟩
    | true =>
      obtain ⟨⟨h₁, o'⟩, ha, e⟩ := Option.map_eq_some_iff.mp hi
      cases e
      refine ⟨_, fun a ha => ⟨rfl, ?_⟩, ha⟩
      unfold Ideal.new at ha
      split at ha
      · exact (Option.some.inj ha).symm
      · cases ha
  have hasked : i.asked = m.ideal.asked + op.asks.toNat := by
    obtain ⟨⟨h₁, o'⟩, -, e⟩ := Option.map_eq_some_iff.mp hi
    cases e
    cases op.asks <;> rfl
  have hfresh : Renames.Fresh id R new new := by
    cases new with
    | none => exact .none
    | some a =>
      have haR : a ∉ R := fun hm => lt_irrefl _ ((hnew a rfl).2 ▸ h.old a hm)
      exact .some haR (by rwa [Set.image_id])
  obtain ⟨f₁, R₁, h₁', happ, hc, hR⟩ := h.copy.apply hfresh ha
  obtain rfl : i.heap = h₁' := (Prod.mk.inj (Option.some.inj (ha.symm.trans happ))).1
  have hid : ∀ a ∈ R₁, id a = f₁ a := fun a haR => by
    rcases hR a haR with ⟨-, e⟩ | ⟨ha, hf⟩
    · exact e.symm
    · exact Option.some.inj (Option.mem_def.mp ha ▸ Option.mem_def.mp hf)
  refine ⟨R₁, hc.congr_left hid, ?_, fun a haR => ?_, ?_⟩
  · exact (h.finite.insert m.ideal.asked).subset fun a haR =>
      (hR a haR).elim (fun h => .inr h.1) fun h => .inl (hnew a h.1).2
  · rw [hasked]
    rcases hR a haR with ⟨ha, -⟩ | ⟨ha, -⟩
    · exact Nat.lt_add_right _ (h.old a ha)
    · rw [(hnew a ha).1, (hnew a ha).2]
      exact Nat.lt_succ_self _
  · cases hop : op.asks with
    | false =>
      refine (Set.ncard_le_ncard (fun a haR => ?_) h.finite).trans h.le
      exact ((hR a haR).resolve_right fun hn => absurd (hnew a hn.1).1 (by simp [hop])).1
    | true =>
      refine (Set.ncard_le_ncard (t := insert m.ideal.asked R) (fun a haR => ?_)
        (h.finite.insert _)).trans ((Set.ncard_insert_le _ _).trans (Nat.succ_le_succ h.le))
      exact (hR a haR).elim (fun h => .inr h.1) fun h => .inl (hnew a h.1).2

/-! ## A collection before every request -/

/-- The same operations, with a collection before each one that may ask for a node. -/
def collecting (cs : List (Option (Op L))) : List (Option (Op L)) :=
  cs.flatMap fun c =>
    match c with
    | none => []
    | some op => if op.asks then [none, some op] else [some op]

/-- No other choice of the collections gets further. -/
theorem run_collecting (h : m.Closed R) (hr : run grants limit cs m = some (some m', os))
    (n : Nat) : ∃ n',
      run grants limit (collecting cs) ⟨m.ideal, n⟩ = some (some ⟨m'.ideal, n'⟩, os) := by
  induction cs generalizing m R os n with
  | nil =>
    cases hr
    exact ⟨n, rfl⟩
  | cons c cs ih =>
    cases c with
    | none =>
      rw [run_collect] at hr
      exact ih h.collect hr n
    | some op =>
      obtain ⟨i, o, hi, ⟨-, -, e, -⟩ | ⟨ha, os', hrest, rfl⟩⟩ := run_op.mp hr
      · cases e
      obtain ⟨R', h'⟩ := h.apply hi
      cases hop : op.asks with
      | false =>
        obtain ⟨n', hrun⟩ := ih h' hrest (n + op.asks.toNat)
        have hcs : collecting (some op :: cs) = some op :: collecting cs := by
          simp [collecting, hop]
        rw [hcs]
        exact ⟨n', run_op.mpr ⟨i, o, hi, .inr ⟨fun e => absurd e (by simp [hop]), os', hrun, rfl⟩⟩⟩
      | true =>
        have hcs : collecting (some op :: cs) = none :: some op :: collecting cs := by
          simp [collecting, hop]
        have hans : Answers grants limit
            ⟨m.ideal, Set.ncard {a | m.ideal.heap.Rooted a}⟩ :=
          ⟨(ha hop).1, (ha hop).2.1, fun hl =>
            (Int.ofNat_le.mpr h.rooted_le).trans_lt ((ha hop).2.2 hl)⟩
        obtain ⟨n', hrun⟩ := ih h' hrest (Set.ncard {a | m.ideal.heap.Rooted a} + op.asks.toNat)
        rw [hcs, run_collect]
        exact ⟨n', run_op.mpr ⟨i, o, hi, .inr ⟨fun _ => hans, os', hrun, rfl⟩⟩⟩

end Run

end Metered

end Mutator
