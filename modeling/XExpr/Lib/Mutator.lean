import Mathlib.Logic.Function.Basic
import Mathlib.Logic.Relation
import Mathlib.Data.Set.Function

/-!
# Programs on a heap of nodes, up to renaming

A heap of nodes is what a program with a collected heap sees of it: labelled nodes with slots, and
a stack of frames whose slots hold the nodes the program works on. Addresses are only compared.

* `Heap.apply`: one operation of a program, `Heap.run` all of them. A new node gets the address
  that comes with the operation, or none if the request for it is refused.
* `Renames f R h h'`: on the nodes `R` the heap `h'` is a copy of `h`, with `f` on the addresses.
  `Renames.apply` is the step lemma: the same operation on both gives the same answer and copies
  again.
* `Renames.congr`: what is not a copy may change. `Renames.collect`: so may what the frames do not
  lead to.
-/

namespace Mutator

open Relation

variable {L A B : Type}

/-- A node: its label, and the nodes in its slots. -/
structure Node (L A : Type) where
  label : L
  slots : List (Option A)

def Node.map (f : A → B) (n : Node L A) : Node L B := ⟨n.label, n.slots.map (Option.map f)⟩

/-- The nodes by address, and the frames, the newest first. -/
structure Heap (L A : Type) where
  node : A → Option (Node L A)
  frames : List (List (Option A))

/-- A slot of a frame, counted from the newest frame. -/
structure Var where
  depth : Nat
  slot : Nat
deriving DecidableEq, Repr

/-- The operations of a program. -/
inductive Op (L : Type)
  /-- A frame with `n` empty slots. -/
  | enter (n : Nat)
  /-- The `n` newest frames go. -/
  | leave (n : Nat)
  /-- A new node with these slots. -/
  | make (l : L) (args : List Var) (dst : Var)
  /-- Slot `i` of the node in `src`. -/
  | load (src : Var) (i : Nat) (dst : Var)
  | store (obj : Var) (i : Nat) (src : Var)
  | look (x : Var)
  | same (x y : Var)

/-- What a program learns from an operation. -/
inductive Obs (L : Type)
  | label (l : Option L)
  | same (b : Bool)
deriving DecidableEq

/-! ## Operations -/

namespace Heap

def get (h : Heap L A) (x : Var) : Option (Option A) := h.frames[x.depth]? >>= (·[x.slot]?)

def put (h : Heap L A) (x : Var) (v : Option A) : Heap L A :=
  { h with frames := h.frames.modify x.depth (·.set x.slot v) }

/-- The node `n` at the address `a`. -/
def setNode [DecidableEq A] (h : Heap L A) (a : A) (n : Node L A) : Heap L A :=
  { h with node := Function.update h.node a (some n) }

/-- Two arguments. -/
theorem mapM_two {h : Heap L A} {x y : Var} {vs : List (Option A)} : [x, y].mapM h.get = some vs ↔
    ∃ v w, h.get x = some v ∧ h.get y = some w ∧ vs = [v, w] := by
  simp only [List.mapM_cons, List.mapM_nil, Option.bind_eq_bind, Option.bind_eq_some_iff,
    Option.pure_def, Option.some.injEq]
  constructor
  · rintro ⟨v, hv, _, ⟨w, hw, _, rfl, rfl⟩, rfl⟩
    exact ⟨v, w, hv, hw, rfl⟩
  · rintro ⟨v, w, hv, hw, rfl⟩
    exact ⟨v, hv, [w], ⟨w, hw, [], rfl, rfl⟩, rfl⟩

variable [DecidableEq A]

/-- A node at the new address, if there is one, and the address in `dst`. -/
def made (h : Heap L A) (new : Option A) (n : Node L A) (dst : Var) : Heap L A :=
  match new with
  | some a => (h.setNode a n).put dst (some a)
  | none => h.put dst none

/-- One operation. It has no meaning if it uses a slot that is not there, or the node of an empty
one. -/
def apply (new : Option A) : Op L → Heap L A → Option (Heap L A × Option (Obs L))
  | .enter n, h => some ({ h with frames := List.replicate n none :: h.frames }, none)
  | .leave n, h =>
    if n ≤ h.frames.length then some ({ h with frames := h.frames.drop n }, none) else none
  | .make l args dst, h => do
    let vs ← args.mapM h.get
    let _ ← h.get dst
    return (h.made new ⟨l, vs⟩ dst, none)
  | .load src i dst, h => do
    let n ← (← h.get src) >>= h.node
    let v ← n.slots[i]?
    let _ ← h.get dst
    return (h.put dst v, none)
  | .store obj i src, h => do
    let a ← ← h.get obj
    let n ← h.node a
    let _ ← n.slots[i]?
    let v ← h.get src
    return (h.setNode a { n with slots := n.slots.set i v }, none)
  | .look x, h => do
    let v ← h.get x
    return (h, some (.label (v >>= fun a => (h.node a).map Node.label)))
  | .same x y, h => do
    let v ← h.get x
    let w ← h.get y
    return (h, some (.same (v = w)))

section Inversion

variable {h h₁ : Heap L A} {new : Option A} {o : Option (Obs L)} {x y src dst : Var} {i n : Nat}

theorem apply_leave : h.apply new (.leave n) = some (h₁, o) ↔
    n ≤ h.frames.length ∧ h₁ = { h with frames := h.frames.drop n } ∧ o = none := by
  simp only [apply]
  split
  · next hn => simp [hn, eq_comm]
  · next hn => simp [hn]

theorem apply_make {l : L} {args : List Var} :
    h.apply new (.make l args dst) = some (h₁, o) ↔
      ∃ vs v, args.mapM h.get = some vs ∧ h.get dst = some v ∧
        h₁ = h.made new ⟨l, vs⟩ dst ∧ o = none := by
  simp only [apply, Option.bind_eq_bind, Option.bind_eq_some_iff, Option.pure_def,
    Option.some.injEq, Prod.mk.injEq]
  constructor
  · rintro ⟨vs, hvs, v, hv, rfl, rfl⟩
    exact ⟨vs, v, hvs, hv, rfl, rfl⟩
  · rintro ⟨vs, v, hvs, hv, rfl, rfl⟩
    exact ⟨vs, hvs, v, hv, rfl, rfl⟩

theorem apply_load : h.apply new (.load src i dst) = some (h₁, o) ↔
    ∃ a n v w, h.get src = some (some a) ∧ h.node a = some n ∧ n.slots[i]? = some v ∧
      h.get dst = some w ∧ h₁ = h.put dst v ∧ o = none := by
  simp only [apply, Option.bind_eq_bind, Option.bind_eq_some_iff, Option.pure_def,
    Option.some.injEq, Prod.mk.injEq]
  constructor
  · rintro ⟨_, hs, n, ⟨a, rfl, hn⟩, v, hv, w, hw, rfl, rfl⟩
    exact ⟨a, n, v, w, hs, hn, hv, hw, rfl, rfl⟩
  · rintro ⟨a, n, v, w, hs, hn, hv, hw, rfl, rfl⟩
    exact ⟨_, hs, n, ⟨a, rfl, hn⟩, v, hv, w, hw, rfl, rfl⟩

theorem apply_store : h.apply new (.store x i src) = some (h₁, o) ↔
    ∃ a n w v, h.get x = some (some a) ∧ h.node a = some n ∧ n.slots[i]? = some w ∧
      h.get src = some v ∧ h₁ = h.setNode a { n with slots := n.slots.set i v } ∧ o = none := by
  simp only [apply, Option.bind_eq_bind, Option.bind_eq_some_iff, Option.pure_def,
    Option.some.injEq, Prod.mk.injEq]
  constructor
  · rintro ⟨_, hx, a, rfl, n, hn, w, hw, v, hv, rfl, rfl⟩
    exact ⟨a, n, w, v, hx, hn, hw, hv, rfl, rfl⟩
  · rintro ⟨a, n, w, v, hx, hn, hw, hv, rfl, rfl⟩
    exact ⟨_, hx, a, rfl, n, hn, w, hw, v, hv, rfl, rfl⟩

theorem apply_look : h.apply new (.look x) = some (h₁, o) ↔
    ∃ v, h.get x = some v ∧ h₁ = h ∧
      o = some (.label (v >>= fun a => (h.node a).map Node.label)) := by
  simp only [apply, Option.bind_eq_bind, Option.bind_eq_some_iff, Option.pure_def,
    Option.some.injEq, Prod.mk.injEq, eq_comm (a := h), eq_comm (b := o)]

theorem apply_same : h.apply new (.same x y) = some (h₁, o) ↔
    ∃ v w, h.get x = some v ∧ h.get y = some w ∧ h₁ = h ∧ o = some (.same (v = w)) := by
  simp only [apply, Option.bind_eq_bind, Option.bind_eq_some_iff, Option.pure_def,
    Option.some.injEq, Prod.mk.injEq, eq_comm (a := h), eq_comm (b := o), exists_and_left]

end Inversion

end Heap

/-! ## Copies -/

/-- On the nodes `R` the heap `h'` is a copy of `h`; the frames lead to nothing else. -/
structure Renames (f : A → B) (R : Set A) (h : Heap L A) (h' : Heap L B) : Prop where
  inj : Set.InjOn f R
  frames : h'.frames = h.frames.map (List.map (Option.map f))
  frame_mem : ∀ fr ∈ h.frames, ∀ a, some a ∈ fr → a ∈ R
  node : ∀ a ∈ R, ∃ n, h.node a = some n ∧ h'.node (f a) = some (n.map f) ∧
    ∀ b, some b ∈ n.slots → b ∈ R

namespace Renames

variable {f : A → B} {R : Set A} {h h₁ : Heap L A} {h' h₁' : Heap L B} {x : Var} {v : Option A}
  {new : Option A} {new' : Option B} {n : Node L A}

theorem get (hr : Renames f R h h') (x : Var) : h'.get x = (h.get x).map (Option.map f) := by
  simp only [Heap.get, hr.frames, List.getElem?_map]
  cases h.frames[x.depth]? <;> simp

theorem get_some (hr : Renames f R h h') (hx : h.get x = some v) :
    h'.get x = some (v.map f) := (hr.get x).trans (congrArg _ hx)

theorem get_mem (hr : Renames f R h h') (hx : h.get x = some v) : ∀ a ∈ v, a ∈ R := by
  rintro a rfl
  simp only [Heap.get, Option.bind_eq_bind, Option.bind_eq_some_iff] at hx
  obtain ⟨fr, hfr, ha⟩ := hx
  exact hr.frame_mem fr (List.mem_of_getElem? hfr) a (List.mem_of_getElem? ha)

theorem mapM_get (hr : Renames f R h h') {args : List Var} {vs : List (Option A)}
    (hvs : args.mapM h.get = some vs) :
    args.mapM h'.get = some (vs.map (Option.map f)) ∧ ∀ a, some a ∈ vs → a ∈ R := by
  induction args generalizing vs with
  | nil =>
    obtain rfl : [] = vs := by simpa using hvs
    simp
  | cons x args ih =>
    simp only [List.mapM_cons, Option.bind_eq_bind, Option.bind_eq_some_iff, Option.pure_def,
      Option.some.injEq] at hvs
    obtain ⟨v, hv, vs, hvs, rfl⟩ := hvs
    obtain ⟨e, hm⟩ := ih hvs
    refine ⟨by simp [hr.get, hv, e], fun a ha => ?_⟩
    rcases List.mem_cons.mp ha with ha | ha
    · exact hr.get_mem hv a ha.symm
    · exact hm a ha

theorem put (hr : Renames f R h h') (hv : ∀ a ∈ v, a ∈ R) :
    Renames f R (h.put x v) (h'.put x (v.map f)) where
  inj := hr.inj
  frames := by
    refine List.ext_getElem? fun i => ?_
    simp only [Heap.put, hr.frames, List.getElem?_map, List.getElem?_modify]
    cases h.frames[i]? with
    | none => rfl
    | some fr =>
      by_cases e : x.depth = i <;> simp [e, List.map_set]
  frame_mem fr hfr a ha := by
    obtain ⟨i, hi⟩ := List.mem_iff_getElem?.mp hfr
    simp only [Heap.put, List.getElem?_modify, Option.map_eq_map, Option.map_eq_some_iff] at hi
    obtain ⟨fr₀, hfr₀, rfl⟩ := hi
    have hm : ∀ a, some a ∈ fr₀ → a ∈ R := hr.frame_mem fr₀ (List.mem_of_getElem? hfr₀)
    split at ha
    · rcases List.mem_or_eq_of_mem_set ha with ha | ha
      · exact hm a ha
      · exact hv a ha.symm
    · exact hm a ha
  node := hr.node

/-- New frames whose slots hold nodes of the copy. -/
theorem setFrames (hr : Renames f R h h') {fs : List (List (Option A))}
    (hm : ∀ fr ∈ fs, ∀ a, some a ∈ fr → a ∈ R) :
    Renames f R { h with frames := fs }
      { h' with frames := fs.map (List.map (Option.map f)) } :=
  ⟨hr.inj, rfl, hm, hr.node⟩

variable [DecidableEq A] [DecidableEq B]

/-- A node of the copy with other slots. -/
theorem setNode {a : A} (hr : Renames f R h h') (ha : a ∈ R)
    (hm : ∀ b, some b ∈ n.slots → b ∈ R) :
    Renames f R (h.setNode a n) (h'.setNode (f a) (n.map f)) where
  inj := hr.inj
  frames := hr.frames
  frame_mem := hr.frame_mem
  node b hb := by
    by_cases e : b = a
    · subst e
      exact ⟨n, by simp [Heap.setNode], by simp [Heap.setNode], hm⟩
    · have hne : f b ≠ f a := fun e' => e (hr.inj hb ha e')
      obtain ⟨n', h₁, h₂, h₃⟩ := hr.node b hb
      refine ⟨n', ?_, ?_, h₃⟩
      · simpa [Heap.setNode, Function.update_of_ne e] using h₁
      · simpa [Heap.setNode, Function.update_of_ne hne] using h₂

/-- A new node, at addresses that are not used yet. -/
theorem alloc {a : A} {b : B} (hr : Renames f R h h') (ha : a ∉ R) (hb : b ∉ f '' R)
    (hm : ∀ c, some c ∈ n.slots → c ∈ R) :
    Renames (Function.update f a b) (insert a R) (h.setNode a n) (h'.setNode b (n.map f)) := by
  have hne : ∀ c ∈ R, c ≠ a := fun c hc e => ha (e ▸ hc)
  have hf : ∀ c ∈ R, Function.update f a b c = f c := fun c hc =>
    Function.update_of_ne (hne c hc) ..
  have hmap : ∀ vs : List (Option A), (∀ c, some c ∈ vs → c ∈ R) →
      vs.map (Option.map (Function.update f a b)) = vs.map (Option.map f) := by
    intro vs hvs
    refine List.map_congr_left fun v hv => ?_
    cases v with
    | none => rfl
    | some c => exact congrArg some (hf c (hvs c hv))
  constructor
  case inj =>
    rintro c (rfl | hc) d (rfl | hd) e
    · rfl
    · rw [Function.update_self, hf d hd] at e
      exact absurd ⟨d, hd, e.symm⟩ hb
    · rw [Function.update_self, hf c hc] at e
      exact absurd ⟨c, hc, e⟩ hb
    · rw [hf c hc, hf d hd] at e
      exact hr.inj hc hd e
  case frames =>
    refine hr.frames.trans (List.map_congr_left fun fr hfr => ?_)
    exact (hmap fr (hr.frame_mem fr hfr)).symm
  case frame_mem => exact fun fr hfr c hc => .inr (hr.frame_mem fr hfr c hc)
  case node =>
    rintro c (rfl | hc)
    · refine ⟨n, by simp [Heap.setNode], ?_, fun d hd => .inr (hm d hd)⟩
      simp [Heap.setNode, Node.map, hmap n.slots hm]
    · obtain ⟨m, h₁, h₂, h₃⟩ := hr.node c hc
      have hfb : f c ≠ b := fun e => hb ⟨c, hc, e⟩
      refine ⟨m, ?_, ?_, fun d hd => .inr (h₃ d hd)⟩
      · simpa [Heap.setNode, Function.update_of_ne (hne c hc)] using h₁
      · rw [hf c hc]
        simpa [Heap.setNode, Function.update_of_ne hfb, Node.map, hmap m.slots h₃] using h₂

/-- The new addresses are both there, and not in use, or both not. -/
inductive Fresh (f : A → B) (R : Set A) : Option A → Option B → Prop
  | none : Fresh f R none none
  | some {a : A} {b : B} (ha : a ∉ R) (hb : b ∉ f '' R) : Fresh f R (some a) (some b)

/-- One operation on both. -/
theorem apply {op : Op L} {o : Option (Obs L)} (hr : Renames f R h h') (hn : Fresh f R new new')
    (ha : h.apply new op = some (h₁, o)) :
    ∃ f₁ R₁ h₁', h'.apply new' op = some (h₁', o) ∧ Renames f₁ R₁ h₁ h₁' ∧
      (∀ a ∈ R₁, a ∈ R ∧ f₁ a = f a ∨ a ∈ new ∧ f₁ a ∈ new') := by
  have hsame : ∀ a ∈ R, a ∈ R ∧ f a = f a ∨ a ∈ new ∧ f a ∈ new' := fun a ha => .inl ⟨ha, rfl⟩
  cases op with
  | enter n =>
    cases ha
    refine ⟨f, R, _, rfl, ?_, hsame⟩
    have hm : ∀ fr ∈ List.replicate n none :: h.frames, ∀ a, some a ∈ fr → a ∈ R := by
      intro fr hfr a ha
      rcases List.mem_cons.mp hfr with rfl | hfr
      · cases List.eq_of_mem_replicate ha
      · exact hr.frame_mem fr hfr a ha
    simpa [hr.frames] using hr.setFrames hm
  | leave n =>
    obtain ⟨hle, rfl, rfl⟩ := Heap.apply_leave.mp ha
    refine ⟨f, R, _, Heap.apply_leave.mpr ⟨?_, rfl, rfl⟩, ?_, hsame⟩
    · rwa [hr.frames, List.length_map]
    · simpa [hr.frames, List.map_drop] using
        hr.setFrames fun fr hfr => hr.frame_mem fr (List.mem_of_mem_drop hfr)
  | make l args dst =>
    obtain ⟨vs, v, hvs, hv, rfl, rfl⟩ := Heap.apply_make.mp ha
    obtain ⟨hvs', hm⟩ := hr.mapM_get hvs
    have happ : h'.apply new' (.make l args dst) =
        some (h'.made new' (Node.map f ⟨l, vs⟩) dst, none) :=
      Heap.apply_make.mpr ⟨_, _, hvs', hr.get_some hv, rfl, rfl⟩
    cases hn with
    | none => exact ⟨f, R, _, happ, hr.put (v := none) nofun, hsame⟩
    | @some a b haR hbR =>
      refine ⟨Function.update f a b, insert a R, _, happ, ?_, ?_⟩
      · have hp := (hr.alloc (n := ⟨l, vs⟩) haR hbR hm).put (x := dst) (v := some a)
          fun c hc => .inl (Option.some.inj hc).symm
        rwa [Option.map_some, Function.update_self] at hp
      · rintro c (rfl | hc)
        · exact .inr ⟨rfl, by rw [Function.update_self]; rfl⟩
        · exact .inl ⟨hc, Function.update_of_ne (fun e : c = a => haR (e ▸ hc)) ..⟩
  | load src i dst =>
    obtain ⟨a, n, v, w, hs, hna, hv, hw, rfl, rfl⟩ := Heap.apply_load.mp ha
    obtain ⟨n', h₁, h₂, h₃⟩ := hr.node a (hr.get_mem hs a rfl)
    obtain rfl : n = n' := Option.some.inj (hna.symm.trans h₁)
    refine ⟨f, R, _, Heap.apply_load.mpr ⟨f a, _, v.map f, w.map f, hr.get_some hs, h₂, ?_,
      hr.get_some hw, rfl, rfl⟩, hr.put fun b hb => h₃ b (List.mem_of_getElem? (hb ▸ hv)), hsame⟩
    simp [Node.map, hv]
  | store x i src =>
    obtain ⟨a, n, w, v, hx, hna, hw, hv, rfl, rfl⟩ := Heap.apply_store.mp ha
    have haR := hr.get_mem hx a rfl
    obtain ⟨n', h₁, h₂, h₃⟩ := hr.node a haR
    obtain rfl : n = n' := Option.some.inj (hna.symm.trans h₁)
    refine ⟨f, R, _, Heap.apply_store.mpr ⟨f a, _, w.map f, v.map f, hr.get_some hx, h₂, ?_,
      hr.get_some hv, rfl, rfl⟩, ?_, hsame⟩
    · simp [Node.map, hw]
    · have hm : ∀ b, some b ∈ n.slots.set i v → b ∈ R := fun b hb => by
        rcases List.mem_or_eq_of_mem_set hb with hb | hb
        · exact h₃ b hb
        · exact hr.get_mem hv b hb.symm
      simpa [Node.map, List.map_set] using hr.setNode (n := { n with slots := n.slots.set i v })
        haR hm
  | look x =>
    obtain ⟨v, hv, rfl, rfl⟩ := Heap.apply_look.mp ha
    refine ⟨f, R, h', Heap.apply_look.mpr ⟨_, hr.get_some hv, rfl, ?_⟩, hr,
      hsame⟩
    cases v with
    | none => rfl
    | some a =>
      obtain ⟨n, h₁, h₂, -⟩ := hr.node a (hr.get_mem hv a rfl)
      simp [h₁, h₂, Node.map]
  | same x y =>
    obtain ⟨v, w, hv, hw, rfl, rfl⟩ := Heap.apply_same.mp ha
    refine ⟨f, R, h', Heap.apply_same.mpr ⟨_, _, hr.get_some hv,
      hr.get_some hw, rfl, ?_⟩, hr, hsame⟩
    have hv' := hr.get_mem hv
    have hw' := hr.get_mem hw
    refine congrArg (fun b => some (Obs.same b)) (decide_eq_decide.mpr ?_)
    cases v with
    | none => cases w <;> simp
    | some a =>
      cases w with
      | none => simp
      | some b => simpa using (hr.inj.eq_iff (hv' a rfl) (hw' b rfl)).symm

end Renames

/-! ## What the frames lead to -/

namespace Heap

/-- The node at `a` has `b` in a slot. -/
def Edge (h : Heap L A) (a b : A) : Prop := ∃ n, h.node a = some n ∧ some b ∈ n.slots

def Rooted (h : Heap L A) (a : A) : Prop :=
  ∃ fr ∈ h.frames, ∃ r, some r ∈ fr ∧ ReflTransGen h.Edge r a

end Heap

namespace Renames

variable {f : A → B} {R : Set A} {h : Heap L A} {h' h₁' : Heap L B} {a : A} {y : B}

/-- What is not part of the copy may change. -/
theorem congr (hr : Renames f R h h') (hf : h₁'.frames = h'.frames)
    (hn : ∀ a ∈ R, h₁'.node (f a) = h'.node (f a)) : Renames f R h h₁' where
  inj := hr.inj
  frames := hf.trans hr.frames
  frame_mem := hr.frame_mem
  node a ha := by
    rw [hn a ha]
    exact hr.node a ha

theorem edge_mem (hr : Renames f R h h') (ha : a ∈ R) {b : A} (he : h.Edge a b) : b ∈ R := by
  obtain ⟨n, hn, hb⟩ := he
  obtain ⟨m, h₁, -, h₃⟩ := hr.node a ha
  obtain rfl : n = m := Option.some.inj (hn.symm.trans h₁)
  exact h₃ b hb

theorem rooted_mem (hr : Renames f R h h') (ha : h.Rooted a) : a ∈ R := by
  obtain ⟨fr, hfr, r, hm, hp⟩ := ha
  induction hp with
  | refl => exact hr.frame_mem fr hfr r hm
  | tail _ he ih => exact hr.edge_mem ih he

theorem edge (hr : Renames f R h h') (ha : a ∈ R) :
    h'.Edge (f a) y ↔ ∃ b, f b = y ∧ h.Edge a b := by
  obtain ⟨n, h₁, h₂, -⟩ := hr.node a ha
  have hm : some y ∈ n.slots.map (Option.map f) ↔ ∃ b, some b ∈ n.slots ∧ f b = y := by
    rw [List.mem_map]
    constructor
    · rintro ⟨v, hv, e⟩
      obtain ⟨b, rfl, rfl⟩ := Option.map_eq_some_iff.mp e
      exact ⟨b, hv, rfl⟩
    · rintro ⟨b, hb, rfl⟩
      exact ⟨some b, hb, rfl⟩
  constructor
  · rintro ⟨m, hm', hy⟩
    obtain rfl : n.map f = m := Option.some.inj (h₂.symm.trans hm')
    obtain ⟨b, hb, e⟩ := hm.mp hy
    exact ⟨b, e, n, h₁, hb⟩
  · rintro ⟨b, rfl, m, hm', hb⟩
    obtain rfl : n = m := Option.some.inj (h₁.symm.trans hm')
    exact ⟨_, h₂, hm.mpr ⟨b, hb, rfl⟩⟩

/-- The frames of the copy lead to the copies of what the frames lead to. -/
theorem rooted_iff (hr : Renames f R h h') : h'.Rooted y ↔ ∃ a, h.Rooted a ∧ f a = y := by
  constructor
  · rintro ⟨fr', hfr', r', hr', hp⟩
    rw [hr.frames] at hfr'
    obtain ⟨fr, hfr, rfl⟩ := List.mem_map.mp hfr'
    obtain ⟨v, hv, e⟩ := List.mem_map.mp hr'
    obtain ⟨r, rfl, rfl⟩ := Option.map_eq_some_iff.mp e
    induction hp with
    | refl => exact ⟨r, ⟨fr, hfr, r, hv, .refl⟩, rfl⟩
    | tail _ he ih =>
      obtain ⟨a, ha, rfl⟩ := ih
      obtain ⟨b, rfl, hab⟩ := (hr.edge (hr.rooted_mem ha)).mp he
      obtain ⟨fr, hfr, r, hm, hp⟩ := ha
      exact ⟨b, ⟨fr, hfr, r, hm, hp.tail hab⟩, rfl⟩
  · rintro ⟨a, ⟨fr, hfr, r, hm, hp⟩, rfl⟩
    refine ⟨fr.map (Option.map f), ?_, f r, List.mem_map_of_mem (f := Option.map f) hm, ?_⟩
    · rw [hr.frames]
      exact List.mem_map_of_mem hfr
    · induction hp with
      | refl => exact .refl
      | tail hp he ih =>
        have hR := hr.rooted_mem ⟨fr, hfr, r, hm, hp⟩
        exact ih.tail ((hr.edge hR).mpr ⟨_, rfl, he⟩)

/-- What the frames of the copy do not lead to may change, and go. -/
theorem collect (hr : Renames f R h h') (hf : h₁'.frames = h'.frames)
    (hn : ∀ y, h'.Rooted y → h₁'.node y = h'.node y) :
    Renames f {a | h.Rooted a} h h₁' where
  inj := hr.inj.mono fun _ => hr.rooted_mem
  frames := hf.trans hr.frames
  frame_mem fr hfr a ha := ⟨fr, hfr, a, ha, .refl⟩
  node a ha := by
    obtain ⟨n, h₁, h₂, -⟩ := hr.node a (hr.rooted_mem ha)
    refine ⟨n, h₁, (hn _ (hr.rooted_iff.mpr ⟨a, ha, rfl⟩)).trans h₂, fun b hb => ?_⟩
    obtain ⟨fr, hfr, r, hm, hp⟩ := ha
    exact ⟨fr, hfr, r, hm, hp.tail ⟨n, h₁, hb⟩⟩

end Renames

/-! ## A heap that is never collected -/

/-- The operation asks for a node. -/
def Op.asks : Op L → Bool
  | .make .. => true
  | _ => false

/-- The address of a new node is the number of the request, and no node goes away. -/
structure Ideal (L : Type) where
  heap : Heap L Nat
  asked : Nat

namespace Ideal

def new (grants : Nat → Bool) (s : Ideal L) : Option Nat :=
  if grants s.asked then some s.asked else none

def step (grants : Nat → Bool) (op : Op L) (s : Ideal L) :
    Option (Ideal L × Option (Obs L)) :=
  (s.heap.apply (s.new grants) op).map fun r =>
    (⟨r.1, if op.asks then s.asked + 1 else s.asked⟩, r.2)

/-- The operations one after the other, and what the program learns from them. -/
def run (grants : Nat → Bool) : List (Op L) → Ideal L → Option (Ideal L × List (Obs L))
  | [], s => some (s, [])
  | op :: ops, s => do
    let (s₁, o) ← s.step grants op
    let (s₂, os) ← s₁.run grants ops
    return (s₂, o.toList ++ os)

theorem run_cons {grants : Nat → Bool} {op : Op L} {ops : List (Op L)} {s s₂ : Ideal L}
    {os : List (Obs L)} : run grants (op :: ops) s = some (s₂, os) ↔
      ∃ s₁ o os', s.step grants op = some (s₁, o) ∧ s₁.run grants ops = some (s₂, os') ∧
        os = o.toList ++ os' := by
  simp only [run, Option.bind_eq_bind, Option.bind_eq_some_iff, Option.pure_def,
    Option.some.injEq, Prod.mk.injEq]
  constructor
  · rintro ⟨⟨s₁, o⟩, h₁, ⟨_, os'⟩, h₂, rfl, rfl⟩
    exact ⟨s₁, o, os', h₁, h₂, rfl⟩
  · rintro ⟨s₁, o, os', h₁, h₂, rfl⟩
    exact ⟨(s₁, o), h₁, (s₂, os'), h₂, rfl, rfl⟩

/-- An operation that asks for no node does not depend on what a request would give. -/
theorem step_still {grants : Nat → Bool} {op : Op L} {s s' : Ideal L} {o : Option (Obs L)}
    (hop : op.asks = false) (h : s.step grants op = some (s', o)) :
    s.heap.apply none op = some (s'.heap, o) ∧ s'.asked = s.asked := by
  obtain ⟨⟨h₁, o'⟩, ha, e⟩ := Option.map_eq_some_iff.mp h
  cases e
  refine ⟨?_, by simp [hop]⟩
  cases op with
  | make => cases hop
  | _ => exact ha

end Ideal

end Mutator
