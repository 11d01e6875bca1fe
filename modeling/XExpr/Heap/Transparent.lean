import XExpr.Heap.ProgramInv

/-!
# Collection is transparent

A program that keeps its references in registered frames cannot tell when it collects, or which
addresses `malloc` and the stack hand out. It does what it does on the ideal heap, where a node is
the number of the request that it was made with and stays for ever.

* `Sim`: the memory is a copy of the ideal heap on the nodes that the program knows. One lemma for
  each kind of step, `Sim.step` for all of them, `Sim.collect` for a collection.
* `collection_transparent`: a program returns with what it learns on the ideal heap.
* `collection_footprint`: after a collection there is nothing on the chain but the tree of the base
  and a copy of what the frames of the ideal heap lead to.
-/

namespace XExpr

open Sys Chain Relation
open Mem (chase)
open Mutator (Var Op Obs Node Renames)

/-! ## The copy of the ideal heap -/

section View

variable {s s' : Sys} {K : List Ptr} {x : Var} {v : Option Ptr} {p q : Ptr} {w : Word}
  {n : Node Tag Ptr} {i : Nat}

theorem view_get : (s.view K).get x = some v ↔
    ∃ p w, K[x.depth]? = some p ∧ s.unit p x.slot = some w ∧ slotOf w = v := by
  simp only [Mutator.Heap.get, Sys.view, List.getElem?_map, Option.bind_eq_bind,
    Option.bind_eq_some_iff, Option.map_eq_some_iff, Sys.unit]
  constructor
  · rintro ⟨_, ⟨p, hp, rfl⟩, hv⟩
    rw [List.getElem?_map, Option.map_eq_some_iff] at hv
    obtain ⟨w, hw, rfl⟩ := hv
    exact ⟨p, w, hp, hw, rfl⟩
  · rintro ⟨p, w, hp, hw, rfl⟩
    exact ⟨_, ⟨p, hp, rfl⟩, by rw [List.getElem?_map, hw]; rfl⟩

theorem getVar_run (h : (s.view K).get x = some v) :
    ∃ w, getVar K x s = .ok w s ∧ slotOf w = v := by
  obtain ⟨p, w, hp, hw, hv⟩ := view_get.mp h
  refine ⟨w, ?_, hv⟩
  rw [getVar, List.getD_eq_getElem?_getD, hp]
  exact xObjDataI_eq hw

/-- Only pairs have slots. -/
theorem node_slot (hn : s.node p = some n) (hv : n.slots[i]? = some v) :
    s.typeOf p = xTypePairObj ∧ n = ⟨.pair, (s.dataOf p).map slotOf⟩ ∧
      ∃ w, s.unit p i = some w ∧ slotOf w = v := by
  unfold Sys.node at hn
  split at hn
  · next ht =>
    obtain rfl := Option.some.inj hn
    rw [List.getElem?_map, Option.map_eq_some_iff] at hv
    exact ⟨ht, rfl, hv⟩
  · split at hn
    · obtain ⟨w, -, rfl⟩ := Option.map_eq_some_iff.mp hn
      cases hv
    · cases hn

theorem tagOf_run (h : ∀ p ∈ slotOf w, ∃ n, s.node p = some n) :
    tagOf w s = .ok (slotOf w >>= fun p => (s.node p).map Node.label) s := by
  unfold tagOf
  by_cases hw : w = nil
  · simp [hw, slotOf]
  · have hs : slotOf w = some w := if_neg hw
    obtain ⟨n, hn⟩ := h w hs
    rw [hs, Option.bind_eq_bind, Option.bind_some, hn, if_neg hw]
    unfold Sys.node at hn
    split at hn
    · next ht =>
      obtain rfl := Option.some.inj hn
      have hl : s.Live w := by
        by_contra hl
        rw [typeOf, not_live_iff.mp hl] at ht
        exact absurd ht (by decide)
      rw [Prog.bind_of_ok (xObjTypeIsspair_eq hl), decide_eq_true ht]
      rfl
    · next ht =>
      split at hn
      · obtain ⟨u, hu, rfl⟩ := Option.map_eq_some_iff.mp hn
        rw [Prog.bind_of_ok (xObjTypeIsspair_eq (live_of_unit hu)), decide_eq_false ht]
        exact (Prog.bind_of_ok (xFirst_eq hu)).trans rfl
      · cases hn

end View

namespace ProgInv

variable {m : Mode} {F : Flags} {S K : List Ptr} {b p q : Ptr} {s s' : Sys} {A : Set Ptr}
  {x : Var} {v : Option Ptr} {w : Word}

theorem nodup (h : ProgInv m F S b s K A) : K.Nodup := by
  obtain ⟨L, t, k, hi, -⟩ := h.inv
  simpa [progClient] using (hi.heap.base b (.head _)).nodup

theorem notMem (h : ProgInv m F S b s K A) (hp : p ∈ K) : p ∉ A := fun hA => by
  obtain ⟨L, t, k, hi, -⟩ := h.inv
  exact hi.heap.chain.apart p (List.mem_append_left _ hp)
    ((hi.heap.chain.outstanding p).mp (h.chain p hA).1)

/-- A variable is assigned. -/
theorem put (h : ProgInv m F S b s K A) (hx : (s.view K).get x = some v) (w : Word) : ∃ s',
    setVar K x w s = .ok () s' ∧ ProgInv m F S b s' K A ∧ s'.requests = s.requests ∧
    (s'.view K).frames = ((s.view K).put x (slotOf w)).frames ∧ ∀ q ∈ A, s.SameNode s' q := by
  obtain ⟨p, u, hp, hu, -⟩ := view_get.mp hx
  have hpK : p ∈ K := List.mem_of_getElem? hp
  refine ⟨s.setUnit p x.slot w, ?_, h.setUnit (.inl hpK) hu, requests_modify, ?_, fun q hq => ?_⟩
  · rw [setVar, List.getD_eq_getElem?_getD, hp]
    exact setXObjDataI_eq hu
  · refine List.ext_getElem? fun j => ?_
    simp only [Sys.view, Mutator.Heap.put, List.getElem?_map, List.getElem?_modify, dataOf_setUnit]
    cases hj : K[j]? with
    | none => rfl
    | some r =>
      by_cases e : x.depth = j
      · subst e
        obtain rfl : p = r := Option.some.inj (hp.symm.trans hj)
        simp [List.map_set]
      · have hr : r ≠ p := fun e' => e ((List.getElem?_inj
          (List.getElem?_eq_some_iff.mp hp).1 h.nodup).mp (by rw [hp, hj, e']))
        simp [hr, e]
  · have hqp : q ≠ p := fun e => h.notMem hpK (e ▸ hq)
    exact ⟨typeOf_setUnit, dataOf_setUnit.trans (if_neg hqp)⟩

end ProgInv

/-! ## The simulation -/

/-- What a request for an atom or a pair comes to: it is refused on a base without a type, or there
is a new object. -/
def Mode.Answers (m : Mode) (env : Env) (s : Sys) (b : Ptr) : Prop :=
  ∀ ty data, data.length ≤ 2 →
    (m = .bare ∧ env.malloc.grants s.requests = false ∧
      xObjMake env b ty xObjFlagNone data s = .ok nil s.request) ∨
    ∃ p a s', env.malloc.grants s.requests = true ∧
      xObjMake env b ty xObjFlagNone data s = .ok p s' ∧ Made s b ty xObjFlagNone data p a s'

theorem Sys.Bare.answers {s : Sys} {b : Ptr} (h : s.Bare b) (env : Env) :
    Mode.bare.Answers env s b := fun ty data hlen =>
  (xObjMake_bare env ty xObjFlagNone data h (by omega)).imp (fun e => ⟨rfl, e⟩) id

/-- The memory of a program with the frames `K` is a copy of the ideal heap on the nodes `R`. -/
structure Sim (m : Mode) (F : Flags) (S : List Ptr) (b : Ptr) (f : Nat → Ptr) (R : Set Nat)
    (i : Mutator.Ideal Tag) (s : Sys) (K : List Ptr) : Prop where
  prog : ProgInv m F S b s K (f '' R)
  copy : Renames f R i.heap (s.view K)
  asked : i.asked = s.requests
  old : ∀ a ∈ R, a < i.asked

namespace Sim

variable {env : Env} {m : Mode} {F : Flags} {S K : List Ptr} {b : Ptr} {f f₁ : Nat → Ptr}
  {R R₁ : Set Nat} {i i' : Mutator.Ideal Tag} {s s₁ s' : Sys} {h₁ : Mutator.Heap Tag Nat}
  {h₁' : Mutator.Heap Tag Ptr} {x dst : Var} {v : Option Ptr} {w : Word} {o : Option (Obs Tag)}
  {op : Op Tag}

/-- The step of a variable that gets its new value. -/
theorem put (hp : ProgInv m F S b s K (f '' R)) (hx : (s.view K).get x = some v) (w : Word)
    (hc : Renames f R h₁ ((s.view K).put x (slotOf w))) {n : Nat} (ha : n = s.requests)
    (ho : ∀ a ∈ R, a < n) : ∃ s', setVar K x w s = .ok () s' ∧ Sim m F S b f R ⟨h₁, n⟩ s' K := by
  obtain ⟨s', hrun, hp', hreq, hfr, hsame⟩ := hp.put hx w
  refine ⟨s', hrun, hp', hc.congr hfr fun a haR => ?_, ha.trans hreq.symm, ho⟩
  exact (hsame (f a) ⟨a, haR, rfl⟩).node

/-- An operation that asks for nothing. -/
theorem apply (h : Sim m F S b f R i s K) (hop : op.asks = false)
    (hi : i.step env.malloc.grants op = some (i', o)) :
    ∃ h₁' f₁ R₁, (s.view K).apply none op = some (h₁', o) ∧ Renames f₁ R₁ i'.heap h₁' ∧
      i'.asked = i.asked ∧ R₁ ⊆ R ∧ f₁ '' R₁ ⊆ f '' R := by
  obtain ⟨ha, hasked⟩ := Mutator.Ideal.step_still hop hi
  obtain ⟨f₁, R₁, h₁', happ, hc, hR⟩ := h.copy.apply .none ha
  have hsub : ∀ a ∈ R₁, a ∈ R ∧ f₁ a = f a := fun a ha =>
    (hR a ha).resolve_right fun hn => nomatch hn.1
  refine ⟨h₁', f₁, R₁, happ, hc, hasked, fun a ha => (hsub a ha).1, ?_⟩
  rintro _ ⟨a, ha, rfl⟩
  exact ⟨a, (hsub a ha).1, (hsub a ha).2.symm⟩

/-- A new object, and its address in a variable. -/
theorem make (ty : Ptr) (data : List Word) {l : Tag} {args : List Var}
    (h : Sim m F S b f R i s K) (hm : m.Answers env s b)
    (hi : i.step env.malloc.grants (.make l args dst) = some (i', o))
    (hty : ty = xTypePairObj ∧ data.length = 2 ∨ ty = xTypeAtomObj ∧ data.length = 1)
    (hnode : ∀ vs, args.mapM (s.view K).get = some vs → ∀ (s₁ : Sys) (p : Ptr),
      s₁.typeOf p = ty → s₁.dataOf p = data → s₁.node p = some ⟨l, vs⟩) : ∃ f' R' p s₁ s',
    xObjMake env b ty xObjFlagNone data s = .ok p s₁ ∧ setVar K dst p s₁ = .ok () s' ∧
    o = none ∧ Sim (m.add 1) F S b f' R' i' s' K := by
  obtain ⟨⟨h₁, o'⟩, ha, e⟩ := Option.map_eq_some_iff.mp hi
  obtain ⟨rfl, rfl⟩ := Prod.mk.inj e
  have hasked : i.asked ∉ R := fun hm => lt_irrefl _ (h.old _ hm)
  have hlen : data.length ≤ 2 := by
    rcases hty with ⟨-, e⟩ | ⟨-, e⟩ <;> omega
  rcases hm ty data hlen with ⟨rfl, hg, hrun⟩ | ⟨p, a, s₁, hg, hrun, hm⟩
  · -- A request that is refused.
    have hnew : i.new env.malloc.grants = none := by
      rw [Mutator.Ideal.new, h.asked, hg]
      rfl
    rw [hnew] at ha
    obtain ⟨f₁, R₁, h₁', happ, hc, hR⟩ := h.copy.apply .none ha
    obtain ⟨vs, v, hvs, hv, rfl, rfl⟩ := Mutator.Heap.apply_make.mp happ
    have hsub : ∀ a ∈ R₁, a ∈ R ∧ f₁ a = f a := fun a ha =>
      (hR a ha).resolve_right fun hn => nomatch hn.1
    obtain ⟨s', hput, hsim⟩ := put (x := dst) (f := f₁) (R := R₁) (n := i.asked + 1)
      (h.prog.request.mono fun _ ⟨a, ha, e⟩ => ⟨a, (hsub a ha).1, (hsub a ha).2.symm.trans e⟩)
      hv nil hc (by rw [h.asked]; rfl) fun a ha => Nat.lt_succ_of_lt (h.old a (hsub a ha).1)
    exact ⟨f₁, R₁, nil, s.request, s', hrun, hput, rfl, hsim⟩
  · have hnew : i.new env.malloc.grants = some i.asked := by
      rw [Mutator.Ideal.new, h.asked, hg]
      rfl
    rw [hnew] at ha
    have hp : p ∉ f '' R := fun hA => hm.new (h.prog.live (.inr hA))
    obtain ⟨f₁, R₁, h₁', happ, hc, hR⟩ := h.copy.apply (.some hasked hp) ha
    obtain ⟨vs, v, hvs, hv, rfl, rfl⟩ := Mutator.Heap.apply_make.mp happ
    have hold : ∀ q, q ∈ K ∨ q ∈ f '' R → s.SameNode s₁ q := fun q hq => by
      have hqp : q ≠ p := fun e => hm.new (e ▸ h.prog.live hq)
      exact ⟨hm.typeOf_old q hqp, List.ext_getElem? fun j =>
        (hm.unit_old q j hqp).trans (if_neg fun e => h.prog.ne_count hq e.2.1)⟩
    have hfr : (s₁.view K).frames = (s.view K).frames :=
      List.map_congr_left fun q hq => by rw [(hold q (.inl hq)).2]
    have hv₁ : (s₁.view K).get dst = some v := by
      rw [Mutator.Heap.get, hfr]
      exact hv
    have hc₁ : Renames f₁ R₁ h₁ ((s₁.view K).put dst (slotOf p)) := by
      rw [slotOf, if_neg hm.ne_nil]
      refine hc.congr (by simp [Mutator.Heap.put, hfr, Mutator.Heap.made, Mutator.Heap.setNode])
        fun a ha => ?_
      change s₁.node (f₁ a) = Function.update s.node p _ (f₁ a)
      rcases hR a ha with ⟨haR, e⟩ | ⟨-, e⟩
      · have hq : f a ∈ f '' R := ⟨a, haR, rfl⟩
        rw [e, Function.update_of_ne fun e' : f a = p => hp (e' ▸ hq)]
        exact (hold _ (.inr hq)).node
      · rw [show f₁ a = p from (Option.some.inj e).symm, Function.update_self]
        exact hnode vs hvs s₁ p hm.typeOf_new hm.data_new
    have hsub : f₁ '' R₁ ⊆ insert p (f '' R) := by
      rintro _ ⟨a, ha, rfl⟩
      rcases hR a ha with ⟨haR, e⟩ | ⟨-, e⟩
      · exact .inr ⟨a, haR, e.symm⟩
      · exact .inl (Option.some.inj e).symm
    have hlt : ∀ a ∈ R₁, a < i.asked + 1 := by
      intro a ha
      rcases hR a ha with ⟨haR, -⟩ | ⟨e, -⟩
      · exact Nat.lt_succ_of_lt (h.old a haR)
      · exact (Option.some.inj e) ▸ Nat.lt_succ_self _
    obtain ⟨s', hput, hsim⟩ := put (x := dst) (n := i.asked + 1) ((h.prog.made hm hty).mono hsub)
      hv₁ p hc₁ (by rw [h.asked, hm.requests]) hlt
    exact ⟨f₁, R₁, p, s₁, s', hrun, hput, rfl, hsim⟩

/-- A slot is read into a variable. -/
theorem load {src : Var} {j : Nat} (h : Sim m F S b f R i s K)
    (hi : i.step env.malloc.grants (.load src j dst) = some (i', o)) : ∃ f' R' p w s',
    getVar K src s = .ok p s ∧ xObjDataI p j s = .ok w s ∧ setVar K dst w s = .ok () s' ∧
    o = none ∧ Sim m F S b f' R' i' s' K := by
  obtain ⟨h₁', f₁, R₁, happ, hc, hasked, hR, hA⟩ := h.apply rfl hi
  obtain ⟨a, n, v, u, hs, hn, hv, hu, rfl, rfl⟩ := Mutator.Heap.apply_load.mp happ
  obtain ⟨p, hp, he⟩ := getVar_run hs
  obtain ⟨-, rfl⟩ := slotOf_eq.mp he
  obtain ⟨-, -, w, hw, rfl⟩ := node_slot hn hv
  obtain ⟨s', hput, hsim⟩ := put (x := dst) (n := i'.asked) (h.prog.mono hA) hu w hc
    (hasked.trans h.asked) fun a ha => hasked.symm ▸ h.old a (hR ha)
  exact ⟨f₁, R₁, p, w, s', hp, xObjDataI_eq hw, hput, rfl, hsim⟩

theorem mem_of_get {a : Ptr} (h : Sim m F S b f R i s K) (hx : (s.view K).get x = some (some a)) :
    a ∈ f '' R := by
  rw [h.copy.get, Option.map_eq_some_iff] at hx
  obtain ⟨v, hv, e⟩ := hx
  obtain ⟨a₀, rfl, rfl⟩ := Option.map_eq_some_iff.mp e
  exact ⟨a₀, h.copy.get_mem hv a₀ rfl, rfl⟩

/-- A slot is assigned. -/
theorem store {obj src : Var} {j : Nat} (h : Sim m F S b f R i s K)
    (hi : i.step env.malloc.grants (.store obj j src) = some (i', o)) : ∃ f' R' p w s',
    getVar K obj s = .ok p s ∧ getVar K src s = .ok w s ∧ setXObjDataI p j w s = .ok () s' ∧
    o = none ∧ Sim m F S b f' R' i' s' K := by
  obtain ⟨h₁', f₁, R₁, happ, hc, hasked, hR, hA⟩ := h.apply rfl hi
  obtain ⟨a, n, u, v, hs, hn, hu, hv, rfl, rfl⟩ := Mutator.Heap.apply_store.mp happ
  obtain ⟨p, hp, he⟩ := getVar_run hs
  obtain ⟨-, rfl⟩ := slotOf_eq.mp he
  obtain ⟨w, hw, rfl⟩ := getVar_run hv
  obtain ⟨ht, rfl, u', hu', -⟩ := node_slot hn hu
  have hpA := h.mem_of_get hs
  refine ⟨f₁, R₁, p, w, s.setUnit p j w, hp, hw, setXObjDataI_eq hu', rfl,
    (h.prog.setUnit (.inr hpA) hu').mono hA, hc.congr ?_ fun a ha => ?_,
    hasked.trans (h.asked.trans requests_modify.symm), fun a ha => hasked.symm ▸ h.old a (hR ha)⟩
  · refine List.map_congr_left fun q hq => ?_
    rw [dataOf_setUnit, if_neg fun e : q = p => h.prog.notMem hq (e ▸ hpA)]
  · change (s.setUnit p j w).node (f₁ a) = Function.update s.node p _ (f₁ a)
    by_cases e : f₁ a = p
    · rw [e, Function.update_self]
      simp [Sys.node, ht, dataOf_setUnit, List.map_set]
    · rw [Function.update_of_ne e]
      exact Sys.SameNode.node ⟨typeOf_setUnit, dataOf_setUnit.trans (if_neg e)⟩

/-- The frames after a function was entered or left. -/
theorem setFrames {K' : List Ptr} {n : Nat} (hp : ProgInv m F S b s' K' (f₁ '' R₁))
    (hc : Renames f₁ R₁ h₁ h₁') (hnode : h₁'.node = s.node) (ha : n = s'.requests)
    (ho : ∀ a ∈ R₁, a < n) (hf : (s'.view K').frames = h₁'.frames)
    (hsame : ∀ q ∈ f₁ '' R₁, s.SameNode s' q) : Sim m F S b f₁ R₁ ⟨h₁, n⟩ s' K' := by
  refine ⟨hp, hc.congr hf fun a haR => ?_, ha, ho⟩
  rw [hnode]
  exact (hsame (f₁ a) ⟨a, haR, rfl⟩).node

theorem enter (st : CStack) (h : Sim m F S b f R i s K)
    (hi : i.step env.malloc.grants (.enter 2) = some (i', o)) : ∃ f' R' K' s',
    Cmd.enter.run env st F b K s = .ok (K', o) s' ∧ Sim m F S b f' R' i' s' K' := by
  obtain ⟨h₁', f₁, R₁, happ, hc, hasked, hR, hA⟩ := h.apply rfl hi
  obtain ⟨rfl, rfl⟩ := Prod.mk.inj (Option.some.inj happ)
  obtain ⟨s', hrun, hp', hreq, hd, hsame⟩ := h.prog.enter env st
  refine ⟨f₁, R₁, _, s', hrun, setFrames (hp'.mono hA) hc rfl (hasked.trans (h.asked.trans
    hreq.symm)) (fun a ha => hasked.symm ▸ h.old a (hR ha)) ?_ fun q hq => hsame q (.inr (hA hq))⟩
  change (s'.dataOf (st.address s)).map slotOf :: K.map _ = _ :: K.map _
  rw [hd]
  refine congrArg ([none, none] :: ·) ?_
  exact List.map_congr_left fun q hq => by rw [(hsame q (.inl hq)).2]

theorem leave {n : Nat} {cell : Ptr} (h : Sim m F S b f R i s K)
    (hi : i.step env.malloc.grants (.leave n) = some (i', o))
    (hc : chase s.unit b Field.heapRootChain.path = some cell) : ∃ f' R',
    o = none ∧ n ≤ K.length ∧ Sim m F S b f' R' i' (leftSys s cell K n) (K.drop n) := by
  obtain ⟨h₁', f₁, R₁, happ, hc', hasked, hR, hA⟩ := h.apply rfl hi
  obtain ⟨hn, rfl, rfl⟩ := Mutator.Heap.apply_leave.mp happ
  obtain ⟨hp', hreq, hsame⟩ := h.prog.left n hc
  refine ⟨f₁, R₁, rfl, by simpa [Sys.view] using hn, setFrames (hp'.mono hA) hc' rfl
    (hasked.trans (h.asked.trans hreq.symm)) (fun a ha => hasked.symm ▸ h.old a (hR ha)) ?_
    fun q hq => hsame q (.inr (hA hq))⟩
  change (K.drop n).map _ = (K.map _).drop n
  rw [← List.map_drop]
  exact List.map_congr_left fun q hq => by rw [(hsame q (.inl hq)).2]

theorem look (h : Sim m F S b f R i s K)
    (hi : i.step env.malloc.grants (.look x) = some (i', o)) : ∃ f' R' p l,
    getVar K x s = .ok p s ∧ tagOf p s = .ok l s ∧ o = some (.label l) ∧
    Sim m F S b f' R' i' s K := by
  obtain ⟨h₁', f₁, R₁, happ, hc, hasked, hR, hA⟩ := h.apply rfl hi
  obtain ⟨v, hv, rfl, rfl⟩ := Mutator.Heap.apply_look.mp happ
  obtain ⟨w, hw, rfl⟩ := getVar_run hv
  refine ⟨f₁, R₁, w, _, hw, tagOf_run fun p hp => ?_, rfl, h.prog.mono hA, hc,
    hasked.trans h.asked, fun a ha => hasked.symm ▸ h.old a (hR ha)⟩
  obtain ⟨a, ha, rfl⟩ := h.mem_of_get (hv.trans (congrArg some hp))
  obtain ⟨n, -, hn, -⟩ := h.copy.node a ha
  exact ⟨_, hn⟩

theorem same {y : Var} (h : Sim m F S b f R i s K)
    (hi : i.step env.malloc.grants (.same x y) = some (i', o)) : ∃ f' R' p q,
    getVar K x s = .ok p s ∧ getVar K y s = .ok q s ∧ o = some (.same (p = q)) ∧
    Sim m F S b f' R' i' s K := by
  obtain ⟨h₁', f₁, R₁, happ, hc, hasked, hR, hA⟩ := h.apply rfl hi
  obtain ⟨v, u, hv, hu, rfl, rfl⟩ := Mutator.Heap.apply_same.mp happ
  obtain ⟨p, hp, rfl⟩ := getVar_run hv
  obtain ⟨q, hq, rfl⟩ := getVar_run hu
  refine ⟨f₁, R₁, p, q, hp, hq, ?_, h.prog.mono hA, hc, hasked.trans h.asked,
    fun a ha => hasked.symm ▸ h.old a (hR ha)⟩
  refine congrArg (fun c => some (Obs.same c)) (decide_eq_decide.mpr ⟨fun e => ?_, congrArg _⟩)
  by_cases hq : q = nil
  · subst hq
    by_contra hp
    rw [slotOf, if_neg hp] at e
    cases e
  · exact (slotOf_eq.mp (e.trans (if_neg hq))).2

/-- An operation that asks for nothing adds nothing. -/
theorem add_zero (h : Sim m F S b f R i s K) : Sim (m.add 0) F S b f R i s K := by
  rwa [Mode.add_zero]

/-- A step of the program that is an operation. -/
theorem step (st : CStack) {c : Cmd} (h : Sim m F S b f R i s K) (hc : c.op = some op)
    (hm : op.asks = true → m.Answers env s b)
    (hi : i.step env.malloc.grants op = some (i', o)) : ∃ f' R' K' s',
    c.run env st F b K s = .ok (K', o) s' ∧
    Sim (m.add op.asks.toNat) F S b f' R' i' s' K' := by
  cases c with
  | enter =>
    cases hc
    obtain ⟨f', R', K', s', hrun, hsim⟩ := h.enter st hi
    exact ⟨f', R', K', s', hrun, hsim.add_zero⟩
  | leave =>
    cases hc
    obtain ⟨cell, hset, hcell, hu, hpop⟩ := h.prog.head
    obtain ⟨f', R', rfl, hn, hsim⟩ := h.leave hi hcell
    refine ⟨f', R', _, _, ?_, hsim.add_zero⟩
    obtain _ | ⟨p, K⟩ := K
    · cases hn
    obtain ⟨hp, hnext⟩ := hpop p K rfl
    have hu : s.unit cell 0 = some p := hu
    rw [Cmd.run, Prog.bind_of_ok (xHeapRootSlot_run hset hcell),
      Prog.bind_of_ok (xHeapRootPop_run hu hp), hnext]
    rfl
  | unwind n =>
    cases hc
    obtain ⟨cell, hset, hcell, hu, -⟩ := h.prog.head
    obtain ⟨f', R', rfl, hn, hsim⟩ := h.leave hi hcell
    refine ⟨f', R', _, _, ?_, hsim.add_zero⟩
    rw [Cmd.run, Prog.bind_of_ok (setXHeapRootChain_run hcell hu)]
    rfl
  | atom n dst =>
    cases hc
    obtain ⟨f', R', p, s₁, s', hmk, hput, rfl, hsim⟩ := h.make xTypeAtomObj [n] (hm rfl) hi
      (.inr ⟨rfl, rfl⟩) fun vs hvs s₁ p ht hd => by
        obtain rfl : [] = vs := by simpa using hvs
        have hne : xTypeAtomObj ≠ xTypePairObj := by decide
        simp [Sys.node, ht, hne, Sys.unit, hd]
    refine ⟨f', R', K, s', ?_, hsim⟩
    rw [Cmd.run, Prog.bind_of_ok (show xMksatom env b xObjFlagNone n s = _ from hmk),
      Prog.bind_of_ok hput]
    rfl
  | cons x y dst =>
    cases hc
    obtain ⟨h₁, ha, -⟩ := Option.map_eq_some_iff.mp hi
    obtain ⟨_, _, hvs, -⟩ := Mutator.Heap.apply_make.mp ha
    obtain ⟨v, u, hv, hu, e⟩ := Mutator.Heap.mapM_two.mp (h.copy.mapM_get hvs).1
    obtain ⟨p, hp, rfl⟩ := getVar_run hv
    obtain ⟨q, hq, rfl⟩ := getVar_run hu
    obtain ⟨f', R', a, s₁, s', hmk, hput, rfl, hsim⟩ := h.make xTypePairObj [p, q] (hm rfl) hi
      (.inl ⟨rfl, rfl⟩) fun vs hvs s₁ a ht hd => by
        obtain ⟨v', u', hv', hu', rfl⟩ := Mutator.Heap.mapM_two.mp hvs
        obtain rfl := Option.some.inj (hv.symm.trans hv')
        obtain rfl := Option.some.inj (hu.symm.trans hu')
        simp [Sys.node, ht, hd]
    refine ⟨f', R', K, s', ?_, hsim⟩
    rw [Cmd.run, Prog.bind_of_ok hp, Prog.bind_of_ok hq,
      Prog.bind_of_ok (show xMkspair env b xObjFlagNone p q s = _ from hmk), Prog.bind_of_ok hput]
    rfl
  | first src dst =>
    cases hc
    obtain ⟨f', R', p, w, s', hp, hw, hput, rfl, hsim⟩ := h.load hi
    refine ⟨f', R', K, s', ?_, hsim.add_zero⟩
    rw [Cmd.run, Prog.bind_of_ok hp, Prog.bind_of_ok (show xFirst p s = _ from hw),
      Prog.bind_of_ok hput]
    rfl
  | rest src dst =>
    cases hc
    obtain ⟨f', R', p, w, s', hp, hw, hput, rfl, hsim⟩ := h.load hi
    refine ⟨f', R', K, s', ?_, hsim.add_zero⟩
    rw [Cmd.run, Prog.bind_of_ok hp, Prog.bind_of_ok (show xRest p s = _ from hw),
      Prog.bind_of_ok hput]
    rfl
  | setFirst obj src =>
    cases hc
    obtain ⟨f', R', p, w, s', hp, hw, hput, rfl, hsim⟩ := h.store hi
    refine ⟨f', R', K, s', ?_, hsim.add_zero⟩
    rw [Cmd.run, Prog.bind_of_ok hp, Prog.bind_of_ok hw, Prog.bind_of_ok hput]
    rfl
  | setRest obj src =>
    cases hc
    obtain ⟨f', R', p, w, s', hp, hw, hput, rfl, hsim⟩ := h.store hi
    refine ⟨f', R', K, s', ?_, hsim.add_zero⟩
    rw [Cmd.run, Prog.bind_of_ok hp, Prog.bind_of_ok hw, Prog.bind_of_ok hput]
    rfl
  | look x =>
    cases hc
    obtain ⟨f', R', p, l, hp, hl, rfl, hsim⟩ := h.look hi
    refine ⟨f', R', K, s, ?_, hsim.add_zero⟩
    rw [Cmd.run, Prog.bind_of_ok hp, Prog.bind_of_ok hl]
    rfl
  | same x y =>
    cases hc
    obtain ⟨f', R', p, q, hp, hq, rfl, hsim⟩ := h.same hi
    refine ⟨f', R', K, s, ?_, hsim.add_zero⟩
    rw [Cmd.run, Prog.bind_of_ok hp, Prog.bind_of_ok hq]
    rfl
  | collect => cases hc

/-- A collection. What is left of the program on the chain is what its frames lead to. -/
theorem collect (st : CStack) (h : Sim m F S b f R i s K) (hin : env.FreeInert)
    (hat : env.AtomsClosed) (hF : F ≠ 0) (hsh : F &&& xObjFlagShared = 0)
    (hown : F &&& xObjFlagOwn = 0) : ∃ s',
    Cmd.collect.run env st F b K s = .ok (K, none) s' ∧
    Sim (m.withCount (Set.ncard {a | i.heap.Rooted a})) F S b f {a | i.heap.Rooted a} i s' K ∧
    s'.held b = f '' {a | i.heap.Rooted a} := by
  have hA : ∀ p, (s.view K).Rooted p → p ∈ f '' R := fun p hp => by
    obtain ⟨a, ha, rfl⟩ := h.copy.rooted_iff.mp hp
    exact ⟨a, h.copy.rooted_mem ha, rfl⟩
  obtain ⟨s', hrun, hp, hreq, hsame, hheld⟩ := h.prog.collect hin hat hF hsh hown hA
  have himg : {p | (s.view K).Rooted p} = f '' {a | i.heap.Rooted a} :=
    Set.ext fun p => h.copy.rooted_iff
  have hcard : Set.ncard (f '' {a | i.heap.Rooted a}) = Set.ncard {a | i.heap.Rooted a} :=
    (h.copy.inj.mono fun a ha => h.copy.rooted_mem ha).ncard_image
  rw [himg] at hp hheld
  rw [hcard] at hp
  refine ⟨s', ?_, ⟨hp, h.copy.collect ?_ fun y hy => (hsame y (.inr hy)).node,
    h.asked.trans hreq.symm, fun a ha => h.old a (h.copy.rooted_mem ha)⟩, hheld⟩
  · rw [Cmd.run, Prog.bind_of_ok hrun]
    rfl
  · exact List.map_congr_left fun q hq => by rw [(hsame q (.inl hq)).2]

end Sim

/-! ## Runs -/

variable {env : Env} {cfg : XBaseT} {st : CStack} {F : Flags} {S K : List Ptr} {b : Ptr}
  {f : Nat → Ptr} {R : Set Nat} {i i' : Mutator.Ideal Tag} {s : Sys} {c : Client}
  {prog : List Cmd} {os : List (Obs Tag)}

theorem Sim.run (st : CStack) (h : Sim .bare F S b f R i s K) (hin : env.FreeInert)
    (hat : env.AtomsClosed) (hF : F ≠ 0) (hsh : F &&& xObjFlagShared = 0)
    (hown : F &&& xObjFlagOwn = 0)
    (hi : i.run env.malloc.grants (prog.filterMap Cmd.op) = some (i', os)) : ∃ f' R' K' s',
    Cmd.runAll env st F b prog K s = .ok (K', os) s' ∧
      Sim .bare F S b f' R' i' s' K' := by
  induction prog generalizing f R i s K os with
  | nil =>
    obtain ⟨rfl, rfl⟩ := Prod.mk.inj (Option.some.inj hi)
    exact ⟨f, R, K, s, rfl, h⟩
  | cons x prog ih =>
    cases hx : x.op with
    | none =>
      obtain rfl : x = .collect := by cases x <;> first | rfl | cases hx
      obtain ⟨s₁, hrun, hsim, -⟩ := h.collect st hin hat hF hsh hown
      obtain ⟨f', R', K', s', hall, hsim'⟩ := ih hsim hi
      exact ⟨f', R', K', s', (Prog.bind_of_ok hrun).trans (Prog.bind_of_ok hall), hsim'⟩
    | some op =>
      rw [List.filterMap_cons_some hx] at hi
      obtain ⟨i₁, o, os', hstep, hrest, rfl⟩ := Mutator.Ideal.run_cons.mp hi
      obtain ⟨f₁, R₁, K₁, s₁, hrun, hsim⟩ := h.step st hx (fun _ => h.prog.bare.answers env) hstep
      obtain ⟨f', R', K', s', hall, hsim'⟩ := ih hsim hrest
      exact ⟨f', R', K', s', (Prog.bind_of_ok hrun).trans (Prog.bind_of_ok hall), hsim'⟩

theorem runAll_append {K₁ K₂ : List Ptr} {s s₁ s₂ : Sys} {prog₁ prog₂ : List Cmd}
    {o₁ o₂ : List (Obs Tag)} (h₁ : Cmd.runAll env st F b prog₁ K s = .ok (K₁, o₁) s₁)
    (h₂ : Cmd.runAll env st F b prog₂ K₁ s₁ = .ok (K₂, o₂) s₂) :
    Cmd.runAll env st F b (prog₁ ++ prog₂) K s = .ok (K₂, o₁ ++ o₂) s₂ := by
  induction prog₁ generalizing K s o₁ with
  | nil =>
    cases h₁
    exact h₂
  | cons x prog₁ ih =>
    obtain ⟨⟨K', o⟩, s', hx, h₁⟩ := Prog.bind_ok.mp h₁
    obtain ⟨⟨K'', os⟩, s'', hrest, h₁⟩ := Prog.bind_ok.mp h₁
    cases h₁
    rw [List.append_assoc]
    exact (Prog.bind_of_ok hx).trans (Prog.bind_of_ok (ih hrest))

/-- The ideal heap that a program starts with, after `n` requests. -/
def idealStart (n : Nat) : Mutator.Ideal Tag := ⟨⟨fun _ => none, []⟩, n⟩

/-- A program starts on a base that knows nothing of it. -/
theorem HeapInv.sim {m : Mode} {L : List Ptr} {t : Ptr → Cells Word} (F : Flags)
    (hi : HeapInv c L t fun _ => Kept.ofCfg cfg) (hb : c.bases = [c.root])
    (hr : c.roots c.root = []) (hm : m.Holds c.sys c.root c.locals)
    (hclean : ∀ p ∈ L, c.sys.flagsOf p &&& F = 0)
    (hown : ∀ p, c.sys.flagsOf p &&& xObjFlagOwn = 0) :
    Sim m F c.locals c.root (fun _ => nil) ∅ (idealStart c.sys.requests) c.sys [] := by
  have hbase := hi.base c.root hi.root_mem
  have hbase' : BaseInv c.sys c.locals c.root (t c.root) (Kept.ofCfg cfg) [] := hr ▸ hbase
  have hroots : Function.update (fun _ => []) c.root [] = fun _ : Ptr => ([] : List Ptr) :=
    Function.update_eq_self ..
  have hone : ∀ q ∈ [c.root], q ∈ c.bases := fun q hq => by rwa [hb]
  have hprog : HeapInv (progClient c.sys c.root [] ([] ++ c.locals)) L t
      fun _ => Kept.ofCfg cfg := by
    refine ⟨hi.chain, .head _, fun q hq => hi.bases (hone q hq), fun q hq => ?_,
      fun q hq => hi.nodes q (hone q hq), fun q hq r hr => hi.apart q (hone q hq) r (hone r hr),
      fun q hq r hr => hi.no_node q (hone q hq) r (hone r hr), fun q hq r hr _ => ?_⟩
    · obtain rfl := List.mem_singleton.mp hq
      rw [show (progClient c.sys c.root [] _).roots = fun _ => [] from hroots]
      exact hbase'
    · rw [show (progClient c.sys c.root [] _).roots = fun _ => [] from hroots]
      exact List.disjoint_nil_left _
  have hhook : ∀ {p : Ptr}, c.sys.Hook c.locals p → p ∈ nil :: c.locals := by
    rintro p (rfl | ⟨hp, -⟩)
    · exact .head _
    · exact .tail _ hp
  exact ⟨⟨⟨L, t, _, ⟨hprog, hclean⟩, hhook hbase.mark, hhook hbase.free⟩, hm, fun ⟨_, ha, _⟩ => ha,
    hown, nofun, nofun, nofun, nofun⟩, ⟨nofun, rfl, nofun, nofun⟩, rfl, nofun⟩

/-- The flags of a new base and of its tree. -/
theorem Start.flags_and {p : Ptr} {g : Flags} (hs : Start env cfg c) (hl : p ∉ c.locals)
    (hg : xObjFlagShared &&& g = 0) : c.sys.flagsOf p &&& g = 0 := by
  by_cases hp : c.sys.Live p
  · rcases hs.flags hp hl with e | e
    · rw [e]
      exact BitVec.zero_and
    · rw [e, hg]
  · rw [flagsOf_not_live hp]
    exact BitVec.zero_and

/-- No object owns memory. -/
theorem Start.own_and (hs : Start env cfg c)
    (hst : ∀ p ∈ c.locals, c.sys.flagsOf p &&& xObjFlagOwn = 0) (p : Ptr) :
    c.sys.flagsOf p &&& xObjFlagOwn = 0 := by
  by_cases hl : p ∈ c.locals
  · exact hst p hl
  · exact hs.flags_and hl (by decide)

/-- A program starts on a new base. -/
theorem Start.sim (hs : Start env cfg c) (hsh : F &&& xObjFlagShared = 0)
    (hst : ∀ p ∈ c.locals, c.sys.flagsOf p &&& xObjFlagOwn = 0) :
    Sim .bare F c.locals c.root (fun _ => nil) ∅ (idealStart c.sys.requests) c.sys [] := by
  obtain ⟨L, t, hi⟩ := hs.heapInv
  exact hi.sim F hs.bases hs.roots hs.typeOf_root (fun p hp => hs.flags_and
    (fun hl => hi.chain.apart p hl (.tail _ hp)) (by rw [BitVec.and_comm]; exact hsh))
    (hs.own_and hst)

/-- A program does what it does on a heap that is never collected, whatever the addresses of
`malloc` and of the stack are and whenever it collects. In the end the memory is a copy of that
heap. -/
theorem collection_transparent (hin : env.FreeInert) (hat : env.AtomsClosed) (hF : F ≠ 0)
    (hsh : F &&& xObjFlagShared = 0) (hown : F &&& xObjFlagOwn = 0) (hs : Start env cfg c)
    (hst : ∀ p ∈ c.locals, c.sys.flagsOf p &&& xObjFlagOwn = 0)
    (hi : (idealStart c.sys.requests).run env.malloc.grants (prog.filterMap Cmd.op) =
      some (i, os)) :
    ∃ f K s, Cmd.runAll env st F c.root prog [] c.sys = .ok (K, os) s ∧
      Renames f {a | i.heap.Rooted a} i.heap (s.view K) := by
  obtain ⟨f, R, K, s, hrun, hsim⟩ := (hs.sim hsh hst).run st hin hat hF hsh hown hi
  exact ⟨f, K, s, hrun, hsim.copy.collect rfl fun _ _ => rfl⟩

/-- A stack that grows past all addresses in use. -/
def CStack.bump : CStack where
  address s := s.top + 1
  fresh s := by
    have h : nil < (s.top : Int) + 1 := by
      have : (0 : Int) ≤ s.top := Int.natCast_nonneg _
      exact Int.lt_add_one_of_le this
    exact ⟨h, fun hl => absurd (Sys.le_top (.inl hl)) (not_le.mpr (Int.lt_succ _))⟩

theorem Env.plain_atomsClosed {grants : Nat → Bool} : (Env.plain grants).AtomsClosed :=
  fun _ _ _ _ _ => rfl

/-- A pair of an atom with itself, of which the atom is read back after a collection. -/
def sharedAtom : List Cmd :=
  [.enter, .atom 41 ⟨0, 0⟩, .cons ⟨0, 0⟩ ⟨0, 0⟩ ⟨0, 1⟩, .first ⟨0, 1⟩ ⟨0, 0⟩, .collect,
    .look ⟨0, 0⟩, .rest ⟨0, 1⟩ ⟨0, 1⟩, .same ⟨0, 0⟩ ⟨0, 1⟩]

theorem sharedAtom_ideal (n : Nat) :
    ∃ i, (idealStart n).run (fun _ => true) (sharedAtom.filterMap Cmd.op) =
      some (i, [.label (some (.atom 41)), .same true]) := by
  simp [sharedAtom, List.filterMap, Cmd.op, idealStart, Mutator.Ideal.run, Mutator.Ideal.step,
    Mutator.Ideal.new, Mutator.Op.asks, Mutator.Heap.apply, Mutator.Heap.made, Mutator.Heap.get,
    Mutator.Heap.put, Mutator.Heap.setNode, Function.update]

theorem collection_transparent_sharedAtom : ∃ (c : Client) (K : List Ptr) (s : Sys),
    Cmd.runAll (.plain fun _ => true) .bump xObjFlagMark c.root sharedAtom [] c.sys =
      .ok (K, [.label (some (.atom 41)), .same true]) s := by
  obtain ⟨c, hs, hloc⟩ := Start.exists (.plain fun _ => true) .standard
    (fun _ _ _ => rfl) rfl rfl
  obtain ⟨i, hi⟩ := sharedAtom_ideal c.sys.requests
  obtain ⟨f, K, s, hrun, -⟩ := @collection_transparent _ _ .bump xObjFlagMark _ _ _ _
    Env.plain_inert Env.plain_atomsClosed (by decide) (by decide) (by decide) hs
    (by simp [hloc]) hi
  exact ⟨c, K, s, hrun⟩

/-- After a collection the unshared objects on the chain are a copy of what the frames of the ideal
heap lead to. -/
theorem collection_footprint (hin : env.FreeInert) (hat : env.AtomsClosed) (hF : F ≠ 0)
    (hsh : F &&& xObjFlagShared = 0) (hown : F &&& xObjFlagOwn = 0) (hs : Start env cfg c)
    (hst : ∀ p ∈ c.locals, c.sys.flagsOf p &&& xObjFlagOwn = 0)
    (hi : (idealStart c.sys.requests).run env.malloc.grants (prog.filterMap Cmd.op) =
      some (i, os)) :
    ∃ f K s, Cmd.runAll env st F c.root (prog ++ [.collect]) [] c.sys = .ok (K, os) s ∧
      Renames f {a | i.heap.Rooted a} i.heap (s.view K) ∧
      {p | p ∈ outstanding s.trace ∧ p ≠ c.root ∧ s.flagsOf p &&& xObjFlagShared = 0} =
        f '' {a | i.heap.Rooted a} := by
  obtain ⟨f, R, K, s, hrun, hsim⟩ := (hs.sim hsh hst).run st hin hat hF hsh hown hi
  obtain ⟨s', hrun', hsim', hheld⟩ := hsim.collect st hin hat hF hsh hown
  have hone : Cmd.runAll env st F c.root [.collect] K s = .ok (K, []) s' :=
    (Prog.bind_of_ok hrun').trans (Prog.bind_of_ok rfl)
  exact ⟨f, K, s', by simpa using runAll_append hrun hone, hsim'.copy, hheld⟩

/-- Of two atoms in the same variable, the first one is lost. -/
def lostAtom : List Cmd := [.enter, .atom 41 ⟨0, 0⟩, .atom 42 ⟨0, 0⟩]

theorem lostAtom_ideal (n : Nat) :
    ∃ i, (idealStart n).run (fun _ => true) (lostAtom.filterMap Cmd.op) = some (i, []) ∧
      {a | i.heap.Rooted a} = {n + 1} := by
  simp only [lostAtom, List.filterMap, Cmd.op, idealStart, Mutator.Ideal.run, Mutator.Ideal.step,
    Mutator.Ideal.new, Mutator.Op.asks, Mutator.Heap.apply, Mutator.Heap.made, Mutator.Heap.get,
    Mutator.Heap.put, Mutator.Heap.setNode]
  refine ⟨_, rfl, Set.ext fun a => ⟨?_, fun e => ?_⟩⟩
  · rintro ⟨fr, hfr, r, hr, hp⟩
    obtain rfl : fr = [some (n + 1), none] := by simpa using hfr
    obtain rfl : r = n + 1 := by simpa using hr
    rcases hp.cases_head with e | ⟨y, ⟨m, hm, hy⟩, -⟩
    · exact e.symm
    · obtain rfl : (⟨.atom 42, []⟩ : Node Tag Nat) = m := by simpa using hm
      cases hy
  · exact ⟨[some (n + 1), none], by simp, n + 1, by simp, by rw [show a = n + 1 from e]⟩

theorem collection_footprint_lostAtom : ∃ (c : Client) (K : List Ptr) (s : Sys) (p : Ptr),
    Cmd.runAll (.plain fun _ => true) .bump xObjFlagMark c.root (lostAtom ++ [.collect]) [] c.sys =
      .ok (K, []) s ∧
    {q | q ∈ outstanding s.trace ∧ q ≠ c.root ∧ s.flagsOf q &&& xObjFlagShared = 0} = {p} := by
  obtain ⟨c, hs, hloc⟩ := Start.exists (.plain fun _ => true) .standard
    (fun _ _ _ => rfl) rfl rfl
  obtain ⟨i, hi, hr⟩ := lostAtom_ideal c.sys.requests
  obtain ⟨f, K, s, hrun, -, hset⟩ := @collection_footprint _ _ .bump xObjFlagMark _ _ _ _
    Env.plain_inert Env.plain_atomsClosed (by decide) (by decide) (by decide) hs
    (by simp [hloc]) hi
  exact ⟨c, K, s, f (c.sys.requests + 1), hrun, by rw [hset, hr, Set.image_singleton]⟩

end XExpr
