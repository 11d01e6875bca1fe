import XExpr.Heap.Placed

/-!
# Free hooks that allocate

`x_heap_sweep` calls the free hook on each object before it frees it. A hook that allocates links
new objects in behind the base, while the sweep holds the predecessor of the dying object. As long
as that is the base itself, the store that links the dying object out takes the new objects out as
well.

* `hookAllocs`, `Env.FreeMakes`: a hook that allocates and does nothing else.
* `Fronted`: a memory with new objects behind the base. `Sweepable.made`: what is left to be swept
  is as before.
* `sweepLoop_front`: behind a kept node, the new objects stay on the chain.
* `sweepLoop_lost`: before the first kept node, they are lost.
* `hook_allocs_iff`: a sweep keeps all of them if and only if none is made before that node.
-/

namespace XExpr

open Sys Chain

/-! ## Hooks -/

/-- The arguments of a call of `x_obj_alloc`. -/
structure Request where
  type : Ptr
  flags : Flags
  units : Nat

/-- A hook that allocates on its base. -/
def hookAllocs (env : Env) (b : Ptr) : List Request → M Unit
  | [] => return
  | r :: l => do
    let _ ← xObjAlloc env b r.type r.flags r.units
    hookAllocs env b l

/-- Called on an object, the hook makes the requests that it chooses for the object in this memory,
and does nothing else. -/
def Env.FreeMakes (env : Env) (fn : Word) (b : Ptr) (reqs : Ptr → Sys → List Request) : Prop :=
  ∀ p s, env.freeFn fn b p s = hookAllocs env b (reqs p s) s

/-- Of `n` requests from the number `r` on, none is granted. -/
def Malloc.Refuses (m : Malloc) (r n : Nat) : Prop := ∀ i, r ≤ i → i < r + n → m.grants i = false

/-- What a pass of the sweep does with an object that dies. -/
def dies (env : Env) (fn : Word) (b prev p : Ptr) : M Unit := do
  callFreeFn env fn b p
  let next ← xObjHeap p
  setXObjHeap prev next
  xObjFree b p

/-- The run ended with a call of the hook that did not return. -/
def Env.HookStops {α : Type} (env : Env) (fn : Word) (b : Ptr) (l : List Ptr) (s : Sys)
    (r : EStateM.Result Stop Sys α) : Prop :=
  ∃ p ∈ l, ∃ s₁ e s₂, s₁.Live b ∧ s₁.typeOf b = s.typeOf b ∧ env.freeFn fn b p s₁ = .error e s₂ ∧
    r = .error e s₂

/-- For objects that die behind the base, one after the other, the hook is granted no request. -/
def Env.Barren (env : Env) (fn : Word) (b : Ptr) (reqs : Ptr → Sys → List Request) :
    List Ptr → Sys → Prop
  | [], _ => True
  | p :: l, s => env.malloc.Refuses s.requests (reqs p (s.log (.freeHook p))).length ∧
      ∀ s', dies env fn b b p s = .ok () s' → env.Barren fn b reqs l s'

/-- The objects that were made, newest first. -/
def madeIn (tr : List Event) : List Ptr :=
  tr.filterMap fun ev => match ev with
    | .objAlloc p _ => some p
    | _ => none

/-- `s'` is `s` with the objects `new` linked in behind the base, and what is left as it was. -/
structure Fronted (s : Sys) (b : Ptr) (new : List Ptr) (s' : Sys) : Prop where
  chain : Seg s'.next (s'.next b) new (s.next b)
  nodup : new.Nodup
  fresh : ∀ q ∈ new, ¬ s.Live q
  live : ∀ q, s'.Live q ↔ q ∈ new ∨ s.Live q
  next : ∀ q, s.Live q → q ≠ b → s'.next q = s.next q
  typeOf : ∀ q, s.Live q → s'.typeOf q = s.typeOf q
  flagsOf : ∀ q, s.Live q → s'.flagsOf q = s.flagsOf q
  trace : ∃ tr, s'.trace = tr ++ s.trace ∧ madeIn tr = new

section Hooks

variable {env : Env} {s s' s'' : Sys} {b prev node p q a ty : Ptr} {t : Cells Word}
  {cell : Field → Layout Word} {F fl : Flags} {fn : Word} {l new new' : List Ptr} {n : Nat}
  {data : List Word}

theorem Malloc.refuses_add {m : Malloc} {r k : Nat} :
    m.Refuses r (n + k) ↔ m.Refuses r n ∧ m.Refuses (r + n) k := by
  constructor
  · intro h
    exact ⟨fun i h₁ h₂ => h i h₁ (by omega), fun i h₁ h₂ => h i (by omega) (by omega)⟩
  · rintro ⟨h₁, h₂⟩ i hr hi
    by_cases hn : i < r + n
    · exact h₁ i hr hn
    · exact h₂ i (by omega) (by omega)

theorem Malloc.refuses_zero {m : Malloc} {r : Nat} : m.Refuses r 0 := fun i h₁ h₂ => by omega

theorem Malloc.refuses_one {m : Malloc} {r : Nat} : m.Refuses r 1 ↔ m.grants r = false := by
  constructor
  · intro h
    exact h r le_rfl (by omega)
  · intro h i h₁ h₂
    rwa [show i = r by omega]

theorem madeIn_append {tr tr' : List Event} : madeIn (tr ++ tr') = madeIn tr ++ madeIn tr' :=
  List.filterMap_append

namespace Fronted

theorem refl (s : Sys) (b : Ptr) : Fronted s b [] s :=
  ⟨rfl, .nil, fun _ h => absurd h List.not_mem_nil,
    fun _ => ⟨.inr, fun h => h.resolve_left List.not_mem_nil⟩, fun _ _ _ => rfl, fun _ _ => rfl,
    fun _ _ => rfl, [], rfl, rfl⟩

theorem trans (hb : s.Live b) (h : Fronted s b new s') (h' : Fronted s' b new' s'') :
    Fronted s b (new' ++ new) s'' where
  chain := by
    have hn : ∀ q ∈ new, s''.next q = s'.next q := fun q hq =>
      h'.next q ((h.live q).mpr (.inl hq)) fun e => h.fresh q hq (e ▸ hb)
    exact seg_append.mpr ⟨_, h'.chain, h.chain.congr hn⟩
  nodup := by
    refine List.nodup_append.mpr ⟨h'.nodup, h.nodup, fun q hq r hr e => ?_⟩
    exact h'.fresh q hq ((h.live q).mpr (.inl (e ▸ hr)))
  fresh q hq hl := (List.mem_append.mp hq).elim
    (fun hq => h'.fresh q hq ((h.live q).mpr (.inr hl))) fun hq => h.fresh q hq hl
  live q := by rw [h'.live, h.live, List.mem_append, or_assoc]
  next q hl hq := (h'.next q ((h.live q).mpr (.inr hl)) hq).trans (h.next q hl hq)
  typeOf q hl := (h'.typeOf q ((h.live q).mpr (.inr hl))).trans (h.typeOf q hl)
  flagsOf q hl := (h'.flagsOf q ((h.live q).mpr (.inr hl))).trans (h.flagsOf q hl)
  trace := by
    obtain ⟨tr, htr, hm⟩ := h.trace
    obtain ⟨tr', htr', hm'⟩ := h'.trace
    exact ⟨tr' ++ tr, by rw [htr', htr, List.append_assoc], by rw [madeIn_append, hm, hm']⟩

theorem made (hb : s.Live b) (hm : Made s b ty fl data p a s') : Fronted s b [p] s' where
  chain := by
    rw [hm.next_old b hb, if_pos rfl]
    exact ⟨rfl, hm.next_new⟩
  nodup := List.nodup_singleton p
  fresh q hq := List.mem_singleton.mp hq ▸ hm.new
  live q := by rw [hm.live, List.mem_singleton]
  next q hl hq := by rw [hm.next_old q hl, if_neg hq]
  typeOf q hl := hm.typeOf_old q fun e => hm.new (e ▸ hl)
  flagsOf q hl := hm.flagsOf_old q fun e => hm.new (e ▸ hl)
  trace := ⟨[.objAlloc p a], hm.trace, rfl⟩

end Fronted

/-- A new object changes nothing about a base on which frees can be accounted. -/
theorem Accounted.made (h : Accounted s b t cell) (hb : s.Live b)
    (hm : Made s b ty fl data p a s') :
    Accounted s' b t cell ∧ s'.extraOf b = s.extraOf b := by
  have hbp : b ≠ p := fun e => hm.new (e ▸ hb)
  have hnode : s.Full b → ∀ q ∈ b :: t.nodes, q ≠ p := fun hf q hq e => by
    rcases List.mem_cons.mp hq with rfl | hq
    · exact hbp e
    · exact hm.new (e ▸ (h.tree hf).live_node hq)
  have htree : s.Full b → BaseTree s' b t cell := fun hf => by
    obtain ⟨x, -, hx⟩ := h.fields hf
    refine (h.tree hf).count hx (g := (· + 1)) fun q hq i => ?_
    rw [hm.unit_old q i (hnode hf q hq)]
    simp only [hf, true_and]
  obtain ⟨hacc, -, hextra, -⟩ := h.step s' (fun hl => (hm.live b).mpr (.inr hl))
    (hm.typeOf_old b hbp) (fun hf => by rw [hm.unit_old b 0 hbp, if_neg fun h => hf h.1]) htree
    fun hf q hq => by rw [hm.flagsOf_old q (hnode hf q (.tail _ hq))]; exact h.shared hf q hq
  exact ⟨hacc, hextra⟩

/-- What is left to be swept is not touched by a new object. -/
theorem Sweepable.made (h : Sweepable s b t cell F prev node l) (hb : s.Live b)
    (hm : Made s b ty fl data p a s') : Sweepable s' b t cell F prev node l := by
  have hold : ∀ q, s.Live q → q ≠ p := fun q hq e => hm.new (e ▸ hq)
  obtain ⟨hacc, hextra⟩ := h.base.made hb hm
  have hblock : ∀ w x, s.block w = some x → s'.block w = some x := fun w x hw => by
    rw [hm.block, if_neg, hw]
    rintro rfl
    rw [hm.block_new] at hw
    cases hw
  have hr : Returnable s' (s.extraOf b) F l := by
    refine h.returnable.mono (fun q hq => hm.flagsOf_old q (hold q (h.live q hq)))
      (fun q hq hk => ?_) (fun q _ _ => hblock _ q) fun q _ _ w _ => hblock w nil
    rw [hm.unit_old q 0 (hold q (h.live q hq)),
      if_neg fun hc => h.base.count_ne hk hc.1 hc.2.1]
  rw [← hextra] at hr
  exact {
    base := hacc
    seg := h.seg.congr fun q hq => by
      rw [hm.next_old q (h.live q hq), if_neg fun e : q = b => h.base_notMem (e ▸ hq)]
    nodup := h.nodup
    live := fun q hq => (hm.live q).mpr (.inr (h.live q hq))
    prev_live := (hm.live prev).mpr (.inr h.prev_live)
    prev_notMem := h.prev_notMem
    base_notMem := h.base_notMem
    placed := hr.placed
    own := hr.own
    own_inj := hr.own_inj }

theorem Sweepable.request (h : Sweepable s b t cell F prev node l) :
    Sweepable s.request b t cell F prev node l :=
  ⟨(h.base.step s.request id rfl (fun _ => rfl) (fun hf => (h.base.tree hf).congr
    fun _ _ _ _ hu => hu) h.base.shared).1, h.seg, h.nodup, h.live, h.prev_live, h.prev_notMem,
    h.base_notMem, h.placed, h.own, h.own_inj⟩

/-- The hook's requests stop the program, or are answered one after the other. -/
theorem hookAllocs_run (env : Env) (reqs : List Request)
    (h : Sweepable s b t cell F prev node l) (hb : s.Live b) :
    (∃ e s', hookAllocs env b reqs s = .error e s') ∨
    ∃ s' new, hookAllocs env b reqs s = .ok () s' ∧ Fronted s b new s' ∧
      Sweepable s' b t cell F prev node l ∧ s'.requests = s.requests + reqs.length ∧
      (new = [] ↔ env.malloc.Refuses s.requests reqs.length) := by
  induction reqs generalizing s with
  | nil => exact .inr ⟨s, [], rfl, .refl s b, h, rfl, iff_of_true rfl Malloc.refuses_zero⟩
  | cons r reqs ih =>
    unfold hookAllocs
    cases hr : xObjAlloc env b r.type r.flags r.units s with
    | error e s' => exact .inl ⟨e, s', Prog.bind_of_error hr⟩
    | ok p s₁ =>
      rw [Prog.bind_of_ok hr, List.length_cons, Nat.add_comm reqs.length 1, Malloc.refuses_add,
        Malloc.refuses_one]
      rcases xObjAlloc_ok hr with ⟨-, hg, -, rfl⟩ | ⟨a, data, hg, hm, -⟩
      · refine (ih h.request hb).imp id fun ⟨s', new, hrun, hf, hsw, hreq, hnew⟩ => ?_
        refine ⟨s', new, hrun,
          ⟨hf.chain, hf.nodup, hf.fresh, hf.live, hf.next, hf.typeOf, hf.flagsOf, hf.trace⟩,
          hsw, by rw [hreq, ← Nat.add_assoc]; rfl, hnew.trans (and_iff_right hg).symm⟩
      · refine (ih (h.made hb hm) ((hm.live b).mpr (.inr hb))).imp id
          fun ⟨s', new, hrun, hf, hsw, hreq, _⟩ => ?_
        refine ⟨s', new ++ [p], hrun, (Fronted.made hb hm).trans hb hf, hsw,
          by rw [hreq, hm.requests, Nat.add_assoc], iff_of_false (by simp) fun hc => ?_⟩
        rw [hg] at hc
        cases hc.1

/-! ## One object dies -/

/-- `s'` is `s` after the object behind `prev` died, while the hook made the objects `new`. -/
structure Passed (s : Sys) (b prev p : Ptr) (new : List Ptr) (s' : Sys) : Prop where
  next_prev : s'.next prev = s.next p
  chain : prev ≠ b → Seg s'.next (s'.next b) new (s.next b)
  next : ∀ q, s.Live q → q ≠ b → q ≠ prev → q ≠ p → s'.next q = s.next q
  nodup : new.Nodup
  fresh : ∀ q ∈ new, ¬ s.Live q
  live : ∀ q, s'.Live q ↔ q ≠ p ∧ (q ∈ new ∨ s.Live q)
  typeOf : ∀ q, s.Live q → q ≠ p → s'.typeOf q = s.typeOf q
  flagsOf : ∀ q, s.Live q → q ≠ p → s'.flagsOf q = s.flagsOf q
  trace : ∃ tr, s'.trace = tr ++ s.trace ∧ madeIn tr = new

theorem Fronted.log (s : Sys) (b p : Ptr) : Fronted s b [] (s.log (.freeHook p)) :=
  { Fronted.refl s b with trace := ⟨[.freeHook p], rfl, rfl⟩ }

/-- What the hook made is linked out again if `prev` is the base. -/
theorem Fronted.passed (hf : Fronted s b new s') (hp : s.Live p) (hpb : p ≠ b)
    (hprev : s.Live prev) (hpp : prev ≠ p)
    (h : Freed (s'.setHeap prev (s.next p)) b p a s'') : Passed s b prev p new s'' := by
  have hprev' : s'.Live prev := (hf.live prev).mpr (.inr hprev)
  have hnew : ∀ q ∈ new, q ≠ p := fun q hq e => hf.fresh q hq (e ▸ hp)
  have hnewprev : ∀ q ∈ new, q ≠ prev := fun q hq e => hf.fresh q hq (e ▸ hprev)
  have hnext : ∀ q, q ≠ p → q ≠ prev → s''.next q = s'.next q := fun q hq hqp => by
    rw [h.next q hq, next_setHeap hprev', if_neg hqp]
  refine ⟨?_, fun hpb' => ?_, fun q hl hqb hqp hq => ?_, hf.nodup, hf.fresh, fun q => ?_,
    fun q hl hq => ?_, fun q hl hq => ?_, ?_⟩
  · rw [h.next prev hpp, next_setHeap hprev', if_pos rfl]
  · rw [hnext b hpb.symm hpb'.symm]
    exact hf.chain.congr fun q hq => hnext q (hnew q hq) (hnewprev q hq)
  · rw [hnext q hq hqp, hf.next q hl hqb]
  · rw [h.live, live_setHeap, hf.live]
  · rw [h.typeOf q hq, typeOf_setHeap, hf.typeOf q hl]
  · rw [h.flagsOf q hq, flagsOf_setHeap, hf.flagsOf q hl]
  · obtain ⟨tr, htr, hm⟩ := hf.trace
    refine ⟨.objFree p a :: tr, ?_, hm⟩
    rw [h.trace, show (s'.setHeap prev (s.next p)).trace = s'.trace from trace_modify, htr]
    rfl

theorem Env.HookStops.cons {α : Type} {r : EStateM.Result Stop Sys α}
    (ht : s'.typeOf b = s.typeOf b) : env.HookStops fn b l s' r → env.HookStops fn b (p :: l) s r :=
  fun ⟨q, hq, s₁, e, s₂, hl, ht', h⟩ => ⟨q, .tail _ hq, s₁, e, s₂, hl, ht'.trans ht, h⟩

/-- The pass of the loop over an object that dies. -/
theorem sweepLoop_free {reqs : Ptr → Sys → List Request} (hne : fn ≠ nil)
    (hhook : env.FreeMakes fn b reqs) (h : Sweepable s b t cell F prev p (p :: l))
    (hb : s.Live b) (hk : s.kept F p = false) :
    env.HookStops fn b (p :: l) s (sweepLoop env F fn (n + 1) b prev p s) ∨
    ∃ s₁ new, dies env fn b prev p s = .ok () s₁ ∧
      sweepLoop env F fn (n + 1) b prev p s = sweepLoop env F fn n b prev (s.next p) s₁ ∧
      Passed s b prev p new s₁ ∧ Sweepable s₁ b t cell F prev (s.next p) l ∧
      s₁.requests = s.requests + (reqs p (s.log (.freeHook p))).length ∧
      (new = [] ↔ env.malloc.Refuses s.requests (reqs p (s.log (.freeHook p))).length) := by
  have hp : s.Live p := h.live p (.head _)
  have hpb : p ≠ b := fun e => h.base_notMem (e ▸ .head _)
  have hpp : prev ≠ p := fun e => h.prev_notMem (e ▸ .head _)
  have hlog : XExpr.log (.freeHook p) s = .ok ⟨⟩ (s.log (.freeHook p)) := rfl
  have hcall : callFreeFn env fn b p s =
      hookAllocs env b (reqs p (s.log (.freeHook p))) (s.log (.freeHook p)) := by
    unfold callFreeFn
    rw [if_pos hne, Prog.bind_of_ok hlog, hhook]
  have hsw : Sweepable (s.log (.freeHook p)) b t cell F prev p (p :: l) := by
    have hh : Sweepable (s.hooked fn p) b t cell F prev p (p :: l) := h.hooked
    rwa [hooked, if_neg hne] at hh
  unfold dies
  rw [sweepLoop_die hp hk]
  rcases hookAllocs_run env (reqs p (s.log (.freeHook p))) hsw hb with
    ⟨e, s₂, he⟩ | ⟨s₁, new, hrun, hf, hsw₁, hreq, hnew⟩
  · exact .inl ⟨p, .head _, s.log (.freeHook p), e, s₂, hb, rfl, (hhook p _).trans he,
      Prog.bind_of_error (hcall.trans he)⟩
  · have hf' : Fronted s b new s₁ := by
      have hh := (Fronted.log s b p).trans hb hf
      rwa [List.append_nil] at hh
    have hp₁ : s₁.Live p := (hf'.live p).mpr (.inr hp)
    have hnext : s₁.next p = s.next p := hf'.next p hp hpb
    have hk₁ : s₁.kept F p = false := by rw [kept_congr (hf'.flagsOf p hp), hk]
    obtain ⟨s₂, hfree, hfreed, -, -, -, hsw₂⟩ := hsw₁.free hk₁
    rw [hnext] at hfree hfreed hsw₂
    refine .inr ⟨s₂, new, ?_, ?_, hf'.passed hp hpb h.prev_live hpp hfreed, hsw₂,
      hfreed.requests.trans (requests_modify.trans hreq), hnew⟩
    · rw [Prog.bind_of_ok (hcall.trans hrun), Prog.bind_of_ok (xObjHeap_eq hp₁), hnext,
        Prog.bind_of_ok (setXObjHeap_eq hsw₁.prev_live), hfree]
    · rw [Prog.bind_of_ok (hcall.trans hrun), Prog.bind_of_ok (xObjHeap_eq hp₁), hnext,
        Prog.bind_of_ok (setXObjHeap_eq hsw₁.prev_live), Prog.bind_of_ok hfree, if_neg hpb]

/-! ## The rest of the sweep -/

/-- What a sweep of `l` comes to: the chain is `ns` and the objects `kept`, and of the objects that
the hook made, `ns` are on it and `lost` are not. -/
structure Outcome (s : Sys) (b : Ptr) (kept l ns lost : List Ptr) (s' : Sys) : Prop where
  chain : Seg s'.next (s'.next b) (ns ++ kept) nil
  nodup : (ns ++ kept).Nodup
  live : ∀ q ∈ ns ++ kept, s'.Live q
  trace : ∃ tr, s'.trace = tr ++ s.trace ∧ madeIn tr = ns ++ lost
  fresh : ∀ q ∈ ns ++ lost, s.Live q → q ∈ l
  lost : ∀ q ∈ lost, q ∉ ns ++ kept

namespace Outcome

variable {kept ns lost : List Ptr}

theorem done (hseg : Seg s.next (s.next b) kept nil) (hn : kept.Nodup)
    (hl : ∀ q ∈ kept, s.Live q) : Outcome s b kept [] [] [] s :=
  ⟨hseg, hn, hl, ⟨[], rfl, rfl⟩, fun _ hq _ => hq, fun _ hq => absurd hq List.not_mem_nil⟩

/-- The flags do not matter. -/
theorem setFlags {fl : Flags} (h : Outcome (s.setFlags p fl) b kept l ns lost s') :
    Outcome s b kept (p :: l) ns lost s' where
  chain := h.chain
  nodup := h.nodup
  live := h.live
  trace := by
    obtain ⟨tr, htr, hm⟩ := h.trace
    exact ⟨tr, htr.trans (congrArg _ trace_modify), hm⟩
  fresh q hq hl := .tail _ (h.fresh q hq (live_setFlags.mpr hl))
  lost := h.lost

theorem made_append (hp : Passed s b prev p new s') (h : Outcome s' b kept l ns lost s'') :
    (∃ tr, s''.trace = tr ++ s.trace ∧ madeIn tr = ns ++ lost ++ new) ∧
    ∀ q ∈ ns ++ lost ++ new, s.Live q → q ∈ p :: l := by
  obtain ⟨tr, htr, hm⟩ := h.trace
  obtain ⟨tr', htr', hm'⟩ := hp.trace
  refine ⟨⟨tr ++ tr', by rw [htr, htr', List.append_assoc], by rw [madeIn_append, hm, hm']⟩,
    fun q hq hl => ?_⟩
  rcases List.mem_append.mp hq with hq | hq
  · by_cases hqp : q = p
    · exact hqp ▸ .head _
    · exact .tail _ (h.fresh q hq ((hp.live q).mpr ⟨hqp, .inr hl⟩))
  · exact absurd hl (hp.fresh q hq)

/-- What is made behind a kept object is on the chain. -/
theorem front (hp : Passed s b prev p new s') (h : Outcome s' b (new ++ kept) l ns [] s'') :
    Outcome s b kept (p :: l) (ns ++ new) [] s'' := by
  obtain ⟨htr, hfresh⟩ := h.made_append hp
  rw [List.append_nil] at htr hfresh
  refine ⟨?_, ?_, ?_, by rwa [List.append_nil], by rwa [List.append_nil],
    fun _ hq => absurd hq List.not_mem_nil⟩ <;> rw [List.append_assoc]
  exacts [h.chain, h.nodup, h.live]

/-- What is made behind the base is not on the chain. -/
theorem back (hp : Passed s b prev p new s') (hl : ∀ q ∈ p :: l, s.Live q)
    (hkept : ∀ q ∈ kept, q ∈ l) (h : Outcome s' b kept l ns lost s'') :
    Outcome s b kept (p :: l) ns (lost ++ new) s'' := by
  obtain ⟨htr, hfresh⟩ := h.made_append hp
  rw [List.append_assoc] at htr hfresh
  refine ⟨h.chain, h.nodup, h.live, htr, hfresh, fun q hq => ?_⟩
  rcases List.mem_append.mp hq with hq | hq
  · exact h.lost q hq
  · -- A new object is alive when the rest is swept, and no object of the rest.
    have hql : ∀ r ∈ p :: l, q ≠ r := fun r hr e => hp.fresh q hq (e ▸ hl r hr)
    have hq' : s'.Live q := (hp.live q).mpr ⟨hql p (.head _), .inl hq⟩
    intro hm
    rcases List.mem_append.mp hm with hm | hm
    · exact hql q (.tail _ (h.fresh q (List.mem_append_left _ hm) hq')) rfl
    · exact hql q (.tail _ (hkept q hm)) rfl

end Outcome

/-- The objects `front` lead from the base to `prev`, with `l` left behind it. -/
structure Front (s : Sys) (b prev : Ptr) (front l : List Ptr) : Prop where
  seg : Seg s.next (s.next b) front prev
  nodup : (b :: (front ++ prev :: l)).Nodup
  live : ∀ q ∈ b :: (front ++ prev :: l), s.Live q

namespace Front

variable {front : List Ptr}

theorem base_ne (h : Front s b prev front l) : prev ≠ b := fun e =>
  (List.nodup_cons.mp h.nodup).1 (List.mem_append_right _ (e ▸ .head _))

/-- The first object behind the base is kept. -/
theorem first (hl : ∀ q ∈ b :: p :: l, s.Live q) (hn : (b :: p :: l).Nodup) (hp : s.next b = p)
    (fl : Flags) : Front (s.setFlags p fl) b p [] l :=
  ⟨next_setFlags.trans hp, hn, fun q hq => live_setFlags.mpr (hl q hq)⟩

theorem keep (h : Front s b prev front (p :: l)) (hp : s.next prev = p) (fl : Flags) :
    Front (s.setFlags p fl) b p (front ++ [prev]) l where
  seg := by
    rw [next_setFlags]
    exact seg_append.mpr ⟨prev, h.seg.congr fun _ _ => next_setFlags, rfl, next_setFlags.trans hp⟩
  nodup := by simpa using h.nodup
  live q hq := live_setFlags.mpr (h.live q (by simpa using hq))

theorem free (h : Front s b prev front (p :: l)) (hp : Passed s b prev p new s') :
    Front s' b prev (new ++ front) l := by
  have hn : (p :: b :: (front ++ prev :: l)).Nodup := by
    have hm : ((b :: (front ++ [prev])) ++ p :: l).Nodup := by simpa using h.nodup
    simpa using List.nodup_middle.mp hm
  have hold : ∀ q ∈ b :: (front ++ prev :: l), s.Live q ∧ q ≠ p := fun q hq =>
    ⟨h.live q (by simp only [List.mem_cons, List.mem_append] at hq ⊢; tauto),
      fun e => (List.nodup_cons.mp hn).1 (e ▸ hq)⟩
  refine ⟨seg_append.mpr ⟨_, hp.chain h.base_ne, h.seg.congr fun q hq => ?_⟩, ?_, fun q hq => ?_⟩
  · obtain ⟨hl, hqp⟩ := hold q (.tail _ (List.mem_append_left _ hq))
    have hqb : q ≠ b := fun e =>
      (List.nodup_cons.mp h.nodup).1 (e ▸ List.mem_append_left _ hq)
    have hqprev : q ≠ prev := (List.nodup_append.mp (List.nodup_cons.mp h.nodup).2).2.2 q hq prev
      (.head _)
    exact hp.next q hl hqb hqprev hqp
  · rw [List.append_assoc]
    refine List.nodup_middle.mp (List.nodup_append.mpr
      ⟨hp.nodup, (List.nodup_cons.mp hn).2, fun q hq r hr e => ?_⟩)
    exact hp.fresh q hq (e ▸ (hold r hr).1)
  · rw [hp.live]
    have hq : q ∈ new ∨ q ∈ b :: (front ++ prev :: l) := by
      simp only [List.mem_cons, List.mem_append] at hq ⊢
      tauto
    rcases hq with hq | hq
    · refine ⟨fun e => hp.fresh q hq (e ▸ h.live p ?_), .inl hq⟩
      exact .tail _ (List.mem_append_right _ (.tail _ (.head _)))
    · exact ⟨(hold q hq).2, .inr (hold q hq).1⟩

end Front

theorem takeWhile_kept_congr (h : ∀ q ∈ l, s'.flagsOf q = s.flagsOf q) :
    (l.takeWhile fun q => !s'.kept F q) = l.takeWhile fun q => !s.kept F q := by
  induction l with
  | nil => rfl
  | cons p l ih =>
    rw [List.takeWhile_cons, List.takeWhile_cons, kept_congr (h p (.head _)),
      ih fun q hq => h q (.tail _ hq)]

/-- Behind a kept object, what the hook makes stays on the chain. -/
theorem sweepLoop_front {reqs : Ptr → Sys → List Request} {front : List Ptr} (hne : fn ≠ nil)
    (hF : F &&& xObjFlagShared = 0) (hhook : env.FreeMakes fn b reqs)
    (h : Sweepable s b t cell F prev node l) (hprev : s.next prev = node)
    (hfr : Front s b prev front l) (hlen : l.length < n) :
    env.HookStops fn b l s (sweepLoop env F fn n b prev node s) ∨
    ∃ s' ns, sweepLoop env F fn n b prev node s = .ok () s' ∧
      Outcome s b (front ++ prev :: l.filter (s.kept F)) l ns [] s' := by
  induction l generalizing s prev node front n with
  | nil =>
    cases n with
    | zero => omega
    | succ n =>
      obtain rfl : node = nil := h.seg
      exact .inr ⟨s, [], rfl, .done (seg_append.mpr ⟨prev, hfr.seg, rfl, hprev⟩)
        (List.nodup_cons.mp hfr.nodup).2 fun q hq => hfr.live q (.tail _ hq)⟩
  | cons p l ih =>
    cases n with
    | zero => simp at hlen
    | succ n =>
      obtain ⟨rfl, -⟩ := h.tail_seg
      have hp : s.Live node := h.live node (.head _)
      have hb : s.Live b := hfr.live b (.head _)
      have hlen' : l.length < n := by simpa using hlen
      have hnode : node ∉ l := (List.nodup_cons.mp h.nodup).1
      by_cases hk : s.kept F node = true
      · rw [sweepLoop_keep hp hk]
        refine (ih (h.keep hF) next_setFlags (hfr.keep hprev _) hlen').imp
          (.cons typeOf_setFlags) ?_
        rintro ⟨s', ns, hrun, ho⟩
        refine ⟨s', ns, hrun, ?_⟩
        rw [List.filter_cons_of_pos hk, ← filter_kept_setFlags hp hnode]
        rw [List.append_assoc] at ho
        exact ho.setFlags
      · rw [Bool.not_eq_true] at hk
        rcases sweepLoop_free hne hhook h hb hk with hstop |
          ⟨s₁, new, -, hloop, hp₁, hsw, -⟩
        · exact .inl hstop
        have htype : s₁.typeOf b = s.typeOf b :=
          hp₁.typeOf b hb fun e => h.base_notMem (e ▸ .head _)
        have hfilter : l.filter (s₁.kept F) = l.filter (s.kept F) := filter_kept_congr fun q hq =>
          hp₁.flagsOf q (h.live q (.tail _ hq)) fun e => hnode (e ▸ hq)
        rw [hloop]
        refine (ih hsw hp₁.next_prev (hfr.free hp₁) hlen').imp (.cons htype) ?_
        rintro ⟨s', ns, hrun, ho⟩
        refine ⟨s', ns ++ new, hrun, ?_⟩
        rw [List.filter_cons_of_neg (by rw [hk]; exact Bool.false_ne_true), ← hfilter]
        rw [List.append_assoc] at ho
        exact ho.front hp₁

/-- Behind the base, what the hook makes is lost up to the first kept object. -/
theorem sweepLoop_lost {reqs : Ptr → Sys → List Request} (hne : fn ≠ nil)
    (hF : F &&& xObjFlagShared = 0) (hhook : env.FreeMakes fn b reqs)
    (h : Sweepable s b t cell F b node l) (hprev : s.next b = node) (hlen : l.length < n) :
    env.HookStops fn b l s (sweepLoop env F fn n b b node s) ∨
    ∃ s' ns lost, sweepLoop env F fn n b b node s = .ok () s' ∧
      Outcome s b (l.filter (s.kept F)) l ns lost s' ∧
      (lost = [] ↔ env.Barren fn b reqs (l.takeWhile fun p => !s.kept F p) s) := by
  induction l generalizing s node n with
  | nil =>
    cases n with
    | zero => omega
    | succ n =>
      obtain rfl : node = nil := h.seg
      exact .inr ⟨s, [], [], rfl, .done hprev .nil fun _ hq => absurd hq List.not_mem_nil,
        iff_of_true rfl trivial⟩
  | cons p l ih =>
    cases n with
    | zero => simp at hlen
    | succ n =>
      obtain ⟨rfl, -⟩ := h.tail_seg
      have hp : s.Live node := h.live node (.head _)
      have hlen' : l.length < n := by simpa using hlen
      have hnode : node ∉ l := (List.nodup_cons.mp h.nodup).1
      have hlive : ∀ q ∈ b :: node :: l, s.Live q := List.forall_mem_cons.mpr ⟨h.prev_live, h.live⟩
      have hn : (b :: node :: l).Nodup := List.nodup_cons.mpr ⟨h.base_notMem, h.nodup⟩
      by_cases hk : s.kept F node = true
      · rw [sweepLoop_keep hp hk]
        refine (sweepLoop_front hne hF hhook (h.keep hF) next_setFlags
          (.first hlive hn hprev _) hlen').imp (.cons typeOf_setFlags) ?_
        rintro ⟨s', ns, hrun, ho⟩
        refine ⟨s', ns, [], hrun, ?_, iff_of_true rfl ?_⟩
        · rw [List.filter_cons_of_pos hk, ← filter_kept_setFlags hp hnode]
          exact ho.setFlags
        · rw [List.takeWhile_cons_of_neg (by simp [hk])]
          trivial
      · rw [Bool.not_eq_true] at hk
        rcases sweepLoop_free hne hhook h h.prev_live hk with hstop |
          ⟨s₁, new, hdies, hloop, hp₁, hsw, -, hnew⟩
        · exact .inl hstop
        have htype : s₁.typeOf b = s.typeOf b :=
          hp₁.typeOf b h.prev_live fun e => h.base_notMem (e ▸ .head _)
        have hflags : ∀ q ∈ l, s₁.flagsOf q = s.flagsOf q := fun q hq =>
          hp₁.flagsOf q (h.live q (.tail _ hq)) fun e => hnode (e ▸ hq)
        rw [hloop]
        refine (ih hsw hp₁.next_prev hlen').imp (.cons htype) ?_
        rintro ⟨s', ns, lost, hrun, ho, hlost⟩
        refine ⟨s', ns, lost ++ new, hrun, ?_, ?_⟩
        · rw [List.filter_cons_of_neg (by rw [hk]; exact Bool.false_ne_true),
            ← filter_kept_congr hflags]
          exact ho.back hp₁ h.live fun q hq => (List.mem_filter.mp hq).1
        · rw [List.takeWhile_cons_of_pos (by rw [hk]; rfl), ← takeWhile_kept_congr hflags,
            List.append_eq_nil_iff, hlost, hnew, and_comm]
          refine and_congr_right fun _ => ⟨fun hb s₂ hs₂ => ?_, fun hb => hb s₁ hdies⟩
          cases hdies.symm.trans hs₂
          exact hb

/-- A sweep behind the base, with a hook that allocates. -/
theorem xHeapSweep_hook {reqs : Ptr → Sys → List Request} (hF : F &&& xObjFlagShared = 0)
    (hfn : s.hookWord .heapFree b = some fn) (hne : fn ≠ nil) (hhook : env.FreeMakes fn b reqs)
    (h : Sweepable s b t cell F b (s.next b) l) :
    env.HookStops fn b l s (xHeapSweep env b (s.next b) F s) ∨
    ∃ s' ns lost, xHeapSweep env b (s.next b) F s = .ok b s' ∧
      Outcome s b (l.filter (s.kept F)) l ns lost s' ∧
      (lost = [] ↔ env.Barren fn b reqs (l.takeWhile fun p => !s.kept F p) s) := by
  rw [xHeapSweep_eq hfn h.prev_live, if_pos rfl]
  rcases sweepLoop_lost hne hF hhook h rfl (length_lt_passes h.nodup h.live) with
    ⟨p, hp, s₁, e, s₂, hl, ht, he, hstop⟩ | ⟨s', ns, lost, hrun, ho, hlost⟩
  · exact .inl ⟨p, hp, s₁, e, s₂, hl, ht, he, Prog.bind_of_error hstop⟩
  · exact .inr ⟨s', ns, lost, Prog.bind_of_ok hrun, ho, hlost⟩

/-- All that is on the chain. -/
theorem Outcome.not_lost {kept ns lost : List Ptr} (h : Outcome s b kept l ns lost s') :
    (∃ L, Seg s'.next (s'.next b) L nil ∧ nil ∉ L ∧ L.Nodup ∧
      ∀ q, q ∈ ns ++ lost ∨ q ∈ kept → q ∈ L) ↔ lost = [] := by
  have hnil : nil ∉ ns ++ kept := fun hq => (h.live nil hq).ne_nil rfl
  constructor
  · rintro ⟨L, hseg, hL, -, hall⟩
    obtain rfl := hseg.unique h.chain hL hnil
    refine List.eq_nil_iff_forall_not_mem.mpr fun q hq => h.lost q hq ?_
    exact hall q (.inl (List.mem_append_right _ hq))
  · rintro rfl
    refine ⟨_, h.chain, hnil, h.nodup, fun q hq => ?_⟩
    rw [List.append_nil] at hq
    exact List.mem_append.mpr hq

/-- After a sweep with a free hook that allocates, the chain holds everything that the hook made and
all retained objects exactly if the hook makes nothing before the first retained object. -/
theorem hook_allocs_iff {reqs : Ptr → Sys → List Request} (hF : F &&& xObjFlagShared = 0)
    (hfn : s.hookWord .heapFree b = some fn) (hne : fn ≠ nil) (hhook : env.FreeMakes fn b reqs)
    (h : Sweepable s b t cell F b (s.next b) l) :
    env.HookStops fn b l s (xHeapSweep env b (s.next b) F s) ∨
    ∃ s' tr, xHeapSweep env b (s.next b) F s = .ok b s' ∧ s'.trace = tr ++ s.trace ∧
      ((∃ L, Seg s'.next (s'.next b) L nil ∧ nil ∉ L ∧ L.Nodup ∧
        ∀ q, q ∈ madeIn tr ∨ q ∈ l.filter (s.kept F) → q ∈ L) ↔
      env.Barren fn b reqs (l.takeWhile fun p => !s.kept F p) s) := by
  rcases xHeapSweep_hook hF hfn hne hhook h with hstop | ⟨s', ns, lost, hrun, ho, hlost⟩
  · exact .inl hstop
  obtain ⟨tr, htr, hm⟩ := ho.trace
  refine .inr ⟨s', tr, hrun, htr, ?_⟩
  rw [hm, ho.not_lost, hlost]

end Hooks

/-! ## A hook that makes one object -/

/-- A hook that makes one object whenever it is called. -/
def makingHook : Env :=
  { Env.plain fun _ => true with
    freeFn := fun _ b _ => hookAllocs (.plain fun _ => true) b [⟨nil, xObjFlagNone, 1⟩] }

theorem makingHook_makes {fn : Word} {b : Ptr} :
    makingHook.FreeMakes fn b fun _ _ => [⟨nil, xObjFlagNone, 1⟩] := fun _ _ => rfl

/-- On a base that is not typed the hook returns. -/
theorem makingHook_returns {α : Type} {fn : Word} {s : Sys} {b : Ptr} {l : List Ptr}
    {r : EStateM.Result Stop Sys α} (ht : s.typeOf b = nil) :
    ¬ makingHook.HookStops fn b l s r := by
  rintro ⟨p, -, s₁, e, s₂, hl, ht₁, he, -⟩
  change (xObjAlloc (.plain fun _ => true) b nil xObjFlagNone 1 >>= fun _ => pure ()) s₁ = _ at he
  rcases xObjAlloc_bare (.plain fun _ => true) nil xObjFlagNone (.inr ⟨hl, ht₁.trans ht⟩)
    (show 1 ≤ 2 ^ 60 by decide) with ⟨-, hrun⟩ | ⟨q, a, data, s', -, hrun, -⟩ <;>
  · rw [Prog.bind_of_ok hrun] at he
    cases he

/-- The hook is not refused. -/
theorem makingHook_grants {fn : Word} {s : Sys} {b p : Ptr} {l : List Ptr} :
    ¬ makingHook.Barren fn b (fun _ _ => [⟨nil, xObjFlagNone, 1⟩]) (p :: l) s := fun h => by
  have hf : true = false := h.1 s.requests le_rfl (by simp)
  cases hf

/-- A configuration with a free hook. -/
def XBaseT.hooked : XBaseT := { XBaseT.standard with heapFree := 8 }

/-- A base made with this configuration that is not typed, and what was made on it. -/
structure HookedBase (s : Sys) (b : Ptr) (t : Cells Word) (l : List Ptr) : Prop where
  placed : PlacedBase s b t (Kept.ofCfg .hooked).cell (toSizeT (Kept.ofCfg .hooked).extra) [8]
  chain : RootChain s b l
  typeOf : s.typeOf b = nil
  atom : s.unit 8 0 = some 41
  own : ∀ q, s.flagsOf q &&& xObjFlagOwn = 0

namespace HookedBase

variable {s : Sys} {b : Ptr} {t : Cells Word} {l : List Ptr}

theorem hookWord (h : HookedBase s b t l) : s.hookWord .heapFree b = some 41 := by
  rw [Sys.hookWord, if_pos h.placed.tree.isSet, h.placed.tree.fieldObj (f := .heapFree) rfl,
    Option.bind_some]
  exact (if_neg (show (8 : Ptr) ≠ nil by decide)).trans h.atom

theorem sweepable {F : Flags} (h : HookedBase s b t l) :
    Sweepable s b t (Kept.ofCfg .hooked).cell F b (s.next b) l :=
  h.chain.sweepable h.placed (.of_flags h.own)

/-- A further object. -/
theorem make (h : HookedBase s b t l) (env : Env) (hg : ∀ n, env.malloc.grants n = true)
    (fl : Flags) (hM : fl &&& xObjFlagMeta = 0) (hO : fl &&& xObjFlagOwn = 0) :
    ∃ p s', xObjMake env b xTypeAtomObj fl [41] s = .ok p s' ∧ HookedBase s' b t (p :: l) ∧
      s'.flagsOf p = fl := by
  have hb : s.Bare b := .inr ⟨h.placed.base_live, h.typeOf⟩
  rcases xObjMake_bare env xTypeAtomObj fl [41] hb (by simp) with ⟨hno, -⟩ | ⟨p, a, s', -, hrun, hm⟩
  · rw [hg] at hno
    cases hno
  have hflags : s'.flagsOf p = fl := by
    rw [hm.flagsOf_new, if_neg (by rw [extraOf_of_not_full hb.not_full]; decide)]
  refine ⟨p, s', hrun, ⟨h.placed.made (fun _ => hM) hm,
    h.chain.made (fun q hq => h.placed.mem_live ((h.chain.mem q).mpr hq)) hm, ?_, ?_, fun q => ?_⟩,
    hflags⟩
  · rw [hm.typeOf_old b fun e => hm.new (e ▸ h.placed.base_live), h.typeOf]
  · rw [hm.unit_old 8 0 fun e => hm.new (e ▸ live_of_unit h.atom),
      if_neg fun hf => hb.not_full hf.1, h.atom]
  · by_cases hq : q = p
    · rw [hq, hflags, hO]
    · rw [hm.flagsOf_old q hq, h.own q]

end HookedBase

/-- Such a base exists. -/
theorem exists_hooked (env : Env) (hg : ∀ n, env.malloc.grants n = true) :
    ∃ (c : Client) (t : Cells Word) (l : List Ptr), Start env .hooked c ∧
      HookedBase c.sys c.root t l := by
  let s : Sys := Sys.empty.place 8 ⟨nil, xTypeAtomObj, xObjFlagNone, [], [41]⟩
  have hpos : nil < 8 := by decide
  have hu : s.unit 8 0 = some 41 := by rw [unit_place hpos, if_pos rfl]; rfl
  have hlive : ∀ q, s.Live q ↔ q = 8 := fun q => by
    rw [live_place hpos]
    exact or_iff_left Finmap.notMem_empty
  obtain ⟨b, a, new, t₀, s₁, hrun, hm⟩ := xBaseMake_bare env .hooked (s := s) (b := nil)
    (.inl rfl) (hg _)
  have hs : Start env .hooked ⟨s₁, b, [b], fun _ => [], [8]⟩ :=
    ⟨⟨s, fun q => (hlive q).trans List.mem_singleton.symm, trace_place, fun n _ _ => hg n, .inl rfl,
      .inr ⟨.head _, 41, hu⟩, hrun⟩, rfl, rfl⟩
  obtain ⟨t, l, hp, hc, -⟩ := hs.placedBase XBaseT.hooked.cell_relaxes rfl rfl rfl
  refine ⟨_, t, l, hs, hp, hc, hs.typeOf_root, ?_, fun q => ?_⟩
  · rw [hm.unit_old (live_of_unit hu), if_neg fun h => not_full_nil h.1, hu]
  · by_cases hq : s₁.Live q
    · by_cases hq8 : q = 8
      · rw [hm.flagsOf_old ((hlive q).mpr hq8), hq8, flagsOf_place hpos, if_pos rfl]
        rfl
      · rcases hs.flags hq (fun hm => hq8 (List.mem_singleton.mp hm)) with e | e <;> rw [e] <;> rfl
    · simp [flagsOf_not_live hq]

/-- An object dies behind a shared one, and what the hook makes for it stays on the chain. -/
theorem hook_allocs_behind : ∃ (c : Client) (p q b : Ptr) (s₁ s s' : Sys) (tr : List Event),
    Start makingHook .hooked c ∧ c.root = b ∧
    xObjMake makingHook b xTypeAtomObj xObjFlagNone [41] c.sys = .ok p s₁ ∧
    xObjMake makingHook b xTypeAtomObj xObjFlagShared [41] s₁ = .ok q s ∧
    xHeapSweep makingHook b (s.next b) xObjFlagMark s = .ok b s' ∧ s'.trace = tr ++ s.trace ∧
    ∃ L, Seg s'.next (s'.next b) L nil ∧ nil ∉ L ∧ L.Nodup ∧ ∀ x ∈ madeIn tr, x ∈ L := by
  obtain ⟨c, t, l, hs, h₀⟩ := exists_hooked makingHook fun _ => rfl
  obtain ⟨p, s₁, hrun₁, h₁, -⟩ := h₀.make makingHook (fun _ => rfl) xObjFlagNone rfl rfl
  obtain ⟨q, s, hrun₂, h, hq⟩ := h₁.make makingHook (fun _ => rfl) xObjFlagShared rfl rfl
  have hk : s.kept xObjFlagMark q = true := kept_of_shared (by rw [hq]; decide)
  rcases hook_allocs_iff (F := xObjFlagMark) (by decide) h.hookWord (by decide) makingHook_makes
    h.sweepable with hstop | ⟨s', tr, hrun, htr, hiff⟩
  · exact absurd hstop (makingHook_returns h.typeOf)
  rw [List.takeWhile_cons_of_neg (by simp [hk])] at hiff
  obtain ⟨L, hseg, hn, hL, hall⟩ := hiff.mpr trivial
  exact ⟨c, p, q, c.root, s₁, s, s', tr, hs, rfl, hrun₁, hrun₂, hrun, htr, L, hseg, hn, hL,
    fun x hx => hall x (.inl hx)⟩

/-- An object dies as the first one behind the base, and what the hook makes for it is lost. -/
theorem hook_allocs_fails : ∃ (c : Client) (p b : Ptr) (l : List Ptr) (s s' : Sys)
    (tr : List Event), Start makingHook .hooked c ∧ c.root = b ∧
    xObjMake makingHook b xTypeAtomObj xObjFlagNone [41] c.sys = .ok p s ∧
    s.hookWord .heapFree b = some 41 ∧
    makingHook.FreeMakes 41 b (fun _ _ => [⟨nil, xObjFlagNone, 1⟩]) ∧
    Seg s.next (s.next b) l nil ∧ l.Nodup ∧
    xHeapSweep makingHook b (s.next b) xObjFlagMark s = .ok b s' ∧ s'.trace = tr ++ s.trace ∧
    ¬ ∃ L, Seg s'.next (s'.next b) L nil ∧ nil ∉ L ∧ L.Nodup ∧
      ∀ q, q ∈ madeIn tr ∨ q ∈ l.filter (s.kept xObjFlagMark) → q ∈ L := by
  obtain ⟨c, t, l, hs, h₀⟩ := exists_hooked makingHook fun _ => rfl
  obtain ⟨p, s, hrun₁, h, hp⟩ := h₀.make makingHook (fun _ => rfl) xObjFlagNone rfl rfl
  have hk : s.kept xObjFlagMark p = false := by
    rw [Sys.kept, hp]
    rfl
  have hsw : Sweepable s c.root t _ xObjFlagMark c.root (s.next c.root) (p :: l) := h.sweepable
  rcases xHeapSweep_hook (by decide) h.hookWord (by decide) makingHook_makes hsw with
    hstop | ⟨s', ns, lost, hrun, ho, hlost⟩
  · exact absurd hstop (makingHook_returns h.typeOf)
  rw [List.takeWhile_cons_of_pos (by rw [hk]; rfl)] at hlost
  obtain ⟨tr, htr, hm⟩ := ho.trace
  refine ⟨c, p, c.root, p :: l, s, s', tr, hs, rfl, hrun₁, h.hookWord, makingHook_makes, hsw.seg,
    hsw.nodup, hrun, htr, ?_⟩
  rw [hm, ho.not_lost, hlost]
  exact makingHook_grants

end XExpr
