import XExpr.Heap.Placed

/-!
# The block of an object

`x_obj_free` computes the address of a block anew from what the base that it is handed says then. An
object that was made on a base with extra units lies behind them; how many there are it does not say
itself.

* `BlocksMatch`: every object was given back at the address at which its block was obtained.
* `Sys.Offset`: `x_obj_free` steps back over as many units as an object has in front of it.
* `Sys.Tracked`: the blocks of all objects, whatever base they were made on.
* `Walks`: a memory in which a walk can free on the base `b`, or on none.
* `WalkAt.run`, `WalkAt.wrong`: if all that the walk may come to free are sized, it gives everything
  back where it was obtained. If it comes to one that is not, it does not.
-/

namespace XExpr

open Sys Chain Relation

/-! ## The log -/

/-- The block in which the latest object at `p` was made. -/
def blockOf : List Event → Ptr → Option Ptr
  | [], _ => none
  | .objAlloc q a :: tr, p => if q = p then some a else blockOf tr p
  | .objFree _ _ :: tr, p | .freeHook _ :: tr, p | .errorHook _ :: tr, p | .error _ _ :: tr, p =>
    blockOf tr p

/-- Every object was given back at the address of the block in which it was made. -/
def BlocksMatch : List Event → Prop
  | [] => True
  | .objFree p a :: tr => blockOf tr p = some a ∧ BlocksMatch tr
  | .objAlloc _ _ :: tr | .freeHook _ :: tr | .errorHook _ :: tr | .error _ _ :: tr =>
    BlocksMatch tr

section Log

variable {s s' : Sys} {p q : Ptr} {ev : Event} {tr : List Event} {l : List Ptr} {fn : Word}

theorem BlocksMatch.tail (h : BlocksMatch (ev :: tr)) : BlocksMatch tr := by
  cases ev with
  | objFree p a => exact h.2
  | _ => exact h

/-- A wrong address stays in the log. -/
theorem logged_mismatch : Logged fun s => ¬ BlocksMatch s.trace :=
  ⟨fun _ _ h hi => by rwa [h], fun _ _ hi h => hi h.tail⟩

theorem blockOf_map_alloc : blockOf (l.map (fun p => .objAlloc p p) ++ tr) p =
    if p ∈ l then some p else blockOf tr p := by
  induction l with
  | nil => rfl
  | cons q l ih =>
    show (if q = p then some q else blockOf (l.map (fun p => .objAlloc p p) ++ tr) p) = _
    rw [ih]
    by_cases hq : q = p
    · rw [if_pos hq, if_pos (hq ▸ .head _), hq]
    · simp only [if_neg hq, List.mem_cons, Ne.symm hq, false_or]

theorem blocksMatch_map_alloc :
    BlocksMatch (l.map (fun p => .objAlloc p p) ++ tr) ↔ BlocksMatch tr := by
  induction l with
  | nil => exact Iff.rfl
  | cons q l ih => exact ih

theorem blockOf_hooked : blockOf (s.hooked fn p).trace q = blockOf s.trace q := by
  unfold hooked
  split <;> rfl

theorem blocksMatch_hooked : BlocksMatch (s.hooked fn p).trace ↔ BlocksMatch s.trace := by
  unfold hooked
  split <;> exact Iff.rfl

end Log

/-! ## The blocks of the objects -/

/-- If `q` is flagged, it lies behind `e` extra units, over which `x_obj_free` steps back. -/
def Sys.Offset (s : Sys) (e : Nat) (q : Ptr) : Prop :=
  s.flagsOf q &&& xObjFlagMeta ≠ 0 → (s.extrasOf q).length = e

/-- The address at which the extra units of `q` start. -/
def Sys.blockAddr (s : Sys) (q : Ptr) : Ptr := q - (sizeofObj * (s.extrasOf q).length : Nat)

/-- The objects are those that were allocated and not freed, and `locals`. Each of the former lies
with its extra units in the block in which it was made, and is flagged if there are any. -/
structure Sys.Tracked (s : Sys) (locals : List Ptr) : Prop where
  live : ∀ q, s.Live q ↔ q ∈ outstanding s.trace ∨ q ∈ locals
  off : ∀ q ∈ locals, q ∉ outstanding s.trace
  known : ∀ q ∈ outstanding s.trace, blockOf s.trace q = some (s.blockAddr q)
  placed : ∀ q ∈ outstanding s.trace,
    s.blockAddr q ≠ nil ∧ s.block (s.blockAddr q) = some q
  bare : ∀ q ∈ outstanding s.trace,
    s.flagsOf q &&& xObjFlagMeta = 0 → (s.extrasOf q).length = 0

section Tracked

variable {env : Env} {s s' : Sys} {b p q a prev : Ptr} {e : Nat} {locals : List Ptr} {fn : Word}
  {F : Flags}

theorem blockAddr_congr (h : s'.extrasOf q = s.extrasOf q) : s'.blockAddr q = s.blockAddr q := by
  simp only [blockAddr, h]

theorem Sys.Offset.congr (h : s.Offset e q) (hf : s'.flagsOf q = s.flagsOf q)
    (hx : s'.extrasOf q = s.extrasOf q) : s'.Offset e q := by
  rw [Offset, hf, hx]
  exact h

namespace Sys.Tracked

theorem mem_live (h : s.Tracked locals) (hq : q ∈ outstanding s.trace) : s.Live q :=
  (h.live q).mpr (.inl hq)

theorem mem_of_live (h : s.Tracked locals) (hq : s.Live q) (hl : q ∉ locals) :
    q ∈ outstanding s.trace := ((h.live q).mp hq).resolve_right hl

/-- The two addresses are the same if and only if the numbers of units are. -/
theorem freeAddr_eq_iff (h : s.Tracked locals) (hq : q ∈ outstanding s.trace) :
    s.freeAddr e q = s.blockAddr q ↔ s.Offset e q := by
  unfold freeAddr blockAddr Offset
  by_cases hm : s.flagsOf q &&& xObjFlagMeta = 0
  · rw [if_neg (not_not.mpr hm), h.bare q hq hm]
    exact iff_of_true (sub_zero q).symm fun hno => absurd hm hno
  · rw [if_pos hm]
    have hsub : ∀ (x : Int) (m n : Nat), x - (8 * m : Nat) = x - (8 * n : Nat) ↔ n = m := by omega
    exact (hsub q e _).trans ⟨fun he _ => he, fun he => he hm⟩

/-- A free is logged with a wrong address. -/
theorem mismatch (h : s.Tracked locals) (hq : q ∈ outstanding s.trace)
    (htrace : s'.trace = s.trace) (hx : ¬ s.Offset e q) :
    ¬ BlocksMatch (s'.log (.objFree q (s.freeAddr e q))).trace := fun hm => hx (by
  have hb : blockOf s'.trace q = some (s.freeAddr e q) := hm.1
  rw [htrace, h.known q hq] at hb
  exact (h.freeAddr_eq_iff hq).mp (Option.some.inj hb).symm)

/-- A step that makes and frees no object. -/
theorem still (h : s.Tracked locals) (hlive : ∀ q, s'.Live q ↔ s.Live q)
    (hout : outstanding s'.trace = outstanding s.trace)
    (hblockOf : ∀ q, blockOf s'.trace q = blockOf s.trace q)
    (hmeta : ∀ q, s'.flagsOf q &&& xObjFlagMeta = s.flagsOf q &&& xObjFlagMeta)
    (hextras : ∀ q, s'.extrasOf q = s.extrasOf q)
    (hblock : ∀ q ∈ outstanding s.trace, ∀ a, s.block a = some q → s'.block a = some q) :
    s'.Tracked locals where
  live q := by rw [hlive, hout, h.live]
  off q hq := by
    rw [hout]
    exact h.off q hq
  known q hq := by
    rw [hout] at hq
    rw [hblockOf, blockAddr_congr (hextras q)]
    exact h.known q hq
  placed q hq := by
    rw [hout] at hq
    rw [blockAddr_congr (hextras q)]
    exact ⟨(h.placed q hq).1, hblock q hq _ (h.placed q hq).2⟩
  bare q hq hm := by
    rw [hout] at hq
    rw [hmeta] at hm
    rw [hextras]
    exact h.bare q hq hm

theorem remarked (h : s.Tracked locals) (hr : s.Remarked s') : s'.Tracked locals :=
  h.still (fun _ => hr.same.live) (by rw [hr.trace]) (fun _ => by rw [hr.trace])
    (fun _ => hr.flags_and (by decide)) (fun _ => hr.same.extrasOf)
    fun q _ a ha => by rwa [block, hr.blocks]

/-- The memory when the walk is about to free `p`. -/
theorem unlinked (h : s.Tracked locals) : (s.unlinked fn prev p).Tracked locals := by
  have htrace : (s.unlinked fn prev p).trace = (s.hooked fn p).trace := trace_modify
  refine h.still (fun _ => live_setHeap.trans live_hooked) outstanding_unlinked
    (fun q => by rw [htrace, blockOf_hooked]) (fun q => by rw [flagsOf_unlinked])
    (fun q => extrasOf_setHeap.trans extrasOf_hooked) fun q _ a ha => ?_
  rwa [Sys.unlinked, block_setHeap, block_hooked]

/-- The flags of an object are cleared. -/
theorem clear (h : s.Tracked locals) (hM : F &&& xObjFlagMeta = 0) (hp : s.Live p) :
    (s.setFlags p (s.flagsOf p &&& ~~~F)).Tracked locals := by
  have htrace : (s.setFlags p (s.flagsOf p &&& ~~~F)).trace = s.trace := trace_modify
  refine h.still (fun _ => live_setFlags) (by rw [htrace]) (fun _ => by rw [htrace])
    (fun _ => flags_and_clear hM hp) (fun _ => extrasOf_setFlags)
    fun _ _ _ ha => block_setFlags.trans ha

/-- A new object, on whatever base. -/
theorem made {ty : Ptr} {fl : Flags} {data : List Word} (h : s.Tracked locals)
    (hm : Made s b ty fl data p a s') : s'.Tracked locals := by
  have hout : ∀ q, q ∈ outstanding s'.trace ↔ q = p ∨ q ∈ outstanding s.trace := fun q => by
    rw [hm.trace, outstanding, List.mem_cons]
  have hold : ∀ q ∈ outstanding s.trace, q ≠ p := fun q hq e => hm.new (e ▸ h.mem_live hq)
  have haddr : s'.blockAddr p = a := by
    rw [blockAddr, hm.extrasOf_new, hm.addr]
    exact add_sub_cancel_right a _
  constructor
  case live => intro q; rw [hm.live, h.live, hout, or_assoc]
  case off =>
    intro q hq
    rw [hout, not_or]
    exact ⟨fun e => hm.new (e ▸ (h.live q).mpr (.inr hq)), h.off q hq⟩
  case known =>
    intro q hq
    rw [hm.trace]
    show (if p = q then some a else blockOf s.trace q) = _
    rcases (hout q).mp hq with rfl | hq
    · rw [if_pos rfl, haddr]
    · rw [if_neg (hold q hq).symm, blockAddr_congr (hm.extrasOf_old q (hold q hq))]
      exact h.known q hq
  case placed =>
    intro q hq
    rcases (hout q).mp hq with rfl | hq
    · rw [haddr, hm.block, if_pos rfl]
      exact ⟨hm.block_pos, rfl⟩
    · obtain ⟨h₁, h₂⟩ := h.placed q hq
      rw [blockAddr_congr (hm.extrasOf_old q (hold q hq)), hm.block, if_neg, h₂]
      · exact ⟨h₁, rfl⟩
      · rintro e
        rw [e, hm.block_new] at h₂
        cases h₂
  case bare =>
    intro q hq hf
    rcases (hout q).mp hq with rfl | hq
    · rw [hm.extrasOf_new]
      by_contra hx
      rw [hm.flagsOf_new, if_pos (Nat.pos_of_ne_zero hx), Flags.or_and_self] at hf
      exact absurd hf (by decide)
    · rw [hm.flagsOf_old q (hold q hq)] at hf
      rw [hm.extrasOf_old q (hold q hq)]
      exact h.bare q hq hf

/-- An object is given back where its block starts. -/
theorem freed (h : s.Tracked locals) (hp : p ∈ outstanding s.trace)
    (hown : s.flagsOf p &&& xObjFlagOwn ≠ 0 →
      ∃ w, s.unit p 0 = some w ∧ (w = nil ∨ s.block w = some nil))
    (hs : Freed s b p (s.blockAddr p) s') : s'.Tracked locals := by
  have hout := outstanding_freed hs
  constructor
  case live =>
    intro q
    have hloc : q ∈ locals → q ≠ p := fun hq e => h.off q hq (e ▸ hp)
    rw [hs.live, h.live, hout]
    tauto
  case off => exact fun q hq hm => h.off q hq ((hout q).mp hm).2
  case known =>
    intro q hq
    obtain ⟨hqp, hq⟩ := (hout q).mp hq
    rw [hs.trace, blockAddr_congr (hs.extrasOf q hqp)]
    exact h.known q hq
  case placed =>
    intro q hq
    obtain ⟨hqp, hq⟩ := (hout q).mp hq
    obtain ⟨h₁, h₂⟩ := h.placed q hq
    rw [blockAddr_congr (hs.extrasOf q hqp)]
    exact ⟨h₁, hs.block_old (h.placed p hp).2 hown (h.mem_live hq) hqp h₂⟩
  case bare =>
    intro q hq hf
    obtain ⟨hqp, hq⟩ := (hout q).mp hq
    rw [hs.flagsOf q hqp] at hf
    rw [hs.extrasOf q hqp]
    exact h.bare q hq hf

end Sys.Tracked

end Tracked

/-! ## Chains -/

/-- `q` is on the chain behind `p`. -/
def Sys.Behind (s : Sys) (p q : Ptr) : Prop := TransGen (fun x y => s.next x = y) p q

/-- An object that a sweep with `F` may free. It is not shared, and it is not kept, or the chain
leads back to it when it has lost its mark. -/
def Sys.Doomed (s : Sys) (F : Flags) (q : Ptr) : Prop :=
  s.Live q ∧ s.flagsOf q &&& xObjFlagShared = 0 ∧ (s.kept F q = false ∨ s.Behind q q)

/-- Nothing is on a chain in `s'` that was not on it in `s`. -/
def Sys.Shortened (s s' : Sys) : Prop := ∀ p q, q ≠ nil → s'.Behind p q → s.Behind p q

/-- Nothing was made in between, and what is left lies where it lay. -/
def Sys.Remains (s s' : Sys) : Prop :=
  ∀ q ∈ outstanding s'.trace, q ∈ outstanding s.trace ∧ ∀ e, s.Offset e q → s'.Offset e q

/-- A memory in which a walk can free on the base `b`, or on none. -/
structure Walks (s : Sys) (b : Ptr) (t : Cells Word) (cell : Field → Layout Word)
    (locals : List Ptr) : Prop where
  base : Accounted s b t cell
  tracked : s.Tracked locals
  own : OwnApart s s.collectable

/-- A walk with `F` that has come to `node`. Behind it there is neither the base nor an object of
the embedder, and all that the walk may free is where `x_obj_free` looks for it. -/
structure WalkAt (s : Sys) (b : Ptr) (t : Cells Word) (cell : Field → Layout Word)
    (locals : List Ptr) (F : Flags) (prev node : Ptr) : Prop where
  walks : Walks s b t cell locals
  link : s.Live prev → s.next prev = node
  off : ∀ q, q = node ∨ s.Behind node q → s.Live q → q ∉ b :: locals
  offset : ∀ q, q = node ∨ s.Behind node q → s.Doomed F q → s.Offset (s.extraOf b) q

/-- What a walk leaves. -/
structure Walked (s : Sys) (b : Ptr) (t : Cells Word) (cell : Field → Layout Word)
    (locals : List Ptr) (s' : Sys) : Prop where
  walks : Walks s' b t cell locals
  extra : s'.extraOf b = s.extraOf b
  full : s'.Full b ↔ s.Full b
  shortened : s.Shortened s'
  remains : s.Remains s'
  matched : BlocksMatch s.trace → BlocksMatch s'.trace

section Walk

variable {env : Env} {store : Ptr → Ptr → M Unit} {s s' : Sys} {b p q a prev node : Ptr}
  {t : Cells Word} {cell : Field → Layout Word} {e n : Nat} {locals l : List Ptr} {F : Flags}
  {fn w : Word}

theorem Sys.Shortened.refl (s : Sys) : s.Shortened s := fun _ _ _ h => h

theorem Sys.Shortened.trans {s₁ : Sys} (h : s.Shortened s₁) (h' : s₁.Shortened s') :
    s.Shortened s' := fun p q hq hb => h p q hq (h' p q hq hb)

/-- Each link stays, goes, or leads past one object. -/
theorem Sys.Shortened.of_skip (hn : ∀ y, s'.next y = nil ∨ s'.next y = s.next y ∨
    s'.next y = s.next (s.next y)) : s.Shortened s' := fun p q hq hb => by
  refine transGen_of_skip next_nil (fun y => ?_) hq hb
  rcases hn y with e | e | e
  · exact .inl e
  · exact .inr (.single e.symm)
  · exact .inr (.tail (b := s.next y) (.single rfl) e.symm)

theorem Sys.Behind.congr (h : s'.Behind p q) (hn : ∀ y, s'.next y = s.next y) : s.Behind p q :=
  TransGen.mono (fun x _ e => (hn x).symm.trans e) _ _ h

theorem Sys.Remains.refl (s : Sys) : s.Remains s := fun _ h => ⟨h, fun _ => id⟩

theorem Sys.Remains.trans {s₁ : Sys} (h : s.Remains s₁) (h' : s₁.Remains s') : s.Remains s' :=
  fun q hq => ⟨(h q (h' q hq).1).1, fun e hx => (h' q hq).2 e ((h q (h' q hq).1).2 e hx)⟩

/-- A step on links, units or marks. -/
theorem Sys.Remains.of_still (hout : outstanding s'.trace = outstanding s.trace)
    (hf : ∀ q, s'.flagsOf q &&& xObjFlagMeta = s.flagsOf q &&& xObjFlagMeta)
    (hx : ∀ q, s'.extrasOf q = s.extrasOf q) : s.Remains s' := fun q hq =>
  ⟨hout ▸ hq, fun e h => by
    rw [Offset, hf, hx]
    exact h⟩

namespace Walks

/-- An object is kept. -/
theorem clear (h : Walks s b t cell locals) (hp : s.Live p) (hF : F &&& xObjFlagShared = 0)
    (hM : F &&& xObjFlagMeta = 0) :
    Walked s b t cell locals (s.setFlags p (s.flagsOf p &&& ~~~F)) := by
  obtain ⟨hbase, hfull, hextra, -⟩ := h.base.clear hp hF
  have htrace : (s.setFlags p (s.flagsOf p &&& ~~~F)).trace = s.trace := trace_modify
  refine ⟨⟨hbase, h.tracked.clear hM hp, ownApart_clear h.own hF hp⟩, hextra, hfull,
    fun p q _ hb => hb.congr fun _ => next_setFlags,
    .of_still (by rw [htrace]) (fun _ => flags_and_clear hM hp) fun _ => extrasOf_setFlags,
    fun hm => by rwa [htrace]⟩

/-- An object is about to be freed. -/
theorem unlinked (fn : Word) (prev p : Ptr) (h : Walks s b t cell locals) :
    Walks (s.unlinked fn prev p) b t cell locals ∧
    (s.unlinked fn prev p).extraOf b = s.extraOf b ∧
    ((s.unlinked fn prev p).Full b ↔ s.Full b) := by
  have hunit : (s.unlinked fn prev p).unit = s.unit := by
    funext q i
    rw [Sys.unlinked, unit_setHeap, unit_hooked]
  obtain ⟨hbase, hfull, hextra, -⟩ := h.base.step (s.unlinked fn prev p)
    (fun hl => live_setHeap.mpr (live_hooked.mpr hl)) (typeOf_setHeap.trans typeOf_hooked)
    (fun _ => by rw [hunit]) (fun hf => (h.base.tree hf).congr fun _ _ _ _ hu => by rwa [hunit])
    fun hf q hq => by
      rw [flagsOf_unlinked]
      exact h.base.shared hf q hq
  exact ⟨⟨hbase, h.tracked.unlinked, ownApart_unlinked h.own⟩, hextra, hfull⟩

/-- The count is in no object that a walk may free. -/
theorem count_ne (h : Walks s b t cell locals) (hp : p ∈ s.collectable) (hf : s.Full b) :
    s.fieldObj b .allocCount ≠ some p :=
  h.base.count_ne (not_kept_zero.mpr (mem_collectable.mp hp).2) hf

/-- An object is given back from where `x_obj_free` looks for it. -/
theorem free (h : Walks s b t cell locals) (hp : p ∈ s.collectable)
    (hx : s.Offset (s.extraOf b) p) : ∃ s', xObjFree b p s = .ok () s' ∧
      Freed s b p (s.blockAddr p) s' ∧ s'.Tracked locals ∧ OwnApart s' s'.collectable := by
  obtain ⟨hpo, hps⟩ := mem_collectable.mp hp
  have hown := h.own.block p hp hps
  obtain ⟨h₁, h₂⟩ := h.tracked.placed p hpo
  have haddr := (h.tracked.freeAddr_eq_iff hpo).mpr hx
  obtain ⟨s', hrun, hs⟩ := xObjFree_run h.base.freeReady (h.tracked.mem_live hpo) hown
    (h.count_ne hp) (by rwa [haddr]) (by rwa [haddr])
  rw [haddr] at hs
  refine ⟨s', hrun, hs, h.tracked.freed hpo hown hs,
    h.own.freed hp (h.tracked.mem_live hpo) h₂ hs fun q hq hqp => ?_⟩
  rw [hs.unit q 0 hqp, if_neg fun hc => h.count_ne hq hc.1 hc.2.1]

/-- An object is not, and is given back at a wrong address. -/
theorem free_wrong (h : Walks s b t cell locals) (hp : p ∈ s.collectable)
    (hx : ¬ s.Offset (s.extraOf b) p) : ¬ BlocksMatch (Prog.stateOf (xObjFree b p s)).trace := by
  obtain ⟨hpo, hps⟩ := mem_collectable.mp hp
  obtain ⟨s', hs, hrun⟩ := xObjFree_dying h.base.freeReady (h.tracked.mem_live hpo)
    (h.own.block p hp hps) (h.count_ne hp)
  rw [hrun]
  exact logged_mismatch.framed.xSysFree _ (h.tracked.mismatch hpo hs.trace hx)

end Walks

/-! ### One pass -/

/-- The links after an object was linked out and freed. -/
theorem Freed.next_unlinked (hs : Freed (s.unlinked fn prev p) b p a s') (hq : q ≠ p) :
    s'.next q = s.next q ∨ q = prev ∧ s.Live prev ∧ s'.next q = s.next p := by
  rw [hs.next q hq]
  by_cases hp : s.Live prev
  · rw [show (s.unlinked fn prev p).next q = _ from next_setHeap (live_hooked.mpr hp)]
    split
    · next e => exact .inr ⟨e, hp, rfl⟩
    · exact .inl next_hooked
  · rw [Sys.unlinked, setHeap, modify_of_not_live (mt live_hooked.mp hp)]
    exact .inl next_hooked

theorem Freed.next_gone (hs : Freed s b p a s') : s'.next p = nil := by
  have hno : ¬ s'.Live p := fun hl => ((hs.live p).mp hl).1 rfl
  rw [Sys.next, not_live_iff.mp hno]
  rfl

/-- The chain is what it was, without that object. -/
theorem Freed.shortened (hs : Freed (s.unlinked fn prev p) b p a s')
    (hlink : s.Live prev → prev ≠ p → s.next prev = p) : s.Shortened s' := .of_skip fun y => by
  by_cases hy : y = p
  · exact .inl (hy ▸ hs.next_gone)
  rcases hs.next_unlinked hy with e | ⟨rfl, hp, e⟩
  · exact .inr (.inl e)
  · exact .inr (.inr (e.trans (congrArg s.next (hlink hp hy).symm)))

theorem Freed.live_unlinked (hs : Freed (s.unlinked fn prev p) b p a s') :
    s'.Live q ↔ q ≠ p ∧ s.Live q := by
  rw [hs.live, show (s.unlinked fn prev p).Live q ↔ s.Live q from live_setHeap.trans live_hooked]

theorem Freed.flags_unlinked (hs : Freed (s.unlinked fn prev p) b p a s') (hq : q ≠ p) :
    s'.flagsOf q = s.flagsOf q := (hs.flagsOf q hq).trans flagsOf_unlinked

theorem Freed.extras_unlinked (hs : Freed (s.unlinked fn prev p) b p a s') (hq : q ≠ p) :
    s'.extrasOf q = s.extrasOf q :=
  (hs.extrasOf q hq).trans (extrasOf_setHeap.trans extrasOf_hooked)

theorem Freed.remains (hs : Freed (s.unlinked fn prev p) b p a s') : s.Remains s' := fun q hq => by
  obtain ⟨hne, hq⟩ := (outstanding_freed hs q).mp hq
  rw [outstanding_unlinked] at hq
  exact ⟨hq, fun e hx => hx.congr (hs.flags_unlinked hne) (hs.extras_unlinked hne)⟩

section Pass

variable (h : Walks s b t cell locals) (hin : env.FreeInert) (hm : node ∈ outstanding s.trace)
  (hk : s.kept F node = false)
  (hst : store prev (s.next node) (s.hooked fn node) = .ok () (s.unlinked fn prev node))

include hm hk in
theorem mem_collectable_unlinked : node ∈ (s.unlinked fn prev node).collectable := by
  rw [collectable_unlinked]
  exact mem_collectable.mpr ⟨hm, not_shared hk⟩

include h hin hm hk hst

/-- An object is linked out and freed. -/
theorem Walks.dies (hx : s.Offset (s.extraOf b) node) : ∃ s',
    walkLoop env store F fn (n + 1) b prev node s =
      walkLoop env store F fn n (if node = b then nil else b) prev (s.next node) s' ∧
    Freed (s.unlinked fn prev node) b node (s.blockAddr node) s' ∧ s'.Tracked locals ∧
    OwnApart s' s'.collectable ∧ (BlocksMatch s.trace → BlocksMatch s'.trace) := by
  obtain ⟨h₁, hextra, -⟩ := h.unlinked fn prev node
  have haddr : (s.unlinked fn prev node).blockAddr node = s.blockAddr node :=
    blockAddr_congr (extrasOf_setHeap.trans extrasOf_hooked)
  obtain ⟨s', hrun, hs, htracked, hown⟩ := h₁.free (mem_collectable_unlinked hm hk)
    (hextra ▸ hx.congr flagsOf_unlinked (extrasOf_setHeap.trans extrasOf_hooked))
  rw [haddr] at hs
  refine ⟨s', ?_, hs, htracked, hown, fun hm' => ?_⟩
  · rw [walkLoop_unlink hst hin.on (h.tracked.mem_live hm) hk, Prog.bind_of_ok hrun]
  · have htrace : (s.unlinked fn prev node).trace = (s.hooked fn node).trace := trace_modify
    rw [hs.trace, htrace]
    exact ⟨blockOf_hooked.trans (h.tracked.known node hm), blocksMatch_hooked.mpr hm'⟩

/-- The base stays. -/
theorem Walks.pass (hb : node ≠ b) (hx : s.Offset (s.extraOf b) node) : ∃ s',
    walkLoop env store F fn (n + 1) b prev node s =
      walkLoop env store F fn n b prev (s.next node) s' ∧
    Freed (s.unlinked fn prev node) b node (s.blockAddr node) s' ∧ Walks s' b t cell locals ∧
    s'.extraOf b = s.extraOf b ∧ (s'.Full b ↔ s.Full b) ∧
    (BlocksMatch s.trace → BlocksMatch s'.trace) := by
  obtain ⟨h₁, hextra, hfull⟩ := h.unlinked fn prev node
  obtain ⟨s', hrun, hs, htracked, hown, hmatch⟩ := h.dies (n := n) hin hm hk hst hx
  have hc : node ∈ (s.unlinked fn prev node).collectable := mem_collectable_unlinked hm hk
  have hnt : (s.unlinked fn prev node).Full b → node ∉ t.nodes := fun hf hn =>
    h₁.base.shared hf node hn (mem_collectable.mp hc).2
  obtain ⟨hbase, hfull', hextra', -⟩ := h₁.base.freed hb.symm hnt hs
  rw [if_neg hb] at hrun
  exact ⟨s', hrun, hs, ⟨hbase, htracked, hown⟩, hextra'.trans hextra, hfull'.trans hfull, hmatch⟩

/-- An object is given back at a wrong address, whatever the walk does then. -/
theorem Walks.pass_wrong (hx : ¬ s.Offset (s.extraOf b) node) (hst' : Links store) :
    ¬ BlocksMatch (Prog.stateOf (walkLoop env store F fn (n + 1) b prev node s)).trace := by
  obtain ⟨h₁, hextra, -⟩ := h.unlinked fn prev node
  have hwrong := h₁.free_wrong (mem_collectable_unlinked hm hk) fun hx' =>
    hx ((hextra ▸ hx').congr flagsOf_unlinked.symm (extrasOf_setHeap.trans extrasOf_hooked).symm)
  rw [walkLoop_unlink hst hin.on (h.tracked.mem_live hm) hk]
  exact Prog.Keeps.after (I := fun s : Sys => ¬ BlocksMatch s.trace) hwrong
    fun _ => logged_mismatch.walkLoop hin hst'

end Pass

/-! ### All passes -/

theorem Sys.Behind.head (h : q = s.next p ∨ s.Behind (s.next p) q) : s.Behind p q := by
  rcases h with rfl | h
  · exact .single rfl
  · exact TransGen.head rfl h

theorem Walked.refl (h : Walks s b t cell locals) : Walked s b t cell locals s :=
  ⟨h, rfl, Iff.rfl, .refl s, .refl s, id⟩

theorem Walked.trans {s₁ : Sys} (h : Walked s b t cell locals s₁)
    (h' : Walked s₁ b t cell locals s') : Walked s b t cell locals s' :=
  ⟨h'.walks, h'.extra.trans h.extra, h'.full.trans h.full, h.shortened.trans h'.shortened,
    h.remains.trans h'.remains, fun hm => h'.matched (h.matched hm)⟩

/-- The hook was called, and the assignment after it stopped. -/
theorem Walks.dangling (h : Walks s b t cell locals) (hp : ¬ s.Live prev) :
    Walked s b t cell locals (s.hooked fn node) := by
  have heq : s.unlinked fn prev node = s.hooked fn node := by
    rw [Sys.unlinked, setHeap, modify_of_not_live (mt live_hooked.mp hp)]
  obtain ⟨h₁, hextra, hfull⟩ := h.unlinked fn prev node
  rw [heq] at h₁ hextra hfull
  exact ⟨h₁, hextra, hfull, fun p q _ hb => hb.congr fun _ => next_hooked,
    .of_still (heq ▸ outstanding_unlinked) (fun q => by rw [flagsOf_hooked])
      fun _ => extrasOf_hooked, blocksMatch_hooked.mpr⟩

namespace WalkAt

/-- The walk keeps an object. -/
theorem keep (h : WalkAt s b t cell locals F prev node) (hl : s.Live node)
    (hF : F &&& xObjFlagShared = 0) (hM : F &&& xObjFlagMeta = 0) :
    WalkAt (s.setFlags node (s.flagsOf node &&& ~~~F)) b t cell locals F node (s.next node) := by
  have hw := h.walks.clear hl hF hM
  have hbehind : ∀ {p q}, (s.setFlags node (s.flagsOf node &&& ~~~F)).Behind p q → s.Behind p q :=
    fun hb => hb.congr fun _ => next_setFlags
  have hflags : ∀ q, q ≠ node → (s.setFlags node (s.flagsOf node &&& ~~~F)).flagsOf q =
      s.flagsOf q := fun q hq => by rw [flagsOf_setFlags hl, if_neg hq]
  have hself : (s.setFlags node (s.flagsOf node &&& ~~~F)).flagsOf node =
      s.flagsOf node &&& ~~~F := by rw [flagsOf_setFlags hl, if_pos rfl]
  refine ⟨hw.walks, fun _ => next_setFlags, fun q hq hlq => ?_, fun q hq hd => ?_⟩
  · exact h.off q (.inr (.head (hq.imp_right hbehind))) (live_setFlags.mp hlq)
  have hon : s.Behind node q := .head (hq.imp_right hbehind)
  obtain ⟨hlq, hsh, hk⟩ := hd
  rw [hw.extra]
  by_cases hqn : q = node
  · -- The chain has led back to the object that has just lost its mark.
    subst hqn
    rw [hself, Flags.clear_and hF] at hsh
    have hx := h.offset q (.inl rfl) ⟨hl, hsh, .inr hon⟩
    rw [Offset, hself, Flags.clear_and hM, extrasOf_setFlags]
    exact hx
  · rw [hflags q hqn] at hsh
    rw [kept_congr (hflags q hqn)] at hk
    exact (h.offset q (.inr hon) ⟨live_setFlags.mp hlq, hsh, hk.imp_right hbehind⟩).congr
      (hflags q hqn) extrasOf_setFlags

/-- The walk has freed an object. -/
theorem passed (h : WalkAt s b t cell locals F prev node)
    (hs : Freed (s.unlinked fn prev node) b node a s') (hw : Walks s' b t cell locals)
    (hextra : s'.extraOf b = s.extraOf b) :
    WalkAt s' b t cell locals F prev (s.next node) ∧ s.Shortened s' := by
  have hshort := hs.shortened fun hp _ => h.link hp
  have hon : ∀ {q}, q = s.next node ∨ s'.Behind (s.next node) q → s'.Live q →
      q = node ∨ s.Behind node q := fun hq hl =>
    .inr (.head (hq.imp_right (hshort _ _ hl.ne_nil)))
  refine ⟨⟨hw, fun hp => ?_, fun q hq hl => ?_, fun q hq hd => ?_⟩, hshort⟩
  · obtain ⟨hne, hp⟩ := hs.live_unlinked.mp hp
    rw [hs.next prev hne]
    exact (next_setHeap (live_hooked.mpr hp)).trans (if_pos rfl)
  · exact h.off q (hon hq hl) (hs.live_unlinked.mp hl).2
  · obtain ⟨hl, hsh, hk⟩ := hd
    obtain ⟨hne, hl'⟩ := hs.live_unlinked.mp hl
    rw [hs.flags_unlinked hne] at hsh
    rw [kept_congr (hs.flags_unlinked hne)] at hk
    rw [hextra]
    exact (h.offset q (hon hq hl)
      ⟨hl', hsh, hk.imp_right (hshort _ _ hl.ne_nil)⟩).congr (hs.flags_unlinked hne)
        (hs.extras_unlinked hne)

/-- The walk gives everything back where it was obtained, however it ends. -/
theorem run (hin : env.FreeInert) (hst : Links store) (hF : F &&& xObjFlagShared = 0)
    (hM : F &&& xObjFlagMeta = 0) (h : WalkAt s b t cell locals F prev node) :
    Walked s b t cell locals (Prog.stateOf (walkLoop env store F fn n b prev node s)) := by
  induction n generalizing s prev node with
  | zero => exact .refl h.walks
  | succ n ih =>
    by_cases hl : s.Live node
    swap
    · rw [walkLoop_not_live hl]
      exact .refl h.walks
    have hoff := h.off node (.inl rfl) hl
    cases hk : s.kept F node with
    | true =>
      rw [walkLoop_keep hl hk]
      exact (h.walks.clear hl hF hM).trans (ih (h.keep hl hF hM))
    | false =>
      rcases hst (s.hooked fn node) prev (s.next node) with hstore | ⟨hp, e, hstore⟩
      · obtain ⟨s', hrun, hs, hw, hextra, hfull, hmatch⟩ := h.walks.pass (n := n) hin
          (h.walks.tracked.mem_of_live hl (List.not_mem_of_not_mem_cons hoff)) hk hstore
          (List.ne_of_not_mem_cons hoff) (h.offset node (.inl rfl) ⟨hl, not_shared hk, .inl hk⟩)
        obtain ⟨h', hshort⟩ := h.passed hs hw hextra
        rw [hrun]
        exact Walked.trans ⟨hw, hextra, hfull, hshort, hs.remains, hmatch⟩ (ih h')
      · rw [walkLoop_hooked hin.on hl hk, Prog.bind_of_error hstore]
        exact h.walks.dangling (mt live_hooked.mpr hp)

end WalkAt

/-- A walk that comes to an object which is not where `x_obj_free` looks for it gives some object
back at a wrong address. -/
theorem Walks.wrong (hin : env.FreeInert) (hst : Links store) (hF : F &&& xObjFlagShared = 0)
    (hM : F &&& xObjFlagMeta = 0) (h : Walks s b t cell locals)
    (hprev : s.Live prev ∨ ∀ s p w, store p w s = .ok () (s.setHeap p w))
    (hk : s.kept F q = false) (hx : ¬ s.Offset (s.extraOf b) q) (hseg : Seg s.next node l q)
    (hnodup : (q :: l).Nodup) (hmem : ∀ x ∈ q :: l, x ∈ outstanding s.trace ∧ x ≠ b)
    (hpl : prev ∉ q :: l) (hlen : l.length < n) :
    ¬ BlocksMatch (Prog.stateOf (walkLoop env store F fn n b prev node s)).trace := by
  have hstore : ∀ {s : Sys} {prev node : Ptr},
      (s.Live prev ∨ ∀ s p w, store p w s = .ok () (s.setHeap p w)) →
      store prev (s.next node) (s.hooked fn node) = .ok () (s.unlinked fn prev node) :=
    fun {s prev node} hp => by
      rcases hp with hp | hp
      · exact (hst _ _ _).resolve_right fun hno => hno.1 (live_hooked.mpr hp)
      · exact hp _ _ _
  obtain ⟨n, rfl⟩ := Nat.exists_eq_succ_of_ne_zero (Nat.ne_zero_of_lt hlen)
  induction l generalizing s prev node n with
  | nil =>
    obtain rfl : node = q := hseg
    exact h.pass_wrong hin (hmem node (.head _)).1 hk (hstore hprev) hx hst
  | cons x l ih =>
    obtain ⟨rfl, hseg⟩ := hseg
    obtain ⟨n, rfl⟩ := Nat.exists_eq_succ_of_ne_zero
      (Nat.ne_zero_of_lt (Nat.lt_of_succ_lt_succ hlen))
    have hlen : l.length < n + 1 := Nat.lt_of_succ_lt_succ hlen
    obtain ⟨hm, hnb⟩ := hmem node (.tail _ (.head _))
    have hl := h.tracked.mem_live hm
    obtain ⟨hn, hnodup⟩ := List.nodup_cons.mp ((List.Perm.swap ..).nodup_iff.mp hnodup)
    have hsub : ∀ y ∈ q :: l, y ∈ q :: node :: l := fun y hy =>
      (List.mem_cons.mp hy).elim (fun e => e ▸ .head _) fun hy => .tail _ (.tail _ hy)
    have hne : ∀ y ∈ q :: l, y ≠ node := fun y hy e => hn (e ▸ hy)
    cases hkn : s.kept F node with
    | true =>
      have hw := h.clear hl hF hM
      have hflags : (s.setFlags node (s.flagsOf node &&& ~~~F)).flagsOf q = s.flagsOf q := by
        rw [flagsOf_setFlags hl, if_neg (hne q (.head _))]
      rw [walkLoop_keep hl hkn]
      refine ih hw.walks (.inl (live_setFlags.mpr hl)) ((kept_congr hflags).trans hk)
        (fun hx' => hx ?_) (hseg.congr fun y _ => next_setFlags) hnodup (fun y hy => ?_) hn n hlen
      · rw [hw.extra] at hx'
        exact hx'.congr hflags.symm extrasOf_setFlags.symm
      · rw [show (s.setFlags node _).trace = s.trace from trace_modify]
        exact hmem y (hsub y hy)
    | false =>
      by_cases hxn : s.Offset (s.extraOf b) node
      swap
      · exact h.pass_wrong hin hm hkn (hstore hprev) hxn hst
      obtain ⟨s', hrun, hs, hw, hextra, -⟩ := h.pass (n := n + 1) hin hm hkn (hstore hprev) hnb hxn
      have hflags := hs.flags_unlinked (hne q (.head _))
      rw [hrun]
      refine ih hw (hprev.imp_left fun hp => ?_) ((kept_congr hflags).trans hk) (fun hx' => hx ?_)
        (hseg.congr fun y hy => ?_) hnodup (fun y hy => ?_) (fun hm => hpl (hsub prev hm)) n hlen
      · exact hs.live_unlinked.mpr ⟨fun e => hpl (e ▸ .tail _ (.head _)), hp⟩
      · rw [hextra] at hx'
        exact hx'.congr hflags.symm (hs.extras_unlinked (hne q (.head _))).symm
      · refine (hs.next_unlinked (hne y (.tail _ hy))).resolve_right fun e => ?_
        exact hpl (hsub prev (e.1 ▸ .tail _ hy))
      · obtain ⟨hyo, hyb⟩ := hmem y (hsub y hy)
        refine ⟨(outstanding_freed hs y).mpr ⟨hne y hy, ?_⟩, hyb⟩
        rwa [outstanding_unlinked]

end Walk

end XExpr
