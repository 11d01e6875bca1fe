import XExpr.Heap.Cycle
import XExpr.Heap.Teardown

/-!
# A base with extra metadata units

On a full base `x_obj_alloc` puts extra units before the header and flags the object with
`X_OBJ_FLAG_META`; `x_obj_free` reads the number of units again and steps back over them. As long as
the number stays, every object is in the block that `x_obj_free` computes for it.

* `PlacedBase`: a base with its tree, and where the objects are that were allocated on it. It need
  not have a type yet, as long as no object is flagged.
* `PlacedBase.made`, `PlacedBase.freed`, `PlacedBase.mono`: allocation, a free, and steps that do
  neither.
* `PlacedBase.sweepLoop`: a sweep keeps it, however it ends and whatever the chain looks like.
* `RootChain`: the chain behind the base passes all that was allocated on it. A sweep filters it.
-/

namespace XExpr

open Sys Chain
open Mem (chase)

/-- The base `b` with the tree `t`, and all that was allocated and not freed, in blocks that start
where `x_obj_free` looks for them, over `e` extra units. `locals` are the other objects. -/
structure PlacedBase (s : Sys) (b : Ptr) (t : Cells Word) (cell : Field → Layout Word) (e : Nat)
    (locals : List Ptr) : Prop where
  tree : BaseTree s b t cell
  mem : b :: t.nodes ⊆ outstanding s.trace
  shared : ∀ q ∈ t.nodes, s.flagsOf q &&& xObjFlagShared ≠ 0
  live : ∀ q, s.Live q ↔ q ∈ outstanding s.trace ∨ q ∈ locals
  off : ∀ q ∈ locals, q ∉ outstanding s.trace
  links : ∀ q ∈ outstanding s.trace, s.next q ∉ b :: locals
  placed : ∀ q ∈ outstanding s.trace,
    s.freeAddr e q ≠ nil ∧ s.block (s.freeAddr e q) = some q
  bare : s.typeOf b = nil → ∀ q ∈ outstanding s.trace, s.flagsOf q &&& xObjFlagMeta = 0
  extra : ∃ x, cell .objMetaExtra = cellInt (some x) ∧ toSizeT x = e
  count : cell .allocCount = cellInt none
  free : ∃ w, cell .heapFree = cellObj (some w) ∧ s.Hook locals w

/-- The flags that say how an object is freed. -/
def allocFlags : Flags := xObjFlagOwn ||| xObjFlagMeta ||| xObjFlagShared

/-- `s'` is `s` with other marks. -/
structure Sys.Remarked (s s' : Sys) : Prop where
  same : s.SameButFlags s'
  blocks : s'.blocks = s.blocks
  requests : s'.requests = s.requests
  trace : s'.trace = s.trace
  bits : ∀ p, s'.flagsOf p &&& allocFlags = s.flagsOf p &&& allocFlags

/-- The objects that a sweep may free. -/
def Sys.collectable (s : Sys) : List Ptr :=
  (outstanding s.trace).filter fun q => s.flagsOf q &&& xObjFlagShared = 0

section Placed

variable {env : Env} {s s' : Sys} {b p q a ty : Ptr} {t : Cells Word} {cell : Field → Layout Word}
  {e : Nat} {locals L : List Ptr} {fl F : Flags} {data : List Word} {l l' : List Ptr} {fn : Word}

theorem mem_collectable : q ∈ s.collectable ↔
    q ∈ outstanding s.trace ∧ s.flagsOf q &&& xObjFlagShared = 0 := by
  rw [collectable, List.mem_filter, decide_eq_true_eq]

theorem freeAddr_meta (h : s'.flagsOf q &&& xObjFlagMeta = s.flagsOf q &&& xObjFlagMeta) :
    s'.freeAddr e q = s.freeAddr e q := by simp only [freeAddr, h]

theorem freeAddr_bare (h : s.flagsOf q &&& xObjFlagMeta = 0) : s.freeAddr e q = q := by
  rw [freeAddr, if_neg (not_not.mpr h)]

/-! ## Marks -/

theorem Sys.Remarked.flags_and {g : Flags} (h : s.Remarked s') (hg : allocFlags &&& g = g) :
    s'.flagsOf p &&& g = s.flagsOf p &&& g := by
  rw [← hg, ← BitVec.and_assoc, h.bits, BitVec.and_assoc]

/-- What is outside `F` stays. -/
theorem Sys.Remarked.of_others (hsame : s.SameButFlags s') (hb : s'.blocks = s.blocks)
    (hr : s'.requests = s.requests) (ht : s'.trace = s.trace) (hF : F &&& allocFlags = 0)
    (ho : ∀ p, s'.flagsOf p &&& ~~~F = s.flagsOf p &&& ~~~F) : s.Remarked s' :=
  ⟨hsame, hb, hr, ht, fun p => by
    rw [← Flags.clear_and (f := s'.flagsOf p) hF, ho, Flags.clear_and hF]⟩

theorem Marked.remarked {A : Set Ptr} (h : Marked s F A s') (hF : F &&& allocFlags = 0) :
    s.Remarked s' := .of_others h.same h.block h.requests h.trace hF h.others

theorem Cleared.remarked (h : Cleared s F l s') (hF : F &&& allocFlags = 0) : s.Remarked s' := by
  refine .of_others h.same h.block h.requests h.trace hF fun p => ?_
  by_cases hp : p ∈ l
  · rw [h.flags_mem p hp, Flags.clear_clear_self]
  · rw [h.flags_notMem p hp]

/-- The library's calls that mark only mark. -/
theorem xHeapTreeMark_remarked {r : Ptr} (h : xHeapTreeMark env b p F s = .ok r s')
    (hF : F &&& allocFlags = 0) : s.Remarked s' := by
  obtain ⟨A, hA⟩ := xHeapTreeMark_ok h
  exact hA.remarked hF

theorem xHeapChainClear_remarked {r : Ptr} (h : xHeapChainClear p F s = .ok r s')
    (hF : F &&& allocFlags = 0) : s.Remarked s' := by
  obtain ⟨l, hl⟩ := xHeapChainClear_ok h
  exact hl.remarked hF

theorem Sys.Remarked.refl (s : Sys) : s.Remarked s := ⟨.refl s, rfl, rfl, rfl, fun _ => rfl⟩

theorem Sys.Remarked.trans {s₁ : Sys} (h : s.Remarked s₁) (h' : s₁.Remarked s') : s.Remarked s' :=
  ⟨h.same.trans h'.same, h'.blocks.trans h.blocks, h'.requests.trans h.requests,
    h'.trace.trans h.trace, fun p => (h'.bits p).trans (h.bits p)⟩

theorem xHeapRootChainMark_remarked {r : Ptr} (h : xHeapRootChainMark env b F s = .ok r s')
    (hF : F &&& allocFlags = 0) : s.Remarked s' := by
  unfold xHeapRootChainMark xHeapRootChain at h
  rw [Prog.bind_ok] at h
  obtain ⟨isset, s₁, hset, h⟩ := h
  obtain ⟨-, rfl, rfl⟩ := xBaseIsset_ok.mp hset
  split at h
  · rw [Prog.bind_ok] at h
    obtain ⟨w, s₂, hw, h⟩ := h
    obtain ⟨-, rfl⟩ := Field.obj_ok.mp hw
    rw [Prog.bind_ok] at h
    obtain ⟨u, s₃, hc, h⟩ := h
    rw [Prog.get_bind, Prog.bind_ok] at h
    obtain ⟨w', s₄, hw', h⟩ := h
    obtain ⟨-, rfl⟩ := Field.obj_ok.mp hw'
    rw [Prog.bind_ok] at h
    obtain ⟨v, s₅, hm, h⟩ := h
    cases h
    obtain ⟨A, hA⟩ := rootMarkLoop_ok hm
    exact (xHeapChainClear_remarked hc hF).trans (hA.remarked hF)
  · cases h
    exact .refl _

/-! ## What is placed -/

/-- The count of a full base changes. -/
theorem BaseTree.bump {d : Int} (h : BaseTree s b t cell) (hc : cell .allocCount = cellInt none)
    (hunit : ∀ q ∈ b :: t.nodes, ∀ i, s'.unit q i =
      if s.Full b ∧ s.fieldObj b .allocCount = some q ∧ i = 0 then (s.unit q 0).map (· + d)
      else s.unit q i) : BaseTree s' b t cell := by
  by_cases hf : s.Full b
  · refine h.count (g := (· + d)) hc fun q hq i => ?_
    rw [hunit q hq i]
    simp only [hf, true_and]
  · refine h.congr fun q hq i u hu => ?_
    rw [hunit q hq i, if_neg fun hc => hf hc.1, hu]

/-- What owns a block of its own still does. -/
theorem OwnApart.mono (h : OwnApart s l) (hl : l' ⊆ l)
    (hshared : ∀ q ∈ l', s'.flagsOf q &&& xObjFlagShared = 0 → s.flagsOf q &&& xObjFlagShared = 0)
    (hown : ∀ q ∈ l', s'.flagsOf q &&& xObjFlagOwn ≠ 0 → s.flagsOf q &&& xObjFlagOwn ≠ 0)
    (hunit : ∀ q ∈ l', s'.unit q 0 = s.unit q 0)
    (hblock : ∀ q ∈ l', ∀ w, s.Owns q w → s.block w = some nil → s'.block w = some nil) :
    OwnApart s' l' where
  block p hp hs ho := by
    obtain ⟨w, hw, hw'⟩ := h.block p (hl hp) (hshared p hp hs) (hown p hp ho)
    refine ⟨w, (hunit p hp).trans hw, ?_⟩
    by_cases hn : w = nil
    · exact .inl hn
    · exact .inr (hblock p hp w ⟨hown p hp ho, hw, hn⟩ (hw'.resolve_left hn))
  apart p hp q hq w hne := by
    rintro ⟨ho, hw, hn⟩ ⟨ho', hw', -⟩
    rw [hunit p hp] at hw
    rw [hunit q hq] at hw'
    exact h.apart p (hl hp) q (hl hq) w hne ⟨hown p hp ho, hw, hn⟩ ⟨hown q hq ho', hw', hn⟩

/-- Objects that own nothing. -/
theorem OwnApart.of_flags (h : ∀ q, s.flagsOf q &&& xObjFlagOwn = 0) : OwnApart s l :=
  ⟨fun q _ _ hq => absurd (h q) hq, fun q _ _ _ _ _ hq => absurd (h q) hq.1⟩

/-- After a free, another object is still in its block. -/
theorem Freed.block_old {x : Ptr} (hs : Freed s b p a s') (hp : s.block a = some p)
    (hown : s.flagsOf p &&& xObjFlagOwn ≠ 0 →
      ∃ w, s.unit p 0 = some w ∧ (w = nil ∨ s.block w = some nil))
    (hq : s.Live q) (hqp : q ≠ p) (h : s.block x = some q) : s'.block x = some q := by
  rw [hs.block, if_neg, h]
  rintro (e | ho)
  · rw [e, hp] at h
    exact hqp (Option.some.inj h).symm
  · -- An owned block holds no object.
    obtain ⟨w, hw, hw'⟩ := hown ho.1
    obtain rfl : w = _ := Option.some.inj (hw.symm.trans ho.2.1)
    have hn := (hw'.resolve_left ho.2.2).symm.trans h
    exact hq.ne_nil (Option.some.inj hn).symm

theorem outstanding_freed (hs : Freed s b p a s') :
    ∀ q, q ∈ outstanding s'.trace ↔ q ≠ p ∧ q ∈ outstanding s.trace := fun q => by
  rw [hs.trace, outstanding, List.mem_filter, decide_eq_true_eq]
  exact and_comm

/-- After a free, the others own what they owned. -/
theorem OwnApart.freed (ho : OwnApart s s.collectable) (hp : p ∈ s.collectable) (hl : s.Live p)
    (hblk : s.block a = some p) (hs : Freed s b p a s')
    (hunit : ∀ q ∈ s.collectable, q ≠ p → s'.unit q 0 = s.unit q 0) :
    OwnApart s' s'.collectable := by
  have hold : ∀ q ∈ s'.collectable, q ≠ p ∧ q ∈ s.collectable := fun q hq => by
    obtain ⟨hq, hf⟩ := mem_collectable.mp hq
    obtain ⟨hqp, hq⟩ := (outstanding_freed hs q).mp hq
    rw [hs.flagsOf q hqp] at hf
    exact ⟨hqp, mem_collectable.mpr ⟨hq, hf⟩⟩
  have hflags : ∀ q ∈ s'.collectable, s'.flagsOf q = s.flagsOf q := fun q hq =>
    hs.flagsOf q (hold q hq).1
  refine ho.mono (fun q hq => (hold q hq).2) (fun q hq hf => by rwa [← hflags q hq])
    (fun q hq hf => by rwa [← hflags q hq]) (fun q hq => hunit q (hold q hq).2 (hold q hq).1)
    fun q hq w hw hb => ?_
  rw [hs.block, if_neg, hb]
  rintro (e | hop)
  · rw [e, hblk] at hb
    exact hl.ne_nil (Option.some.inj hb)
  · exact ho.apart p hp q (hold q hq).2 w (hold q hq).1.symm hop hw

namespace PlacedBase

theorem base_mem (h : PlacedBase s b t cell e locals) : b ∈ outstanding s.trace := h.mem (.head _)

theorem mem_live (h : PlacedBase s b t cell e locals) (hq : q ∈ outstanding s.trace) : s.Live q :=
  (h.live q).mpr (.inl hq)

theorem base_live (h : PlacedBase s b t cell e locals) : s.Live b := h.mem_live h.base_mem

theorem status (h : PlacedBase s b t cell e locals) : s.typeOf b = nil ∨ s.Full b := by
  by_cases ht : s.typeOf b = nil
  · exact .inl ht
  · exact .inr ⟨ht, h.tree.isSet⟩

theorem accounted (h : PlacedBase s b t cell e locals) : Accounted s b t cell := by
  obtain ⟨x, hx, -⟩ := h.extra
  exact ⟨h.status.imp (fun ht => .inr ⟨h.base_live, .inl ht⟩) id, fun _ => h.tree,
    fun _ => ⟨x, hx, h.count⟩, fun _ => h.shared⟩

theorem extraOf_full (h : PlacedBase s b t cell e locals) (hf : s.Full b) : s.extraOf b = e := by
  obtain ⟨x, hx, rfl⟩ := h.extra
  rw [extraOf, if_pos hf, h.tree.fieldInt hx, Option.getD_some]

/-- What `x_obj_free` computes with the base as it is. -/
theorem freeAddr_eq (h : PlacedBase s b t cell e locals) (hq : q ∈ outstanding s.trace) :
    s.freeAddr (s.extraOf b) q = s.freeAddr e q := by
  rcases h.status with ht | hf
  · rw [freeAddr_bare (h.bare ht q hq), freeAddr_bare (h.bare ht q hq)]
  · rw [h.extraOf_full hf]

theorem freeHook (h : PlacedBase s b t cell e locals) : ∃ fn, s.hookWord .heapFree b = some fn := by
  obtain ⟨w, hw, hk⟩ := h.free
  exact h.tree.hookWord hw (hk.imp id And.right)

/-- A step that makes and frees no object. -/
theorem mono (h : PlacedBase s b t cell e locals) (htree : BaseTree s' b t cell)
    (hlive : ∀ q, s'.Live q ↔ s.Live q)
    (hout : ∀ q, q ∈ outstanding s'.trace ↔ q ∈ outstanding s.trace)
    (hnext : ∀ q ∈ outstanding s.trace, s'.next q ∉ b :: locals)
    (htype : s'.typeOf b = nil → s.typeOf b = nil)
    (hshared : ∀ q ∈ t.nodes, s'.flagsOf q &&& xObjFlagShared ≠ 0)
    (hmeta : ∀ q ∈ outstanding s.trace,
      s'.flagsOf q &&& xObjFlagMeta = s.flagsOf q &&& xObjFlagMeta)
    (hblock : ∀ q ∈ outstanding s.trace, ∀ a, s.block a = some q → s'.block a = some q)
    (hread : ∀ q ∈ locals, ∀ w, s.unit q 0 = some w → ∃ w', s'.unit q 0 = some w') :
    PlacedBase s' b t cell e locals where
  tree := htree
  mem q hq := (hout q).mpr (h.mem hq)
  shared := hshared
  live q := by rw [hlive, h.live, hout]
  off q hq := by rw [hout]; exact h.off q hq
  links q hq := hnext q ((hout q).mp hq)
  placed q hq := by
    have hq := (hout q).mp hq
    obtain ⟨h₁, h₂⟩ := h.placed q hq
    rw [freeAddr_meta (hmeta q hq)]
    exact ⟨h₁, hblock q hq _ h₂⟩
  bare ht q hq := by
    rw [hmeta q ((hout q).mp hq)]
    exact h.bare (htype ht) q ((hout q).mp hq)
  extra := h.extra
  count := h.count
  free := by
    obtain ⟨w, hw, hk⟩ := h.free
    exact ⟨w, hw, hk.mono (List.Subset.refl _) hread⟩

/-- The tree of the base after its count changed. -/
theorem tree_count {d : Int} (h : PlacedBase s b t cell e locals)
    (hunit : ∀ q ∈ b :: t.nodes, ∀ i, s'.unit q i =
      if s.Full b ∧ s.fieldObj b .allocCount = some q ∧ i = 0 then (s.unit q 0).map (· + d)
      else s.unit q i) : BaseTree s' b t cell := h.tree.bump h.count hunit

/-- The count after it changed by `d`. -/
theorem fieldInt_count {d : Int} (h : PlacedBase s b t cell e locals)
    (hunit : ∀ q ∈ b :: t.nodes, ∀ i, s'.unit q i =
      if s.Full b ∧ s.fieldObj b .allocCount = some q ∧ i = 0 then (s.unit q 0).map (· + d)
      else s.unit q i) :
    s'.fieldInt b .allocCount =
      (s.fieldInt b .allocCount).map (· + if s.Full b then d else 0) := by
  have hobj := h.tree.count_congr (h.tree_count hunit) h.count h.count
  obtain ⟨c, n, hc, hmem, hn, -⟩ := h.tree.fieldAtom h.count
  rw [Sys.fieldInt, Sys.fieldInt, hobj, hc, Option.bind_some, Option.bind_some,
    hunit c (.tail _ hmem), hn]
  by_cases hf : s.Full b
  · rw [if_pos ⟨hf, hc, rfl⟩, if_pos hf]
  · rw [if_neg fun h => hf h.1, if_neg hf, Option.map_some, add_zero]

/-- A base that gives its objects extra units is full. -/
theorem full_of_extra (hx : 0 < s.extraOf b) : s.Full b := by
  by_contra hf
  rw [extraOf_of_not_full hf] at hx
  exact lt_irrefl 0 hx

/-- A new object is in the block that `x_obj_free` will compute for it. -/
theorem made_addr (h : PlacedBase s b t cell e locals)
    (hfl : s.typeOf b = nil → fl &&& xObjFlagMeta = 0)
    (hm : Made s b ty fl data p a s') : s'.freeAddr e p = a := by
  -- An object with units to step back over is flagged. One that is flagged without is on a full
  -- base, and steps back over none.
  have haddr := hm.addr
  by_cases h₀ : 0 < s.extraOf b
  · have he := h.extraOf_full (full_of_extra h₀)
    have hmeta : s'.flagsOf p &&& xObjFlagMeta ≠ 0 := by
      rw [hm.flagsOf_new, if_pos h₀, Flags.or_and_self]
      decide
    rw [he] at haddr
    rw [freeAddr, if_pos hmeta, haddr]
    exact add_sub_cancel_right _ _
  · have hz := Nat.eq_zero_of_not_pos h₀
    have hp : p = a := by rw [haddr, hz]; simp
    by_cases ht : s.typeOf b = nil
    · have hmeta : s'.flagsOf p &&& xObjFlagMeta = 0 := by rw [hm.flagsOf_new, if_neg h₀, hfl ht]
      rw [freeAddr_bare hmeta, hp]
    · rw [← h.extraOf_full ⟨ht, h.tree.isSet⟩, hz, freeAddr_zero, hp]

/-- A new object on the base. -/
theorem made (h : PlacedBase s b t cell e locals)
    (hfl : s.typeOf b = nil → fl &&& xObjFlagMeta = 0)
    (hm : Made s b ty fl data p a s') : PlacedBase s' b t cell e locals := by
  have hout : ∀ q, q ∈ outstanding s'.trace ↔ q = p ∨ q ∈ outstanding s.trace := fun q => by
    rw [hm.trace, outstanding, List.mem_cons]
  have hold : ∀ q, s.Live q → q ≠ p := fun q hq e => hm.new (e ▸ hq)
  have hold' : ∀ q ∈ outstanding s.trace, q ≠ p := fun q hq => hold q (h.mem_live hq)
  have hbp := hold b h.base_live
  have hploc : p ∉ b :: locals := fun hp => by
    rcases List.mem_cons.mp hp with e | hp
    · exact hbp e.symm
    · exact hm.new ((h.live p).mpr (.inr hp))
  have hplace := h.made_addr hfl hm
  have hblock : ∀ q a', s.block a' = some q → s'.block a' = some q := fun q a' hq => by
    rw [hm.block, if_neg, hq]
    rintro rfl
    rw [hm.block_new] at hq
    cases hq
  constructor
  case tree =>
    refine h.tree_count (d := 1) fun q hq i => ?_
    exact hm.unit_old q i (hold' q (h.mem hq))
  case mem => exact fun q hq => (hout q).mpr (.inr (h.mem hq))
  case shared =>
    intro q hq
    rw [hm.flagsOf_old q (hold' q (h.mem (.tail _ hq)))]
    exact h.shared q hq
  case live => intro q; rw [hm.live, h.live, hout, or_assoc]
  case off =>
    intro q hq
    rw [hout, not_or]
    exact ⟨hold q ((h.live q).mpr (.inr hq)), h.off q hq⟩
  case links =>
    intro q hq
    rcases (hout q).mp hq with rfl | hq
    · rw [hm.next_new]
      exact h.links b h.base_mem
    · rw [hm.next_old q (h.mem_live hq)]
      split
      · exact hploc
      · exact h.links q hq
  case placed =>
    intro q hq
    rcases (hout q).mp hq with rfl | hq
    · rw [hplace, hm.block, if_pos rfl]
      exact ⟨hm.block_pos, rfl⟩
    · obtain ⟨h₁, h₂⟩ := h.placed q hq
      rw [freeAddr_congr (hm.flagsOf_old q (hold' q hq))]
      exact ⟨h₁, hblock q _ h₂⟩
  case bare =>
    intro ht q hq
    rw [hm.typeOf_old b hbp] at ht
    rcases (hout q).mp hq with rfl | hq
    · rw [hm.flagsOf_new, if_neg fun h₀ => (full_of_extra h₀).1 ht, hfl ht]
    · rw [hm.flagsOf_old q (hold' q hq)]
      exact h.bare ht q hq
  case extra => exact h.extra
  case count => exact h.count
  case free =>
    obtain ⟨w, hw, hk⟩ := h.free
    refine ⟨w, hw, hk.mono (List.Subset.refl _) fun q hq u hu => ?_⟩
    rw [hm.unit_old q 0 (hold q ((h.live q).mpr (.inr hq)))]
    split
    · exact ⟨u + 1, by rw [hu]; rfl⟩
    · exact ⟨u, hu⟩

/-- A step on the flags, the links, the blocks or the log. -/
theorem still (h : PlacedBase s b t cell e locals) (hunit : s'.unit = s.unit)
    (hlive : ∀ q, s'.Live q ↔ s.Live q)
    (hout : ∀ q, q ∈ outstanding s'.trace ↔ q ∈ outstanding s.trace)
    (hnext : ∀ q ∈ outstanding s.trace, s'.next q ∉ b :: locals)
    (htype : s'.typeOf b = nil → s.typeOf b = nil)
    (hshared : ∀ q ∈ t.nodes, s'.flagsOf q &&& xObjFlagShared ≠ 0)
    (hmeta : ∀ q ∈ outstanding s.trace,
      s'.flagsOf q &&& xObjFlagMeta = s.flagsOf q &&& xObjFlagMeta)
    (hblock : ∀ q ∈ outstanding s.trace, ∀ a, s.block a = some q → s'.block a = some q) :
    PlacedBase s' b t cell e locals :=
  h.mono (h.tree.congr fun _ _ _ _ hu => by rwa [hunit]) hlive hout hnext htype hshared hmeta
    hblock fun _ _ w hw => ⟨w, by rwa [hunit]⟩

theorem request (h : PlacedBase s b t cell e locals) : PlacedBase s.request b t cell e locals :=
  h.still rfl (fun _ => Iff.rfl) (fun _ => Iff.rfl) h.links id h.shared (fun _ _ => rfl)
    fun _ _ _ => id

/-- A new block that holds no object. -/
theorem setBlock (h : PlacedBase s b t cell e locals) (ha : s.block a = none) :
    PlacedBase (s.request.setBlock a nil) b t cell e locals := by
  refine h.still rfl (fun _ => Iff.rfl) (fun _ => Iff.rfl) h.links id h.shared (fun _ _ => rfl)
    fun q _ a' hq => ?_
  rw [block_setBlock, if_neg, block_request, hq]
  rintro rfl
  rw [ha] at hq
  cases hq

theorem log {ev : Event} (h : PlacedBase s b t cell e locals)
    (hev : outstanding (ev :: s.trace) = outstanding s.trace) :
    PlacedBase (s.log ev) b t cell e locals :=
  h.still rfl (fun _ => Iff.rfl) (fun q => by rw [← hev]; rfl) h.links id h.shared (fun _ _ => rfl)
    fun _ _ _ => id

/-- An assignment of flags that leaves the bits of the allocator alone. -/
theorem setFlags (h : PlacedBase s b t cell e locals) (hp : s.Live p)
    (hs : s.flagsOf p &&& xObjFlagShared ≠ 0 → fl &&& xObjFlagShared ≠ 0)
    (hm : fl &&& xObjFlagMeta = s.flagsOf p &&& xObjFlagMeta) :
    PlacedBase (s.setFlags p fl) b t cell e locals := by
  refine h.still (by funext q i; exact unit_setFlags) (fun _ => live_setFlags)
    (fun q => by rw [show (s.setFlags p fl).trace = s.trace from trace_modify])
    (fun q hq => by rw [next_setFlags]; exact h.links q hq)
    (fun ht => by rwa [typeOf_setFlags] at ht) (fun q hq => ?_) (fun q _ => ?_)
    fun _ _ _ hq => block_setFlags.trans hq
  · rw [flagsOf_setFlags hp]
    split
    · next e => exact hs (e ▸ h.shared q hq)
    · exact h.shared q hq
  · rw [flagsOf_setFlags hp]
    split
    · next e => rw [hm, e]
    · rfl

/-- Marks leave the base as it is. -/
theorem remarked (h : PlacedBase s b t cell e locals) (hs : s.Remarked s') :
    PlacedBase s' b t cell e locals := by
  refine h.still hs.same.unit (fun _ => hs.same.live) (fun q => by rw [hs.trace])
    (fun q hq => by rw [hs.same.next]; exact h.links q hq)
    (fun ht => by rwa [hs.same.typeOf] at ht) (fun q hq => ?_)
    (fun q _ => hs.flags_and (by decide)) fun q _ a hq => ?_
  · rw [hs.flags_and (by decide)]
    exact h.shared q hq
  · rw [block, hs.blocks]
    exact hq

/-- The base gets a type. -/
theorem setType {y : Ptr} (h : PlacedBase s b t cell e locals) (ht : s.typeOf b = nil) :
    PlacedBase (s.setType b y) b t cell e locals := by
  refine h.still (by funext q i; exact unit_setType) (fun _ => live_setType)
    (fun q => by rw [show (s.setType b y).trace = s.trace from trace_modify])
    (fun q hq => by rw [next_setType]; exact h.links q hq) (fun _ => ht) (fun q hq => ?_)
    (fun q _ => by rw [flagsOf_setType]) fun _ _ _ hq => block_setType.trans hq
  rw [flagsOf_setType]
  exact h.shared q hq

/-- A link to no object of the embedder. -/
theorem setHeap {w : Ptr} (h : PlacedBase s b t cell e locals) (hp : s.Live p)
    (hw : w ∉ b :: locals) : PlacedBase (s.setHeap p w) b t cell e locals := by
  refine h.still (by funext q i; exact unit_setHeap) (fun _ => live_setHeap)
    (fun q => by rw [show (s.setHeap p w).trace = s.trace from trace_modify]) (fun q hq => ?_)
    (fun ht => by rwa [typeOf_setHeap] at ht) (fun q hq => ?_)
    (fun q _ => by rw [flagsOf_setHeap]) fun _ _ _ hq => block_setHeap.trans hq
  · rw [next_setHeap hp]
    split
    · exact hw
    · exact h.links q hq
  · rw [flagsOf_setHeap]
    exact h.shared q hq

/-! ## Frees -/

/-- The count of a full base is in a node of its tree. -/
theorem count_ne (h : PlacedBase s b t cell e locals) (hp : p ∉ t.nodes) (hf : s.Full b) :
    s.fieldObj b .allocCount ≠ some p := fun hc => hp (h.accounted.count_mem hf hc)

/-- An object that is not in the tree of the base can be given back. -/
theorem xObjFree_run (h : PlacedBase s b t cell e locals) (hp : p ∈ outstanding s.trace)
    (hpt : p ∉ t.nodes) (hown : s.flagsOf p &&& xObjFlagOwn ≠ 0 →
      ∃ w, s.unit p 0 = some w ∧ (w = nil ∨ s.block w = some nil)) :
    ∃ s', xObjFree b p s = .ok () s' ∧ Freed s b p (s.freeAddr e p) s' := by
  obtain ⟨ha, hb⟩ := h.placed p hp
  rw [← h.freeAddr_eq hp] at ha hb ⊢
  exact XExpr.xObjFree_run h.accounted.freeReady (h.mem_live hp) hown (h.count_ne hpt) ha hb

theorem freed (h : PlacedBase s b t cell e locals) (hp : p ∈ outstanding s.trace)
    (hpt : p ∉ b :: t.nodes) (hown : s.flagsOf p &&& xObjFlagOwn ≠ 0 →
      ∃ w, s.unit p 0 = some w ∧ (w = nil ∨ s.block w = some nil))
    (hs : Freed s b p (s.freeAddr e p) s') : PlacedBase s' b t cell e locals := by
  have hout := outstanding_freed hs
  have hold : ∀ q ∈ b :: t.nodes, q ≠ p := fun q hq e => hpt (e ▸ hq)
  have hloc : ∀ q ∈ locals, q ≠ p := fun q hq e => h.off q hq (e ▸ hp)
  constructor
  case tree =>
    refine h.tree_count (d := -1) fun q hq i => ?_
    exact hs.unit q i (hold q hq)
  case mem => exact fun q hq => (hout q).mpr ⟨hold q hq, h.mem hq⟩
  case shared =>
    intro q hq
    rw [hs.flagsOf q (hold q (.tail _ hq))]
    exact h.shared q hq
  case live =>
    intro q
    rw [hs.live, h.live, hout]
    have := hloc q
    tauto
  case off => exact fun q hq hm => h.off q hq ((hout q).mp hm).2
  case links =>
    intro q hq
    obtain ⟨hqp, hq⟩ := (hout q).mp hq
    rw [hs.next q hqp]
    exact h.links q hq
  case placed =>
    intro q hq
    obtain ⟨hqp, hq⟩ := (hout q).mp hq
    rw [freeAddr_congr (hs.flagsOf q hqp)]
    exact ⟨(h.placed q hq).1, hs.block_old (h.placed p hp).2 hown (h.mem_live hq) hqp
      (h.placed q hq).2⟩
  case bare =>
    intro ht q hq
    obtain ⟨hqp, hq⟩ := (hout q).mp hq
    rw [hs.typeOf b (hold b (.head _))] at ht
    rw [hs.flagsOf q hqp]
    exact h.bare ht q hq
  case extra => exact h.extra
  case count => exact h.count
  case free =>
    obtain ⟨w, hw, hk⟩ := h.free
    refine ⟨w, hw, hk.mono (List.Subset.refl _) fun q hq u hu => ?_⟩
    rw [hs.unit q 0 (hloc q hq)]
    split
    · exact ⟨u - 1, by rw [hu]; rfl⟩
    · exact ⟨u, hu⟩

end PlacedBase

/-! ## Sweeps -/

/-- The objects that a sweep may free are not part of the base. -/
theorem PlacedBase.collectable_notMem (h : PlacedBase s b t cell e locals) (hb : p ≠ b)
    (hp : s.flagsOf p &&& xObjFlagShared = 0) : p ∉ b :: t.nodes := fun hm =>
  (List.mem_cons.mp hm).elim hb fun hm => h.shared p hm hp

/-- After a free the others own what they owned. -/
theorem PlacedBase.ownApart_freed (h : PlacedBase s b t cell e locals)
    (ho : OwnApart s s.collectable) (hp : p ∈ s.collectable)
    (hs : Freed s b p (s.freeAddr e p) s') : OwnApart s' s'.collectable := by
  obtain ⟨hpo, -⟩ := mem_collectable.mp hp
  refine ho.freed hp (h.mem_live hpo) (h.placed p hpo).2 hs fun q hq hqp => ?_
  rw [hs.unit q 0 hqp, if_neg]
  rintro ⟨hf, hc, -⟩
  exact h.shared q (h.accounted.count_mem hf hc) (mem_collectable.mp hq).2

theorem PlacedBase.hooked (h : PlacedBase s b t cell e locals) :
    PlacedBase (s.hooked fn p) b t cell e locals := by
  unfold Sys.hooked
  split
  · exact h
  · exact h.log rfl

/-- The flags of an object are cleared. -/
theorem ownApart_clear (ho : OwnApart s s.collectable) (hF : F &&& xObjFlagShared = 0)
    (hp : s.Live p) : OwnApart (s.setFlags p (s.flagsOf p &&& ~~~F))
      (s.setFlags p (s.flagsOf p &&& ~~~F)).collectable := by
  refine ho.mono (fun q hq => ?_) (fun q _ => ?_) (fun q _ hq => ?_) (fun _ _ => unit_setFlags)
    fun _ _ _ _ hb => block_setFlags.trans hb
  · obtain ⟨hq, hf⟩ := mem_collectable.mp hq
    rw [show (s.setFlags p (s.flagsOf p &&& ~~~F)).trace = s.trace from trace_modify] at hq
    rw [flags_and_clear hF hp] at hf
    exact mem_collectable.mpr ⟨hq, hf⟩
  · rw [flags_and_clear hF hp]
    exact id
  · rw [flagsOf_setFlags hp] at hq
    split at hq
    · next e => exact e ▸ Flags.and_ne_zero_of_clear hq
    · exact hq

section Unlinked

variable {prev : Ptr}

theorem flagsOf_unlinked : (s.unlinked fn prev p).flagsOf q = s.flagsOf q := by
  rw [unlinked, flagsOf_setHeap, flagsOf_hooked]

theorem outstanding_unlinked : outstanding (s.unlinked fn prev p).trace = outstanding s.trace := by
  rw [show (s.unlinked fn prev p).trace = (s.hooked fn p).trace from trace_modify]
  unfold Sys.hooked
  split <;> rfl

theorem collectable_unlinked : (s.unlinked fn prev p).collectable = s.collectable := by
  simp only [collectable, outstanding_unlinked, flagsOf_unlinked]

theorem ownApart_unlinked (ho : OwnApart s s.collectable) :
    OwnApart (s.unlinked fn prev p) (s.unlinked fn prev p).collectable := by
  rw [collectable_unlinked]
  refine ho.mono (List.Subset.refl _) (fun q _ => ?_) (fun q _ => ?_) (fun q _ => ?_)
    fun q _ w _ hb => ?_
  · rw [flagsOf_unlinked]
    exact id
  · rw [flagsOf_unlinked]
    exact id
  · rw [unlinked, unit_setHeap, unit_hooked]
  · rw [unlinked, block_setHeap, block_hooked]
    exact hb

end Unlinked

/-- A sweep keeps the base and what is on it, however it ends. -/
theorem PlacedBase.sweepLoop {n : Nat} {prev node : Ptr} (hin : env.FreeInert)
    (hF : F &&& xObjFlagShared = 0) (hM : F &&& xObjFlagMeta = 0)
    (h : PlacedBase s b t cell e locals) (ho : OwnApart s s.collectable)
    (hprev : prev ∉ locals) (hnode : node ∉ b :: locals) :
    PlacedBase (Prog.stateOf (XExpr.sweepLoop env F fn n b prev node s)) b t cell e locals := by
  induction n generalizing s prev node with
  | zero => exact h
  | succ n ih =>
    by_cases hl : s.Live node
    swap
    · rw [← walkLoop_setXObjHeap, walkLoop_not_live hl]
      exact h
    have hm : node ∈ outstanding s.trace :=
      ((h.live node).mp hl).resolve_right fun hm => hnode (.tail _ hm)
    have hnext : s.next node ∉ b :: locals := h.links node hm
    by_cases hk : s.kept F node = true
    · -- The node stays, and the walk goes on behind it.
      rw [sweepLoop_keep hl hk]
      refine ih (h.setFlags hl ?_ ?_) (ownApart_clear ho hF hl) (fun hloc => hnode (.tail _ hloc))
        hnext
      · rw [Flags.clear_and hF]
        exact id
      · rw [Flags.clear_and hM]
    · -- The node is linked out and freed.
      rw [Bool.not_eq_true] at hk
      have hno := not_shared hk
      by_cases hp : s.Live prev
      swap
      · obtain ⟨e, hstop⟩ := sweepLoop_dangling (n := n) hin.on hl hk hp
        rw [hstop]
        exact h.hooked
      have h₁ : PlacedBase (s.unlinked fn prev node) b t cell e locals :=
        h.hooked.setHeap (live_hooked.mpr hp) hnext
      have ho₁ : OwnApart (s.unlinked fn prev node) (s.unlinked fn prev node).collectable :=
        ownApart_unlinked ho
      have hm₁ : node ∈ outstanding (s.unlinked fn prev node).trace := by
        rwa [outstanding_unlinked]
      have hc₁ : node ∈ (s.unlinked fn prev node).collectable := by
        rw [collectable_unlinked]
        exact mem_collectable.mpr ⟨hm, hno⟩
      have hnb : node ≠ b := fun e => hnode (e ▸ .head _)
      have hnt : node ∉ b :: t.nodes := h.collectable_notMem hnb hno
      have hown := ho₁.block node hc₁ (mem_collectable.mp hc₁).2
      obtain ⟨s₂, hrun, hfreed⟩ := h₁.xObjFree_run hm₁ (List.not_mem_of_not_mem_cons hnt) hown
      rw [sweepLoop_unlink hin.on hl hk hp]
      change PlacedBase (Prog.stateOf ((XExpr.xObjFree b node >>= _) (s.unlinked fn prev node)))
        b t cell e locals
      rw [Prog.bind_of_ok hrun, if_neg hnb]
      exact ih (h₁.freed hm₁ hnt hown hfreed) (h₁.ownApart_freed ho₁ hc₁ hfreed) hprev hnext

/-- A sweep of the chain behind the base. -/
theorem PlacedBase.sweep (hin : env.FreeInert) (hF : F &&& xObjFlagShared = 0)
    (hM : F &&& xObjFlagMeta = 0) (h : PlacedBase s b t cell e locals)
    (ho : OwnApart s s.collectable) :
    PlacedBase (Prog.stateOf (xHeapSweep env b (s.next b) F s)) b t cell e locals := by
  obtain ⟨fn, hfn⟩ := h.freeHook
  rw [xHeapSweep_eq hfn h.base_live, if_pos rfl, Prog.stateOf_bind fun _ _ => rfl]
  exact h.sweepLoop hin hF hM ho (fun hb => h.off b hb h.base_mem) (h.links b h.base_mem)

/-! ## The chain -/

/-- The chain behind the base passes the objects `L`, which are all that was allocated on it. -/
structure RootChain (s : Sys) (b : Ptr) (L : List Ptr) : Prop where
  chain : Seg s.next (s.next b) L nil
  nodup : (b :: L).Nodup
  mem : ∀ q, q ∈ outstanding s.trace ↔ q ∈ b :: L

namespace RootChain

theorem still (h : RootChain s b L) (hnext : ∀ q, s'.next q = s.next q)
    (hout : outstanding s'.trace = outstanding s.trace) : RootChain s' b L where
  chain := by
    rw [hnext]
    exact h.chain.congr fun q _ => hnext q
  nodup := h.nodup
  mem q := by rw [hout, h.mem]

/-- A new object comes first. -/
theorem made (h : RootChain s b L) (hlive : ∀ q ∈ b :: L, s.Live q)
    (hm : Made s b ty fl data p a s') : RootChain s' b (p :: L) where
  chain := by
    have hL : ∀ q ∈ L, s'.next q = s.next q := fun q hq => by
      rw [hm.next_old q (hlive q (.tail _ hq)), if_neg]
      exact fun e => (List.nodup_cons.mp h.nodup).1 (e ▸ hq)
    rw [hm.next_old b (hlive b (.head _)), if_pos rfl]
    refine ⟨rfl, ?_⟩
    rw [hm.next_new]
    exact h.chain.congr hL
  nodup := by
    have hp : p ∉ b :: L := fun hq => hm.new (hlive p hq)
    rw [List.mem_cons, not_or] at hp
    obtain ⟨hb, hn⟩ := List.nodup_cons.mp h.nodup
    refine List.nodup_cons.mpr ⟨fun hq => ?_, List.nodup_cons.mpr ⟨hp.2, hn⟩⟩
    exact (List.mem_cons.mp hq).elim (fun e => hp.1 e.symm) hb
  mem q := by
    rw [hm.trace, outstanding, List.mem_cons, h.mem]
    simp only [List.mem_cons]
    tauto

/-- A sweep of the chain filters it. -/
theorem swept (h : RootChain s b L) (hs : Swept s b F fn b L s') :
    RootChain s' b (L.filter (s.kept F)) where
  chain := hs.chain
  nodup := h.nodup.sublist (List.filter_sublist.cons_cons b)
  mem q := by
    rw [hs.trace, mem_outstanding_free, h.mem]
    have hb : b ∉ L := (List.nodup_cons.mp h.nodup).1
    simp only [List.mem_cons, List.mem_filter, Bool.not_eq_true', not_and, Bool.not_eq_false]
    constructor
    · rintro ⟨rfl | hq, hk⟩
      · exact .inl rfl
      · exact .inr ⟨hq, hk hq⟩
    · rintro (rfl | ⟨hq, hk⟩)
      · exact ⟨.inl rfl, fun hq => absurd hq hb⟩
      · exact ⟨.inr hq, fun _ => hk⟩

/-- The chain can be swept. -/
theorem sweepable (h : RootChain s b L) (hp : PlacedBase s b t cell e locals)
    (ho : OwnApart s s.collectable) : Sweepable s b t cell F b (s.next b) L := by
  obtain ⟨hb, hn⟩ := List.nodup_cons.mp h.nodup
  have hmem : ∀ q ∈ L, q ∈ outstanding s.trace := fun q hq => (h.mem q).mpr (.tail _ hq)
  have hcol : ∀ q ∈ L, s.kept F q = false → q ∈ s.collectable := fun q hq hk =>
    mem_collectable.mpr ⟨hmem q hq, not_shared hk⟩
  refine ⟨hp.accounted, h.chain, hn, fun q hq => hp.mem_live (hmem q hq), hp.base_live, hb, hb,
    fun q hq _ => ?_, fun q hq hk => ?_, fun q hq r hr w hk hk' hne => ?_⟩
  · rw [hp.freeAddr_eq (hmem q hq)]
    exact hp.placed q (hmem q hq)
  · exact ho.block q (hcol q hq hk) (mem_collectable.mp (hcol q hq hk)).2
  · exact ho.apart q (hcol q hq hk) r (hcol r hr hk') w hne

/-- A sweep of the chain returns. -/
theorem sweep (h : RootChain s b L) (hp : PlacedBase s b t cell e locals)
    (ho : OwnApart s s.collectable) (hin : env.FreeInert) (hF : F &&& xObjFlagShared = 0)
    (hM : F &&& xObjFlagMeta = 0) : ∃ s' fn, xHeapSweep env b (s.next b) F s = .ok b s' ∧
      Swept s b F fn b L s' ∧ PlacedBase s' b t cell e locals := by
  obtain ⟨fn, hfn⟩ := hp.freeHook
  obtain ⟨s', hrun, hs⟩ := xHeapSweep_run hF (fun _ _ _ => hin.on) hfn (h.sweepable hp ho)
  have hk := hp.sweep hin hF hM ho
  rw [hrun] at hk
  exact ⟨s', fn, hrun, hs, hk⟩

end RootChain

/-! ## The start -/

theorem Start.typeOf_root {cfg : XBaseT} {c : Client} (h : Start env cfg c) :
    c.sys.typeOf c.root = nil := by
  obtain ⟨s, new, t, hm, -⟩ := h.made
  exact hm.typeOf_base

/-- Its count is 0. -/
theorem Start.count {cfg : XBaseT} {c : Client} (h : Start env cfg c) :
    c.sys.fieldInt c.root .allocCount = some 0 := by
  obtain ⟨s, new, t₀, hm, hg, -⟩ := h.made
  obtain ⟨d, hd, -⟩ := hm.baseTree hg
  obtain ⟨a, n, ha, -, hn, -, -, hv⟩ := hd.fieldAtom (f := .allocCount) (x := some 0) rfl
  rw [Sys.fieldInt, ha, Option.bind_some, hn, hv 0 rfl]

/-- A base that was just made. -/
theorem Start.placedBase {cfg : XBaseT} {c : Client} {x : Word} (h : Start env cfg c)
    (hcell : ∀ f, (cfg.cell f).relaxes (cell f)) (hx : cell .objMetaExtra = cellInt (some x))
    (hc : cell .allocCount = cellInt none) (hf : cell .heapFree = cellObj (some cfg.heapFree)) :
    ∃ t L, PlacedBase c.sys c.root t cell (toSizeT x) c.locals ∧ RootChain c.sys c.root L ∧
      t.nodes ⊆ L := by
  obtain ⟨s, new, t₀, hm, hg, hchain, -, hfree⟩ := h.made
  obtain ⟨d₀, hd₀, hsub₀, -⟩ := hm.baseTree hg
  obtain ⟨d, hd, hsub₁, -⟩ := hd₀.relax hcell
  have hsub : d.nodes ⊆ new := List.Subset.trans hsub₁ hsub₀
  have hplain : ∀ q ∈ outstanding c.sys.trace, c.sys.flagsOf q &&& xObjFlagMeta = 0 := by
    intro q hq
    have hq := (hchain.outstanding q).mp hq
    rcases h.flags (hchain.mem_live hq) (fun hl => hchain.apart q hl hq) with e | e <;>
      rw [e] <;> rfl
  have hlinks : ∀ q ∈ c.root :: new, c.sys.next q ∉ c.root :: c.locals := fun q hq => by
    have hmem : c.sys.next q = nil ∨ c.sys.next q ∈ new := by
      obtain ⟨l₁, l₂, he, hl₂, hseg⟩ := hchain.split hq
      rcases l₂ with _ | ⟨y, l₂⟩
      · exact .inl hseg
      · exact .inr (hseg.1 ▸ hl₂ (.head _))
    rcases hmem with e | hn
    · rw [e]
      intro hl
      rcases List.mem_cons.mp hl with e | hl
      · exact (hchain.mem_live (.head _)).ne_nil e.symm
      · exact (hchain.local_live hl).ne_nil rfl
    · intro hl
      rcases List.mem_cons.mp hl with e | hl
      · exact (List.nodup_cons.mp hchain.nodup).1 (e ▸ hn)
      · exact hchain.apart _ hl (.tail _ hn)
  refine ⟨d, new, ⟨hd, fun q hq => ?_, fun q hq => ?_, fun q => ?_, fun q hq => ?_, fun q hq => ?_,
    fun q hq => ?_, fun _ => hplain, ⟨x, hx, rfl⟩, hc, ⟨_, hf, hfree⟩⟩,
    ⟨hchain.chain, hchain.nodup, hchain.outstanding⟩, hsub⟩
  · exact (hchain.outstanding q).mpr (List.cons_subset_cons _ hsub hq)
  · rw [hm.flagsOf_new (hsub hq)]
    decide
  · rw [hchain.live, hchain.outstanding]
  · rw [hchain.outstanding]
    exact hchain.apart q hq
  · exact hlinks q ((hchain.outstanding q).mp hq)
  · have hq' := (hchain.outstanding q).mp hq
    rw [freeAddr_bare (hplain q hq)]
    exact ⟨(hchain.mem_live hq').ne_nil, hchain.placed q hq'⟩

end Placed

end XExpr
