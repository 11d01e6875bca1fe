import XExpr.Heap.Exact

/-!
# Every block has one owner

A block that `malloc` handed out is the block of an object, or the data that one object owns, or
in the hands of the program that asked for it. An atom made by `x_mksatomown` takes a block over
from the program, and the sweep that frees the atom gives the block back.

* `OwnStep`: the steps of a program that gives back, or hands over, only blocks that it holds.
* `OwnInv.frame`: a step that leaves the owning objects and their data alone.
* `blocks_accounted`: in every run each block in use is in one place, and a sweep always returns.
* `blocks_drained`: after a sweep of a chain without marks, nothing is in use but the blocks of the
  base and of shared objects, and what the program holds.
-/

namespace XExpr

open Sys Chain Relation
open Mem (chase)

/-- `x_mksatomown`. -/
def xMksatomown (env : Env) (b : Ptr) (fl : Flags) (w : Word) : M Ptr :=
  xObjMake env b xTypeAtomObj (fl ||| xObjFlagOwn) [w]

theorem Flags.or_and_of_disjoint {f g h : Flags} (hd : g &&& h = 0) :
    (f ||| g) &&& h = f &&& h := by
  ext i hi
  have := congrArg (·.getLsbD i) hd
  simp [BitVec.getLsbD_eq_getElem hi] at this ⊢
  grind

/-! ## Steps -/

/-- Steps of a program that holds the blocks `H`. -/
inductive OwnStep (env : Env) : Client → Set Ptr → Client → Set Ptr → Prop
  | malloc {c : Client} {H : Set Ptr} {a : Ptr} {size : Nat} {s' : Sys}
      (h : xSysMalloc env size c.sys = .ok a s') :
      OwnStep env c H { c with sys := s' } (H ∪ {x | x = a ∧ a ≠ nil})
  | free {c : Client} {H : Set Ptr} {a : Ptr} {s' : Sys} (ha : a ∈ H)
      (h : xSysFree a c.sys = .ok () s') : OwnStep env c H { c with sys := s' } (H \ {a})
  /-- A block is handed over, if the atom is made. -/
  | own {c : Client} {H : Set Ptr} {b a p : Ptr} {fl : Flags} {s' : Sys} (hb : b ∈ c.bases)
      (hfl : fl &&& xObjFlagShared = 0) (ha : a ∈ H)
      (h : xMksatomown env b fl a c.sys = .ok p s') :
      OwnStep env c H { c with sys := s' } (H \ {x | x = a ∧ p ≠ nil})
  | make {c : Client} {H : Set Ptr} {b t p : Ptr} {fl : Flags} {data : List Word} {s' : Sys}
      (hb : b ∈ c.bases) (hfl : fl &&& xObjFlagOwn = 0)
      (h : xObjMake env b t fl data c.sys = .ok p s') : OwnStep env c H { c with sys := s' } H
  | setType {c : Client} {H : Set Ptr} {p t : Ptr} {s' : Sys}
      (hp : p ∈ c.bases → c.sys.fieldInt p .objMetaExtra = some 0)
      (h : setXObjType p t c.sys = .ok () s') : OwnStep env c H { c with sys := s' } H
  /-- A unit is assigned, but not the pointer to a block that an object owns. -/
  | write {c : Client} {H : Set Ptr} {p : Ptr} {i : Nat} {w : Word} {s' : Sys}
      (hg : ∀ b ∈ c.bases, (p, i) ∉ c.sys.guarded b)
      (ho : c.sys.flagsOf p &&& xObjFlagOwn ≠ 0 → i ≠ 0)
      (h : setXObjDataI p i w c.sys = .ok () s') : OwnStep env c H { c with sys := s' } H
  | newLocal {c : Client} {H : Set Ptr} {p : Ptr} {o : Obj} (hn : nil < p) (hp : ¬ c.sys.Live p)
      (ho : o.flags &&& xObjFlagOwn = 0) :
      OwnStep env c H { c with sys := c.sys.place p o, locals := p :: c.locals } H
  | rootPush {c : Client} {H : Set Ptr} {b p slot : Ptr} {s₁ s' : Sys} (hb : b ∈ c.bases)
      (hp : p ∈ c.locals) (hnew : ∀ b' ∈ c.bases, p ∉ c.roots b')
      (hs : xHeapRootSlot b c.sys = .ok slot s₁) (h : xHeapRootPush slot p s₁ = .ok () s') :
      OwnStep env c H
        { c with sys := s', roots := Function.update c.roots b (p :: c.roots b) } H
  | rootPop {c : Client} {H : Set Ptr} {b p slot : Ptr} {K : List Ptr} {s₁ s' : Sys}
      (hb : b ∈ c.bases) (hK : c.roots b = p :: K)
      (hs : xHeapRootSlot b c.sys = .ok slot s₁) (h : xHeapRootPop slot s₁ = .ok () s') :
      OwnStep env c H { c with sys := s', roots := Function.update c.roots b K } H
  | treeMark {c : Client} {H : Set Ptr} {b p r : Ptr} {F : Flags} {s' : Sys} (hb : b ∈ c.bases)
      (hF : F &&& xObjFlagOwn = 0) (hsh : F &&& xObjFlagShared = 0)
      (h : xHeapTreeMark env b p F c.sys = .ok r s') : OwnStep env c H { c with sys := s' } H
  | rootChainMark {c : Client} {H : Set Ptr} {b r : Ptr} {F : Flags} {s' : Sys} (hb : b ∈ c.bases)
      (hF : F &&& xObjFlagOwn = 0) (hsh : F &&& xObjFlagShared = 0)
      (h : xHeapRootChainMark env b F c.sys = .ok r s') : OwnStep env c H { c with sys := s' } H
  | chainClear {c : Client} {H : Set Ptr} {p r : Ptr} {F : Flags} {s' : Sys}
      (hF : F &&& xObjFlagOwn = 0) (hsh : F &&& xObjFlagShared = 0)
      (h : xHeapChainClear p F c.sys = .ok r s') : OwnStep env c H { c with sys := s' } H
  | sweep {c : Client} {H : Set Ptr} {b r : Ptr} {F : Flags} {s' : Sys} (hb : b ∈ c.bases)
      (hF : F &&& xObjFlagOwn = 0) (hsh : F &&& xObjFlagShared = 0)
      (h : xHeapSweep env b (c.sys.next b) F c.sys = .ok r s') :
      OwnStep env c H
        { c with sys := s', bases := c.bases.filter fun b => decide (s'.Live b) } H

/-! ## The invariant -/

/-- Where the blocks are: the objects' own blocks, the blocks `H` in the hands of the program, and
those that objects of the chain own. -/
structure OwnInv (c : Client) (H : Set Ptr) : Prop where
  heap : ∃ L t k, HeapInv c L t k
  object : ∀ a p, c.sys.block a = some p → p ≠ nil → p = a ∧ (a = c.root ∨ c.OnChain a)
  held : ∀ a ∈ H, a ≠ nil ∧ c.sys.block a = some nil
  owner : ∀ p, c.sys.flagsOf p &&& xObjFlagOwn ≠ 0 →
    c.OnChain p ∧ c.sys.flagsOf p &&& xObjFlagShared = 0 ∧
      ∃ w, c.sys.unit p 0 = some w ∧ (w = nil ∨ c.sys.block w = some nil ∧ w ∉ H)
  unique : ∀ p q w, c.sys.Owns p w → c.sys.Owns q w → p = q
  cover : ∀ a, c.sys.block a = some nil → a ≠ nil → a ∈ H ∨ ∃ p, c.sys.Owns p a

namespace OwnInv

variable {env : Env} {c c' : Client} {H : Set Ptr} {p a : Ptr} {F : Flags} {s' : Sys}

/-- Any sweep finds the owned blocks in place. -/
theorem ownReady (h : OwnInv c H) : c.OwnReady F where
  block p _ _ _ _ ho := by
    obtain ⟨-, -, w, hw, hb⟩ := h.owner p ho
    exact ⟨w, hw, hb.imp id And.left⟩
  apart p q w _ _ hne ho ho' := hne (h.unique p q w ho ho')

/-- A step that leaves the owning objects and their data alone. New blocks are those of new
objects. -/
theorem frame (h : OwnInv c H) (hi : ∃ L t k, HeapInv c' L t k) (hroot : c'.root = c.root)
    (hchain : ∀ p, c.OnChain p → c'.OnChain p)
    (hown : ∀ p, c'.sys.flagsOf p &&& xObjFlagOwn ≠ 0 ↔ c.sys.flagsOf p &&& xObjFlagOwn ≠ 0)
    (hshared : ∀ p, c.sys.flagsOf p &&& xObjFlagOwn ≠ 0 → c.sys.flagsOf p &&& xObjFlagShared = 0 →
      c'.sys.flagsOf p &&& xObjFlagShared = 0)
    (hunit : ∀ p, c.sys.flagsOf p &&& xObjFlagOwn ≠ 0 → c'.sys.unit p 0 = c.sys.unit p 0)
    (hblock : ∀ a, c'.sys.block a = c.sys.block a ∨
      c.sys.block a = none ∧ c'.sys.block a = some a ∧ a ≠ nil ∧ c'.OnChain a) : OwnInv c' H := by
  have howns : ∀ p w, c'.sys.Owns p w ↔ c.sys.Owns p w := fun p w => by
    unfold Sys.Owns
    rw [hown]
    exact and_congr_right fun ho => by rw [hunit p ho]
  have hnil : ∀ a, c.sys.block a = some nil → c'.sys.block a = some nil := fun a ha => by
    rcases hblock a with e | ⟨e, -⟩
    · rw [e, ha]
    · rw [ha] at e
      cases e
  refine ⟨hi, fun a p hb hp => ?_, fun a ha => ⟨(h.held a ha).1, hnil a (h.held a ha).2⟩,
    fun p ho => ?_, fun p q w ho ho' => h.unique p q w ((howns p w).mp ho) ((howns q w).mp ho'),
    fun a ha hn => ?_⟩
  · rcases hblock a with e | ⟨-, e, -, hc⟩
    · obtain ⟨hpa, ha⟩ := h.object a p (e.symm.trans hb) hp
      exact ⟨hpa, ha.imp (·.trans hroot.symm) (hchain a)⟩
    · exact ⟨Option.some.inj (hb.symm.trans e), .inr hc⟩
  · have ho := (hown p).mp ho
    obtain ⟨hc, hsh, w, hw, hb⟩ := h.owner p ho
    exact ⟨hchain p hc, hshared p ho hsh, w, (hunit p ho).trans hw,
      hb.imp id fun hb => ⟨hnil w hb.1, hb.2⟩⟩
  · rcases hblock a with e | ⟨-, e, hn', -⟩
    · exact (h.cover a (e.symm.trans ha) hn).imp id (Exists.imp fun p ho => (howns p a).mpr ho)
    · exact absurd (Option.some.inj (e.symm.trans ha)) hn'

/-! ## Objects that are made -/

/-- An owning object is not the cell of a field, which is shared. -/
theorem ne_node (h : OwnInv c H) {L : List Ptr} {t : Ptr → Cells Word} {k : Ptr → Kept} {b q : Ptr}
    (hi : HeapInv c L t k) (hb : b ∈ c.bases) (hq : q ∈ (t b).nodes)
    (ho : c.sys.flagsOf p &&& xObjFlagOwn ≠ 0) : p ≠ q := fun e =>
  (hi.base b hb).shared q hq (e ▸ (h.owner p ho).2.1)

/-- What a new object changes. -/
structure New (c : Client) (fl : Flags) (p : Ptr) (s' : Sys) : Prop where
  heap : ∃ L t k, HeapInv { c with sys := s' } L t k
  ne_nil : p ≠ nil
  fresh : ¬ c.sys.Live p ∧ c.sys.block p = none
  onChain : ∀ q, Client.OnChain { c with sys := s' } q ↔ q = p ∨ c.OnChain q
  block : ∀ q, s'.block q = if q = p then some p else c.sys.block q
  flags_new : s'.flagsOf p = fl
  flags_old : ∀ q, q ≠ p → s'.flagsOf q = c.sys.flagsOf q
  unit_old : ∀ q, c.sys.flagsOf q &&& xObjFlagOwn ≠ 0 → s'.unit q 0 = c.sys.unit q 0

theorem new {b ty : Ptr} {fl : Flags} {data : List Word} (h : OwnInv c H)
    (hb : b ∈ c.bases) (hm : Made c.sys b ty fl data p a s') : New c fl p s' := by
  obtain ⟨L, t, k, hi⟩ := h.heap
  have hx := hi.extraOf hb
  obtain rfl : a = p := by
    have := hm.addr
    rw [hx] at this
    simpa using this.symm
  obtain ⟨L', hi', -⟩ := hi.made (hi.bases hb) (fun _ => hb) hm
  have hroot : a ≠ c.root := fun e => hm.new (e ▸ hi.base_live hi.root_mem)
  have howner : ∀ q, c.sys.flagsOf q &&& xObjFlagOwn ≠ 0 → q ≠ a := fun q ho e => by
    subst e
    rw [flagsOf_not_live hm.new] at ho
    exact ho rfl
  refine ⟨⟨L', t, k, hi'⟩, hm.ne_nil, ⟨hm.new, hm.block_new⟩, fun q => ?_, hm.block, ?_,
    fun q hq => hm.flagsOf_old q hq, fun q ho => ?_⟩
  · simp only [Client.OnChain, hm.trace, outstanding, List.mem_cons]
    constructor
    · rintro ⟨rfl | hq, hr⟩
      · exact .inl rfl
      · exact .inr ⟨hq, hr⟩
    · rintro (rfl | hq)
      · exact ⟨.inl rfl, hroot⟩
      · exact ⟨.inr hq.1, hq.2⟩
  · rw [hm.flagsOf_new, hx]
    exact if_neg (lt_irrefl 0)
  · rw [hm.unit_old q 0 (howner q ho)]
    refine if_neg fun e => ?_
    obtain ⟨x, -, hx', hmem, -⟩ := (hi.base b hb).tree.fieldAtom (f := .allocCount) rfl
    obtain rfl : x = q := Option.some.inj (hx'.symm.trans e.2.1)
    exact h.ne_node hi hb hmem ho rfl

/-- An object that owns nothing. -/
theorem make {fl : Flags} (h : OwnInv c H) (hn : New c fl p s')
    (hfl : fl &&& xObjFlagOwn = 0) : OwnInv { c with sys := s' } H := by
  have hp : c.sys.flagsOf p = 0 := flagsOf_not_live hn.fresh.1
  refine h.frame hn.heap rfl (fun q hq => (hn.onChain q).mpr (.inr hq)) (fun q => ?_)
    (fun q ho hs => ?_) hn.unit_old fun q => ?_
  · change s'.flagsOf q &&& _ ≠ 0 ↔ _
    by_cases e : q = p
    · rw [e, hn.flags_new, hfl, hp]
      simp
    · rw [hn.flags_old q e]
  · change s'.flagsOf q &&& _ = 0
    by_cases e : q = p
    · rw [e, hp] at ho
      exact absurd BitVec.zero_and ho
    · rwa [hn.flags_old q e]
  · change s'.block q = _ ∨ c.sys.block q = none ∧ s'.block q = _ ∧ _
    rw [hn.block]
    by_cases e : q = p
    · subst e
      exact .inr ⟨hn.fresh.2, if_pos rfl, hn.ne_nil, (hn.onChain q).mpr (.inl rfl)⟩
    · exact .inl (if_neg e)

/-- An object that takes the block `a` over. -/
theorem own {fl : Flags} (h : OwnInv c H) (hn : New c fl p s') (hu : s'.unit p 0 = some a)
    (hfl : fl &&& xObjFlagOwn ≠ 0) (hsh : fl &&& xObjFlagShared = 0) (ha : a ∈ H) :
    OwnInv { c with sys := s' } (H \ {a}) := by
  obtain ⟨hane, hab⟩ := h.held a ha
  have hp : c.sys.flagsOf p = 0 := flagsOf_not_live hn.fresh.1
  have hap : a ≠ p := fun e => by rw [e, hn.fresh.2] at hab; cases hab
  have hblock : ∀ q, c.sys.block q = some nil → s'.block q = some nil := fun q hq => by
    rw [hn.block, if_neg, hq]
    rintro rfl
    rw [hn.fresh.2] at hq
    cases hq
  have howns : ∀ q w, s'.Owns q w ↔ q = p ∧ w = a ∨ c.sys.Owns q w := fun q w => by
    unfold Sys.Owns
    by_cases e : q = p
    · subst e
      rw [hn.flags_new, hu, hp]
      constructor
      · rintro ⟨-, e, -⟩
        exact .inl ⟨rfl, (Option.some.inj e).symm⟩
      · rintro (⟨-, rfl⟩ | ⟨ho, -⟩)
        · exact ⟨hfl, rfl, hane⟩
        · exact absurd BitVec.zero_and ho
    · rw [hn.flags_old q e]
      simp only [e, false_and, false_or]
      exact and_congr_right fun ho => by rw [hn.unit_old q ho]
  have hnot : ∀ q, ¬ c.sys.Owns q a := fun q ho => by
    obtain ⟨-, -, w, hw, hb⟩ := h.owner q ho.1
    obtain rfl : w = a := Option.some.inj (hw.symm.trans ho.2.1)
    exact hb.elim hane fun hb => hb.2 ha
  refine ⟨hn.heap, fun x q hb hq => ?_, fun x hx => ⟨(h.held x hx.1).1, hblock x (h.held x hx.1).2⟩,
    fun q ho => ?_, fun q r w ho ho' => ?_, fun x hx hxn => ?_⟩
  · change s'.block x = _ at hb
    rw [hn.block] at hb
    split at hb
    · next e =>
      subst e
      exact ⟨(Option.some.inj hb).symm, .inr ((hn.onChain x).mpr (.inl rfl))⟩
    · obtain ⟨e, hx⟩ := h.object x q hb hq
      exact ⟨e, hx.imp id fun hx => (hn.onChain x).mpr (.inr hx)⟩
  · change s'.flagsOf q &&& _ ≠ 0 at ho
    change _ ∧ s'.flagsOf q &&& _ = 0 ∧ ∃ w, s'.unit q 0 = _ ∧ (_ ∨ s'.block w = _ ∧ _)
    by_cases e : q = p
    · subst e
      rw [hn.flags_new]
      exact ⟨(hn.onChain q).mpr (.inl rfl), hsh, a, hu, .inr ⟨hblock a hab, fun hm => hm.2 rfl⟩⟩
    · rw [hn.flags_old q e] at ho ⊢
      obtain ⟨hc, hs, w, hw, hb⟩ := h.owner q ho
      exact ⟨(hn.onChain q).mpr (.inr hc), hs, w, (hn.unit_old q ho).trans hw,
        hb.imp id fun hb => ⟨hblock w hb.1, fun hm => hb.2 hm.1⟩⟩
  · rcases (howns q w).mp ho with ⟨rfl, rfl⟩ | ho
    · rcases (howns r w).mp ho' with ⟨rfl, -⟩ | ho'
      · rfl
      · exact absurd ho' (hnot r)
    · rcases (howns r w).mp ho' with ⟨rfl, rfl⟩ | ho'
      · exact absurd ho (hnot q)
      · exact h.unique q r w ho ho'
  · change s'.block x = _ at hx
    by_cases e : x = a
    · exact .inr ⟨p, (howns p x).mpr (.inl ⟨rfl, e⟩)⟩
    · have hxp : x ≠ p := fun e' => by
        rw [hn.block, if_pos e'] at hx
        exact hn.ne_nil (Option.some.inj hx)
      rw [hn.block, if_neg hxp] at hx
      exact (h.cover x hx hxn).imp (fun hm => ⟨hm, e⟩)
        (Exists.imp fun q ho => (howns q x).mpr (.inr ho))

/-! ## Blocks of the program -/

/-- A new block in the hands of the program. -/
theorem malloc {size : Nat} (h : OwnInv c H) (hr : xSysMalloc env size c.sys = .ok a s') :
    OwnInv { c with sys := s' } (H ∪ {x | x = a ∧ a ≠ nil}) := by
  obtain ⟨L, t, k, hi⟩ := h.heap
  rw [xSysMalloc_eq] at hr
  split at hr
  · cases hr
    obtain ⟨hpos, hnone, -⟩ := env.malloc.fresh c.sys size
    generalize env.malloc.address c.sys size = a at hpos hnone ⊢
    have hane : a ≠ nil := hpos.ne'
    have hH : ∀ x, x ∈ H ∪ {x | x = a ∧ a ≠ nil} ↔ x ∈ H ∨ x = a := fun x => by
      simp [hane, or_comm]
    have hblock : ∀ x, (c.sys.request.setBlock a nil).block x =
        if x = a then some nil else c.sys.block x := fun x => block_setBlock
    have hold : ∀ x w, c.sys.block x = some w →
        (c.sys.request.setBlock a nil).block x = some w := fun x w hx => by
      rw [hblock, if_neg, hx]
      rintro rfl
      rw [hnone] at hx
      cases hx
    refine ⟨⟨L, t, k, hi.setBlock hnone⟩, fun x p hb hp => ?_, fun x hx => ?_, fun p ho => ?_,
      h.unique, fun x hx hxn => ?_⟩
    · rw [hblock] at hb
      split at hb
      · exact absurd (Option.some.inj hb).symm hp
      · exact h.object x p hb hp
    · rcases (hH x).mp hx with hx | rfl
      · exact ⟨(h.held x hx).1, hold x nil (h.held x hx).2⟩
      · exact ⟨hane, (hblock x).trans (if_pos rfl)⟩
    · obtain ⟨hc, hs, w, hw, hb⟩ := h.owner p ho
      refine ⟨hc, hs, w, hw, hb.imp id fun hb => ⟨hold w nil hb.1, fun hm => ?_⟩⟩
      rcases (hH w).mp hm with hm | rfl
      · exact hb.2 hm
      · rw [hnone] at hb
        cases hb.1
    · rw [hblock] at hx
      split at hx
      · next e => exact .inl ((hH x).mpr (.inr e))
      · exact (h.cover x hx hxn).imp (fun hm => (hH x).mpr (.inl hm)) id
  · cases hr
    rw [show H ∪ {x | x = nil ∧ nil ≠ nil} = H by simp]
    exact h.frame ⟨L, t, k, hi.request⟩ rfl (fun _ => id) (fun _ => Iff.rfl) (fun _ _ => id)
      (fun _ _ => rfl) fun _ => .inl rfl

/-- A block that the program gives back. -/
theorem free (h : OwnInv c H) (ha : a ∈ H) (hr : xSysFree a c.sys = .ok () s') :
    OwnInv { c with sys := s' } (H \ {a}) := by
  obtain ⟨hane, hab⟩ := h.held a ha
  obtain ⟨L, t, k, hi⟩ := h.heap
  cases hr.symm.trans (xSysFree_run hane hab)
  have hobj : ∀ q, ((c.sys.drop nil).dropBlock a).obj q = c.sys.obj q := fun q => by
    rw [obj_dropBlock, obj_drop]
    split
    · next e => rw [e, not_live_iff.mp not_live_nil]
    · rfl
  have hsame : c.sys.SameButFlags ((c.sys.drop nil).dropBlock a) := fun q => by rw [hobj]
  have hflags : ∀ q, ((c.sys.drop nil).dropBlock a).flagsOf q = c.sys.flagsOf q := fun q => by
    rw [flagsOf, hobj, flagsOf]
  have hblock : ∀ x, ((c.sys.drop nil).dropBlock a).block x =
      if x = a then none else c.sys.block x := fun x => block_dropBlock
  have hunit : ((c.sys.drop nil).dropBlock a).unit = c.sys.unit := hsame.unit
  refine ⟨⟨L, t, k, hi.still (fun q => hsame.live) (fun q => hsame.next) (fun q hq => ?_) rfl
    (fun b hb ht => (hi.base b hb).typed (hsame.typeOf ▸ ht)) (fun q _ hs => ?_)
    fun q i w hw => ⟨w, ?_, fun _ => rfl⟩⟩, fun x p hb hp => ?_, fun x hx => ?_, fun p ho => ?_,
    fun p q w ho ho' => ?_, fun x hx hxn => ?_⟩
  · rw [hblock, if_neg, hq]
    rintro rfl
    exact hane (Option.some.inj (hq.symm.trans hab))
  · rwa [hflags]
  · rw [hunit, hw]
  · change ((c.sys.drop nil).dropBlock a).block x = _ at hb
    rw [hblock] at hb
    split at hb
    · cases hb
    · exact h.object x p hb hp
  · exact ⟨(h.held x hx.1).1, ((hblock x).trans (if_neg hx.2)).trans (h.held x hx.1).2⟩
  · change ((c.sys.drop nil).dropBlock a).flagsOf p &&& _ ≠ 0 at ho
    change _ ∧ ((c.sys.drop nil).dropBlock a).flagsOf p &&& _ = 0 ∧
      ∃ w, ((c.sys.drop nil).dropBlock a).unit p 0 = _ ∧
        (_ ∨ ((c.sys.drop nil).dropBlock a).block w = _ ∧ _)
    rw [hflags] at ho ⊢
    obtain ⟨hc, hs, w, hw, hb⟩ := h.owner p ho
    refine ⟨hc, hs, w, by rw [hunit, hw], hb.imp id fun hb => ⟨?_, fun hm => hb.2 hm.1⟩⟩
    rw [hblock, if_neg fun e : w = a => hb.2 (e ▸ ha), hb.1]
  · unfold Sys.Owns at ho ho'
    change ((c.sys.drop nil).dropBlock a).flagsOf p &&& _ ≠ 0 ∧ _ at ho
    change ((c.sys.drop nil).dropBlock a).flagsOf q &&& _ ≠ 0 ∧ _ at ho'
    rw [hflags, show Client.sys { c with sys := _ } = _ from rfl, hunit] at ho ho'
    exact h.unique p q w ho ho'
  · change ((c.sys.drop nil).dropBlock a).block x = _ at hx
    rw [hblock] at hx
    split at hx
    · cases hx
    · next e =>
      refine (h.cover x hx hxn).imp (fun hm => ⟨hm, e⟩) (Exists.imp fun p ho => ?_)
      change ((c.sys.drop nil).dropBlock a).flagsOf p &&& _ ≠ 0 ∧
        ((c.sys.drop nil).dropBlock a).unit p 0 = _ ∧ _
      rw [hflags, hunit]
      exact ho

/-! ## Flags and sweeps -/

/-- A step that changes bits of `F` only. -/
theorem flags (h : OwnInv c H) (hi : ∃ L t k, HeapInv { c with sys := s' } L t k)
    (hF : F &&& xObjFlagOwn = 0) (hsh : F &&& xObjFlagShared = 0) (hsame : c.sys.SameButFlags s')
    (hblock : s'.blocks = c.sys.blocks) (htrace : s'.trace = c.sys.trace)
    (ho : ∀ p, s'.flagsOf p &&& ~~~F = c.sys.flagsOf p &&& ~~~F) :
    OwnInv { c with sys := s' } H := by
  have hg : ∀ {g : Flags}, F &&& g = 0 → ∀ p, s'.flagsOf p &&& g = c.sys.flagsOf p &&& g :=
    fun hg p => by rw [← Flags.clear_and hg, ho, Flags.clear_and hg]
  refine h.frame hi rfl (fun p hp => ⟨?_, hp.2⟩) (fun p => ?_) (fun p _ hs => (hg hsh p).trans hs)
    (fun p _ => congrFun (congrFun hsame.unit p) 0) fun a => .inl ?_
  · change p ∈ outstanding s'.trace
    rw [htrace]
    exact hp.1
  · rw [show Client.sys { c with sys := s' } = s' from rfl, hg hF]
  · change Finmap.lookup a s'.blocks = _
    rw [hblock]
    rfl

theorem marked {A : Set Ptr} (h : OwnInv c H) (hF : F &&& xObjFlagOwn = 0)
    (hsh : F &&& xObjFlagShared = 0) (hm : Marked c.sys F A s') :
    OwnInv { c with sys := s' } H := by
  obtain ⟨L, t, k, hi⟩ := h.heap
  exact h.flags ⟨L, t, k, hi.marked hm⟩ hF hsh hm.same hm.block hm.trace (Marked.others hm)

theorem cleared {l : List Ptr} (h : OwnInv c H) (hF : F &&& xObjFlagOwn = 0)
    (hsh : F &&& xObjFlagShared = 0) (hc : Cleared c.sys F l s') :
    OwnInv { c with sys := s' } H := by
  obtain ⟨L, t, k, hi⟩ := h.heap
  refine h.flags ⟨L, t, k, hi.cleared hc (.inl hsh)⟩ hF hsh hc.same hc.block hc.trace fun p => ?_
  by_cases hp : p ∈ l
  · rw [hc.flags_mem p hp, Flags.clear_clear_self]
  · rw [hc.flags_notMem p hp]

/-- A sweep returns. It frees the dead objects of the chain with the blocks that they own, and
nothing else. -/
theorem sweep {b : Ptr} (h : OwnInv c H) (hin : env.FreeInert) (hb : b ∈ c.bases)
    (hF : F &&& xObjFlagOwn = 0) (hsh : F &&& xObjFlagShared = 0) : ∃ (s' : Sys) (l : List Ptr),
    xHeapSweep env b (c.sys.next b) F c.sys = .ok b s' ∧
    OwnInv { c with sys := s', bases := c.bases.filter fun b => decide (s'.Live b) } H ∧
    (∀ q, s'.Live q ↔ c.sys.Live q ∧ (q ∈ l → c.sys.kept F q = true)) ∧
    (∀ p a, s'.Owns p a → c.sys.Owns p a) ∧
    (b = c.root → ∀ p, p ∈ l ↔ c.OnChain p) := by
  obtain ⟨L, t, k, hi⟩ := h.heap
  obtain ⟨s', fn, l₁, l₂, L', hrun, he, hs, hL', hi'⟩ := hi.sweep hin hb hsh h.ownReady
  have hx := hi.extraOf hb
  have hblock : ∀ a, s'.block a =
      if ∃ p ∈ l₂, c.sys.kept F p = false ∧ (a = p ∨ c.sys.Owns p a) then none
      else c.sys.block a := fun a => by
    rw [hs.block a]
    simp only [hx, freeAddr_zero]
  have hl₂ : ∀ p ∈ l₂, p ∈ c.root :: L := fun p hp => by
    rw [he]
    exact List.mem_append_right _ (.tail _ hp)
  have hchain : ∀ p, c.OnChain p → s'.Live p → p ∈ L' := fun p hp hl => by
    refine hi'.chain.mem_of_live hl hp.2 fun hm => ?_
    exact hi.chain.apart p hm (.tail _ (hi.onChain.mp hp))
  have hflags : ∀ {g : Flags}, F &&& g = 0 → ∀ p, s'.Live p →
      s'.flagsOf p &&& g = c.sys.flagsOf p &&& g := fun hg p hp => by
    by_cases hm : p ∈ l₂
    · rw [hs.flags_mem p hm (((hs.live p).mp hp).2 hm), Flags.clear_and hg]
    · rw [hs.flags_notMem p hm]
  have hunit : ∀ p, s'.Live p → c.sys.flagsOf p &&& xObjFlagOwn ≠ 0 →
      s'.unit p 0 = c.sys.unit p 0 := fun p hp ho => by
    refine (hs.unit p 0 hp).trans (if_neg fun e => ?_)
    obtain ⟨x, -, hx', hmem, -⟩ := (hi.base b hb).tree.fieldAtom (f := .allocCount) rfl
    obtain rfl : x = p := Option.some.inj (hx'.symm.trans e.2.1)
    exact h.ne_node hi hb hmem ho rfl
  have hown : ∀ p, s'.flagsOf p &&& xObjFlagOwn ≠ 0 →
      s'.Live p ∧ c.sys.flagsOf p &&& xObjFlagOwn ≠ 0 := fun p ho => by
    have hp : s'.Live p := by
      by_contra hp
      rw [flagsOf_not_live hp] at ho
      exact ho BitVec.zero_and
    exact ⟨hp, (hflags hF p hp) ▸ ho⟩
  have howns : ∀ p w, s'.Owns p w ↔ s'.Live p ∧ c.sys.Owns p w := fun p w => by
    unfold Sys.Owns
    constructor
    · rintro ⟨ho, hw⟩
      obtain ⟨hp, ho⟩ := hown p ho
      exact ⟨hp, ho, hunit p hp ho ▸ hw⟩
    · rintro ⟨hp, ho, hw⟩
      exact ⟨hflags hF p hp ▸ ho, (hunit p hp ho).symm ▸ hw⟩
  -- A block of the program or of an object that stays is not given back.
  have hraw : ∀ a, c.sys.block a = some nil → (∀ p, c.sys.Owns p a → s'.Live p) →
      s'.block a = some nil := fun a ha hp => by
    rw [hblock, if_neg, ha]
    rintro ⟨p, hm, hk, rfl | ho⟩
    · have hpb := hi.chain.placed a (hl₂ a hm)
      exact (hi.chain.mem_live (hl₂ a hm)).ne_nil (Option.some.inj (hpb.symm.trans ha))
    · have hkept := ((hs.live p).mp (hp p ho)).2 hm
      rw [hk] at hkept
      cases hkept
  refine ⟨s', l₂, hrun, ⟨⟨L', t, k, hi'⟩, fun a p hb hp => ?_, fun a ha => ?_, fun p ho => ?_,
    fun p q w ho ho' => ?_, fun a ha hn => ?_⟩, hs.live, fun p a ho => ((howns p a).mp ho).2,
    fun e p => ?_⟩
  · change s'.block a = _ at hb
    rw [hblock] at hb
    split at hb
    · cases hb
    · next hno =>
      obtain ⟨e, ha⟩ := h.object a p hb hp
      refine ⟨e, ha.imp id fun ha => ?_⟩
      refine hi'.onChain.mpr (hchain a ha ((hs.live a).mpr ⟨?_, fun hm => ?_⟩))
      · exact hi.chain.mem_live (.tail _ (hi.onChain.mp ha))
      · by_contra hk
        exact hno ⟨a, hm, by simpa using hk, .inl rfl⟩
  · refine ⟨(h.held a ha).1, hraw a (h.held a ha).2 fun p ho => ?_⟩
    obtain ⟨-, -, w, hw, hb⟩ := h.owner p ho.1
    obtain rfl : w = a := Option.some.inj (hw.symm.trans ho.2.1)
    exact absurd ha (hb.resolve_left ho.2.2).2
  · obtain ⟨hp, ho⟩ := hown p ho
    obtain ⟨hc, hsh', w, hw, hb⟩ := h.owner p ho
    refine ⟨hi'.onChain.mpr (hchain p hc hp), (hflags hsh p hp).trans hsh', w,
      (hunit p hp ho).trans hw, ?_⟩
    by_cases hn : w = nil
    · exact .inl hn
    · have hb := hb.resolve_left hn
      exact .inr ⟨hraw w hb.1 fun q hq => h.unique q p w hq ⟨ho, hw, hn⟩ ▸ hp, hb.2⟩
  · exact h.unique p q w ((howns p w).mp ho).2 ((howns q w).mp ho').2
  · change s'.block a = _ at ha
    rw [hblock] at ha
    split at ha
    · cases ha
    · next hno =>
      refine (h.cover a ha hn).imp id (Exists.imp fun p ho => (howns p a).mpr ⟨?_, ho⟩)
      obtain ⟨hc, -⟩ := h.owner p ho.1
      refine (hs.live p).mpr ⟨hi.chain.mem_live (.tail _ (hi.onChain.mp hc)), fun hm => ?_⟩
      by_contra hk
      exact hno ⟨p, hm, by simpa using hk, .inr ho⟩
  · subst e
    obtain ⟨-, rfl⟩ := hi.behind_root he
    exact hi.onChain.symm

/-! ## Runs -/

/-- A step that assigns type slots, units and links. -/
theorem still (h : OwnInv c H) (hi : ∃ L t k, HeapInv c' L t k) (hroot : c'.root = c.root)
    (htrace : c'.sys.trace = c.sys.trace) (hflags : ∀ p, c'.sys.flagsOf p = c.sys.flagsOf p)
    (hblock : ∀ a, c'.sys.block a = c.sys.block a)
    (hunit : ∀ p, c.sys.flagsOf p &&& xObjFlagOwn ≠ 0 → c'.sys.unit p 0 = c.sys.unit p 0) :
    OwnInv c' H :=
  h.frame hi hroot (fun p hp => ⟨htrace ▸ hp.1, hroot ▸ hp.2⟩) (fun p => by rw [hflags])
    (fun p _ hs => by rwa [hflags]) hunit fun a => .inl (hblock a)

theorem step {H' : Set Ptr} (hin : env.FreeInert) (h : OwnInv c H) (hs : OwnStep env c H c' H') :
    OwnInv c' H' := by
  obtain ⟨L, t, k, hi⟩ := h.heap
  cases hs with
  | malloc hr => exact h.malloc hr
  | free ha hr => exact h.free ha hr
  | @own b a p fl s' hb hfl ha hr =>
    rcases xObjMake_ok hr with ⟨rfl, -, -, rfl⟩ | ⟨a', -, hm⟩
    · rw [show H \ {x | x = a ∧ nil ≠ nil} = H by simp]
      exact h.still ⟨L, t, k, hi.request⟩ rfl rfl (fun _ => rfl) (fun _ => rfl) fun _ _ => rfl
    · have hn := h.new hb hm
      rw [show H \ {x | x = a ∧ p ≠ nil} = H \ {a} by simp [hn.ne_nil]]
      refine h.own hn (by rw [Sys.unit, hm.data_new]; rfl) ?_ ?_ ha
      · rw [Flags.or_and_self]
        decide
      · rw [Flags.or_and_of_disjoint (by decide), hfl]
  | make hb hfl hr =>
    rcases xObjMake_ok hr with ⟨-, -, -, rfl⟩ | ⟨a', -, hm⟩
    · exact h.still ⟨L, t, k, hi.request⟩ rfl rfl (fun _ => rfl) (fun _ => rfl) fun _ _ => rfl
    · exact h.make (h.new hb hm) hfl
  | setType hp hr =>
    obtain ⟨hl, rfl⟩ := setXObjType_ok.mp hr
    exact h.still ⟨L, t, k, hi.setType hl hp⟩ rfl trace_modify (fun _ => flagsOf_setType)
      (fun _ => block_setType) fun _ _ => unit_setType
  | write hg ho hr =>
    obtain ⟨⟨v, hv⟩, rfl⟩ := setXObjDataI_ok.mp hr
    refine h.still ⟨L, t, k, hi.write hv hg⟩ rfl trace_modify (fun _ => flagsOf_setUnit)
      (fun _ => block_setUnit) fun q hq => ?_
    change (c.sys.setUnit _ _ _).unit q 0 = _
    rw [unit_setUnit hv, if_neg fun e => ?_]
    obtain ⟨rfl, rfl⟩ := e
    exact ho hq rfl
  | @newLocal p o hn hp ho =>
    have hf : c.sys.flagsOf p = 0 := flagsOf_not_live hp
    have hne : ∀ q, c.sys.flagsOf q &&& xObjFlagOwn ≠ 0 → q ≠ p := fun q hq e => by
      rw [e, hf] at hq
      exact hq BitVec.zero_and
    refine h.frame ⟨L, t, k, hi.newLocal hn hp⟩ rfl (fun q hq => ⟨?_, hq.2⟩) (fun q => ?_)
      (fun q hq hs => ?_) (fun q hq => ?_) fun q => .inl block_place
    · change q ∈ outstanding (c.sys.place p o).trace
      rw [trace_place]
      exact hq.1
    · change (c.sys.place p o).flagsOf q &&& _ ≠ 0 ↔ _
      rw [flagsOf_place hn]
      split
      · next e => simp [e, hf, ho]
      · rfl
    · change (c.sys.place p o).flagsOf q &&& _ = 0
      rwa [flagsOf_place hn, if_neg (hne q hq)]
    · change (c.sys.place p o).unit q 0 = _
      rw [unit_place hn, if_neg (hne q hq)]
  | rootPush hb hp hnew hs hr =>
    obtain ⟨t', k', hi'⟩ := hi.rootPush hb hp hnew hs hr
    obtain ⟨cell, hc, hu, hmem⟩ := hi.rootSlot hb
    cases hs.symm.trans (xHeapRootSlot_run (hi.base _ hb).tree.isSet hc)
    cases hr.symm.trans (xHeapRootPush_run hu (hi.chain.local_live hp))
    refine h.still ⟨L, t', k', hi'⟩ rfl (trace_modify.trans trace_modify)
      (fun _ => flagsOf_setUnit.trans flagsOf_setHeap)
      (fun _ => block_setUnit.trans block_setHeap) fun q hq => ?_
    change ((c.sys.setHeap _ _).setUnit _ _ _).unit q 0 = _
    rw [unit_setUnit (by rwa [unit_setHeap]), unit_setHeap,
      if_neg fun e => h.ne_node hi hb hmem hq e.1]
  | rootPop hb hK hs hr =>
    obtain ⟨t', k', hi'⟩ := hi.rootPop hb hK hs hr
    obtain ⟨cell, hc, hu, hmem⟩ := hi.rootSlot hb
    have hbase := hi.base _ hb
    cases hs.symm.trans (xHeapRootSlot_run hbase.tree.isSet hc)
    have hseg := hbase.roots
    rw [hK] at hseg
    rw [hseg.1] at hu
    cases hr.symm.trans (xHeapRootPop_run hu (hi.chain.local_live (hbase.subset (hK ▸ .head _))))
    refine h.still ⟨L, t', k', hi'⟩ rfl trace_modify (fun _ => flagsOf_setUnit)
      (fun _ => block_setUnit) fun q hq => ?_
    change (c.sys.setUnit _ _ _).unit q 0 = _
    rw [unit_setUnit hu, if_neg fun e => h.ne_node hi hb hmem hq e.1]
  | treeMark hb hF hsh hr =>
    obtain ⟨A, hA⟩ := xHeapTreeMark_ok hr
    exact h.marked hF hsh hA
  | rootChainMark hb hF hsh hr =>
    obtain ⟨s₁, A, hc, hA⟩ := hi.rootChainMark_ok hb hr
    exact (h.cleared hF hsh hc).marked hF hsh hA
  | chainClear hF hsh hr =>
    obtain ⟨l, hc⟩ := xHeapChainClear_ok hr
    exact h.cleared hF hsh hc
  | sweep hb hF hsh hr =>
    obtain ⟨s', l, hrun, hi', -⟩ := h.sweep hin hb hF hsh
    cases hr.symm.trans hrun
    exact hi'

end OwnInv

/-- A run of the program, with the blocks that it holds. -/
def OwnRun (env : Env) : Client × Set Ptr → Client × Set Ptr → Prop :=
  ReflTransGen fun x y => OwnStep env x.1 x.2 y.1 y.2

variable {env : Env} {cfg : XBaseT} {c c₀ : Client} {H : Set Ptr} {F : Flags}

/-- The blocks that the program holds when it starts: those that are no objects. -/
def Client.raw (c : Client) : Set Ptr := {a | a ≠ nil ∧ c.sys.block a = some nil}

/-- No static object owns anything or is in a block. -/
structure Client.StaticPlain (c : Client) : Prop where
  own : ∀ p ∈ c.locals, c.sys.flagsOf p &&& xObjFlagOwn = 0
  block : ∀ a p, c.sys.block a = some p → p ≠ nil → p = a ∧ (a = c.root ∨ c.OnChain a)

theorem Start.ownInv (hs : Start env cfg c) (hp : c.StaticPlain) : OwnInv c c.raw := by
  have hown : ∀ p, c.sys.flagsOf p &&& xObjFlagOwn = 0 := fun p => by
    by_cases hl : p ∈ c.locals
    · exact hp.own p hl
    · by_cases hlive : c.sys.Live p
      · rcases hs.flags hlive hl with e | e <;> rw [e] <;> rfl
      · rw [flagsOf_not_live hlive]
        rfl
  exact ⟨hs.inv, hp.block, fun a ha => ha, fun p ho => absurd (hown p) ho,
    fun p q w ho => absurd (hown p) ho.1, fun a ha hn => .inl ⟨hn, ha⟩⟩

theorem OwnRun.inv (hin : env.FreeInert) (hs : Start env cfg c₀) (hp : c₀.StaticPlain)
    (hr : OwnRun env (c₀, c₀.raw) (c, H)) : OwnInv c H :=
  Prog.invariant (I := fun x : Client × Set Ptr => OwnInv x.1 x.2)
    (fun _ _ h hst => h.step hin hst) hr (hs.ownInv hp)

/-- Each block in use is the block of an object, or in the hands of the program, or owned by one
object of the chain. -/
structure Client.Accounted (c : Client) (H : Set Ptr) : Prop where
  used : ∀ a, a ≠ nil → (c.sys.block a ≠ none ↔
    (a = c.root ∨ c.OnChain a) ∨ a ∈ H ∨ ∃ p, c.OnChain p ∧ c.sys.Owns p a)
  object : ∀ a, a = c.root ∨ c.OnChain a → a ∉ H ∧ ∀ p, ¬ c.sys.Owns p a
  held : ∀ a ∈ H, ∀ p, ¬ c.sys.Owns p a
  unique : ∀ p q a, c.sys.Owns p a → c.sys.Owns q a → p = q

theorem OwnInv.accounted (h : OwnInv c H) : c.Accounted H := by
  obtain ⟨L, t, k, hi⟩ := h.heap
  have howned : ∀ p a, c.sys.Owns p a → c.OnChain p ∧ c.sys.block a = some nil ∧ a ∉ H :=
    fun p a ho => by
      obtain ⟨hc, -, w, hw, hb⟩ := h.owner p ho.1
      obtain rfl : w = a := Option.some.inj (hw.symm.trans ho.2.1)
      exact ⟨hc, hb.resolve_left ho.2.2⟩
  have hobj : ∀ a, a = c.root ∨ c.OnChain a → a ≠ nil ∧ c.sys.block a = some a := fun a ha => by
    have hm : a ∈ c.root :: L := ha.elim (fun e => e ▸ .head _) fun ha => .tail _ (hi.onChain.mp ha)
    exact ⟨(hi.chain.mem_live hm).ne_nil, hi.chain.placed a hm⟩
  have hne : ∀ a, a = c.root ∨ c.OnChain a → c.sys.block a ≠ some nil := fun a ha e =>
    (hobj a ha).1 (Option.some.inj ((hobj a ha).2.symm.trans e))
  refine ⟨fun a hn => ⟨fun hb => ?_, fun ha => ?_⟩, fun a ha => ⟨fun hm => ?_, fun p ho => ?_⟩,
    fun a ha p ho => (howned p a ho).2.2 ha, h.unique⟩
  · obtain ⟨p, hp⟩ := Option.ne_none_iff_exists'.mp hb
    by_cases e : p = nil
    · subst e
      exact .inr ((h.cover a hp hn).imp id (Exists.imp fun p ho => ⟨(howned p a ho).1, ho⟩))
    · exact .inl (h.object a p hp e).2
  · rcases ha with ha | ha | ⟨p, -, ho⟩
    · rw [(hobj a ha).2]
      exact Option.some_ne_none _
    · rw [(h.held a ha).2]
      exact Option.some_ne_none _
    · rw [(howned p a ho).2.1]
      exact Option.some_ne_none _
  · exact hne a ha (h.held a hm).2
  · exact hne a ha (howned p a ho).2.1

/-- In every run the blocks are accounted for, and a sweep returns whatever is marked. -/
theorem blocks_accounted (hin : env.FreeInert) (hs : Start env cfg c₀) (hp : c₀.StaticPlain)
    (hr : OwnRun env (c₀, c₀.raw) (c, H)) : c.Accounted H ∧ ∀ b ∈ c.bases, ∀ F : Flags,
    F &&& xObjFlagOwn = 0 → F &&& xObjFlagShared = 0 →
      ∃ s', xHeapSweep env b (c.sys.next b) F c.sys = .ok b s' := by
  have h := hr.inv hin hs hp
  refine ⟨h.accounted, fun b hb F hF hsh => ?_⟩
  obtain ⟨s', l, hrun, -⟩ := h.sweep hin hb hF hsh
  exact ⟨s', hrun⟩

/-- At the end of a run a sweep of the cleared chain gives back all blocks but those of the base,
of shared objects and of the program. -/
theorem blocks_drained (hin : env.FreeInert) (hs : Start env cfg c₀) (hp : c₀.StaticPlain)
    (hr : OwnRun env (c₀, c₀.raw) (c, H)) (hF : F &&& xObjFlagOwn = 0)
    (hsh : F &&& xObjFlagShared = 0) : ∃ r s₁ s',
    xHeapChainClear (c.sys.next c.root) F c.sys = .ok r s₁ ∧
    xHeapSweep env c.root (s₁.next c.root) F s₁ = .ok c.root s' ∧
    ∀ a, a ≠ nil → (s'.block a ≠ none ↔
      a = c.root ∨ c.OnChain a ∧ c.sys.flagsOf a &&& xObjFlagShared ≠ 0 ∨ a ∈ H) := by
  have h := hr.inv hin hs hp
  obtain ⟨L, t, k, hi⟩ := h.heap
  obtain ⟨s₁, hrun₁, hc⟩ := xHeapChainClear_run (F := F) hi.chain.chain
    (List.nodup_cons.mp hi.chain.nodup).2 fun q hq => hi.chain.mem_live (.tail _ hq)
  have h₁ := h.cleared hF hsh hc
  obtain ⟨s', l, hrun₂, h₂, hlive, howns, hl⟩ := h₁.sweep hin hi.root_mem hF hsh
  obtain ⟨L', t', k', hi'⟩ := h₂.heap
  have hon₁ : ∀ p, Client.OnChain { c with sys := s₁ } p ↔ c.OnChain p := fun p => by
    unfold Client.OnChain
    rw [show Client.sys { c with sys := s₁ } = s₁ from rfl, hc.trace]
  have hkept : ∀ p, c.OnChain p →
      (s₁.kept F p = true ↔ c.sys.flagsOf p &&& xObjFlagShared ≠ 0) := fun p hp => by
    have hm := hi.onChain.mp hp
    rw [kept_eq_true, hc.flags_mem p hm, Flags.clear_and_self, Flags.clear_and hsh]
    simp
  have hon : ∀ p, p ∈ L' ↔ c.OnChain p ∧ c.sys.flagsOf p &&& xObjFlagShared ≠ 0 := fun p => by
    constructor
    · intro hm
      have hpl : s'.Live p := hi'.chain.mem_live (.tail _ hm)
      obtain ⟨hpl₁, hk⟩ := (hlive p).mp hpl
      have hpc : c.OnChain p := by
        have hpr : p ≠ c.root := fun e => (List.nodup_cons.mp hi'.chain.nodup).1 (e ▸ hm)
        rcases (hi.chain.live p).mp (hc.same.live.mp hpl₁) with hp | hp
        · exact hi.onChain.mpr ((List.mem_cons.mp hp).resolve_left hpr)
        · exact absurd (List.mem_cons_of_mem _ hm) (hi'.chain.apart p hp)
      exact ⟨hpc, (hkept p hpc).mp (hk ((hl rfl p).mpr ((hon₁ p).mpr hpc)))⟩
    · rintro ⟨hpc, hs⟩
      have hm := hi.onChain.mp hpc
      have hpl : s'.Live p := (hlive p).mpr ⟨hc.same.live.mpr (hi.chain.mem_live (.tail _ hm)),
        fun _ => (hkept p hpc).mpr hs⟩
      exact hi'.chain.mem_of_live hpl hpc.2 fun hp => hi.chain.apart p hp (.tail _ hm)
  refine ⟨nil, s₁, s', hrun₁, hrun₂, fun a hn => ?_⟩
  have hno : ∀ p, ¬ s'.Owns p a := fun p ho => by
    have hm := (hon p).mp (hi'.onChain.mp (h₂.owner p ho.1).1)
    have hs₁ := (h₁.owner p (howns p a ho).1).2.1
    change s₁.flagsOf p &&& _ = 0 at hs₁
    rw [hc.flags_mem p (hi.onChain.mp hm.1), Flags.clear_and hsh] at hs₁
    exact hm.2 hs₁
  have hu := h₂.accounted.used a hn
  rw [hi'.onChain, hon] at hu
  refine hu.trans ⟨?_, ?_⟩
  · rintro ((ha | ha) | ha | ⟨p, -, ho⟩)
    · exact .inl ha
    · exact .inr (.inl ha)
    · exact .inr (.inr ha)
    · exact absurd ho (hno p)
  · rintro (ha | ha | ha)
    · exact .inl (.inl ha)
    · exact .inl (.inr ha)
    · exact .inr (.inl ha)

/-! ## An atom that owns a block -/

/-- A base in an empty memory, in which nothing is in use but its own blocks. -/
theorem Start.exists_plain (env : Env) (cfg : XBaseT) (hg : env.malloc.GrantsFrom 0 56)
    (hm : cfg.heapMark = nil) (hf : cfg.heapFree = nil) :
    ∃ c, Start env cfg c ∧ c.StaticPlain := by
  obtain ⟨p, a, new, t, s', hrun, hmade⟩ := xBaseMake_bare env cfg
    (s := Sys.empty) (b := nil) (.inl rfl) (hg 0 le_rfl (by omega))
  obtain rfl : a = p := hmade.addr (extraOf_of_not_full not_full_nil)
  refine ⟨⟨s', a, [a], fun _ => [], []⟩, ⟨⟨Sys.empty, fun q => ?_, rfl, hg, .inl hm, .inl hf,
    hrun⟩, rfl, rfl⟩, nofun, fun x q hb hq => ?_⟩
  · exact iff_of_false Finmap.notMem_empty (List.not_mem_nil)
  · change s'.block x = some q at hb
    rw [hmade.block] at hb
    have hon : ∀ x ∈ new, x ∈ outstanding s'.trace := fun x hx => by
      rw [hmade.trace, outstanding_map_alloc]
      exact List.mem_append_left _ hx
    split at hb
    · next hx =>
      obtain rfl : x = q := Option.some.inj hb
      exact ⟨rfl, .inr ⟨hon x hx, fun e : x = a => (List.nodup_cons.mp hmade.nodup).1 (e ▸ hx)⟩⟩
    · split at hb
      · next e =>
        obtain rfl : a = q := Option.some.inj hb
        exact ⟨e.symm, .inl e⟩
      · cases hb

/-- A program that asks for a block and hands it over. -/
theorem exists_owned : ∃ (c₀ c : Client) (H : Set Ptr) (p a : Ptr),
    Start (.plain fun _ => true) .standard c₀ ∧ c₀.StaticPlain ∧
    OwnRun (.plain fun _ => true) (c₀, c₀.raw) (c, H) ∧ c.sys.Owns p a ∧ a ∉ H := by
  obtain ⟨c₀, hs, hp⟩ := Start.exists_plain (.plain fun _ => true) .standard
    (fun _ _ _ => rfl) rfl rfl
  obtain ⟨L, t, k, h⟩ := hs.inv
  obtain ⟨hpos, -, -⟩ := (Env.plain fun _ => true).malloc.fresh c₀.sys 8
  have hrun₁ := xSysMalloc_eq (.plain fun _ => true) 8 c₀.sys
  rw [if_pos (by rfl)] at hrun₁
  generalize (Env.plain fun _ => true).malloc.address c₀.sys 8 = a at hpos hrun₁
  have hbare : (c₀.sys.request.setBlock a nil).Bare c₀.root := by
    refine .inr ⟨?_, ?_⟩
    · rw [live_setBlock, live_request]
      exact h.base_live h.root_mem
    · rw [typeOf_setBlock, typeOf_request]
      exact (hs.bare.resolve_left (h.base_live h.root_mem).ne_nil).2
  obtain ⟨p, a', s₂, hrun₂, hm, -, hfp⟩ := xObjMake_granted (.plain fun _ => true) xTypeAtomObj
    (xObjFlagNone ||| xObjFlagOwn) [a] hbare rfl (by simp)
  let c₁ : Client := { c₀ with sys := c₀.sys.request.setBlock a nil }
  have hstep₁ : OwnStep (.plain fun _ => true) c₀ c₀.raw c₁ (c₀.raw ∪ {x | x = a ∧ a ≠ nil}) :=
    .malloc hrun₁
  have hstep₂ : OwnStep (.plain fun _ => true) c₁ (c₀.raw ∪ {x | x = a ∧ a ≠ nil})
      { c₁ with sys := s₂ } ((c₀.raw ∪ {x | x = a ∧ a ≠ nil}) \ {x | x = a ∧ p ≠ nil}) :=
    .own h.root_mem (show xObjFlagNone &&& xObjFlagShared = 0 by decide) (.inr ⟨rfl, hpos.ne'⟩)
      hrun₂
  have hr : OwnRun (.plain fun _ => true) (c₀, c₀.raw) ({ c₁ with sys := s₂ }, _) :=
    (ReflTransGen.single (b := (c₁, _)) hstep₁).tail hstep₂
  refine ⟨c₀, _, _, p, a, hs, hp, hr, ⟨?_, ?_, hpos.ne'⟩, ?_⟩
  · change s₂.flagsOf p &&& _ ≠ 0
    rw [hfp]
    decide
  · change s₂.unit p 0 = _
    rw [Sys.unit, hm.data_new]
    rfl
  · exact fun hmem => hmem.2 ⟨rfl, hm.ne_nil⟩

theorem blocks_accounted_owned : ∃ (c : Client) (H : Set Ptr) (p a : Ptr),
    c.Accounted H ∧ c.sys.Owns p a ∧ c.sys.block a ≠ none := by
  obtain ⟨c₀, c, H, p, a, hs, hp, hr, ho, -⟩ := exists_owned
  obtain ⟨h, -⟩ := blocks_accounted Env.plain_inert hs hp hr
  have hon := (hr.inv Env.plain_inert hs hp).owner p ho.1
  exact ⟨c, H, p, a, h, ho, (h.used a ho.2.2).mpr (.inr (.inr ⟨p, hon.1, ho⟩))⟩

/-- The block of the atom is given back with it. -/
theorem blocks_drained_owned : ∃ (c : Client) (p a r : Ptr) (s₁ s' : Sys),
    c.sys.Owns p a ∧ xHeapChainClear (c.sys.next c.root) xObjFlagMark c.sys = .ok r s₁ ∧
    xHeapSweep (.plain fun _ => true) c.root (s₁.next c.root) xObjFlagMark s₁ = .ok c.root s' ∧
    s'.block a = none := by
  obtain ⟨c₀, c, H, p, a, hs, hp, hr, ho, hH⟩ := exists_owned
  obtain ⟨r, s₁, s', hrun₁, hrun₂, hb⟩ := blocks_drained (F := xObjFlagMark) Env.plain_inert hs hp
    hr (by decide) (by decide)
  refine ⟨c, p, a, r, s₁, s', ho, hrun₁, hrun₂, ?_⟩
  by_contra hne
  have hobj := (hr.inv Env.plain_inert hs hp).accounted.object a
  rcases (hb a ho.2.2).mp hne with e | ⟨hc, -⟩ | hm
  · exact (hobj (.inl e)).2 p ho
  · exact (hobj (.inr hc)).2 p ho
  · exact hH hm

end XExpr
