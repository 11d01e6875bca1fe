import XExpr.Obj.AllocLemmas

/-!
# `x_obj_free`: what a call does

`x_obj_free` steps back from the object to the address that it hands to `free`, over as many extra
units as its base says now. If the block of the object starts there (`freeAddr`), and an owning
object owns a block of its own, the call returns and takes away the object, its block and the owned
block (`xObjFree_run`).
-/

namespace XExpr

open Sys

variable {s s' : Sys} {b p q a c w : Ptr} {e : Nat} {n : Int}

/-- The address that `x_obj_free` passes on, when the base says `e` extra units. -/
def Sys.freeAddr (s : Sys) (e : Nat) (p : Ptr) : Ptr :=
  if s.flagsOf p &&& xObjFlagMeta ≠ 0 then p - (sizeofObj * e : Nat) else p

/-- `p` owns the block `w`. -/
def Sys.Owns (s : Sys) (p w : Ptr) : Prop :=
  s.flagsOf p &&& xObjFlagOwn ≠ 0 ∧ s.unit p 0 = some w ∧ w ≠ nil

instance : Decidable (s.Owns p w) := inferInstanceAs (Decidable (_ ∧ _))

/-- `s'` is `s` without the object `p`, its block `a` and what it owned. -/
structure Freed (s : Sys) (b p a : Ptr) (s' : Sys) : Prop where
  live : ∀ q, s'.Live q ↔ q ≠ p ∧ s.Live q
  next : ∀ q, q ≠ p → s'.next q = s.next q
  typeOf : ∀ q, q ≠ p → s'.typeOf q = s.typeOf q
  flagsOf : ∀ q, q ≠ p → s'.flagsOf q = s.flagsOf q
  unit : ∀ q i, q ≠ p → s'.unit q i =
    if s.Full b ∧ s.fieldObj b .allocCount = some q ∧ i = 0 then (s.unit q 0).map (· - 1)
    else s.unit q i
  extrasOf : ∀ q, q ≠ p → s'.extrasOf q = s.extrasOf q
  block : ∀ x, s'.block x = if x = a ∨ s.Owns p x then none else s.block x
  requests : s'.requests = s.requests
  trace : s'.trace = .objFree p a :: s.trace

/-- The status of the base can be read. -/
def Sys.BaseReadable (s : Sys) (b : Ptr) : Prop := baseFull b s = .ok (decide (s.Full b)) s

theorem Sys.Minimal.readable (h : s.Minimal b) : s.BaseReadable b := by
  rw [BaseReadable, baseFull_minimal h, decide_eq_false h.not_full]

theorem Sys.IsSet.readable (h : s.IsSet b) : s.BaseReadable b := by
  by_cases ht : s.typeOf b = nil
  · exact Minimal.readable (.inr ⟨h.live, .inl ht⟩)
  · have hf : s.Full b := ⟨ht, h⟩
    rw [BaseReadable, baseFull_run hf, decide_eq_true hf]

theorem xSysFree_run (ha : a ≠ nil) (h : s.block a = some p) :
    xSysFree a s = .ok () ((s.drop p).dropBlock a) := by
  unfold xSysFree
  rw [if_neg ha, Prog.get_bind, h]
  rfl

/-- Giving back a block that holds no object. -/
theorem freeOwned_run (hp : s.Live p)
    (hown : s.flagsOf p &&& xObjFlagOwn ≠ 0 →
      ∃ w, s.unit p 0 = some w ∧ (w = nil ∨ s.block w = some nil)) :
    ∃ s', freeOwned p s = .ok () s' ∧ (∀ q, s'.obj q = s.obj q) ∧
      (∀ x, s'.block x = if s.Owns p x then none else s.block x) ∧
      s'.requests = s.requests ∧ s'.trace = s.trace := by
  unfold freeOwned
  rw [Prog.bind_of_ok (xObjFlags_eq hp)]
  by_cases ho : s.flagsOf p &&& xObjFlagOwn = 0
  · refine ⟨s, ?_, fun _ => rfl, fun x => ?_, rfl, rfl⟩
    · simp [ho]
    · rw [if_neg fun h => h.1 ho]
  · obtain ⟨w, hw, h⟩ := hown ho
    rw [if_pos ho, Prog.bind_of_ok (xFirst_eq hw)]
    by_cases hn : w = nil
    · refine ⟨s, by simp [xSysFree, hn], fun _ => rfl, fun x => ?_, rfl, rfl⟩
      rw [if_neg]
      rintro ⟨-, hx, hx'⟩
      rw [hw] at hx
      exact hx' (Option.some.inj hx ▸ hn)
    · refine ⟨_, xSysFree_run hn (h.resolve_left hn), fun q => ?_, fun x => ?_, rfl, rfl⟩
      · rw [obj_dropBlock, obj_drop]
        split
        · next e => rw [e, not_live_iff.mp not_live_nil]
        · rfl
      · rw [block_dropBlock, block_drop]
        by_cases hx : x = w
        · rw [if_pos hx, if_pos ⟨ho, hx ▸ hw, hx ▸ hn⟩]
        · rw [if_neg hx, if_neg]
          rintro ⟨-, h', -⟩
          exact hx (Option.some.inj (h'.symm.trans hw))

/-- What a base that `x_obj_free` works with must let it read. -/
structure Sys.FreeReady (s : Sys) (b : Ptr) (e : Nat) : Prop where
  readable : s.BaseReadable b
  extra : s.Full b → ∃ x, s.fieldInt b .objMetaExtra = some x ∧ toSizeT x = e
  not_full : ¬ s.Full b → e = 0
  count : s.Full b → ∃ c n, s.fieldObj b .allocCount = some c ∧ s.unit c 0 = some n

/-- `s'` is `s` when `x_obj_free` has given back what `p` owns, and the count has gone down. -/
structure Dying (s : Sys) (b p : Ptr) (s' : Sys) : Prop where
  live : ∀ q, s'.Live q ↔ s.Live q
  next : ∀ q, s'.next q = s.next q
  typeOf : ∀ q, s'.typeOf q = s.typeOf q
  flagsOf : ∀ q, s'.flagsOf q = s.flagsOf q
  unit : ∀ q i, s'.unit q i =
    if s.Full b ∧ s.fieldObj b .allocCount = some q ∧ i = 0 then (s.unit q 0).map (· - 1)
    else s.unit q i
  extrasOf : ∀ q, s'.extrasOf q = s.extrasOf q
  block : ∀ x, s'.block x = if s.Owns p x then none else s.block x
  requests : s'.requests = s.requests
  trace : s'.trace = s.trace

theorem freeExtra_run (hb : s.FreeReady b e) : freeExtra (decide (s.Full b)) b s = .ok e s := by
  unfold freeExtra
  by_cases hf : s.Full b
  · obtain ⟨x, hx, rfl⟩ := hb.extra hf
    rw [decide_eq_true hf, if_pos rfl, Prog.bind_of_ok (Field.int_run hx)]
    rfl
  · rw [decide_eq_false hf, hb.not_full hf]
    rfl

/-- A call comes to the block of the object. -/
theorem xObjFree_dying (hb : s.FreeReady b e) (hp : s.Live p)
    (hown : s.flagsOf p &&& xObjFlagOwn ≠ 0 →
      ∃ w, s.unit p 0 = some w ∧ (w = nil ∨ s.block w = some nil))
    (hcount : s.Full b → s.fieldObj b .allocCount ≠ some p) :
    ∃ s', Dying s b p s' ∧
      xObjFree b p s = xSysFree (s.freeAddr e p) (s'.log (.objFree p (s.freeAddr e p))) := by
  -- The count goes down first; nothing that is read afterwards depends on it.
  have hbump : ∃ s₁, (if decide (s.Full b) = true then bumpCount b (-1) else return) s =
      .ok () s₁ ∧ (∀ q, s₁.Live q ↔ s.Live q) ∧ (∀ q, s₁.next q = s.next q) ∧
      (∀ q, s₁.typeOf q = s.typeOf q) ∧ (∀ q, s₁.flagsOf q = s.flagsOf q) ∧
      (∀ q i, s₁.unit q i = if s.Full b ∧ s.fieldObj b .allocCount = some q ∧ i = 0 then
        (s.unit q 0).map (· - 1) else s.unit q i) ∧ (∀ q, s₁.extrasOf q = s.extrasOf q) ∧
      s₁.blocks = s.blocks ∧ s₁.requests = s.requests ∧ s₁.trace = s.trace := by
    by_cases hf : s.Full b
    · obtain ⟨c, n, hc, hn⟩ := hb.count hf
      refine ⟨s.setUnit c 0 (n + -1), ?_, by simp, by simp, by simp, by simp, fun q i => ?_,
        by simp, blocks_modify, requests_modify, trace_modify⟩
      · rw [decide_eq_true hf, if_pos rfl]
        exact bumpCount_ok.mpr ⟨c, n, hc, hn, rfl⟩
      · rw [unit_setUnit hn]
        by_cases hq : q = c
        · subst hq
          by_cases hi : i = 0
          · simp [hf, hc, hi, hn, sub_eq_add_neg]
          · simp [hi]
        · simp [hf, hc, hq, Ne.symm hq]
    · exact ⟨s, by simp [hf], by simp, by simp, by simp, by simp, by simp [hf], by simp, rfl, rfl,
        rfl⟩
  obtain ⟨s₁, hrun₁, hlive₁, hnext₁, htype₁, hflags₁, hunit₁, hextras₁, hblocks₁, hreq₁, htr₁⟩ :=
    hbump
  have hp₁ : s₁.Live p := (hlive₁ p).mpr hp
  have hup : s₁.unit p 0 = s.unit p 0 := by
    rw [hunit₁, if_neg fun h => hcount h.1 h.2.1]
  have hblk₁ : ∀ x, s₁.block x = s.block x := fun x => by rw [block, hblocks₁]; rfl
  have howns : ∀ x, s₁.Owns p x ↔ s.Owns p x := fun x => by simp only [Owns, hflags₁, hup]
  obtain ⟨s₂, hrun₂, hobj₂, hblk₂, hreq₂, htr₂⟩ := freeOwned_run hp₁ (by
    rw [hflags₁, hup]
    simpa only [hblk₁] using hown)
  have hp₂ : s₂.Live p := by rw [live_iff, hobj₂]; exact live_iff.mp hp₁
  have hflags₂ : s₂.flagsOf p = s.flagsOf p := by
    rw [flagsOf, hobj₂]; exact hflags₁ p
  refine ⟨s₂, ⟨fun q => ?_, fun q => ?_, fun q => ?_, fun q => ?_, fun q i => ?_, fun q => ?_,
    fun x => ?_, hreq₂.trans hreq₁, htr₂.trans htr₁⟩, ?_⟩
  · rw [live_iff, hobj₂, ← live_iff, hlive₁]
  · rw [Sys.next, hobj₂]; exact hnext₁ q
  · rw [Sys.typeOf, hobj₂]; exact htype₁ q
  · rw [Sys.flagsOf, hobj₂]; exact hflags₁ q
  · rw [Sys.unit, dataOf, hobj₂]; exact hunit₁ q i
  · rw [Sys.extrasOf, hobj₂]; exact hextras₁ q
  · simp only [hblk₂, hblk₁, howns]
  · have hlog : log (.objFree p (s.freeAddr e p)) s₂ =
      .ok ⟨⟩ (s₂.log (.objFree p (s.freeAddr e p))) := rfl
    unfold xObjFree
    rw [Prog.bind_of_ok hb.readable, Prog.bind_of_ok (freeExtra_run hb), Prog.bind_of_ok hrun₁,
      Prog.bind_of_ok hrun₂, Prog.bind_of_ok (xObjFlags_eq hp₂), hflags₂]
    exact Prog.bind_of_ok hlog

theorem xObjFree_run (hb : s.FreeReady b e) (hp : s.Live p)
    (hown : s.flagsOf p &&& xObjFlagOwn ≠ 0 →
      ∃ w, s.unit p 0 = some w ∧ (w = nil ∨ s.block w = some nil))
    (hcount : s.Full b → s.fieldObj b .allocCount ≠ some p)
    (ha : s.freeAddr e p ≠ nil) (hblock : s.block (s.freeAddr e p) = some p) :
    ∃ s', xObjFree b p s = .ok () s' ∧ Freed s b p (s.freeAddr e p) s' := by
  obtain ⟨s₂, hs, hrun⟩ := xObjFree_dying hb hp hown hcount
  have haddr : s₂.block (s.freeAddr e p) = some p := by
    rw [hs.block, if_neg, hblock]
    intro h
    obtain ⟨w, hw, h'⟩ := hown h.1
    obtain rfl : w = s.freeAddr e p := Option.some.inj (hw.symm.trans h.2.1)
    rcases h' with h' | h'
    · exact ha h'
    · exact hp.ne_nil (Option.some.inj (hblock.symm.trans h'))
  have hobj : ∀ q, q ≠ p → (((s₂.log (.objFree p (s.freeAddr e p))).drop p).dropBlock
      (s.freeAddr e p)).obj q = s₂.obj q := fun q hq => by
    rw [obj_dropBlock, obj_drop, if_neg hq, obj_log]
  refine ⟨_, hrun.trans (xSysFree_run ha haddr), ⟨fun q => ?_, fun q hq => ?_, fun q hq => ?_,
    fun q hq => ?_, fun q i hq => ?_, fun q hq => ?_, fun x => ?_, hs.requests,
    congrArg (Event.objFree p _ :: ·) hs.trace⟩⟩
  · rw [live_dropBlock, live_drop, live_log, hs.live]
  · rw [Sys.next, hobj q hq]; exact hs.next q
  · rw [Sys.typeOf, hobj q hq]; exact hs.typeOf q
  · rw [Sys.flagsOf, hobj q hq]; exact hs.flagsOf q
  · rw [Sys.unit, dataOf, hobj q hq]; exact hs.unit q i
  · rw [Sys.extrasOf, hobj q hq]; exact hs.extrasOf q
  · rw [block_dropBlock, block_drop, block_log, hs.block]
    by_cases hx : x = s.freeAddr e p
    · rw [if_pos hx, if_pos (.inl hx)]
    · rw [if_neg hx]
      simp only [hx, false_or]

end XExpr
