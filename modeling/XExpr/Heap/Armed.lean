import Mathlib.Data.Set.Card
import XExpr.Heap.Limit

/-!
# An armed base

What a program with registered frames relies on in its base, if it gave the base a type and a limit.

* `Sys.held`: the objects on the chain that a sweep may free.
* `Armed`: the values that allocation reads, and a count that is the number of these objects.
* `Mode.Holds`: a base without a type, or an armed one. `Mode.Holds.step`: a step that changes
  nothing in its tree but the count. `Mode.Holds.setHead`: the head of the root chain is assigned.
* `HeapInv.placedBase`: an armed base under the heap invariant is placed, so what is known of a base
  with a limit holds of it.
-/

namespace XExpr

open Sys Chain
open Mem (chase)

/-! ## Stores into the tree -/

section Tree

variable {s s' : Sys} {b a : Ptr} {t : Cells Word} {cell : Field → Layout Word} {f : Field}
  {x : Option Word} {w : Word} {c : Client}

/-- What the tree leaves open is what it is. -/
theorem BaseTree.pin (h : BaseTree s b t cell) (hf : cell f = cellObj x) :
    ∃ t' w, s.fieldObj b f = some w ∧
      BaseTree s b t' (Function.update cell f (cellObj (some w))) ∧ t'.nodes ⊆ t.nodes := by
  obtain ⟨a, w, ha, hw, -, hu, -⟩ := h.fieldSlot hf
  obtain ⟨t', ht', hsub⟩ := h.assign (w := w) hf ha fun q _ j => by
    split
    · next e => rw [e.1, e.2, hu]
    · rfl
  exact ⟨t', w, hw, ht', hsub⟩

/-- A client with one base. -/
theorem HeapInv.single {L : List Ptr} {k : Kept} (hchain : ChainInv c.sys c.root L c.locals)
    (hb : c.bases = [c.root]) (hbase : BaseInv c.sys c.locals c.root t k (c.roots c.root))
    (hsub : t.nodes ⊆ L) : HeapInv c L (fun _ => t) fun _ => k := by
  have hone : ∀ q ∈ c.bases, q = c.root := fun q hq => by rwa [hb, List.mem_singleton] at hq
  refine ⟨hchain, ?_, fun q hq => ?_, fun q hq => ?_, fun _ _ => hsub, fun q hq r hr hne => ?_,
    fun q hq _ _ => ?_, fun q hq r hr hne => ?_⟩
  · rw [hb]
    exact .head _
  · rw [hone q hq]
    exact .head _
  · rw [hone q hq]
    exact hbase
  · exact absurd ((hone q hq).trans (hone r hr).symm) hne
  · rw [hone q hq]
    exact (List.nodup_cons.mp hbase.tree.nodup).1
  · exact absurd ((hone q hq).trans (hone r hr).symm) hne

end Tree

/-! ## The base -/

/-- The objects on the chain of `b` that a sweep may free. -/
def Sys.held (s : Sys) (b : Ptr) : Set Ptr :=
  {p | p ∈ outstanding s.trace ∧ p ≠ b ∧ s.flagsOf p &&& xObjFlagShared = 0}

theorem Sys.held_finite (s : Sys) (b : Ptr) : (s.held b).Finite :=
  (outstanding s.trace).finite_toSet.subset fun _ h => h.1

/-- The cells that allocation depends on, a root chain and a mark hook. -/
def Ceiling.rooted (k : Ceiling) : Field → Layout Word
  | .heapRootChain | .heapMark => cellObj none
  | f => k.cell f

theorem Ceiling.rooted_relaxes (k : Ceiling) (f : Field) : (k.rooted f).relaxes (k.cell f) := by
  cases f <;> simp [rooted, Ceiling.cell, cellObj, cellInt, anyWord, Layout.relaxes]

/-- A full base with `n` objects that a sweep may free. `S` are the static objects. -/
structure Armed (s : Sys) (b : Ptr) (S : List Ptr) (k : Ceiling) (n : Nat) : Prop where
  typed : s.typeOf b ≠ nil
  tree : ∃ t, BaseTree s b t k.rooted ∧
    ∀ q ∈ t.nodes, q ∈ outstanding s.trace ∧ s.flagsOf q &&& xObjFlagShared ≠ 0
  extra : k.extra = 0
  msg : s.Hook S k.msg
  hook : s.Hook S k.hook
  count : s.fieldInt b .allocCount = some (n : Int)
  held : (s.held b).ncard = n

/-- What a program knows of its base. -/
inductive Mode
  /-- It has no type. -/
  | bare
  /-- It has a limit, and `n` objects that a sweep may free. -/
  | armed (k : Ceiling) (n : Nat)

namespace Mode

def Holds (s : Sys) (b : Ptr) (S : List Ptr) : Mode → Prop
  | bare => s.typeOf b = nil
  | armed k n => Armed s b S k n

def withCount : Mode → Nat → Mode
  | bare, _ => bare
  | armed k _, n => armed k n

def add : Mode → Nat → Mode
  | bare, _ => bare
  | armed k n, d => armed k (n + d)

@[simp] theorem add_zero {m : Mode} : m.add 0 = m := by cases m <;> rfl

end Mode

section Armed

variable {env : Env} {s s' : Sys} {b p q cell : Ptr} {S : List Ptr} {k : Ceiling} {n : Nat}
  {m : Mode} {v w : Word}

namespace Armed

theorem full (h : Armed s b S k n) : s.Full b := by
  obtain ⟨t, ht, -⟩ := h.tree
  exact ⟨h.typed, ht.isSet⟩

/-- Below the limit, the fields lead to `malloc`. -/
theorem ready (h : Armed s b S k n) (hpos : 0 ≤ k.limit) (hlt : 0 < k.limit → (n : Int) < k.limit) :
    s.AllocReady b := by
  obtain ⟨t, ht, -⟩ := h.tree
  obtain ⟨c, u, hc, -, hu, -⟩ := ht.fieldAtom (f := .allocCount) rfl
  exact ⟨h.full, ⟨k.extra, ht.fieldInt (f := .objMetaExtra) rfl⟩,
    ⟨k.limit, ht.fieldInt (f := .allocLimit) rfl, hpos, fun hl => ⟨n, h.count, hlt hl⟩⟩,
    ⟨k.msg, ht.fieldObj (f := .allocError) rfl⟩, ⟨c, u, hc, hu⟩⟩

/-- A step that changes the count by `d`, and nothing else of the base. -/
theorem step {d : Int} {n' : Nat} (h : Armed s b S k n) (htype : s'.typeOf b = s.typeOf b)
    (hunit : ∀ q, q = b ∨ q ∈ outstanding s.trace ∧ s.flagsOf q &&& xObjFlagShared ≠ 0 →
      ∀ i, s'.unit q i =
        if s.Full b ∧ s.fieldObj b .allocCount = some q ∧ i = 0 then (s.unit q 0).map (· + d)
        else s.unit q i)
    (hread : ∀ q ∈ S, ∀ w, s.unit q 0 = some w → ∃ w', s'.unit q 0 = some w')
    (hkeep : ∀ q, q ∈ outstanding s.trace → s.flagsOf q &&& xObjFlagShared ≠ 0 →
      q ∈ outstanding s'.trace ∧ s'.flagsOf q &&& xObjFlagShared ≠ 0)
    (hheld : (s'.held b).ncard = n') (hd : ((s.held b).ncard : Int) + d = n') :
    Armed s' b S k n' := by
  obtain ⟨t, ht, hn⟩ := h.tree
  have hnode : ∀ q ∈ b :: t.nodes, ∀ i, s'.unit q i =
      if s.fieldObj b .allocCount = some q ∧ i = 0 then (s.unit q 0).map (· + d)
      else s.unit q i := fun q hq i => by
    rw [hunit q ((List.mem_cons.mp hq).imp id (hn q)) i]
    simp only [h.full, true_and]
  have ht' : BaseTree s' b t k.rooted := ht.count (g := (· + d)) rfl hnode
  obtain ⟨c, u, hc, hmem, hu, -⟩ := ht.fieldAtom (f := .allocCount) rfl
  refine ⟨by rw [htype]; exact h.typed, ⟨t, ht', fun q hq => hkeep q (hn q hq).1 (hn q hq).2⟩,
    h.extra, h.msg.mono (List.Subset.refl _) hread, h.hook.mono (List.Subset.refl _) hread, ?_,
    hheld⟩
  have hcu : u = (n : Int) := by
    have hcount := h.count
    rw [Sys.fieldInt, hc, Option.bind_some, hu] at hcount
    exact Option.some.inj hcount
  rw [Sys.fieldInt, ht.count_congr ht' rfl rfl, hc, Option.bind_some, hnode c (.tail _ hmem),
    if_pos ⟨hc, rfl⟩, hu, ← hd, h.held, hcu]
  rfl

/-- The head of the root chain is in a unit of its own. -/
theorem setHead (h : Armed s b S k n)
    (hc : chase s.unit b Field.heapRootChain.path = some cell) (hu : s.unit cell 0 = some v) :
    Armed (s.setUnit cell 0 w) b S k n := by
  obtain ⟨t, ht, hn⟩ := h.tree
  obtain ⟨cell', -, hc', -, -, -, hs, hd⟩ := ht.fieldSlot (f := .heapRootChain) rfl
  obtain rfl : cell = cell' := Option.some.inj (hc.symm.trans hc')
  have ht' : BaseTree (s.setUnit cell 0 w) b t k.rooted := by
    refine ht.open_unit (u := w) hs hd (fun q _ j u hne hq => ?_) ?_
    · rw [unit_setUnit hu, if_neg fun e => hne (by rw [e.1, e.2]), hq]
    · rw [unit_setUnit hu, if_pos ⟨rfl, rfl⟩]
  have hread : ∀ q ∈ S, ∀ u, s.unit q 0 = some u →
      ∃ u', (s.setUnit cell 0 w).unit q 0 = some u' := by
    intro q _ u hq
    rw [unit_setUnit hu]
    split
    · exact ⟨w, rfl⟩
    · exact ⟨u, hq⟩
  have htrace : (s.setUnit cell 0 w).trace = s.trace := trace_modify
  refine ⟨by rw [typeOf_setUnit]; exact h.typed, ⟨t, ht', fun q hq => ?_⟩, h.extra,
    h.msg.mono (List.Subset.refl _) hread, h.hook.mono (List.Subset.refl _) hread, ?_, ?_⟩
  · rw [htrace, flagsOf_setUnit]
    exact hn q hq
  · obtain ⟨c, u, hc, -, -, hs', -⟩ := ht.fieldAtom (f := .allocCount) rfl
    have hcount := h.count
    rw [Sys.fieldInt, hc, Option.bind_some] at hcount
    rw [Sys.fieldInt, ht.count_congr ht' rfl rfl, hc, Option.bind_some, unit_setUnit hu, if_neg,
      hcount]
    rintro ⟨rfl, -⟩
    have hne : Field.heapRootChain.valuePath ≠ Field.allocCount.valuePath ++ [false] := by decide
    exact hne (Cells.slot_inj (c := .atom b t) ht.nodup hs hs')
  · simpa only [Sys.held, htrace, flagsOf_setUnit] using h.held

end Armed

namespace Mode.Holds

theorem step {d : Int} {n' : Nat} (h : m.Holds s b S) (htype : s'.typeOf b = s.typeOf b)
    (hunit : ∀ q, q = b ∨ q ∈ outstanding s.trace ∧ s.flagsOf q &&& xObjFlagShared ≠ 0 →
      ∀ i, s'.unit q i =
        if s.Full b ∧ s.fieldObj b .allocCount = some q ∧ i = 0 then (s.unit q 0).map (· + d)
        else s.unit q i)
    (hread : ∀ q ∈ S, ∀ w, s.unit q 0 = some w → ∃ w', s'.unit q 0 = some w')
    (hkeep : ∀ q, q ∈ outstanding s.trace → s.flagsOf q &&& xObjFlagShared ≠ 0 →
      q ∈ outstanding s'.trace ∧ s'.flagsOf q &&& xObjFlagShared ≠ 0)
    (hheld : (s'.held b).ncard = n') (hd : ((s.held b).ncard : Int) + d = n') :
    (m.withCount n').Holds s' b S := by
  cases m with
  | bare => exact htype.trans h
  | armed k n => exact Armed.step h htype hunit hread hkeep hheld hd

theorem withCount_add (h : m.Holds s b S) (d : Nat) :
    m.withCount ((s.held b).ncard + d) = m.add d := by
  cases m with
  | bare => rfl
  | armed k n => rw [Mode.withCount, Mode.add, Armed.held h]

/-- A step that leaves the base and the objects on it alone. -/
theorem still (h : m.Holds s b S) (htype : s'.typeOf b = s.typeOf b)
    (hunit : ∀ q, q = b ∨ q ∈ outstanding s.trace ∧ s.flagsOf q &&& xObjFlagShared ≠ 0 →
      ∀ i, s'.unit q i = s.unit q i)
    (hread : ∀ q ∈ S, ∀ w, s.unit q 0 = some w → ∃ w', s'.unit q 0 = some w')
    (hout : ∀ q, q ∈ outstanding s'.trace ↔ q ∈ outstanding s.trace)
    (hflags : ∀ q ∈ outstanding s.trace,
      s'.flagsOf q &&& xObjFlagShared = s.flagsOf q &&& xObjFlagShared) : m.Holds s' b S := by
  have hheld : s'.held b = s.held b := Set.ext fun q =>
    (and_congr_left fun _ => hout q).trans (and_congr_right fun hq => by rw [hflags q hq])
  have hstep := h.step (d := 0) htype (fun q hq i => ?_) hread
    (fun q hq hs => ⟨(hout q).mpr hq, by rwa [hflags q hq]⟩) (congrArg Set.ncard hheld)
    (Int.add_zero _)
  · rwa [show m.withCount (s.held b).ncard = m.add 0 from h.withCount_add 0, add_zero] at hstep
  · rw [hunit q hq]
    split
    · next e =>
      rw [e.2.2]
      cases s.unit q 0 with
      | none => rfl
      | some u => exact congrArg some (Int.add_zero u).symm
    · rfl

theorem setHead (h : m.Holds s b S)
    (hc : chase s.unit b Field.heapRootChain.path = some cell) (hu : s.unit cell 0 = some v) :
    m.Holds (s.setUnit cell 0 w) b S := by
  cases m with
  | bare => exact typeOf_setUnit.trans h
  | armed k n => exact Armed.setHead h hc hu

end Mode.Holds

end Armed

end XExpr
