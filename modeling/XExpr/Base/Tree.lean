import XExpr.Base.Make
import XExpr.Heap.Mark
import XExpr.Obj.FreeLemmas

/-!
# The tree of a base

What `x_base_make` builds is a fixed spine with one cell for each field. A `skeleton` is that
spine, with a layout for each cell, and with the extension points and everything past the lists
left open. `BaseTree s b t cell`: the base `b` leads to the tree `t` of this shape, and no node
occurs twice.

* `BaseTree.cell`, `BaseTree.fieldObj`, `BaseTree.fieldInt`: what the accessors read.
* `BaseTree.mono`: the tree stays where its fixed units do.
* `BaseTree.open_unit`: a unit that the shape leaves open may change.
-/

namespace XExpr

open Sys
open Mem (chase walk)

/-- A word about which nothing is said. -/
def anyWord : Layout Word := .leaf none

/-- A list with one cell for each field. -/
def fieldList (cell : Field → Layout Word) (l : List Field) : Layout Word :=
  l.foldr (fun f r => .pair (cell f) r) anyWord

/-- The shape of a base tree. -/
def skeleton (cell : Field → Layout Word) : Layout Word :=
  .pair anyWord
    (.pair
      (.pair
        (.pair anyWord (fieldList cell [.filein, .fileout, .fileerr, .writeBuf, .buffer]))
        anyWord)
      (.pair
        (.pair
          (fieldList cell [.profileAllocs])
          (fieldList cell [.hookTypeName, .hookUnits, .hookLength, .hookError]))
        (.pair
          (fieldList cell [.objMetaExtra, .heapMark, .heapFree, .heapMarkHooks, .heapFreeHooks,
            .heapMarkRoots, .heapRootChain])
          (.pair (fieldList cell [.allocCount, .allocLimit, .allocError]) anyWord))))

/-- A cell whose current value is the word `w`. -/
def cellObj (w : Option Word) : Layout Word := .pair (.leaf w) anyWord

/-- A cell whose current value is an atom that holds the word `w`. -/
def cellInt (w : Option Word) : Layout Word := .pair (.atom (.leaf w)) anyWord

section Skeleton

variable {cell : Field → Layout Word} {f : Field}

theorem skeleton_sub : (Layout.atom (skeleton cell)).sub f.path = some (cell f) := by
  cases f <;>
    simp [Field.path, Field.nodePath, Field.listPath, Field.index, skeleton, fieldList,
      Layout.sub, List.replicate]

/-- Every path starts at the base object's only unit. -/
theorem Field.valuePath_eq (f : Field) : ∃ π, f.valuePath = false :: π := by
  cases f <;> exact ⟨_, rfl⟩

theorem skeleton_put (d : Layout Word) : (Layout.atom (skeleton cell)).put f.path d =
    .atom (skeleton (Function.update cell f d)) := by
  cases f <;>
    simp [Field.path, Field.nodePath, Field.listPath, Field.index, skeleton, fieldList,
      Layout.put, Function.update, List.replicate]

theorem skeleton_relaxes {cell' : Field → Layout Word} (h : ∀ f, (cell f).relaxes (cell' f)) :
    (skeleton cell).relaxes (skeleton cell') := by
  simp [skeleton, fieldList, anyWord, Layout.relaxes, h]

end Skeleton

/-- The base `b` leads to the tree `t`, with the cells as `cell` says. -/
structure BaseTree (s : Sys) (b : Ptr) (t : Cells Word) (cell : Field → Layout Word) : Prop where
  fits : (Cells.atom b t).Fits s.unit b
  layout : t.layout = skeleton cell
  nodup : (b :: t.nodes).Nodup

namespace BaseTree

variable {s s' : Sys} {b : Ptr} {t : Cells Word} {cell : Field → Layout Word} {f : Field}
  {x : Option Word} {w : Word} {π : List Bool} {d : Cells Word}

theorem sub (h : BaseTree s b t cell) (f : Field) :
    ∃ d, (Cells.atom b t).sub f.path = some d ∧ d.layout = cell f := by
  have e := Cells.sub_layout (c := .atom b t) (π := f.path)
  rw [Cells.layout, h.layout, skeleton_sub] at e
  obtain ⟨d, hd, e⟩ := Option.map_eq_some_iff.mp e.symm
  exact ⟨d, hd, e⟩

/-- The base object holds the root of the tree. -/
theorem root (h : BaseTree s b t cell) : ∃ u, s.unit b 0 = some u ∧ t.Fits s.unit u := h.fits.2

theorem isSet (h : BaseTree s b t cell) : s.IsSet b := by
  obtain ⟨u, hu, ht⟩ := h.root
  rcases t with _ | _ | ⟨p, l, r⟩
  · cases h.layout
  · cases h.layout
  · obtain ⟨rfl, ⟨v, hv, -⟩, -⟩ := ht
    simp [IsSet, hu, (live_of_unit hv).ne_nil]

theorem live (h : BaseTree s b t cell) : s.Live b := h.isSet.live

theorem live_node {p : Ptr} (h : BaseTree s b t cell) (hp : p ∈ t.nodes) : s.Live p := by
  obtain ⟨u, -, ht⟩ := h.root
  clear h
  induction t generalizing u with
  | leaf _ => cases hp
  | atom q c ih =>
    obtain ⟨rfl, v, hv, hc⟩ := ht
    rcases List.mem_cons.mp hp with rfl | hp
    · exact live_of_unit hv
    · exact ih hp v hc
  | pair q l r ihl ihr =>
    obtain ⟨rfl, ⟨v, hv, hl⟩, v', -, hr⟩ := ht
    rcases List.mem_cons.mp hp with rfl | hp
    · exact live_of_unit hv
    · rcases List.mem_append.mp hp with hp | hp
      · exact ihl hp v hl
      · exact ihr hp v' hr

theorem mem_live {x : Ptr} (h : BaseTree s b t cell) (hx : x ∈ b :: t.nodes) : s.Live x := by
  rcases List.mem_cons.mp hx with rfl | hx
  · exact h.live
  · exact h.live_node hx

/-! ### Reading -/

/-- The cell of a field. -/
theorem cellAt (h : BaseTree s b t cell) (f : Field) :
    ∃ c d, chase s.unit b f.path = some c ∧ (Cells.atom b t).sub f.path = some d ∧
      d.layout = cell f ∧ d.Fits s.unit c := by
  obtain ⟨d, hd, he⟩ := h.sub f
  obtain ⟨c, hc, hf⟩ := h.fits.chase hd
  exact ⟨c, d, hc, hd, he, hf⟩

/-- The current value of a field. -/
theorem value {v r : Layout Word} (h : BaseTree s b t cell) (hf : cell f = .pair v r) :
    ∃ w d, s.fieldObj b f = some w ∧ (Cells.atom b t).sub f.valuePath = some d ∧
      d.layout = v ∧ d.Fits s.unit w := by
  obtain ⟨c, d, -, hd, he, -⟩ := h.cellAt f
  rw [hf] at he
  rcases d with _ | _ | ⟨p, l, r⟩
  · cases he
  · cases he
  · cases he
    have hv : (Cells.atom b t).sub f.valuePath = some l := by
      rw [Field.valuePath, Cells.sub_append, hd]
      simp [Cells.sub]
    obtain ⟨w, hw, hfit⟩ := h.fits.chase hv
    exact ⟨w, l, hw, hv, rfl, hfit⟩

theorem fieldObj (h : BaseTree s b t cell) (hf : cell f = cellObj (some w)) :
    s.fieldObj b f = some w := by
  obtain ⟨w', d, hw, -, he, hfit⟩ := h.value hf
  rcases d with v | _ | _
  · cases he
    obtain rfl : w' = w := hfit w rfl
    exact hw
  · cases he
  · cases he

/-- The atom of an integer field, and what it holds. -/
theorem fieldAtom {r : Layout Word} (h : BaseTree s b t cell)
    (hf : cell f = .pair (.atom (.leaf x)) r) :
    ∃ a n, s.fieldObj b f = some a ∧ a ∈ t.nodes ∧ s.unit a 0 = some n ∧
      (Cells.atom b t).slot (f.valuePath ++ [false]) = some (a, 0) ∧
      (Cells.atom b t).sub (f.valuePath ++ [false]) = some (.leaf x) ∧ ∀ v ∈ x, n = v := by
  obtain ⟨a, d, ha, hd, he, hfit⟩ := h.value hf
  rcases d with _ | ⟨p, d⟩ | _
  · cases he
  · rcases d with y | _ | _
    · cases he
      obtain ⟨rfl, n, hn, hv⟩ := hfit
      have hs : (Cells.atom b t).sub (f.valuePath ++ [false]) = some (.leaf x) := by
        rw [Cells.sub_append, hd]
        simp [Cells.sub]
      obtain ⟨p, hp⟩ := Cells.slot_of_sub hs
      obtain ⟨hchase, -, -⟩ := h.fits.slot hp
      obtain rfl : a = p := Option.some.inj (ha.symm.trans hchase)
      refine ⟨a, n, ha, ?_, hn, hp, hs, hv⟩
      obtain ⟨π, hπ⟩ := f.valuePath_eq
      rw [hπ] at hd
      exact Cells.nodes_sub (show t.sub π = some _ from hd) (List.mem_cons_self ..)
    · cases he
    · cases he
  · cases he

theorem fieldInt (h : BaseTree s b t cell) (hf : cell f = cellInt (some w)) :
    s.fieldInt b f = some w := by
  obtain ⟨a, n, ha, -, hn, -, -, hv⟩ := h.fieldAtom hf
  rw [Sys.fieldInt, ha, Option.bind_some, hn, hv w rfl]

/-- The unit that holds the current value of a field. -/
theorem fieldSlot (h : BaseTree s b t cell) (hf : cell f = cellObj x) :
    ∃ c w, chase s.unit b f.path = some c ∧ s.fieldObj b f = some w ∧ c ∈ t.nodes ∧
      s.unit c 0 = some w ∧ (Cells.atom b t).slot f.valuePath = some (c, 0) ∧
      (Cells.atom b t).sub f.valuePath = some (.leaf x) := by
  obtain ⟨c, d, hc, hd, he, hfit⟩ := h.cellAt f
  rw [hf] at he
  rcases d with _ | _ | ⟨p, l, r⟩
  · cases he
  · cases he
  · rcases l with y | _ | _
    · obtain rfl : x = y := by simpa [Cells.layout, eq_comm] using (Layout.pair.inj he).1
      obtain ⟨rfl, ⟨w, hw, -⟩, -⟩ := hfit
      have hs : (Cells.atom b t).sub f.valuePath = some (.leaf x) := by
        rw [Field.valuePath, Cells.sub_append, hd]
        simp [Cells.sub]
      obtain ⟨p, hp⟩ := Cells.slot_of_sub hs
      obtain ⟨hchase, -, -⟩ := h.fits.slot hp
      obtain rfl : c = p := Option.some.inj (hc.symm.trans hchase)
      refine ⟨c, w, hc, ?_, ?_, hw, hp, hs⟩
      · rw [Sys.fieldObj, Field.valuePath, Mem.chase_append, hc]
        simp [chase, hw]
      · obtain ⟨π, hπ⟩ : ∃ π, f.path = false :: π := by cases f <;> exact ⟨_, rfl⟩
        rw [hπ] at hd
        exact Cells.nodes_sub (show t.sub π = some _ from hd) (List.mem_cons_self ..)
    · cases (Layout.pair.inj he).1
    · cases (Layout.pair.inj he).1

/-! ### Changes of the memory -/

theorem mono (h : BaseTree s b t cell) (hm : ∀ q ∈ b :: t.nodes, ∀ i u, s.unit q i = some u →
    ∃ u', s'.unit q i = some u' ∧ ((q, i) ∈ (Cells.atom b t).fixed → u' = u)) :
    BaseTree s' b t cell :=
  ⟨h.fits.mono hm, h.layout, h.nodup⟩

theorem congr (h : BaseTree s b t cell)
    (hm : ∀ q ∈ b :: t.nodes, ∀ i u, s.unit q i = some u → s'.unit q i = some u) :
    BaseTree s' b t cell :=
  ⟨h.fits.congr hm, h.layout, h.nodup⟩

/-- A unit that the shape leaves open may change. -/
theorem open_unit {p : Ptr} {i : Nat} {u : Word} (h : BaseTree s b t cell)
    (hs : (Cells.atom b t).slot π = some (p, i))
    (ho : (Cells.atom b t).sub π = some (.leaf none))
    (hm : ∀ q ∈ b :: t.nodes, ∀ j u, (q, j) ≠ (p, i) → s.unit q j = some u → s'.unit q j = some u)
    (hu : s'.unit p i = some u) : BaseTree s' b t cell := by
  have hfit := h.fits.put h.nodup hs hm hu (d := .leaf none) (by simp [Cells.Fits])
  rw [Cells.put_sub ho] at hfit
  exact ⟨hfit, h.layout, h.nodup⟩

/-- The object count may change. -/
theorem count {r : Layout Word} (h : BaseTree s b t cell)
    (hf : cell .allocCount = .pair (.atom (.leaf none)) r) {g : Word → Word}
    (hm : ∀ q ∈ b :: t.nodes, ∀ i, s'.unit q i =
      if s.fieldObj b .allocCount = some q ∧ i = 0 then (s.unit q 0).map g else s.unit q i) :
    BaseTree s' b t cell := by
  obtain ⟨a, n, ha, hmem, hn, hs, ho, -⟩ := h.fieldAtom hf
  refine h.open_unit hs ho (u := g n) (fun q hq j u hne hu => ?_) ?_
  · rw [hm q hq, if_neg, hu]
    rintro ⟨h₁, rfl⟩
    rw [ha] at h₁
    exact hne (by rw [Option.some.inj h₁])
  · rw [hm a (.tail _ hmem), if_pos ⟨ha, rfl⟩, hn]
    rfl

/-- The part at the path `ρ` of a cell replaced. -/
theorem putAt {e : Cells Word} {p : Ptr} {i : Nat} {u : Word} {ρ : List Bool}
    (h : BaseTree s b t cell) (hs : (Cells.atom b t).slot (f.path ++ ρ) = some (p, i))
    (hd : (Cells.atom b t).sub (f.path ++ ρ) = some d) (he : e.nodes.Nodup)
    (hn : ∀ x ∈ e.nodes, x ∈ b :: t.nodes → x ∈ d.nodes)
    (hm : ∀ q ∈ b :: t.nodes, ∀ j u, (q, j) ≠ (p, i) → s.unit q j = some u → s'.unit q j = some u)
    (hu : s'.unit p i = some u) (hfit : e.Fits s'.unit u) :
    ∃ t', BaseTree s' b t' (Function.update cell f ((cell f).put ρ e.layout)) ∧
      (∀ x ∈ t'.nodes, x ∈ t.nodes ∨ x ∈ e.nodes) ∧
      ∀ x ∈ t'.pairs, x ∈ t.pairs ∨ x ∈ e.pairs := by
  obtain ⟨π, hπ⟩ : ∃ π, f.path = false :: π := by cases f <;> exact ⟨_, rfl⟩
  have hput : (Cells.atom b t).put (f.path ++ ρ) e = .atom b (t.put (π ++ ρ) e) := by
    rw [hπ]; rfl
  have hsub : t.sub (π ++ ρ) = some d := by rw [hπ] at hd; exact hd
  have hnodup : (b :: (t.put (π ++ ρ) e).nodes).Nodup := by
    have := Cells.nodup_put (c := .atom b t) h.nodup hd he hn
    rwa [hput] at this
  refine ⟨t.put (π ++ ρ) e, ⟨?_, ?_, hnodup⟩, fun x hx => Cells.mem_nodes_put hsub hx,
    fun x hx => Cells.mem_pairs_put hx⟩
  · rw [← hput]
    exact h.fits.put h.nodup hs hm hu hfit
  · have hlay : (Cells.atom b (t.put (π ++ ρ) e)).layout =
        .atom (skeleton (Function.update cell f ((cell f).put ρ e.layout))) := by
      have e' : (Cells.atom b t).layout = .atom (skeleton cell) := congrArg _ h.layout
      rw [← hput, Cells.layout_put, e', Layout.put_append skeleton_sub, skeleton_put]
    exact Layout.atom.inj hlay

/-- The current value of a field assigned. -/
theorem assign {c : Ptr} (h : BaseTree s b t cell) (hf : cell f = cellObj x)
    (hc : chase s.unit b f.path = some c)
    (hm : ∀ q ∈ b :: t.nodes, ∀ j, s'.unit q j = if q = c ∧ j = 0 then some w else s.unit q j) :
    ∃ t', BaseTree s' b t' (Function.update cell f (cellObj (some w))) ∧ t'.nodes ⊆ t.nodes := by
  obtain ⟨c', v, hc', -, hmem, -, hs, hsub⟩ := h.fieldSlot hf
  obtain rfl : c = c' := Option.some.inj (hc.symm.trans hc')
  obtain ⟨t', ht', hnodes, -⟩ := h.putAt (e := .leaf (some w)) (u := w) hs hsub .nil
    (fun _ hx => absurd hx List.not_mem_nil)
    (fun q hq j u hne hu => by rw [hm q hq, if_neg fun e => hne (by rw [e.1, e.2]), hu])
    (by rw [hm c (.tail _ hmem), if_pos ⟨rfl, rfl⟩]) (by simp [Cells.Fits])
  rw [hf] at ht'
  exact ⟨t', ht', fun x hx => (hnodes x hx).resolve_right List.not_mem_nil⟩

/-- The integer of a field assigned. -/
theorem assignInt {a : Ptr} (h : BaseTree s b t cell) (hf : cell f = cellInt x)
    (ha : s.fieldObj b f = some a)
    (hm : ∀ q ∈ b :: t.nodes, ∀ j, s'.unit q j = if q = a ∧ j = 0 then some w else s.unit q j) :
    ∃ t', BaseTree s' b t' (Function.update cell f (cellInt (some w))) ∧ t'.nodes ⊆ t.nodes := by
  obtain ⟨a', u, ha', hmem, -, hs, hsub, -⟩ := h.fieldAtom hf
  obtain rfl : a = a' := Option.some.inj (ha.symm.trans ha')
  rw [Field.valuePath, List.append_assoc] at hs hsub
  obtain ⟨t', ht', hnodes, -⟩ := h.putAt (e := .leaf (some w)) (u := w) hs hsub .nil
    (fun _ hx => absurd hx List.not_mem_nil)
    (fun q hq j u hne hu => by rw [hm q hq, if_neg fun e => hne (by rw [e.1, e.2]), hu])
    (by rw [hm a (.tail _ hmem), if_pos ⟨rfl, rfl⟩]) (by simp [Cells.Fits])
  rw [hf] at ht'
  exact ⟨t', ht', fun x hx => (hnodes x hx).resolve_right List.not_mem_nil⟩

/-- The node of the list that holds the cell of a field. -/
theorem nodeSlot (h : BaseTree s b t cell) (f : Field) :
    ∃ n c d, chase s.unit b f.nodePath = some n ∧ s.unit n 0 = some c ∧
      chase s.unit b f.path = some c ∧ n ∈ t.nodes ∧
      (Cells.atom b t).slot f.path = some (n, 0) ∧ (Cells.atom b t).sub f.path = some d ∧
      d.layout = cell f ∧ d.Fits s.unit c := by
  obtain ⟨c, d, hc, hd, he, hfit⟩ := h.cellAt f
  obtain ⟨n, hn⟩ := Cells.slot_of_sub (c := .atom b t) (π := f.nodePath) (b := false) hd
  obtain ⟨hchase, -, -⟩ := h.fits.slot hn
  have hmem : n ∈ t.nodes := by
    obtain ⟨a, π, hπ⟩ : ∃ a π, f.path = false :: a :: π := by cases f <;> exact ⟨_, _, rfl⟩
    have hn' : (Cells.atom b t).slot f.path = some (n, 0) := hn
    rw [hπ] at hn'
    exact Cells.mem_nodes_of_slot (show t.slot (a :: π) = some (n, 0) from hn')
  refine ⟨n, c, d, hchase, ?_, hc, hmem, hn, hd, he, hfit⟩
  rw [Field.path, Mem.chase_append, hchase] at hc
  simpa [chase] using hc

/-- The same base with less said about its cells. -/
theorem relax {cell' : Field → Layout Word} (h : BaseTree s b t cell)
    (hc : ∀ f, (cell f).relaxes (cell' f)) :
    ∃ t', BaseTree s b t' cell' ∧ t'.nodes ⊆ t.nodes ∧ t'.pairs ⊆ t.pairs := by
  obtain ⟨u, hu, ht⟩ := h.root
  obtain ⟨t', hfit, hl, hsub, hpairs⟩ := ht.relax (t := skeleton cell')
    (h.layout ▸ skeleton_relaxes hc)
  have hb : b ∉ t.nodes := (List.nodup_cons.mp h.nodup).1
  refine ⟨t', ⟨⟨rfl, u, hu, hfit⟩, hl, ?_⟩, hsub.subset, hpairs⟩
  exact List.nodup_cons.mpr
    ⟨fun hm => hb (hsub.subset hm), hsub.nodup (List.nodup_cons.mp h.nodup).2⟩

/-! ### What the library reads -/

theorem freeReady (h : BaseTree s b t cell)
    (hx : s.Full b → cell .objMetaExtra = cellInt x ∧ cell .allocCount = cellInt none) :
    s.FreeReady b (s.extraOf b) where
  readable := h.isSet.readable
  extra hf := by
    obtain ⟨a, n, ha, -, hn, -, -, -⟩ := h.fieldAtom (hx hf).1
    have hi : s.fieldInt b .objMetaExtra = some n := by rw [Sys.fieldInt, ha]; exact hn
    exact ⟨n, hi, by simp [extraOf, hf, hi]⟩
  not_full hf := extraOf_of_not_full hf
  count hf := by
    obtain ⟨a, n, ha, -, hn, -, -, -⟩ := h.fieldAtom (hx hf).2
    exact ⟨a, n, ha, hn⟩

/-- A heap hook is an atom, or there is none. -/
theorem hookWord (h : BaseTree s b t cell) (hf : cell f = cellObj (some w))
    (hw : w = nil ∨ ∃ u, s.unit w 0 = some u) : ∃ fn, s.hookWord f b = some fn := by
  unfold Sys.hookWord
  rw [if_pos h.isSet, h.fieldObj hf, Option.bind_some]
  rcases hw with rfl | ⟨u, hu⟩
  · exact ⟨nil, if_pos rfl⟩
  · rw [if_neg (live_of_unit hu).ne_nil]
    exact ⟨u, hu⟩

end BaseTree

end XExpr
