import XExpr.Base.Record
import XExpr.Obj.StackLemmas

/-!
# The tree of a base refines a record of stacks

Pushes, pops, assignments and registrations on the fields of a base, in any order, do to the tree
what `FieldOp.apply` does to the record. Each replaces one part of one cell, and the nodes of the
tree stay apart.

* `fields_refine`: right after `x_base_make` the accessors read what the configuration says, and
  after every run of operations what the record says.
-/

namespace XExpr

open Sys
open Mem (chase)

variable {env : Env} {cfg : XBaseT} {s s' : Sys} {b p q v old : Ptr} {fl : Flags} {f : Field}
  {t d : Cells Word} {cell : Field → Layout Word} {π : List Bool} {ρ ρ' : Record}
  {op : FieldOp} {ops : List FieldOp} {w : Word}

/-! ## The operations -/

/-- An operation on a field of the base, by one of the functions that do it. -/
inductive FieldOp.Run (env : Env) (b : Ptr) : FieldOp → Sys → Sys → Prop
  | pushField {f : Field} {v slot r : Ptr} {fl : Flags} {s s₁ s' : Sys}
      (hs : f.addr b s = .ok slot s₁) (h : xObjPushField env b slot v fl s₁ = .ok r s') :
      FieldOp.Run env b (.push f v) s s'
  | push {f : Field} {v slot args r : Ptr} {fl : Flags} {s s₁ s' : Sys}
      (hs : f.addr b s = .ok slot s₁) (ha : PushArgs s₁ args slot v fl)
      (h : xObjPush env b args s₁ = .ok r s') : FieldOp.Run env b (.push f v) s s'
  | popField {f : Field} {slot r : Ptr} {s s₁ s' : Sys} (hs : f.addr b s = .ok slot s₁)
      (h : xObjPopField slot s₁ = .ok r s') : FieldOp.Run env b (.pop f) s s'
  | pop {f : Field} {slot args a r : Ptr} {s s₁ s' : Sys} (hs : f.addr b s = .ok slot s₁)
      (ha : s₁.unit args 0 = some a) (hf : s₁.unit a 0 = some slot)
      (h : xObjPop args s₁ = .ok r s') : FieldOp.Run env b (.pop f) s s'
  | assign {f : Field} {v : Ptr} {s s' : Sys} (h : f.setObj b v s = .ok () s') :
      FieldOp.Run env b (.assign f v) s s'
  | assignInt {f : Field} {w : Word} {s s' : Sys} (h : f.setInt b w s = .ok () s') :
      FieldOp.Run env b (.assignInt f w) s s'
  | markHookAdd {v : Ptr} {s s' : Sys} (h : xHeapMarkHookAdd env b v s = .ok () s') :
      FieldOp.Run env b (.markHookAdd v) s s'
  | freeHookAdd {v : Ptr} {s s' : Sys} (h : xHeapFreeHookAdd env b v s = .ok () s') :
      FieldOp.Run env b (.freeHookAdd v) s s'
  | markRootAdd {v : Ptr} {s s' : Sys} (h : xHeapMarkRootAdd env b v s = .ok () s') :
      FieldOp.Run env b (.markRootAdd v) s s'

/-- What a program does in between: new objects, on the base or on the stack. -/
inductive Between (env : Env) (b : Ptr) : Sys → Sys → Prop
  | make {t p : Ptr} {fl : Flags} {data : List Word} {s s' : Sys}
      (h : xObjMake env b t fl data s = .ok p s') : Between env b s s'
  | newLocal {p : Ptr} {o : Obj} {s : Sys} (hn : nil < p) (hp : ¬ s.Live p) :
      Between env b s (s.place p o)

/-! ## Parts of cells -/

/-- The base, untyped, with a tree that has the cells of the record. -/
structure RecordInv (s : Sys) (b : Ptr) (ρ : Record) : Prop where
  bare : s.Bare b
  tree : ∃ t, BaseTree s b t ρ.cell

/-- A part of a cell replaced by a pair of a value and this part. -/
theorem BaseTree.consed {u : Word} (h : BaseTree s b t cell) (hp : p ∉ b :: t.nodes)
    (hpv : s.unit p 0 = some v) (hpo : s.unit p 1 = some old) (hu : s.unit q 0 = some u)
    (hs : (Cells.atom b t).slot (f.path ++ π) = some (q, 0))
    (hd : (Cells.atom b t).sub (f.path ++ π) = some d) (hfit : d.Fits s.unit old) :
    ∃ t', BaseTree (s.setUnit q 0 p) b t' (Function.update cell f
      ((cell f).put π (.pair (.leaf (some v)) d.layout))) ∧
      ∀ x ∈ t'.nodes, x = p ∨ x ∈ b :: t.nodes := by
  have hn : (Cells.atom b t).nodes.Nodup := h.nodup
  have hsub : d.nodes ⊆ b :: t.nodes := Cells.nodes_sub hd
  have hqp : p ≠ q := fun e => hp (e ▸ Cells.mem_nodes_of_slot hs)
  have hqd : q ∉ d.nodes := Cells.slot_notMem hn hs hd
  have hunit : ∀ x j, (x, j) ≠ (q, 0) → (s.setUnit q 0 p).unit x j = s.unit x j :=
    fun x j hne => by rw [unit_setUnit hu, if_neg fun e => hne (by rw [e.1, e.2])]
  have hfit' : d.Fits (s.setUnit q 0 p).unit old := hfit.congr fun x hx j w hw =>
    (hunit x j fun e => hqd ((Prod.mk.inj e).1 ▸ hx)).trans hw
  have hnodes : (Cells.pair p (.leaf (some v)) d).nodes = p :: d.nodes := rfl
  obtain ⟨t', ht', hmem, -⟩ := h.putAt (e := .pair p (.leaf (some v)) d) (u := p) hs hd
    (hnodes ▸ List.nodup_cons.mpr ⟨fun hm => hp (hsub hm), Cells.nodup_sub hn hd⟩)
    (fun x hx hm => by
      rcases List.mem_cons.mp (hnodes ▸ hx) with rfl | hx
      · exact absurd hm hp
      · exact hx)
    (fun x _ j w hne hw => (hunit x j hne).trans hw) (by rw [unit_setUnit hu, if_pos ⟨rfl, rfl⟩])
    ⟨rfl, ⟨v, (hunit p 0 fun e => hqp (Prod.mk.inj e).1).trans hpv, by simp [Cells.Fits]⟩, old,
      (hunit p 1 fun e => hqp (Prod.mk.inj e).1).trans hpo, hfit'⟩
  refine ⟨t', ht', fun x hx => ?_⟩
  rcases hmem x hx with hx | hx
  · exact .inr (.tail _ hx)
  · exact (List.mem_cons.mp (hnodes ▸ hx)).imp id fun hx => hsub hx

/-- A pair pushed in front of a part of a cell. -/
theorem BaseTree.pushed (h : BaseTree s b t cell) (hp : Pushed s b fl q v old p s')
    (hs : (Cells.atom b t).slot (f.path ++ π) = some (q, 0))
    (hd : (Cells.atom b t).sub (f.path ++ π) = some d) (hfit : d.Fits s.unit old) :
    ∃ t', BaseTree s' b t' (Function.update cell f
      ((cell f).put π (.pair (.leaf (some v)) d.layout))) := by
  have hbare := hp.bare
  have hq := hp.slot
  have hne : ∀ x ∈ b :: t.nodes, x ≠ p := fun x hx => hp.ne (h.mem_live hx)
  obtain ⟨a, s₁, hm, rfl⟩ := hp.made
  have hkeep : ∀ x ∈ b :: t.nodes, ∀ j u, s.unit x j = some u → s₁.unit x j = some u :=
    fun x hx j u hu => by
      rw [hm.unit_old x j (hne x hx), if_neg fun hf => hbare.not_full hf.1, hu]
  obtain ⟨t', ht', -⟩ := (h.congr hkeep).consed (fun hx => hne p hx rfl)
    (show s₁.unit p 0 = some v by rw [Sys.unit, hm.data_new]; rfl)
    (by rw [Sys.unit, hm.data_new]; rfl)
    (hkeep q (Cells.mem_nodes_of_slot hs) 0 old hq) hs hd
    (hfit.congr fun x hx => hkeep x (Cells.nodes_sub hd hx))
  exact ⟨t', ht'⟩

/-- A part of a cell replaced by a part of itself, or by a word. -/
theorem BaseTree.replaced {e : Cells Word} {u : Word} (h : BaseTree s b t cell)
    (hs : (Cells.atom b t).slot (f.path ++ π) = some (q, 0))
    (hd : (Cells.atom b t).sub (f.path ++ π) = some d) (hu : s.unit q 0 = some old)
    (he : e.nodes ⊆ d.nodes) (hn : e.nodes.Nodup) (hfit : e.Fits s.unit u) :
    ∃ t', BaseTree (s.setUnit q 0 u) b t'
      (Function.update cell f ((cell f).put π e.layout)) ∧ t'.nodes ⊆ b :: t.nodes := by
  have hqd : q ∉ d.nodes := Cells.slot_notMem (c := .atom b t) h.nodup hs hd
  have hunit : ∀ x j, (x, j) ≠ (q, 0) → (s.setUnit q 0 u).unit x j = s.unit x j :=
    fun x j hne => by rw [unit_setUnit hu, if_neg fun e => hne (by rw [e.1, e.2])]
  obtain ⟨t', ht', hmem, -⟩ := h.putAt hs hd hn (fun x hx _ => he hx)
    (fun x _ j w hne hw => (hunit x j hne).trans hw) (by rw [unit_setUnit hu, if_pos ⟨rfl, rfl⟩])
    (hfit.congr fun x hx j w hw =>
      (hunit x j fun e => hqd (he ((Prod.mk.inj e).1 ▸ hx))).trans hw)
  exact ⟨t', ht', fun x hx => (hmem x hx).elim (List.mem_cons_of_mem _)
    fun hx => Cells.nodes_sub hd (he hx)⟩

/-- The unit that holds the current value of a field. -/
theorem BaseTree.valueSlot {l r : Layout Word} (h : BaseTree s b t cell)
    (hf : cell f = .pair l r) :
    ∃ c w d, chase s.unit b f.path = some c ∧ s.unit c 0 = some w ∧
      s.fieldObj b f = some w ∧ (Cells.atom b t).slot (f.path ++ [false]) = some (c, 0) ∧
      (Cells.atom b t).sub (f.path ++ [false]) = some d ∧ d.layout = l ∧ d.Fits s.unit w := by
  obtain ⟨w, d, hw, hd, hl, hfit⟩ := h.value hf
  obtain ⟨c, hc⟩ := Cells.slot_of_sub (c := .atom b t) hd
  obtain ⟨hchase, -, -⟩ := h.fits.slot hc
  refine ⟨c, w, d, hchase, ?_, hw, hc, hd, hl, hfit⟩
  rw [Sys.fieldObj, Field.valuePath, Mem.chase_append, hchase] at hw
  simpa [chase] using hw

/-! ## Operations on the tree -/

/-- A pop of the stack of a field. -/
theorem BaseTree.popped {u : Value} {us : List Value} (h : BaseTree s b t ρ.cell) (f : Field)
    (hf : (ρ f).saved = u :: us) :
    ∃ n r w, f.addr b s = .ok (slotAddr n 0) s ∧ n ∈ t.nodes ∧
      xObjPopField (slotAddr n 0) s = .ok r (s.setUnit n 0 w) ∧
      (∃ x, s.unit n 0 = some x) ∧
      ∃ t', BaseTree (s.setUnit n 0 w) b t' (Record.cell (Function.update ρ f ⟨u, us⟩)) ∧
        t'.nodes ⊆ b :: t.nodes := by
  obtain ⟨n, c, d, hn, hu, -, hmem, hslot, hsub, hl, hfit⟩ := h.nodeSlot f
  have hcell : ρ.cell f = .pair (ρ f).current.layout (savedLayout (u :: us)) := by rw [← hf]; rfl
  rw [hcell] at hl
  rcases d with _ | _ | ⟨a, l, r⟩
  · cases hl
  · cases hl
  · obtain ⟨-, hr⟩ := Layout.pair.inj hl
    obtain ⟨rfl, ⟨x, hx, -⟩, y, hy, hfr⟩ := hfit
    refine ⟨n, x, y, Field.addr_ok.mpr ⟨n, hn, rfl, rfl⟩, hmem, xObjPopField_run hu hx hy,
      ⟨c, hu⟩, ?_⟩
    have hd : (Cells.pair c l r).sub [true] = some r := by simp [Cells.sub]
    have hnodup := Cells.nodup_sub (c := .atom b t) h.nodup hsub
    have := h.replaced (π := []) (by rwa [List.append_nil]) (by rwa [List.append_nil]) hu
      (Cells.nodes_sub hd) (Cells.nodup_sub hnodup hd) hfr
    rw [Layout.put_nil, hr] at this
    rwa [← Record.cell_update]

/-- An assignment of the current value of a field. -/
theorem BaseTree.assigned (h : BaseTree s b t ρ.cell) (f : Field) (v : Word) :
    ∃ c, f.setObj b v s = .ok () (s.setUnit c 0 v) ∧ c ∈ b :: t.nodes ∧
      (∃ x, s.unit c 0 = some x) ∧
      ∃ t', BaseTree (s.setUnit c 0 v) b t'
        (Record.cell (Function.update ρ f ⟨.obj v, (ρ f).saved⟩)) ∧ t'.nodes ⊆ b :: t.nodes := by
  obtain ⟨c, w, d, hc, hu, -, hslot, hsub, -, -⟩ := h.valueSlot (f := f) rfl
  refine ⟨c, Field.setObj_ok.mpr ⟨c, hc, ⟨w, hu⟩, rfl⟩, Cells.mem_nodes_of_slot hslot, ⟨w, hu⟩, ?_⟩
  have := h.replaced (e := .leaf (some v)) (u := v) hslot hsub hu (List.nil_subset _) .nil
    (by simp [Cells.Fits])
  rw [← Record.cell_update]
  simpa [Record.cell, Stack.cell, Value.layout, Layout.put, Cells.layout] using this

/-! ### A new object on the base -/

/-- The count of a full base is an integer in an atom of the base. -/
def Record.Counts (ρ : Record) (full : Prop) : Prop :=
  full → ∃ n, (ρ .allocCount).current = .int n

/-- The cells of the record, with the count left open. -/
def Record.openCount (ρ : Record) : Field → Layout Word :=
  Function.update ρ.cell .allocCount
    (.pair (.atom (.leaf none)) (savedLayout (ρ .allocCount).saved))

theorem Record.openCount_count : ρ.openCount .allocCount =
    .pair (.atom (.leaf none)) (savedLayout (ρ .allocCount).saved) := Function.update_self ..

theorem Record.openCount_pair (f : Field) : ∃ l r, ρ.openCount f = .pair l r := by
  by_cases he : f = .allocCount
  · subst he
    exact ⟨_, _, Record.openCount_count⟩
  · exact ⟨_, _, Function.update_of_ne he _ _⟩

theorem BaseTree.openCount {n : Int} (h : BaseTree s b t ρ.cell)
    (hn : (ρ .allocCount).current = .int n) :
    ∃ t₁ c, BaseTree s b t₁ ρ.openCount ∧ t₁.nodes ⊆ t.nodes ∧
      s.fieldObj b .allocCount = some c ∧ s.unit c 0 = some n := by
  have hcount : ρ.cell .allocCount =
      .pair (.atom (.leaf (some n))) (savedLayout (ρ .allocCount).saved) := by
    rw [Record.cell, Stack.cell, hn]
    rfl
  have hrelax : ∀ f, (ρ.cell f).relaxes (ρ.openCount f) := fun f => by
    by_cases he : f = .allocCount
    · subst he
      rw [hcount, Record.openCount_count]
      exact ⟨trivial, Layout.relaxes_refl _⟩
    · rw [Record.openCount, Function.update_of_ne he]
      exact Layout.relaxes_refl _
  obtain ⟨t₁, h₁, hsub, -⟩ := h.relax hrelax
  obtain ⟨c, m, hc, -, hu, -, -, hm⟩ := h.fieldAtom hcount
  exact ⟨t₁, c, h₁, hsub, hc, hm n rfl ▸ hu⟩

theorem BaseTree.closeCount {c : Ptr} {n : Int} (h : BaseTree s b t ρ.openCount)
    (hc : s.fieldObj b .allocCount = some c) (hn : s.unit c 0 = some n) :
    ∃ t₁, BaseTree s b t₁
      (Record.cell (Function.update ρ .allocCount ⟨.int n, (ρ .allocCount).saved⟩)) ∧
      t₁.nodes ⊆ t.nodes := by
  obtain ⟨c', -, hc', -, -, hslot, hleaf, -⟩ := h.fieldAtom Record.openCount_count
  obtain rfl : c = c' := Option.some.inj (hc.symm.trans hc')
  rw [Field.valuePath, List.append_assoc] at hslot hleaf
  obtain ⟨t₁, h₁, hmem, -⟩ := h.putAt (e := .leaf (some n)) (u := n) hslot hleaf .nil
    (fun _ hx => absurd hx List.not_mem_nil) (fun _ _ _ _ _ hw => hw) hn (by simp [Cells.Fits])
  refine ⟨t₁, ?_, fun x hx => (hmem x hx).resolve_right List.not_mem_nil⟩
  rw [← Record.cell_update]
  simpa [Record.openCount, Stack.cell, Value.layout, Layout.put, Cells.layout] using h₁

/-- A field stays where it is, while the shape of the base is kept. -/
theorem BaseTree.path_eq {l r : Layout Word} (h : BaseTree s b t cell) (h' : BaseTree s' b t cell)
    (hf : cell f = .pair l r) : chase s'.unit b f.nodePath = chase s.unit b f.nodePath ∧
      chase s'.unit b f.path = chase s.unit b f.path := by
  obtain ⟨n, -, -, hn, -, -, -, hs, -⟩ := h.nodeSlot f
  obtain ⟨n', -, -, hn', -, -, -, hs', -⟩ := h'.nodeSlot f
  obtain ⟨c, -, -, hc, -, -, hcs, -⟩ := h.valueSlot hf
  obtain ⟨c', -, -, hc', -, -, hcs', -⟩ := h'.valueSlot hf
  rw [hn, hn', hc, hc', (Prod.mk.inj (Option.some.inj (hs.symm.trans hs'))).1,
    (Prod.mk.inj (Option.some.inj (hcs.symm.trans hcs'))).1]
  exact ⟨rfl, rfl⟩

theorem Record.addCount_zero : ρ.addCount 0 = ρ := by
  have : (ρ .allocCount).current.add 0 = (ρ .allocCount).current := by
    cases (ρ .allocCount).current <;> simp [Value.add]
  rw [Record.addCount, this]
  exact Function.update_eq_self _ _

/-- A new object, which a full base counts. The fields stay where they are. -/
theorem BaseTree.made {ty a : Ptr} {data : List Word} (h : BaseTree s b t ρ.cell)
    (hc : ρ.Counts (s.Full b)) (hm : Made s b ty fl data p a s') :
    ∃ t', BaseTree s' b t' (ρ.addCount (if s.Full b then 1 else 0)).cell ∧
      t'.nodes ⊆ t.nodes ∧
      ∀ f : Field, chase s'.unit b f.nodePath = chase s.unit b f.nodePath ∧
        chase s'.unit b f.path = chase s.unit b f.path := by
  have hne : ∀ x ∈ b :: t.nodes, x ≠ p := fun x hx e => hm.new (e ▸ h.mem_live hx)
  by_cases hf : s.Full b
  · -- the count is left open, changes, and is fixed again
    obtain ⟨n, hn⟩ := hc hf
    obtain ⟨t₁, c, h₁, hsub, hca, hu⟩ := h.openCount hn
    have hold : ∀ q ∈ b :: t₁.nodes, q ≠ p := fun q hq => hne q (List.cons_subset_cons _ hsub hq)
    have h₂ : BaseTree s' b t₁ ρ.openCount := by
      refine h₁.count Record.openCount_count (g := (· + 1)) fun q hq i => ?_
      rw [hm.unit_old q i (hold q hq)]
      simp only [hf, true_and]
    obtain ⟨c₁, -, hc₁, hmem, -, hslot₁, -⟩ := h₁.fieldAtom Record.openCount_count
    obtain ⟨c₂, -, hc₂, -, -, hslot₂, -⟩ := h₂.fieldAtom Record.openCount_count
    obtain rfl : c₁ = c₂ := (Prod.mk.inj (Option.some.inj (hslot₁.symm.trans hslot₂))).1
    obtain rfl : c = c₁ := Option.some.inj (hca.symm.trans hc₁)
    obtain ⟨t₂, h₃, hsub₃⟩ := h₂.closeCount (n := n + 1) hc₂ (by
      rw [hm.unit_old c 0 (hold c (.tail _ hmem)), if_pos ⟨hf, hca, rfl⟩, hu]
      rfl)
    refine ⟨t₂, ?_, List.Subset.trans hsub₃ hsub, fun f => ?_⟩
    · rwa [if_pos hf, Record.addCount, hn]
    · obtain ⟨l, r, hpair⟩ := Record.openCount_pair (ρ := ρ) f
      exact h₁.path_eq h₂ hpair
  · have h' : BaseTree s' b t ρ.cell := h.congr fun q hq i u hu => by
      rw [hm.unit_old q i (hne q hq), if_neg fun e => hf e.1, hu]
    rw [if_neg hf, Record.addCount_zero]
    exact ⟨t, h', List.Subset.refl _, fun f => h.path_eq h' rfl⟩

/-- A push on the stack of a field that returns has made a pair and counted it. -/
theorem BaseTree.pushField {slot r : Ptr} (h : BaseTree s b t ρ.cell) (hc : ρ.Counts (s.Full b))
    (hf : f ≠ .allocCount) (hs : f.addr b s = .ok slot s)
    (hr : xObjPushField env b slot v fl s = .ok r s') :
    ∃ n p a s₁ u, Made s b xTypePairObj fl [v, u] p a s₁ ∧ s' = s₁.setUnit n 0 p ∧
      (∀ x i, s.Live x → x ∉ b :: t.nodes → s'.unit x i = s.unit x i) ∧
      ∃ t', BaseTree s' b t' (Record.cell (Function.update
        (ρ.addCount (if s.Full b then 1 else 0)) f ⟨.obj v, (ρ f).current :: (ρ f).saved⟩)) ∧
        ∀ x ∈ t'.nodes, x = p ∨ x ∈ b :: t.nodes := by
  obtain ⟨n, hn, rfl, -⟩ := Field.addr_ok.mp hs
  obtain ⟨n', old, -, hn', hu, hcell, hmem, -⟩ := h.nodeSlot f
  obtain rfl : n = n' := Option.some.inj (hn.symm.trans hn')
  unfold xObjPushField at hr
  rw [Prog.bind_of_ok (xSlot_run hu)] at hr
  dsimp only at hr
  rw [Prog.bind_of_ok (xObjDataI_eq hu), Prog.bind_ok] at hr
  obtain ⟨p, s₁, hmk, hr⟩ := hr
  rw [Prog.bind_ok] at hr
  obtain ⟨_, s₂, hset, hr⟩ := hr
  obtain ⟨⟨u, hu₁⟩, rfl⟩ := setXObjDataI_ok.mp hset
  have hread : (s₁.setUnit n 0 p).unit n 0 = some p := by rw [unit_setUnit hu₁, if_pos ⟨rfl, rfl⟩]
  rw [Prog.bind_of_ok (xObjDataI_eq hread)] at hr
  obtain ⟨hv, rfl⟩ := xFirst_ok.mp hr
  rcases xObjMake_ok hmk with ⟨rfl, -, -, -⟩ | ⟨a, -, hm⟩
  · exact absurd (live_of_unit hv) not_live_nil
  obtain ⟨t₁, h₁, hsub, hpath⟩ := h.made hc hm
  obtain ⟨n₁, c₁, d, hn₁, hu₂, hc₁, -, hslot, hd, hl, hfit⟩ := h₁.nodeSlot f
  rw [(hpath f).1] at hn₁
  rw [(hpath f).2] at hc₁
  obtain rfl : n = n₁ := Option.some.inj (hn.symm.trans hn₁)
  obtain rfl : old = c₁ := Option.some.inj (hcell.symm.trans hc₁)
  have hnew : p ∉ b :: t₁.nodes := fun hx =>
    hm.new (h.mem_live (List.cons_subset_cons _ hsub hx))
  obtain ⟨t', ht', hnodes⟩ := h₁.consed (π := []) hnew
    (show s₁.unit p 0 = some v by rw [Sys.unit, hm.data_new]; rfl)
    (by rw [Sys.unit, hm.data_new]; rfl) hu₁ (by rwa [List.append_nil]) (by rwa [List.append_nil])
    hfit
  refine ⟨n, p, a, s₁, old, hm, rfl, fun x i hx hxt => ?_, t', ?_, fun x hx => ?_⟩
  · -- neither the count nor the list of the field
    rw [unit_setUnit hu₂, if_neg fun e : x = n ∧ _ => hxt (e.1 ▸ .tail _ hmem),
      hm.unit_old x i fun e => hm.new (e ▸ hx), if_neg]
    rintro ⟨hf', hx', -⟩
    obtain ⟨k, hk⟩ := hc hf'
    obtain ⟨c, -, hca, hct, -⟩ := h.fieldAtom (f := .allocCount)
      (by rw [Record.cell, Stack.cell, hk]; rfl)
    exact hxt (Option.some.inj (hx'.symm.trans hca) ▸ .tail _ hct)
  · rw [Layout.put_nil, hl] at ht'
    rw [← Record.cell_update]
    convert ht' using 3
    rw [Record.cell, Record.addCount, Function.update_of_ne hf]
    rfl
  · exact (hnodes x hx).imp id fun hx => List.cons_subset_cons _ hsub hx

/-! ## One operation -/

namespace RecordInv

/-- The record with another stack for one field. -/
theorem update {σ : Stack} (hb : s.Bare b)
    (ht : ∃ t, BaseTree s b t (Function.update ρ.cell f σ.cell)) :
    RecordInv s b (Function.update ρ f σ) :=
  ⟨hb, Record.cell_update ▸ ht⟩

theorem bare_setUnit {i : Nat} (h : s.Bare b) : (s.setUnit q i w).Bare b :=
  h.imp id fun hb => ⟨live_setUnit.mpr hb.1, typeOf_setUnit.trans hb.2⟩

theorem push (h : RecordInv s b ρ) (env : Env) (f : Field) (v : Word) (fl : Flags) :
    ∃ n, f.addr b s = .ok (slotAddr n 0) s ∧
      ((env.malloc.grants s.requests = false ∧
        ∃ s', xObjPushField env b (slotAddr n 0) v fl s = .error (.fault .nilDeref) s') ∨
      ∃ s', xObjPushField env b (slotAddr n 0) v fl s = .ok v s' ∧
        RecordInv s' b (Function.update ρ f ⟨.obj v, (ρ f).current :: (ρ f).saved⟩)) := by
  obtain ⟨t, ht⟩ := h.tree
  obtain ⟨n, c, d, hn, hu, -, -, hslot, hsub, hl, hfit⟩ := ht.nodeSlot f
  refine ⟨n, Field.addr_ok.mpr ⟨n, hn, rfl, rfl⟩, ?_⟩
  rcases xObjPushField_bare env v fl h.bare hu with ⟨hg, hrun⟩ | ⟨p, s', -, hp, hrun⟩
  · exact .inl ⟨hg, _, hrun⟩
  · refine .inr ⟨s', hrun, update hp.bare' ?_⟩
    have := ht.pushed (π := []) hp (by rwa [List.append_nil]) (by rwa [List.append_nil]) hfit
    rwa [Layout.put_nil, hl] at this

theorem pop {u : Value} {us : List Value} (h : RecordInv s b ρ) (f : Field)
    (hf : (ρ f).saved = u :: us) :
    ∃ n r s', f.addr b s = .ok (slotAddr n 0) s ∧ xObjPopField (slotAddr n 0) s = .ok r s' ∧
      RecordInv s' b (Function.update ρ f ⟨u, us⟩) := by
  obtain ⟨t, ht⟩ := h.tree
  obtain ⟨n, r, w, haddr, -, hrun, -, t', ht', -⟩ := ht.popped f hf
  exact ⟨n, r, _, haddr, hrun, bare_setUnit h.bare, t', ht'⟩

theorem assign (h : RecordInv s b ρ) (f : Field) (v : Word) :
    ∃ s', f.setObj b v s = .ok () s' ∧
      RecordInv s' b (Function.update ρ f ⟨.obj v, (ρ f).saved⟩) := by
  obtain ⟨t, ht⟩ := h.tree
  obtain ⟨c, hrun, -, -, t', ht', -⟩ := ht.assigned f v
  exact ⟨_, hrun, bare_setUnit h.bare, t', ht'⟩

theorem assignInt {i : Word} (h : RecordInv s b ρ) (f : Field) (w : Word)
    (hf : (ρ f).current = .int i) :
    ∃ s', f.setInt b w s = .ok () s' ∧
      RecordInv s' b (Function.update ρ f ⟨.int w, (ρ f).saved⟩) := by
  obtain ⟨t, ht⟩ := h.tree
  have hcell : ρ.cell f = .pair (.atom (.leaf (some i))) (savedLayout (ρ f).saved) := by
    rw [Record.cell, Stack.cell, hf]
    rfl
  obtain ⟨a, n, ha, -, hu, hslot, hsub, -⟩ := ht.fieldAtom hcell
  refine ⟨_, Field.setInt_ok.mpr ⟨a, ha, ⟨n, hu⟩, rfl⟩, update (bare_setUnit h.bare) ?_⟩
  rw [Field.valuePath, List.append_assoc] at hslot hsub
  obtain ⟨t', this, -⟩ := ht.replaced (e := .leaf (some w)) (u := w) hslot hsub hu
    (List.nil_subset _) .nil (by simp [Cells.Fits])
  refine ⟨t', ?_⟩
  simpa [hcell, Stack.cell, Value.layout, Layout.put, Cells.layout] using this

theorem prepend (h : RecordInv s b ρ) (env : Env) (f : Field) (v : Word) :
    (env.malloc.grants s.requests = false ∧
      ∃ s', heapListAdd env f b v s = .error (.fault .nilDeref) s') ∨
    ∃ s', heapListAdd env f b v s = .ok () s' ∧
      RecordInv s' b (Function.update ρ f ⟨.cons v (ρ f).current, (ρ f).saved⟩) := by
  obtain ⟨t, ht⟩ := h.tree
  obtain ⟨c, w, d, hc, hu, -, hslot, hsub, hl, hfit⟩ := ht.valueSlot (f := f) rfl
  rcases xObjPushField_bare env v xObjFlagNone h.bare hu with ⟨hg, hrun⟩ | ⟨p, s', -, hp, hrun⟩
  · exact .inl ⟨hg, _, (heapListAdd_run hc).trans (Prog.bind_of_error hrun)⟩
  · refine .inr ⟨s', (heapListAdd_run hc).trans (Prog.bind_of_ok hrun), update hp.bare' ?_⟩
    have := ht.pushed hp hslot hsub hfit
    simpa [hl, Record.cell, Stack.cell, Value.layout, Layout.put] using this

/-- What a program does between the operations leaves the tree alone. -/
theorem between (h : RecordInv s b ρ) (hs : Between env b s s') : RecordInv s' b ρ := by
  obtain ⟨t, ht⟩ := h.tree
  have hlive : ∀ x ∈ b :: t.nodes, s.Live x := fun _ => ht.mem_live
  have hb : s.typeOf b = nil := (h.bare.resolve_left ht.live.ne_nil).2
  cases hs with
  | make hr =>
    rcases xObjMake_ok hr with ⟨-, -, -, rfl⟩ | ⟨a, -, hm⟩
    · exact ⟨h.bare, t, ht.congr fun _ _ _ _ hu => hu⟩
    · refine ⟨.inr ⟨(hm.live b).mpr (.inr ht.live), ?_⟩, t, ht.congr fun x hx i u hu => ?_⟩
      · rw [hm.typeOf_old b fun e => hm.new (e ▸ ht.live), hb]
      · rw [hm.unit_old x i fun e => hm.new (e ▸ hlive x hx),
          if_neg fun hf => h.bare.not_full hf.1, hu]
  | @newLocal p o _ hn hp =>
    have hne : ∀ x, s.Live x → x ≠ p := fun x hx e => hp (e ▸ hx)
    refine ⟨.inr ⟨(live_place hn).mpr (.inr ht.live), ?_⟩, t, ht.congr fun x hx i u hu => ?_⟩
    · rw [typeOf_place hn, if_neg (hne b ht.live), hb]
    · rw [unit_place hn, if_neg (hne x (hlive x hx)), hu]

end RecordInv

/-- An operation that returns does to the tree what it does to the record. -/
theorem RecordInv.run (h : RecordInv s b ρ) (ha : op.apply ρ = some ρ')
    (hr : op.Run env b s s') : RecordInv s' b ρ' := by
  obtain ⟨σ, hσ, rfl⟩ := Option.map_eq_some_iff.mp ha
  have hpush : ∀ {f v fl slot r s₁}, f.addr b s = .ok slot s₁ →
      xObjPushField env b slot v fl s₁ = .ok r s' →
      RecordInv s' b (Function.update ρ f ⟨.obj v, (ρ f).current :: (ρ f).saved⟩) := by
    intro f v fl slot r s₁ hs hrun
    obtain ⟨n, haddr, ⟨-, s₂, hno⟩ | ⟨s₂, hok, hi⟩⟩ := h.push env f v fl
    · cases hs.symm.trans haddr
      cases hrun.symm.trans hno
    · cases hs.symm.trans haddr
      cases hrun.symm.trans hok
      exact hi
  have hpop : ∀ {f slot r s₁}, StackOp.pop.apply (ρ f) = some σ → f.addr b s = .ok slot s₁ →
      xObjPopField slot s₁ = .ok r s' → RecordInv s' b (Function.update ρ f σ) := by
    intro f slot r s₁ hσ hs hrun
    obtain ⟨u, us, hf, rfl⟩ := StackOp.pop_some.mp hσ
    obtain ⟨n, r', s₂, haddr, hok, hi⟩ := h.pop f hf
    cases hs.symm.trans haddr
    cases hrun.symm.trans hok
    exact hi
  have hadd : ∀ {f v}, heapListAdd env f b v s = .ok () s' →
      RecordInv s' b (Function.update ρ f ⟨.cons v (ρ f).current, (ρ f).saved⟩) := by
    intro f v hrun
    obtain ⟨-, s₂, hno⟩ | ⟨s₂, hok, hi⟩ := h.prepend env f v
    · cases hrun.symm.trans hno
    · cases hrun.symm.trans hok
      exact hi
  cases hr with
  | pushField hs hrun =>
    obtain rfl := Option.some.inj hσ
    exact hpush hs hrun
  | push hs hargs hrun =>
    obtain rfl := Option.some.inj hσ
    exact hpush hs ((xObjPush_run hargs).symm.trans hrun)
  | popField hs hrun => exact hpop hσ hs hrun
  | pop hs hargs hf hrun => exact hpop hσ hs ((xObjPop_run hargs hf).symm.trans hrun)
  | @assign f v _ _ hrun =>
    obtain rfl := Option.some.inj hσ
    obtain ⟨s₂, hok, hi⟩ := h.assign f v
    cases hrun.symm.trans hok
    exact hi
  | @assignInt f w _ _ hrun =>
    obtain ⟨i, hf, rfl⟩ := StackOp.assignInt_some.mp hσ
    obtain ⟨s₂, hok, hi⟩ := h.assignInt f w hf
    cases hrun.symm.trans hok
    exact hi
  | markHookAdd hrun =>
    obtain rfl := Option.some.inj hσ
    exact hadd hrun
  | freeHookAdd hrun =>
    obtain rfl := Option.some.inj hσ
    exact hadd hrun
  | markRootAdd hrun =>
    obtain rfl := Option.some.inj hσ
    exact hadd hrun

/-- An enabled operation returns, if `malloc` grants its request. -/
theorem RecordInv.exists_run (hg : ∀ n, env.malloc.grants n = true) (h : RecordInv s b ρ)
    (ha : op.apply ρ = some ρ') : ∃ s', op.Run env b s s' ∧ RecordInv s' b ρ' := by
  have hrun : ∃ s', op.Run env b s s' := by
    obtain ⟨σ, hσ, -⟩ := Option.map_eq_some_iff.mp ha
    have hadd : ∀ f v, ∃ s', heapListAdd env f b v s = .ok () s' := fun f v => by
      obtain ⟨hno, -⟩ | ⟨s', hok, -⟩ := h.prepend env f v
      · cases (hg _).symm.trans hno
      · exact ⟨s', hok⟩
    cases op with
    | push f v =>
      obtain ⟨n, haddr, ⟨hno, -⟩ | ⟨s', hok, -⟩⟩ := h.push env f v xObjFlagNone
      · cases (hg _).symm.trans hno
      · exact ⟨s', .pushField haddr hok⟩
    | pop f =>
      obtain ⟨u, us, hf, rfl⟩ := StackOp.pop_some.mp hσ
      obtain ⟨n, r, s', haddr, hok, -⟩ := h.pop f hf
      exact ⟨s', .popField haddr hok⟩
    | assign f v => exact (h.assign f v).imp fun _ h => .assign h.1
    | assignInt f w =>
      obtain ⟨i, hf, rfl⟩ := StackOp.assignInt_some.mp hσ
      exact (h.assignInt f w hf).imp fun _ h => .assignInt h.1
    | markHookAdd v => exact (hadd .heapMarkHooks v).imp fun _ => .markHookAdd
    | freeHookAdd v => exact (hadd .heapFreeHooks v).imp fun _ => .freeHookAdd
    | markRootAdd v => exact (hadd .heapMarkRoots v).imp fun _ => .markRootAdd
  exact hrun.imp fun s' hr => ⟨hr, h.run ha hr⟩

/-! ## Runs -/

/-- The operations one after the other. -/
def Record.run (ops : List FieldOp) (ρ : Record) : Option Record :=
  ops.foldlM (fun ρ op => op.apply ρ) ρ

theorem BaseMade.recordInv {a : Ptr} {new : List Ptr} (h : BaseMade env s p cfg b a new d s')
    (hg : ∀ n, env.malloc.grants n = true) : RecordInv s' b (.ofCfg cfg) := by
  obtain ⟨t, ht, -, -⟩ := h.baseTree fun n _ _ => hg n
  refine ⟨.inr ⟨ht.live, h.typeOf_base⟩, t, ?_⟩
  rwa [Record.cell_ofCfg]

/-- A base is made, and then gets a type. -/
theorem exists_full_base (cfg : XBaseT) (s : Sys) : ∃ b s₁ s' t,
    xBaseMake (.plain fun _ => true) nil cfg s = .ok b s₁ ∧
    setXObjType b xTypePairObj s₁ = .ok () s' ∧ s'.Full b ∧
    BaseTree s' b t (Record.cell (.ofCfg cfg)) ∧ (∀ q ∈ b :: t.nodes, ¬ s.Live q) ∧
    ∀ q i, s.Live q → s'.unit q i = s.unit q i := by
  obtain ⟨b, a, new, t₀, s₁, hrun, hm⟩ := xBaseMake_bare (.plain fun _ => true) cfg
    (s := s) (b := nil) (.inl rfl) rfl
  obtain ⟨t, ht, hsub, -⟩ := hm.baseTree fun _ _ _ => rfl
  have htree : BaseTree (s₁.setType b xTypePairObj) b t (Record.cell (.ofCfg cfg)) := by
    rw [Record.cell_ofCfg]
    exact ht.congr fun q _ i u hu => by rwa [unit_setType]
  refine ⟨b, s₁, _, t, hrun, setXObjType_eq ht.live, ⟨?_, htree.isSet⟩, htree, fun q hq => ?_,
    fun q i hq => ?_⟩
  · rw [typeOf_setType ht.live, if_pos rfl]
    decide
  · exact (hm.fresh q (List.cons_subset_cons _ hsub hq)).2
  · rw [unit_setType, hm.unit_old hq, if_neg fun h => not_full_nil h.1]

/-- A full base with the fields of a configuration can be allocated on. -/
theorem BaseTree.allocReady (h : BaseTree s b t (Record.cell (.ofCfg cfg))) (hf : s.Full b) :
    s.AllocReady b where
  full := hf
  extra := ⟨_, h.currentInt rfl⟩
  limit := ⟨0, h.currentInt rfl, le_rfl, fun h => absurd h (lt_irrefl _)⟩
  error := ⟨_, h.currentObj rfl⟩
  count := by
    have hc := h.currentInt (f := .allocCount) rfl
    obtain ⟨c, hc, hn⟩ := Option.bind_eq_some_iff.mp hc
    exact ⟨c, 0, hc, hn⟩

/-- A base reads as the configuration when it is made, and as the record after every sequence of
operations. An enabled sequence has a run. -/
theorem fields_refine (hg : ∀ n, env.malloc.grants n = true)
    (hm : xBaseMake env p cfg s = .ok b s') :
    Represents s' b (.ofCfg cfg) ∧
    ∀ ops ρ, Record.run ops (.ofCfg cfg) = some ρ →
      (∃ s'', Prog.Runs (FieldOp.Run env b) (Between env b) ops s' s'') ∧
      ∀ s'', Prog.Runs (FieldOp.Run env b) (Between env b) ops s' s'' → Represents s'' b ρ := by
  obtain ⟨a, new, d, hmade⟩ := xBaseMake_ok hm
  have h₀ := hmade.recordInv hg
  have hread : ∀ {s ρ}, RecordInv s b ρ → Represents s b ρ := fun h => by
    obtain ⟨t, ht⟩ := h.tree
    exact ht.represents
  refine ⟨hread h₀, fun ops ρ ha => ⟨?_, fun s'' hr => hread ?_⟩⟩
  · exact Prog.Runs.exists (R := fun s ρ => RecordInv s b ρ)
      (fun _ _ _ _ h ha => RecordInv.exists_run hg h ha) h₀ ha
  · refine hr.simulates (R := fun s ρ => RecordInv s b ρ) ?_ ?_ h₀ ha
    · exact fun _ _ _ h hs => h.between hs
    · exact fun _ _ _ _ _ h ha hr => h.run ha hr

/-- Two values on the write buffer, one taken back, and a root registered. -/
theorem fields_refine_standard : ∃ b s' ρ s'',
    xBaseMake (.plain fun _ => true) nil .standard Sys.empty = .ok b s' ∧
    Record.run [.push .writeBuf 16, .push .writeBuf 48, .pop .writeBuf, .markRootAdd 16]
      (.ofCfg .standard) = some ρ ∧
    ρ .writeBuf = ⟨.obj 16, [.obj nil]⟩ ∧ ρ .heapMarkRoots = ⟨.cons 16 (.obj nil), []⟩ ∧
    Prog.Runs (FieldOp.Run (.plain fun _ => true) b) (Between (.plain fun _ => true) b)
      [.push .writeBuf 16, .push .writeBuf 48, .pop .writeBuf, .markRootAdd 16] s' s'' ∧
    Represents s'' b ρ := by
  obtain ⟨b, a, new, t, s', hrun, -⟩ := xBaseMake_bare (.plain fun _ => true) .standard
    (s := Sys.empty) (b := nil) (.inl rfl) rfl
  obtain ⟨-, hops⟩ := fields_refine (fun _ => rfl) hrun
  obtain ⟨⟨s'', hr⟩, hrep⟩ := hops
    [.push .writeBuf 16, .push .writeBuf 48, .pop .writeBuf, .markRootAdd 16] _ rfl
  exact ⟨b, s', _, s'', hrun, rfl, rfl, rfl, hr, hrep s'' hr⟩

end XExpr
