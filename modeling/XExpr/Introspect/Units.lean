import XExpr.Introspect.Statics

/-!
# The reported number of units

`x_obj_units` answers by the type slot of an object, which says nothing about the storage behind
it. In a program that gives each object the units that its type calls for, and retypes objects
only to types of the same size, the answer is right at any time.

* `UnitTable`: the units of the objects of each type.
* `TypedStep`: the steps of such a program, which does not store into the static atoms either.
* `Sys.Sized`: every object has the units of its type; a lemma for each thing that a step does.
* `units_reported`: what `x_obj_units` and `x_obj_length` return in every state of every run, and
  which units may be accessed.
-/

namespace XExpr

open Sys Relation

/-- The units of the objects of each type. -/
structure UnitTable where
  units : Ptr → Nat
  atom : units xTypeAtomObj = 1
  pair : units xTypePairObj = 2
  none : units nil = 1

/-- Every object has the units that its type calls for. -/
def Sys.Sized (T : UnitTable) (s : Sys) : Prop :=
  ∀ p, s.Live p → (s.dataOf p).length = T.units (s.typeOf p)

/-! ## Steps -/

/-- Steps of a program that sizes its objects by their types. -/
inductive TypedStep (env : Env) (T : UnitTable) : Client → Client → Prop
  | make {c : Client} {b t p : Ptr} {fl : Flags} {data : List Word} {s' : Sys} (hb : b ∈ c.bases)
      (hd : data.length = T.units t) (h : xObjMake env b t fl data c.sys = .ok p s') :
      TypedStep env T c { c with sys := s' }
  | baseMake {c : Client} {b p : Ptr} {cfg : XBaseT} {s' : Sys} (hb : b ∈ c.bases)
      (hg : env.malloc.GrantsFrom c.sys.requests 56)
      (hm : c.sys.Hook c.locals cfg.heapMark) (hf : c.sys.Hook c.locals cfg.heapFree)
      (h : xBaseMake env b cfg c.sys = .ok p s') :
      TypedStep env T c { c with
        sys := s', bases := p :: c.bases, roots := Function.update c.roots p [] }
  | setType {c : Client} {p t : Ptr} {s' : Sys}
      (hp : p ∈ c.bases → c.sys.fieldInt p .objMetaExtra = some 0)
      (hd : (c.sys.dataOf p).length = T.units t) (h : setXObjType p t c.sys = .ok () s') :
      TypedStep env T c { c with sys := s' }
  /-- A unit is assigned, but not one of the static atoms. -/
  | write {c : Client} {p : Ptr} {i : Nat} {w : Word} {s' : Sys}
      (hg : ∀ b ∈ c.bases, (p, i) ∉ c.sys.guarded b) (hs : ∀ x ∈ staticAtoms, p ≠ x.1)
      (h : setXObjDataI p i w c.sys = .ok () s') : TypedStep env T c { c with sys := s' }
  | malloc {c : Client} {a : Ptr} {size : Nat} {s' : Sys}
      (h : xSysMalloc env size c.sys = .ok a s') : TypedStep env T c { c with sys := s' }
  | newLocal {c : Client} {p : Ptr} {o : Obj} (hn : nil < p) (hp : ¬ c.sys.Live p)
      (hd : o.data.length = T.units o.type) :
      TypedStep env T c { c with sys := c.sys.place p o, locals := p :: c.locals }
  | rootPush {c : Client} {b p slot : Ptr} {s₁ s' : Sys} (hb : b ∈ c.bases) (hp : p ∈ c.locals)
      (hnew : ∀ b' ∈ c.bases, p ∉ c.roots b')
      (hs : xHeapRootSlot b c.sys = .ok slot s₁) (h : xHeapRootPush slot p s₁ = .ok () s') :
      TypedStep env T c
        { c with sys := s', roots := Function.update c.roots b (p :: c.roots b) }
  | rootPop {c : Client} {b p slot : Ptr} {K : List Ptr} {s₁ s' : Sys} (hb : b ∈ c.bases)
      (hK : c.roots b = p :: K)
      (hs : xHeapRootSlot b c.sys = .ok slot s₁) (h : xHeapRootPop slot s₁ = .ok () s') :
      TypedStep env T c { c with sys := s', roots := Function.update c.roots b K }
  | rootRestore {c : Client} {b : Ptr} {K : List Ptr} {s' : Sys} (hb : b ∈ c.bases)
      (hK : K <:+ c.roots b) (h : setXHeapRootChain b (K.headD nil) c.sys = .ok () s') :
      TypedStep env T c { c with sys := s', roots := Function.update c.roots b K }
  | collect {c c' : Client} (h : Collect env c c') : TypedStep env T c c'

variable {env : Env} {T : UnitTable} {c c' c₀ : Client} {s s' : Sys} {p q b t a w : Ptr}
  {fl : Flags} {data : List Word} {cfg : XBaseT} {i : Nat}

/-- The step without the sizes. -/
theorem TypedStep.step (h : TypedStep env T c c') : Mutate env 0 c c' ∨ Collect env c c' := by
  cases h with
  | make hb _ h => exact .inl (.make hb BitVec.and_zero h)
  | baseMake hb hg hm hf h => exact .inl (.baseMake hb hg hm hf h)
  | setType hp _ h => exact .inl (.setType hp h)
  | write hg _ h => exact .inl (.write hg h)
  | malloc h => exact .inl (.malloc h)
  | newLocal hn hp _ => exact .inl (.newLocal hn hp BitVec.and_zero)
  | rootPush hb hp hnew hs h => exact .inl (.rootPush hb hp hnew hs h)
  | rootPop hb hK hs h => exact .inl (.rootPop hb hK hs h)
  | rootRestore hb hK h => exact .inl (.rootRestore hb hK h)
  | collect h => exact .inr h

/-! ## Sizes -/

/-- The objects keep their types and the number of their units. -/
theorem Sys.Sized.same (h : s.Sized T) (hl : ∀ q, s'.Live q → s.Live q)
    (ht : ∀ q, s'.Live q → s'.typeOf q = s.typeOf q)
    (hu : ∀ q i, s'.Live q → (s'.unit q i).isSome = (s.unit q i).isSome) : s'.Sized T := by
  intro q hq
  rw [ht q hq, ← h q (hl q hq)]
  refine eq_of_forall_lt_iff fun i => ?_
  rw [← unit_isSome_iff, ← unit_isSome_iff, ← Option.isSome_iff_exists, ← Option.isSome_iff_exists,
    hu q i hq]

theorem isSome_if_map {d : Prop} [Decidable d] {f : Word → Word} {u u' : Option Word}
    (h : d → u' = u) : (if d then u.map f else u').isSome = u'.isSome := by
  split
  · next hd => rw [h hd, Option.isSome_map]
  · rfl

theorem Made.sized (hm : Made s b t fl data p a s') (hd : data.length = T.units t)
    (h : s.Sized T) : s'.Sized T := by
  intro q hq
  by_cases e : q = p
  · rw [e, hm.data_new, hm.typeOf_new, hd]
  · have hl : s.Live q := ((hm.live q).mp hq).resolve_left e
    rw [hm.typeOf_old q e, ← h q hl]
    refine eq_of_forall_lt_iff fun i => ?_
    rw [← unit_isSome_iff, ← unit_isSome_iff, ← Option.isSome_iff_exists,
      ← Option.isSome_iff_exists, hm.unit_old q i e, isSome_if_map]
    rintro ⟨-, -, rfl⟩
    rfl

theorem xObjMake_sized (hr : xObjMake env b t fl data s = .ok p s') (hd : data.length = T.units t)
    (h : s.Sized T) : s'.Sized T := by
  rcases xObjMake_ok hr with ⟨-, -, -, rfl⟩ | ⟨a, -, hm⟩
  · exact h
  · exact hm.sized hd h

theorem setUnit_sized {v : Word} (hv : s.unit p i = some v) (h : s.Sized T) :
    (s.setUnit p i w).Sized T := by
  refine h.same (fun q => live_setUnit.mp) (fun q _ => typeOf_setUnit) fun q j _ => ?_
  rw [unit_setUnit hv]
  split
  · next e =>
    obtain ⟨rfl, rfl⟩ := e
    rw [hv]
    rfl
  · rfl

theorem makeTree_sized {d : Layout Word} (hr : makeTree env b d s = .ok w s') (h : s.Sized T) :
    s'.Sized T := by
  induction d generalizing s w s' with
  | leaf v =>
    cases hr
    exact h
  | atom d ih =>
    obtain ⟨x, s₁, h₁, hr⟩ := Prog.bind_ok.mp hr
    exact xObjMake_sized hr T.atom.symm (ih h₁ h)
  | pair l r ihl ihr =>
    unfold makeTree at hr
    split at hr
    · obtain ⟨x, s₁, h₁, hr⟩ := Prog.bind_ok.mp hr
      obtain ⟨y, s₂, h₂, hr⟩ := Prog.bind_ok.mp hr
      exact xObjMake_sized hr T.pair.symm (ihr h₂ (ihl h₁ h))
    · obtain ⟨y, s₁, h₁, hr⟩ := Prog.bind_ok.mp hr
      obtain ⟨x, s₂, h₂, hr⟩ := Prog.bind_ok.mp hr
      exact xObjMake_sized hr T.pair.symm (ihl h₂ (ihr h₁ h))

theorem xBaseMake_sized (hr : xBaseMake env b cfg s = .ok p s') (h : s.Sized T) : s'.Sized T := by
  obtain ⟨new, s₁, h₁, hr⟩ := Prog.bind_ok.mp hr
  obtain ⟨root, s₂, h₂, hr⟩ := Prog.bind_ok.mp hr
  obtain ⟨u, s₃, h₃, hr⟩ := Prog.bind_ok.mp hr
  cases hr
  obtain ⟨⟨v, hv⟩, rfl⟩ := setXObjDataI_ok.mp h₃
  exact setUnit_sized hv (makeTree_sized h₂ (xObjMake_sized h₁ T.none.symm h))

theorem sized_flags (hs : s.SameButFlags s') (h : s.Sized T) : s'.Sized T :=
  h.same (fun _ => hs.live.mp) (fun _ _ => hs.typeOf) fun q i _ => by rw [hs.unit]

theorem sized_place {o : Obj} (hn : nil < p) (hd : o.data.length = T.units o.type)
    (h : s.Sized T) : (s.place p o).Sized T := by
  intro q hq
  rw [dataOf_place hn, typeOf_place hn]
  split
  · exact hd
  · next e => exact h q (((live_place hn).mp hq).resolve_left e)

/-! ## Runs -/

/-- What holds in each state of a run. -/
structure TypedInv (T : UnitTable) (c : Client) : Prop extends LoadedInv c where
  sized : c.sys.Sized T

theorem Collect.typed (hin : env.FreeInert) (h : TypedInv T c) (hs : Collect env c c') :
    TypedInv T c' := by
  obtain ⟨L, d, k, hi⟩ := h.heap
  refine ⟨hs.loaded hin h.toLoadedInv, ?_⟩
  cases hs with
  | treeMark hb hr =>
    obtain ⟨A, hA⟩ := xHeapTreeMark_ok hr
    exact sized_flags hA.same h.sized
  | rootChainMark hb hr =>
    obtain ⟨s₁, A, hc, hA⟩ := hi.rootChainMark_ok hb hr
    exact sized_flags (hc.same.trans hA.same) h.sized
  | chainClear hF hr =>
    obtain ⟨l, hc⟩ := xHeapChainClear_ok hr
    exact sized_flags hc.same h.sized
  | sweep hb hF ho hr =>
    obtain ⟨s', fn, l₁, l₂, L', hrun, -, hw, -⟩ := hi.sweep hin hb hF ho
    cases hr.symm.trans hrun
    refine h.sized.same (fun q hq => ((hw.live q).mp hq).1) hw.typeOf fun q i hq => ?_
    rw [hw.unit q i hq, isSome_if_map]
    rintro ⟨-, -, rfl⟩
    rfl

theorem TypedStep.typed (hin : env.FreeInert) (h : TypedInv T c) (hs : TypedStep env T c c') :
    TypedInv T c' := by
  obtain ⟨L, d, k, hi⟩ := h.heap
  have hheap : ∃ L' d' k', HeapInv c' L' d' k' :=
    hs.step.elim (fun hm => hm.inv hi) fun hc => hc.inv hin hi
  cases hs with
  | @make b t p fl data s' hb hd hr =>
    refine ⟨⟨hheap, h.loaded.keep (List.Subset.refl _) fun x _ hx => ?_⟩,
      xObjMake_sized hr hd h.sized⟩
    rcases xObjMake_ok hr with ⟨-, -, -, rfl⟩ | ⟨a, -, hm⟩
    · rfl
    · exact hi.unit_made hb hm hx
  | baseMake hb hg hm hf hr =>
    obtain ⟨a, new, t₀, hmade⟩ := xBaseMake_ok hr
    exact ⟨⟨hheap, h.loaded.keep (List.Subset.refl _) fun x _ hx => hi.unit_baseMade hb hmade hx⟩,
      xBaseMake_sized hr h.sized⟩
  | setType hp hd hr =>
    obtain ⟨hl, rfl⟩ := setXObjType_ok.mp hr
    refine ⟨⟨hheap, h.loaded.keep (List.Subset.refl _) fun _ _ _ => unit_setType⟩, fun q hq => ?_⟩
    rw [dataOf_setType, typeOf_setType hl]
    split
    · next e => rw [e, hd]
    · exact h.sized q (live_setType.mp hq)
  | write hg hs hr =>
    obtain ⟨⟨v, hv⟩, rfl⟩ := setXObjDataI_ok.mp hr
    exact ⟨⟨hheap, h.loaded.keep (List.Subset.refl _) fun x hx _ =>
      (unit_setUnit hv).trans (if_neg fun e => hs x hx e.1.symm)⟩, setUnit_sized hv h.sized⟩
  | malloc hr =>
    rw [xSysMalloc_eq] at hr
    split at hr <;> cases hr <;> exact ⟨⟨hheap, h.loaded⟩, h.sized⟩
  | newLocal hn hp hd =>
    exact ⟨⟨hheap, h.loaded.keep (List.subset_cons_self ..) fun x _ hx => hi.unit_place hn hp hx⟩,
      sized_place hn hd h.sized⟩
  | @rootPush b p slot s₁ s' hb hp hnew hs hr =>
    obtain ⟨cell, hc, hu, hmem⟩ := hi.rootSlot hb
    cases hs.symm.trans (xHeapRootSlot_run (hi.base _ hb).tree.isSet hc)
    cases hr.symm.trans (xHeapRootPush_run hu (hi.chain.local_live hp))
    have hu' : (c.sys.setHeap p (k b).head).unit cell 0 = some (k b).head :=
      unit_setHeap.trans hu
    refine ⟨⟨hheap, h.loaded.keep (List.Subset.refl _) fun x _ hx =>
      (hi.unit_cell hb hmem hu' hx).trans unit_setHeap⟩, setUnit_sized hu' (h.sized.same
        (fun _ => live_setHeap.mp) (fun _ _ => typeOf_setHeap) fun _ _ _ => by rw [unit_setHeap])⟩
  | rootPop hb hK hs hr =>
    obtain ⟨cell, hc, hu, hmem⟩ := hi.rootSlot hb
    have hbase := hi.base _ hb
    cases hs.symm.trans (xHeapRootSlot_run hbase.tree.isSet hc)
    have hseg := hbase.roots
    rw [hK] at hseg
    rw [hseg.1] at hu
    cases hr.symm.trans (xHeapRootPop_run hu (hi.chain.local_live (hbase.subset (hK ▸ .head _))))
    exact ⟨⟨hheap, h.loaded.keep (List.Subset.refl _) fun x _ hx => hi.unit_cell hb hmem hu hx⟩,
      setUnit_sized hu h.sized⟩
  | rootRestore hb hK hr =>
    obtain ⟨cell, hc, hu, hmem⟩ := hi.rootSlot hb
    cases hr.symm.trans (setXHeapRootChain_run hc hu)
    exact ⟨⟨hheap, h.loaded.keep (List.Subset.refl _) fun x _ hx => hi.unit_cell hb hmem hu hx⟩,
      setUnit_sized hu h.sized⟩
  | collect hc => exact hc.typed hin h

/-- The static objects are sized by their types, and hold their values. -/
structure Client.StaticSized (T : UnitTable) (c : Client) : Prop where
  size : ∀ p ∈ c.locals, (c.sys.dataOf p).length = T.units (c.sys.typeOf p)
  loaded : c.Loaded

theorem Start.typedInv (hs : Start env cfg c) (hst : c.StaticSized T) : TypedInv T c := by
  obtain ⟨s, hlive, -, -, -, -, hrun⟩ := hs.before
  obtain ⟨a, new, d, hm⟩ := xBaseMake_ok hrun
  refine ⟨⟨hs.inv, hst.loaded⟩, xBaseMake_sized hrun fun q hq => ?_⟩
  rw [← hm.typeOf_old hq, ← hst.size q ((hlive q).mp hq)]
  refine eq_of_forall_lt_iff fun i => ?_
  rw [← unit_isSome_iff, ← unit_isSome_iff, hm.unit_old hq, if_neg fun e => not_full_nil e.1]

theorem TypedStep.run (hin : env.FreeInert) (hs : Start env cfg c₀) (hst : c₀.StaticSized T)
    (hr : ReflTransGen (TypedStep env T) c₀ c) : TypedInv T c :=
  Prog.invariant (I := TypedInv T) (fun _ _ h hst => hst.typed hin h) hr (hs.typedInv hst)

theorem TypedInv.units_builtIn (h : TypedInv T c) (hp : c.sys.Live p) (hb : c.sys.BuiltIn p) :
    ((c.sys.dataOf p).length : Int) = if c.sys.typeOf p = xTypePairObj then 2 else 1 := by
  rw [h.sized p hp]
  rcases hb with e | e | e <;> rw [e]
  · rw [T.atom]
    rfl
  · rw [T.pair]
    rfl
  · rw [T.none]
    rfl

/-- In every state of a run the reported number of units is that of the units that may be
accessed: for an object of a built-in type or of none on any base, and for one of another type if
the hook knows its type. -/
theorem units_reported (hin : env.FreeInert) (hs : Start env cfg c₀) (hst : c₀.StaticSized T)
    (hr : ReflTransGen (TypedStep env T) c₀ c) (hp : c.sys.Live p) :
    (∀ i, (∃ v, xObjDataI p i c.sys = .ok v c.sys) ↔ i < (c.sys.dataOf p).length) ∧
    ∀ (fn : XFn) (args b : Ptr), nil < args → ¬ c.sys.Live args →
      (c.sys.BuiltIn p →
        xObjUnits fn args b p c.sys = .ok (c.sys.dataOf p).length c.sys ∧
        xObjLength fn args b p c.sys = .ok (c.sys.dataOf p).length c.sys) ∧
      (¬ c.sys.BuiltIn p → b ∈ c.bases → ∀ s',
        c.sys.HookAnswers fn .hookUnits args b p (T.units (c.sys.typeOf p)) s' →
          xObjUnits fn args b p c.sys = .ok (c.sys.dataOf p).length (s'.drop args)) := by
  have h := TypedStep.run hin hs hst hr
  obtain ⟨L, d, k, hi⟩ := h.heap
  have hstat : c.sys.Statics := fun x hx => (h.loaded x hx).2
  refine ⟨fun i => ?_, fun fn args b hn ha => ⟨fun hb => ?_, fun hb hbase s' hans => ?_⟩⟩
  · rw [← unit_isSome_iff]
    exact exists_congr fun v => by simp [xObjDataI_ok]
  · rw [h.units_builtIn hp hb]
    exact ⟨xObjUnits_builtIn hn ha hstat hp hb, xObjLength_builtIn hn ha hstat hp hb⟩
  · rw [h.sized p hp]
    exact xObjUnits_hook hn ha hp hb (hi.base b hbase).tree.isSet hans

/-! ## A pair -/

/-- Atoms have one unit, and so have objects of all types but pairs. -/
def UnitTable.plain : UnitTable := ⟨fun t => if t = xTypePairObj then 2 else 1, rfl, rfl, rfl⟩

theorem Start.exists_statics (env : Env) (cfg : XBaseT) (hg : env.malloc.GrantsFrom 0 56)
    (hm : cfg.heapMark = nil) (hf : cfg.heapFree = nil) :
    ∃ c, Start env cfg c ∧ c.StaticSized .plain := by
  obtain ⟨p, a, new, t, s', hrun, hmade⟩ := xBaseMake_bare env cfg
    (s := staticMemory) (b := nil) (.inl rfl) (hg 0 le_rfl (by omega))
  have hval : ∀ x ∈ staticAtoms,
      staticMemory.obj x.1 = some ⟨nil, nil, xObjFlagNone, [], [x.2]⟩ := by decide
  have hunit : ∀ x ∈ staticAtoms, ∀ i, s'.unit x.1 i = [x.2][i]? := fun x hx i => by
    rw [hmade.unit_old (staticMemory_live.mpr (List.mem_map_of_mem hx)),
      if_neg fun e => not_full_nil e.1, unit, dataOf, hval x hx]
    rfl
  refine ⟨⟨s', p, [p], fun _ => [], staticAtoms.map Prod.fst⟩, ⟨⟨staticMemory,
    fun q => staticMemory_live, rfl, hg, .inl hm, .inl hf, hrun⟩, rfl, rfl⟩, fun q hq => ?_,
    fun x hx => ⟨List.mem_map_of_mem hx, hunit x hx 0⟩⟩
  obtain ⟨x, hx, rfl⟩ := List.mem_map.mp hq
  have ht : s'.typeOf x.1 = nil := by
    rw [hmade.typeOf_old (staticMemory_live.mpr hq), typeOf, hval x hx]
    rfl
  change (s'.dataOf x.1).length = UnitTable.plain.units (s'.typeOf x.1)
  rw [ht]
  refine eq_of_forall_lt_iff fun i => ?_
  rw [← unit_isSome_iff, ← Option.isSome_iff_exists, hunit x hx]
  simp [UnitTable.plain, nil, xTypePairObj]

/-- A program that makes a pair. -/
theorem units_reported_pair : ∃ (c : Client) (p args : Ptr), c.sys.typeOf p = xTypePairObj ∧
    xObjUnits (fun _ _ _ => pure nil) args nil p c.sys = .ok 2 c.sys := by
  obtain ⟨c₀, hs, hst⟩ := Start.exists_statics (.plain fun _ => true) .standard
    (fun _ _ _ => rfl) rfl rfl
  obtain ⟨p, a, s₁, hrun, hm, -⟩ := xObjMake_granted (.plain fun _ => true) xTypePairObj
    xObjFlagNone [nil, nil] hs.bare rfl (by decide)
  have hstep : TypedStep (.plain fun _ => true) .plain c₀ { c₀ with sys := s₁ } :=
    .make (by rw [hs.bases]; exact .head _) rfl hrun
  have hargs : ¬ s₁.Live ((s₁.top + 1 : Nat) : Ptr) := fun hl =>
    absurd (Int.ofNat_le.mp (le_top (.inl hl))) (Nat.not_succ_le_self _)
  have h := ((units_reported Env.plain_inert hs hst (.single hstep)
    ((hm.live p).mpr (.inl rfl))).2 (fun _ _ _ => pure nil) (s₁.top + 1 : Nat) nil
    (Int.natCast_pos.mpr (Nat.succ_pos _)) hargs).1 (.inr (.inl hm.typeOf_new))
  refine ⟨{ c₀ with sys := s₁ }, p, (s₁.top + 1 : Nat), hm.typeOf_new, ?_⟩
  rw [h.1, hm.data_new]
  rfl

end XExpr
