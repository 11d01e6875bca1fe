import XExpr.Heap.Quota

/-!
# A caught trip

An error hook may jump out of the call that reaches the limit, to a handler that restores the head
of the root chain. The allocator leaves a negative limit behind.

* `ProgInv.setLimit`: a limit is assigned between two steps.
* `Sim.trip`: the call that trips leaves the program as it is.
* `caught_trip`: the handler goes on with the heap as it was, until it asks for an object.
* `rearmed_trip`: with a new limit, it goes on as any program does.
-/

namespace XExpr

open Sys Chain
open Mem (chase)
open Mutator (Var Op Obs Metered Renames)

section Recovery

variable {env : Env} {cfg : XBaseT} {st : CStack} {F : Flags} {S K : List Ptr} {b p a ty msg : Ptr}
  {f : Nat → Ptr} {R : Set Nat} {A : Set Ptr} {i i' : Mutator.Ideal Tag} {s : Sys} {c : Client}
  {k : Ceiling} {n : Nat} {limit w : Word} {prog : List Cmd} {os : List (Obs Tag)}
  {o : Option (Obs Tag)} {op : Op Tag} {x : Cmd} {m : Metered Tag} {mode : Mode}

/-! ## The limit between two steps -/

namespace ProgInv

/-- A limit is assigned. -/
theorem setLimit (h : ProgInv (.armed k n) F S b s K A) (lim : Word) : ∃ a,
    s.fieldObj b .allocLimit = some a ∧
    Field.allocLimit.setInt b lim s = .ok () (s.setUnit a 0 lim) ∧
    ProgInv (.armed (k.withLimit lim) n) F S b (s.setUnit a 0 lim) K A ∧
    ∀ q, q ∈ K ∨ q ∈ A → s.SameNode (s.setUnit a 0 lim) q := by
  have harm : Armed s b S k n := h.base
  obtain ⟨ta, hta, hn⟩ := harm.tree
  obtain ⟨a, u, ha, hmem, hu, -⟩ := hta.fieldAtom (f := .allocLimit) rfl
  obtain ⟨t₀, hbase⟩ := h.reportingBase
  have hat : CeilingAt b k.limit (s.ceilingUnits b) n s := ⟨hbase.ceilingBase, rfl, harm.count⟩
  obtain ⟨a', ha', hset, hcount⟩ := hat.setLimit lim
  obtain rfl : a = a' := Option.some.inj (ha.symm.trans ha')
  have hne : ∀ q, q ∈ K ∨ q ∈ A → q ≠ a := fun q hq e => h.ne_shared hq (.inr (hn a hmem)) e.symm
  have hsame : ∀ q, q ∈ K ∨ q ∈ A → s.SameNode (s.setUnit a 0 lim) q := fun q hq =>
    ⟨typeOf_setUnit, dataOf_setUnit.trans (if_neg (hne q hq))⟩
  have hread : ∀ q w, s.unit q 0 = some w → ∃ w', (s.setUnit a 0 lim).unit q 0 = some w' := by
    intro q w hq
    rw [unit_setUnit hu]
    split
    · exact ⟨lim, rfl⟩
    · exact ⟨w, hq⟩
  have htrace : (s.setUnit a 0 lim).trace = s.trace := trace_modify
  obtain ⟨L, t, kept, hi, hh⟩ := h.inv
  have hb : b ∈ (progClient s b K (K ++ S)).bases := .head _
  have hold := hi.heap.base b hb
  -- The tree says all that both layouts say. Then the limit is stored.
  obtain ⟨t₁, mark, hmark, h₁, hs₁⟩ := hta.pin (f := .heapMark) rfl
  obtain ⟨t₂, head, hhead, h₂, hs₂⟩ := h₁.pin (f := .heapRootChain) rfl
  obtain ⟨t₃, h₃, hs₃⟩ := h₂.assignInt (w := lim) (f := .allocLimit) rfl ha
    fun q _ j => unit_setUnit hu
  have hkept : kept b = ⟨k.extra, mark, k.free, head⟩ := by
    have e₁ := (hold.tree.fieldInt (f := .objMetaExtra) rfl).symm.trans
      (hta.fieldInt (f := .objMetaExtra) rfl)
    have e₂ := (hold.tree.fieldObj (f := .heapMark) rfl).symm.trans hmark
    have e₃ := (hold.tree.fieldObj (f := .heapFree) rfl).symm.trans
      (hta.fieldObj (f := .heapFree) rfl)
    have e₄ := (hold.tree.fieldObj (f := .heapRootChain) rfl).symm.trans hhead
    cases hk : kept b
    simp_all
  obtain ⟨tk, htk, hsk, -⟩ := h₃.relax (show ∀ f, Layout.relaxes _ ((kept b).cell f) from
    fun f => by
      rw [hkept]
      cases f <;>
        simp [Ceiling.rooted, Ceiling.cell, Kept.cell, cellObj, cellInt, anyWord, Layout.relaxes])
  obtain ⟨tc, htc, hsc, -⟩ := h₃.relax (show ∀ f, Layout.relaxes _ ((k.withLimit lim).rooted f) from
    fun f => by
      cases f <;>
        simp [Ceiling.rooted, Ceiling.cell, Ceiling.withLimit, cellObj, cellInt, anyWord,
          Layout.relaxes])
  have hsub : t₃.nodes ⊆ ta.nodes := List.Subset.trans hs₃ (List.Subset.trans hs₂ hs₁)
  have hnode : ∀ q ∈ ta.nodes, q ∈ L := fun q hq =>
    (List.mem_cons.mp ((hi.heap.chain.outstanding q).mp (hn q hq).1)).resolve_left
      fun e : q = b => (List.nodup_cons.mp hta.nodup).1 (e ▸ hq)
  have hchain : ChainInv (s.setUnit a 0 lim) b L (K ++ S) :=
    hi.heap.chain.mono (fun q => live_setUnit) (fun q _ => next_setUnit)
      (fun q _ hq => block_setUnit.trans hq) fun q => by rw [htrace]; rfl
  have hheap : HeapInv (progClient (s.setUnit a 0 lim) b K (K ++ S)) L (fun _ => tk)
      fun _ => kept b := by
    refine .single hchain rfl ⟨htk, fun ht => hold.typed ?_, fun q hq => ?_,
      hold.mark.mono (List.Subset.refl _) fun q _ => hread q,
      hold.free.mono (List.Subset.refl _) fun q _ => hread q,
      hold.roots.congr fun q _ => next_setUnit, hold.nodup, hold.subset⟩
      fun q hq => hnode q (hsub (hsk hq))
    · exact typeOf_setUnit ▸ ht
    · exact (congrArg (· &&& xObjFlagShared) flagsOf_setUnit).trans_ne (hn q (hsub (hsk hq))).2
  have hheld : (s.setUnit a 0 lim).held b = s.held b := by
    simp only [Sys.held, htrace, flagsOf_setUnit]
  have harm' : Armed (s.setUnit a 0 lim) b S (k.withLimit lim) n := by
    refine ⟨by rw [typeOf_setUnit]; exact harm.typed, ⟨tc, htc, fun q hq => ?_⟩, harm.extra,
      harm.msg.mono (List.Subset.refl _) fun q _ => hread q,
      harm.hook.mono (List.Subset.refl _) fun q _ => hread q,
      hcount.count, by rw [hheld]; exact harm.held⟩
    rw [htrace, flagsOf_setUnit]
    exact hn q (hsub (hsc hq))
  refine ⟨a, ha, Field.setInt_ok.mpr ⟨a, ha, ⟨u, hu⟩, rfl⟩, ⟨⟨L, _, _, ⟨hheap, fun q hq => ?_⟩,
    hh⟩, harm', h.ne, fun q => ?_, fun q hq => ?_, h.apart, fun q hq => ?_, fun q hq => ?_⟩, hsame⟩
  · exact flagsOf_setUnit.symm ▸ hi.clean q hq
  · rw [flagsOf_setUnit, h.own]
  · rw [(hsame q (.inl hq)).1, (hsame q (.inl hq)).2]
    exact h.frame q hq
  · rw [htrace, flagsOf_setUnit]
    exact h.chain q hq
  · rw [(hsame q (.inr hq)).1, (hsame q (.inr hq)).2]
    exact h.shape q hq

/-- The error hook is called. -/
theorem logged (h : ProgInv mode F S b s K A) (w : Word) :
    ProgInv mode F S b (s.log (.errorHook w)) K A := by
  obtain ⟨L, t, kept, hi, hh⟩ := h.inv
  have hchain : ChainInv (s.log (.errorHook w)) b L (K ++ S) :=
    hi.heap.chain.mono (fun _ => Iff.rfl) (fun _ _ => rfl) (fun _ _ => id) fun _ => Iff.rfl
  have hold := hi.heap.base b (.head _)
  have hheap : HeapInv (progClient (s.log (.errorHook w)) b K (K ++ S)) L (fun _ => t b)
      fun _ => kept b :=
    .single hchain rfl ⟨hold.tree.congr fun _ _ _ _ hu => hu, hold.typed, hold.shared, hold.mark,
      hold.free, hold.roots, hold.nodup, hold.subset⟩ (hi.heap.nodes b (.head _))
  exact ⟨⟨L, _, _, ⟨hheap, hi.clean⟩, hh⟩, h.base.still rfl (fun _ _ _ => rfl)
    (fun _ _ u hu => ⟨u, hu⟩) (fun _ => Iff.rfl) fun _ _ => rfl, h.ne, h.own, h.frame, h.apart,
    h.chain, h.shape⟩

end ProgInv

/-! ## The trip -/

/-- The error hook jumps. -/
def Env.Jumps (env : Env) (b : Ptr) : Prop :=
  ∀ fn message s, env.errorFn fn b message nil s = .error .jump s

/-- A report calls the error hook, which does not come back. -/
theorem ReportingBase.reportError_jump {t : Cells Word} (h : ReportingBase s b t k)
    (hmsg : k.msg ≠ nil) (hhook : k.hook ≠ nil) (hj : env.Jumps b) :
    ∃ w, reportError env b k.msg s = .error .jump (s.log (.errorHook w)) := by
  obtain ⟨w, hw⟩ := h.msg.resolve_left hmsg
  obtain ⟨fn, hfn⟩ := h.hook.resolve_left hhook
  have hk : s.fieldObj b .hookError = some k.hook := h.tree.fieldObj rfl
  have hlog : log (.errorHook w) s = .ok ⟨⟩ (s.log (.errorHook w)) := rfl
  refine ⟨w, ?_⟩
  unfold reportError
  rw [if_pos hmsg, Prog.bind_of_ok (xFirst_eq hw)]
  unfold xObjError
  rw [Prog.bind_of_ok (xBaseIsset_run h.tree.isSet), if_pos rfl, Prog.bind_of_ok (Field.obj_run hk)]
  dsimp only
  rw [if_pos hhook, Prog.bind_of_ok (xFirst_eq hfn), Prog.bind_of_ok hlog]
  exact hj fn w _

namespace Sim

theorem setLimit (h : Sim (.armed k n) F S b f R i s K) (lim : Word) : ∃ a,
    s.fieldObj b .allocLimit = some a ∧
    Field.allocLimit.setInt b lim s = .ok () (s.setUnit a 0 lim) ∧
    Sim (.armed (k.withLimit lim) n) F S b f R i (s.setUnit a 0 lim) K := by
  obtain ⟨a, ha, hset, hp, hsame⟩ := h.prog.setLimit lim
  refine ⟨a, ha, hset, hp, h.copy.congr ?_ fun q hq => (hsame (f q) (.inr ⟨q, hq, rfl⟩)).node,
    h.asked.trans requests_modify.symm, h.old⟩
  exact List.map_congr_left fun q hq => by rw [(hsame q (.inl hq)).2]

/-- The request that trips the limit. -/
theorem trip (h : Sim (.armed k n) F S b f R i s K) (hpos : 0 < k.limit) (hle : k.limit ≤ n)
    (hmsg : k.msg ≠ nil) (hhook : k.hook ≠ nil) (hj : env.Jumps b) : ∃ s',
    (∀ ty data, xObjMake env b ty xObjFlagNone data s = .error .jump s') ∧
    Sim (.armed (k.withLimit (-1)) n) F S b f R i s' K := by
  obtain ⟨a, ha, -, h₁⟩ := h.setLimit (-1)
  obtain ⟨t, hb⟩ := h.prog.reportingBase
  obtain ⟨t', hb'⟩ := h₁.prog.reportingBase
  have harm : Armed s b S k n := h.prog.base
  have hat : CeilingAt b k.limit (s.ceilingUnits b) n s := ⟨hb.ceilingBase, rfl, harm.count⟩
  obtain ⟨w, hrep⟩ := hb'.reportError_jump hmsg hhook hj
  refine ⟨(s.setUnit a 0 (-1)).log (.errorHook w), fun ty data => ?_, h₁.prog.logged w, h₁.copy,
    h₁.asked, h₁.old⟩
  obtain ⟨a', ha', -, heq⟩ := hat.xObjAlloc_refused env ty xObjFlagNone data.length
    (fun p => if p = nil then return nil else do storeUnits p 0 data; return p) hb.reads hpos hle
  obtain rfl : a = a' := Option.some.inj (ha.symm.trans ha')
  exact heq.trans (Prog.bind_of_error hrep)

end Sim

/-! ## The handler -/

/-- An error hook that jumps. -/
def jumpingHook : Env :=
  { Env.plain fun _ => true with errorFn := fun _ _ _ _ => throw .jump }

/-- A base with an error hook in a static atom. -/
theorem exists_guarded : ∃ c, Start jumpingHook { XBaseT.standard with hookError := 8 } c ∧
    c.sys.Hook c.locals 8 ∧ ∀ p ∈ c.locals, c.sys.flagsOf p &&& xObjFlagOwn = 0 := by
  let s : Sys := Sys.empty.place 8 ⟨nil, xTypeAtomObj, xObjFlagNone, [], [41]⟩
  have hpos : nil < 8 := by decide
  have hu : s.unit 8 0 = some 41 := by rw [unit_place hpos, if_pos rfl]; rfl
  have hlive : ∀ q, s.Live q ↔ q ∈ [(8 : Ptr)] := fun q => by
    rw [live_place hpos, List.mem_singleton]
    exact or_iff_left Finmap.notMem_empty
  obtain ⟨b, a, new, t₀, s₁, hrun, hm⟩ := xBaseMake_bare jumpingHook
    { XBaseT.standard with hookError := 8 } (s := s) (b := nil) (.inl rfl) rfl
  refine ⟨⟨s₁, b, [b], fun _ => [], [8]⟩, ⟨⟨s, hlive, trace_place, fun _ _ _ => rfl, .inl rfl,
    .inl rfl, hrun⟩, rfl, rfl⟩, .inr ⟨.head _, 41, ?_⟩, fun p hp => ?_⟩
  · change s₁.unit 8 0 = some 41
    rw [hm.unit_old (live_of_unit hu), if_neg fun h => not_full_nil h.1, hu]
  · obtain rfl := List.mem_singleton.mp hp
    change s₁.flagsOf 8 &&& xObjFlagOwn = 0
    rw [hm.flagsOf_old (live_of_unit hu), flagsOf_place hpos, if_pos rfl]
    rfl

/-- Of two atoms one is lost, and there is no third. -/
theorem exists_trip : ∃ (c : Client) (s : Sys) (i i' : Mutator.Ideal Tag),
    Start jumpingHook { XBaseT.standard with hookError := 8 } c ∧ c.sys.Hook c.locals 8 ∧
    (∀ p ∈ c.locals, c.sys.flagsOf p &&& xObjFlagOwn = 0) ∧
    arm c.root 1 8 2 c.sys = .ok () s ∧
    i.heap.frames = [[some (c.sys.requests + 1), none]] ∧
    i.heap.node (c.sys.requests + 1) = some ⟨.atom 42, []⟩ ∧
    Metered.run (fun _ => true) 2 (lostAtom.map Cmd.op) ⟨idealStart c.sys.requests, 0⟩ =
      some (some ⟨i, 2⟩, []) ∧
    i.step (fun _ => true) (.make (.atom 43) [] ⟨0, 0⟩) = some (i', none) := by
  obtain ⟨c, hs, hhook, hst⟩ := exists_guarded
  obtain ⟨s, harm, -⟩ := hs.armedSim (F := xObjFlagMark) (by decide) hst rfl
    (show (1 : Ptr) ≠ nil by decide) hhook hhook 2
  obtain ⟨i, -, hfr, hnode, hrun⟩ := lostAtom_metered c.sys.requests
  have hi := hrun []
  rw [List.append_nil] at hi
  obtain ⟨i', hstep⟩ : ∃ i', i.step (fun _ => true) (.make (.atom 43) [] ⟨0, 0⟩) =
      some (i', none) := by
    simp [Mutator.Ideal.step, Mutator.Heap.apply, Mutator.Heap.get, hfr]
  exact ⟨c, s, i, i', hs, hhook, hst, harm, hfr, hnode, hi, hstep⟩

/-- A program on a new base that is armed, up to the request that trips the limit. -/
theorem Start.tripped (st : CStack) (hs : Start env cfg c) (hin : env.FreeInert)
    (hat : env.AtomsClosed) (hF : F ≠ 0) (hsh : F &&& xObjFlagShared = 0)
    (hown : F &&& xObjFlagOwn = 0) (hst : ∀ p ∈ c.locals, c.sys.flagsOf p &&& xObjFlagOwn = 0)
    (hx : cfg.objMetaExtra = 0) (hty : ty ≠ nil) (hhook : c.sys.Hook c.locals cfg.hookError)
    (hmsg : c.sys.Hook c.locals msg) (harm : arm c.root ty msg limit c.sys = .ok () s)
    (hh : cfg.hookError ≠ nil) (hm : msg ≠ nil) (hj : env.Jumps c.root)
    (hi : Metered.run env.malloc.grants limit (prog.map Cmd.op) ⟨idealStart c.sys.requests, 0⟩ =
      some (some m, os))
    (hop : x.op = some op) (ha : op.asks = true)
    (hstep : m.ideal.step env.malloc.grants op = some (i, o)) (hpos : 0 < limit)
    (hle : limit ≤ m.count) : ∃ f R K s₁ s₂,
    Cmd.runAll env st F c.root prog [] s = .ok (K, os) s₁ ∧
    x.run env st F c.root K s₁ = .error .jump s₂ ∧
    Sim (.armed ⟨0, -1, msg, cfg.hookError, cfg.heapFree⟩ m.count) F c.locals c.root f R m.ideal
      s₂ K := by
  obtain ⟨s₀, hrun, hout⟩ := hs.metered st hin hat hF hsh hown hst hx hty hhook hmsg limit
  cases harm.symm.trans hrun
  obtain ⟨f, R, K, s₁, hall, hsim⟩ := hout hi
  obtain ⟨s₂, hmake, hsim'⟩ := hsim.trip hpos hle hm hh hj
  obtain ⟨e, s₂', hx, rfl, rfl⟩ := hsim.stop (P := fun e s' => e = .jump ∧ s' = s₂) st hop ha hstep
    fun ty data => ⟨_, s₂, hmake ty data, rfl, rfl⟩
  exact ⟨f, R, K, s₁, _, hall, hx, hsim'⟩

/-- An error hook catches the trip of the limit. The handler goes on with the frames and the heap as
they were, and with the negative limit it gets no object. -/
theorem caught_trip (hin : env.FreeInert) (hat : env.AtomsClosed) (hF : F ≠ 0)
    (hsh : F &&& xObjFlagShared = 0) (hown : F &&& xObjFlagOwn = 0) (hs : Start env cfg c)
    (hst : ∀ p ∈ c.locals, c.sys.flagsOf p &&& xObjFlagOwn = 0) (hx : cfg.objMetaExtra = 0)
    (hty : ty ≠ nil) (hhook : c.sys.Hook c.locals cfg.hookError)
    (hmsg : c.sys.Hook c.locals msg) (harm : arm c.root ty msg limit c.sys = .ok () s)
    (hh : cfg.hookError ≠ nil) (hm : msg ≠ nil) (hj : env.Jumps c.root)
    (hi : Metered.run env.malloc.grants limit (prog.map Cmd.op) ⟨idealStart c.sys.requests, 0⟩ =
      some (some m, os))
    (hop : x.op = some op) (ha : op.asks = true)
    (hstep : m.ideal.step env.malloc.grants op = some (i, o)) (hpos : 0 < limit)
    (hle : limit ≤ m.count) : ∃ K s₁ s₂,
    Cmd.runAll env st F c.root prog [] s = .ok (K, os) s₁ ∧
    x.run env st F c.root K s₁ = .error .jump s₂ ∧
    ∀ {handler r os'}, Metered.run env.malloc.grants (-1) (handler.map Cmd.op) m = some (r, os') →
      Tracks c.root cfg.hookError (-1) os' (Cmd.runAll env st F c.root handler K s₂) r := by
  obtain ⟨f, R, K, s₁, s₂, hall, hx, hsim⟩ := hs.tripped st hin hat hF hsh hown hst hx hty hhook
    hmsg harm hh hm hj hi hop ha hstep hpos hle
  exact ⟨K, s₁, s₂, hall, hx, fun hi' => (hsim.metered st hin hat hF hsh hown hi').tracks⟩

/-- The handler reads the second of two atoms, and gets no third. -/
theorem caught_trip_lostAtom : ∃ (c : Client) (s : Sys) (K : List Ptr) (s₁ s₂ s₃ s₄ : Sys)
    (K' : List Ptr), arm c.root 1 8 2 c.sys = .ok () s ∧
    Cmd.runAll jumpingHook .bump xObjFlagMark c.root lostAtom [] s = .ok (K, []) s₁ ∧
    (Cmd.atom 43 ⟨0, 0⟩).run jumpingHook .bump xObjFlagMark c.root K s₁ = .error .jump s₂ ∧
    Cmd.runAll jumpingHook .bump xObjFlagMark c.root [.look ⟨0, 0⟩, .unwind 1] K s₂ =
      .ok (K', [.label (some (.atom 42))]) s₃ ∧
    Cmd.runAll jumpingHook .bump xObjFlagMark c.root [.atom 43 ⟨0, 0⟩] K s₂ =
      .error (.exit 2) s₄ := by
  obtain ⟨c, s, i, i', hs, hhook, hst, harm, hfr, hnode, hi, hstep⟩ := exists_trip
  obtain ⟨K, s₁, s₂, hall, hx, hafter⟩ := @caught_trip jumpingHook _ .bump xObjFlagMark 1 8 i' s c 2
    lostAtom [] none _ (.atom 43 ⟨0, 0⟩) ⟨i, 2⟩ (fun _ _ _ _ => rfl) (fun _ _ _ _ _ => rfl)
    (by decide) (by decide) (by decide) hs hst rfl (by decide) hhook hhook harm (by decide)
    (by decide) (fun _ _ _ => rfl) hi rfl rfl hstep (by decide) le_rfl
  obtain ⟨m, hlook⟩ : ∃ m, Metered.run (fun _ => true) (-1)
      (List.map Cmd.op [.look ⟨0, 0⟩, .unwind 1]) ⟨i, 2⟩ =
        some (some m, [.label (some (.atom 42))]) := by
    simp [Cmd.op, Metered.run, Metered.step, Mutator.Ideal.step, Mutator.Heap.apply,
      Mutator.Heap.get, hfr, hnode, Mutator.Op.asks]
  have hstop : Metered.run (fun _ => true) (-1) (List.map Cmd.op [.atom 43 ⟨0, 0⟩]) ⟨i, 2⟩ =
      some (none, []) := by
    simp [Cmd.op, Metered.run, Metered.step, Metered.Answers, Mutator.Ideal.step,
      Mutator.Heap.apply, Mutator.Heap.get, hfr, Mutator.Op.asks]
  obtain ⟨f, K', s₃, hrun₃, -⟩ := hafter hlook
  obtain ⟨e, s₄, hrun₄, he⟩ := hafter hstop
  exact ⟨c, s, K, s₁, s₂, s₃, s₄, K', harm, hall, hx, hrun₃, he (.inr (by decide)) ▸ hrun₄⟩

/-- If the handler assigns another limit, it goes on as it would from the start. -/
theorem rearmed_trip (hin : env.FreeInert) (hat : env.AtomsClosed) (hF : F ≠ 0)
    (hsh : F &&& xObjFlagShared = 0) (hown : F &&& xObjFlagOwn = 0) (hs : Start env cfg c)
    (hst : ∀ p ∈ c.locals, c.sys.flagsOf p &&& xObjFlagOwn = 0) (hx : cfg.objMetaExtra = 0)
    (hty : ty ≠ nil) (hhook : c.sys.Hook c.locals cfg.hookError)
    (hmsg : c.sys.Hook c.locals msg) (harm : arm c.root ty msg limit c.sys = .ok () s)
    (hh : cfg.hookError ≠ nil) (hm : msg ≠ nil) (hj : env.Jumps c.root)
    (hi : Metered.run env.malloc.grants limit (prog.map Cmd.op) ⟨idealStart c.sys.requests, 0⟩ =
      some (some m, os))
    (hop : x.op = some op) (ha : op.asks = true)
    (hstep : m.ideal.step env.malloc.grants op = some (i, o)) (hpos : 0 < limit)
    (hle : limit ≤ m.count) (lim : Word) : ∃ K s₁ s₂ s₃,
    Cmd.runAll env st F c.root prog [] s = .ok (K, os) s₁ ∧
    x.run env st F c.root K s₁ = .error .jump s₂ ∧
    Field.allocLimit.setInt c.root lim s₂ = .ok () s₃ ∧
    ∀ {handler r os'}, Metered.run env.malloc.grants lim (handler.map Cmd.op) m = some (r, os') →
      Tracks c.root cfg.hookError lim os' (Cmd.runAll env st F c.root handler K s₃) r := by
  obtain ⟨f, R, K, s₁, s₂, hall, hx, hsim⟩ := hs.tripped st hin hat hF hsh hown hst hx hty hhook
    hmsg harm hh hm hj hi hop ha hstep hpos hle
  obtain ⟨a, -, hset, hsim'⟩ := hsim.setLimit lim
  exact ⟨K, s₁, s₂, _, hall, hx, hset,
    fun hi' => (hsim'.metered st hin hat hF hsh hown hi').tracks⟩

/-- With a limit of three objects the handler gets the third atom. -/
theorem rearmed_trip_lostAtom : ∃ (c : Client) (s : Sys) (K : List Ptr) (s₁ s₂ s₃ s₄ : Sys),
    arm c.root 1 8 2 c.sys = .ok () s ∧
    Cmd.runAll jumpingHook .bump xObjFlagMark c.root lostAtom [] s = .ok (K, []) s₁ ∧
    (Cmd.atom 43 ⟨0, 0⟩).run jumpingHook .bump xObjFlagMark c.root K s₁ = .error .jump s₂ ∧
    Field.allocLimit.setInt c.root 3 s₂ = .ok () s₃ ∧
    ∃ K', Cmd.runAll jumpingHook .bump xObjFlagMark c.root [.atom 43 ⟨0, 0⟩] K s₃ =
      .ok (K', []) s₄ ∧ s₄.fieldInt c.root .allocCount = some 3 := by
  obtain ⟨c, s, i, i', hs, hhook, hst, harm, hfr, hnode, hi, hstep⟩ := exists_trip
  obtain ⟨K, s₁, s₂, s₃, hall, hx, hset, hafter⟩ := @rearmed_trip jumpingHook _ .bump xObjFlagMark 1
    8 i' s c 2 lostAtom [] none _ (.atom 43 ⟨0, 0⟩) ⟨i, 2⟩ (fun _ _ _ _ => rfl)
    (fun _ _ _ _ _ => rfl) (by decide) (by decide) (by decide) hs hst rfl (by decide) hhook hhook
    harm (by decide) (by decide) (fun _ _ _ => rfl) hi rfl rfl hstep (by decide) le_rfl 3
  obtain ⟨m, hmake, hcount⟩ : ∃ m, Metered.run (fun _ => true) 3
      (List.map Cmd.op [.atom 43 ⟨0, 0⟩]) ⟨i, 2⟩ = some (some m, []) ∧ m.count = 3 := by
    simp [Cmd.op, Metered.run, Metered.step, Metered.Answers, Mutator.Ideal.step,
      Mutator.Heap.apply, Mutator.Heap.get, hfr, Mutator.Op.asks]
  obtain ⟨f, K', s₄, hrun₄, -, hn⟩ := hafter hmake
  exact ⟨c, s, K, s₁, s₂, s₃, s₄, harm, hall, hx, hset, K', hrun₄, by rw [hn, hcount]; rfl⟩

end Recovery

end XExpr
