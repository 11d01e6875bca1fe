import XExpr.Heap.Transparent
import XExpr.Lib.Metered

/-!
# Programs on an armed base

A base with a type and an allocation limit lets a program go on until it asks for an object and the
objects made since the last collection, with those that the frames led to then, have reached the
limit. Nothing else of the program or of the memory matters.

* `Start.armedSim`: a program starts on an armed base.
* `ReportingBase.xObjMake_refused`: a request at the limit, and one that `malloc` refuses, do not
  return.
* `Sim.metered`: a program on an armed base and the ideal heap with a ceiling go on together, and
  stop at the same step.
* `ceiling_metered`, `collecting_optimal`: the same from the start, and with a collection before
  every request.
-/

namespace XExpr

open Sys Chain
open Mem (chase)
open Mutator (Var Op Obs Metered Renames)

/-! ## Arming -/

section Arm

variable {env : Env} {cfg : XBaseT} {c : Client} {s s' : Sys} {b ty msg a : Ptr} {t : Cells Word}
  {cell : Field → Layout Word} {f : Field} {x : Option Word} {limit w : Word}

theorem armedCell_relaxes_kept (f : Field) :
    (armedCell cfg msg limit f).relaxes ((Kept.ofCfg cfg).cell f) := by
  cases f <;>
    simp [armedCell, Kept.cell, Kept.ofCfg, cellObj, cellInt, anyWord, Layout.relaxes]

theorem armedCell_relaxes_rooted (f : Field) : (armedCell cfg msg limit f).relaxes
    (Ceiling.rooted ⟨cfg.objMetaExtra, limit, msg, cfg.hookError, cfg.heapFree⟩ f) := by
  cases f <;>
    simp [armedCell, Ceiling.rooted, Ceiling.cell, cellObj, cellInt, anyWord, Layout.relaxes]

theorem Start.arm_run (hs : Start env cfg c) (ty msg : Ptr) (limit : Word) : ∃ s d new,
    arm c.root ty msg limit c.sys = .ok () s ∧ s.typeOf c.root = ty ∧
    BaseTree s c.root d (armedCell cfg msg limit) ∧ d.nodes ⊆ new ∧
    ChainInv c.sys c.root new c.locals ∧
    (∀ q ∈ new, c.sys.flagsOf q &&& xObjFlagShared ≠ 0) ∧ Rearmed c.sys s := by
  obtain ⟨s₀, new, t₀, hm, hg, hchain, -⟩ := hs.made
  obtain ⟨s, d, hrun, hty, htree, hsub, hr, -⟩ := hm.arm_run hg ty msg limit
  refine ⟨s, d, new, hrun, hty, htree, hsub, hchain, fun q hq => ?_, hr⟩
  rw [hm.flagsOf_new hq]
  decide

/-- A program starts on an armed base. -/
theorem Start.armedSim {F : Flags} (hs : Start env cfg c) (hsh : F &&& xObjFlagShared = 0)
    (hst : ∀ p ∈ c.locals, c.sys.flagsOf p &&& xObjFlagOwn = 0) (hx : cfg.objMetaExtra = 0)
    (hty : ty ≠ nil) (hhook : c.sys.Hook c.locals cfg.hookError)
    (hmsg : c.sys.Hook c.locals msg) (limit : Word) : ∃ s,
    arm c.root ty msg limit c.sys = .ok () s ∧
    Sim (.armed ⟨0, limit, msg, cfg.hookError, cfg.heapFree⟩ 0) F c.locals c.root (fun _ => nil) ∅
      (idealStart c.sys.requests) s [] := by
  obtain ⟨s, d, new, hrun, htype, htree, hsub, hchain, hnew, hr⟩ := hs.arm_run ty msg limit
  have hchain' : ChainInv s c.root new c.locals :=
    hchain.mono hr.live (fun q _ => hr.next q) (fun q _ => (hr.block q).trans)
      fun q => by rw [hr.trace]
  have hhooks : ∀ {p : Ptr}, c.sys.Hook c.locals p → s.Hook c.locals p := fun hp =>
    hp.mono (List.Subset.refl _) fun q _ => hr.unit q
  obtain ⟨dk, hdk, hsubk, -⟩ := htree.relax armedCell_relaxes_kept
  obtain ⟨da, hda, hsuba, -⟩ := htree.relax armedCell_relaxes_rooted
  obtain ⟨-, -, -, -, -, -, hmark, hfree⟩ := hs.made
  have hout : ∀ q, q ∈ outstanding s.trace ↔ q ∈ c.root :: new := fun q => by
    rw [hr.trace, hchain.outstanding]
  have hshared : ∀ q ∈ new, s.flagsOf q &&& xObjFlagShared ≠ 0 := fun q hq => by
    rw [hr.flags]
    exact hnew q hq
  have hheap : HeapInv { c with sys := s } new (fun _ => dk) fun _ => Kept.ofCfg cfg := by
    refine .single hchain' hs.bases ?_ (List.Subset.trans hsubk hsub)
    change BaseInv s c.locals c.root dk (Kept.ofCfg cfg) (c.roots c.root)
    rw [hs.roots]
    exact ⟨hdk, fun _ => hx, fun q hq => hshared q (hsub (hsubk hq)), hhooks hmark, hhooks hfree,
      rfl, .nil, List.nil_subset _⟩
  have hheld : s.held c.root = ∅ := Set.eq_empty_of_forall_notMem fun q ⟨hq, hb, hf⟩ =>
    hshared q ((List.mem_cons.mp ((hout q).mp hq)).resolve_left hb) hf
  have harmed : Armed s c.root c.locals ⟨0, limit, msg, cfg.hookError, cfg.heapFree⟩ 0 := by
    refine ⟨htype ▸ hty, ⟨da, hx ▸ hda, fun q hq => ?_⟩, rfl, hhooks hmsg, hhooks hhook,
      htree.fieldInt (f := .allocCount) rfl, by rw [hheld, Set.ncard_empty]⟩
    have hq := hsub (hsuba hq)
    exact ⟨(hout q).mpr (.tail _ hq), hshared q hq⟩
  refine ⟨s, hrun, ?_⟩
  have hsim := hheap.sim F hs.bases hs.roots (m := .armed _ 0) harmed (fun p hp => ?_) fun p => ?_
  · rwa [← hr.requests]
  · exact (congrArg (· &&& F) (hr.flags p)).trans (hs.flags_and
      (fun hl => hchain.apart p hl (.tail _ hp)) (by rw [BitVec.and_comm]; exact hsh))
  · exact (congrArg (· &&& xObjFlagOwn) (hr.flags p)).trans (hs.own_and hst p)

end Arm

/-! ## Requests -/

section Requests

variable {env : Env} {F : Flags} {S K : List Ptr} {b ty : Ptr} {s : Sys} {A : Set Ptr}
  {k : Ceiling} {n : Nat} {data : List Word} {fl : Flags} {t : Cells Word}

/-- Without an error hook a report returns. -/
theorem ReportingBase.reportError_run (env : Env) (h : ReportingBase s b t k)
    (hk : k.hook = nil) : ∃ s', reportError env b k.msg s = .ok () s' := by
  unfold reportError
  rcases h.msg with hm | ⟨w, hw⟩
  · exact ⟨s, by rw [if_neg (not_not.mpr hm)]; rfl⟩
  rw [if_pos (live_of_unit hw).ne_nil, Prog.bind_of_ok (xFirst_eq hw)]
  have hhook : s.fieldObj b .hookError = some k.hook := h.tree.fieldObj rfl
  unfold xObjError
  rw [Prog.bind_of_ok (xBaseIsset_run h.tree.isSet), if_pos rfl,
    Prog.bind_of_ok (Field.obj_run hhook)]
  dsimp only
  rw [if_neg (not_not.mpr hk), if_neg (not_not.mpr rfl)]
  exact ⟨_, rfl⟩

/-- At the ceiling a call does not return, nor does one that `malloc` refuses. -/
theorem ReportingBase.xObjMake_refused (env : Env) (ty : Ptr) (fl : Flags) (data : List Word)
    (h : ReportingBase s b t k) (hn : s.fieldInt b .allocCount = some (n : Int))
    (hr : ¬ (env.malloc.grants s.requests = true ∧ 0 ≤ k.limit ∧
      (0 < k.limit → (n : Int) < k.limit))) :
    ∃ e s', xObjMake env b ty fl data s = .error e s' ∧
      (k.hook = nil ∨ k.limit < 0 → e = .exit 2) := by
  have hat : CeilingAt b k.limit (s.ceilingUnits b) n s := ⟨h.ceilingBase, rfl, hn⟩
  rcases lt_or_ge k.limit 0 with hneg | hpos
  · obtain ⟨s', hrun, -⟩ :=
      (h.ceilingBase.xObjAlloc_latched env ty fl data.length hneg).2 k.msg h.reads h.msg
    exact ⟨_, s', Prog.bind_of_error hrun, fun _ => rfl⟩
  by_cases hlt : 0 < k.limit → (n : Int) < k.limit
  · have hg : env.malloc.grants s.requests = false :=
      Bool.eq_false_iff.mpr fun hg => hr ⟨hg, hpos, hlt⟩
    obtain ⟨y, hfields⟩ := h.ceilingBase.allocFields_run h.reads
    obtain ⟨htrip, hceil⟩ := CeilingBase.allocCeiling_below env k.msg y hn hpos hlt
    have hdirect : ∃ s₁, reportDirect k.msg s.request = .ok () s₁ := by
      rcases reportDirect_cases k.msg s.request with ⟨s₁, hrun, -⟩ | ⟨hm, hu, -⟩
      · exact ⟨s₁, hrun⟩
      · obtain ⟨w, hw⟩ := h.msg.resolve_left hm
        cases hu.symm.trans hw
    obtain ⟨s₁, hrun⟩ := hdirect
    have halloc : xObjAlloc env b ty fl data.length s = .error (.exit 2) s₁ := by
      unfold xObjAlloc
      rw [Prog.bind_of_ok hfields, Prog.bind_of_ok htrip, Prog.bind_of_ok hceil,
        Prog.bind_of_ok (by rw [xSysMalloc_eq, hg, if_neg Bool.false_ne_true]), if_pos rfl]
      unfold allocRefused
      rw [if_pos rfl, Prog.bind_of_ok hrun]
      rfl
    exact ⟨_, s₁, Prog.bind_of_error halloc, fun _ => rfl⟩
  · obtain ⟨h₀, hle⟩ := Classical.not_imp.mp hlt
    obtain ⟨a, ha, -, heq⟩ := hat.xObjAlloc_refused env ty fl data.length
      (fun p => if p = nil then return nil else do storeUnits p 0 data; return p) h.reads h₀
      (not_lt.mp hle)
    obtain ⟨a', t', ha', h'⟩ := h.setLimit (-1)
    obtain rfl : a = a' := Option.some.inj (ha.symm.trans ha')
    have hmake : xObjMake env b ty fl data s =
        (do reportError env b k.msg; xSysExit 2; return nil : M Ptr) (s.setUnit a 0 (-1)) := heq
    rw [hmake]
    cases hrep : reportError env b k.msg (s.setUnit a 0 (-1)) with
    | ok u s' => exact ⟨.exit 2, s', Prog.bind_of_ok hrep, fun _ => rfl⟩
    | error e s' =>
      refine ⟨e, s', Prog.bind_of_error hrep, fun hk => ?_⟩
      have hk := hk.resolve_right hpos.not_gt
      obtain ⟨s₁, hrun⟩ := h'.reportError_run env hk
      cases hrep.symm.trans hrun

namespace ProgInv

/-- The base of a program as one with a limit. -/
theorem reportingBase (h : ProgInv (.armed k n) F S b s K A) : ∃ t, ReportingBase s b t k := by
  have harm : Armed s b S k n := h.base
  obtain ⟨ta, hta, hn⟩ := harm.tree
  obtain ⟨t', ht', hsub, -⟩ := hta.relax k.rooted_relaxes
  exact ⟨t', ht', harm.typed, fun q hq => (hn q (hsub hq)).2, harm.msg.imp id And.right,
    harm.hook.imp id And.right⟩

/-- A request that is neither refused nor at the ceiling. -/
theorem answers (h : ProgInv (.armed k n) F S b s K A)
    (ha : env.malloc.grants s.requests = true ∧ 0 ≤ k.limit ∧
      (0 < k.limit → (n : Int) < k.limit)) :
    Mode.Answers (.armed k n) env s b := fun ty data hlen => by
  obtain ⟨hg, hpos, hlt⟩ := ha
  have harm : Armed s b S k n := h.base
  obtain ⟨p, a, s', hrun, hm⟩ := xObjMake_full env ty xObjFlagNone data (harm.ready hpos hlt) hg
    (by rw [h.extraOf]; omega)
  exact .inr ⟨p, a, s', hg, hrun, hm⟩

end ProgInv

end Requests

/-! ## Runs -/

section Runs

variable {env : Env} {cfg : XBaseT} {st : CStack} {F : Flags} {S K : List Ptr} {b ty msg : Ptr}
  {f : Nat → Ptr} {R : Set Nat} {i i' : Mutator.Ideal Tag} {s : Sys} {c : Client} {k : Ceiling}
  {n : Nat} {limit : Word} {prog : List Cmd} {os : List (Obs Tag)} {o : Option (Obs Tag)}
  {op : Op Tag} {m : Metered Tag} {r : Option (Metered Tag)}

/-- A step that asks for an object stops if its request does. -/
theorem Sim.stop {mode : Mode} {P : Stop → Sys → Prop} (st : CStack) {x : Cmd}
    (h : Sim mode F S b f R i s K) (hx : x.op = some op) (hop : op.asks = true)
    (hi : i.step env.malloc.grants op = some (i', o))
    (hmake : ∀ ty data, ∃ e s', xObjMake env b ty xObjFlagNone data s = .error e s' ∧ P e s') :
    ∃ e s', x.run env st F b K s = .error e s' ∧ P e s' := by
  cases x with
  | atom w dst =>
    obtain ⟨e, s', hm, he⟩ := hmake xTypeAtomObj [w]
    exact ⟨e, s', Prog.bind_of_error hm, he⟩
  | cons x y dst =>
    cases hx
    obtain ⟨h₁, ha, -⟩ := Option.map_eq_some_iff.mp hi
    obtain ⟨_, _, hvs, -⟩ := Mutator.Heap.apply_make.mp ha
    obtain ⟨v, u, hv, hu, -⟩ := Mutator.Heap.mapM_two.mp (h.copy.mapM_get hvs).1
    obtain ⟨p, hp, -⟩ := getVar_run hv
    obtain ⟨q, hq, -⟩ := getVar_run hu
    obtain ⟨e, s', hm, he⟩ := hmake xTypePairObj [p, q]
    refine ⟨e, s', ?_, he⟩
    rw [Cmd.run, Prog.bind_of_ok hp, Prog.bind_of_ok hq]
    exact Prog.bind_of_error hm
  | _ => cases hx <;> cases hop

/-- What a run on an armed base comes to. -/
def ProgOutcome (F : Flags) (S : List Ptr) (b : Ptr) (k : Ceiling) (os : List (Obs Tag))
    (res : EStateM.Result Stop Sys (List Ptr × List (Obs Tag))) : Option (Metered Tag) → Prop
  | some m => ∃ f R K s, res = .ok (K, os) s ∧ Sim (.armed k m.count) F S b f R m.ideal s K
  | none => ∃ e s, res = .error e s ∧ (k.hook = nil ∨ k.limit < 0 → e = .exit 2)

/-- A program on an armed base goes on as long as it does on the ideal heap with a ceiling. -/
theorem Sim.metered (st : CStack) (h : Sim (.armed k m.count) F S b f R m.ideal s K)
    (hin : env.FreeInert) (hat : env.AtomsClosed) (hF : F ≠ 0) (hsh : F &&& xObjFlagShared = 0)
    (hown : F &&& xObjFlagOwn = 0)
    (hi : Metered.run env.malloc.grants k.limit (prog.map Cmd.op) m = some (r, os)) :
    ProgOutcome F S b k os (Cmd.runAll env st F b prog K s) r := by
  induction prog generalizing m f R s K os with
  | nil =>
    cases hi
    exact ⟨f, R, K, s, rfl, h⟩
  | cons x prog ih =>
    have hnext : ∀ (m₁ : Metered Tag) {f₁ R₁ K₁ s₁ o os'},
        x.run env st F b K s = .ok (K₁, o) s₁ →
        Sim (.armed k m₁.count) F S b f₁ R₁ m₁.ideal s₁ K₁ →
        Metered.run env.malloc.grants k.limit (prog.map Cmd.op) m₁ = some (r, os') →
        ProgOutcome F S b k (o.toList ++ os') (Cmd.runAll env st F b (x :: prog) K s) r := by
      intro m₁ f₁ R₁ K₁ s₁ o os' hrun hsim hrest
      have hout := ih hsim hrest
      cases r with
      | some m' =>
        obtain ⟨f', R', K', s', hall, hsim'⟩ := hout
        exact ⟨f', R', K', s', (Prog.bind_of_ok hrun).trans (Prog.bind_of_ok hall), hsim'⟩
      | none =>
        obtain ⟨e, s', hall, he⟩ := hout
        exact ⟨e, s', (Prog.bind_of_ok hrun).trans (Prog.bind_of_error hall), he⟩
    cases hx : x.op with
    | none =>
      obtain rfl : x = .collect := by cases x <;> first | rfl | cases hx
      rw [List.map_cons, hx, Metered.run_collect] at hi
      obtain ⟨s₁, hrun, hsim, -⟩ := h.collect st hin hat hF hsh hown
      exact hnext ⟨m.ideal, _⟩ hrun hsim hi
    | some op =>
      rw [List.map_cons, hx] at hi
      have hans : m.Answers env.malloc.grants k.limit ↔ env.malloc.grants s.requests = true ∧
          0 ≤ k.limit ∧ (0 < k.limit → (m.count : Int) < k.limit) := by
        rw [Metered.Answers, h.asked]
      obtain ⟨i₁, o, hstep, ⟨hop, hn, rfl, rfl⟩ | ⟨ha, os', hrest, rfl⟩⟩ := Metered.run_op.mp hi
      · obtain ⟨t, hbase⟩ := h.prog.reportingBase
        have harm : Armed s b S k m.count := h.prog.base
        obtain ⟨e, s', hrun, he⟩ := h.stop
          (P := fun e _ => k.hook = nil ∨ k.limit < 0 → e = .exit 2) st hx hop hstep fun ty data =>
            hbase.xObjMake_refused env ty xObjFlagNone data harm.count (hans.not.mp hn)
        exact ⟨e, s', Prog.bind_of_error hrun, he⟩
      · obtain ⟨f₁, R₁, K₁, s₁, hrun, hsim⟩ := h.step st hx
          (fun hop => h.prog.answers (hans.mp (ha hop))) hstep
        exact hnext ⟨i₁, _⟩ hrun hsim hrest

/-- What a run on the base `b` comes to, where `r` is what is left of the ideal heap. If that was
stopped, there is no way back here, but through an error hook. -/
def Tracks (b hook : Ptr) (limit : Word) (os : List (Obs Tag))
    (res : EStateM.Result Stop Sys (List Ptr × List (Obs Tag))) : Option (Metered Tag) → Prop
  | some m => ∃ f K s, res = .ok (K, os) s ∧
    Renames f {a | m.ideal.heap.Rooted a} m.ideal.heap (s.view K) ∧
    s.fieldInt b .allocCount = some (m.count : Int)
  | none => ∃ e s, res = .error e s ∧ (hook = nil ∨ limit < 0 → e = .exit 2)

theorem ProgOutcome.tracks {res : EStateM.Result Stop Sys (List Ptr × List (Obs Tag))}
    (h : ProgOutcome F S b k os res r) : Tracks b k.hook k.limit os res r := by
  cases r with
  | none => exact h
  | some m =>
    obtain ⟨f, R, K, s, hres, hsim⟩ := h
    have harm : Armed s b S k m.count := hsim.prog.base
    exact ⟨f, K, s, hres, hsim.copy.collect rfl fun _ _ => rfl, harm.count⟩

/-- Without an object of the program. -/
theorem Metered.closed_start (j : Nat) :
    Metered.Closed (⟨idealStart j, 0⟩ : Metered Tag) ∅ :=
  ⟨⟨nofun, rfl, nofun, nofun⟩, Set.finite_empty, nofun, (Set.ncard_empty _).le⟩

/-- A program starts on a new base that is armed. -/
theorem Start.metered (st : CStack) (hs : Start env cfg c) (hin : env.FreeInert)
    (hat : env.AtomsClosed) (hF : F ≠ 0) (hsh : F &&& xObjFlagShared = 0)
    (hown : F &&& xObjFlagOwn = 0) (hst : ∀ p ∈ c.locals, c.sys.flagsOf p &&& xObjFlagOwn = 0)
    (hx : cfg.objMetaExtra = 0) (hty : ty ≠ nil) (hhook : c.sys.Hook c.locals cfg.hookError)
    (hmsg : c.sys.Hook c.locals msg) (limit : Word) : ∃ s,
    arm c.root ty msg limit c.sys = .ok () s ∧ ∀ {prog r os},
      Metered.run env.malloc.grants limit (prog.map Cmd.op) ⟨idealStart c.sys.requests, 0⟩ =
        some (r, os) →
      ProgOutcome F c.locals c.root ⟨0, limit, msg, cfg.hookError, cfg.heapFree⟩ os
        (Cmd.runAll env st F c.root prog [] s) r := by
  obtain ⟨s, harm, hsim⟩ := hs.armedSim hsh hst hx hty hhook hmsg limit
  exact ⟨s, harm, fun hi => Sim.metered st (m := ⟨_, 0⟩) hsim hin hat hF hsh hown hi⟩

/-- A program on a new base with an allocation limit does what it does on the ideal heap with a
ceiling. In the end the base counts as many objects as that heap holds, and if the program is
stopped there without an error hook, the process exits with status 2 here. -/
theorem ceiling_metered (hin : env.FreeInert) (hat : env.AtomsClosed) (hF : F ≠ 0)
    (hsh : F &&& xObjFlagShared = 0) (hown : F &&& xObjFlagOwn = 0) (hs : Start env cfg c)
    (hst : ∀ p ∈ c.locals, c.sys.flagsOf p &&& xObjFlagOwn = 0) (hx : cfg.objMetaExtra = 0)
    (hty : ty ≠ nil) (hhook : c.sys.Hook c.locals cfg.hookError)
    (hmsg : c.sys.Hook c.locals msg) (harm : arm c.root ty msg limit c.sys = .ok () s)
    (hi : Metered.run env.malloc.grants limit (prog.map Cmd.op) ⟨idealStart c.sys.requests, 0⟩ =
      some (r, os)) :
    Tracks c.root cfg.hookError limit os (Cmd.runAll env st F c.root prog [] s) r := by
  obtain ⟨s₁, hrun, hout⟩ := hs.metered st hin hat hF hsh hown hst hx hty hhook hmsg limit
  cases harm.symm.trans hrun
  exact (hout hi).tracks

/-- Of two atoms in the same variable, the frames lead to one. -/
theorem lostAtom_metered (j : Nat) : ∃ i : Mutator.Ideal Tag,
    {a | i.heap.Rooted a} = {j + 1} ∧ i.heap.frames = [[some (j + 1), none]] ∧
    i.heap.node (j + 1) = some ⟨.atom 42, []⟩ ∧
    ∀ cs, Metered.run (fun _ => true) 2 (lostAtom.map Cmd.op ++ cs) ⟨idealStart j, 0⟩ =
      Metered.run (fun _ => true) 2 cs ⟨i, 2⟩ := by
  obtain ⟨i, hi, hr⟩ := lostAtom_ideal j
  simp [lostAtom, List.filterMap, Cmd.op, idealStart, Mutator.Ideal.run, Mutator.Ideal.step,
    Mutator.Ideal.new, Mutator.Op.asks, Mutator.Heap.apply, Mutator.Heap.made, Mutator.Heap.get,
    Mutator.Heap.put, Mutator.Heap.setNode] at hi
  subst hi
  refine ⟨_, hr, rfl, Function.update_self .., fun cs => ?_⟩
  simp [lostAtom, Cmd.op, Metered.run, Metered.step, Metered.Answers, idealStart,
    Mutator.Ideal.step, Mutator.Ideal.new, Mutator.Op.asks, Mutator.Heap.apply,
    Mutator.Heap.made, Mutator.Heap.get, Mutator.Heap.put, Mutator.Heap.setNode]

/-- A third atom. -/
def thirdAtom : List Cmd := lostAtom ++ [.atom 43 ⟨0, 0⟩]

/-- A third atom after a collection. -/
def keptAtom : List Cmd := lostAtom ++ [.collect, .atom 43 ⟨0, 0⟩]

theorem thirdAtom_metered (j : Nat) :
    Metered.run (fun _ => true) 2 (thirdAtom.map Cmd.op) ⟨idealStart j, 0⟩ = some (none, []) := by
  obtain ⟨i, -, hfr, -, hrun⟩ := lostAtom_metered j
  rw [thirdAtom, List.map_append, hrun]
  simp [Cmd.op, Metered.run, Metered.step, Metered.Answers, Mutator.Ideal.step,
    Mutator.Heap.apply, Mutator.Heap.get, hfr, Mutator.Op.asks]

theorem keptAtom_metered (j : Nat) : ∃ m,
    Metered.run (fun _ => true) 2 (keptAtom.map Cmd.op) ⟨idealStart j, 0⟩ = some (some m, []) ∧
      m.count = 2 := by
  obtain ⟨i, hr, hfr, -, hrun⟩ := lostAtom_metered j
  have hone : Set.ncard {a | i.heap.Rooted a} = 1 := by rw [hr, Set.ncard_singleton]
  rw [keptAtom, List.map_append, hrun]
  simp [Cmd.op, Metered.run, Metered.step, Metered.Answers, Mutator.Ideal.step, hone,
    Mutator.Heap.apply, Mutator.Heap.get, hfr, Mutator.Op.asks]

/-- Under a limit of two objects there is a third one after a collection only. -/
theorem ceiling_metered_lostAtom : ∃ (c : Client) (s : Sys),
    arm c.root 1 nil 2 c.sys = .ok () s ∧
    (∃ K s', Cmd.runAll (.plain fun _ => true) .bump xObjFlagMark c.root keptAtom [] s =
        .ok (K, []) s' ∧ s'.fieldInt c.root .allocCount = some 2) ∧
    ∃ s', Cmd.runAll (.plain fun _ => true) .bump xObjFlagMark c.root thirdAtom [] s =
      .error (.exit 2) s' := by
  obtain ⟨c, hs, hloc⟩ := Start.exists (.plain fun _ => true) .standard
    (fun _ _ _ => rfl) rfl rfl
  obtain ⟨s, harm, -⟩ := hs.armedSim (F := xObjFlagMark) (by decide) (by simp [hloc]) rfl
    (show (1 : Ptr) ≠ nil by decide) (.inl rfl) (.inl rfl) 2
  have hmet := fun prog r os => @ceiling_metered (.plain fun _ => true) .standard .bump xObjFlagMark
    1 nil s c 2 prog os r Env.plain_inert Env.plain_atomsClosed (by decide) (by decide) (by decide)
    hs (by simp [hloc]) rfl (by decide) (.inl rfl) (.inl rfl) harm
  obtain ⟨m, hm, hcount⟩ := keptAtom_metered c.sys.requests
  obtain ⟨f, K, s', hall, -, hn⟩ := hmet _ _ _ hm
  obtain ⟨e, s'', hstop, he⟩ := hmet _ _ _ (thirdAtom_metered c.sys.requests)
  exact ⟨c, s, harm, ⟨K, s', hall, by rw [hn, hcount]; rfl⟩, s'', he (.inl rfl) ▸ hstop⟩

/-- The same steps, with a collection before each one that asks for an object and no other. -/
def Cmd.collecting (prog : List Cmd) : List Cmd :=
  prog.flatMap fun
    | .collect => []
    | .atom n dst => [.collect, .atom n dst]
    | .cons x y dst => [.collect, .cons x y dst]
    | x => [x]

theorem Cmd.map_collecting (prog : List Cmd) :
    (Cmd.collecting prog).map Cmd.op = Metered.collecting (prog.map Cmd.op) := by
  induction prog with
  | nil => rfl
  | cons x prog ih =>
    have hl : Cmd.collecting (x :: prog) = Cmd.collecting [x] ++ Cmd.collecting prog := by
      simp [Cmd.collecting]
    have hr : Metered.collecting ((x :: prog).map Cmd.op) =
        Metered.collecting ([x].map Cmd.op) ++ Metered.collecting (prog.map Cmd.op) := by
      simp [Metered.collecting]
    rw [hl, hr, List.map_append, ih]
    cases x <;> rfl

/-- If a program gets through under a limit with the collections that it makes, then it gets through
with one before every allocation instead, and learns the same. -/
theorem collecting_optimal (hin : env.FreeInert) (hat : env.AtomsClosed) (hF : F ≠ 0)
    (hsh : F &&& xObjFlagShared = 0) (hown : F &&& xObjFlagOwn = 0) (hs : Start env cfg c)
    (hst : ∀ p ∈ c.locals, c.sys.flagsOf p &&& xObjFlagOwn = 0) (hx : cfg.objMetaExtra = 0)
    (hty : ty ≠ nil) (hhook : c.sys.Hook c.locals cfg.hookError)
    (hmsg : c.sys.Hook c.locals msg) (harm : arm c.root ty msg limit c.sys = .ok () s)
    (hi : (idealStart c.sys.requests).run env.malloc.grants (prog.filterMap Cmd.op) =
      some (i, os)) {os' : List (Obs Tag)} {s' : Sys}
    (hrun : Cmd.runAll env st F c.root prog [] s = .ok (K, os') s') :
    os' = os ∧ ∃ K' s'', Cmd.runAll env st F c.root (Cmd.collecting prog) [] s =
      .ok (K', os) s'' := by
  obtain ⟨s₁, hrun₁, hout⟩ := hs.metered st hin hat hF hsh hown hst hx hty hhook hmsg limit
  cases harm.symm.trans hrun₁
  have hi' : (idealStart c.sys.requests).run env.malloc.grants
      ((prog.map Cmd.op).filterMap id) = some (i, os) := by
    rwa [List.filterMap_map, Function.id_comp]
  obtain ⟨r, os₁, hm, hr⟩ : ∃ r os₁, Metered.run env.malloc.grants limit (prog.map Cmd.op)
      ⟨idealStart c.sys.requests, 0⟩ = some (r, os₁) ∧ ∀ m ∈ r, m.ideal = i ∧ os₁ = os :=
    Metered.run_of_ideal hi'
  have hprog := hout hm
  cases r with
  | none =>
    obtain ⟨e, s₂, he, -⟩ := hprog
    cases hrun.symm.trans he
  | some m =>
    obtain ⟨f, R, K₂, s₂, hall, -⟩ := hprog
    obtain ⟨-, rfl⟩ := hr m rfl
    cases hrun.symm.trans hall
    obtain ⟨n', hc⟩ := Metered.run_collecting (Metered.closed_start _) hm 0
    rw [← Cmd.map_collecting] at hc
    obtain ⟨f', R', K', s'', hall', -⟩ := hout hc
    exact ⟨rfl, K', s'', hall'⟩

theorem collecting_optimal_keptAtom : ∃ (c : Client) (s : Sys) (K : List Ptr) (s' : Sys),
    arm c.root 1 nil 2 c.sys = .ok () s ∧
    Cmd.runAll (.plain fun _ => true) .bump xObjFlagMark c.root (Cmd.collecting keptAtom) [] s =
      .ok (K, []) s' := by
  obtain ⟨c, hs, hloc⟩ := Start.exists (.plain fun _ => true) .standard
    (fun _ _ _ => rfl) rfl rfl
  obtain ⟨s, harm, hout⟩ := hs.metered (F := xObjFlagMark) .bump Env.plain_inert
    Env.plain_atomsClosed (by decide) (by decide) (by decide) (by simp [hloc]) rfl
    (show (1 : Ptr) ≠ nil by decide) (.inl rfl) (.inl rfl) 2
  obtain ⟨m, hm, -⟩ := keptAtom_metered c.sys.requests
  obtain ⟨f, R, K, s', hall, -⟩ := hout hm
  obtain ⟨i, hi⟩ : ∃ i, (idealStart c.sys.requests).run (fun _ => true)
      (keptAtom.filterMap Cmd.op) = some (i, []) := by
    simp [keptAtom, lostAtom, List.filterMap, Cmd.op, idealStart, Mutator.Ideal.run,
      Mutator.Ideal.step, Mutator.Ideal.new, Mutator.Op.asks, Mutator.Heap.apply,
      Mutator.Heap.made, Mutator.Heap.get, Mutator.Heap.put, Mutator.Heap.setNode]
  obtain ⟨-, K', s'', hall'⟩ := @collecting_optimal (.plain fun _ => true) .standard .bump
    xObjFlagMark K 1 nil i s c 2 keptAtom [] Env.plain_inert Env.plain_atomsClosed (by decide)
    (by decide) (by decide) hs (by simp [hloc]) rfl (by decide) (.inl rfl) (.inl rfl) harm hi [] s'
    hall
  exact ⟨c, s, K', s'', harm, hall'⟩

end Runs

end XExpr
