import XExpr.Base.MakeLemmas
import XExpr.Obj.StackLemmas

/-!
# Refused requests

What the calls that allocate leave behind when `malloc` refuses. Without a full base
`x_obj_alloc` returns `NULL`, and its callers differ in what they make of it.

* `refused_iff`: `x_obj_alloc` and `x_obj_make` always leave things as they were. Each of the
  other calls does if and only if none of its requests is refused.
* `refused_fails`: a push that loses the list.
-/

namespace XExpr

open Sys
open Mem (chase)

/-! ## The calls -/

/-- The calls of the library that allocate. -/
inductive Call
  | alloc (t : Ptr) (fl : Flags) (units : Nat)
  | make (t : Ptr) (fl : Flags) (data : List Word)
  | pushField (field value : Ptr) (fl : Flags)
  | push (args : Ptr)
  | markHookAdd (hook : Ptr)
  | freeHookAdd (hook : Ptr)
  | markRootAdd (root : Ptr)
  | baseMake (cfg : XBaseT)

namespace Call

def run (env : Env) (b : Ptr) : Call → M Ptr
  | alloc t fl units => xObjAlloc env b t fl units
  | make t fl data => xObjMake env b t fl data
  | pushField field value fl => xObjPushField env b field value fl
  | push args => xObjPush env b args
  | markHookAdd hook => do xHeapMarkHookAdd env b hook; return nil
  | freeHookAdd hook => do xHeapFreeHookAdd env b hook; return nil
  | markRootAdd root => do xHeapMarkRootAdd env b root; return nil
  | baseMake cfg => xBaseMake env b cfg

/-- The calls that test what `malloc` returned. -/
def checked : Call → Bool
  | alloc .. | make .. => true
  | _ => false

/-- The number of requests of a call. -/
def requests : Call → Nat
  | baseMake _ => 56
  | _ => 1

/-- The list that the call prepends to is in the unit `i` of `q`. -/
def Prepends (s : Sys) (b : Ptr) : Call → Ptr → Nat → Prop
  | pushField field _ _, q, i => xSlot field s = .ok (q, i) s
  | push args, q, i => ∃ field v fl, PushArgs s args field v fl ∧ xSlot field s = .ok (q, i) s
  | markHookAdd _, q, i => chase s.unit b Field.heapMarkHooks.path = some q ∧ i = 0
  | freeHookAdd _, q, i => chase s.unit b Field.heapFreeHooks.path = some q ∧ i = 0
  | markRootAdd _, q, i => chase s.unit b Field.heapMarkRoots.path = some q ∧ i = 0
  | _, _, _ => False

/-- A call that prepends finds a list. -/
def Ready (s : Sys) (b : Ptr) : Call → Prop
  | alloc .. | make .. | baseMake _ => True
  | call => ∃ q i old, call.Prepends s b q i ∧ s.unit q i = some old

end Call

/-- Every accessor leads to a cell, and the ones of the integer fields to an atom in it. -/
def Sys.Complete (s : Sys) (b : Ptr) : Prop :=
  ∀ f : Field, (∃ w, f.obj b s = .ok w s) ∧ (f.isInt → ∃ w, f.int b s = .ok w s)

/-- A refused request leaves things as they were. -/
structure Call.Intact (env : Env) (b : Ptr) (s : Sys) (call : Call) : Prop where
  deref : ∀ s', call.run env b s ≠ .error (.fault .nilDeref) s'
  objs : call.checked → env.malloc.grants s.requests = false →
    ∃ s', call.run env b s = .ok nil s' ∧ s'.objs = s.objs
  list : ∀ q i, call.Prepends s b q i → env.malloc.grants s.requests = false →
    (Prog.stateOf (call.run env b s)).unit q i = s.unit q i
  base : ∀ cfg, call = .baseMake cfg →
    ∃ p s', call.run env b s = .ok p s' ∧ (p = nil ∨ s'.Complete p)

variable {env : Env} {cfg : XBaseT} {s s' : Sys} {b c a p q t : Ptr} {new : List Ptr}
  {fl : Flags} {units : Nat} {data : List Word}

/-- Of a call whose request is granted only the accesses matter. -/
theorem Call.Intact.of_granted {call : Call} (hg : env.malloc.grants s.requests = true)
    (hd : ∀ s', call.run env b s ≠ .error (.fault .nilDeref) s')
    (hc : ∀ cfg, call ≠ .baseMake cfg) : call.Intact env b s where
  deref := hd
  objs _ hno := by cases hg.symm.trans hno
  list _ _ _ hno := by cases hg.symm.trans hno
  base cfg e := absurd e (hc cfg)

/-! ## `x_obj_alloc` and `x_obj_make` -/

/-- An allocation that returns `NULL` and changes no object. -/
theorem Call.Intact.of_null {call : Call} (hrun : call.run env b s = .ok nil s.request)
    (hc : call.checked = true) : call.Intact env b s where
  deref s' h := by cases hrun.symm.trans h
  objs _ _ := ⟨_, hrun, rfl⟩
  list _ _ hp := by cases call <;> first | exact hp.elim | cases hc
  base cfg e := by subst e; cases hc

theorem xObjAlloc_intact (hb : s.Bare b) : (Call.alloc t fl units).Intact env b s := by
  rcases xObjAlloc_bare_cases env t fl units hb with
    ⟨-, hrun⟩ | ⟨hg, -, a, s', hrun⟩ | ⟨p, a, data, s', hg, hrun, -⟩
  · exact .of_null hrun rfl
  · exact .of_granted hg (fun _ h => by cases hrun.symm.trans h) (by simp)
  · exact .of_granted hg (fun _ h => by cases hrun.symm.trans h) (by simp)

theorem xObjMake_intact (hb : s.Bare b) : (Call.make t fl data).Intact env b s := by
  rcases xObjAlloc_bare_cases env t fl data.length hb with
    ⟨-, hrun⟩ | ⟨hg, -, a, s₁, hrun⟩ | ⟨p, a, data₀, s₁, hg, hrun, hm, -⟩
  · refine .of_null ?_ rfl
    change xObjMake env b t fl data s = _
    unfold xObjMake
    rw [Prog.bind_of_ok hrun, if_pos rfl]
    rfl
  · have hmake : xObjMake env b t fl data s = .error (.fault (.overflow a)) s₁ :=
      Prog.bind_of_error hrun
    exact .of_granted hg (fun _ h => by cases hmake.symm.trans h) (by simp)
  · refine .of_granted hg (fun s' h => ?_) (by simp)
    change xObjMake env b t fl data s = _ at h
    unfold xObjMake at h
    rw [Prog.bind_of_ok hrun, if_neg hm.ne_nil, Prog.bind_error] at h
    rcases h with h | ⟨_, s₂, -, h⟩
    · obtain ⟨j, e⟩ := storeUnits_error ((hm.live p).mpr (.inl rfl)) h
      cases e
    · cases h

/-! ## The calls that prepend -/

theorem xHeapAdd_run {f : Field} {v : Ptr} {i : Nat} {old : Word} (hb : s.Bare b)
    (hq : chase s.unit b f.path = some q ∧ i = 0) (hu : s.unit q i = some old) :
    (env.malloc.grants s.requests = false ∧
      ∃ s', (heapListAdd env f b v >>= fun _ => pure nil) s = .error (.fault .nilDeref) s') ∨
    (env.malloc.grants s.requests = true ∧
      ∃ w s', (heapListAdd env f b v >>= fun _ => pure nil) s = .ok w s') := by
  obtain ⟨hq, rfl⟩ := hq
  rcases xObjPushField_bare env v xObjFlagNone hb hu with
    ⟨hg, hrun⟩ | ⟨p, s', hg, -, hrun⟩
  · exact .inl ⟨hg, _, Prog.bind_of_error ((heapListAdd_run hq).trans (Prog.bind_of_error hrun))⟩
  · exact .inr ⟨hg, _, _, Prog.bind_of_ok ((heapListAdd_run hq).trans (Prog.bind_of_ok hrun))⟩

/-- A call that prepends returns if its request is granted, and else reads through `NULL`. -/
theorem Call.run_prepends (env : Env) {call : Call} {i : Nat} {old : Word} (hb : s.Bare b)
    (hp : call.Prepends s b q i) (hu : s.unit q i = some old) :
    (env.malloc.grants s.requests = false ∧
      ∃ s', call.run env b s = .error (.fault .nilDeref) s') ∨
    (env.malloc.grants s.requests = true ∧ ∃ w s', call.run env b s = .ok w s') := by
  have hpush : ∀ {field v fl}, xSlot field s = .ok (q, i) s →
      (env.malloc.grants s.requests = false ∧
        ∃ s', xObjPushField env b field v fl s = .error (.fault .nilDeref) s') ∨
      (env.malloc.grants s.requests = true ∧
        ∃ w s', xObjPushField env b field v fl s = .ok w s') := fun hs => by
    refine (xObjPushField_slot env _ _ hb hs hu).imp (fun h => ⟨h.1, _, h.2⟩) ?_
    rintro ⟨p, a, s₁, hg, -, hrun⟩
    exact ⟨hg, _, _, hrun⟩
  cases call with
  | alloc => exact hp.elim
  | make => exact hp.elim
  | baseMake => exact hp.elim
  | pushField field v fl => exact hpush hp
  | push args =>
    obtain ⟨field, v, fl, hargs, hs⟩ := hp
    rw [show Call.run env b (.push args) s = _ from xObjPush_run hargs]
    exact hpush hs
  | markHookAdd v => exact xHeapAdd_run hb hp hu
  | freeHookAdd v => exact xHeapAdd_run hb hp hu
  | markRootAdd v => exact xHeapAdd_run hb hp hu

theorem Call.intact_prepends {call : Call} {i : Nat} {old : Word} (hb : s.Bare b)
    (hp : call.Prepends s b q i) (hu : s.unit q i = some old) :
    call.Intact env b s ↔ env.malloc.grants s.requests = true := by
  rcases call.run_prepends env hb hp hu with ⟨hg, s', hrun⟩ | ⟨hg, w, s', hrun⟩
  · rw [hg]
    exact iff_of_false (fun h => h.deref s' hrun) Bool.false_ne_true
  · refine iff_of_true (.of_granted hg (fun _ h => by cases hrun.symm.trans h) ?_) hg
    rintro cfg rfl
    exact hp.elim

/-! ## `x_base_make` -/

/-- The path from the base object to the end of what the accessors of a field read. -/
def Field.readPath (f : Field) : List Bool :=
  if f.isInt then f.valuePath ++ [false] else f.valuePath

theorem complete_iff : s.Complete b ↔ ∀ f : Field, ∃ w, chase s.unit b f.readPath = some w := by
  refine forall_congr' fun f => ?_
  have hobj : (∃ w, f.obj b s = .ok w s) ↔ ∃ w, chase s.unit b f.valuePath = some w :=
    exists_congr fun w => by rw [Field.obj_eq, chaseM_ok, and_iff_left rfl]
  have hint : (∃ w, f.int b s = .ok w s) ↔ ∃ w, chase s.unit b (f.valuePath ++ [false]) = some w :=
    exists_congr fun w => by rw [Field.int_eq, chaseM_ok, and_iff_left rfl]
  rw [hobj, hint, Field.readPath]
  split
  · next hf =>
    refine ⟨fun h => h.2 hf, fun h => ⟨?_, fun _ => h⟩⟩
    obtain ⟨w, hw⟩ := h
    rw [Mem.chase_append] at hw
    obtain ⟨u, hu, -⟩ := Option.bind_eq_some_iff.mp hw
    exact ⟨u, hu⟩
  · next hf => exact ⟨And.left, fun h => ⟨h, fun hi => absurd hi hf⟩⟩

/-- A tree that was cut has a nil in the place of a node. -/
theorem Cut.exists_nil {l l' : Layout Word} (h : Cut l l') (hg : Given l = true) (hne : l' ≠ l) :
    ∃ π ∈ l.nodePaths, l'.sub π = some (.leaf (some nil)) := by
  induction h with
  | leaf w =>
    obtain ⟨w, rfl⟩ := Option.isSome_iff_exists.mp hg
    exact absurd rfl hne
  | atom _ ih =>
    obtain ⟨π, hπ, e⟩ := ih hg fun e => hne (by rw [e])
    exact ⟨false :: π, .tail _ (List.mem_map_of_mem hπ), e⟩
  | @pair l l' r r' _ _ ihl ihr =>
    obtain ⟨hgl, hgr⟩ := Bool.and_eq_true_iff.mp hg
    by_cases el : l' = l
    · obtain ⟨π, hπ, e⟩ := ihr hgr fun er => hne (by rw [el, er])
      exact ⟨true :: π, .tail _ (List.mem_append_right _ (List.mem_map_of_mem hπ)), e⟩
    · obtain ⟨π, hπ, e⟩ := ihl hgl el
      exact ⟨false :: π, .tail _ (List.mem_append_left _ (List.mem_map_of_mem hπ)), e⟩
  | atom_nil c => exact ⟨[], .head _, rfl⟩
  | pair_nil l r => exact ⟨[], .head _, rfl⟩

/-- The fields of a base. -/
def Field.all : List Field :=
  [.filein, .fileout, .fileerr, .writeBuf, .buffer, .profileAllocs, .hookTypeName, .hookUnits,
    .hookLength, .hookError, .objMetaExtra, .heapMark, .heapFree, .heapMarkHooks, .heapFreeHooks,
    .heapMarkRoots, .heapRootChain, .allocCount, .allocLimit, .allocError]

/-- Every node of the tree is read on the way to some field. -/
theorem XBaseT.nodePaths_tree (cfg : XBaseT) : ∀ π ∈ (Layout.atom cfg.tree).nodePaths,
    ∃ f ∈ Field.all, π <+: f.readPath ∧ π ≠ f.readPath := by
  have e : (Layout.atom cfg.tree).nodePaths = (Layout.atom XBaseT.standard.tree).nodePaths := rfl
  rw [e]
  decide

/-- A base is complete if and only if `malloc` granted every node of its tree. -/
theorem BaseMade.complete_iff {d : Cells Word} (h : BaseMade env s b cfg c a new d s') :
    s'.Complete c ↔ env.malloc.GrantsFrom (s.requests + 1) 55 := by
  obtain ⟨hfit, -, -, -, -, hcut, hwhole⟩ := h.tree
  rw [XExpr.complete_iff, hwhole]
  constructor
  · intro hc
    by_contra hne
    obtain ⟨π, hπ, hnil⟩ := hcut.exists_nil cfg.given_tree hne
    obtain ⟨f, -, ⟨ρ, hρ⟩, hlong⟩ := cfg.nodePaths_tree (false :: π)
      (.tail _ (List.mem_map_of_mem hπ))
    obtain ⟨e, he, hl⟩ : ∃ e, (Cells.atom c d).sub (false :: π) = some e ∧
        e.layout = .leaf (some nil) :=
      Option.map_eq_some_iff.mp (Cells.sub_layout.symm.trans hnil)
    obtain ⟨w, hw, hew⟩ := hfit.chase he
    obtain ⟨u, hu⟩ := hc f
    -- The path goes on from the nil in the place of the node.
    rw [← hρ, Mem.chase_append, hw, Option.bind_some] at hu
    rcases e with v | _ | _
    · obtain rfl : v = some nil := Layout.leaf.inj hl
      obtain rfl : w = nil := hew nil rfl
      rcases ρ with _ | ⟨x, ρ⟩
      · exact hlong (by rw [← hρ, List.append_nil])
      · rw [chase, unit_nil] at hu
        cases hu
    · cases hl
    · cases hl
  · intro hl f
    have hsub : (Layout.atom d.layout).sub f.readPath ≠ none := by
      rw [hl, Field.readPath]
      split
      · next hf => exact (cfg.tree_sub f).2 hf
      · exact (cfg.tree_sub f).1
    obtain ⟨e, he⟩ := Option.ne_none_iff_exists'.mp hsub
    obtain ⟨e', he', -⟩ := Option.map_eq_some_iff.mp
      ((Cells.sub_layout (c := .atom c d)).symm.trans he)
    obtain ⟨w, hw, -⟩ := hfit.chase he'
    exact ⟨w, hw⟩

theorem xBaseMake_intact (hb : s.Bare b) :
    (Call.baseMake cfg).Intact env b s ↔ env.malloc.GrantsFrom s.requests 56 := by
  rw [show 56 = 1 + 55 from rfl, Malloc.grantsFrom_add, Malloc.grantsFrom_one]
  by_cases hg : env.malloc.grants s.requests = true
  · rw [and_iff_right hg]
    obtain ⟨c, a, new, d, s', hrun, hm⟩ := xBaseMake_bare env cfg hb hg
    rw [← hm.complete_iff]
    constructor
    · intro h
      obtain ⟨p, s₁, hrun₁, hc⟩ := h.base cfg rfl
      cases hrun.symm.trans hrun₁
      exact hc.resolve_left (hm.fresh c (.head _)).1
    · intro hc
      refine ⟨fun _ h => ?_, nofun, nofun, fun cfg' e => ?_⟩
      · cases hrun.symm.trans h
      · obtain rfl := Call.baseMake.inj e
        exact ⟨c, s', hrun, .inr hc⟩
  · rw [Bool.not_eq_true] at hg
    refine iff_of_false (fun h => ?_) fun h => by cases hg.symm.trans h.1
    obtain ⟨p, s', hrun, -⟩ := h.base cfg rfl
    obtain ⟨a, new, d, hm⟩ := xBaseMake_ok hrun
    cases hg.symm.trans hm.granted

/-! ## All calls -/

/-- A call leaves things as they were if and only if it tests what `malloc` returns, or `malloc`
grants all that it requests. -/
theorem refused_iff {call : Call} (hb : s.Bare b) (hr : call.Ready s b) :
    call.Intact env b s ↔
      call.checked = true ∨ env.malloc.GrantsFrom s.requests call.requests := by
  cases call with
  | alloc t fl units => exact iff_of_true (xObjAlloc_intact hb) (.inl rfl)
  | make t fl data => exact iff_of_true (xObjMake_intact hb) (.inl rfl)
  | baseMake cfg =>
    rw [xBaseMake_intact hb]
    exact (or_iff_right Bool.false_ne_true).symm
  | pushField | push | markHookAdd | freeHookAdd | markRootAdd =>
    obtain ⟨q, i, old, hp, hu⟩ := hr
    rw [Call.intact_prepends hb hp hu]
    exact Malloc.grantsFrom_one.symm.trans (or_iff_right Bool.false_ne_true).symm

/-- A list of one pair, in a variable at 64. -/
def listVar : Sys :=
  (Sys.empty.place 64 ⟨nil, nil, xObjFlagNone, [], [128]⟩).place 128
    ⟨nil, xTypePairObj, xObjFlagNone, [], [41, nil]⟩

/-- A refused push loses the list, and then reads through `NULL`. -/
theorem refused_fails : ∃ s', listVar.unit 64 0 = some 128 ∧
    (Call.pushField (slotAddr 64 0) 42 xObjFlagNone).Ready listVar nil ∧
    (Call.pushField (slotAddr 64 0) 42 xObjFlagNone).run (.plain fun _ => false) nil listVar =
      .error (.fault .nilDeref) s' ∧
    s'.unit 64 0 = some nil ∧
    ¬ (Call.pushField (slotAddr 64 0) 42 xObjFlagNone).Intact (.plain fun _ => false) nil
      listVar := by
  have hu : listVar.unit 64 0 = some 128 := by decide
  have hrun := ((xObjPushField_bare (.plain fun _ => false) 42 xObjFlagNone (.inl rfl)
    hu).resolve_right fun ⟨_, _, hg, _⟩ => by cases hg).2
  refine ⟨_, hu, ⟨64, 0, 128, xSlot_run hu, hu⟩, hrun, ?_, fun h => h.deref _ hrun⟩
  rw [unit_setUnit (by rwa [unit_request]), if_pos ⟨rfl, rfl⟩]

/-- An allocation that is refused, and a base that is not. -/
theorem refused_standard :
    (Call.make xTypeAtomObj xObjFlagNone [41]).Intact (.plain fun _ => false) nil Sys.empty ∧
    (Call.baseMake .standard).Intact (.plain fun _ => true) nil Sys.empty :=
  have hmake : (Call.make xTypeAtomObj xObjFlagNone [41]).Ready Sys.empty nil := trivial
  have hbase : (Call.baseMake .standard).Ready Sys.empty nil := trivial
  ⟨(refused_iff (.inl rfl) hmake).mpr (.inl rfl),
    (refused_iff (.inl rfl) hbase).mpr (.inr fun _ _ _ => rfl)⟩

end XExpr
