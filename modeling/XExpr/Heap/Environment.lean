import XExpr.Heap.Exact

/-!
# The fields of a base as roots

A collection as the header describes it marks from the base object and from the root chain. The
base object has no type, so without a mark hook the marker does not go on to the tree of the base,
and what the fields lead to stays only if it is shared or registered.

* `fields_kept_iff`: in every run of allocations, pushes, registrations and collections that find
  all of it shared or rooted, a collection keeps what the tree of the base leads to if and only if
  all of it is shared or rooted.
* `fields_fail`: a registration of a root that a collection frees.
-/

namespace XExpr

open Sys Chain Relation
open Mem (chase)

variable {env : Env} {cfg : XBaseT} {F : Flags} {c c' c₀ : Client} {L K : List Ptr}
  {t : Cells Word} {k : Heads} {p q v old : Ptr} {s s' : Sys} {f : Field} {fl : Flags}

namespace Client

/-- The pairs of the base's tree, which hold the fields, lead to `p`. -/
def FieldReach (env : Env) (c : Client) (p : Ptr) : Prop :=
  ∃ r, c.sys.unit c.root 0 = some r ∧ ReflTransGen (c.sys.Edge env c.root nil) r p

/-- The root chain passes the objects `K`, from which the marker can be sent. -/
structure RootsReady (env : Env) (c : Client) (K : List Ptr) : Prop where
  chain : ∃ head, xHeapRootChain c.root c.sys = .ok head c.sys ∧ Seg c.sys.next head K nil
  nodup : K.Nodup
  walkable : ∀ q ∈ K, c.sys.Walkable env c.root nil q

/-- A registered object leads to `p`, along objects on which there is no mark from before. -/
def Rooted (env : Env) (c : Client) (F : Flags) (K : List Ptr) (p : Ptr) : Prop :=
  ∃ q ∈ K, Reach.White (c.sys.Edge env c.root nil) (c.sys.marks F \ {x | x ∈ K}) q p

/-- Everything on the chain that the tree leads to is shared or rooted. -/
def FieldsRooted (env : Env) (c : Client) (F : Flags) (K : List Ptr) : Prop :=
  ∀ p, c.FieldReach env p → c.OnChain p →
    c.sys.flagsOf p &&& xObjFlagShared ≠ 0 ∨ c.Rooted env F K p

end Client

/-! ## Steps -/

/-- A value that may be pushed on a field: an object from which only objects are reached. There is
no mark hook, and a free hook can be read. -/
structure Client.Pushable (env : Env) (c : Client) (f : Field) (v : Ptr) : Prop where
  walkable : v ≠ nil → c.sys.Walkable env c.root nil v
  mark : f = .heapMark → v = nil
  free : f = .heapFree → v = nil ∨ ∃ u, c.sys.unit v 0 = some u

/-- Steps of the program between collections. -/
inductive FieldStep (env : Env) (F : Flags) : Client → Client → Prop
  | make {c : Client} {t p : Ptr} {fl : Flags} {data : List Word} {s' : Sys} (hF : fl &&& F = 0)
      (h : xObjMake env c.root t fl data c.sys = .ok p s') :
      FieldStep env F c { c with sys := s' }
  /-- An object on the stack, or a static one. -/
  | newLocal {c : Client} {p : Ptr} {o : Obj} (hn : nil < p) (hp : ¬ c.sys.Live p) :
      FieldStep env F c { c with sys := c.sys.place p o, locals := p :: c.locals }
  | push {c : Client} {f : Field} {v r slot : Ptr} {fl : Flags} {s₁ s' : Sys}
      (hF : fl &&& F = 0) (hv : c.Pushable env f v) (hs : f.addr c.root c.sys = .ok slot s₁)
      (h : xObjPushField env c.root slot v fl s₁ = .ok r s') :
      FieldStep env F c { c with sys := s' }
  | markHookAdd {c : Client} {v : Ptr} {s' : Sys} (hv : c.Pushable env .heapMarkHooks v)
      (h : xHeapMarkHookAdd env c.root v c.sys = .ok () s') :
      FieldStep env F c { c with sys := s' }
  | freeHookAdd {c : Client} {v : Ptr} {s' : Sys} (hv : c.Pushable env .heapFreeHooks v)
      (h : xHeapFreeHookAdd env c.root v c.sys = .ok () s') :
      FieldStep env F c { c with sys := s' }
  | markRootAdd {c : Client} {v : Ptr} {s' : Sys} (hv : c.Pushable env .heapMarkRoots v)
      (h : xHeapMarkRootAdd env c.root v c.sys = .ok () s') :
      FieldStep env F c { c with sys := s' }

/-- A collection from the base object that finds what the tree leads to shared or rooted. -/
inductive FieldCycle (env : Env) (F : Flags) : Client → Client → Prop
  | collect {c : Client} {K : List Ptr} {s' : Sys} (hK : c.RootsReady env K) (ho : c.OwnReady 0)
      (hr : c.FieldsRooted env F K) (h : collect env c.root F [c.root] [] c.sys = .ok () s') :
      FieldCycle env F c { c with sys := s' }

/-! ## The invariant -/

/-- The current values that a collection reads on its own. -/
structure Heads where
  free : Ptr
  head : Ptr

/-- The cells of a base without a mark hook. -/
def headCell (k : Heads) : Field → Layout Word
  | .heapMark => cellObj (some nil)
  | .heapFree => cellObj (some k.free)
  | .heapRootChain => cellObj (some k.head)
  | _ => cellObj none

/-- The cell of a field with another current value. -/
theorem headCell_update (hv : f = .heapMark → v = nil) :
    ∃ x k', Function.update (headCell k) f (cellObj x) = headCell k' ∧ (∀ u ∈ x, v = u) ∧
      k'.free = (if f = .heapFree then v else k.free) ∧
      k'.head = if f = .heapRootChain then v else k.head := by
  cases f
  case heapMark =>
    refine ⟨some nil, k, Function.update_eq_self _ _, fun u hu => ?_, rfl, rfl⟩
    exact (hv rfl).trans (Option.some.inj hu)
  case heapFree =>
    refine ⟨some v, ⟨v, k.head⟩, ?_, fun u hu => Option.some.inj hu, rfl, rfl⟩
    funext g
    cases g <;> rfl
  case heapRootChain =>
    refine ⟨some v, ⟨k.free, v⟩, ?_, fun u hu => Option.some.inj hu, rfl, rfl⟩
    funext g
    cases g <;> rfl
  all_goals exact ⟨none, k, Function.update_eq_self _ _, nofun, rfl, rfl⟩

theorem XBaseT.cell_headCell (hm : cfg.heapMark = nil) (f : Field) :
    (cfg.cell f).relaxes (headCell ⟨cfg.heapFree, nil⟩ f) := by
  cases f <;>
    simp [XBaseT.cell, headCell, cellObj, XBaseT.pair, XBaseT.atom, XBaseT.val, anyWord,
      Layout.relaxes, hm]

/-- The chain, the tree of the base, what it leads to, and no bit of `F` on the chain. -/
structure FieldInv (env : Env) (F : Flags) (c : Client) (L : List Ptr) (t : Cells Word)
    (k : Heads) : Prop where
  chain : ChainInv c.sys c.root L c.locals
  tree : BaseTree c.sys c.root t (headCell k)
  typed : ∀ q ∈ t.pairs, c.sys.typeOf q = xTypePairObj
  nodes : ∀ q ∈ t.nodes, q ∈ L
  untyped : c.sys.typeOf c.root = nil
  hook : k.free = nil ∨ ∃ u, c.sys.unit k.free 0 = some u
  walkable : ∀ r, c.sys.unit c.root 0 = some r → c.sys.Walkable env c.root nil r
  clean : ∀ p ∈ L, c.sys.flagsOf p &&& F = 0

/-- Without a mark hook only pairs have successors. -/
theorem edge_nil {b x y : Ptr} : s.Edge env b nil x y ↔
    y ≠ nil ∧ s.typeOf x = xTypePairObj ∧ (s.unit x 0 = some y ∨ s.unit x 1 = some y) := by
  simp [Sys.Edge]

/-- The pairs of a tree of pairs reach its nodes. -/
theorem reach_nodes {b : Ptr} {d : Cells Word} (h : d.Fits s.unit v)
    (hf : d.layout.atomFree = true) (ht : ∀ q ∈ d.pairs, s.typeOf q = xTypePairObj)
    (hq : q ∈ d.nodes) : ReflTransGen (s.Edge env b nil) v q := by
  induction d generalizing v with
  | leaf _ => cases hq
  | atom _ _ => cases hf
  | pair a l r ihl ihr =>
    obtain ⟨rfl, ⟨x, hx, hl⟩, y, hy, hr⟩ := h
    obtain ⟨hfl, hfr⟩ := Bool.and_eq_true_iff.mp hf
    have htl := fun q hq => ht q (.tail _ (List.mem_append_left _ hq))
    have htr := fun q hq => ht q (.tail _ (List.mem_append_right _ hq))
    have hne : ∀ {z : Ptr} {e : Cells Word}, e.Fits s.unit z → q ∈ e.nodes → z ≠ nil := by
      rintro z (_ | ⟨a, e⟩ | ⟨a, e, e'⟩) he hm
      · cases hm
      · obtain ⟨rfl, u, hu, -⟩ := he
        exact (live_of_unit hu).ne_nil
      · obtain ⟨rfl, ⟨u, hu, -⟩, -⟩ := he
        exact (live_of_unit hu).ne_nil
    have hpair : s.typeOf v = xTypePairObj := ht v (.head _)
    rcases List.mem_cons.mp hq with rfl | hq
    · exact .refl
    · rcases List.mem_append.mp hq with hm | hm
      · exact .head ⟨hne hl hm, .inl ⟨hpair, .inl hx⟩⟩ (ihl hl hfl htl hm)
      · exact .head ⟨hne hr hm, .inl ⟨hpair, .inr hy⟩⟩ (ihr hr hfr htr hm)

namespace FieldInv

theorem atomFree (h : FieldInv env F c L t k) : t.layout.atomFree = true := by
  rw [h.tree.layout]
  rfl

theorem root_live (h : FieldInv env F c L t k) : c.sys.Live c.root := h.chain.mem_live (.head _)

theorem bare (h : FieldInv env F c L t k) : c.sys.Bare c.root := .inr ⟨h.root_live, h.untyped⟩

/-- The tree leads to its own nodes. -/
theorem reach_node (h : FieldInv env F c L t k) (hq : q ∈ t.nodes) : c.FieldReach env q := by
  obtain ⟨r, hr, hfit⟩ := h.tree.root
  exact ⟨r, hr, reach_nodes hfit h.atomFree h.typed hq⟩

/-- The tree leads to the free hook. -/
theorem reach_hook {u : Word} (h : FieldInv env F c L t k) (hw : c.sys.unit k.free 0 = some u) :
    c.FieldReach env k.free := by
  obtain ⟨n, v, -, hv, hmem, hu, -, -⟩ := h.tree.fieldSlot (f := .heapFree) rfl
  rw [h.tree.fieldObj (f := .heapFree) rfl] at hv
  obtain rfl := Option.some.inj hv
  obtain ⟨r, hr, hn⟩ := h.reach_node hmem
  have ht := h.typed n (Cells.nodes_subset_pairs h.atomFree hmem)
  exact ⟨r, hr, hn.tail (edge_nil.mpr ⟨(live_of_unit hw).ne_nil, ht, .inl hu⟩)⟩

theorem reach_live (h : FieldInv env F c L t k) (hq : c.FieldReach env q) : c.sys.Live q ∧
    (c.sys.typeOf q = xTypePairObj →
      ∃ x y, c.sys.unit q 0 = some x ∧ c.sys.unit q 1 = some y) := by
  obtain ⟨r, hr, hq⟩ := hq
  exact h.walkable r hr q hq

/-- Without stores, and with the units of what the tree leads to, the invariant stays. -/
theorem frame {L' locals : List Ptr} (h : FieldInv env F c L t k)
    (hc : ChainInv s' c.root L' locals) (hL : ∀ q ∈ t.nodes, q ∈ L')
    (hlive : ∀ q, c.FieldReach env q ∨ q = c.root → s'.Live q)
    (htype : ∀ q, c.FieldReach env q ∨ q = c.root → s'.typeOf q = c.sys.typeOf q)
    (hunit : ∀ q i, c.FieldReach env q ∨ q = c.root → s'.unit q i = c.sys.unit q i)
    (hhook : k.free = nil ∨ ∃ u, s'.unit k.free 0 = some u)
    (hclean : ∀ p ∈ L', s'.flagsOf p &&& F = 0) :
    FieldInv env F { c with sys := s', locals := locals } L' t k where
  chain := hc
  tree := h.tree.congr fun q hq i u hu => by
    refine (hunit q i ?_).trans hu
    rcases List.mem_cons.mp hq with rfl | hq
    · exact .inr rfl
    · exact .inl (h.reach_node hq)
  typed q hq := (htype q (.inl (h.reach_node (t.pairs_subset hq)))).trans (h.typed q hq)
  nodes := hL
  untyped := (htype _ (.inr rfl)).trans h.untyped
  hook := hhook
  walkable r hr := by
    rw [show Sys.unit _ _ 0 = _ from hunit c.root 0 (.inr rfl)] at hr
    refine walkable_of_closed (R := c.FieldReach env) ⟨r, hr, .refl⟩ ?_ fun x hx => ?_
    · rintro x y hx he
      obtain ⟨r', hr', hrx⟩ := id hx
      refine ⟨r', hr', hrx.tail ?_⟩
      simpa [Sys.Edge, htype x (.inl hx), hunit x _ (.inl hx)] using he
    · refine ⟨hlive x (.inl hx), fun ht => ?_⟩
      rw [htype x (.inl hx)] at ht
      rw [hunit x 0 (.inl hx), hunit x 1 (.inl hx)]
      exact (h.reach_live hx).2 ht
  clean := hclean

theorem made {ty a : Ptr} {data : List Word} (h : FieldInv env F c L t k)
    (hF : fl &&& F = 0) (hm : Made c.sys c.root ty fl data p a s') :
    ∃ L', FieldInv env F { c with sys := s' } L' t k := by
  have hold : ∀ {q}, c.sys.Live q → q ≠ p := fun hq e => hm.new (e ▸ hq)
  have hx : c.sys.extraOf c.root = 0 := extraOf_of_not_full h.bare.not_full
  have hlive : ∀ {q}, c.FieldReach env q ∨ q = c.root → c.sys.Live q := by
    rintro q (hq | rfl)
    · exact (h.reach_live hq).1
    · exact h.root_live
  have hunit : ∀ q i, c.sys.Live q → s'.unit q i = c.sys.unit q i := fun q i hq => by
    rw [hm.unit_old q i (hold hq), if_neg fun hf => h.bare.not_full hf.1]
  obtain ⟨L', hc, hL⟩ := h.chain.made (.head _) hx hm
  refine ⟨L', h.frame hc (fun q hq => (hL q).mpr (.inr (h.nodes q hq)))
    (fun q hq => (hm.live q).mpr (.inr (hlive hq))) (fun q hq => hm.typeOf_old q (hold (hlive hq)))
    (fun q i hq => hunit q i (hlive hq)) ?_ fun q hq => ?_⟩
  · exact h.hook.imp id fun ⟨u, hu⟩ => ⟨u, by rw [hunit _ 0 (live_of_unit hu), hu]⟩
  · by_cases e : q = p
    · rw [e, hm.flagsOf_new, hx]
      exact hF
    · rw [hm.flagsOf_old q e]
      exact h.clean q (((hL q).mp hq).resolve_left e)

theorem request (h : FieldInv env F c L t k) :
    FieldInv env F { c with sys := c.sys.request } L t k :=
  h.frame (h.chain.mono (fun _ => Iff.rfl) (fun _ _ => rfl) (fun _ _ hq => hq) fun _ => Iff.rfl)
    h.nodes (fun _ hq => hq.elim (fun hq => (h.reach_live hq).1) fun e => e ▸ h.root_live)
    (fun _ _ => rfl) (fun _ _ _ => rfl) h.hook h.clean

theorem newLocal {o : Obj} (h : FieldInv env F c L t k) (hn : nil < p) (hp : ¬ c.sys.Live p) :
    FieldInv env F { c with sys := c.sys.place p o, locals := p :: c.locals } L t k := by
  have hold : ∀ {q}, c.sys.Live q → q ≠ p := fun hq e => hp (e ▸ hq)
  have hlive : ∀ {q}, c.FieldReach env q ∨ q = c.root → c.sys.Live q := by
    rintro q (hq | rfl)
    · exact (h.reach_live hq).1
    · exact h.root_live
  refine h.frame (h.chain.newLocal hn hp) h.nodes
    (fun q hq => (live_place hn).mpr (.inr (hlive hq)))
    (fun q hq => by rw [typeOf_place hn, if_neg (hold (hlive hq))])
    (fun q i hq => by rw [unit_place hn, if_neg (hold (hlive hq))]) ?_ fun q hq => ?_
  · refine h.hook.imp id fun ⟨u, hu⟩ => ⟨u, ?_⟩
    rw [unit_place hn, if_neg (hold (live_of_unit hu)), hu]
  · rw [flagsOf_place hn, if_neg (hold (h.chain.mem_live (.tail _ hq)))]
    exact h.clean q hq

/-- A pair pushed on a list in a node of the tree. -/
theorem pushed {n : Ptr} {t' : Cells Word} {k' : Heads} (h : FieldInv env F c L t k)
    (hF : fl &&& F = 0) (hs : Pushed c.sys c.root fl n v old p s') (hn : n ∈ t.nodes)
    (hv : v ≠ nil → c.sys.Walkable env c.root nil v)
    (htree : BaseTree s' c.root t' (headCell k')) (hnodes : ∀ x ∈ t'.nodes, x ∈ t.nodes ∨ x = p)
    (hpairs : ∀ x ∈ t'.pairs, x ∈ t.pairs ∨ x = p)
    (hhook : k'.free = nil ∨ ∃ u, s'.unit k'.free 0 = some u) :
    ∃ L', FieldInv env F { c with sys := s' } L' t' k' := by
  have hx : c.sys.extraOf c.root = 0 := extraOf_of_not_full h.bare.not_full
  have hroot : c.root ≠ n := fun e => (List.nodup_cons.mp h.tree.nodup).1 (e ▸ hn)
  have hnpair : c.sys.typeOf n = xTypePairObj := h.typed n (Cells.nodes_subset_pairs h.atomFree hn)
  have hreach := h.reach_node hn
  obtain ⟨L', hc, hL⟩ : ∃ L', ChainInv s' c.root L' c.locals ∧ ∀ q, q ∈ L' ↔ q = p ∨ q ∈ L := by
    obtain ⟨a, s₁, hm, rfl⟩ := hs.made
    obtain ⟨L', hc, hL⟩ := h.chain.made (.head _) hx hm
    refine ⟨L', hc.mono (fun q => live_setUnit) (fun q _ => next_setUnit)
      (fun q _ hq => block_setUnit.trans hq) fun q => ?_, hL⟩
    rw [show (s₁.setUnit n 0 p).trace = s₁.trace from trace_modify]
  refine ⟨L', hc, htree, fun q hq => ?_, fun q hq => ?_, ?_, hhook, fun r hr => ?_, fun q hq => ?_⟩
  · rcases hpairs q hq with hq | rfl
    · exact (hs.typeOf_old (hs.ne (h.tree.live_node (t.pairs_subset hq)))).trans (h.typed q hq)
    · exact hs.typeOf_new
  · exact (hL q).mpr ((hnodes q hq).symm.imp id (h.nodes q))
  · exact (hs.typeOf_old (hs.ne h.root_live)).trans h.untyped
  · rw [show Sys.unit _ c.root 0 = _ from hs.unit_old (hs.ne h.root_live),
      if_neg fun e => hroot e.1] at hr
    -- The new pair leads to the value and to the old list, which `n` led to.
    refine walkable_of_closed (R := fun x => x = p ∨ c.FieldReach env x ∨
      v ≠ nil ∧ ReflTransGen (c.sys.Edge env c.root nil) v x) (.inr (.inl ⟨r, hr, .refl⟩)) ?_ ?_
    · intro x y hR he
      obtain ⟨hy, ht, he⟩ := edge_nil.mp he
      by_cases hxp : x = p
      · subst hxp
        rw [show Sys.unit _ x 0 = _ from hs.unit_new,
          show Sys.unit _ x 1 = _ from hs.unit_new] at he
        rcases he with he | he
        · obtain rfl : v = y := Option.some.inj he
          exact .inr (.inr ⟨hy, .refl⟩)
        · obtain rfl : old = y := Option.some.inj he
          obtain ⟨r', hr', hrn⟩ := hreach
          exact .inr (.inl ⟨r', hr', hrn.tail (edge_nil.mpr ⟨hy, hnpair, .inl hs.slot⟩)⟩)
      · rw [show Sys.typeOf _ x = _ from hs.typeOf_old hxp] at ht
        rw [show Sys.unit _ x 0 = _ from hs.unit_old hxp,
          show Sys.unit _ x 1 = _ from hs.unit_rest hxp] at he
        have hstep : y = p ∨ c.sys.Edge env c.root nil x y := by
          split at he
          · rcases he with he | he
            · exact .inl (Option.some.inj he).symm
            · exact .inr (edge_nil.mpr ⟨hy, ht, .inr he⟩)
          · exact .inr (edge_nil.mpr ⟨hy, ht, he⟩)
        rcases hstep with e | he
        · exact .inl e
        · rcases hR with e | ⟨r', hr', hrx⟩ | ⟨hv', hvx⟩
          · exact absurd e hxp
          · exact .inr (.inl ⟨r', hr', hrx.tail he⟩)
          · exact .inr (.inr ⟨hv', hvx.tail he⟩)
    · intro x hR
      by_cases hxp : x = p
      · subst hxp
        exact ⟨hs.live.mpr (.inl rfl), fun _ => ⟨v, old, hs.unit_new, hs.unit_new⟩⟩
      · have hold : c.sys.Live x ∧ (c.sys.typeOf x = xTypePairObj →
            ∃ y z, c.sys.unit x 0 = some y ∧ c.sys.unit x 1 = some z) := by
          rcases hR with e | hx | ⟨hv', hvx⟩
          · exact absurd e hxp
          · exact h.reach_live hx
          · exact hv hv' x hvx
        refine ⟨hs.live.mpr (.inr hold.1), fun ht => ?_⟩
        rw [show Sys.typeOf _ x = _ from hs.typeOf_old hxp] at ht
        obtain ⟨y, z, hy, hz⟩ := hold.2 ht
        rw [show Sys.unit _ x 0 = _ from hs.unit_old hxp,
          show Sys.unit _ x 1 = _ from hs.unit_rest hxp, hz]
        split
        · exact ⟨p, z, rfl, rfl⟩
        · exact ⟨y, z, hy, rfl⟩
  · by_cases e : q = p
    · rw [e, show Sys.flagsOf _ p = _ from hs.flagsOf_new, hF]
    · rw [show Sys.flagsOf _ q = _ from hs.flagsOf_old e]
      exact h.clean q (((hL q).mp hq).resolve_left e)

/-- A value pushed on a field. -/
theorem pushField {slot r : Ptr} {s₁ : Sys} (h : FieldInv env F c L t k) (hF : fl &&& F = 0)
    (hv : c.Pushable env f v) (hs : f.addr c.root c.sys = .ok slot s₁)
    (hr : xObjPushField env c.root slot v fl s₁ = .ok r s') :
    ∃ L' t' k', FieldInv env F { c with sys := s' } L' t' k' ∧
      k'.free = (if f = .heapFree then v else k.free) ∧
      k'.head = if f = .heapRootChain then v else k.head := by
  obtain ⟨n, hn, rfl, rfl⟩ := Field.addr_ok.mp hs
  obtain ⟨n', old, d, hn', hu, -, hmem, hslot, hsub, -, -⟩ := h.tree.nodeSlot f
  obtain rfl : n = n' := Option.some.inj (hn.symm.trans hn')
  rcases xObjPushField_bare env v fl h.bare hu with
    ⟨-, hrun⟩ | ⟨p, s₂, -, hp, hrun⟩
  · exact nomatch hr.symm.trans hrun
  · cases hr.symm.trans hrun
    obtain ⟨x, k', hcell, hx, hfree, hhead⟩ := headCell_update (k := k) hv.mark
    have hfresh : ∀ q ∈ c.root :: t.nodes, q ≠ p := fun q hq => by
      rcases List.mem_cons.mp hq with rfl | hq
      · exact hp.ne h.root_live
      · exact hp.ne (h.tree.live_node hq)
    have hkeep : ∀ q ∈ c.root :: t.nodes, ∀ j u, (q, j) ≠ (n, 0) → c.sys.unit q j = some u →
        s'.unit q j = some u := fun q hq j u hne hu => by
      rw [hp.unit_old (hfresh q hq), if_neg fun e => hne (by rw [e.1, e.2]), hu]
    obtain ⟨t', ht', hnodes, hpairs⟩ := h.tree.putAt (ρ := []) (u := p)
      (e := .pair p (.leaf x) (.leaf none)) (by rwa [List.append_nil]) (by rwa [List.append_nil])
      (List.nodup_singleton p)
      (fun q hq hm => absurd (List.mem_singleton.mp hq) (hfresh q hm)) hkeep
      (by rw [hp.unit_old (hfresh n (.tail _ hmem)), if_pos ⟨rfl, rfl⟩])
      ⟨rfl, ⟨v, hp.unit_new, hx⟩, old, hp.unit_new, nofun⟩
    rw [Layout.put_nil] at ht'
    have ht' : BaseTree s' c.root t' (headCell k') := hcell ▸ ht'
    have hhook : k'.free = nil ∨ ∃ u, c.sys.unit k'.free 0 = some u := by
      rw [hfree]
      split
      · next e => exact hv.free e
      · exact h.hook
    obtain ⟨L', hi⟩ := h.pushed hF hp hmem hv.walkable ht'
      (fun y hy => (hnodes y hy).imp id List.mem_singleton.mp)
      (fun y hy => (hpairs y hy).imp id List.mem_singleton.mp) (hp.hook hhook)
    exact ⟨L', t', k', hi, hfree, hhead⟩

/-- A value prepended to the current list of a field, which is in a node of the tree. -/
theorem listAdd (h : FieldInv env F c L t k) (hf : headCell k f = cellObj none)
    (hv : c.Pushable env f v) :
    (env.malloc.grants c.sys.requests = false ∧
      ∃ s', heapListAdd env f c.root v c.sys = .error (.fault .nilDeref) s') ∨
    ∃ n old p s' L', heapListAdd env f c.root v c.sys = .ok () s' ∧ n ∈ t.nodes ∧
      Pushed c.sys c.root xObjFlagNone n v old p s' ∧
      FieldInv env F { c with sys := s' } L' t k := by
  obtain ⟨n, old, hc, -, hmem, hu, hslot, hsub⟩ := h.tree.fieldSlot hf
  rcases xObjPushField_bare env v xObjFlagNone h.bare hu with
    ⟨hg, hrun⟩ | ⟨p, s', -, hp, hrun⟩
  · exact .inl ⟨hg, _, (heapListAdd_run hc).trans (Prog.bind_of_error hrun)⟩
  have hfresh : ∀ q ∈ c.root :: t.nodes, q ≠ p := fun q hq => by
    rcases List.mem_cons.mp hq with rfl | hq
    · exact hp.ne h.root_live
    · exact hp.ne (h.tree.live_node hq)
  have ht' : BaseTree s' c.root t (headCell k) := h.tree.open_unit (u := p) hslot hsub
    (fun q hq j u hne hu => by
      rw [hp.unit_old (hfresh q hq), if_neg fun e => hne (by rw [e.1, e.2]), hu])
    (by rw [hp.unit_old (hfresh n (.tail _ hmem)), if_pos ⟨rfl, rfl⟩])
  obtain ⟨L', hi⟩ := h.pushed BitVec.zero_and hp hmem hv.walkable ht' (fun _ => .inl)
    (fun _ => .inl) (hp.hook h.hook)
  exact .inr ⟨n, old, p, s', L', (heapListAdd_run hc).trans (Prog.bind_of_ok hrun), hmem, hp, hi⟩

theorem listAdd_ok (h : FieldInv env F c L t k) (hf : headCell k f = cellObj none)
    (hv : c.Pushable env f v) (hr : heapListAdd env f c.root v c.sys = .ok () s') :
    ∃ L' t' k', FieldInv env F { c with sys := s' } L' t' k' := by
  rcases h.listAdd hf hv with ⟨-, s₁, hrun⟩ | ⟨n, old, p, s₁, L', hrun, -, -, hi⟩
  · exact nomatch hr.symm.trans hrun
  · cases hr.symm.trans hrun
    exact ⟨L', t, k, hi⟩

end FieldInv

/-! ## A collection -/

/-- The marks of the mark phase from the base object, which has no successors. -/
theorem FieldInv.phase (h : FieldInv env F c L t k) (hF : F ≠ 0) (hK : c.RootsReady env K) :
    ∃ s₁, markPhase env c.root F [c.root] [] c.sys = .ok () s₁ ∧
      PhaseMarked env c.sys c.root nil F [c.root] K [] s₁ ∧
      ∀ p ∈ L, s₁.kept F p = true ↔
        c.sys.flagsOf p &&& xObjFlagShared ≠ 0 ∨ c.Rooted env F K p := by
  have hsink : ∀ q, ¬ c.sys.Edge env c.root nil c.root q := fun q he => by
    have ht := (edge_nil.mp he).2.1
    rw [h.untyped] at ht
    exact absurd ht (by decide)
  have hnil : nil ∉ [c.root] := fun hm => h.root_live.ne_nil (List.mem_singleton.mp hm).symm
  have hhook : c.sys.hookWord .heapMark c.root = some nil := by
    unfold Sys.hookWord
    rw [if_pos h.tree.isSet, h.tree.fieldObj (f := .heapMark) rfl]
    rfl
  obtain ⟨head, hhead, hseg⟩ := hK.chain
  obtain ⟨hhead, -⟩ := Field.obj_ok.mp hhead
  obtain ⟨s₁, hrun, hm⟩ := markPhase_run env [c.root] [] hF
    h.tree.isSet hhook hhead hseg hK.nodup (fun q hq => (hK.walkable q hq).live) hnil
    List.not_mem_nil fun q hq => by
      rw [List.append_nil] at hq
      rcases List.mem_cons.mp hq with rfl | hq
      · refine walkable_of_closed (R := (· = c.root)) rfl ?_ ?_
        · rintro x y rfl he
          exact absurd he (hsink y)
        · rintro x rfl
          exact ⟨h.root_live, fun e => absurd (e.symm.trans h.untyped) (by decide)⟩
      · exact hK.walkable q hq
  refine ⟨s₁, hrun, hm, fun p hp => ?_⟩
  have hpl := h.chain.mem_live (.tail _ hp)
  have hpr : p ≠ c.root := fun e => (List.nodup_cons.mp h.chain.nodup).1 (e ▸ hp)
  have hmark : p ∈ s₁.marks F ↔ c.Rooted env F K p := by
    rw [hm.marks]
    refine Reach.mem_markRoots_sink hsink hpr fun (e : _ = F) => ?_
    exact hF (e.symm.trans (h.clean p hp))
  by_cases hpK : p ∈ K
  · have hroot : c.Rooted env F K p := ⟨p, hpK, .refl fun hn => hn.2 hpK⟩
    have e : s₁.flagsOf p &&& F = F := hmark.mpr hroot
    rw [kept_eq_true, e]
    exact iff_of_true (.inl ⟨hF, hF⟩) (.inr hroot)
  · rw [hm.kept hF hpl hpK (h.clean p hp), hmark]
    exact or_comm

/-- A collection returns, and frees what is neither shared nor rooted. -/
theorem FieldInv.collect (h : FieldInv env F c L t k) (hin : env.FreeInert) (hF : F ≠ 0)
    (hsh : F &&& xObjFlagShared = 0) (hown : F &&& xObjFlagOwn = 0) (hK : c.RootsReady env K)
    (ho : c.OwnReady 0) :
    ∃ s', XExpr.collect env c.root F [c.root] [] c.sys = .ok () s' ∧
      (∀ p, s'.Live p ↔ c.sys.Live p ∧ (c.OnChain p →
        c.sys.flagsOf p &&& xObjFlagShared ≠ 0 ∨ c.Rooted env F K p)) ∧
      (∀ p g, s'.Live p → F &&& g = 0 → s'.flagsOf p &&& g = c.sys.flagsOf p &&& g) ∧
      (c.FieldsRooted env F K → ∃ L', FieldInv env F { c with sys := s' } L' t k) := by
  obtain ⟨s₁, hrun₁, hm, hkept⟩ := h.phase hF hK
  have hroot₁ : s₁.Live c.root := hm.same.live.mpr h.root_live
  have htype₁ : s₁.typeOf c.root = nil := hm.same.typeOf.trans h.untyped
  have hbare₁ : s₁.Bare c.root := .inr ⟨hroot₁, htype₁⟩
  have hx₁ : s₁.extraOf c.root = 0 := extraOf_of_not_full hbare₁.not_full
  have hacc : Accounted s₁ c.root t (headCell k) :=
    ⟨.inl hbare₁.minimal, fun hf => absurd hf hbare₁.not_full, fun hf => absurd hf hbare₁.not_full,
      fun hf => absurd hf hbare₁.not_full⟩
  have hc₁ : ChainInv s₁ c.root L c.locals :=
    h.chain.mono (fun q => hm.same.live) (fun q _ => hm.same.next)
      (fun q _ hq => (congrArg (Finmap.lookup q) hm.block).trans hq) fun q => by rw [hm.trace]
  have ho₁ : Client.OwnReady { c with sys := s₁ } F := hm.ownReady hsh hown ho
  obtain ⟨hrootL, hn⟩ := List.nodup_cons.mp h.chain.nodup
  obtain ⟨fn, hfn⟩ := h.tree.hookWord (f := .heapFree) rfl h.hook
  obtain ⟨s', hrun₂, hs⟩ := xHeapSweep_run hsh (fun _ _ _ => hin.on) (hm.same.hookWord.trans hfn)
    (ChainInv.sweepable (c := { c with sys := s₁ }) hc₁ (.head _) hacc hx₁ ho₁ hrootL
      (List.Subset.refl _) hn hc₁.chain)
  obtain ⟨L', hc', hL', hmem⟩ :=
    ChainInv.swept (c := { c with sys := s₁ }) hc₁ hx₁ ho₁ (List.nil_append _).symm hs
  have hL'' : L' = L.filter (s₁.kept F) := (List.cons.inj hL').2
  have hlive : ∀ p, s'.Live p ↔ c.sys.Live p ∧ (c.OnChain p →
      c.sys.flagsOf p &&& xObjFlagShared ≠ 0 ∨ c.Rooted env F K p) := fun p => by
    rw [hs.live, hm.same.live]
    refine and_congr_right fun _ => ?_
    rw [h.chain.onChain]
    exact forall_congr' fun hp => hkept p hp
  have hunit : ∀ q i, s'.Live q → s'.unit q i = c.sys.unit q i := fun q i hq => by
    rw [hs.unit q i hq, if_neg fun hf => hbare₁.not_full hf.1, hm.same.unit]
  refine ⟨s', ?_, hlive, fun p g hp hg => ?_, fun hr => ?_⟩
  · unfold XExpr.collect
    rw [Prog.bind_of_ok hrun₁, Prog.bind_of_ok (xObjHeap_eq hroot₁)]
    exact Prog.bind_of_ok hrun₂
  · have hmark : s₁.flagsOf p &&& g = c.sys.flagsOf p &&& g := by
      rw [← Flags.clear_and hg, hm.others, Flags.clear_and hg]
    by_cases hpL : p ∈ L
    · rw [hs.flags_mem p hpL (((hs.live p).mp hp).2 hpL), Flags.clear_and hg, hmark]
    · rw [hs.flags_notMem p hpL, hmark]
  · have hreach : ∀ q, c.FieldReach env q ∨ q = c.root → s'.Live q := by
      rintro q (hq | rfl)
      · exact (hlive q).mpr ⟨(h.reach_live hq).1, hr q hq⟩
      · exact hc'.mem_live (.head _)
    refine ⟨L', h.frame hc' (fun q hq => ?_) hreach
      (fun q hq => (hs.typeOf q (hreach q hq)).trans hm.same.typeOf)
      (fun q i hq => hunit q i (hreach q hq)) ?_ fun q hq => ?_⟩
    · have hqL := h.nodes q hq
      rw [hL'', List.mem_filter, hkept q hqL]
      exact ⟨hqL, hr q (h.reach_node hq) (h.chain.onChain.mpr hqL)⟩
    · -- The free hook is in a field, so the collection keeps it.
      refine h.hook.imp id fun ⟨u, hu⟩ => ⟨u, ?_⟩
      rw [hunit _ 0 (hreach _ (.inl (h.reach_hook hu))), hu]
    · rw [hL'', List.mem_filter] at hq
      rw [hs.flags_mem q hq.1 hq.2, Flags.clear_and_self]

/-! ## Runs -/

theorem FieldStep.inv (h : FieldInv env F c L t k) (hs : FieldStep env F c c') :
    ∃ L' t' k', FieldInv env F c' L' t' k' := by
  cases hs with
  | make hF hr =>
    rcases xObjMake_ok hr with ⟨-, -, -, rfl⟩ | ⟨a, -, hm⟩
    · exact ⟨L, t, k, h.request⟩
    · obtain ⟨L', hi⟩ := h.made hF hm
      exact ⟨L', t, k, hi⟩
  | newLocal hn hp => exact ⟨L, t, k, h.newLocal hn hp⟩
  | push hF hv hs hr =>
    obtain ⟨L', t', k', hi, -⟩ := h.pushField hF hv hs hr
    exact ⟨L', t', k', hi⟩
  | markHookAdd hv hr => exact h.listAdd_ok rfl hv hr
  | freeHookAdd hv hr => exact h.listAdd_ok rfl hv hr
  | markRootAdd hv hr => exact h.listAdd_ok rfl hv hr

/-- What the pairs of a new base lead to: its own nodes, and what the hooks lead to. -/
theorem BaseMade.walkable {a r : Ptr} {new : List Ptr} {b : Ptr}
    (hm : BaseMade env s nil cfg b a new t s') (hg : env.malloc.GrantsFrom (s.requests + 1) 55)
    (hcfg : ∀ v ∈ cfg.hooks, v ≠ nil → s'.Walkable env b nil v) (hr : s'.unit b 0 = some r) :
    s'.Walkable env b nil r := by
  obtain ⟨⟨-, u, hu, hfit⟩, -, hsub, hpair, hatom, -, hwhole⟩ := hm.tree
  obtain rfl : r = u := Option.some.inj (hr.symm.trans hu)
  have hlay : t.layout = cfg.tree := hwhole.mp hg
  have hnode : ∀ {x}, x ∈ t.nodes → s'.typeOf x = xTypePairObj → x ∈ t.pairs := fun hx ht =>
    (Cells.pair_or_atom hx).resolve_right fun ha =>
      absurd (ht.symm.trans (hatom _ ha)) (by decide)
  refine walkable_of_closed (R := fun x => x ∈ t.nodes ∨
    ∃ v ∈ cfg.hooks, v ≠ nil ∧ ReflTransGen (s'.Edge env b nil) v x) ?_ ?_ ?_
  · rcases hfit.top with h | h | h
    · exact .inl h
    · rw [hlay] at h
      cases h
    · rw [hlay] at h
      cases h
  · rintro x y (hx | ⟨v, hv, hne, hvx⟩) he
    · obtain ⟨hy, ht, he⟩ := edge_nil.mp he
      obtain ⟨x₀, x₁, h₀, h₁, hz⟩ := hfit.links (hnode hx ht)
      have hyz : y = x₀ ∨ y = x₁ := by
        rcases he with he | he
        · exact .inl (Option.some.inj (he.symm.trans h₀))
        · exact .inr (Option.some.inj (he.symm.trans h₁))
      rw [hlay] at hz
      rcases hz y hyz with hy' | hy' | hy'
      · exact .inl hy'
      · rcases cfg.links_tree _ hy' with e | ⟨v, hv, e⟩
        · exact absurd (Option.some.inj e) hy
        · obtain rfl := Option.some.inj e
          exact .inr ⟨y, hv, hy, .refl⟩
      · rcases cfg.links_tree _ hy' with e | ⟨v, -, e⟩ <;> cases e
    · exact .inr ⟨v, hv, hne, hvx.tail he⟩
  · rintro x (hx | ⟨v, hv, hne, hvx⟩)
    · refine ⟨(hm.live x).mpr (.inl (.tail _ (hsub hx))), fun ht => ?_⟩
      obtain ⟨x₀, x₁, h₀, h₁, -⟩ := hfit.links (hnode hx ht)
      exact ⟨x₀, x₁, h₀, h₁⟩
    · exact hcfg v hv hne x hvx

theorem Start.fieldInv (hs : Start env cfg c) (hmark : cfg.heapMark = nil)
    (hcfg : ∀ v ∈ cfg.hooks, v ≠ nil → c.sys.Walkable env c.root nil v)
    (hsh : F &&& xObjFlagShared = 0) :
    ∃ L t, FieldInv env F c L t ⟨cfg.heapFree, nil⟩ := by
  obtain ⟨s, new, t₀, hm, hg, hchain, -, hfree⟩ := hs.made
  obtain ⟨d₀, hd₀, hsub₀, hpairs₀⟩ := hm.baseTree hg
  obtain ⟨d, hd, hsub, hpairs⟩ := hd₀.relax (XBaseT.cell_headCell hmark)
  refine ⟨new, d, hchain, hd, fun q hq => hpairs₀ q (hpairs hq), fun q hq => hsub₀ (hsub hq),
    hm.typeOf_base, hfree.imp id And.right, fun r hr => hm.walkable hg hcfg hr, fun q hq => ?_⟩
  rw [hm.flagsOf_new hq, BitVec.and_comm, hsh]

/-- A collection keeps what the tree of the base leads to if and only if all of it is shared or
rooted, in every run whose collections so far kept it. -/
theorem fields_kept_iff (hin : env.FreeInert) (hF : F ≠ 0) (hsh : F &&& xObjFlagShared = 0)
    (hown : F &&& xObjFlagOwn = 0) (hs : Start env cfg c₀) (hmark : cfg.heapMark = nil)
    (hcfg : ∀ v ∈ cfg.hooks, v ≠ nil → c₀.sys.Walkable env c₀.root nil v)
    (hr : ReflTransGen (fun c c' => FieldStep env F c c' ∨ FieldCycle env F c c') c₀ c)
    (hK : c.RootsReady env K) (ho : c.OwnReady 0) :
    (∀ p, c.FieldReach env p → c.sys.Live p) ∧
    ∃ s', collect env c.root F [c.root] [] c.sys = .ok () s' ∧
      ((∀ p, c.FieldReach env p → s'.Live p) ↔ c.FieldsRooted env F K) := by
  have hinv : ∃ L t k, FieldInv env F c L t k := by
    refine Prog.invariant (I := fun c => ∃ L t k, FieldInv env F c L t k) ?_ hr
      (Exists.imp (fun _ => Exists.imp fun _ h => ⟨_, h⟩) (hs.fieldInv hmark hcfg hsh))
    rintro c c' ⟨L, t, k, h⟩ (hstep | ⟨hK, ho, hroot, hrun⟩)
    · exact hstep.inv h
    · obtain ⟨s', hrun', -, -, hi⟩ := h.collect hin hF hsh hown hK ho
      cases hrun.symm.trans hrun'
      obtain ⟨L', hi⟩ := hi hroot
      exact ⟨L', t, k, hi⟩
  obtain ⟨L, t, k, h⟩ := hinv
  obtain ⟨s', hrun, hlive, -⟩ := h.collect hin hF hsh hown hK ho
  refine ⟨fun p hp => (h.reach_live hp).1, s', hrun, fun hk p hp => ?_, fun hk p hp => ?_⟩
  · exact ((hlive p).mp (hk p hp)).2
  · exact (hlive p).mpr ⟨(h.reach_live hp).1, hk p hp⟩

/-! ## A base and an atom -/

/-- With an empty root chain there is nothing to send the marker from. -/
theorem FieldInv.rootsReady (h : FieldInv env F c L t k) (hk : k.head = nil) :
    c.RootsReady env [] where
  chain := ⟨k.head, Field.obj_run (h.tree.fieldObj (f := .heapRootChain) rfl), hk⟩
  nodup := .nil
  walkable _ hq := absurd hq List.not_mem_nil

/-- All nodes of a new base but the base object are shared. -/
theorem Start.shared (hs : Start env cfg c) (hloc : c.locals = []) (hp : c.sys.Live p)
    (hr : p ≠ c.root) : c.sys.flagsOf p &&& xObjFlagShared ≠ 0 := by
  obtain ⟨s, new, t₀, hm, -, hchain, -, -⟩ := hs.made
  rcases (hchain.live p).mp hp with hp | hp
  · rw [hm.flagsOf_new ((List.mem_cons.mp hp).resolve_left hr)]
    decide
  · rw [hloc] at hp
    exact absurd hp List.not_mem_nil

/-- An atom is made on a new base. It is there to be pushed on a field. -/
theorem exists_fieldAtom (fl : Flags) (hF : fl &&& xObjFlagMark = 0)
    (hO : fl &&& xObjFlagOwn = 0) :
    ∃ (c₀ : Client) (p : Ptr) (s : Sys) (L : List Ptr) (t : Cells Word),
    Start (.plain fun _ => true) .standard c₀ ∧ c₀.locals = [] ∧
    xObjMake (.plain fun _ => true) c₀.root xTypeAtomObj fl [41] c₀.sys = .ok p s ∧
    FieldInv (.plain fun _ => true) xObjFlagMark { c₀ with sys := s } L t ⟨nil, nil⟩ ∧
    s.Live p ∧ p ≠ c₀.root ∧ s.flagsOf p = fl ∧
    (∀ f, f ≠ .heapMark → Client.Pushable (.plain fun _ => true) { c₀ with sys := s } f p) ∧
    (∀ x, s.flagsOf x &&& xObjFlagOwn = 0) ∧
    ∀ x, s.Live x → x ≠ c₀.root → x ≠ p → s.flagsOf x &&& xObjFlagShared ≠ 0 := by
  obtain ⟨c₀, hs, hloc⟩ := Start.exists (.plain fun _ => true) .standard
    (fun _ _ _ => rfl) rfl rfl
  obtain ⟨L, t, h⟩ := hs.fieldInv (F := xObjFlagMark) rfl
    (by simp [XBaseT.standard, XBaseT.hooks]) (by decide)
  obtain ⟨p, a, s, hrun, hm, -, hfp⟩ := xObjMake_granted (.plain fun _ => true) xTypeAtomObj
    fl [41] h.bare rfl (by decide)
  obtain ⟨L', h'⟩ := h.made hF hm
  have hp : s.Live p := (hm.live p).mpr (.inl rfl)
  have hu : s.unit p 0 = some 41 := by
    rw [Sys.unit, hm.data_new]
    rfl
  refine ⟨c₀, p, s, L', t, hs, hloc, hrun, h', hp, fun e => hm.new (e ▸ h.root_live), hfp,
    fun f hf => ⟨fun _ => walkable_plain hp ?_, fun e => absurd e hf, fun _ => .inr ⟨41, hu⟩⟩,
    fun x => ?_, fun x hx hr hxp => ?_⟩
  · rw [show Sys.typeOf _ p = _ from hm.typeOf_new]
    decide
  · by_cases hxp : x = p
    · rw [hxp, hfp, hO]
    · rw [hm.flagsOf_old x hxp]
      exact hs.flags_own hloc x
  · rw [hm.flagsOf_old x hxp]
    exact hs.shared hloc (((hm.live x).mp hx).resolve_left hxp) hr

/-- A pair that is pushed owns nothing. -/
theorem Pushed.flags_own {n q : Ptr} {v old : Word} {s : Sys} {b : Ptr} {fl : Flags}
    (hq : Pushed s b fl n v old q s') (hfl : fl &&& xObjFlagOwn = 0)
    (h : ∀ x, s.flagsOf x &&& xObjFlagOwn = 0) (x : Ptr) : s'.flagsOf x &&& xObjFlagOwn = 0 := by
  by_cases hx : x = q
  · rw [hx, hq.flagsOf_new, hfl]
  · rw [hq.flagsOf_old hx, h]

/-- An atom that was added to the mark roots is freed, and so is the pair that holds it. -/
theorem fields_fail : ∃ (c₀ c₁ c₂ : Client) (p q : Ptr) (s' : Sys),
    Start (.plain fun _ => true) .standard c₀ ∧
    FieldStep (.plain fun _ => true) xObjFlagMark c₀ c₁ ∧
    FieldStep (.plain fun _ => true) xObjFlagMark c₁ c₂ ∧
    c₂.FieldReach (.plain fun _ => true) p ∧ c₂.OnChain p ∧
    c₂.FieldReach (.plain fun _ => true) q ∧ c₂.OnChain q ∧
    collect (.plain fun _ => true) c₂.root xObjFlagMark [c₂.root] [] c₂.sys = .ok () s' ∧
    ¬ s'.Live p ∧ ¬ s'.Live q := by
  obtain ⟨c₀, p, s₁, L₁, t, hs, hloc, hrun₁, h₁, hp₁, hpr, hfp₁, hv, hown₁, -⟩ :=
    exists_fieldAtom xObjFlagNone rfl rfl
  have hv := hv .heapMarkRoots (by decide)
  obtain ⟨n, old, q, s₂, L₂, hrun₂, hn, hq, h₂⟩ :=
    (h₁.listAdd (f := .heapMarkRoots) rfl hv).resolve_left fun hno => by cases hno.1
  let c : Client := { c₀ with sys := s₂ }
  have hpq : p ≠ q := hq.ne hp₁
  have hfp : s₂.flagsOf p = xObjFlagNone := (hq.flagsOf_old hpq).trans hfp₁
  have hfq : s₂.flagsOf q = xObjFlagNone := hq.flagsOf_new
  -- The tree leads to the pair, and the pair to the atom.
  have hreach : c.FieldReach (.plain fun _ => true) q := by
    obtain ⟨r, hr, hrn⟩ := h₂.reach_node hn
    have hnq : n ≠ q := hq.ne (h₁.tree.live_node hn)
    refine ⟨r, hr, hrn.tail (edge_nil.mpr ⟨(hq.live.mpr (.inl rfl)).ne_nil, ?_, .inl ?_⟩)⟩
    · exact h₂.typed n (Cells.nodes_subset_pairs h₂.atomFree hn)
    · rw [show c.sys.unit n 0 = _ from hq.unit_old hnq, if_pos ⟨rfl, rfl⟩]
  have hreach' : c.FieldReach (.plain fun _ => true) p := by
    obtain ⟨r, hr, hrq⟩ := hreach
    exact ⟨r, hr, hrq.tail (edge_nil.mpr ⟨hp₁.ne_nil, hq.typeOf_new, .inl hq.unit_new⟩)⟩
  have hon : ∀ x, s₂.Live x → x ≠ c₀.root → c.OnChain x := fun x hx hr =>
    h₂.chain.onChain.mpr (h₂.chain.mem_of_live hx hr (hloc ▸ List.not_mem_nil))
  have hcp : c.OnChain p := hon p (hq.live.mpr (.inr hp₁)) hpr
  have hcq : c.OnChain q := hon q (hq.live.mpr (.inl rfl)) (hq.ne h₁.root_live).symm
  obtain ⟨s', hrun, hlive, -⟩ := h₂.collect Env.plain_inert (by decide) (by decide)
    (by decide) (h₂.rootsReady rfl) (.of_flags (hq.flags_own rfl hown₁))
  have hfree : ∀ x, c.OnChain x → s₂.flagsOf x = xObjFlagNone → ¬ s'.Live x := fun x hx hfx hl => by
    rcases ((hlive x).mp hl).2 hx with hsh | ⟨y, hy, -⟩
    · exact hsh (by rw [show c.sys.flagsOf x = _ from hfx]; rfl)
    · exact absurd hy List.not_mem_nil
  exact ⟨c₀, _, c, p, q, s', hs, .make BitVec.zero_and hrun₁, .markRootAdd hv hrun₂, hreach', hcp,
    hreach, hcq, hrun, hfree p hcp hfp, hfree q hcq hfq⟩

/-- Of a base on which everything is shared, a collection keeps everything. -/
theorem Client.FieldsRooted.of_shared
    (h : ∀ p, c.sys.Live p → p ≠ c.root → c.sys.flagsOf p &&& xObjFlagShared ≠ 0)
    (hc : ∀ p, c.OnChain p → c.sys.Live p) : c.FieldsRooted env F K :=
  fun p _ hp => .inl (h p (hc p hp) hp.2)

theorem FieldInv.collect_shared (h : FieldInv env F c L t k) (hin : env.FreeInert) (hF : F ≠ 0)
    (hsh : F &&& xObjFlagShared = 0) (hown : F &&& xObjFlagOwn = 0) (hK : c.RootsReady env [])
    (ho : ∀ x, c.sys.flagsOf x &&& xObjFlagOwn = 0)
    (hs : ∀ x, c.sys.Live x → x ≠ c.root → c.sys.flagsOf x &&& xObjFlagShared ≠ 0) :
    ∃ s' L', XExpr.collect env c.root F [c.root] [] c.sys = .ok () s' ∧
      FieldCycle env F c { c with sys := s' } ∧ FieldInv env F { c with sys := s' } L' t k ∧
      (∀ x, s'.flagsOf x &&& xObjFlagOwn = 0) ∧
      ∀ x, s'.Live x → x ≠ c.root → s'.flagsOf x &&& xObjFlagShared ≠ 0 := by
  obtain ⟨s', hrun, hlive, hflags, hinv⟩ := h.collect hin hF hsh hown hK (.of_flags ho)
  have hroot : c.FieldsRooted env F [] := .of_shared hs fun x hx =>
    h.chain.mem_live (.tail _ (h.chain.onChain.mp hx))
  obtain ⟨L', h'⟩ := hinv hroot
  refine ⟨s', L', hrun, .collect hK (.of_flags ho) hroot hrun, h', fun x => ?_, fun x hx hr => ?_⟩
  · by_cases hl : s'.Live x
    · rw [hflags x _ hl hown, ho]
    · simp [flagsOf_not_live hl]
  · rw [hflags x _ hx hsh]
    exact hs x ((hlive x).mp hx).1 hr

/-- A shared atom, pushed on the free hook in a shared pair, is there after two collections. -/
theorem fields_kept_standard : ∃ (c₀ c₁ c₂ c₃ : Client) (p r slot : Ptr) (s' : Sys),
    Start (.plain fun _ => true) .standard c₀ ∧
    xObjMake (.plain fun _ => true) c₀.root xTypeAtomObj xObjFlagShared [41] c₀.sys =
      .ok p c₁.sys ∧
    Field.heapFree.addr c₀.root c₁.sys = .ok slot c₁.sys ∧
    xObjPushField (.plain fun _ => true) c₀.root slot p xObjFlagShared c₁.sys = .ok r c₂.sys ∧
    collect (.plain fun _ => true) c₀.root xObjFlagMark [c₀.root] [] c₂.sys = .ok () c₃.sys ∧
    c₃.FieldReach (.plain fun _ => true) p ∧ c₃.OnChain p ∧
    collect (.plain fun _ => true) c₀.root xObjFlagMark [c₀.root] [] c₃.sys = .ok () s' ∧
    ∀ q, c₃.FieldReach (.plain fun _ => true) q → s'.Live q := by
  obtain ⟨c₀, p, s₁, L₁, t, hs, hloc, hrun₁, h₁, hp₁, hpr, hfp, hv, hown₁, hshared₁⟩ :=
    exists_fieldAtom xObjFlagShared (by decide) (by decide)
  have hcfg : ∀ v ∈ XBaseT.standard.hooks, v ≠ nil →
      c₀.sys.Walkable (.plain fun _ => true) c₀.root nil v := by
    simp [XBaseT.standard, XBaseT.hooks]
  have hv := hv .heapFree (by decide)
  -- The pair that holds the atom.
  obtain ⟨n, old, d, hn, hu, -⟩ := h₁.tree.nodeSlot .heapFree
  have hslot : Field.heapFree.addr c₀.root s₁ = .ok (slotAddr n 0) s₁ :=
    Field.addr_ok.mpr ⟨n, hn, rfl, rfl⟩
  obtain ⟨q, s₂, -, hq, hrun₂⟩ := (xObjPushField_bare (.plain fun _ => true) p xObjFlagShared
    h₁.bare hu).resolve_left fun hno => by cases hno.1
  obtain ⟨L₂, t₂, k₂, h₂, hfree, hhead⟩ := h₁.pushField (by decide) hv hslot hrun₂
  rw [if_pos rfl] at hfree
  rw [if_neg (by decide)] at hhead
  have hshared₂ : ∀ x, s₂.Live x → x ≠ c₀.root → s₂.flagsOf x &&& xObjFlagShared ≠ 0 :=
    fun x hx hr => by
      by_cases hxq : x = q
      · rw [hxq, hq.flagsOf_new]
        decide
      rw [hq.flagsOf_old hxq]
      by_cases hxp : x = p
      · rw [hxp, hfp]
        decide
      · exact hshared₁ x ((hq.live.mp hx).resolve_left hxq) hr hxp
  -- The first collection.
  obtain ⟨s₃, L₃, hrun₃, hcycle, h₃, hown₃, hshared₃⟩ := h₂.collect_shared Env.plain_inert
    (by decide) (by decide) (by decide) (h₂.rootsReady hhead) (hq.flags_own (by decide) hown₁)
    hshared₂
  have hp₃ : Client.FieldReach (.plain fun _ => true) { c₀ with sys := s₃ } p := by
    rw [← hfree]
    obtain ⟨u, hu⟩ := h₃.hook.resolve_left (by rw [hfree]; exact hp₁.ne_nil)
    exact h₃.reach_hook hu
  have hpc : Client.OnChain { c₀ with sys := s₃ } p := h₃.chain.onChain.mpr
    (h₃.chain.mem_of_live (h₃.reach_live hp₃).1 hpr (hloc ▸ List.not_mem_nil))
  have hr : ReflTransGen (fun c c' => FieldStep (.plain fun _ => true) xObjFlagMark c c' ∨
      FieldCycle (.plain fun _ => true) xObjFlagMark c c') c₀ { c₀ with sys := s₃ } :=
    ((ReflTransGen.single (.inl (.make (by decide) hrun₁))).tail
      (.inl (.push (c := { c₀ with sys := s₁ }) (by decide) hv hslot hrun₂))).tail (.inr hcycle)
  -- The second one.
  obtain ⟨-, s', hrun, hiff⟩ := fields_kept_iff Env.plain_inert (by decide) (by decide) (by decide)
    hs rfl hcfg hr (h₃.rootsReady hhead) (.of_flags hown₃)
  refine ⟨c₀, { c₀ with sys := s₁ }, { c₀ with sys := s₂ }, { c₀ with sys := s₃ }, p, _, _, s', hs,
    hrun₁, hslot, hrun₂, hrun₃, hp₃, hpc, hrun, hiff.mpr (.of_shared hshared₃ fun x hx => ?_)⟩
  exact h₃.chain.mem_live (.tail _ (h₃.chain.onChain.mp hx))

end XExpr
