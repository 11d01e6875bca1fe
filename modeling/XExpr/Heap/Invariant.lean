import XExpr.Heap.Client

/-!
# The heap invariant

* `ChainInv`: the allocation chain from the root base is terminated and passes every object that
  was allocated and not freed once.
* `BaseInv`: what holds of one base: its tree, its hooks, its root chain.
* `HeapInv`: both, for all bases, whose trees and root chains are apart.
* `HeapInv.mono`: a step that leaves the trees and the links of the locals alone keeps the bases.
* `ChainInv.insert`, `ChainInv.filter`: objects linked in behind a base, and a swept chain.
-/

namespace XExpr

open Sys Chain

/-- The objects that were allocated and not freed. -/
def outstanding : List Event → List Ptr
  | [] => []
  | .objAlloc p _ :: tr => p :: outstanding tr
  | .objFree p _ :: tr => (outstanding tr).filter (· ≠ p)
  | .freeHook _ :: tr | .errorHook _ :: tr | .error _ _ :: tr => outstanding tr

theorem outstanding_map_alloc {l : List Ptr} {tr : List Event} :
    outstanding (l.map (fun p => .objAlloc p p) ++ tr) = l ++ outstanding tr := by
  induction l with
  | nil => rfl
  | cons p l ih => exact congrArg (p :: ·) ih

/-- The objects outstanding after some of them were freed. -/
theorem mem_outstanding_free {fn : Word} {addr : Ptr → Ptr} {l : List Ptr} {tr : List Event}
    {q : Ptr} : q ∈ outstanding (l.foldl (fun tr p => freeEvents fn (addr p) p ++ tr) tr) ↔
      q ∈ outstanding tr ∧ q ∉ l := by
  have hone : ∀ (tr : List Event) (a p : Ptr),
      outstanding (freeEvents fn a p ++ tr) = (outstanding tr).filter (· ≠ p) := fun tr a p => by
    unfold freeEvents
    split <;> rfl
  induction l generalizing tr with
  | nil => simp
  | cons p l ih =>
    refine (@ih (freeEvents fn (addr p) p ++ tr)).trans ?_
    rw [hone, List.mem_filter]
    simp only [decide_eq_true_eq, List.mem_cons]
    tauto

/-- The chain from `root` passes the objects `L`; `locals` are the other objects. -/
structure ChainInv (s : Sys) (root : Ptr) (L locals : List Ptr) : Prop where
  chain : Seg s.next (s.next root) L nil
  nodup : (root :: L).Nodup
  live : ∀ q, s.Live q ↔ q ∈ root :: L ∨ q ∈ locals
  apart : ∀ q ∈ locals, q ∉ root :: L
  placed : ∀ q ∈ root :: L, s.block q = some q
  outstanding : ∀ q, q ∈ outstanding s.trace ↔ q ∈ root :: L

/-- What stays the same in a base: its metadata units, its hooks and the head of its root chain. -/
structure Kept where
  extra : Word
  mark : Ptr
  free : Ptr
  head : Ptr

/-- What `x_base_make` sets these to. -/
def Kept.ofCfg (cfg : XBaseT) : Kept := ⟨cfg.objMetaExtra, cfg.heapMark, cfg.heapFree, nil⟩

/-- The cells that the library depends on. -/
def Kept.cell (k : Kept) : Field → Layout Word
  | .objMetaExtra => cellInt (some k.extra)
  | .allocCount => cellInt none
  | .heapMark => cellObj (some k.mark)
  | .heapFree => cellObj (some k.free)
  | .heapRootChain => cellObj (some k.head)
  | _ => anyWord

theorem XBaseT.cell_relaxes (cfg : XBaseT) (f : Field) :
    (cfg.cell f).relaxes ((Kept.ofCfg cfg).cell f) := by
  cases f <;>
    simp [XBaseT.cell, Kept.cell, Kept.ofCfg, cellObj, cellInt, XBaseT.pair, XBaseT.atom,
      XBaseT.val, anyWord, Layout.relaxes]

/-- The base `b` with the tree `t`, on whose root chain `K` are registered. -/
structure BaseInv (s : Sys) (locals : List Ptr) (b : Ptr) (t : Cells Word) (k : Kept)
    (K : List Ptr) : Prop where
  tree : BaseTree s b t k.cell
  typed : s.typeOf b ≠ nil → k.extra = 0
  shared : ∀ q ∈ t.nodes, s.flagsOf q &&& xObjFlagShared ≠ 0
  mark : s.Hook locals k.mark
  free : s.Hook locals k.free
  roots : Seg s.next k.head K nil
  nodup : K.Nodup
  subset : K ⊆ locals

/-- The invariant of a run, with the chain `L`, and the tree of each base. -/
structure HeapInv (c : Client) (L : List Ptr) (t : Ptr → Cells Word) (k : Ptr → Kept) :
    Prop where
  chain : ChainInv c.sys c.root L c.locals
  root_mem : c.root ∈ c.bases
  bases : c.bases ⊆ c.root :: L
  base : ∀ b ∈ c.bases, BaseInv c.sys c.locals b (t b) (k b) (c.roots b)
  nodes : ∀ b ∈ c.bases, (t b).nodes ⊆ L
  apart : ∀ b ∈ c.bases, ∀ b' ∈ c.bases, b ≠ b' → (t b).nodes.Disjoint (t b').nodes
  no_node : ∀ b ∈ c.bases, ∀ b' ∈ c.bases, b ∉ (t b').nodes
  roots_apart : ∀ b ∈ c.bases, ∀ b' ∈ c.bases, b ≠ b' → (c.roots b).Disjoint (c.roots b')

/-! ## The chain -/

/-- The root base is not behind another object of the chain. -/
theorem behind_subset {root b : Ptr} {L l₁ l₂ : List Ptr} (he : root :: L = l₁ ++ b :: l₂) :
    l₂ ⊆ L := by
  rcases l₁ with _ | ⟨x, l₁⟩
  · rw [(List.cons.inj he).2]
    exact List.Subset.refl _
  · rw [(List.cons.inj he).2]
    exact fun q hq => List.mem_append_right _ (.tail _ hq)

namespace ChainInv

variable {s s' : Sys} {root b q : Ptr} {L locals new : List Ptr}

theorem mem_live (h : ChainInv s root L locals) (hq : q ∈ root :: L) : s.Live q :=
  (h.live q).mpr (.inl hq)

theorem local_live (h : ChainInv s root L locals) (hq : q ∈ locals) : s.Live q :=
  (h.live q).mpr (.inr hq)

theorem mem_of_live (h : ChainInv s root L locals) (hl : s.Live q) (hr : q ≠ root)
    (hq : q ∉ locals) : q ∈ L :=
  (List.mem_cons.mp (((h.live q).mp hl).resolve_right hq)).resolve_left hr

/-- A step that leaves the objects, their links and blocks alone. -/
theorem mono (h : ChainInv s root L locals) (hlive : ∀ q, s'.Live q ↔ s.Live q)
    (hnext : ∀ q ∈ root :: L, s'.next q = s.next q)
    (hblock : ∀ q, q ∈ root :: L → s.block q = some q → s'.block q = some q)
    (hout : ∀ q, q ∈ XExpr.outstanding s'.trace ↔ q ∈ XExpr.outstanding s.trace) :
    ChainInv s' root L locals where
  chain := by
    rw [hnext root (.head _)]
    exact h.chain.congr fun q hq => hnext q (.tail _ hq)
  nodup := h.nodup
  live q := by rw [hlive, h.live]
  apart := h.apart
  placed q hq := hblock q hq (h.placed q hq)
  outstanding q := by rw [hout, h.outstanding]

/-- Where the base `b` stands in the chain. -/
theorem split (h : ChainInv s root L locals) (hb : b ∈ root :: L) :
    ∃ l₁ l₂, root :: L = l₁ ++ b :: l₂ ∧ l₂ ⊆ L ∧ Seg s.next (s.next b) l₂ nil := by
  have hseg : Seg s.next root (root :: L) nil := ⟨rfl, h.chain⟩
  obtain ⟨l₁, l₂, he, -, hs⟩ := hseg.split hb
  exact ⟨l₁, l₂, he, behind_subset he, hs⟩

/-- New objects linked in behind `b`. -/
theorem insert (h : ChainInv s root L locals) (hb : b ∈ root :: L)
    (hchain : Seg s'.next (s'.next b) new (s.next b)) (hnodup : new.Nodup)
    (hfresh : ∀ q ∈ new, ¬ s.Live q) (hlive : ∀ q, s'.Live q ↔ q ∈ new ∨ s.Live q)
    (hnext : ∀ q, s.Live q → q ≠ b → s'.next q = s.next q)
    (hblock : ∀ q, s.Live q → s.block q = some q → s'.block q = some q)
    (hplaced : ∀ q ∈ new, s'.block q = some q)
    (hout : ∀ q, q ∈ XExpr.outstanding s'.trace ↔ q ∈ new ∨ q ∈ XExpr.outstanding s.trace) :
    ∃ L', ChainInv s' root L' locals ∧ ∀ q, q ∈ L' ↔ q ∈ new ∨ q ∈ L := by
  have hseg : Seg s.next root (root :: L) nil := ⟨rfl, h.chain⟩
  obtain ⟨l₁, l₂, he⟩ := List.append_of_mem hb
  rw [he] at hseg
  have hn : (l₁ ++ b :: l₂).Nodup := he ▸ h.nodup
  have hbl : ∀ q ∈ l₁ ++ l₂, s.Live q ∧ q ≠ b := fun q hq => by
    refine ⟨h.mem_live ?_, ?_⟩
    · rw [he]
      rcases List.mem_append.mp hq with hq | hq
      · exact List.mem_append_left _ hq
      · exact List.mem_append_right _ (.tail _ hq)
    · rintro rfl
      exact (List.nodup_cons.mp (List.nodup_middle.mp hn)).1 hq
  have hseg' : Seg s'.next root (l₁ ++ b :: (new ++ l₂)) nil :=
    hseg.insert (fun q hq => hnext q (hbl q hq).1 (hbl q hq).2) hchain
  obtain ⟨L', hL'⟩ : ∃ L', l₁ ++ b :: (new ++ l₂) = root :: L' := by
    rcases l₁ with _ | ⟨x, l₁⟩
    · exact ⟨_, by rw [List.nil_append, (List.cons.inj he).1]⟩
    · exact ⟨_, by rw [List.cons_append, (List.cons.inj he).1]⟩
  have hmem : ∀ q, q ∈ root :: L' ↔ q ∈ new ∨ q ∈ root :: L := fun q => by
    rw [← hL', he]
    simp only [List.mem_append, List.mem_cons]
    tauto
  have hrl : ∀ q ∈ root :: L, q ∉ new := fun q hq hm => hfresh q hm (h.mem_live hq)
  have hnodup' : (root :: L').Nodup := by
    rw [← hL']
    simp only [List.nodup_append, List.nodup_cons, List.mem_cons, List.mem_append] at hn ⊢
    rw [he] at hrl
    simp only [List.mem_append, List.mem_cons] at hrl
    grind
  have hL : ∀ q, q ∈ L' ↔ q ∈ new ∨ q ∈ L := fun q => by
    have hm := hmem q
    simp only [List.mem_cons] at hm
    by_cases hq : q = root
    · subst hq
      have h₁ := (List.nodup_cons.mp hnodup').1
      have h₂ := (List.nodup_cons.mp h.nodup).1
      have h₃ := hrl q (.head _)
      tauto
    · tauto
  refine ⟨L', ⟨?_, hnodup', fun q => ?_, fun q hq => ?_, fun q hq => ?_, fun q => ?_⟩, hL⟩
  · rw [hL'] at hseg'
    exact hseg'.2
  · rw [hlive, h.live, hmem, or_assoc]
  · rw [hmem, not_or]
    exact ⟨fun hm => hfresh q hm (h.local_live hq), h.apart q hq⟩
  · rcases (hmem q).mp hq with hq | hq
    · exact hplaced q hq
    · exact hblock q (h.mem_live hq) (h.placed q hq)
  · rw [hout, h.outstanding, hmem]

/-- One more object off the chain. -/
theorem newLocal {p : Ptr} {o : Obj} (h : ChainInv s root L locals) (hn : nil < p)
    (hp : ¬ s.Live p) : ChainInv (s.place p o) root L (p :: locals) := by
  have hnext : ∀ q, s.Live q → (s.place p o).next q = s.next q := fun q hq => by
    have hqp : q ≠ p := fun e => hp (e ▸ hq)
    rw [next_place hn, if_neg hqp]
  refine ⟨?_, h.nodup, fun q => ?_, fun q hq => ?_, fun q hq => ?_, fun q => ?_⟩
  · rw [hnext _ (h.mem_live (.head _))]
    exact h.chain.congr fun q hq => hnext q (h.mem_live (.tail _ hq))
  · rw [live_place hn, h.live]
    simp only [List.mem_cons]
    tauto
  · rcases List.mem_cons.mp hq with rfl | hq
    · exact fun hm => hp (h.mem_live hm)
    · exact h.apart q hq
  · rw [block_place]
    exact h.placed q hq
  · rw [show (s.place p o).trace = s.trace from trace_place]
    exact h.outstanding q

/-- An object made behind `b`. -/
theorem made {ty p a : Ptr} {fl : Flags} {data : List Word} (h : ChainInv s root L locals)
    (hb : b ∈ root :: L) (hx : s.extraOf b = 0) (hm : Made s b ty fl data p a s') :
    ∃ L', ChainInv s' root L' locals ∧ ∀ q, q ∈ L' ↔ q = p ∨ q ∈ L := by
  have hbl := h.mem_live hb
  have hap : a = p := by
    have := hm.addr
    rw [hx] at this
    simpa using this.symm
  have hold : ∀ q, s.Live q → q ≠ p := fun q hq e => hm.new (e ▸ hq)
  simp only [← List.mem_singleton (b := p)]
  refine h.insert hb ?_ (List.nodup_singleton p) ?_ ?_ ?_ ?_ ?_ ?_
  · rw [hm.next_old b hbl, if_pos rfl]
    exact ⟨rfl, hm.next_new⟩
  · intro q hq
    rw [List.mem_singleton.mp hq]
    exact hm.new
  · intro q
    rw [hm.live, List.mem_singleton]
  · intro q hq hqb
    rw [hm.next_old q hq, if_neg hqb]
  · intro q hq hq'
    rwa [hm.block, hap, if_neg (hold q hq)]
  · intro q hq
    rw [List.mem_singleton.mp hq, hm.block, hap, if_pos rfl]
  · intro q
    rw [hm.trace]
    simp [XExpr.outstanding]

/-- The objects of a base made behind `b`. -/
theorem baseMade {env : Env} {cfg : XBaseT} {p a : Ptr} {t : Cells Word}
    (h : ChainInv s root L locals) (hb : b ∈ root :: L) (hx : s.extraOf b = 0)
    (hm : BaseMade env s b cfg p a new t s') :
    ∃ L', ChainInv s' root L' locals ∧ ∀ q, q ∈ L' ↔ q ∈ p :: new ∨ q ∈ L := by
  obtain rfl : p = a := (hm.addr hx).symm
  have hold : ∀ q ∈ p :: new, ¬ s.Live q := fun q hq => (hm.fresh q hq).2
  refine h.insert hb (hm.chain (h.mem_live hb).ne_nil) hm.nodup hold hm.live
    (fun q hq hqb => hm.next_old hq hqb) (fun q hq hq' => ?_) (fun q hq => ?_) fun q => ?_
  · have hqp : q ≠ p := fun e => hm.new_base (e ▸ hq)
    have hqn : q ∉ new := fun hn => hold q (.tail _ hn) hq
    rwa [hm.block, if_neg hqn, if_neg hqp]
  · rw [hm.block]
    rcases List.mem_cons.mp hq with rfl | hq
    · rw [if_neg (List.nodup_cons.mp hm.nodup).1, if_pos rfl]
    · rw [if_pos hq]
  · rw [hm.trace, outstanding_map_alloc]
    simp only [XExpr.outstanding, List.mem_append, List.mem_cons]
    tauto

end ChainInv

/-! ## The bases -/

/-- Every path that the tree fixes is one that the library follows. -/
theorem pins_guarded (k : Kept) : ∀ π ∈ (Layout.atom (skeleton k.cell)).pins,
    ∃ ρ ∈ guardPaths, π <+: ρ := by
  have e : (Layout.atom (skeleton k.cell)).pins =
    (Layout.atom (skeleton (Kept.cell ⟨0, 0, 0, 0⟩))).pins := rfl
  rw [e]
  decide

/-- The units that the tree fixes are guarded. -/
theorem BaseTree.mem_guarded {s : Sys} {b p : Ptr} {t : Cells Word} {k : Kept} {i : Nat}
    (h : BaseTree s b t k.cell) (hf : (p, i) ∈ (Cells.atom b t).fixed) : (p, i) ∈ s.guarded b := by
  obtain ⟨π, hπ, hw⟩ := h.fits.walk_fixed hf
  rw [Cells.layout, h.layout] at hπ
  obtain ⟨ρ, hρ, r, rfl⟩ := pins_guarded k π hπ
  exact List.mem_flatMap.mpr ⟨_, hρ, Mem.walk_subset_append hw⟩

section BaseInv

variable {s s' : Sys} {b p : Ptr} {t : Cells Word} {k : Kept} {K locals locals' : List Ptr}

theorem Sys.Hook.mono (h : s.Hook locals p) (hl : locals ⊆ locals')
    (hread : ∀ q ∈ locals, ∀ w, s.unit q 0 = some w → ∃ w', s'.unit q 0 = some w') :
    s'.Hook locals' p :=
  h.imp id fun ⟨hp, w, hw⟩ => ⟨hl hp, hread p hp w hw⟩

/-- A step that leaves the tree of the base and the links of the registered objects alone. -/
theorem BaseInv.mono (h : BaseInv s locals b t k K) (htree : BaseTree s' b t k.cell)
    (htyped : s'.typeOf b ≠ nil → k.extra = 0)
    (hshared : ∀ q ∈ t.nodes, s'.flagsOf q &&& xObjFlagShared ≠ 0)
    (hl : locals ⊆ locals') (hnext : ∀ q ∈ K, s'.next q = s.next q)
    (hread : ∀ q ∈ locals, ∀ w, s.unit q 0 = some w → ∃ w', s'.unit q 0 = some w') :
    BaseInv s' locals' b t k K where
  tree := htree
  typed := htyped
  shared := hshared
  mark := h.mark.mono hl hread
  free := h.free.mono hl hread
  roots := h.roots.congr hnext
  nodup := h.nodup
  subset := List.Subset.trans h.subset hl

end BaseInv

namespace HeapInv

variable {env : Env} {c : Client} {L : List Ptr} {t : Ptr → Cells Word} {k : Ptr → Kept}
  {s' : Sys} {b p q a : Ptr}

theorem base_live (h : HeapInv c L t k) (hb : b ∈ c.bases) : c.sys.Live b :=
  h.chain.mem_live (h.bases hb)

theorem node_live (h : HeapInv c L t k) (hb : b ∈ c.bases) (hq : q ∈ (t b).nodes) :
    c.sys.Live q := h.chain.mem_live (.tail _ (h.nodes b hb hq))

/-- Bases and nodes are on the chain. -/
theorem tree_mem (h : HeapInv c L t k) (hb : b ∈ c.bases) (hq : q ∈ b :: (t b).nodes) :
    q ∈ c.root :: L := by
  rcases List.mem_cons.mp hq with rfl | hq
  · exact h.bases hb
  · exact .tail _ (h.nodes b hb hq)

/-- No base has extra metadata units that count. -/
theorem extraOf (h : HeapInv c L t k) (hb : b ∈ c.bases) : c.sys.extraOf b = 0 := by
  unfold Sys.extraOf
  split
  · next hf =>
    have hx := (h.base b hb).tree.fieldInt (f := .objMetaExtra) rfl
    rw [hx, (h.base b hb).typed hf.1]
    rfl
  · rfl

/-- A step that makes and frees no object and leaves guarded units alone. -/
theorem still (h : HeapInv c L t k) (hlive : ∀ q, s'.Live q ↔ c.sys.Live q)
    (hnext : ∀ q, s'.next q = c.sys.next q)
    (hblock : ∀ q, c.sys.block q = some q → s'.block q = some q)
    (htrace : s'.trace = c.sys.trace) (htyped : ∀ b ∈ c.bases, s'.typeOf b ≠ nil → (k b).extra = 0)
    (hshared : ∀ q ∈ L, c.sys.flagsOf q &&& xObjFlagShared ≠ 0 →
      s'.flagsOf q &&& xObjFlagShared ≠ 0)
    (hunit : ∀ q i w, c.sys.unit q i = some w → ∃ w', s'.unit q i = some w' ∧
      ((∃ b ∈ c.bases, (q, i) ∈ c.sys.guarded b) → w' = w)) :
    HeapInv { c with sys := s' } L t k where
  chain := h.chain.mono hlive (fun q _ => hnext q) (fun q _ => hblock q) fun q => by
    change q ∈ XExpr.outstanding s'.trace ↔ _
    rw [htrace]
  root_mem := h.root_mem
  bases := h.bases
  base b hb := by
    have hbase := h.base b hb
    refine hbase.mono ?_ (htyped b hb) ?_ (List.Subset.refl _) (fun q _ => hnext q) ?_
    · refine hbase.tree.mono fun q _ i u hu => ?_
      obtain ⟨u', hu', hg⟩ := hunit q i u hu
      exact ⟨u', hu', fun hf => hg ⟨b, hb, hbase.tree.mem_guarded hf⟩⟩
    · exact fun q hq => hshared q (h.nodes b hb hq) (hbase.shared q hq)
    · intro q _ w hw
      obtain ⟨w', hw', -⟩ := hunit q 0 w hw
      exact ⟨w', hw'⟩
  nodes := h.nodes
  apart := h.apart
  no_node := h.no_node
  roots_apart := h.roots_apart

/-- A step that changes flags only, and keeps the shared ones. -/
theorem flags (h : HeapInv c L t k) (hsame : c.sys.SameButFlags s')
    (hblock : s'.blocks = c.sys.blocks) (htrace : s'.trace = c.sys.trace)
    (hshared : ∀ q ∈ L, c.sys.flagsOf q &&& xObjFlagShared ≠ 0 →
      s'.flagsOf q &&& xObjFlagShared ≠ 0) :
    HeapInv { c with sys := s' } L t k := by
  refine h.still (fun q => hsame.live) (fun q => hsame.next) (fun q hq => ?_) htrace
    (fun b hb ht => (h.base b hb).typed ?_) hshared fun q i w hw => ⟨w, ?_, fun _ => rfl⟩
  · rw [block, hblock]; exact hq
  · rwa [← hsame.typeOf]
  · rw [hsame.unit, hw]

theorem marked {F : Flags} {A : Set Ptr} (h : HeapInv c L t k) (hm : Marked c.sys F A s') :
    HeapInv { c with sys := s' } L t k := by
  refine h.flags hm.same hm.block hm.trace fun q hq hs => ?_
  by_cases hA : q ∈ A
  · rw [hm.flags_mem q hA (h.chain.mem_live (.tail _ hq))]
    exact Flags.or_and_ne_zero hs
  · rwa [hm.flags_notMem q hA]

theorem cleared {F : Flags} {l : List Ptr} (h : HeapInv c L t k) (hc : Cleared c.sys F l s')
    (hF : F &&& xObjFlagShared = 0 ∨ l.Disjoint L) : HeapInv { c with sys := s' } L t k := by
  refine h.flags hc.same hc.block hc.trace fun q hq hs => ?_
  by_cases hl : q ∈ l
  · have hF := hF.resolve_right fun hd => hd hl hq
    rwa [hc.flags_mem q hl, Flags.clear_and hF]
  · rwa [hc.flags_notMem q hl]

theorem request (h : HeapInv c L t k) : HeapInv { c with sys := c.sys.request } L t k :=
  h.flags (.refl _) rfl rfl fun _ _ => id

theorem setType {ty : Ptr} (h : HeapInv c L t k) (hp : c.sys.Live p)
    (hx : p ∈ c.bases → c.sys.fieldInt p .objMetaExtra = some 0) :
    HeapInv { c with sys := c.sys.setType p ty } L t k := by
  refine h.still (fun q => live_setType) (fun q => next_setType) (fun q hq => ?_) trace_modify
    (fun b hb ht => ?_) (fun q _ hs => ?_) fun q i w hw => ⟨w, ?_, fun _ => rfl⟩
  · rwa [block_setType]
  · rw [typeOf_setType hp] at ht
    split at ht
    · next e =>
      subst e
      have hx' := (h.base b hb).tree.fieldInt (f := .objMetaExtra) rfl
      exact Option.some.inj (hx'.symm.trans (hx hb))
    · exact (h.base b hb).typed ht
  · rwa [flagsOf_setType]
  · rwa [unit_setType]

theorem write {i : Nat} {v w : Word} (h : HeapInv c L t k) (hv : c.sys.unit p i = some v)
    (hg : ∀ b ∈ c.bases, (p, i) ∉ c.sys.guarded b) :
    HeapInv { c with sys := c.sys.setUnit p i w } L t k := by
  refine h.still (fun q => live_setUnit) (fun q => next_setUnit) (fun q hq => ?_) trace_modify
    (fun b hb ht => (h.base b hb).typed ?_) (fun q _ hs => ?_) fun q j u hu => ?_
  · rwa [block_setUnit]
  · rwa [typeOf_setUnit] at ht
  · rwa [flagsOf_setUnit]
  · rw [unit_setUnit hv]
    by_cases hq : q = p ∧ j = i
    · rw [if_pos hq]
      exact ⟨w, rfl, fun ⟨b, hb, hg'⟩ => absurd (hq.1 ▸ hq.2 ▸ hg') (hg b hb)⟩
    · rw [if_neg hq]
      exact ⟨u, hu, fun _ => rfl⟩

theorem setBlock (h : HeapInv c L t k) (ha : c.sys.block a = none) :
    HeapInv { c with sys := c.sys.request.setBlock a nil } L t k := by
  refine h.still (fun q => Iff.rfl) (fun q => rfl) (fun q hq => ?_) rfl
    (fun b hb => (h.base b hb).typed) (fun q _ hs => hs) fun q i w hw => ⟨w, hw, fun _ => rfl⟩
  have hqa : q ≠ a := fun e => by rw [e, ha] at hq; cases hq
  rwa [block_setBlock, if_neg hqa]

/-- The count of a base may change. -/
theorem tree_count {d : Int} (h : HeapInv c L t k) (hb : c.sys.Full b → b ∈ c.bases)
    (hq : q ∈ c.bases)
    (hunit : ∀ p ∈ q :: (t q).nodes, ∀ i, s'.unit p i =
      if c.sys.Full b ∧ c.sys.fieldObj b .allocCount = some p ∧ i = 0 then
        (c.sys.unit p 0).map (· + d)
      else c.sys.unit p i) :
    BaseTree s' q (t q) (k q).cell := by
  have htree := (h.base q hq).tree
  by_cases hf : c.sys.Full b
  · by_cases hqb : q = b
    · subst hqb
      refine htree.count (g := (· + d)) rfl fun p hp i => ?_
      rw [hunit p hp i]
      simp only [hf, true_and]
    · -- The count of `b` is a node of another tree.
      obtain ⟨a, -, ha, hmem, -⟩ := (h.base b (hb hf)).tree.fieldAtom (f := .allocCount) rfl
      refine htree.congr fun p hp i u hu => ?_
      rw [hunit p hp i, if_neg, hu]
      rintro ⟨-, hc, -⟩
      obtain rfl : a = p := Option.some.inj (ha.symm.trans hc)
      rcases List.mem_cons.mp hp with rfl | hp
      · exact h.no_node _ hq b (hb hf) hmem
      · exact h.apart b (hb hf) q hq (Ne.symm hqb) hmem hp
  · refine htree.congr fun p hp i u hu => ?_
    rw [hunit p hp i, if_neg fun h => hf h.1, hu]

/-- New objects behind the object `b`, which is no full base or a base of the client. -/
theorem extend {L' : List Ptr} {d : Int} (h : HeapInv c L t k)
    (hc : ChainInv s' c.root L' c.locals) (hL : ∀ q ∈ L, q ∈ L') (hbL : b ∈ c.root :: L)
    (hb : c.sys.Full b → b ∈ c.bases)
    (hnext : ∀ q, c.sys.Live q → q ≠ b → s'.next q = c.sys.next q)
    (htype : ∀ q, c.sys.Live q → s'.typeOf q = c.sys.typeOf q)
    (hflags : ∀ q, c.sys.Live q → s'.flagsOf q = c.sys.flagsOf q)
    (hunit : ∀ p i, c.sys.Live p → s'.unit p i =
      if c.sys.Full b ∧ c.sys.fieldObj b .allocCount = some p ∧ i = 0 then
        (c.sys.unit p 0).map (· + d)
      else c.sys.unit p i) :
    HeapInv { c with sys := s' } L' t k := by
  have hlocal : ∀ q ∈ c.locals, q ≠ b := fun q hq e => h.chain.apart q hq (e ▸ hbL)
  refine ⟨hc, h.root_mem, fun q hq => ?_, fun q hq => ?_, fun q hq p hp => ?_, h.apart,
    h.no_node, h.roots_apart⟩
  · rcases List.mem_cons.mp (h.bases hq) with e | hm
    · exact e ▸ .head _
    · exact .tail _ (hL q hm)
  · have hbase := h.base q hq
    have htree : BaseTree s' q (t q) (k q).cell := h.tree_count hb hq fun p hp i =>
      hunit p i (h.chain.mem_live (h.tree_mem hq hp))
    refine hbase.mono htree (fun ht => hbase.typed ?_) (fun p hp => ?_) (List.Subset.refl _)
      (fun p hp => ?_) fun p hp w hw => ?_
    · rwa [← htype q (h.base_live hq)]
    · rw [hflags p (h.node_live hq hp)]
      exact hbase.shared p hp
    · have hp := hbase.subset hp
      exact hnext p (h.chain.local_live hp) (hlocal p hp)
    · rw [hunit p 0 (h.chain.local_live hp)]
      split
      · exact ⟨w + d, by rw [hw]; rfl⟩
      · exact ⟨w, hw⟩
  · exact hL p (h.nodes q hq hp)

/-- An object made behind `b`. -/
theorem made {ty : Ptr} {fl : Flags} {data : List Word} (h : HeapInv c L t k)
    (hbL : b ∈ c.root :: L) (hb : c.sys.Full b → b ∈ c.bases)
    (hm : Made c.sys b ty fl data p a s') :
    ∃ L', HeapInv { c with sys := s' } L' t k ∧ ∀ q, q ∈ L' ↔ q = p ∨ q ∈ L := by
  have hx : c.sys.extraOf b = 0 := by
    by_cases hf : c.sys.Full b
    · exact h.extraOf (hb hf)
    · exact extraOf_of_not_full hf
  have hold : ∀ q, c.sys.Live q → q ≠ p := fun q hq e => hm.new (e ▸ hq)
  obtain ⟨L', hc, hL⟩ := h.chain.made hbL hx hm
  refine ⟨L', h.extend (d := 1) hc (fun q hq => (hL q).mpr (.inr hq)) hbL hb (fun q hq hqb => ?_)
    (fun q hq => hm.typeOf_old q (hold q hq)) (fun q hq => hm.flagsOf_old q (hold q hq))
    fun q i hq => hm.unit_old q i (hold q hq), hL⟩
  rw [hm.next_old q hq, if_neg hqb]

/-- One more base, whose tree is apart from the others. -/
theorem cons {d : Cells Word} {kp : Kept} (h : HeapInv c L t k) (hp : p ∈ L)
    (hbase : BaseInv c.sys c.locals p d kp []) (hd : d.nodes ⊆ L) (hnew : p ∉ c.bases)
    (hpn : ∀ q ∈ c.bases, p ∉ (t q).nodes) (hdb : ∀ q ∈ c.bases, q ∉ d.nodes)
    (hdn : ∀ q ∈ c.bases, (t q).nodes.Disjoint d.nodes) :
    HeapInv { c with bases := p :: c.bases, roots := Function.update c.roots p [] } L
      (Function.update t p d) (Function.update k p kp) := by
  have hne : ∀ q ∈ c.bases, q ≠ p := fun q hq e => hnew (e ▸ hq)
  constructor
  case chain => exact h.chain
  case root_mem => exact .tail _ h.root_mem
  case bases => exact List.cons_subset.mpr ⟨.tail _ hp, h.bases⟩
  case base =>
    intro q hq
    rcases List.mem_cons.mp hq with rfl | hq'
    · simpa using hbase
    · simpa [Function.update_of_ne (hne q hq')] using h.base q hq'
  case nodes =>
    intro q hq
    rcases List.mem_cons.mp hq with rfl | hq'
    · simpa using hd
    · simpa [Function.update_of_ne (hne q hq')] using h.nodes q hq'
  case apart =>
    intro q hq r hr hqr
    rcases List.mem_cons.mp hq with rfl | hq' <;> rcases List.mem_cons.mp hr with rfl | hr'
    · exact absurd rfl hqr
    · simpa [Function.update_of_ne (hne r hr')] using (hdn r hr').symm
    · simpa [Function.update_of_ne (hne q hq')] using hdn q hq'
    · simpa [Function.update_of_ne (hne q hq'), Function.update_of_ne (hne r hr')] using
        h.apart q hq' r hr' hqr
  case no_node =>
    intro q hq r hr
    rcases List.mem_cons.mp hr with rfl | hr'
    · rw [Function.update_self]
      rcases List.mem_cons.mp hq with rfl | hq'
      · exact (List.nodup_cons.mp hbase.tree.nodup).1
      · exact hdb q hq'
    · rw [Function.update_of_ne (hne r hr')]
      rcases List.mem_cons.mp hq with rfl | hq'
      · exact hpn r hr'
      · exact h.no_node q hq' r hr'
  case roots_apart =>
    intro q hq r hr hqr
    rcases List.mem_cons.mp hq with rfl | hq' <;> rcases List.mem_cons.mp hr with rfl | hr'
    · exact absurd rfl hqr
    · simp
    · simp
    · simpa [Function.update_of_ne (hne q hq'), Function.update_of_ne (hne r hr')] using
        h.roots_apart q hq' r hr' hqr

/-- The objects of a new base, which is not one of the client's bases yet. -/
theorem linked {cfg : XBaseT} {new : List Ptr} {t₀ : Cells Word} (h : HeapInv c L t k)
    (hb : b ∈ c.bases) (hm : BaseMade env c.sys b cfg p a new t₀ s') :
    ∃ L', HeapInv { c with sys := s' } L' t k ∧ ∀ q, q ∈ L' ↔ q ∈ p :: new ∨ q ∈ L := by
  obtain ⟨L', hc, hL⟩ := h.chain.baseMade (h.bases hb) (h.extraOf hb) hm
  exact ⟨L', h.extend (d := 1) hc (fun q hq => (hL q).mpr (.inr hq)) (h.bases hb) (fun _ => hb)
    (fun q hq hqb => hm.next_old hq hqb) (fun q hq => hm.typeOf_old hq)
    (fun q hq => hm.flagsOf_old hq) fun q i hq => hm.unit_old hq, hL⟩

/-- A new base. -/
theorem baseMade {cfg : XBaseT} {new : List Ptr} {t₀ : Cells Word} (h : HeapInv c L t k)
    (hb : b ∈ c.bases) (hm : BaseMade env c.sys b cfg p a new t₀ s')
    (hg : env.malloc.GrantsFrom c.sys.requests 56) (hmark : c.sys.Hook c.locals cfg.heapMark)
    (hfree : c.sys.Hook c.locals cfg.heapFree) :
    ∃ L' t' k', HeapInv { c with
        sys := s', bases := p :: c.bases, roots := Function.update c.roots p [] } L' t' k' ∧
      ∀ q, q ∈ L' ↔ q ∈ p :: new ∨ q ∈ L := by
  have hold : ∀ q ∈ p :: new, ¬ c.sys.Live q := fun q hq => (hm.fresh q hq).2
  have hread : ∀ q ∈ c.locals, ∀ w, c.sys.unit q 0 = some w → ∃ w', s'.unit q 0 = some w' := by
    intro q hq w hw
    rw [hm.unit_old (h.chain.local_live hq)]
    split
    · exact ⟨w + 1, by rw [hw]; rfl⟩
    · exact ⟨w, hw⟩
  obtain ⟨L', hi, hL⟩ := h.linked hb hm
  obtain ⟨d₀, hd₀, hsub₀, -⟩ := hm.baseTree ((Malloc.grantsFrom_add (n := 1) (k := 55)).mp hg).2
  obtain ⟨d, hd, hsub₁, -⟩ := hd₀.relax cfg.cell_relaxes
  have hsub : d.nodes ⊆ new := List.Subset.trans hsub₁ hsub₀
  have hnew : ∀ x ∈ d.nodes, ¬ c.sys.Live x := fun x hx => hold x (.tail _ (hsub hx))
  have hbase : BaseInv s' c.locals p d (Kept.ofCfg cfg) [] := by
    refine ⟨hd, fun ht => absurd hm.typeOf_base ht, fun q hq => ?_,
      hmark.mono (List.Subset.refl _) hread, hfree.mono (List.Subset.refl _) hread, rfl, .nil,
      List.nil_subset _⟩
    rw [hm.flagsOf_new (hsub hq)]
    decide
  refine ⟨L', _, _, hi.cons ((hL p).mpr (.inl (.head _))) hbase ?_ ?_ ?_ ?_ ?_, hL⟩
  · exact fun q hq => (hL q).mpr (.inl (.tail _ (hsub hq)))
  · exact fun hb => hm.new_base (h.base_live hb)
  · exact fun q hq hn => hm.new_base (h.node_live hq hn)
  · exact fun q hq hn => hnew q hn (h.base_live hq)
  · exact fun q hq x hx hn => hnew x hn (h.node_live hq hx)

end HeapInv

end XExpr
