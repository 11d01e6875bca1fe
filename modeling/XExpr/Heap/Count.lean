import XExpr.Heap.Limit

/-!
# The object count

`x_obj_alloc` counts an object up when its base is full, and `x_obj_free` counts it down when its
base is full then. An object that was allocated before the base got its type and is freed
afterwards is counted down only.

* `Tally`: a heap with one base, and the objects that were counted up and are still there.
* `TallyStep`: allocation, marks, the type of the base, and sweeps.
* `TallyInv.sweep`: a sweep leaves the count right if and only if it frees no object that was
  not counted.
* `count_iff`: so the count is right in every run in which no sweep does.
-/

namespace XExpr

open Sys Chain Relation

/-- A heap with one base. `counted` are the objects that were allocated since the base is full, and
not freed. -/
structure Tally where
  sys : Sys
  base : Ptr
  counted : List Ptr

namespace Tally

/-- The objects that count after `p` was allocated. -/
def add (c : Tally) (p : Ptr) : List Ptr :=
  if c.sys.Full c.base ∧ p ≠ nil then p :: c.counted else c.counted

/-- The count of the base is the number of these objects. -/
def Accurate (c : Tally) : Prop :=
  c.sys.fieldInt c.base .allocCount = some (c.counted.length : Int)

/-- A sweep with `F` frees none but counted objects, if the base is full. -/
def Clean (c : Tally) (F : Flags) : Prop := c.sys.Full c.base →
  ∀ p ∈ outstanding c.sys.trace, p ≠ c.base → c.sys.kept F p = false → p ∈ c.counted

end Tally

/-- What a program does with the base. Sweeps are made under the condition `ok`. -/
inductive TallyStep (env : Env) (ok : Tally → Flags → Prop) : Tally → Tally → Prop
  | alloc {c : Tally} {t p : Ptr} {fl : Flags} {units : Nat} {s' : Sys}
      (hfl : fl &&& xObjFlagMeta = 0) (h : xObjAlloc env c.base t fl units c.sys = .ok p s') :
      TallyStep env ok c { c with sys := s', counted := c.add p }
  | make {c : Tally} {t p : Ptr} {fl : Flags} {data : List Word} {s' : Sys}
      (hfl : fl &&& xObjFlagMeta = 0) (h : xObjMake env c.base t fl data c.sys = .ok p s') :
      TallyStep env ok c { c with sys := s', counted := c.add p }
  | mark {c : Tally} {s' : Sys} (h : c.sys.Remarked s') : TallyStep env ok c { c with sys := s' }
  /-- A block that is no object. -/
  | malloc {c : Tally} {a : Ptr} {size : Nat} {s' : Sys}
      (h : xSysMalloc env size c.sys = .ok a s') : TallyStep env ok c { c with sys := s' }
  /-- The base gets its type. -/
  | setType {c : Tally} {t : Ptr} {s' : Sys} (ht : c.sys.typeOf c.base = nil)
      (h : setXObjType c.base t c.sys = .ok () s') : TallyStep env ok c { c with sys := s' }
  | sweep {c : Tally} {r : Ptr} {F : Flags} {s' : Sys} (hF : F &&& xObjFlagShared = 0)
      (hM : F &&& xObjFlagMeta = 0) (ho : OwnApart c.sys c.sys.collectable) (hok : ok c F)
      (h : xHeapSweep env c.base (c.sys.next c.base) F c.sys = .ok r s') :
      TallyStep env ok c
        { c with sys := s', counted := c.counted.filter fun p => decide (s'.Live p) }

section Count

variable {env : Env} {cfg : XBaseT} {c c' : Tally} {s' : Sys} {t : Cells Word}
  {cell : Field → Layout Word} {e : Nat} {L locals : List Ptr} {F : Flags} {r : Ptr}
  {ok ok' : Tally → Flags → Prop}

theorem TallyStep.mono (h : TallyStep env ok c c') (hok : ∀ c F, ok c F → ok' c F) :
    TallyStep env ok' c c' := by
  cases h with
  | alloc hfl h => exact .alloc hfl h
  | make hfl h => exact .make hfl h
  | mark h => exact .mark h
  | malloc h => exact .malloc h
  | setType ht h => exact .setType ht h
  | sweep hF hM ho hc h => exact .sweep hF hM ho (hok _ _ hc) h

/-- The base, its chain, and the counted objects on it. -/
structure TallyInv (c : Tally) (t : Cells Word) (cell : Field → Layout Word) (e : Nat)
    (locals L : List Ptr) : Prop where
  placed : PlacedBase c.sys c.base t cell e locals
  chain : RootChain c.sys c.base L
  subset : c.counted ⊆ L
  nodup : c.counted.Nodup
  bare : ¬ c.sys.Full c.base → c.counted = []

/-- Among distinct members of `L`, those with a property are all of `L` with it if there are as
many. -/
theorem length_filter_eq_iff {α : Type} {l L : List α} {P : α → Bool} (hn : l.Nodup)
    (hL : L.Nodup) (hs : l ⊆ L) :
    (l.filter P).length = (L.filter P).length ↔ ∀ x ∈ L, P x = true → x ∈ l := by
  have hsub : (l.filter P).Subperm (L.filter P) := (hn.filter P).subperm fun x hx => by
    obtain ⟨hx, hp⟩ := List.mem_filter.mp hx
    exact List.mem_filter.mpr ⟨hs hx, hp⟩
  constructor
  · intro he x hx hp
    have hperm := hsub.perm_of_length_le he.ge
    exact (List.mem_filter.mp (hperm.mem_iff.mpr (List.mem_filter.mpr ⟨hx, hp⟩))).1
  · intro h
    refine List.Perm.length_eq ?_
    refine (List.perm_ext_iff_of_nodup (hn.filter P) (hL.filter P)).mpr fun x => ?_
    rw [List.mem_filter, List.mem_filter]
    exact ⟨fun ⟨hx, hp⟩ => ⟨hs hx, hp⟩, fun ⟨hx, hp⟩ => ⟨h x hx hp, hp⟩⟩

namespace TallyInv

/-- An object on the base. -/
theorem made {ty p a : Ptr} {fl : Flags} {data : List Word} (h : TallyInv c t cell e locals L)
    (hfl : fl &&& xObjFlagMeta = 0) (hm : Made c.sys c.base ty fl data p a s') :
    TallyInv { c with sys := s', counted := c.add p } t cell e locals (p :: L) ∧
      (c.Accurate → Tally.Accurate { c with sys := s', counted := c.add p }) := by
  have hlive : ∀ q ∈ c.base :: L, c.sys.Live q := fun q hq =>
    h.placed.mem_live ((h.chain.mem q).mpr hq)
  have hfull : s'.Full c.base ↔ c.sys.Full c.base := by
    have htree := (h.placed.made (fun _ => hfl) hm).tree
    rw [Full, Full, hm.typeOf_old _ fun e => hm.new (e ▸ hlive _ (.head _))]
    exact and_congr_right fun _ => iff_of_true htree.isSet h.placed.tree.isSet
  have hadd : c.sys.Full c.base → c.add p = p :: c.counted := fun hf => if_pos ⟨hf, hm.ne_nil⟩
  have hadd' : ¬ c.sys.Full c.base → c.add p = c.counted := fun hf => if_neg fun hc => hf hc.1
  have hcount := h.placed.fieldInt_count (d := 1) fun q hq i =>
    hm.unit_old q i fun e => hm.new (e ▸ h.placed.mem_live (h.placed.mem hq))
  have hinv : TallyInv { c with sys := s', counted := c.add p } t cell e locals (p :: L) := by
    refine ⟨h.placed.made (fun _ => hfl) hm, h.chain.made hlive hm, ?_, ?_, fun hf => ?_⟩
    · by_cases hf : c.sys.Full c.base
      · show c.add p ⊆ _
        rw [hadd hf]
        exact List.cons_subset_cons _ h.subset
      · show c.add p ⊆ _
        rw [hadd' hf]
        exact List.subset_cons_of_subset _ h.subset
    · show (c.add p).Nodup
      by_cases hf : c.sys.Full c.base
      · rw [hadd hf]
        refine List.nodup_cons.mpr ⟨fun hq => ?_, h.nodup⟩
        exact hm.new (hlive p (.tail _ (h.subset hq)))
      · rw [hadd' hf]
        exact h.nodup
    · have hf := mt hfull.mpr hf
      exact (hadd' hf).trans (h.bare hf)
  refine ⟨hinv, fun ha => ?_⟩
  have ha : c.sys.fieldInt c.base .allocCount = some (c.counted.length : Int) := ha
  show s'.fieldInt c.base .allocCount = some ((c.add p).length : Int)
  rw [hcount, ha]
  by_cases hf : c.sys.Full c.base
  · rw [hadd hf, if_pos hf]
    rfl
  · rw [hadd' hf, if_neg hf]
    exact congrArg some (add_zero _)

/-- A step that makes no object and leaves the units alone. -/
theorem still (h : TallyInv c t cell e locals L) (hp : PlacedBase s' c.base t cell e locals)
    (hnext : ∀ q, s'.next q = c.sys.next q) (htrace : s'.trace = c.sys.trace)
    (hunit : s'.unit = c.sys.unit) (hfull : ¬ s'.Full c.base → ¬ c.sys.Full c.base) :
    TallyInv { c with sys := s' } t cell e locals L ∧
      (c.Accurate → Tally.Accurate { c with sys := s' }) := by
  refine ⟨⟨hp, h.chain.still hnext (by rw [htrace]), h.subset, h.nodup,
    fun hf => h.bare (hfull hf)⟩, fun ha => ?_⟩
  show s'.fieldInt c.base .allocCount = _
  have hint : s'.fieldInt c.base .allocCount = c.sys.fieldInt c.base .allocCount := by
    simp only [Sys.fieldInt, Sys.fieldObj, hunit]
  rw [hint]
  exact ha

/-- A sweep returns, and leaves the count right if and only if it frees counted objects only. -/
theorem sweep (h : TallyInv c t cell e locals L) (hin : env.FreeInert)
    (hF : F &&& xObjFlagShared = 0) (hM : F &&& xObjFlagMeta = 0)
    (ho : OwnApart c.sys c.sys.collectable)
    (hr : xHeapSweep env c.base (c.sys.next c.base) F c.sys = .ok r s') :
    TallyInv { c with sys := s', counted := c.counted.filter fun p => decide (s'.Live p) }
      t cell e locals (L.filter (c.sys.kept F)) ∧
    (c.sys.Full c.base → s'.fieldInt c.base .allocCount = (c.sys.fieldInt c.base .allocCount).map
      (· - ((L.filter fun p => !c.sys.kept F p).length : Int))) ∧
    (c.Accurate → (Tally.Accurate
      { c with sys := s', counted := c.counted.filter fun p => decide (s'.Live p) } ↔
        c.Clean F)) := by
  obtain ⟨s₁, fn, hrun, hs, hp⟩ := h.chain.sweep h.placed ho hin hF hM
  cases hr.symm.trans hrun
  obtain ⟨hb, hnodup⟩ := List.nodup_cons.mp h.chain.nodup
  have hlive : ∀ q ∈ L, s'.Live q ↔ c.sys.kept F q = true := fun q hq => by
    rw [hs.live]
    exact ⟨fun hl => hl.2 hq, fun hk =>
      ⟨h.placed.mem_live ((h.chain.mem q).mpr (.tail _ hq)), fun _ => hk⟩⟩
  have hcounted : (c.counted.filter fun p => decide (s'.Live p)) =
      c.counted.filter (c.sys.kept F) :=
    List.filter_congr fun q hq =>
      Bool.eq_iff_iff.mpr (decide_eq_true_iff.trans (hlive q (h.subset hq)))
  have hfull : s'.Full c.base ↔ c.sys.Full c.base := by
    rw [Full, Full, hs.typeOf _ hp.base_live]
    exact and_congr_right fun _ => iff_of_true hp.tree.isSet h.placed.tree.isSet
  have hcount := h.placed.fieldInt_count
    (d := -((L.filter fun p => !c.sys.kept F p).length : Int)) fun q hq i =>
      hs.unit q i (hp.mem_live (hp.mem hq))
  rw [hcounted]
  refine ⟨⟨hp, h.chain.swept hs, fun q hq => ?_, h.nodup.filter _, fun hf => ?_⟩, fun hf => ?_,
    fun ha => ?_⟩
  · obtain ⟨hq, hk⟩ := List.mem_filter.mp hq
    exact List.mem_filter.mpr ⟨h.subset hq, hk⟩
  · have hf := mt hfull.mpr hf
    show c.counted.filter _ = []
    rw [h.bare hf]
    rfl
  · rw [hcount, if_pos hf]
    rfl
  · have ha : c.sys.fieldInt c.base .allocCount = some (c.counted.length : Int) := ha
    show s'.fieldInt c.base .allocCount =
      some ((c.counted.filter (c.sys.kept F)).length : Int) ↔ _
    rw [hcount, ha]
    by_cases hf : c.sys.Full c.base
    · have hsplit := List.length_eq_length_filter_add (l := c.counted) (c.sys.kept F)
      have hiff := length_filter_eq_iff (P := fun p => !c.sys.kept F p) h.nodup hnodup h.subset
      have hclean : c.Clean F ↔ ∀ x ∈ L, (!c.sys.kept F x) = true → x ∈ c.counted := by
        constructor
        · intro hc x hx hk
          exact hc hf x ((h.chain.mem x).mpr (.tail _ hx)) (fun e => hb (e ▸ hx))
            (by simpa using hk)
        · intro hc _ x hx hxb hk
          exact hc x ((List.mem_cons.mp ((h.chain.mem x).mp hx)).resolve_left hxb) (by simp [hk])
      rw [hclean, ← hiff, if_pos hf, Option.map_some, Option.some.injEq]
      omega
    · have hc : c.Clean F := fun hf' => absurd hf' hf
      rw [if_neg hf, h.bare hf]
      exact iff_of_true rfl hc

/-- Every step keeps the invariant, and leaves the count right if its sweeps are clean. -/
theorem step (h : TallyInv c t cell e locals L) (hin : env.FreeInert)
    (hs : TallyStep env ok c c') : ∃ L', TallyInv c' t cell e locals L' ∧
      ((∀ F, ok c F → c.Clean F) → c.Accurate → c'.Accurate) := by
  have hrequest := h.still h.placed.request (fun _ => rfl) rfl rfl fun hf => hf
  have hnil : c.add nil = c.counted := if_neg fun hc => hc.2 rfl
  cases hs with
  | alloc hfl hr =>
    rcases xObjAlloc_ok hr with ⟨rfl, -, -, rfl⟩ | ⟨a, data, -, hm, -⟩
    · rw [hnil]
      exact ⟨L, hrequest.1, fun _ => hrequest.2⟩
    · obtain ⟨hi, ha⟩ := h.made hfl hm
      exact ⟨_, hi, fun _ => ha⟩
  | make hfl hr =>
    rcases xObjMake_ok hr with ⟨rfl, -, -, rfl⟩ | ⟨a, -, hm⟩
    · rw [hnil]
      exact ⟨L, hrequest.1, fun _ => hrequest.2⟩
    · obtain ⟨hi, ha⟩ := h.made hfl hm
      exact ⟨_, hi, fun _ => ha⟩
  | mark hm =>
    obtain ⟨hi, ha⟩ := h.still (h.placed.remarked hm) (fun _ => hm.same.next) hm.trace hm.same.unit
      fun hf hf' => hf ⟨hm.same.typeOf.trans_ne hf'.1, hm.same.isSet.mpr hf'.2⟩
    exact ⟨L, hi, fun _ => ha⟩
  | malloc hr =>
    rw [xSysMalloc_eq] at hr
    split at hr
    · cases hr
      obtain ⟨hi, ha⟩ := h.still (h.placed.setBlock (env.malloc.fresh _ _).2.1) (fun _ => rfl) rfl
        rfl fun hf => hf
      exact ⟨L, hi, fun _ => ha⟩
    · cases hr
      exact ⟨L, hrequest.1, fun _ => hrequest.2⟩
  | @setType ty _ ht hr =>
    obtain ⟨hl, rfl⟩ := setXObjType_ok.mp hr
    obtain ⟨hi, ha⟩ := h.still (h.placed.setType (y := ty) ht) (fun _ => next_setType) trace_modify
      (by funext q i; exact unit_setType) fun _ hf => hf.1 ht
    exact ⟨L, hi, fun _ => ha⟩
  | sweep hF hM ho hok hr =>
    obtain ⟨hi, -, hiff⟩ := h.sweep hin hF hM ho hr
    exact ⟨_, hi, fun hc ha => (hiff ha).mpr (hc _ hok)⟩

end TallyInv

/-! ## Runs -/

/-- The start of a run. -/
theorem Start.tallyInv {c : Client} (hs : Start env cfg c) : ∃ t L,
    TallyInv ⟨c.sys, c.root, []⟩ t (Kept.ofCfg cfg).cell (toSizeT cfg.objMetaExtra) c.locals L ∧
      Tally.Accurate ⟨c.sys, c.root, []⟩ := by
  obtain ⟨t, L, hp, hc, -⟩ := hs.placedBase cfg.cell_relaxes rfl rfl rfl
  exact ⟨t, L, ⟨hp, hc, List.nil_subset _, .nil, fun _ => rfl⟩, hs.count⟩

/-- In a run whose sweeps are clean the count is right in every state, and a further sweep leaves it
right if and only if it is clean. -/
theorem count_iff {c₀ : Client} (hin : env.FreeInert) (hs : Start env cfg c₀)
    (hr : ReflTransGen (TallyStep env Tally.Clean) ⟨c₀.sys, c₀.root, []⟩ c) :
    c.Accurate ∧ ∀ F r s', F &&& xObjFlagShared = 0 → F &&& xObjFlagMeta = 0 →
      OwnApart c.sys c.sys.collectable →
      xHeapSweep env c.base (c.sys.next c.base) F c.sys = .ok r s' →
      (Tally.Accurate
        { c with sys := s', counted := c.counted.filter fun p => decide (s'.Live p) } ↔
        c.Clean F) := by
  obtain ⟨t, L₀, hi, ha⟩ := hs.tallyInv
  obtain ⟨⟨L, h⟩, ha⟩ := Prog.invariant
    (I := fun c =>
      (∃ L, TallyInv c t (Kept.ofCfg cfg).cell (toSizeT cfg.objMetaExtra) c₀.locals L) ∧
      c.Accurate) (fun c c' ⟨⟨L, h⟩, ha⟩ hstep => by
        obtain ⟨L', h', hk⟩ := h.step hin hstep
        exact ⟨⟨L', h'⟩, hk (fun _ => id) ha⟩) hr ⟨⟨L₀, hi⟩, ha⟩
  exact ⟨ha, fun F r s' hF hM ho hrun => (h.sweep hin hF hM ho hrun).2.2 ha⟩

/-- Two objects are made on a new base, after it got its type. -/
theorem exists_twoCounted : ∃ (c₀ : Client) (s : Sys) (p q : Ptr),
    Start (.plain fun _ => true) .standard c₀ ∧
    ReflTransGen (TallyStep (.plain fun _ => true) Tally.Clean) ⟨c₀.sys, c₀.root, []⟩
      ⟨s, c₀.root, [q, p]⟩ ∧
    p ≠ q ∧ s.Live q ∧ s.typeOf q ≠ xTypePairObj ∧ s.flagsOf p = xObjFlagNone ∧
    s.flagsOf q = xObjFlagNone ∧ (∀ x, s.flagsOf x &&& xObjFlagOwn = 0) ∧
    ∀ x ∈ outstanding s.trace, x ≠ c₀.root → x ∉ [q, p] → s.flagsOf x &&& xObjFlagShared ≠ 0 := by
  obtain ⟨c₀, hs, hloc⟩ := Start.exists (.plain fun _ => true) .standard
    (fun _ _ _ => rfl) rfl rfl
  obtain ⟨s₀, new, t₀, hm₀, -, hchain, -⟩ := hs.made
  obtain ⟨t, hrep, -⟩ := hm₀.typed (fun _ _ _ => rfl) (show xTypePairObj ≠ nil by decide) (.inl rfl)
  obtain ⟨p, a, s₁, hrun₁, hm₁, hrep₁⟩ :=
    hrep.make rfl (.plain fun _ => true) xTypeAtomObj xObjFlagNone [41] rfl (by decide)
  obtain ⟨q, a', s₂, hrun₂, hm₂, -⟩ :=
    hrep₁.make rfl (.plain fun _ => true) xTypeAtomObj xObjFlagNone [42] rfl (by decide)
  have hpq : p ≠ q := fun e => hm₂.new (e ▸ (hm₁.live p).mpr (.inl rfl))
  have hx : (c₀.sys.setType c₀.root xTypePairObj).extraOf c₀.root = 0 := hrep.extraOf
  have hx₁ : s₁.extraOf c₀.root = 0 := hrep₁.extraOf
  have hfp : s₂.flagsOf p = xObjFlagNone := by
    rw [hm₂.flagsOf_old p hpq, hm₁.flagsOf_new, hx, if_neg (lt_irrefl 0)]
  have hfq : s₂.flagsOf q = xObjFlagNone := by rw [hm₂.flagsOf_new, hx₁, if_neg (lt_irrefl 0)]
  have hold : ∀ x, x ≠ p → x ≠ q → s₂.flagsOf x = c₀.sys.flagsOf x := fun x hxp hxq => by
    rw [hm₂.flagsOf_old x hxq, hm₁.flagsOf_old x hxp, flagsOf_setType]
  have hstep₁ : TallyStep (.plain fun _ => true) Tally.Clean
      ⟨c₀.sys.setType c₀.root xTypePairObj, c₀.root, []⟩ ⟨s₁, c₀.root, [p]⟩ := by
    have h : TallyStep (.plain fun _ => true) Tally.Clean _ _ :=
      .make (c := ⟨c₀.sys.setType c₀.root xTypePairObj, c₀.root, []⟩) (by decide) hrun₁
    rwa [Tally.add, if_pos ⟨hrep.ceilingBase.full, hm₁.ne_nil⟩] at h
  have hstep₂ : TallyStep (.plain fun _ => true) Tally.Clean ⟨s₁, c₀.root, [p]⟩
      ⟨s₂, c₀.root, [q, p]⟩ := by
    have h : TallyStep (.plain fun _ => true) Tally.Clean _ _ :=
      .make (c := ⟨s₁, c₀.root, [p]⟩) (by decide) hrun₂
    rwa [Tally.add, if_pos ⟨hrep₁.ceilingBase.full, hm₂.ne_nil⟩] at h
  refine ⟨c₀, s₂, p, q, hs, ((ReflTransGen.single (.setType hs.typeOf_root
    (setXObjType_eq ((hm₀.live c₀.root).mpr (.inl (.head _)))))).tail hstep₁).tail hstep₂, hpq,
    (hm₂.live q).mpr (.inl rfl), ?_, hfp, hfq, fun x => ?_, fun x hx hxb hno => ?_⟩
  · rw [hm₂.typeOf_new]
    decide
  · by_cases hxp : x = p
    · rw [hxp, hfp]
      rfl
    by_cases hxq : x = q
    · rw [hxq, hfq]
      rfl
    rw [hold x hxp hxq]
    exact hs.flags_own hloc x
  · simp only [List.mem_cons, List.not_mem_nil, or_false, not_or] at hno
    rw [show outstanding s₂.trace = q :: p :: outstanding c₀.sys.trace from by
      rw [hm₂.trace, hm₁.trace, show (c₀.sys.setType c₀.root xTypePairObj).trace =
        c₀.sys.trace from trace_modify]
      rfl, List.mem_cons, List.mem_cons, or_iff_right hno.1, or_iff_right hno.2,
      hchain.outstanding] at hx
    rw [hold x hno.2 hno.1, hm₀.flagsOf_new ((List.mem_cons.mp hx).resolve_left hxb)]
    decide

/-- A sweep frees the one that is not marked. -/
theorem count_standard : ∃ (c₀ : Client) (c₁ c : Tally) (p q : Ptr),
    Start (.plain fun _ => true) .standard c₀ ∧
    ReflTransGen (TallyStep (.plain fun _ => true) Tally.Clean) ⟨c₀.sys, c₀.root, []⟩ c₁ ∧
    c₁.counted = [q, p] ∧ TallyStep (.plain fun _ => true) Tally.Clean c₁ c ∧
    ¬ c.sys.Live p ∧ c.counted = [q] ∧ c.Accurate := by
  obtain ⟨c₀, s, p, q, hs, hr, hpq, hql, htq, hfp, hfq, hown, hshared⟩ := exists_twoCounted
  -- The marker is sent to the second object.
  have hfn : s.hookWord .heapMark nil = some nil := by simp [hookWord, not_isSet_nil]
  obtain ⟨r, s₁, hmark, hm⟩ : ∃ r s', xHeapTreeMark (.plain fun _ => true) nil q xObjFlagMark s =
      .ok r s' ∧ MarkedFrom (.plain fun _ => true) nil nil xObjFlagMark s [q] s' :=
    xHeapTreeMark_run hfn fun _ => walkable_plain hql htq
  have hm := hm.plain hql htq
  have hrem := xHeapTreeMark_remarked hmark (by decide)
  have hkp : s₁.kept xObjFlagMark p = false := by rw [kept, hm.flags_notMem p hpq, hfp]; rfl
  have hkq : s₁.kept xObjFlagMark q = true := by rw [kept, hm.flags_mem q rfl hql, hfq]; rfl
  have hclean : Tally.Clean ⟨s₁, c₀.root, [q, p]⟩ xObjFlagMark := by
    intro _ x hx hxb hk
    by_contra hno
    refine hshared x (hrem.trace ▸ hx) hxb hno ?_
    rw [← hrem.flags_and (by decide)]
    exact not_shared hk
  have hown₁ : OwnApart s₁ s₁.collectable := .of_flags fun x => by
    rw [hrem.flags_and (by decide)]
    exact hown x
  have hr₁ := hr.tail (.mark (c := ⟨s, c₀.root, [q, p]⟩) hrem)
  obtain ⟨t, L₀, hi₀, -⟩ := hs.tallyInv
  obtain ⟨L, hi⟩ := Prog.invariant (I := fun c => ∃ L, TallyInv c t _ _ _ L)
    (fun c c' h hstep => by
      obtain ⟨L, h⟩ := h
      exact (h.step Env.plain_inert hstep).imp fun _ => And.left) hr₁ ⟨L₀, hi₀⟩
  obtain ⟨s₂, fn, hrun, hsw, -⟩ := hi.chain.sweep hi.placed hown₁ Env.plain_inert
    (F := xObjFlagMark) (by decide) (by decide)
  have hstep : TallyStep (.plain fun _ => true) Tally.Clean ⟨s₁, c₀.root, [q, p]⟩
      ⟨s₂, c₀.root, [q, p].filter fun x => decide (s₂.Live x)⟩ :=
    .sweep (c := ⟨s₁, c₀.root, [q, p]⟩) (by decide) (by decide) hown₁ hclean hrun
  have hdead : ¬ s₂.Live p := fun hl => by
    have hk := ((hsw.live p).mp hl).2 (hi.subset (.tail _ (.head _)))
    rw [hkp] at hk
    cases hk
  have hkeep : s₂.Live q := (hsw.live q).mpr ⟨hrem.same.live.mpr hql, fun _ => hkq⟩
  refine ⟨c₀, _, _, p, q, hs, hr₁, rfl, hstep, hdead, ?_,
    (count_iff Env.plain_inert hs (hr₁.tail hstep)).1⟩
  simp [hdead, hkeep]

/-- An object that was made before the base got its type is swept, and the count is negative. -/
theorem count_fails : ∃ (c₀ : Client) (c : Tally) (n : Int),
    Start (.plain fun _ => true) .standard c₀ ∧
    ReflTransGen (TallyStep (.plain fun _ => true) fun _ _ => True) ⟨c₀.sys, c₀.root, []⟩ c ∧
    c.sys.fieldInt c.base .allocCount = some n ∧ n < 0 := by
  obtain ⟨c₀, c₁, c, p, L, t, k, hs, hc, hmake, htype, -, -, h, hfull, hp, -, ho⟩ :=
    exists_typed (BitVec.zero_and (x := xObjFlagOwn))
  obtain ⟨t₀, L₀, hi₀, ha₀⟩ := hs.tallyInv
  have hstep₁ : TallyStep (.plain fun _ => true) Tally.Clean ⟨c₀.sys, c₀.root, []⟩
      ⟨c₁.sys, c₀.root, []⟩ := by
    have hadd : Tally.add ⟨c₀.sys, c₀.root, []⟩ p = [] := if_neg fun hf => hs.bare.not_full hf.1
    have hstep : TallyStep (.plain fun _ => true) Tally.Clean ⟨c₀.sys, c₀.root, []⟩
        ⟨c₁.sys, c₀.root, Tally.add ⟨c₀.sys, c₀.root, []⟩ p⟩ := .make (by decide) hmake
    rwa [hadd] at hstep
  have hstep₂ : TallyStep (.plain fun _ => true) Tally.Clean ⟨c₁.sys, c₀.root, []⟩
      ⟨c.sys, c₀.root, []⟩ := by
    refine .setType (c := ⟨c₁.sys, c₀.root, []⟩) ?_ htype
    rcases xObjMake_ok hmake with ⟨-, -, -, he⟩ | ⟨a, -, hm⟩
    · rw [he]
      exact hs.typeOf_root
    · show c₁.sys.typeOf c₀.root = nil
      rw [hm.typeOf_old c₀.root fun e => hm.new (e ▸ hi₀.placed.base_live)]
      exact hs.typeOf_root
  obtain ⟨L₁, hi₁, ha₁⟩ := hi₀.step Env.plain_inert hstep₁
  obtain ⟨L₂, hi₂, ha₂⟩ := hi₁.step Env.plain_inert hstep₂
  have ha : c.sys.fieldInt c₀.root .allocCount = some 0 :=
    ha₂ (fun _ => id) (ha₁ (fun _ => id) ha₀)
  have hown : OwnApart c.sys c.sys.collectable := .of_flags ho
  obtain ⟨s', fn, hrun, -, -⟩ := hi₂.chain.sweep hi₂.placed hown Env.plain_inert
    (F := xObjFlagMark) (by decide) (by decide)
  obtain ⟨-, hcount, -⟩ := hi₂.sweep Env.plain_inert (by decide) (by decide) hown hrun
  refine ⟨c₀, _, _, hs, ((ReflTransGen.single (hstep₁.mono fun _ _ _ => trivial)).tail
    (hstep₂.mono fun _ _ _ => trivial)).tail
      (.sweep (c := ⟨c.sys, c₀.root, []⟩) (by decide) (by decide) hown trivial hrun),
    (hcount (hc ▸ hfull)).trans (by rw [ha]; rfl), ?_⟩
  -- The object is on the chain and not marked.
  have hroot : p ≠ c₀.root := fun e => (List.nodup_cons.mp h.chain.nodup).1 (hc ▸ e ▸ .head _)
  have hpL : p ∈ L₂ := by
    have := (hi₂.chain.mem p).mp ((h.chain.outstanding p).mpr (.tail _ (.head _)))
    exact (List.mem_cons.mp this).resolve_left hroot
  have hmem : p ∈ L₂.filter fun p => !c.sys.kept xObjFlagMark p :=
    List.mem_filter.mpr ⟨hpL, by rw [kept, hp]; rfl⟩
  have hpos := List.length_pos_of_mem hmem
  show (0 : Int) - ((L₂.filter fun p => !c.sys.kept xObjFlagMark p).length : Int) < 0
  omega

end Count

end XExpr
