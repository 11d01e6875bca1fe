import XExpr.Base.Tree

/-!
# What `x_base_make` builds

Every node of a nest is one request to `malloc`, whether or not the requests of its parts were
granted. So the requests of a nest are counted before it runs, and the result says where the nest
broke: `Cut t t'`, some nodes of `t` are `nil` in `t'`.

* `Grown`: the memory after some shared objects were made on a base.
* `makeTree_run`: the calls of a nest return on a bare base, with a tree cut where requests were
  refused. It is whole if and only if all were granted.
* `xBaseMake_ok`: a base that was made, with the tree it leads to.
-/

namespace XExpr

open Sys Chain

/-! ## Nests cut short -/

/-- `t'` is `t` with some nodes replaced by nil. -/
inductive Cut : Layout Word → Layout Word → Prop
  | leaf (w : Option Word) : Cut (.leaf w) (.leaf (some (w.getD nil)))
  | atom {c c' : Layout Word} : Cut c c' → Cut (.atom c) (.atom c')
  | pair {l l' r r' : Layout Word} : Cut l l' → Cut r r' → Cut (.pair l r) (.pair l' r')
  | atom_nil (c : Layout Word) : Cut (.atom c) (.leaf (some nil))
  | pair_nil (l r : Layout Word) : Cut (.pair l r) (.leaf (some nil))

/-- A path of the whole tree stays in the nodes that are left, or ends at nil. -/
theorem Cut.walk {mem : Word → Nat → Option Word} {t : Layout Word} {c : Cells Word} {w : Word}
    {π : List Bool} (h : Cut t c.layout) (hfit : c.Fits mem w) (hnil : ∀ i, mem nil i = none)
    (hπ : t.sub π ≠ none) : ∀ x ∈ Mem.walk mem w π, x.1 ∈ c.nodes ∨ x.1 = nil := by
  induction π generalizing t c w with
  | nil => exact fun x hx => absurd hx List.not_mem_nil
  | cons b π ih =>
    intro x hx
    have hcut : c = .leaf (some nil) → x.1 ∈ c.nodes ∨ x.1 = nil := by
      rintro rfl
      obtain rfl : w = nil := hfit nil rfl
      rw [Mem.walk, hnil] at hx
      exact .inr (congrArg Prod.fst (List.mem_singleton.mp hx))
    rcases c with _ | ⟨p, c⟩ | ⟨p, l, r⟩
    · cases h with
      | leaf v => exact absurd (by simp [Layout.sub]) hπ
      | atom_nil _ | pair_nil _ _ => exact hcut rfl
    · cases h with
      | atom h =>
        cases b with
        | true => exact absurd rfl hπ
        | false =>
          obtain ⟨rfl, u, hu, hc⟩ := hfit
          rcases List.mem_cons.mp hx with rfl | hx
          · exact .inl (.head _)
          · simp only [Mem.bit_false, hu, Option.map_some, Option.getD_some] at hx
            exact (ih h hc hπ x hx).imp (.tail _) id
    · cases h with
      | pair hl hr =>
        obtain ⟨rfl, ⟨u, hu, hfl⟩, v, hv, hfr⟩ := hfit
        rcases List.mem_cons.mp hx with rfl | hx
        · exact .inl (.head _)
        · cases b with
          | false =>
            simp only [Mem.bit_false, hu, Option.map_some, Option.getD_some] at hx
            exact (ih hl hfl hπ x hx).imp (fun h => .tail _ (List.mem_append_left _ h)) id
          | true =>
            simp only [Mem.bit_true, hv, Option.map_some, Option.getD_some] at hx
            exact (ih hr hfr hπ x hx).imp (fun h => .tail _ (List.mem_append_right _ h)) id

/-- Every leaf is given. -/
def Given : Layout Word → Bool
  | .leaf w => w.isSome
  | .atom c => Given c
  | .pair l r => Given l && Given r

/-! ## A memory with more objects -/

/-- `s'` is `s` with the shared objects `new`, newest first, made on the base `b`. -/
structure Grown (s : Sys) (b : Ptr) (new : List Ptr) (s' : Sys) : Prop where
  nodup : new.Nodup
  fresh : ∀ q ∈ new, q ≠ nil ∧ ¬ s.Live q ∧ s.block q = none
  live : ∀ q, s'.Live q ↔ q ∈ new ∨ s.Live q
  chain : b ≠ nil → Seg s'.next (s'.next b) new (s.next b)
  next_old : ∀ q, s.Live q → q ≠ b → s'.next q = s.next q
  typeOf_old : ∀ q, s.Live q → s'.typeOf q = s.typeOf q
  flagsOf_old : ∀ q, s.Live q → s'.flagsOf q = s.flagsOf q
  extrasOf_old : ∀ q, s.Live q → s'.extrasOf q = s.extrasOf q
  unit_old : ∀ q i, s.Live q → s'.unit q i = s.unit q i
  flagsOf_new : ∀ q ∈ new, s'.flagsOf q = xObjFlagShared
  extrasOf_new : ∀ q ∈ new, (s'.extrasOf q).length = 0
  block : ∀ w, s'.block w = if w ∈ new then some w else s.block w
  trace : s'.trace = new.map (fun p => .objAlloc p p) ++ s.trace

section Grown

variable {env : Env} {s s₁ s' : Sys} {b p q t a w : Ptr} {new new' : List Ptr}

theorem Grown.refl (s : Sys) (b : Ptr) : Grown s b [] s := by
  constructor <;> simp

theorem Grown.request (s : Sys) (b : Ptr) : Grown s b [] s.request := by
  constructor <;> simp [show s.request.trace = s.trace from rfl]

theorem Sys.Bare.grown (h : s.Bare b) (hg : Grown s b new s') : s'.Bare b := by
  rcases h with rfl | ⟨hl, ht⟩
  · exact .inl rfl
  · exact .inr ⟨(hg.live b).mpr (.inr hl), by rw [hg.typeOf_old b hl, ht]⟩

theorem Grown.trans (hb : b = nil ∨ s.Live b) (h : Grown s b new s₁) (h' : Grown s₁ b new' s') :
    Grown s b (new' ++ new) s' := by
  have hfresh : ∀ q ∈ new', q ∉ new ∧ ¬ s.Live q := fun q hq => by
    have := (h'.fresh q hq).2.1
    rw [h.live, not_or] at this
    exact this
  constructor
  case nodup =>
    exact List.nodup_append.mpr ⟨h'.nodup, h.nodup, fun x hx y hy e => (hfresh x hx).1 (e ▸ hy)⟩
  case fresh =>
    intro q hq
    rcases List.mem_append.mp hq with hq | hq
    · refine ⟨(h'.fresh q hq).1, (hfresh q hq).2, ?_⟩
      have := (h'.fresh q hq).2.2
      rwa [h.block, if_neg (hfresh q hq).1] at this
    · exact h.fresh q hq
  case live => intro q; rw [h'.live, h.live, List.mem_append, or_assoc]
  case chain =>
    intro hn
    have hl := hb.resolve_left hn
    refine seg_append.mpr ⟨_, h'.chain hn, (h.chain hn).congr fun q hq => ?_⟩
    exact h'.next_old q ((h.live q).mpr (.inl hq)) fun e => (h.fresh q hq).2.1 (e ▸ hl)
  case next_old =>
    intro q hq hqb
    rw [h'.next_old q ((h.live q).mpr (.inr hq)) hqb, h.next_old q hq hqb]
  case typeOf_old =>
    intro q hq; rw [h'.typeOf_old q ((h.live q).mpr (.inr hq)), h.typeOf_old q hq]
  case flagsOf_old =>
    intro q hq; rw [h'.flagsOf_old q ((h.live q).mpr (.inr hq)), h.flagsOf_old q hq]
  case extrasOf_old =>
    intro q hq; rw [h'.extrasOf_old q ((h.live q).mpr (.inr hq)), h.extrasOf_old q hq]
  case unit_old =>
    intro q i hq; rw [h'.unit_old q i ((h.live q).mpr (.inr hq)), h.unit_old q i hq]
  case flagsOf_new =>
    intro q hq
    rcases List.mem_append.mp hq with hq | hq
    · exact h'.flagsOf_new q hq
    · rw [h'.flagsOf_old q ((h.live q).mpr (.inl hq)), h.flagsOf_new q hq]
  case extrasOf_new =>
    intro q hq
    rcases List.mem_append.mp hq with hq | hq
    · exact h'.extrasOf_new q hq
    · rw [h'.extrasOf_old q ((h.live q).mpr (.inl hq)), h.extrasOf_new q hq]
  case block =>
    intro w
    rw [h'.block, h.block]
    simp only [List.mem_append]
    by_cases h₁ : w ∈ new'
    · simp [h₁]
    · by_cases h₂ : w ∈ new <;> simp [h₁, h₂]
  case trace => rw [h'.trace, h.trace, List.map_append, List.append_assoc]

/-- One shared object made on a bare base. -/
theorem Made.grown {data : List Word} (hb : s.Bare b)
    (h : Made s b t xObjFlagShared data p a s') : Grown s b [p] s' ∧ a = p := by
  have hx : s.extraOf b = 0 := extraOf_of_not_full hb.not_full
  have hap : a = p := by
    have := h.addr
    rw [hx] at this
    simpa using this.symm
  refine ⟨?_, hap⟩
  have hold : ∀ q, s.Live q → q ≠ p := fun q hq e => h.new (e ▸ hq)
  constructor
  case nodup => exact List.nodup_singleton p
  case fresh =>
    intro q hq
    obtain rfl := List.mem_singleton.mp hq
    exact ⟨h.ne_nil, h.new, hap ▸ h.block_new⟩
  case live => intro q; rw [h.live, List.mem_singleton]
  case chain =>
    intro hn
    have hl := h.base.resolve_left hn
    rw [h.next_old b hl, if_pos rfl]
    exact ⟨rfl, h.next_new⟩
  case next_old => intro q hq hqb; rw [h.next_old q hq, if_neg hqb]
  case typeOf_old => intro q hq; exact h.typeOf_old q (hold q hq)
  case flagsOf_old => intro q hq; exact h.flagsOf_old q (hold q hq)
  case extrasOf_old => intro q hq; exact h.extrasOf_old q (hold q hq)
  case unit_old =>
    intro q i hq
    rw [h.unit_old q i (hold q hq), if_neg fun hc => hb.not_full hc.1]
  case flagsOf_new =>
    intro q hq
    obtain rfl := List.mem_singleton.mp hq
    rw [h.flagsOf_new, hx]
    rfl
  case extrasOf_new =>
    intro q hq
    obtain rfl := List.mem_singleton.mp hq
    rw [h.extrasOf_new, hx]
  case block =>
    intro w
    rw [h.block, hap]
    simp only [List.mem_singleton]
    split
    · next e => rw [e]
    · rfl
  case trace => rw [h.trace, hap]; rfl

end Grown

/-! ## `makeTree` -/

/-- The requests from number `r` on, `n` of them, are granted. -/
def Malloc.GrantsFrom (m : Malloc) (r n : Nat) : Prop :=
  ∀ i, r ≤ i → i < r + n → m.grants i = true

theorem Malloc.grantsFrom_add {m : Malloc} {r n k : Nat} :
    m.GrantsFrom r (n + k) ↔ m.GrantsFrom r n ∧ m.GrantsFrom (r + n) k := by
  constructor
  · exact fun h => ⟨fun i h₁ h₂ => h i h₁ (by omega), fun i h₁ h₂ => h i (by omega) (by omega)⟩
  · rintro ⟨h₁, h₂⟩ i hi hi'
    by_cases hn : i < r + n
    · exact h₁ i hi hn
    · exact h₂ i (by omega) (by omega)

theorem Malloc.grantsFrom_one {m : Malloc} {r : Nat} :
    m.GrantsFrom r 1 ↔ m.grants r = true := by
  constructor
  · exact fun h => h r le_rfl (by omega)
  · intro h i h₁ h₂
    obtain rfl : i = r := by omega
    exact h

/-- What the calls of the nest `t` have left: the word `w` leads to the tree `c`. -/
structure Nest (env : Env) (s : Sys) (b : Ptr) (t : Layout Word) (w : Word) (new : List Ptr)
    (c : Cells Word) (s' : Sys) : Prop where
  grown : Grown s b new s'
  fits : c.Fits s'.unit w
  nodup : c.nodes.Nodup
  subset : c.nodes ⊆ new
  typed : ∀ q ∈ c.pairs, s'.typeOf q = xTypePairObj
  typed_atom : ∀ q ∈ c.atoms, s'.typeOf q = xTypeAtomObj
  cut : Cut t c.layout
  requests : s'.requests = s.requests + t.size
  whole : env.malloc.GrantsFrom s.requests t.size ↔ c.layout = t

section Nest

variable {env : Env} {s s₁ s' : Sys} {b x y w : Ptr} {t l r : Layout Word} {new new' : List Ptr}
  {c c' cx cy : Cells Word}

/-- What grows later does not touch a tree. -/
theorem Nest.fits_grown (h : Nest env s b t w new c s₁) (hg : Grown s₁ b new' s') :
    c.Fits s'.unit w :=
  h.fits.congr fun q hq i u hu => by
    rw [hg.unit_old q i ((h.grown.live q).mpr (.inl (h.subset hq))), hu]

theorem Nest.typed_grown (h : Nest env s b t w new c s₁) (hg : Grown s₁ b new' s') :
    ∀ q ∈ c.pairs, s'.typeOf q = xTypePairObj := fun q hq => by
  rw [hg.typeOf_old q ((h.grown.live q).mpr (.inl (h.subset (c.pairs_subset hq)))), h.typed q hq]

theorem Nest.typed_atom_grown (h : Nest env s b t w new c s₁) (hg : Grown s₁ b new' s') :
    ∀ q ∈ c.atoms, s'.typeOf q = xTypeAtomObj := fun q hq => by
  rw [hg.typeOf_old q ((h.grown.live q).mpr (.inl (h.subset (c.atoms_subset hq)))),
    h.typed_atom q hq]

/-- An atom around a finished part. -/
theorem Nest.atom (hb : s.Bare b) (h : Nest env s b t w new c s₁) :
    ∃ w' new' c' s', xMksatom env b xObjFlagShared w s₁ = .ok w' s' ∧
      Nest env s b (.atom t) w' new' c' s' := by
  have hlive : b = nil ∨ s.Live b := hb.imp id And.left
  have hreq : s₁.requests = s.requests + t.size := h.requests
  have hsize : env.malloc.GrantsFrom s.requests (Layout.atom t).size ↔
      c.layout = t ∧ env.malloc.grants s₁.requests = true := by
    rw [Layout.size, Malloc.grantsFrom_add, Malloc.grantsFrom_one, h.whole, hreq]
  rcases xObjMake_bare env xTypeAtomObj xObjFlagShared [w]
    (hb.grown h.grown) (by simp) with ⟨hg, hrun⟩ | ⟨p, a, s', hg, hrun, hm⟩
  · refine ⟨nil, _, .leaf (some nil), _, hrun, h.grown.trans hlive (.request s₁ b),
      by simp [Cells.Fits], .nil, List.nil_subset _, nofun, nofun, .atom_nil t, ?_, ?_⟩
    · exact congrArg (· + 1) hreq
    · rw [hsize, hg]
      simp [Cells.layout]
  · obtain ⟨hgr, rfl⟩ := hm.grown (hb.grown h.grown)
    have hp : a ∉ c.nodes := fun hc => hm.new ((h.grown.live a).mpr (.inl (h.subset hc)))
    refine ⟨a, _, .atom a c, s', hrun, h.grown.trans hlive hgr, ⟨rfl, w, ?_, h.fits_grown hgr⟩,
      List.nodup_cons.mpr ⟨hp, h.nodup⟩, ?_, h.typed_grown hgr, List.forall_mem_cons.mpr
        ⟨hm.typeOf_new, h.typed_atom_grown hgr⟩, .atom h.cut, ?_, ?_⟩
    · rw [Sys.unit, hm.data_new]; rfl
    · exact List.cons_subset_cons a h.subset
    · rw [hm.requests, hreq]; rfl
    · rw [hsize, hg]
      simp [Cells.layout]

/-- A pair around two finished parts. -/
theorem nest_pair (env : Env) (l r : Layout Word) (hb : s.Bare b) (hgrown : Grown s b new s₁)
    (hx : cx.Fits s₁.unit x)
    (hy : cy.Fits s₁.unit y) (hn : (cx.nodes ++ cy.nodes).Nodup)
    (hsub : cx.nodes ++ cy.nodes ⊆ new)
    (htyped : ∀ q ∈ cx.pairs ++ cy.pairs, s₁.typeOf q = xTypePairObj)
    (hatoms : ∀ q ∈ cx.atoms ++ cy.atoms, s₁.typeOf q = xTypeAtomObj)
    (hcx : Cut l cx.layout) (hcy : Cut r cy.layout)
    (hreq : s₁.requests = s.requests + (l.size + r.size))
    (hwhole : env.malloc.GrantsFrom s.requests (l.size + r.size) ↔
      cx.layout = l ∧ cy.layout = r) :
    ∃ w' new' c' s', xMkspair env b xObjFlagShared x y s₁ = .ok w' s' ∧
      Nest env s b (.pair l r) w' new' c' s' := by
  have hlive : b = nil ∨ s.Live b := hb.imp id And.left
  have hsize : env.malloc.GrantsFrom s.requests (Layout.pair l r).size ↔
      (cx.layout = l ∧ cy.layout = r) ∧ env.malloc.grants s₁.requests = true := by
    rw [Layout.size, Malloc.grantsFrom_add, Malloc.grantsFrom_one, hwhole, hreq]
  rcases xObjMake_bare env xTypePairObj xObjFlagShared [x, y]
    (hb.grown hgrown) (by simp) with ⟨hg, hrun⟩ | ⟨p, a, s', hg, hrun, hm⟩
  · refine ⟨nil, _, .leaf (some nil), _, hrun, hgrown.trans hlive (.request s₁ b),
      by simp [Cells.Fits], .nil, List.nil_subset _, nofun, nofun, .pair_nil l r, ?_, ?_⟩
    · exact congrArg (· + 1) hreq
    · rw [hsize, hg]
      simp [Cells.layout]
  · obtain ⟨hgr, rfl⟩ := hm.grown (hb.grown hgrown)
    have hp : a ∉ cx.nodes ++ cy.nodes := fun hc =>
      hm.new ((hgrown.live a).mpr (.inl (hsub hc)))
    have htype : ∀ q, q ∈ cx.nodes ∨ q ∈ cy.nodes → s'.typeOf q = s₁.typeOf q := fun q hq =>
      hgr.typeOf_old q ((hgrown.live q).mpr (.inl (hsub (List.mem_append.mpr hq))))
    have hfit : ∀ {d : Cells Word} {u}, d.nodes ⊆ cx.nodes ++ cy.nodes → d.Fits s₁.unit u →
        d.Fits s'.unit u := fun hd hu => hu.congr fun q hq i v hv => by
      rw [hgr.unit_old q i ((hgrown.live q).mpr (.inl (hsub (hd hq)))), hv]
    refine ⟨a, _, .pair a cx cy, s', hrun, hgrown.trans hlive hgr,
      ⟨rfl, ⟨x, ?_, hfit (List.subset_append_left _ _) hx⟩,
        y, ?_, hfit (List.subset_append_right _ _) hy⟩,
      List.nodup_cons.mpr ⟨hp, hn⟩, List.cons_subset_cons a hsub,
      List.forall_mem_cons.mpr ⟨hm.typeOf_new, fun q hq => ?_⟩, fun q hq => ?_, .pair hcx hcy,
      ?_, ?_⟩
    · rw [Sys.unit, hm.data_new]; rfl
    · rw [Sys.unit, hm.data_new]; rfl
    · rw [htype q ((List.mem_append.mp hq).imp (cx.pairs_subset ·) (cy.pairs_subset ·)),
        htyped q hq]
    · rw [htype q ((List.mem_append.mp hq).imp (cx.atoms_subset ·) (cy.atoms_subset ·)),
        hatoms q hq]
    · rw [hm.requests, hreq]; rfl
    · rw [hsize, hg]
      simp [Cells.layout]

/-- Trees that were made one after the other share no node. -/
theorem Nest.nodup_append (h : Nest env s b l x new cx s₁) (h' : Nest env s₁ b r y new' cy s') :
    (cx.nodes ++ cy.nodes).Nodup := by
  refine List.nodup_append.mpr ⟨h.nodup, h'.nodup, fun p hp q hq e => ?_⟩
  exact (h'.grown.fresh q (h'.subset hq)).2.1 ((h.grown.live q).mpr (.inl (h.subset (e ▸ hp))))

/-- The calls of a nest return. -/
theorem makeTree_run (env : Env) (hb : s.Bare b) (hg : Given t = true) :
    ∃ w new c s', makeTree env b t s = .ok w s' ∧ Nest env s b t w new c s' := by
  induction t generalizing s with
  | leaf v =>
    obtain ⟨v, rfl⟩ := Option.isSome_iff_exists.mp hg
    refine ⟨v, [], .leaf (some v), s, rfl, .refl s b, by simp [Cells.Fits], .nil,
      List.Subset.refl _, nofun, nofun, .leaf (some v), rfl, ?_⟩
    simp [Cells.layout, Layout.size, Malloc.GrantsFrom]
    omega
  | atom t ih =>
    obtain ⟨w, new, c, s₁, hrun, h⟩ := ih hb hg
    obtain ⟨w', new', c', s', hrun', h'⟩ := h.atom hb
    exact ⟨w', new', c', s', (Prog.bind_of_ok hrun).trans hrun', h'⟩
  | pair l r ihl ihr =>
    have hlive : b = nil ∨ s.Live b := hb.imp id And.left
    obtain ⟨hgl, hgr⟩ := Bool.and_eq_true_iff.mp hg
    unfold makeTree
    cases env.ltr with
    | true =>
      obtain ⟨x, new, cx, s₁, hrun, h⟩ := ihl hb hgl
      obtain ⟨y, new', cy, s₂, hrun', h'⟩ := ihr (hb.grown h.grown) hgr
      obtain ⟨w', new'', c', s', hrun'', h''⟩ := nest_pair env l r hb
        (h.grown.trans hlive h'.grown) (h.fits_grown h'.grown) h'.fits (h.nodup_append h')
        (List.append_subset.mpr ⟨fun p hp => List.mem_append_right _ (h.subset hp),
          fun p hp => List.mem_append_left _ (h'.subset hp)⟩)
        (List.forall_mem_append.mpr ⟨h.typed_grown h'.grown, h'.typed⟩)
        (List.forall_mem_append.mpr ⟨h.typed_atom_grown h'.grown, h'.typed_atom⟩) h.cut h'.cut
        (by rw [h'.requests, h.requests, Nat.add_assoc])
        (by rw [Malloc.grantsFrom_add, h.whole, ← h.requests, h'.whole])
      refine ⟨w', new'', c', s', ?_, h''⟩
      rw [if_pos rfl, Prog.bind_of_ok hrun, Prog.bind_of_ok hrun']
      exact hrun''
    | false =>
      obtain ⟨y, new, cy, s₁, hrun, h⟩ := ihr hb hgr
      obtain ⟨x, new', cx, s₂, hrun', h'⟩ := ihl (hb.grown h.grown) hgl
      obtain ⟨w', new'', c', s', hrun'', h''⟩ := nest_pair env l r hb
        (h.grown.trans hlive h'.grown) h'.fits (h.fits_grown h'.grown)
        (List.nodup_append_comm.mp (h.nodup_append h'))
        (List.append_subset.mpr ⟨fun p hp => List.mem_append_left _ (h'.subset hp),
          fun p hp => List.mem_append_right _ (h.subset hp)⟩)
        (List.forall_mem_append.mpr ⟨h'.typed, h.typed_grown h'.grown⟩)
        (List.forall_mem_append.mpr ⟨h'.typed_atom, h.typed_atom_grown h'.grown⟩) h'.cut h.cut
        (by rw [h'.requests, h.requests, Nat.add_assoc, Nat.add_comm r.size])
        (by rw [Nat.add_comm, Malloc.grantsFrom_add, h.whole, ← h.requests, h'.whole, and_comm])
      refine ⟨w', new'', c', s', ?_, h''⟩
      rw [if_neg Bool.false_ne_true, Prog.bind_of_ok hrun, Prog.bind_of_ok hrun']
      exact hrun''

end Nest

/-! ## `x_base_make` -/

namespace XBaseT

variable (cfg : XBaseT)

/-- The cell of a field as `x_base_make` lays it out. -/
def cell : Field → Layout Word
  | .filein => pair (atom cfg.filein) (val nil)
  | .fileout => pair (atom cfg.fileout) (val nil)
  | .fileerr => pair (atom cfg.fileerr) (val nil)
  | .hookTypeName => pair (val cfg.hookTypeName) (val nil)
  | .hookUnits => pair (val cfg.hookUnits) (val nil)
  | .hookLength => pair (val cfg.hookLength) (val nil)
  | .hookError => pair (val cfg.hookError) (val nil)
  | .objMetaExtra => pair (atom cfg.objMetaExtra) (val nil)
  | .heapMark => pair (val cfg.heapMark) (val nil)
  | .heapFree => pair (val cfg.heapFree) (val nil)
  | .profileAllocs | .allocCount | .allocLimit => pair (atom 0) (val nil)
  | .writeBuf | .buffer | .heapMarkHooks | .heapFreeHooks | .heapMarkRoots | .heapRootChain
  | .allocError => pair (val nil) (val nil)

theorem given_tree : Given cfg.tree = true := rfl

/-- The tree has every path of the accessors. -/
theorem tree_sub (f : Field) : (Layout.atom cfg.tree).sub f.valuePath ≠ none ∧
    (f.isInt → (Layout.atom cfg.tree).sub (f.valuePath ++ [false]) ≠ none) := by
  cases f <;> simp [Field.valuePath, Field.path, Field.nodePath, Field.listPath, Field.index,
    Field.isInt, tree, pair, atom, val, Layout.sub, List.replicate]

/-- The hooks, which are objects. -/
def hooks : List Ptr :=
  [cfg.hookTypeName, cfg.hookUnits, cfg.hookLength, cfg.hookError, cfg.heapMark, cfg.heapFree]

theorem links_tree : ∀ w ∈ cfg.tree.links, w = some nil ∨ ∃ h ∈ cfg.hooks, w = some h := by
  simp [tree, pair, atom, val, Layout.links, Layout.top, hooks]

theorem size_tree : cfg.tree.size = 55 := rfl

theorem tree_relaxes : cfg.tree.relaxes (skeleton cfg.cell) := by
  simp [tree, skeleton, fieldList, cell, pair, atom, val, anyWord, Layout.relaxes]

end XBaseT

/-- `s'` is `s` with a base made on `b`: the base object `c` in the block `a`, and then on it the
objects `new`, which hold the tree `t`. -/
structure BaseMade (env : Env) (s : Sys) (b : Ptr) (cfg : XBaseT) (c a : Ptr) (new : List Ptr)
    (t : Cells Word) (s' : Sys) : Prop where
  granted : env.malloc.grants s.requests = true
  made : ∃ s₁ w s₂, Made s b nil xObjFlagNone [nil] c a s₁ ∧
    Nest env s₁ c cfg.tree w new t s₂ ∧ s' = s₂.setUnit c 0 w

section BaseMake

variable {env : Env} {s s' : Sys} {b c a : Ptr} {cfg : XBaseT} {new : List Ptr} {t : Cells Word}

theorem Made.bare {data : List Word} {fl : Flags} (h : Made s b nil fl data c a s') : s'.Bare c :=
  .inr ⟨(h.live c).mpr (.inl rfl), h.typeOf_new⟩

/-- A base is made whenever its object is. -/
theorem xBaseMake_made (cfg : XBaseT) {s₁ : Sys} (hg : env.malloc.grants s.requests = true)
    (hrun : xObjMake env b nil xObjFlagNone [nil] s = .ok c s₁)
    (hm : Made s b nil xObjFlagNone [nil] c a s₁) :
    ∃ new t s', xBaseMake env b cfg s = .ok c s' ∧ BaseMade env s b cfg c a new t s' := by
  obtain ⟨w, new, t, s₂, hrun₂, hn⟩ := makeTree_run env hm.bare cfg.given_tree
  have hc : s₂.unit c 0 = some nil := by
    rw [hn.grown.unit_old c 0 ((hm.live c).mpr (.inl rfl)), Sys.unit, hm.data_new]
    rfl
  refine ⟨new, t, s₂.setUnit c 0 w, ?_, hg, s₁, w, s₂, hm, hn, rfl⟩
  unfold xBaseMake
  rw [Prog.bind_of_ok hrun, Prog.bind_of_ok hrun₂]
  exact Prog.bind_of_ok (setXObjDataI_eq hc)

/-- On no base, or on an untyped one, a base is made whenever `malloc` grants its object. -/
theorem xBaseMake_bare (env : Env) (cfg : XBaseT) (hb : s.Bare b)
    (hg : env.malloc.grants s.requests = true) :
    ∃ c a new t s', xBaseMake env b cfg s = .ok c s' ∧ BaseMade env s b cfg c a new t s' := by
  rcases xObjMake_bare env nil xObjFlagNone [nil] hb (by simp)
    with ⟨hno, -⟩ | ⟨c, a, s₁, -, hrun, hm⟩
  · rw [hg] at hno
    cases hno
  · obtain ⟨new, t, s', hrun', hm'⟩ := xBaseMake_made cfg hg hrun hm
    exact ⟨c, a, new, t, s', hrun', hm'⟩

/-- A call that returns has made a base. -/
theorem xBaseMake_ok (h : xBaseMake env b cfg s = .ok c s') :
    ∃ a new t, BaseMade env s b cfg c a new t s' := by
  have h₀ := h
  unfold xBaseMake at h₀
  rw [Prog.bind_ok] at h₀
  obtain ⟨c', s₁, hrun, h₀⟩ := h₀
  rcases xObjMake_ok hrun with ⟨rfl, -, -, rfl⟩ | ⟨a, hg, hm⟩
  · -- Without a base object the last store goes through `NULL`.
    rw [Prog.bind_ok] at h₀
    obtain ⟨w, s₂, -, h₀⟩ := h₀
    rw [Prog.bind_ok] at h₀
    obtain ⟨_, s₃, hs, -⟩ := h₀
    obtain ⟨⟨v, hv⟩, -⟩ := setXObjDataI_ok.mp hs
    exact absurd (live_of_unit hv) not_live_nil
  · obtain ⟨new, t, s₂, hrun₂, hb⟩ := xBaseMake_made cfg hg hrun hm
    cases h.symm.trans hrun₂
    exact ⟨a, new, t, hb⟩

namespace BaseMade

variable {q : Ptr} {i : Nat}

theorem new_base (h : BaseMade env s b cfg c a new t s') : ¬ s.Live c := by
  obtain ⟨s₁, w, s₂, hm, -, -⟩ := h.made
  exact hm.new

theorem live (h : BaseMade env s b cfg c a new t s') (q : Ptr) :
    s'.Live q ↔ q ∈ c :: new ∨ s.Live q := by
  obtain ⟨s₁, w, s₂, hm, hn, rfl⟩ := h.made
  rw [live_setUnit, hn.grown.live, hm.live, List.mem_cons]
  tauto

theorem nodup (h : BaseMade env s b cfg c a new t s') : (c :: new).Nodup := by
  obtain ⟨s₁, w, s₂, hm, hn, rfl⟩ := h.made
  refine List.nodup_cons.mpr ⟨fun hc => (hn.grown.fresh c hc).2.1 ?_, hn.grown.nodup⟩
  exact (hm.live c).mpr (.inl rfl)

theorem fresh (h : BaseMade env s b cfg c a new t s') : ∀ q ∈ c :: new, q ≠ nil ∧ ¬ s.Live q := by
  obtain ⟨s₁, w, s₂, hm, hn, rfl⟩ := h.made
  intro q hq
  rcases List.mem_cons.mp hq with rfl | hq
  · exact ⟨hm.ne_nil, hm.new⟩
  · obtain ⟨h₁, h₂, -⟩ := hn.grown.fresh q hq
    exact ⟨h₁, fun hl => h₂ ((hm.live q).mpr (.inr hl))⟩

/-- The new objects stand in the chain between the base and what followed it. -/
theorem chain (h : BaseMade env s b cfg c a new t s') (hb : b ≠ nil) :
    Seg s'.next (s'.next b) (c :: new) (s.next b) := by
  obtain ⟨s₁, w, s₂, hm, hn, rfl⟩ := h.made
  have hbl := hm.base.resolve_left hb
  have hbc : b ≠ c := fun e => hm.new (e ▸ hbl)
  have hb₂ : s₂.next b = c := by
    rw [hn.grown.next_old b ((hm.live b).mpr (.inr hbl)) hbc, hm.next_old b hbl, if_pos rfl]
  have hc := hn.grown.chain hm.ne_nil
  rw [hm.next_new] at hc
  rw [next_setUnit, hb₂]
  exact ⟨rfl, by rw [next_setUnit]; exact hc.congr fun q _ => next_setUnit⟩

theorem chain_nil (h : BaseMade env s nil cfg c a new t s') : Seg s'.next (s'.next c) new nil := by
  obtain ⟨s₁, w, s₂, hm, hn, rfl⟩ := h.made
  have hc := hn.grown.chain hm.ne_nil
  rw [hm.next_new, next_nil] at hc
  rw [next_setUnit]
  exact hc.congr fun q _ => next_setUnit

theorem next_old (h : BaseMade env s b cfg c a new t s') (hq : s.Live q) (hqb : q ≠ b) :
    s'.next q = s.next q := by
  obtain ⟨s₁, w, s₂, hm, hn, rfl⟩ := h.made
  have hqc : q ≠ c := fun e => hm.new (e ▸ hq)
  rw [next_setUnit, hn.grown.next_old q ((hm.live q).mpr (.inr hq)) hqc, hm.next_old q hq,
    if_neg hqb]

theorem typeOf_old (h : BaseMade env s b cfg c a new t s') (hq : s.Live q) :
    s'.typeOf q = s.typeOf q := by
  obtain ⟨s₁, w, s₂, hm, hn, rfl⟩ := h.made
  rw [typeOf_setUnit, hn.grown.typeOf_old q ((hm.live q).mpr (.inr hq)),
    hm.typeOf_old q fun e => hm.new (e ▸ hq)]

theorem typeOf_base (h : BaseMade env s b cfg c a new t s') : s'.typeOf c = nil := by
  obtain ⟨s₁, w, s₂, hm, hn, rfl⟩ := h.made
  rw [typeOf_setUnit, hn.grown.typeOf_old c ((hm.live c).mpr (.inl rfl)), hm.typeOf_new]

theorem flagsOf_old (h : BaseMade env s b cfg c a new t s') (hq : s.Live q) :
    s'.flagsOf q = s.flagsOf q := by
  obtain ⟨s₁, w, s₂, hm, hn, rfl⟩ := h.made
  rw [flagsOf_setUnit, hn.grown.flagsOf_old q ((hm.live q).mpr (.inr hq)),
    hm.flagsOf_old q fun e => hm.new (e ▸ hq)]

theorem flagsOf_base (h : BaseMade env s b cfg c a new t s') (hx : s.extraOf b = 0) :
    s'.flagsOf c = xObjFlagNone := by
  obtain ⟨s₁, w, s₂, hm, hn, rfl⟩ := h.made
  rw [flagsOf_setUnit, hn.grown.flagsOf_old c ((hm.live c).mpr (.inl rfl)), hm.flagsOf_new, hx]
  rfl

theorem flagsOf_new (h : BaseMade env s b cfg c a new t s') (hq : q ∈ new) :
    s'.flagsOf q = xObjFlagShared := by
  obtain ⟨s₁, w, s₂, hm, hn, rfl⟩ := h.made
  rw [flagsOf_setUnit, hn.grown.flagsOf_new q hq]

theorem unit_old (h : BaseMade env s b cfg c a new t s') (hq : s.Live q) :
    s'.unit q i =
      if s.Full b ∧ s.fieldObj b .allocCount = some q ∧ i = 0 then (s.unit q 0).map (· + 1)
      else s.unit q i := by
  obtain ⟨s₁, w, s₂, hm, hn, rfl⟩ := h.made
  have hqc : q ≠ c := fun e => hm.new (e ▸ hq)
  have hc : s₂.unit c 0 = some nil := by
    rw [hn.grown.unit_old c 0 ((hm.live c).mpr (.inl rfl)), Sys.unit, hm.data_new]
    rfl
  rw [unit_setUnit hc, if_neg fun h => hqc h.1, hn.grown.unit_old q i ((hm.live q).mpr (.inr hq)),
    hm.unit_old q i hqc]

theorem trace (h : BaseMade env s b cfg c a new t s') :
    s'.trace = new.map (fun p => .objAlloc p p) ++ .objAlloc c a :: s.trace := by
  obtain ⟨s₁, w, s₂, hm, hn, rfl⟩ := h.made
  rw [show (s₂.setUnit c 0 w).trace = s₂.trace from trace_modify, hn.grown.trace, hm.trace]

theorem block (h : BaseMade env s b cfg c a new t s') (w : Ptr) :
    s'.block w = if w ∈ new then some w else if w = a then some c else s.block w := by
  obtain ⟨s₁, v, s₂, hm, hn, rfl⟩ := h.made
  rw [block_setUnit, hn.grown.block, hm.block]

theorem addr (h : BaseMade env s b cfg c a new t s') (hx : s.extraOf b = 0) : a = c := by
  obtain ⟨s₁, w, s₂, hm, -, -⟩ := h.made
  have := hm.addr
  rw [hx] at this
  simpa using this.symm

/-- The base object leads to the tree, as far as it was made. -/
theorem tree (h : BaseMade env s b cfg c a new t s') :
    (Cells.atom c t).Fits s'.unit c ∧ (c :: t.nodes).Nodup ∧ t.nodes ⊆ new ∧
      (∀ q ∈ t.pairs, s'.typeOf q = xTypePairObj) ∧
      (∀ q ∈ t.atoms, s'.typeOf q = xTypeAtomObj) ∧ Cut cfg.tree t.layout ∧
      (env.malloc.GrantsFrom (s.requests + 1) 55 ↔ t.layout = cfg.tree) := by
  have hcn : c ∉ new := (List.nodup_cons.mp h.nodup).1
  obtain ⟨s₁, w, s₂, hm, hn, rfl⟩ := h.made
  have hc : s₂.unit c 0 = some nil := by
    rw [hn.grown.unit_old c 0 ((hm.live c).mpr (.inl rfl)), Sys.unit, hm.data_new]
    rfl
  refine ⟨⟨rfl, w, ?_, hn.fits.congr fun q hq i u hu => ?_⟩, ?_, hn.subset, fun q hq => ?_,
    fun q hq => ?_, hn.cut, ?_⟩
  · rw [unit_setUnit hc, if_pos ⟨rfl, rfl⟩]
  · have hqc : q ≠ c := fun e => hcn (e ▸ hn.subset hq)
    rw [unit_setUnit hc, if_neg fun h => hqc h.1, hu]
  · exact List.nodup_cons.mpr ⟨fun h => hcn (hn.subset h), hn.nodup⟩
  · rw [typeOf_setUnit, hn.typed q hq]
  · rw [typeOf_setUnit, hn.typed_atom q hq]
  · have hw := hn.whole
    rwa [hm.requests, cfg.size_tree] at hw

/-- If `malloc` granted every request, the tree is the whole nest of `x_base_make`. -/
theorem baseTree (h : BaseMade env s b cfg c a new t s')
    (hg : env.malloc.GrantsFrom (s.requests + 1) 55) :
    ∃ d, BaseTree s' c d cfg.cell ∧ d.nodes ⊆ new ∧
      ∀ q ∈ d.pairs, s'.typeOf q = xTypePairObj := by
  obtain ⟨⟨-, w, hw, hfit⟩, hn, hsub, htyped, -, -, hwhole⟩ := h.tree
  obtain ⟨d, hd, hl, hdt, hdp⟩ := hfit.relax (t := skeleton cfg.cell)
    (hwhole.mp hg ▸ cfg.tree_relaxes)
  exact ⟨d, ⟨⟨rfl, w, hw, hd⟩, hl, hn.sublist (hdt.cons_cons c)⟩,
    fun q hq => hsub (hdt.subset hq), fun q hq => htyped q (hdp hq)⟩

/-- What the accessors read of a new base is in its own nodes. -/
theorem walk {π : List Bool} (h : BaseMade env s b cfg c a new t s')
    (hπ : (Layout.atom cfg.tree).sub π ≠ none) :
    ∀ x ∈ Mem.walk s'.unit c π, x.1 ∈ c :: new ∨ x.1 = nil := by
  obtain ⟨hfit, -, hsub, -, -, hcut, -⟩ := h.tree
  intro x hx
  refine (Cut.walk (t := .atom cfg.tree) (c := .atom c t) (.atom hcut) hfit (fun _ => unit_nil) hπ
    x hx).imp
    (fun hm => ?_) id
  exact (List.mem_cons.mp hm).elim (fun e => e ▸ .head _) fun hm => .tail _ (hsub hm)

end BaseMade

end BaseMake

end XExpr
