import XExpr.Heap.Mark
import XExpr.Lib.Dfs

/-!
# What the marker does on its way

`x_heap_tree_mark` calls itself on the first of a pair and iterates on the rest, so that a long
list does not use up the C stack. Here the marker also writes a log: the frames that it needs above
its own, the objects that it marks, in order, and the objects that it calls the mark hook on.

* `treeMarkLoopLog`, `xHeapTreeMarkLog`: the marker with its log. `treeMarkLoop_eq`: it is the
  marker.
* `Marking`: what a run of it does, step by step.
* `mark_depth`: it needs no more frames than there are unmarked objects, nor than objects are
  nested, and one for each pair nested as the first of another; `xHeapTreeMarkLog_flat`: so one is
  enough for a list of any length.
* `mark_order`: it is a depth-first search, and calls the hook once on each object that it marks
  and that is not a pair.
-/

namespace XExpr

open Sys Relation
open Reach (Dfs)

/-! ## The log -/

structure MarkLog where
  /-- Frames above the marker's own. -/
  depth : Nat
  /-- The objects marked. -/
  order : List Ptr
  /-- The objects that the mark hook is called on. -/
  hooked : List Ptr

namespace MarkLog

def empty : MarkLog := ⟨0, [], []⟩

/-- As the caller sees it. -/
def call (x : MarkLog) : MarkLog := ⟨x.depth + 1, x.order, x.hooked⟩

def append (x y : MarkLog) : MarkLog :=
  ⟨max x.depth y.depth, x.order ++ y.order, x.hooked ++ y.hooked⟩

/-- After the object `p` was marked. -/
def mark (p : Ptr) (x : MarkLog) : MarkLog := ⟨x.depth, p :: x.order, x.hooked⟩

/-- After the hook was called on `p`. -/
def hook (p : Ptr) (x : MarkLog) : MarkLog := ⟨x.depth, x.order, p :: x.hooked⟩

theorem append_empty (x : MarkLog) : x.append empty = x := by
  simp [append, empty]

theorem empty_append (x : MarkLog) : empty.append x = x := by
  simp [append, empty]

theorem append_assoc (x y z : MarkLog) : (x.append y).append z = x.append (y.append z) := by
  simp [append, Nat.max_assoc]

end MarkLog

/-- The loop of `x_heap_tree_mark`, with its log. -/
def treeMarkLoopLog (env : Env) (b : Ptr) (flags : Flags) :
    Nat → Word → Ptr → M (Ptr × MarkLog)
  | 0, _, _ => throw .diverge
  | n + 1, fn, p => do
    if p = nil then return (p, .empty)
    let fl ← xObjFlags p
    if fl &&& flags = flags then return (p, .empty)
    setXObjFlags p (fl ||| flags)
    if ← xObjTypeIsspair p then
      let first ← xFirst p
      let fn' ← heapFn .heapMark b
      let x ← treeMarkLoopLog env b flags n fn' first
      let y ← treeMarkLoopLog env b flags n fn (← xRest p)
      return (y.1, .mark p (x.2.call.append y.2))
    else if fn ≠ nil then
      let (l, q) := (env.markFn fn).report (← get) b p
      let d ← l.foldlM (fun d q => do
        let fn' ← heapFn .heapMark b
        let x ← treeMarkLoopLog env b flags n fn' q
        return d.append x.2.call) MarkLog.empty
      if q ≠ nil then
        let y ← treeMarkLoopLog env b flags n fn q
        return (y.1, .mark p (.hook p (d.append y.2)))
      else return (nil, .mark p (.hook p d))
    else return (p, .mark p .empty)

/-- `x_heap_tree_mark`, with its log. -/
def xHeapTreeMarkLog (env : Env) (b p : Ptr) (flags : Flags) : M (Ptr × MarkLog) := do
  let fn ← heapFn .heapMark b
  treeMarkLoopLog env b flags (passes (← get)) fn p

section Log

variable {env : Env} {b p r : Ptr} {fn : Word} {F : Flags} {s s' : Sys} {n : Nat}

/-- The calls of a mark hook. -/
theorem foldlM_eq_forM {f : Ptr → M PUnit} {g : MarkLog → Ptr → M MarkLog}
    (h : ∀ d q, f q = g d q >>= fun _ => pure ⟨⟩) (l : List Ptr) (d : MarkLog) :
    l.forM f = l.foldlM g d >>= fun _ => pure ⟨⟩ := by
  induction l generalizing d with
  | nil => rfl
  | cons q l ih =>
    change f q >>= (fun _ => l.forM f) = _
    rw [List.foldlM_cons, bind_assoc, h d q, bind_assoc]
    exact bind_congr fun d' => by rw [pure_bind, ih d']

/-- The log changes nothing. -/
theorem treeMarkLoop_eq (n : Nat) (fn : Word) (p : Ptr) : treeMarkLoop env b F n fn p =
    treeMarkLoopLog env b F n fn p >>= fun x => pure x.1 := by
  induction n generalizing fn p with
  | zero => rfl
  | succ n ih =>
    unfold treeMarkLoop treeMarkLoopLog
    split
    · rfl
    simp only [bind_assoc]
    refine bind_congr fun fl => ?_
    split
    · rfl
    simp only [bind_assoc]
    refine bind_congr fun _ => bind_congr fun pair => ?_
    split
    · simp only [bind_assoc, ih, pure_bind]
    · split
      · simp only [bind_assoc]
        refine bind_congr fun s => ?_
        rw [foldlM_eq_forM (g := fun d q => do
          let fn' ← heapFn .heapMark b
          let x ← treeMarkLoopLog env b F n fn' q
          return d.append x.2.call) (fun d q => by simp only [bind_assoc, ih, pure_bind]) _ .empty]
        simp only [bind_assoc, pure_bind]
        refine bind_congr fun d => ?_
        split
        · simp only [bind_assoc, ih, pure_bind]
        · rfl
      · rfl

end Log

/-! ## What a run does -/

/-- What is left to mark: the rest of a loop, or the calls that a mark hook makes. -/
inductive Work
  | loop (p : Ptr)
  | calls (l : List Ptr)

/-- The roots from which it is marked. -/
def Work.roots : Work → List Ptr
  | loop p => [p]
  | calls l => l

/-- Marking from `s` to `s'` with the mark hook `fn`, and its log. -/
inductive Marking (env : Env) (b : Ptr) (fn : Word) (F : Flags) :
    Sys → Work → MarkLog → Sys → Prop
  | stop {s : Sys} {p : Ptr} (h : p = nil ∨ s.flagsOf p &&& F = F) :
      Marking env b fn F s (.loop p) .empty s
  | pair {s s₁ s' : Sys} {p x y : Ptr} {d d' : MarkLog} (hp : s.Live p)
      (hm : s.flagsOf p &&& F ≠ F) (ht : s.typeOf p = xTypePairObj) (hx : s.unit p 0 = some x)
      (hy : s.unit p 1 = some y)
      (h : Marking env b fn F (s.setFlags p (s.flagsOf p ||| F)) (.loop x) d s₁)
      (h' : Marking env b fn F s₁ (.loop y) d' s') :
      Marking env b fn F s (.loop p) (.mark p (d.call.append d')) s'
  | leaf {s : Sys} {p : Ptr} (hp : s.Live p) (hm : s.flagsOf p &&& F ≠ F)
      (ht : s.typeOf p ≠ xTypePairObj) (hf : fn = nil) :
      Marking env b fn F s (.loop p) (.mark p .empty) (s.setFlags p (s.flagsOf p ||| F))
  | hook {s s₁ s' : Sys} {p : Ptr} {d d' : MarkLog} (hp : s.Live p) (hm : s.flagsOf p &&& F ≠ F)
      (ht : s.typeOf p ≠ xTypePairObj) (hf : fn ≠ nil)
      (h : Marking env b fn F (s.setFlags p (s.flagsOf p ||| F))
        (.calls ((env.markFn fn).report s b p).1) d s₁)
      (h' : Marking env b fn F s₁ (.loop ((env.markFn fn).report s b p).2) d' s') :
      Marking env b fn F s (.loop p) (.mark p (.hook p (d.append d'))) s'
  | done {s : Sys} : Marking env b fn F s (.calls []) .empty s
  | call {s s₁ s' : Sys} {q : Ptr} {l : List Ptr} {d d' : MarkLog}
      (h : Marking env b fn F s (.loop q) d s₁) (h' : Marking env b fn F s₁ (.calls l) d' s') :
      Marking env b fn F s (.calls (q :: l)) (d.call.append d') s'

section Runs

variable {env : Env} {b p r : Ptr} {fn : Word} {F : Flags} {s s' : Sys} {n : Nat}
  {d d' : MarkLog} {l : List Ptr} {w : Work} {h : Ptr → Nat}

theorem Marking.marked (hm : Marking env b fn F s w d s') : ∃ A, Marked s F A s' := by
  induction hm with
  | stop _ => exact Marked.rfl
  | pair hp _ _ _ _ _ _ ih ih' =>
    obtain ⟨A, hA⟩ := ih
    exact (Marked.setFlags hp).after (hA.after ih')
  | leaf hp _ _ _ => exact ⟨_, Marked.setFlags hp⟩
  | hook hp _ _ _ _ _ ih ih' =>
    obtain ⟨A, hA⟩ := ih
    exact (Marked.setFlags hp).after (hA.after ih')
  | done => exact Marked.rfl
  | call _ _ ih ih' =>
    obtain ⟨A, hA⟩ := ih
    exact hA.after ih'

theorem Marking.same (hm : Marking env b fn F s w d s') : s.SameButFlags s' := by
  obtain ⟨A, hA⟩ := hm.marked
  exact hA.same

/-- A run of the calls of a mark hook. -/
theorem calls_marking (hloop : ∀ {s s' : Sys} {p r : Ptr} {d : MarkLog},
      s.hookWord .heapMark b = some fn →
      treeMarkLoopLog env b F n fn p s = .ok (r, d) s' → Marking env b fn F s (.loop p) d s')
    (hfn : s.hookWord .heapMark b = some fn)
    (hr : (l.foldlM (fun (d : MarkLog) q => do
      let fn' ← heapFn .heapMark b
      let x ← treeMarkLoopLog env b F n fn' q
      return d.append x.2.call) d) s = .ok d' s') :
    ∃ e, d' = d.append e ∧ Marking env b fn F s (.calls l) e s' := by
  induction l generalizing s d with
  | nil =>
    cases hr
    exact ⟨.empty, (MarkLog.append_empty _).symm, .done⟩
  | cons q l ih =>
    rw [List.foldlM_cons, bind_assoc, Prog.bind_of_ok (heapFn_run hfn), bind_assoc,
      Prog.bind_ok] at hr
    obtain ⟨⟨r, e⟩, s₁, h₁, hr⟩ := hr
    have hm := hloop hfn h₁
    rw [pure_bind] at hr
    obtain ⟨e', rfl, h'⟩ := ih (hm.same.hookWord.trans hfn) hr
    exact ⟨e.call.append e', MarkLog.append_assoc .., .call hm h'⟩

/-- A run of the marker with its log. -/
theorem treeMarkLoopLog_ok (hfn : s.hookWord .heapMark b = some fn)
    (hr : treeMarkLoopLog env b F n fn p s = .ok (r, d) s') :
    Marking env b fn F s (.loop p) d s' := by
  induction n generalizing s s' p r d with
  | zero => cases hr
  | succ n ih =>
    unfold treeMarkLoopLog at hr
    split at hr
    · next e =>
      cases hr
      exact .stop (.inl e)
    rw [Prog.bind_ok] at hr
    obtain ⟨fl, s₁, hfl, hr⟩ := hr
    obtain ⟨hp, rfl, rfl⟩ := xObjFlags_ok.mp hfl
    split at hr
    · next e =>
      cases hr
      exact .stop (.inr e)
    next hm =>
    have hfn₁ : (s₁.setFlags p (s₁.flagsOf p ||| F)).hookWord .heapMark b = some fn :=
      (Marked.setFlags hp).same.hookWord.trans hfn
    rw [Prog.bind_of_ok (setXObjFlags_eq hp),
      Prog.bind_of_ok (xObjTypeIsspair_eq (live_setFlags.mpr hp)), typeOf_setFlags] at hr
    by_cases ht : s₁.typeOf p = xTypePairObj
    · rw [decide_eq_true ht, if_pos rfl, Prog.bind_ok] at hr
      obtain ⟨x, s₂, hx, hr⟩ := hr
      obtain ⟨hux, rfl⟩ := xFirst_ok.mp hx
      rw [Prog.bind_of_ok (heapFn_run hfn₁), Prog.bind_ok] at hr
      obtain ⟨⟨r₁, d₁⟩, s₃, h₁, hr⟩ := hr
      have hm₁ := ih hfn₁ h₁
      rw [Prog.bind_ok] at hr
      obtain ⟨y, s₄, hy, hr⟩ := hr
      obtain ⟨huy, rfl⟩ := xRest_ok.mp hy
      rw [Prog.bind_ok] at hr
      obtain ⟨⟨r₂, d₂⟩, s₅, h₂, hr⟩ := hr
      cases hr
      rw [hm₁.same.unit, unit_setFlags] at huy
      exact .pair hp hm ht (unit_setFlags.symm.trans hux) huy hm₁
        (ih (hm₁.same.hookWord.trans hfn₁) h₂)
    · rw [decide_eq_false ht, if_neg Bool.false_ne_true] at hr
      split at hr
      · next hf =>
        rw [Prog.get_bind, ← (env.markFn fn).stable _ _ (Marked.setFlags (F := F) hp).same,
          Prog.bind_ok] at hr
        obtain ⟨d₁, s₂, h₁, hr⟩ := hr
        obtain ⟨e, he, hm₁⟩ := calls_marking ih hfn₁ h₁
        rw [MarkLog.empty_append] at he
        subst he
        split at hr
        · rw [Prog.bind_ok] at hr
          obtain ⟨⟨r₂, d₂⟩, s₃, h₂, hr⟩ := hr
          cases hr
          exact .hook hp hm ht hf hm₁ (ih (hm₁.same.hookWord.trans hfn₁) h₂)
        · next hq =>
          cases hr
          exact MarkLog.append_empty d₁ ▸ .hook hp hm ht hf hm₁ (.stop (.inl (not_not.mp hq)))
      · next hf =>
        cases hr
        exact .leaf hp hm ht (not_not.mp hf)

/-! ## Bounds -/

/-- The calls of a hook need a frame more than the unmarked objects, their marker's own. -/
theorem Marking.depth_le_unmarked (hm : Marking env b fn F s w d s') :
    match w with
    | .loop _ => d.depth ≤ s.unmarked F
    | .calls _ => d.depth ≤ s.unmarked F + 1 := by
  induction hm with
  | stop _ => exact Nat.zero_le _
  | pair hp hm _ _ _ h _ ih ih' =>
    obtain ⟨A, hA⟩ := h.marked
    have := unmarked_setFlags_lt hp hm
    have := hA.unmarked_le
    simp only [MarkLog.mark, MarkLog.append, MarkLog.call] at ih ih' ⊢
    omega
  | leaf _ _ _ _ => exact Nat.zero_le _
  | hook hp hm _ _ h _ ih ih' =>
    obtain ⟨A, hA⟩ := h.marked
    have := unmarked_setFlags_lt hp hm
    have := hA.unmarked_le
    simp only [MarkLog.mark, MarkLog.hook, MarkLog.append] at ih ih' ⊢
    omega
  | done => exact Nat.zero_le _
  | call h _ ih ih' =>
    obtain ⟨A, hA⟩ := h.marked
    have := hA.unmarked_le
    simp only [MarkLog.append, MarkLog.call] at ih ih' ⊢
    omega

/-- A rank of the objects that a call of the marker decreases, and a pass of its loop does not
increase. -/
structure Sys.Rank (env : Env) (s : Sys) (b : Ptr) (fn : Word) (h : Ptr → Nat) : Prop where
  first : ∀ p x, s.typeOf p = xTypePairObj → s.unit p 0 = some x → h x < h p
  rest : ∀ p y, s.typeOf p = xTypePairObj → s.unit p 1 = some y → y ≠ nil → h y ≤ h p
  calls : ∀ p, s.typeOf p ≠ xTypePairObj → fn ≠ nil →
    ∀ q ∈ ((env.markFn fn).report s b p).1, h q < h p
  next : ∀ p, s.typeOf p ≠ xTypePairObj → fn ≠ nil →
    ((env.markFn fn).report s b p).2 ≠ nil → h ((env.markFn fn).report s b p).2 ≤ h p

theorem Sys.Rank.same (hk : s.Rank env b fn h) (hs : s.SameButFlags s') : s'.Rank env b fn h := by
  have he := (env.markFn fn).stable s s' hs
  refine ⟨fun p x ht hx => hk.first p x (hs.typeOf ▸ ht) (hs.unit ▸ hx), fun p y ht hy hn =>
    hk.rest p y (hs.typeOf ▸ ht) (hs.unit ▸ hy) hn, fun p ht hf q hq => ?_, fun p ht hf hn => ?_⟩
  · exact hk.calls p (hs.typeOf ▸ ht) hf q (he ▸ hq)
  · rw [← he] at hn ⊢
    exact hk.next p (hs.typeOf ▸ ht) hf hn

/-- The loop needs no more frames than the rank of its object, and none at `NULL`. -/
theorem Marking.depth_le_rank (hm : Marking env b fn F s w d s') (hk : s.Rank env b fn h) :
    match w with
    | .loop p => d.depth ≤ if p = nil then 0 else h p
    | .calls l => ∀ k, (∀ q ∈ l, h q < k) → d.depth ≤ k := by
  have hle : ∀ q, (if q = nil then 0 else h q) ≤ h q := fun q => by
    split
    · exact Nat.zero_le _
    · exact le_rfl
  induction hm with
  | stop _ => exact Nat.zero_le _
  | @pair s s₁ s' p x y d d' hp hm ht hx hy hx' hy' ih ih' =>
    have hs := (Marked.setFlags (F := F) hp).same
    have hd : d.depth < h p := ((ih (hk.same hs)).trans (hle x)).trans_lt (hk.first p x ht hx)
    have hd' : d'.depth ≤ h p := (ih' (hk.same (hs.trans hx'.same))).trans (by
      split
      · exact Nat.zero_le _
      · next hn => exact hk.rest p y ht hy hn)
    exact (max_le hd hd').trans (if_neg hp.ne_nil).ge
  | leaf _ _ _ _ => exact Nat.zero_le _
  | @hook s s₁ s' p d d' hp hm ht hf hl hq ih ih' =>
    have hs := (Marked.setFlags (F := F) hp).same
    have hd : d.depth ≤ h p := ih (hk.same hs) (h p) (hk.calls p ht hf)
    have hd' : d'.depth ≤ h p := (ih' (hk.same (hs.trans hl.same))).trans (by
      split
      · exact Nat.zero_le _
      · next hn => exact hk.next p ht hf hn)
    exact (max_le hd hd').trans (if_neg hp.ne_nil).ge
  | done => exact fun _ _ => Nat.zero_le _
  | @call s s₁ s' q l d d' h₁ _ ih ih' =>
    intro k hq
    have hd : d.depth < k := ((ih hk).trans (hle q)).trans_lt (hq q (.head _))
    exact max_le hd (ih' (hk.same h₁.same) k fun x hx => hq x (.tail _ hx))

/-- Pairs without marks, each the first of the one before. -/
def Sys.FirstPath (s : Sys) (F : Flags) : Ptr → List Ptr → Prop
  | _, [] => True
  | p, q :: l => p = q ∧ q ∉ l ∧ q ≠ nil ∧ s.typeOf q = xTypePairObj ∧ s.flagsOf q &&& F ≠ F ∧
      ∃ x, s.unit q 0 = some x ∧ s.FirstPath F x l

theorem Sys.FirstPath.setFlags {q : Ptr} {fl : Flags} (hq : s.Live q) (hl : s.FirstPath F p l)
    (hn : q ∉ l) : (s.setFlags q fl).FirstPath F p l := by
  induction l generalizing p with
  | nil => trivial
  | cons x l ih =>
    obtain ⟨rfl, hx, hne, ht, hm, y, hy, hl⟩ := hl
    refine ⟨rfl, hx, hne, typeOf_setFlags.trans ht, ?_, y, unit_setFlags.trans hy,
      ih hl fun h => hn (.tail _ h)⟩
    rwa [flagsOf_setFlags hq, if_neg fun e : p = q => hn (e ▸ .head _)]

/-- Each of these pairs needs a frame for its first. -/
theorem Marking.length_le_depth (hm : Marking env b fn F s w d s') :
    match w with
    | .loop p => ∀ l, s.FirstPath F p l → l.length ≤ d.depth
    | .calls _ => True := by
  induction hm with
  | stop h =>
    rintro (_ | ⟨q, l⟩) hl
    · exact le_rfl
    · obtain ⟨rfl, -, hne, -, hm, -⟩ := hl
      exact absurd h (not_or.mpr ⟨hne, hm⟩)
  | @pair s s₁ s' p x y d d' hp hm ht hx hy _ _ ih _ =>
    rintro (_ | ⟨q, l⟩) hl
    · exact Nat.zero_le _
    · obtain ⟨rfl, hn, -, -, -, z, hz, hl⟩ := hl
      obtain rfl : x = z := Option.some.inj (hx.symm.trans hz)
      exact (Nat.succ_le_succ (ih l (hl.setFlags hp hn))).trans (le_max_left ..)
  | leaf _ _ ht _ =>
    rintro (_ | ⟨q, l⟩) hl
    · exact le_rfl
    · obtain ⟨rfl, -, -, ht', -⟩ := hl
      exact absurd ht' ht
  | hook _ _ ht _ _ _ _ _ =>
    rintro (_ | ⟨q, l⟩) hl
    · exact Nat.zero_le _
    · obtain ⟨rfl, -, -, ht', -⟩ := hl
      exact absurd ht' ht
  | done => trivial
  | call _ _ _ _ => trivial

/-! ## The order -/

theorem Sys.SameButFlags.succs (h : s.SameButFlags s') :
    s'.succs env b fn = s.succs env b fn := by
  funext q
  simp only [Sys.succs, h.typeOf, h.unit, ← (env.markFn fn).stable s s' h]

theorem nonNil_singleton (hp : p ≠ nil) : nonNil [p] = [p] := by simp [nonNil, hp]

theorem marks_setFlags (hp : s.Live p) :
    (s.setFlags p (s.flagsOf p ||| F)).marks F = insert p (s.marks F) :=
  (Marked.setFlags hp).marks (Set.subset_insert ..) fun _ hq =>
    hq.elim (fun e => .inr (e ▸ hp)) .inl

/-- An object is visited before its successors. -/
theorem dfs_node {v : List Ptr} (hp : s.Live p) (hm : s.flagsOf p &&& F ≠ F)
    (hl : s.succs env b fn p = l)
    (h : Dfs (fun q => nonNil ((s.setFlags p (s.flagsOf p ||| F)).succs env b fn q))
      ((s.setFlags p (s.flagsOf p ||| F)).marks F) (nonNil l) v) :
    Dfs (fun q => nonNil (s.succs env b fn q)) (s.marks F) (nonNil [p]) (p :: v) := by
  rw [(Marked.setFlags (F := F) hp).same.succs, marks_setFlags hp, ← hl] at h
  rw [nonNil_singleton hp.ne_nil]
  exact .visit hm ((List.append_nil _).symm ▸ h)

/-- The marker searches depth first. -/
theorem Marking.dfs (hm : Marking env b fn F s w d s') :
    Dfs (fun q => nonNil (s.succs env b fn q)) (s.marks F) (nonNil w.roots) d.order ∧
      s'.marks F = s.marks F ∪ {q | q ∈ d.order} := by
  induction hm with
  | @stop s p h =>
    refine ⟨?_, (Set.union_empty _).symm.trans (congrArg _ (by simp [MarkLog.empty]))⟩
    by_cases hp : p = nil
    · rw [hp]
      exact .done
    · rw [Work.roots, nonNil_singleton hp]
      exact .seen (h.resolve_left hp) .done
  | @pair s s₁ s' p x y d d' hp hm ht hx hy h₁ _ ih ih' =>
    have hl : s.succs env b fn p = [x] ++ [y] := by simp [succs, ht, hx, hy]
    rw [h₁.same.succs, ih.2] at ih'
    refine ⟨dfs_node hp hm hl (nonNil_append.symm ▸ ih.1.append ih'.1), ?_⟩
    rw [ih'.2, marks_setFlags hp, Reach.union_mem_append]
    exact Reach.insert_union_mem
  | @leaf s p hp hm ht hf =>
    have hl : s.succs env b fn p = [] := by simp [succs, ht, hf]
    refine ⟨dfs_node hp hm hl .done, ?_⟩
    rw [marks_setFlags hp, ← Set.union_singleton]
    simp [MarkLog.mark, MarkLog.empty]
  | @hook s s₁ s' p d d' hp hm ht hf h₁ _ ih ih' =>
    have hl : s.succs env b fn p = ((env.markFn fn).report s b p).1 ++
        [((env.markFn fn).report s b p).2] := by simp [succs, ht, hf]
    rw [h₁.same.succs, ih.2] at ih'
    refine ⟨dfs_node hp hm hl (nonNil_append.symm ▸ ih.1.append ih'.1), ?_⟩
    rw [ih'.2, marks_setFlags hp, Reach.union_mem_append]
    exact Reach.insert_union_mem
  | @done s => exact ⟨.done, (Set.union_empty _).symm.trans (congrArg _ (by simp [MarkLog.empty]))⟩
  | @call s s₁ s' q l d d' h₁ _ ih ih' =>
    rw [h₁.same.succs, ih.2] at ih'
    refine ⟨?_, ih'.2.trans Reach.union_mem_append⟩
    have h := ih.1.append ih'.1
    rw [← nonNil_append] at h
    exact h

/-- The hook is called on each object that is marked and is not a pair. -/
theorem Marking.hooked (hm : Marking env b fn F s w d s') :
    d.hooked = if fn = nil then [] else d.order.filter fun q => s.typeOf q ≠ xTypePairObj := by
  induction hm with
  | stop _ => exact (ite_self _).symm
  | @pair s s₁ s' p x y d d' hp hm ht hx hy h₁ _ ih ih' =>
    simp only [h₁.same.typeOf, typeOf_setFlags] at ih ih'
    simp only [MarkLog.mark, MarkLog.append, MarkLog.call, ih, ih']
    split
    · rfl
    · rw [List.filter_cons_of_neg (by simpa using ht), List.filter_append]
  | leaf _ _ _ hf => exact (if_pos hf).symm
  | @hook s s₁ s' p d d' hp hm ht hf h₁ _ ih ih' =>
    simp only [h₁.same.typeOf, typeOf_setFlags] at ih ih'
    simp only [MarkLog.mark, MarkLog.hook, MarkLog.append, ih, ih', if_neg hf]
    rw [List.filter_cons_of_pos (by simpa using ht), List.filter_append]
  | done => exact (ite_self _).symm
  | @call s s₁ s' q l d d' h₁ _ ih ih' =>
    simp only [h₁.same.typeOf] at ih ih'
    simp only [MarkLog.append, MarkLog.call, ih, ih']
    split
    · rfl
    · rw [List.filter_append]

/-! ## The marker -/

/-- The marker on a graph whose objects are there. -/
theorem xHeapTreeMarkLog_run (hfn : s.hookWord .heapMark b = some fn)
    (hw : p ≠ nil → s.Walkable env b fn p) : ∃ r d s',
    xHeapTreeMarkLog env b p F s = .ok (r, d) s' ∧ xHeapTreeMark env b p F s = .ok r s' ∧
    Marking env b fn F s (.loop p) d s' := by
  obtain ⟨r, s', hrun, -⟩ := xHeapTreeMark_run (F := F) hfn hw
  have hloop := hrun
  unfold xHeapTreeMark at hloop
  rw [Prog.bind_of_ok (heapFn_run hfn), Prog.get_bind, treeMarkLoop_eq, Prog.bind_ok] at hloop
  obtain ⟨⟨r', d⟩, s₁, hd, hr⟩ := hloop
  cases hr
  refine ⟨r', d, s', ?_, hrun, treeMarkLoopLog_ok hfn hd⟩
  unfold xHeapTreeMarkLog
  rw [Prog.bind_of_ok (heapFn_run hfn)]
  exact hd

/-- Where no pair is the first of another, and no mark hook is set, pairs need one frame. -/
theorem Sys.rank_flat (hflat : ∀ p x, s.typeOf p = xTypePairObj → s.unit p 0 = some x →
    s.typeOf x ≠ xTypePairObj) :
    s.Rank env b nil fun p => if s.typeOf p = xTypePairObj then 1 else 0 := by
  refine ⟨fun p x ht hx => ?_, fun p y ht _ _ => ?_, fun _ _ h => absurd rfl h,
    fun _ _ h => absurd rfl h⟩
  · rw [if_pos ht, if_neg (hflat p x ht hx)]
    exact Nat.one_pos
  · rw [if_pos ht]
    split
    · exact le_rfl
    · exact Nat.zero_le _

/-- So a list of any length needs one. -/
theorem xHeapTreeMarkLog_flat (hfn : s.hookWord .heapMark b = some nil)
    (hw : p ≠ nil → s.Walkable env b nil p) (hflat : ∀ p x, s.typeOf p = xTypePairObj →
      s.unit p 0 = some x → s.typeOf x ≠ xTypePairObj) : ∃ r d s',
    xHeapTreeMarkLog env b p F s = .ok (r, d) s' ∧ d.depth ≤ 1 := by
  obtain ⟨r, d, s', hlog, -, hm⟩ := xHeapTreeMarkLog_run (F := F) hfn hw
  refine ⟨r, d, s', hlog, (hm.depth_le_rank (rank_flat hflat)).trans ?_⟩
  split
  · exact Nat.zero_le _
  · split <;> decide

/-- The marker needs no more frames than there are unmarked objects, no more than any rank allows,
and one for each pair nested as a first. -/
theorem mark_depth (hfn : s.hookWord .heapMark b = some fn)
    (hw : p ≠ nil → s.Walkable env b fn p) : ∃ r d s',
    xHeapTreeMarkLog env b p F s = .ok (r, d) s' ∧ xHeapTreeMark env b p F s = .ok r s' ∧
    d.depth ≤ s.unmarked F ∧ (∀ h, s.Rank env b fn h → d.depth ≤ h p) ∧
    ∀ l, s.FirstPath F p l → l.length ≤ d.depth := by
  obtain ⟨r, d, s', hlog, hrun, hm⟩ := xHeapTreeMarkLog_run (F := F) hfn hw
  refine ⟨r, d, s', hlog, hrun, hm.depth_le_unmarked, fun h hk => ?_, hm.length_le_depth⟩
  refine (hm.depth_le_rank hk).trans ?_
  split
  · exact Nat.zero_le _
  · exact le_rfl

/-- The marker visits in the order of depth-first search, which is the only one: the first of a
pair before the rest, and the objects that a hook marks before the one that it returns. It visits
the objects that get the flags, each once, and calls the hook on each that is not a pair. -/
theorem mark_order (hfn : s.hookWord .heapMark b = some fn)
    (hw : p ≠ nil → s.Walkable env b fn p) : ∃ r d s',
    xHeapTreeMarkLog env b p F s = .ok (r, d) s' ∧ xHeapTreeMark env b p F s = .ok r s' ∧
    (∀ v, Dfs (fun q => nonNil (s.succs env b fn q)) (s.marks F) (nonNil [p]) v ↔ v = d.order) ∧
    d.order.Nodup ∧ (∀ q, q ∈ d.order ↔ s.flagsOf q &&& F ≠ F ∧ s'.flagsOf q &&& F = F) ∧
    d.hooked = if fn = nil then [] else d.order.filter fun q => s.typeOf q ≠ xTypePairObj := by
  obtain ⟨r, d, s', hlog, hrun, hm⟩ := xHeapTreeMarkLog_run (F := F) hfn hw
  obtain ⟨hdfs, hmarks⟩ := hm.dfs
  refine ⟨r, d, s', hlog, hrun, fun v => ⟨fun h => h.unique hdfs, fun h => h ▸ hdfs⟩, hdfs.nodup,
    fun q => ?_, hm.hooked⟩
  have hq : q ∈ s'.marks F ↔ q ∈ s.marks F ∨ q ∈ d.order := by rw [hmarks]; rfl
  constructor
  · exact fun h => ⟨hdfs.notMem h, hq.mpr (.inr h)⟩
  · exact fun h => (hq.mp h.2).resolve_left h.1

end Runs

/-! ## A graph with a hook -/

/-- A base with a mark hook, and two pairs, the second of which is the first of the first one. The
second one leads to an object that the hook is called on, and to an atom that is marked. -/
def hookedObjs : List (Ptr × Obj) :=
  [(40, ⟨nil, nil, xObjFlagNone, [], [80]⟩),
    (80, ⟨nil, xTypePairObj, xObjFlagShared, [], [nil, 120]⟩),
    (120, ⟨nil, xTypePairObj, xObjFlagShared, [], [nil, 160]⟩),
    (160, ⟨nil, xTypePairObj, xObjFlagShared, [], [nil, 200]⟩),
    (200, ⟨nil, xTypePairObj, xObjFlagShared, [], [240, nil]⟩),
    (240, ⟨nil, xTypePairObj, xObjFlagShared, [], [nil, 280]⟩),
    (280, ⟨nil, xTypePairObj, xObjFlagShared, [], [320, nil]⟩),
    (320, ⟨nil, xTypePairObj, xObjFlagShared, [], [360, nil]⟩),
    (360, ⟨nil, xTypeAtomObj, xObjFlagShared, [], [41]⟩),
    (400, ⟨nil, xTypePairObj, xObjFlagNone, [], [440, 520]⟩),
    (440, ⟨nil, xTypePairObj, xObjFlagNone, [], [560, 480]⟩),
    (480, ⟨nil, 360, xObjFlagNone, [], []⟩),
    (520, ⟨nil, xTypeAtomObj, xObjFlagNone, [], [7]⟩),
    (560, ⟨nil, xTypeAtomObj, xObjFlagMark, [], [8]⟩)]

def hookedPairs : Sys := hookedObjs.foldl (fun s x => s.place x.1 x.2) .empty

/-- The hook marks an atom, and returns the pair that leads to its object. -/
def reportingHook : Env :=
  { Env.plain fun _ => true with
    markFn := fun _ =>
      ⟨fun _ _ p => if p = 480 then ([520], 440) else ([], nil), fun _ _ _ => rfl⟩ }

theorem hookedPairs_live {p : Ptr} : hookedPairs.Live p ↔ p ∈ hookedObjs.map Prod.fst := by
  rw [hookedPairs, live_foldl_place (by decide)]
  exact or_iff_left Finmap.notMem_empty

theorem hookedPairs_hookWord : hookedPairs.hookWord .heapMark 40 = some 41 := by decide

theorem hookedPairs_walkable : hookedPairs.Walkable reportingHook 40 41 400 := by
  have hclosed : ∀ x ∈ [400, 440, 480, 520, 560], ∀ y ∈ nonNil (hookedPairs.succs reportingHook
    40 41 x), y ∈ [400, 440, 480, 520, 560] := by decide
  have hunits : ∀ x ∈ [400, 440, 480, 520, 560], hookedPairs.typeOf x = xTypePairObj →
    (hookedPairs.unit x 0).isSome ∧ (hookedPairs.unit x 1).isSome := by decide
  have hmem : ∀ x ∈ [400, 440, 480, 520, 560], x ∈ hookedObjs.map Prod.fst := by decide
  refine walkable_of_closed (R := (· ∈ [400, 440, 480, 520, 560])) (.head _)
    (fun x y hx he => hclosed x hx y (mem_succs.mpr he)) fun x hx => ⟨?_, fun ht => ?_⟩
  · exact hookedPairs_live.mpr (hmem x hx)
  · obtain ⟨h₀, h₁⟩ := hunits x hx ht
    obtain ⟨y, hy⟩ := Option.isSome_iff_exists.mp h₀
    obtain ⟨z, hz⟩ := Option.isSome_iff_exists.mp h₁
    exact ⟨y, z, hy, hz⟩

def hookedRank (p : Ptr) : Nat :=
  if p ∈ [80, 120, 160, 200] then 3 else if p ∈ [240, 280, 400] then 2
  else if p ∈ [320, 440, 480] then 1 else 0

theorem hookedPairs_rank : hookedPairs.Rank reportingHook 40 41 hookedRank := by
  have hmem : ∀ p, hookedPairs.typeOf p = xTypePairObj → p ∈ hookedObjs.map Prod.fst :=
    fun p ht => hookedPairs_live.mp (by
      by_contra hl
      rw [typeOf, not_live_iff.mp hl] at ht
      exact absurd ht (by decide))
  have hpairs : ∀ p ∈ hookedObjs.map Prod.fst, hookedPairs.typeOf p = xTypePairObj →
      (∀ x ∈ hookedPairs.unit p 0, hookedRank x < hookedRank p) ∧
      ∀ y ∈ hookedPairs.unit p 1, y ≠ nil → hookedRank y ≤ hookedRank p := by decide
  refine ⟨fun p x ht hx => (hpairs p (hmem p ht) ht).1 x hx,
    fun p y ht hy hn => (hpairs p (hmem p ht) ht).2 y hy hn, fun p _ _ q hq => ?_,
    fun p _ _ hn => ?_⟩
  · change q ∈ (if p = 480 then ([520], (440 : Ptr)) else ([], nil)).1 at hq
    split at hq
    · next e =>
      rw [e, List.mem_singleton.mp hq]
      decide
    · cases hq
  · change hookedRank (if p = 480 then ([(520 : Ptr)], (440 : Ptr)) else ([], nil)).2 ≤ _
    split
    · next e => rw [e]; decide
    · exact Nat.zero_le _

theorem mark_depth_list : ∃ r d s',
    xHeapTreeMarkLog reportingHook 40 400 xObjFlagMark hookedPairs = .ok (r, d) s' ∧
      d.depth = 2 := by
  obtain ⟨r, d, s', hrun, -, -, hrank, hpath⟩ :=
    mark_depth (F := xObjFlagMark) hookedPairs_hookWord fun _ => hookedPairs_walkable
  have hge : 2 ≤ d.depth := hpath [400, 440] ⟨rfl, by decide, by decide, by decide, by decide, 440,
    by decide, rfl, by decide, by decide, by decide, by decide, 560, by decide, trivial⟩
  exact ⟨r, d, s', hrun, le_antisymm (hrank _ hookedPairs_rank) hge⟩

/-- The second pair is visited before the rest of the first one, and the atom that the hook marks
before the pair that it returns. -/
theorem mark_order_list : ∃ r d s',
    xHeapTreeMarkLog reportingHook 40 400 xObjFlagMark hookedPairs = .ok (r, d) s' ∧
      d.order = [400, 440, 480, 520] ∧ d.hooked = [480, 520] := by
  obtain ⟨r, d, s', hrun, -, horder, -, -, hhooked⟩ :=
    mark_order (F := xObjFlagMark) hookedPairs_hookWord fun _ => hookedPairs_walkable
  have hnew : ∀ q ∈ [400, 440, 480, 520],
      hookedPairs.flagsOf q &&& xObjFlagMark ≠ xObjFlagMark := by decide
  have hmarked : (560 : Ptr) ∈ hookedPairs.marks xObjFlagMark := by
    change hookedPairs.flagsOf 560 &&& xObjFlagMark = xObjFlagMark
    decide
  have horder : [400, 440, 480, 520] = d.order := by
    refine (horder _).mp (.visit (hnew 400 (by decide)) ?_)
    rw [show nonNil (hookedPairs.succs reportingHook 40 41 400) = [440, 520] by decide]
    refine .visit (fun h => h.elim (by decide) (hnew 440 (by decide))) ?_
    rw [show nonNil (hookedPairs.succs reportingHook 40 41 440) = [560, 480] by decide]
    refine .seen (.inr (.inr hmarked)) (.visit (fun h => h.elim (by decide) fun h =>
      h.elim (by decide) (hnew 480 (by decide))) ?_)
    rw [show nonNil (hookedPairs.succs reportingHook 40 41 480) = [520, 440] by decide]
    refine .visit (fun h => h.elim (by decide) fun h => h.elim (by decide) fun h =>
      h.elim (by decide) (hnew 520 (by decide))) ?_
    rw [show nonNil (hookedPairs.succs reportingHook 40 41 520) = [] by decide]
    exact .seen (.inr (.inr (.inl rfl))) (.seen (.inl rfl) .done)
  refine ⟨r, d, s', hrun, horder.symm, ?_⟩
  rw [hhooked, ← horder]
  decide

end XExpr
