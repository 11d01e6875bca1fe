import XExpr.Introspect.Units
import XExpr.Str.Stdlib

/-!
# Types by name and by address

`x_obj_is_type` compares the name of a type with a string, `x_obj_type_issatom` and
`x_obj_type_isspair` compare the type slot with an address.

* `xObjIsType_run`: the comparison of names, where the name is known.
* `type_tests_agree`: for every object in every state of a run that does not change the static
  atoms the two tests agree, if the hook does not give the name of a built-in type to another type.
-/

namespace XExpr

open Sys Relation

/-- `x_obj_is_type`. -/
def xObjIsType (fn : XFn) (args : Ptr) (passes : Nat) (b p t : Ptr) : IoM Bool := do
  let name ← onSys (xObjTypeName fn args b p)
  return (← xLibStrcmp passes name t) = 0

/-- `X_TYPE_NIL_NAME`, `X_TYPE_ATOM_NAME` and `X_TYPE_PAIR_NAME`. -/
def nilText : List XChar := [78, 73, 76]
def atomText : List XChar := [65, 84, 79, 77]
def pairText : List XChar := [80, 65, 73, 82]

/-- The text of the name of a built-in type, and of none. -/
def builtInText (t : Ptr) : List XChar :=
  if t = nil then nilText else if t = xTypePairObj then pairText else atomText

/-- The literals are at their addresses. -/
structure Names (m : Ptr → Option XChar) : Prop where
  none : StrAt m xTypeNilName nilText
  atom : StrAt m xTypeAtomName atomText
  pair : StrAt m xTypePairName pairText

variable {env : Env} {cfg : XBaseT} {c c₀ : Client} {fn : XFn} {io : Io}
  {args b p t name : Ptr} {passes : Nat} {l l' : List XChar} {sys : Sys}

theorem Names.builtIn (h : Names io.bytes) (t : Ptr) :
    StrAt io.bytes (builtInName t) (builtInText t) := by
  unfold builtInName builtInText
  split
  · exact h.none
  · split
    · exact h.pair
    · exact h.atom

theorem compareBytes_eq_iff : compareBytes l l' = .eq ↔ l = l' := by
  refine ⟨fun h => ?_, fun h => h ▸ compareBytes_self l⟩
  induction l generalizing l' with
  | nil =>
    cases l' with
    | nil => rfl
    | cons d l' => cases h
  | cons x l ih =>
    cases l' with
    | nil => cases h
    | cons d l' =>
      rw [compareBytes_cons, Ordering.then_eq_eq, compare_eq_iff_eq] at h
      rw [BitVec.eq_of_toNat_eq h.1, ih h.2]

/-- The names are equal, or they are not. -/
theorem xObjIsType_run (hrun : xObjTypeName fn args b p io.sys = .ok name sys)
    (h : StrAt io.bytes name l) (h' : StrAt io.bytes t l') (hl : l.length < passes) :
    xObjIsType fn args passes b p t io = .ok (decide (l = l')) { io with sys := sys } := by
  obtain ⟨d, hcmp, hd⟩ := xLibStrcmp_run (s := { io with sys := sys }) h h' hl
  rw [xObjIsType, Prog.bind_of_ok (onSys_ok hrun), Prog.bind_of_ok hcmp]
  have he : d = 0 ↔ l = l' := by rw [← compareBytes_eq_iff, ← hd, compare_eq_iff_eq]
  simp [he]

theorem builtInText_length (t : Ptr) : (builtInText t).length ≤ 4 := by
  unfold builtInText
  split
  · decide
  · split <;> decide

/-- The names of the built-in types differ, and differ from that of no type. -/
theorem builtInText_inj {t t' : Ptr} (ht : t = xTypeAtomObj ∨ t = xTypePairObj ∨ t = nil)
    (ht' : t' = xTypeAtomObj ∨ t' = xTypePairObj ∨ t' = nil) :
    builtInText t = builtInText t' ↔ t = t' := by
  rcases ht with rfl | rfl | rfl <;> rcases ht' with rfl | rfl | rfl <;> decide

/-- A hook names the type of `p`, and not like a built-in type. -/
def Io.NamesOther (io : Io) (fn : XFn) (args b p : Ptr) (passes : Nat) (sys : Sys) : Prop :=
  ∃ v l, io.sys.HookAnswers fn .hookTypeName args b p v sys ∧ StrAt io.bytes v l ∧
    l.length < passes ∧ ∀ t, l ≠ builtInText t

/-- For `NULL`, and for every object in every state of a run that does not change the static atoms,
the test for the name of a built-in type, or of none, is the test of the type slot. -/
theorem type_tests_agree (hin : env.FreeInert) (hs : Start env cfg c₀) (hst : c₀.Loaded)
    (hr : ReflTransGen (LoadedStep env) c₀ c) (hio : io.sys = c.sys) (hnames : Names io.bytes)
    (hp : p = nil ∨ c.sys.Live p) (hn : nil < args) (ha : ¬ c.sys.Live args) (hpasses : 4 < passes)
    (hother : ¬ c.sys.BuiltIn p → b ∈ c.bases ∧ ∃ sys, io.NamesOther fn args b p passes sys) :
    ∃ sys, (c.sys.BuiltIn p → sys = c.sys) ∧
      ∀ ty, ty = xTypeAtomObj ∨ ty = xTypePairObj ∨ ty = nil →
        ∀ t, StrAt io.bytes t (builtInText ty) →
          xObjIsType fn args passes b p t io =
            .ok (decide (c.sys.typeOf p = ty)) { io with sys := sys } := by
  have h := LoadedStep.run hin hs hst hr
  obtain ⟨L, d, k, hi⟩ := h.heap
  by_cases hb : c.sys.BuiltIn p
  · refine ⟨c.sys, fun _ => rfl, fun ty hty t ht => ?_⟩
    have hrun : xObjTypeName fn args b p c.sys = _ :=
      xObjTypeName_builtIn hn ha (fun x hx => (h.loaded x hx).2) hp hb
    rw [← hio] at hrun
    have := xObjIsType_run hrun (hnames.builtIn _) ht
      ((builtInText_length _).trans_lt hpasses)
    rw [this, hio]
    simp only [builtInText_inj hb hty]
  · obtain ⟨hbase, sys, v, l, hans, hv, hl, hne⟩ := hother hb
    have hpl : c.sys.Live p := hp.resolve_left fun e => hb (.inr (.inr (by
      rw [e, typeOf, not_live_iff.mp not_live_nil]
      rfl)))
    refine ⟨sys.drop args, fun h => absurd h hb, fun ty hty t ht => ?_⟩
    rw [hio] at hans
    have hrun := xObjTypeName_hook hn ha hpl hb (hi.base b hbase).tree.isSet hans
    rw [← hio] at hrun
    rw [xObjIsType_run hrun hv ht hl, decide_eq_false (hne ty), decide_eq_false]
    rintro rfl
    exact hb hty

/-- The literals one behind the other. -/
def nameBytes : Ptr → Option XChar :=
  Bytes.store (fun _ => none) xTypeNilName
    (nilText ++ [nul] ++ (atomText ++ [nul]) ++ (pairText ++ [nul]))

theorem nameBytes_names : Names nameBytes := by
  have h := Bytes.at_append.mp (Bytes.at_store (m := fun _ => none) (a := xTypeNilName)
    (l := nilText ++ [nul] ++ (atomText ++ [nul]) ++ (pairText ++ [nul])))
  have h' := Bytes.at_append.mp h.1
  exact ⟨⟨by decide, h'.1⟩, ⟨by decide, h'.2⟩, ⟨by decide, h.2⟩⟩

/-- An object with the type of a pair and three units. -/
theorem type_tests_agree_pair : ∃ (io : Io) (args p : Ptr), io.sys.typeOf p = xTypePairObj ∧
    io.sys.dataOf p = [nil, nil, nil] ∧
    xObjIsType (fun _ _ _ => pure nil) args 5 nil p xTypePairName io = .ok true io := by
  obtain ⟨c₀, hs, hst⟩ := Start.exists_statics (.plain fun _ => true) .standard
    (fun _ _ _ => rfl) rfl rfl
  obtain ⟨p, a, s₁, hrun, hm, -⟩ := xObjMake_granted (.plain fun _ => true) xTypePairObj
    xObjFlagNone [nil, nil, nil] hs.bare rfl (by decide)
  have hstep : LoadedStep (.plain fun _ => true) c₀ { c₀ with sys := s₁ } :=
    .inl ⟨.make (by rw [hs.bases]; exact .head _) BitVec.and_zero hrun, hm.not_spoils⟩
  have hargs : ¬ s₁.Live ((s₁.top + 1 : Nat) : Ptr) := fun hl =>
    absurd (Int.ofNat_le.mp (le_top (.inl hl))) (Nat.not_succ_le_self _)
  have ht : s₁.typeOf p = xTypePairObj := hm.typeOf_new
  obtain ⟨sys, hsys, h⟩ := @type_tests_agree _ _ { c₀ with sys := s₁ } c₀ (fun _ _ _ => pure nil)
    ⟨s₁, nameBytes, fun _ => [], []⟩ (s₁.top + 1 : Nat) nil p 5 Env.plain_inert hs hst.loaded
    (.single hstep) rfl nameBytes_names (.inr ((hm.live p).mpr (.inl rfl)))
    (Int.natCast_pos.mpr (Nat.succ_pos _)) hargs (by decide)
    fun hb => absurd (.inr (.inl ht)) hb
  have hrun' := h xTypePairObj (.inr (.inl rfl)) xTypePairName nameBytes_names.pair
  rw [decide_eq_true ht, hsys (.inr (.inl ht))] at hrun'
  exact ⟨_, (s₁.top + 1 : Nat), p, ht, hm.data_new, hrun'⟩

end XExpr
