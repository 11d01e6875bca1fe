import XExpr.Base.Fields

/-!
# Type introspection

The primitives `x_obj_prim_type_name`, `x_obj_prim_units` and `x_obj_prim_length` and their
wrappers. A primitive takes a base and an argument list whose first is the subject. It answers for
the built-in types itself, and asks a hook of the base about other types.

* `dispatch`: what `x_obj_prim_units` and `x_obj_prim_length` have in common.
* `withArgs`: a wrapper builds the arguments in its own frame.
* `dispatch_run`, `xObjPrimTypeName_run`: a subject of a built-in type, or of none. The base is not
  read.
* `dispatch_hook`, `xObjPrimTypeName_hook`: a subject of another type.
-/

namespace XExpr

open Sys

/-! ## Static objects -/

def xTypeUnitsAtomObj : Ptr := 80
def xTypeUnitsPairObj : Ptr := 112
def xTypeLengthAtomObj : Ptr := 144
def xTypeLengthPairObj : Ptr := 176

def xObjUnitsAtom : Word := 1
def xObjUnitsPair : Word := 2
def xObjLengthAtom : Word := xObjUnitsAtom
def xObjLengthPair : Word := xObjUnitsPair

/-- The addresses of the literals `X_TYPE_NIL_NAME`, `X_TYPE_ATOM_NAME` and `X_TYPE_PAIR_NAME`. -/
def xTypeNilName : Ptr := 272
def xTypeAtomName : Ptr := 276
def xTypePairName : Ptr := 281

/-- The static objects that introspection reads, with their values. -/
def staticAtoms : List (Ptr × Word) :=
  [(xTypeAtomObj, xTypeAtomName), (xTypePairObj, xTypePairName),
    (xTypeUnitsAtomObj, xObjUnitsAtom), (xTypeUnitsPairObj, xObjUnitsPair),
    (xTypeLengthAtomObj, xObjLengthAtom), (xTypeLengthPairObj, xObjLengthPair)]

/-! ## Primitives -/

/-- The functions of type `x_fn_t` behind the hook atoms, by the word in the atom. -/
abbrev XFn := Word → Ptr → Ptr → M Ptr

/-- The call of a hook of the base with the arguments, `nil` if there is none. -/
def callHook (fn : XFn) (f : Field) (b args : Ptr) : M Ptr := do
  let hook ← if ← xBaseIsset b then f.obj b else pure nil
  if hook ≠ nil then
    fn (← xFirst hook) b args
  else
    return nil

/-- The first argument, `nil` if there is none. -/
def subject (args : Ptr) : M Ptr := if args ≠ nil then xFirst args else return nil

def xObjPrimTypeName (fn : XFn) (b args : Ptr) : M Ptr := do
  let p ← subject args
  if p = nil then
    return nil
  let t ← xObjType p
  if t = xTypeAtomObj ∨ t = xTypePairObj ∨ t = nil then
    return t
  callHook fn .hookTypeName b args

def xAtomPrimUnits (_b _args : Ptr) : M Ptr := return xTypeUnitsAtomObj

def xPairPrimUnits (_b _args : Ptr) : M Ptr := return xTypeUnitsPairObj

def xAtomPrimLength (_b _args : Ptr) : M Ptr := return xTypeLengthAtomObj

def xPairPrimLength (_b _args : Ptr) : M Ptr := return xTypeLengthPairObj

/-- A primitive that asks the primitives of the built-in types, or the hook `f`. -/
def dispatch (atomPrim pairPrim : Ptr → Ptr → M Ptr) (f : Field) (fn : XFn) (b args : Ptr) :
    M Ptr := do
  let p ← subject args
  if p = nil then
    return nil
  let t ← xObjType p
  if t = xTypePairObj then
    pairPrim b args
  else if t = xTypeAtomObj ∨ t = nil then
    atomPrim b args
  else
    callHook fn f b args

def xObjPrimUnits : XFn → Ptr → Ptr → M Ptr := dispatch xAtomPrimUnits xPairPrimUnits .hookUnits

def xObjPrimLength : XFn → Ptr → Ptr → M Ptr :=
  dispatch xAtomPrimLength xPairPrimLength .hookLength

/-! ## Wrappers -/

/-- `x_spair_t args = x_obj_set(NULL, X_OBJ_FLAG_NONE, { p }, { b })`. -/
def argsObj (b p : Ptr) : Obj := ⟨nil, nil, xObjFlagNone, [], [p, b]⟩

/-- A call with the arguments at `args` in the caller's frame. -/
def withArgs {α : Type} (args b p : Ptr) (m : M α) : M α := do
  modify (·.place args (argsObj b p))
  let v ← m
  modify (·.drop args)
  return v

/-- The datum of an object, `default` for nil. -/
def datumOr (default : Word) (p : Ptr) : M Word := if p = nil then return default else xFirst p

/-- The argument pair of each wrapper is at `args`. -/
def xObjTypeName (fn : XFn) (args b p : Ptr) : M Ptr :=
  withArgs args b p do datumOr xTypeNilName (← xObjPrimTypeName fn b args)

def xObjUnits (fn : XFn) (args b p : Ptr) : M Word :=
  withArgs args b p do datumOr xObjUnitsAtom (← xObjPrimUnits fn b args)

def xObjLength (fn : XFn) (args b p : Ptr) : M Word :=
  withArgs args b p do datumOr 0 (← xObjPrimLength fn b args)

/-! ## Runs -/

section Runs

variable {fn : XFn} {s s' : Sys} {args b p q w hook : Ptr} {f : Field}
  {atomPrim pairPrim : Ptr → Ptr → M Ptr}

/-- The type slot is nil, or holds one of the two built-in types. -/
def Sys.BuiltIn (s : Sys) (p : Ptr) : Prop :=
  s.typeOf p = xTypeAtomObj ∨ s.typeOf p = xTypePairObj ∨ s.typeOf p = nil

instance (s : Sys) (p : Ptr) : Decidable (s.BuiltIn p) := inferInstanceAs (Decidable (_ ∨ _))

theorem subject_run (h : s.unit args 0 = some p) : subject args s = .ok p s := by
  rw [subject, if_pos (live_of_unit h).ne_nil, xFirst_eq h]

theorem callHook_run (hb : s.IsSet b) (hh : s.fieldObj b f = some hook) (hn : hook ≠ nil)
    (hu : s.unit hook 0 = some w) : callHook fn f b args s = fn w b args s := by
  unfold callHook
  rw [Prog.bind_of_ok (xBaseIsset_run hb), if_pos rfl, Prog.bind_of_ok (Field.obj_run hh)]
  refine (congrFun (if_pos hn) s).trans ?_
  rw [Prog.bind_of_ok (xFirst_eq hu)]

theorem dispatch_run (ha : s.unit args 0 = some p) (hp : s.Live p) (hb : s.BuiltIn p) :
    dispatch atomPrim pairPrim f fn b args s =
      if s.typeOf p = xTypePairObj then pairPrim b args s else atomPrim b args s := by
  unfold dispatch
  rw [Prog.bind_of_ok (subject_run ha), if_neg hp.ne_nil, Prog.bind_of_ok (xObjType_eq hp)]
  split
  · rfl
  · next hn =>
    rw [if_pos]
    exact hb.imp id (·.resolve_left hn)

theorem dispatch_hook (ha : s.unit args 0 = some p) (hp : s.Live p) (hb : ¬ s.BuiltIn p) :
    dispatch atomPrim pairPrim f fn b args s = callHook fn f b args s := by
  unfold dispatch
  rw [Prog.bind_of_ok (subject_run ha), if_neg hp.ne_nil, Prog.bind_of_ok (xObjType_eq hp),
    if_neg fun e => hb (.inr (.inl e)), if_neg]
  exact fun e => hb (e.imp id .inr)

theorem xObjPrimTypeName_run (ha : s.unit args 0 = some p) (hp : s.Live p) (hb : s.BuiltIn p) :
    xObjPrimTypeName fn b args s = .ok (s.typeOf p) s := by
  unfold xObjPrimTypeName
  rw [Prog.bind_of_ok (subject_run ha), if_neg hp.ne_nil, Prog.bind_of_ok (xObjType_eq hp)]
  exact congrFun (if_pos hb) s

theorem xObjPrimTypeName_hook (ha : s.unit args 0 = some p) (hp : s.Live p)
    (hb : ¬ s.BuiltIn p) : xObjPrimTypeName fn b args s = callHook fn .hookTypeName b args s := by
  unfold xObjPrimTypeName
  rw [Prog.bind_of_ok (subject_run ha), if_neg hp.ne_nil, Prog.bind_of_ok (xObjType_eq hp)]
  exact congrFun (if_neg hb) s

theorem datumOr_run {d : Word} (h : s.unit q 0 = some w) : datumOr d q s = .ok w s := by
  rw [datumOr, if_neg (live_of_unit h).ne_nil, xFirst_eq h]

/-! ### The frame of a wrapper -/

/-- The memory in which a primitive is called. -/
def Sys.called (s : Sys) (args b p : Ptr) : Sys := s.place args (argsObj b p)

section Called

variable (hn : nil < args) (ha : ¬ s.Live args)

include hn in
theorem called_arg : (s.called args b p).unit args 0 = some p := by
  rw [called, unit_place hn, if_pos rfl]
  rfl

include hn ha in
theorem called_obj (hq : s.Live q) : (s.called args b p).obj q = s.obj q := by
  rw [called, obj_place hn, if_neg]
  rintro rfl
  exact ha hq

include hn ha in
theorem called_unit {i : Nat} (hq : s.unit q i = some w) :
    (s.called args b p).unit q i = some w := by
  rw [unit, dataOf, called_obj hn ha (live_of_unit hq)]
  exact hq

include hn ha in
theorem called_typeOf (hq : s.Live q) : (s.called args b p).typeOf q = s.typeOf q := by
  rw [typeOf, called_obj hn ha hq, typeOf]

include hn in
theorem called_live (hq : s.Live q) : (s.called args b p).Live q := (live_place hn).mpr (.inr hq)

include hn ha in
theorem called_builtIn (hq : s.Live q) : (s.called args b p).BuiltIn q ↔ s.BuiltIn q := by
  rw [Sys.BuiltIn, called_typeOf hn ha hq, Sys.BuiltIn]

include hn ha in
theorem called_fieldObj (h : s.fieldObj b f = some w) :
    (s.called args b p).fieldObj b f = some w :=
  Mem.chase_mono (fun _ _ _ => called_unit hn ha) h

include hn ha in
/-- The frame leaves nothing behind. -/
theorem called_drop : (s.called args b p).drop args = s := by
  have he : (s.objs.insert args (argsObj b p)).erase args = s.objs := by
    refine Finmap.ext_lookup fun q => ?_
    by_cases hq : q = args
    · rw [hq, Finmap.lookup_erase, Finmap.lookup_eq_none.mpr ha]
    · rw [Finmap.lookup_erase_ne hq, Finmap.lookup_insert_of_ne _ hq]
  simp only [called, place, hn, dite_true, drop, he]

end Called

theorem withArgs_run {α : Type} {m : M α} {v : α} (h : m (s.called args b p) = .ok v s') :
    withArgs args b p m s = .ok v (s'.drop args) := by
  unfold withArgs
  change (m >>= _) (s.called args b p) = _
  rw [Prog.bind_of_ok h]
  rfl

/-- A call that reads. -/
theorem withArgs_read {α : Type} {m : M α} {v : α} (hn : nil < args) (ha : ¬ s.Live args)
    (h : m (s.called args b p) = .ok v (s.called args b p)) :
    withArgs args b p m s = .ok v s := by
  rw [withArgs_run h, called_drop hn ha]

/-! ### Answers -/

/-- The static objects hold their values. -/
def Sys.Statics (s : Sys) : Prop := ∀ x ∈ staticAtoms, s.unit x.1 0 = some x.2

/-- The name of a built-in type, and of none. -/
def builtInName (t : Ptr) : Ptr :=
  if t = nil then xTypeNilName else if t = xTypePairObj then xTypePairName else xTypeAtomName

/-- A wrapper whose primitive returns a static atom. -/
theorem withArgs_static {d v : Word} {prim : M Ptr} (hn : nil < args) (ha : ¬ s.Live args)
    (hs : s.Statics) (hx : (q, v) ∈ staticAtoms)
    (h : prim (s.called args b p) = .ok q (s.called args b p)) :
    withArgs args b p (do datumOr d (← prim)) s = .ok v s :=
  withArgs_read hn ha ((Prog.bind_of_ok h).trans (datumOr_run (called_unit hn ha (hs _ hx))))

/-- A wrapper whose primitive dispatches to static atoms. -/
theorem withArgs_dispatch {d v v' : Word} {q' : Ptr} (hn : nil < args) (ha : ¬ s.Live args)
    (hs : s.Statics) (hx : (q, v) ∈ staticAtoms) (hx' : (q', v') ∈ staticAtoms) (hp : s.Live p)
    (hb : s.BuiltIn p) :
    withArgs args b p (do
        datumOr d (← dispatch (fun _ _ => pure q) (fun _ _ => pure q') f fn b args)) s =
      .ok (if s.typeOf p = xTypePairObj then v' else v) s := by
  have hrun : dispatch (fun _ _ => pure q) (fun _ _ => pure q') f fn b args (s.called args b p) =
      _ := dispatch_run (called_arg hn) (called_live hn hp) ((called_builtIn hn ha hp).mpr hb)
  rw [called_typeOf hn ha hp] at hrun
  split at hrun
  · next ht => rw [if_pos ht, withArgs_static hn ha hs hx' hrun]
  · next ht => rw [if_neg ht, withArgs_static hn ha hs hx hrun]

theorem xObjUnits_builtIn (hn : nil < args) (ha : ¬ s.Live args) (hs : s.Statics) (hp : s.Live p)
    (hb : s.BuiltIn p) : xObjUnits fn args b p s =
      .ok (if s.typeOf p = xTypePairObj then xObjUnitsPair else xObjUnitsAtom) s :=
  withArgs_dispatch hn ha hs (by decide) (by decide) hp hb

theorem xObjLength_builtIn (hn : nil < args) (ha : ¬ s.Live args) (hs : s.Statics) (hp : s.Live p)
    (hb : s.BuiltIn p) : xObjLength fn args b p s =
      .ok (if s.typeOf p = xTypePairObj then xObjLengthPair else xObjLengthAtom) s :=
  withArgs_dispatch hn ha hs (by decide) (by decide) hp hb

theorem xObjTypeName_builtIn (hn : nil < args) (ha : ¬ s.Live args) (hs : s.Statics)
    (hp : p = nil ∨ s.Live p) (hb : s.BuiltIn p) :
    xObjTypeName fn args b p s = .ok (builtInName (s.typeOf p)) s := by
  rcases hp with rfl | hp
  · have hrun : xObjPrimTypeName fn b args (s.called args b nil) =
        .ok nil (s.called args b nil) := by
      rw [xObjPrimTypeName, Prog.bind_of_ok (subject_run (called_arg hn))]
      rfl
    rw [show s.typeOf nil = nil by rw [typeOf, not_live_iff.mp not_live_nil]; rfl]
    exact withArgs_read hn ha ((Prog.bind_of_ok hrun).trans rfl)
  have hrun : xObjPrimTypeName fn b args (s.called args b p) = _ :=
    xObjPrimTypeName_run (called_arg hn) (called_live hn hp) ((called_builtIn hn ha hp).mpr hb)
  rw [called_typeOf hn ha hp] at hrun
  rcases hb with e | e | e <;> rw [e] at hrun ⊢
  · exact withArgs_static hn ha hs (by decide) hrun
  · exact withArgs_static hn ha hs (by decide) hrun
  · exact withArgs_read hn ha ((Prog.bind_of_ok hrun).trans rfl)

/-- The hook `f` of the base `b` answers the subject `p` with an object that holds `v`. -/
def Sys.HookAnswers (s : Sys) (fn : XFn) (f : Field) (args b p : Ptr) (v : Word) (s' : Sys) :
    Prop :=
  ∃ hook w n, s.fieldObj b f = some hook ∧ hook ≠ nil ∧ s.unit hook 0 = some w ∧
    fn w b args (s.called args b p) = .ok n s' ∧ s'.unit n 0 = some v

theorem callHook_answers {v : Word} (hn : nil < args) (ha : ¬ s.Live args) (hset : s.IsSet b)
    (h : s.HookAnswers fn f args b p v s') : ∃ n,
      callHook fn f b args (s.called args b p) = .ok n s' ∧ s'.unit n 0 = some v := by
  obtain ⟨hook, w, n, hh, hne, hw, hf, hv⟩ := h
  have hset' : (s.called args b p).IsSet b := by
    cases hu : s.unit b 0 with
    | none => simp [IsSet, hu] at hset
    | some u => rwa [IsSet, called_unit hn ha hu, ← hu]
  exact ⟨n, (callHook_run hset' (called_fieldObj hn ha hh) hne (called_unit hn ha hw)).trans hf, hv⟩

/-- A subject of another type: what the hook returns is read. -/
theorem xObjUnits_hook {v : Word} (hn : nil < args) (ha : ¬ s.Live args) (hp : s.Live p)
    (hb : ¬ s.BuiltIn p) (hset : s.IsSet b) (h : s.HookAnswers fn .hookUnits args b p v s') :
    xObjUnits fn args b p s = .ok v (s'.drop args) := by
  obtain ⟨n, hrun, hv⟩ := callHook_answers hn ha hset h
  refine withArgs_run ((Prog.bind_of_ok ?_).trans (datumOr_run hv))
  rw [xObjPrimUnits, dispatch_hook (called_arg hn) (called_live hn hp)
    (mt (called_builtIn hn ha hp).mp hb), hrun]

theorem xObjTypeName_hook {v : Word} (hn : nil < args) (ha : ¬ s.Live args) (hp : s.Live p)
    (hb : ¬ s.BuiltIn p) (hset : s.IsSet b) (h : s.HookAnswers fn .hookTypeName args b p v s') :
    xObjTypeName fn args b p s = .ok v (s'.drop args) := by
  obtain ⟨n, hrun, hv⟩ := callHook_answers hn ha hset h
  refine withArgs_run ((Prog.bind_of_ok ?_).trans (datumOr_run hv))
  rw [xObjPrimTypeName_hook (called_arg hn) (called_live hn hp)
    (mt (called_builtIn hn ha hp).mp hb), hrun]

end Runs

end XExpr
