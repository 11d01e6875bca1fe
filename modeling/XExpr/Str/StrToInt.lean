import XExpr.Lib.Digits
import XExpr.Str.Buffer

/-!
# The freestanding `x_lib_strtoint`

* `xLibStrtoint`: the function, cut into the steps of its body.
* `parse`: the documented grammar. White space, a sign, a prefix if the base is to be detected, and
  the longest run of digits of the base, each taken off the front of what is left.
* `digitOf_eq`: the loop takes the values of the grammar (`alnumValue`) for digits and letters.
* `xLibStrtoint_run`: the function computes the value of the run, as long as `x_int_t` holds it,
  and the end of the run.
* `strtoint_parses`: this for every string, with every read inside of the string.
-/

namespace XExpr

open Digits

/-! ## The function -/

def skipSpace : Nat → Nat → StrM Nat
  | 0, _ => throw .diverge
  | n + 1, p => do
    if isspace (← readChar p).code then skipSpace n (p + 1) else return p

def readSign (p : Nat) : StrM (Nat × Int) := do
  if (← readChar p).code = 43 then
    return (p + 1, 1)
  else if (← readChar p).code = 45 then
    return (p + 1, -1)
  else return (p, 1)

def readBase (base p : Nat) : StrM (Nat × Nat) := do
  if base = 0 then
    if (← readChar p).code = 48 then
      if toupper (← readChar (p + 1)).code = 88 then return (p + 2, 16) else return (p + 1, 8)
    else return (p, 10)
  else return (p, base)

/-- The value of a digit or a letter. -/
def digitOf (c : Int) : Option Int :=
  if isdigit c then some (c - 48)
  else if 65 ≤ toupper c ∧ toupper c ≤ 90 then some (toupper c - 65 + 10)
  else none

/-- The `for` loop. Its branches for digits and for letters differ in the value only. -/
def readDigits (base : Nat) : Nat → Nat → Int → StrM (Nat × Int)
  | 0, _, _ => throw .diverge
  | n + 1, p, i => do
    let c ← readChar p
    if c = nul then return (p, i)
    match digitOf c.code with
    | some d =>
      if base ≤ d then return (p, i)
      let i ← xInt (i * base)
      let i ← xInt (i + d)
      readDigits base n (p + 1) i
    | none => return (p, i)

/-- The value, and what is stored through `pp_end` if it is given. -/
def xLibStrtoint (p : Nat) (ppEnd : Bool) (base : Nat) : StrM (Int × Option Nat) := do
  let p ← skipSpace (← strPasses) p
  let (p, sign) ← readSign p
  let (p, base) ← readBase base p
  let (p, i) ← readDigits base (← strPasses) p 0
  return (← xInt (i * sign), if ppEnd then some p else none)

/-! ## The grammar -/

def isSpaceChar (c : XChar) : Bool := isspace c.code

/-- The value of a digit from `0` to `9`, or of a letter from `a` to `z` or from `A` to `Z`. -/
def alnumValue (c : XChar) : Option Nat :=
  if 48 ≤ c.code ∧ c.code ≤ 57 then some (c.code - 48).toNat
  else if 97 ≤ c.code ∧ c.code ≤ 122 then some (10 + (c.code - 97)).toNat
  else if 65 ≤ c.code ∧ c.code ≤ 90 then some (10 + (c.code - 65)).toNat
  else none

/-- The value of a digit or letter of a base. -/
def digitValue (c : XChar) : Nat := (alnumValue c).getD 0

def isDigitOf (base : Nat) (c : XChar) : Bool := (alnumValue c).any fun d => d < base

/-- A sign taken off. -/
def splitSign : List XChar → Int × List XChar
  | [] => (1, [])
  | c :: s => if c = 43 then (1, s) else if c = 45 then (-1, s) else (1, c :: s)

/-- The prefix taken off that gives the base, if the base is to be detected. -/
def splitBase (base : Nat) : List XChar → Nat × List XChar
  | [] => (if base = 0 then 10 else base, [])
  | c :: s =>
    if base ≠ 0 then (base, c :: s)
    else if c = 48 then
      if s.head? = some 120 ∨ s.head? = some 88 then (16, s.tail) else (8, s)
    else (10, c :: s)

structure Parse where
  sign : Int
  base : Nat
  digits : List XChar
  /-- From the first character that is not consumed on. -/
  rest : List XChar

def parse (base : Nat) (s : List XChar) : Parse :=
  let s₁ := splitSign (s.dropWhile isSpaceChar)
  let s₂ := splitBase base s₁.2
  ⟨s₁.1, s₂.1, s₂.2.takeWhile (isDigitOf s₂.1), s₂.2.dropWhile (isDigitOf s₂.1)⟩

/-- The value of the run of digits, in unbounded integers. -/
def Parse.value (r : Parse) : Nat := horner r.base (r.digits.map digitValue)

/-! ## Characters -/

section Chars

variable {c : XChar} {base d : Nat}

theorem code_inj {d : XChar} : c.code = d.code ↔ c = d := BitVec.toInt_inj

theorem code_plus : c.code = 43 ↔ c = 43 := code_inj (d := 43)

theorem code_minus : c.code = 45 ↔ c = 45 := code_inj (d := 45)

theorem code_zero : c.code = 48 ↔ c = 48 := code_inj (d := 48)

theorem toupper_x : toupper c.code = 88 ↔ c = 120 ∨ c = 88 := by
  rw [← code_inj (d := 120), ← code_inj (d := 88), show XChar.code 120 = 120 from rfl,
    show XChar.code 88 = 88 from rfl]
  unfold toupper
  split <;> omega

/-- The loop takes the values of the digits and letters. -/
theorem digitOf_eq : digitOf c.code = (alnumValue c).map fun d : Nat => (d : Int) := by
  unfold digitOf alnumValue isdigit toupper
  simp only [decide_eq_true_eq]
  split_ifs <;> first | rfl | omega | simp only [Option.map_some, Option.some.injEq]; omega

theorem isDigitOf_iff : isDigitOf base c = true ↔ ∃ d, alnumValue c = some d ∧ d < base := by
  simp [isDigitOf, Option.any_eq_true]

theorem digitValue_of_some (h : alnumValue c = some d) : digitValue c = d := by
  rw [digitValue, h, Option.getD_some]

end Chars

/-! ## The function parses -/

section Runs

variable {cs s : List XChar} {p n base i : Nat}

theorem skipSpace_run (h : Text cs p s) (hn : s.length < n) :
    ∃ q, skipSpace n p cs = .ok q cs ∧ Text cs q (s.dropWhile isSpaceChar) ∧
      q + (s.dropWhile isSpaceChar).length = p + s.length := by
  induction s generalizing p n with
  | nil =>
    cases n with
    | zero => omega
    | succ n =>
      refine ⟨p, ?_, h, rfl⟩
      rw [skipSpace, Prog.bind_of_ok h.readChar_nil]
      rfl
  | cons c s ih =>
    cases n with
    | zero => omega
    | succ n =>
      rw [skipSpace, Prog.bind_of_ok h.readChar_cons]
      by_cases hc : isSpaceChar c = true
      · rw [if_pos (show isspace c.code = true from hc), List.dropWhile_cons_of_pos hc]
        obtain ⟨q, hrun, htext, hq⟩ := ih h.tail (by simpa using hn)
        exact ⟨q, hrun, htext, by rw [hq, List.length_cons]; omega⟩
      · rw [if_neg (show ¬isspace c.code = true from hc), List.dropWhile_cons_of_neg hc]
        exact ⟨p, rfl, h, rfl⟩

theorem readSign_run (h : Text cs p s) :
    ∃ q, readSign p cs = .ok (q, (splitSign s).1) cs ∧ Text cs q (splitSign s).2 ∧
      q + (splitSign s).2.length = p + s.length := by
  unfold readSign
  cases s with
  | nil =>
    rw [Prog.bind_of_ok h.readChar_nil, if_neg (by decide), Prog.bind_of_ok h.readChar_nil,
      if_neg (by decide)]
    exact ⟨p, rfl, h, rfl⟩
  | cons c s =>
    have hlen : p + 1 + s.length = p + (c :: s).length := by rw [List.length_cons]; omega
    rw [Prog.bind_of_ok h.readChar_cons]
    simp only [code_plus]
    by_cases hp : c = 43
    · rw [if_pos hp, splitSign, if_pos hp]
      exact ⟨p + 1, rfl, h.tail, hlen⟩
    · rw [if_neg hp, Prog.bind_of_ok h.readChar_cons, splitSign, if_neg hp]
      simp only [code_minus]
      by_cases hm : c = 45
      · rw [if_pos hm, if_pos hm]
        exact ⟨p + 1, rfl, h.tail, hlen⟩
      · rw [if_neg hm, if_neg hm]
        exact ⟨p, rfl, h, rfl⟩

/-- A given base has no prefix. -/
theorem splitBase_of_ne (hb : base ≠ 0) : splitBase base s = (base, s) := by
  cases s with
  | nil => rw [splitBase, if_neg hb]
  | cons c s => rw [splitBase, if_pos hb]

theorem readBase_run (base : Nat) (h : Text cs p s) :
    ∃ q, readBase base p cs = .ok (q, (splitBase base s).1) cs ∧ Text cs q (splitBase base s).2 ∧
      q + (splitBase base s).2.length = p + s.length := by
  unfold readBase
  by_cases hb : base = 0
  · subst hb
    rw [if_pos rfl]
    cases s with
    | nil =>
      rw [Prog.bind_of_ok h.readChar_nil, if_neg (by decide)]
      exact ⟨p, rfl, h, rfl⟩
    | cons c s =>
      rw [Prog.bind_of_ok h.readChar_cons]
      simp only [code_zero, splitBase, ne_eq, not_true_eq_false, if_false]
      by_cases hc : c = 48
      · rw [if_pos hc, if_pos hc]
        cases s with
        | nil =>
          rw [Prog.bind_of_ok h.tail.readChar_nil, if_neg (by decide)]
          exact ⟨p + 1, rfl, h.tail, rfl⟩
        | cons x s =>
          rw [Prog.bind_of_ok h.tail.readChar_cons]
          simp only [toupper_x, List.head?_cons, Option.some.injEq, List.tail_cons]
          by_cases hx : x = 120 ∨ x = 88
          · rw [if_pos hx, if_pos hx]
            exact ⟨p + 2, rfl, h.tail.tail, by simp only [List.length_cons]; omega⟩
          · rw [if_neg hx, if_neg hx]
            exact ⟨p + 1, rfl, h.tail, by simp only [List.length_cons]; omega⟩
      · rw [if_neg hc, if_neg hc]
        exact ⟨p, rfl, h, rfl⟩
  · rw [if_neg hb]
    rw [splitBase_of_ne hb]
    exact ⟨p, rfl, h, rfl⟩

/-- The loop reads on behind the number `i`: no value on the way is above the last one. -/
theorem readDigits_run (hb : 0 < base) (h : Text cs p s) (hn : s.length < n)
    (hmax : (hornerFrom base i ((s.takeWhile (isDigitOf base)).map digitValue) : Int) ≤ xIntMax) :
    ∃ q, readDigits base n p i cs =
        .ok (q, hornerFrom base i ((s.takeWhile (isDigitOf base)).map digitValue)) cs ∧
      q + (s.dropWhile (isDigitOf base)).length = p + s.length := by
  induction s generalizing p n i with
  | nil =>
    cases n with
    | zero => omega
    | succ n =>
      refine ⟨p, ?_, rfl⟩
      rw [readDigits, Prog.bind_of_ok h.readChar_nil, if_pos rfl]
      rfl
  | cons c s ih =>
    cases n with
    | zero => omega
    | succ n =>
      have hc : c ≠ nul := fun e => h.notMem (e ▸ List.mem_cons_self ..)
      rw [readDigits, Prog.bind_of_ok h.readChar_cons, if_neg hc]
      by_cases hd : isDigitOf base c = true
      · obtain ⟨d, hdc, hlt⟩ := isDigitOf_iff.mp hd
        have hv : digitValue c = d := digitValue_of_some hdc
        rw [List.takeWhile_cons_of_pos hd, List.map_cons, hornerFrom_cons, hv] at hmax
        rw [List.takeWhile_cons_of_pos hd, List.dropWhile_cons_of_pos hd, List.map_cons,
          hornerFrom_cons, hv]
        have hle : ((i * base + d : Nat) : Int) ≤ xIntMax :=
          le_trans (Int.ofNat_le.mpr (le_hornerFrom hb)) hmax
        have hmin : xIntMin ≤ 0 := by decide
        have hmul : xInt ((i : Int) * base) cs = .ok ((i * base : Nat) : Int) cs := by
          rw [← Int.natCast_mul]
          exact xInt_run (by omega) (by omega)
        have hadd : xInt (((i * base : Nat) : Int) + d) cs =
            .ok ((i * base + d : Nat) : Int) cs := by
          rw [← Int.natCast_add]
          exact xInt_run (by omega) hle
        obtain ⟨q, hrun, hq⟩ := ih h.tail (by simpa using hn) hmax
        refine ⟨q, ?_, by rw [hq, List.length_cons]; omega⟩
        simp only [digitOf_eq, hdc, Option.map_some]
        rw [if_neg (by omega), Prog.bind_of_ok hmul, Prog.bind_of_ok hadd, hrun]
      · rw [List.takeWhile_cons_of_neg hd, List.dropWhile_cons_of_neg hd]
        refine ⟨p, ?_, rfl⟩
        rw [digitOf_eq]
        cases hdc : alnumValue c with
        | none => rfl
        | some d =>
          have hge : (base : Int) ≤ d := by
            by_contra hlt
            exact hd (isDigitOf_iff.mpr ⟨d, hdc, by omega⟩)
          simp only [Option.map_some, hge, if_true]
          rfl

/-- The loop overflows when it passes the maximum. -/
theorem readDigits_overflow (h : Text cs p s) (hn : s.length < n) (hi : (i : Int) ≤ xIntMax)
    (hmax : xIntMax < (hornerFrom base i ((s.takeWhile (isDigitOf base)).map digitValue) : Int)) :
    ∃ w, readDigits base n p i cs = .error (.overflow w) cs := by
  induction s generalizing p n i with
  | nil => exact absurd hmax (not_lt.mpr hi)
  | cons c s ih =>
    cases n with
    | zero => omega
    | succ n =>
      have hc : c ≠ nul := fun e => h.notMem (e ▸ List.mem_cons_self ..)
      rw [readDigits, Prog.bind_of_ok h.readChar_cons, if_neg hc]
      by_cases hd : isDigitOf base c = true
      · obtain ⟨d, hdc, hlt⟩ := isDigitOf_iff.mp hd
        have hv : digitValue c = d := digitValue_of_some hdc
        rw [List.takeWhile_cons_of_pos hd, List.map_cons, hornerFrom_cons, hv] at hmax
        have hmin : xIntMin ≤ 0 := by decide
        simp only [digitOf_eq, hdc, Option.map_some]
        rw [if_neg (by omega), ← Int.natCast_mul]
        -- The product may pass it, or the sum, or a later digit.
        by_cases hmul : ((i * base : Nat) : Int) ≤ xIntMax
        · rw [Prog.bind_of_ok (xInt_run (by omega) hmul), ← Int.natCast_add]
          by_cases hadd : ((i * base + d : Nat) : Int) ≤ xIntMax
          · rw [Prog.bind_of_ok (xInt_run (by omega) hadd)]
            exact ih h.tail (by simpa using hn) hadd hmax
          · exact ⟨_, Prog.bind_of_error (xInt_overflow (.inr (not_le.mp hadd)))⟩
        · exact ⟨_, Prog.bind_of_error (xInt_overflow (.inr (not_le.mp hmul)))⟩
      · rw [List.takeWhile_cons_of_neg hd] at hmax
        exact absurd hmax (not_lt.mpr hi)

theorem splitSign_cases (s : List XChar) : (splitSign s).1 = 1 ∨ (splitSign s).1 = -1 := by
  cases s with
  | nil => exact .inl rfl
  | cons c s =>
    rw [splitSign]
    split_ifs
    · exact .inl rfl
    · exact .inr rfl
    · exact .inl rfl

theorem splitBase_pos : 0 < (splitBase base s).1 := by
  cases s with
  | nil =>
    rw [splitBase]
    split_ifs <;> omega
  | cons c s =>
    rw [splitBase]
    split_ifs with h₀
    · exact Nat.pos_of_ne_zero h₀
    · exact Nat.succ_pos _
    · exact Nat.succ_pos _
    · exact Nat.succ_pos _

/-- The steps before the digits. -/
theorem xLibStrtoint_prefix (ppEnd : Bool) (base : Nat) (h : Text cs p s) : ∃ q,
    Text cs q (splitBase base (splitSign (s.dropWhile isSpaceChar)).2).2 ∧
    q + (splitBase base (splitSign (s.dropWhile isSpaceChar)).2).2.length = p + s.length ∧
    xLibStrtoint p ppEnd base cs = (do
      let (p, i) ← readDigits (parse base s).base (cs.length + 1) q (0 : Nat)
      return (← xInt (i * (parse base s).sign), if ppEnd then some p else none) : StrM _) cs := by
  obtain ⟨q₁, hrun₁, h₁, hq₁⟩ := skipSpace_run h h.lt_passes
  obtain ⟨q₂, hrun₂, h₂, hq₂⟩ := readSign_run h₁
  obtain ⟨q₃, hrun₃, h₃, hq₃⟩ := readBase_run base h₂
  refine ⟨q₃, h₃, by omega, ?_⟩
  unfold xLibStrtoint
  refine (Prog.bind_of_ok strPasses_run).trans ((Prog.bind_of_ok hrun₁).trans ?_)
  refine (Prog.bind_of_ok hrun₂).trans ((Prog.bind_of_ok hrun₃).trans ?_)
  exact Prog.bind_of_ok strPasses_run

/-- The function parses its string, if `x_int_t` holds the value of the digits. -/
theorem xLibStrtoint_run (ppEnd : Bool) (h : Text cs p s)
    (hmax : ((parse base s).value : Int) ≤ xIntMax) :
    ∃ q, xLibStrtoint p ppEnd base cs =
        .ok ((parse base s).sign * (parse base s).value, if ppEnd then some q else none) cs ∧
      q + (parse base s).rest.length = p + s.length := by
  obtain ⟨q₁, h₁, hq₁, hrun₁⟩ := xLibStrtoint_prefix ppEnd base h
  obtain ⟨q, hrun, hq⟩ := readDigits_run (i := 0) splitBase_pos h₁
    h₁.lt_passes hmax
  refine ⟨q, ?_, by rw [← hq₁, ← hq]; rfl⟩
  have hx : xInt ((parse base s).value * (parse base s).sign) cs =
      .ok ((parse base s).sign * (parse base s).value) cs := by
    rw [Int.mul_comm]
    unfold xIntMax at hmax
    rcases splitSign_cases (s.dropWhile isSpaceChar) with hs | hs
    · rw [show (parse base s).sign = 1 from hs]
      exact xInt_run (by unfold xIntMin; omega) (by unfold xIntMax; omega)
    · rw [show (parse base s).sign = -1 from hs]
      exact xInt_run (by unfold xIntMin; omega) (by unfold xIntMax; omega)
  rw [hrun₁]
  exact (Prog.bind_of_ok hrun).trans (Prog.bind_of_ok hx)

/-- Otherwise it overflows. -/
theorem xLibStrtoint_overflow (ppEnd : Bool) (h : Text cs p s)
    (hmax : xIntMax < ((parse base s).value : Int)) :
    ∃ w, xLibStrtoint p ppEnd base cs = .error (.overflow w) cs := by
  obtain ⟨q, h₁, -, hrun₁⟩ := xLibStrtoint_prefix ppEnd base h
  obtain ⟨w, hrun⟩ := readDigits_overflow (i := 0) h₁
    h₁.lt_passes (by decide) hmax
  rw [hrun₁]
  exact ⟨w, Prog.bind_of_error hrun⟩

theorem splitSign_suffix : (splitSign s).2 <:+ s := by
  cases s with
  | nil => exact List.suffix_rfl
  | cons c s =>
    rw [splitSign]
    split_ifs
    · exact List.suffix_cons c s
    · exact List.suffix_cons c s
    · exact List.suffix_rfl

theorem splitBase_suffix : (splitBase base s).2 <:+ s := by
  cases s with
  | nil => exact List.suffix_rfl
  | cons c s =>
    rw [splitBase]
    split_ifs
    · exact List.suffix_rfl
    · exact (List.tail_suffix s).trans (List.suffix_cons c s)
    · exact List.suffix_cons c s
    · exact List.suffix_rfl

theorem parse_rest_suffix : (parse base s).rest <:+ s :=
  (List.dropWhile_suffix _).trans (splitBase_suffix.trans
    (splitSign_suffix.trans (List.dropWhile_suffix _)))

/-- A string that stands anywhere in an array, also at its end: the function returns the sign times
the value of the digits, and the end of the digits, without a read behind the NUL and without an
overflow. -/
theorem strtoint_parses (ppEnd : Bool) (pre post : List XChar) (hs : nul ∉ s)
    (hmax : ((parse base s).value : Int) ≤ xIntMax) :
    xLibStrtoint pre.length ppEnd base (pre ++ s ++ nul :: post) =
      .ok ((parse base s).sign * (parse base s).value,
          if ppEnd then some (pre.length + (s.length - (parse base s).rest.length)) else none)
        (pre ++ s ++ nul :: post) := by
  have h : Text (pre ++ s ++ nul :: post) pre.length s := ⟨hs, pre, post, rfl, rfl⟩
  obtain ⟨q, hrun, hq⟩ := xLibStrtoint_run ppEnd h hmax
  have hle : (parse base s).rest.length ≤ s.length := parse_rest_suffix.length_le
  rw [hrun, show q = pre.length + (s.length - (parse base s).rest.length) by omega]

/-- The string `" -0x1f "` in base 0, with nothing behind its NUL. -/
theorem strtoint_parses_hex :
    nul ∉ ([32, 45, 48, 120, 49, 102, 32] : List XChar) ∧
    xLibStrtoint 0 true 0 [32, 45, 48, 120, 49, 102, 32, nul] =
      .ok (-31, some 6) [32, 45, 48, 120, 49, 102, 32, nul] :=
  ⟨by decide, strtoint_parses (s := [32, 45, 48, 120, 49, 102, 32]) true [] [] (by decide)
    (by decide)⟩

end Runs

end XExpr
