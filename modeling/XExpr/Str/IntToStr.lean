import XExpr.Lib.Digits
import XExpr.Str.Buffer

/-!
# `x_lib_inttostr`

The digits are found by division, stored from the least significant one on, and then reversed in
place.

* `digitChar_lower`: what is stored for a remainder is the digit in lower case (`lowerDigit`).
* `xLibInttostr_run`: the whole run. The array holds the sign, the numeral (`Digits.numeral`) and
  the terminating NUL, and is as before around them.
* `xLibInttostr_min`: the minimum has no negative.
* `inttostr_wellFormed_iff`: every other integer is written as a numeral that fits the documented
  buffer.
-/

namespace XExpr

open Digits

/-! ## The function -/

/-- The character that is stored for a remainder. -/
def digitChar (offset : Int) : XChar := .ofCode (offset + if 10 ≤ offset then 87 else 48)

/-- The `do` loop: one remainder a pass. An integer has at most as many digits as bits. -/
def digitLoop (base : Nat) : Nat → Int → Nat → StrM Nat
  | 0, _, _ => throw .diverge
  | n + 1, num, p2 => do
    let offset := num.tmod base
    writeChar p2 (digitChar offset)
    let num := num.tdiv base
    if num ≠ 0 then digitLoop base n num (p2 + 1) else return p2 + 1

/-- The `for` loop: the characters at `p1` and `p2` swapped by exclusive ors. -/
def swapLoop : Nat → Nat → Nat → StrM Unit
  | 0, _, _ => throw .diverge
  | n + 1, p1, p2 =>
    if p1 < p2 then do
      writeChar p1 ((← readChar p1) ^^^ (← readChar p2))
      writeChar p2 ((← readChar p2) ^^^ (← readChar p1))
      writeChar p1 ((← readChar p1) ^^^ (← readChar p2))
      swapLoop n (p1 + 1) (p2 - 1)
    else return

/-- The sign stored, and the number to write behind it. -/
def storeSign (num : Int) (p : Nat) : StrM (Nat × Int) :=
  if num < 0 then do
    writeChar p 45
    return (p + 1, ← xInt (-num))
  else return (p, num)

/-- The digits and the terminating NUL stored from `p1` on. -/
def storeDigits (num : Int) (base p1 : Nat) : StrM Unit := do
  let p2 ← digitLoop base xIntBits num p1
  writeChar p2 nul
  swapLoop xIntBits p1 (p2 - 1)

def xLibInttostr (num : Int) (pStr : Option Nat) (base : Nat) : StrM (Option Nat) := do
  match pStr with
  | none => return none
  | some p =>
    if base < 2 ∨ 36 < base then
      return none
    let (p1, num) ← storeSign num p
    storeDigits num base p1
    return some p

/-! ## What it writes -/

/-- The text of a sign. -/
def signText (num : Int) : List XChar := if num < 0 then [45] else []

/-- A digit from `0` to `9`, or a letter from `a` on. -/
def lowerDigit (d : Nat) : XChar := if d < 10 then .ofCode (48 + d) else .ofCode (97 + (d - 10))

/-- The text of a list of digits. -/
def digitText (ds : List Nat) : List XChar := ds.map lowerDigit

/-- The text of a number. -/
def intText (base : Nat) (num : Int) : List XChar :=
  signText num ++ digitText (numeral base num.natAbs)

/-- What is stored for a remainder is its digit. -/
theorem digitChar_lower {d : Nat} (h : d < 36) : digitChar d = lowerDigit d := by
  revert d
  decide

section Runs

variable {base n m p : Nat} {num : Int} {pre post ds old : List XChar} {cs : List XChar}

/-- The remainders stored one after the other. -/
theorem digitLoop_run (hb : 1 < base) (hb' : base ≤ 36) (hp : p = pre.length)
    (hold : (numeral base m).length ≤ old.length) (hn : (numeral base m).length ≤ n) :
    digitLoop base n m p (pre ++ old) =
      .ok (p + (numeral base m).length)
        (pre ++ digitText (numeral base m).reverse ++
          old.drop (numeral base m).length) := by
  induction n generalizing m p pre old with
  | zero =>
    have := List.length_pos_iff.mpr (numeral_ne_nil (b := base) (m := m))
    omega
  | succ n ih =>
    have hlen := congrArg List.length (reverse_numeral (m := m) hb)
    rw [List.length_reverse, List.length_cons] at hlen
    obtain ⟨c, old, rfl⟩ : ∃ c o, old = c :: o :=
      List.exists_cons_of_length_pos (by omega)
    unfold digitLoop
    have hd : m % base < 36 := (Nat.mod_lt m (by omega)).trans_le hb'
    rw [Prog.bind_of_ok (writeChar_at hp), ← Int.ofNat_tmod, ← Int.ofNat_tdiv,
      digitChar_lower hd]
    rw [List.length_cons] at hold
    rw [reverse_numeral hb]
    by_cases hz : m / base = 0
    · simp only [hz, if_true, List.length_nil] at hlen ⊢
      simp [hlen, digitText]
    · rw [if_neg hz, List.length_reverse] at hlen
      rw [if_pos (Int.natCast_ne_zero.mpr hz), if_neg hz]
      rw [show pre ++ lowerDigit (m % base) :: old =
        (pre ++ [lowerDigit (m % base)]) ++ old by simp]
      rw [ih (by simp [hp]) (by omega) (by omega), hlen]
      simp [digitText, Nat.add_assoc, Nat.add_comm 1]

/-- Three exclusive ors swap two characters at different places. -/
theorem swap_run {c d : XChar} {mid : List XChar} {q : Nat} (hp : p = pre.length)
    (hq : q = (pre ++ c :: mid).length) (f : Unit → StrM Unit) :
    (do
      writeChar p ((← readChar p) ^^^ (← readChar q))
      writeChar q ((← readChar q) ^^^ (← readChar p))
      writeChar p ((← readChar p) ^^^ (← readChar q))
      f ()) (pre ++ c :: (mid ++ d :: post)) = f () (pre ++ d :: (mid ++ c :: post)) := by
  have hl : ∀ x : XChar, q = (pre ++ x :: mid).length := fun x => by simp [hq]
  have hr : ∀ x y : XChar, pre ++ x :: (mid ++ y :: post) = (pre ++ x :: mid) ++ y :: post := by
    simp
  have hreadp : ∀ x y, readChar p (pre ++ x :: (mid ++ y :: post)) = .ok x _ := fun x y =>
    readChar_at hp
  have hreadq : ∀ x y, readChar q (pre ++ x :: (mid ++ y :: post)) = .ok y
      (pre ++ x :: (mid ++ y :: post)) := fun x y => by
    rw [hr]
    exact readChar_at (hl x)
  have hwritep : ∀ x y z, writeChar p z (pre ++ x :: (mid ++ y :: post)) = .ok ()
      (pre ++ z :: (mid ++ y :: post)) := fun x y z => writeChar_at hp
  have hwriteq : ∀ x y z, writeChar q z (pre ++ x :: (mid ++ y :: post)) = .ok ()
      (pre ++ x :: (mid ++ z :: post)) := fun x y z => by
    rw [hr, writeChar_at (hl x), hr]
  rw [Prog.bind_of_ok (hreadp _ _), Prog.bind_of_ok (hreadq _ _), Prog.bind_of_ok (hwritep _ _ _),
    Prog.bind_of_ok (hreadq _ _), Prog.bind_of_ok (hreadp _ _), Prog.bind_of_ok (hwriteq _ _ _),
    Prog.bind_of_ok (hreadp _ _), Prog.bind_of_ok (hreadq _ _), Prog.bind_of_ok (hwritep _ _ _)]
  have h₁ : d ^^^ (c ^^^ d) = c := by rw [BitVec.xor_comm c d, ← BitVec.xor_assoc]; simp
  have h₂ : c ^^^ d ^^^ c = d := by rw [BitVec.xor_comm c d, BitVec.xor_assoc]; simp
  rw [h₁, h₂]

/-- The loop reverses the characters between its two indices. -/
theorem swapLoop_run (hp : p = pre.length) (hn : ds.length < n) :
    swapLoop n p (p + ds.length - 1) (pre ++ ds ++ post) =
      .ok () (pre ++ ds.reverse ++ post) := by
  induction ds using List.bidirectionalRec generalizing n p pre post with
  | nil =>
    obtain ⟨n, rfl⟩ := Nat.exists_eq_add_of_lt hn
    unfold swapLoop
    rw [if_neg (by simp)]
    simp
  | singleton c =>
    cases n with
    | zero => simp at hn
    | succ n =>
      unfold swapLoop
      rw [if_neg (by simp)]
      simp
  | cons_append c mid d ih =>
    cases n with
    | zero => simp at hn
    | succ n =>
      simp only [List.length_cons, List.length_append, List.length_nil] at hn ⊢
      unfold swapLoop
      rw [if_pos (by omega)]
      rw [show pre ++ c :: (mid ++ [d]) ++ post = pre ++ c :: (mid ++ d :: post) by simp]
      rw [swap_run hp (by simp [hp, Nat.add_assoc]) fun _ => swapLoop n (p + 1) _]
      rw [show pre ++ d :: (mid ++ c :: post) = (pre ++ [d]) ++ mid ++ (c :: post) by simp]
      rw [show p + (mid.length + (0 + 1) + 1) - 1 - 1 = p + 1 + mid.length - 1 by omega]
      rw [ih (by simp [hp]) (by omega)]
      simp

/-- The digits of a number, the terminating NUL, and what was behind them before. -/
theorem storeDigits_run (hb : 1 < base) (hb' : base ≤ 36) (hm : m < 2 ^ 63) (hp : p = pre.length)
    (hold : (numeral base m).length < old.length) :
    storeDigits m base p (pre ++ old) = .ok () (pre ++ digitText (numeral base m) ++
      nul :: old.drop ((numeral base m).length + 1)) := by
  have hlen : (numeral base m).length ≤ 63 :=
    length_numeral_le hb (by omega) (hm.trans_le (Nat.pow_le_pow_left hb 63))
  have hbits : (numeral base m).length < xIntBits := by
    unfold xIntBits
    omega
  unfold storeDigits
  rw [Prog.bind_of_ok (digitLoop_run hb hb' hp hold.le hbits.le)]
  obtain ⟨c, rest, hc⟩ : ∃ c o, old.drop (numeral base m).length = c :: o :=
    List.exists_cons_of_length_pos (by simp; omega)
  have hrest : old.drop ((numeral base m).length + 1) = rest := by
    rw [← List.drop_drop, hc]
    rfl
  rw [hc, hrest, Prog.bind_of_ok (writeChar_at (by simp [hp, digitText]))]
  have hrev : ((numeral base m).reverse.map lowerDigit).length < xIntBits := by
    simpa using hbits
  have h : swapLoop xIntBits p (p + _ - 1) (pre ++ _ ++ nul :: rest) = _ := swapLoop_run hp hrev
  rw [List.length_map, List.length_reverse] at h
  rw [digitText, h, digitText, List.map_reverse, List.reverse_reverse]

theorem storeSign_run (h₁ : xIntMin < num) (hp : p = pre.length)
    (hold : (signText num).length ≤ old.length) :
    storeSign num p (pre ++ old) = .ok (p + (signText num).length, (num.natAbs : Int))
      (pre ++ signText num ++ old.drop (signText num).length) := by
  unfold storeSign signText at *
  by_cases hneg : num < 0
  · rw [if_pos hneg] at hold
    obtain ⟨c, old, rfl⟩ : ∃ c o, old = c :: o := List.exists_cons_of_length_pos hold
    have hx : xInt (-num) (pre ++ 45 :: old) = .ok (num.natAbs : Int) (pre ++ 45 :: old) := by
      rw [show -num = num.natAbs by omega]
      unfold xIntMin at h₁
      exact xInt_run (by unfold xIntMin; omega) (by unfold xIntMax; omega)
    rw [if_pos hneg, if_pos hneg, Prog.bind_of_ok (writeChar_at hp), Prog.bind_of_ok hx]
    simp
  · rw [if_neg hneg, if_neg hneg]
    rw [Prog.pure_apply, Int.natAbs_of_nonneg (by omega)]
    simp

/-- The whole run: the sign, the digits and the NUL are stored, if the array has room for them. -/
theorem xLibInttostr_run (hb : 1 < base) (hb' : base ≤ 36) (h₁ : xIntMin < num)
    (h₂ : num ≤ xIntMax) (hp : p = pre.length) (hold : (intText base num).length < old.length) :
    xLibInttostr num (some p) base (pre ++ old) =
      .ok (some p)
        (pre ++ intText base num ++ nul :: old.drop ((intText base num).length + 1)) := by
  have hm : num.natAbs < 2 ^ 63 := by
    unfold xIntMin at h₁
    unfold xIntMax at h₂
    omega
  have hlen : (intText base num).length =
      (signText num).length + (numeral base num.natAbs).length := by
    simp [intText, digitText]
  rw [hlen] at hold ⊢
  unfold xLibInttostr
  simp only [show ¬(base < 2 ∨ 36 < base) by omega, if_false]
  rw [Prog.bind_of_ok (storeSign_run h₁ hp (by omega)),
    Prog.bind_of_ok (storeDigits_run hb hb' hm (by simp [hp]) (by simp; omega)), List.drop_drop]
  simp [intText, Nat.add_assoc]

/-- The minimum of `x_int_t` is not negated. -/
theorem xLibInttostr_min {c : XChar} (hb : 1 < base) (hb' : base ≤ 36) (hp : p = pre.length) :
    xLibInttostr xIntMin (some p) base (pre ++ c :: old) =
      .error (.overflow (2 ^ 63)) (pre ++ 45 :: old) := by
  have hx : ∀ cs, xInt (-xIntMin) cs = .error (.overflow (2 ^ 63)) cs := fun cs =>
    xInt_overflow (.inr (by decide))
  have hs : storeSign xIntMin p (pre ++ c :: old) =
      .error (.overflow (2 ^ 63)) (pre ++ 45 :: old) := by
    unfold storeSign
    rw [if_pos (by decide), Prog.bind_of_ok (writeChar_at hp), Prog.bind_of_error (hx _)]
  unfold xLibInttostr
  simp only [show ¬(base < 2 ∨ 36 < base) by omega, if_false]
  exact Prog.bind_of_error hs

/-! ## The numeral is well formed -/

/-- `c` is a digit of the base, a letter in lower case. -/
def IsLowerDigit (base : Nat) (c : XChar) : Prop :=
  48 ≤ c.code ∧ c.code ≤ 57 ∧ c.code - 48 < base ∨ 97 ≤ c.code ∧ c.code ≤ 122 ∧ c.code - 87 < base

/-- The text of a number: `-` exactly if it is negative, and at least one digit, the first of which
is `0` for the number zero only. -/
structure WellFormedText (base : Nat) (num : Int) (text : List XChar) : Prop where
  split : ∃ ds, text = signText num ++ ds ∧ ds ≠ [] ∧ (∀ c ∈ ds, IsLowerDigit base c) ∧
    (ds.head? = some 48 → num = 0)

/-- The size that the documentation gives for a buffer, `8 * sizeof(x_int_t) + 1`. -/
def textSize : Nat := xIntBits + 1

/-- With an array of the documented size behind `p`, the function returns `p` and has written a
well-formed text and a NUL, no more than this size, and nothing else. -/
def WritesNumeral (base : Nat) (num : Int) : Prop :=
  ∀ pre old : List XChar, textSize ≤ old.length → ∃ text,
    xLibInttostr num (some pre.length) base (pre ++ old) =
      .ok (some pre.length) (pre ++ text ++ nul :: old.drop (text.length + 1)) ∧
    WellFormedText base num text ∧ text.length + 1 ≤ textSize

theorem code_lowerDigit {d : Nat} (h : d < 36) :
    (lowerDigit d).code = if d < 10 then 48 + (d : Int) else 87 + d := by
  revert d
  decide

theorem isLowerDigit_lowerDigit {d : Nat} (h : d < base) (hb : base ≤ 36) :
    IsLowerDigit base (lowerDigit d) := by
  unfold IsLowerDigit
  rw [code_lowerDigit (h.trans_le hb)]
  split <;> omega

theorem lowerDigit_zero {d : Nat} (h : d < 36) (hd : lowerDigit d = 48) : d = 0 := by
  have hc := congrArg XChar.code hd
  rw [code_lowerDigit h, show XChar.code 48 = 48 from rfl] at hc
  split at hc <;> omega

theorem intText_wellFormed (hb : 1 < base) (hb' : base ≤ 36) :
    WellFormedText base num (intText base num) := by
  refine ⟨_, rfl, by simpa [digitText] using numeral_ne_nil, fun c hc => ?_, fun hhead => ?_⟩
  · obtain ⟨d, hd, rfl⟩ := List.mem_map.mp hc
    exact isLowerDigit_lowerDigit (numeral_lt hb hd) hb'
  · by_contra hz
    obtain ⟨d, ds, hds⟩ := List.exists_cons_of_ne_nil (numeral_ne_nil (b := base) (m := num.natAbs))
    have hne := numeral_head (b := base) (Int.natAbs_ne_zero.mpr hz)
    simp only [hds, List.head_cons] at hne
    rw [digitText, hds, List.map_cons, List.head?_cons, Option.some.injEq] at hhead
    exact hne (lowerDigit_zero ((numeral_lt hb (hds ▸ List.mem_cons_self ..)).trans_le hb') hhead)

theorem length_intText (hb : 1 < base) (h₁ : xIntMin < num) (h₂ : num ≤ xIntMax) :
    (intText base num).length < textSize := by
  have hm : num.natAbs < 2 ^ 63 := by
    unfold xIntMin at h₁
    unfold xIntMax at h₂
    omega
  have hlen := length_numeral_le hb (by omega) (hm.trans_le (Nat.pow_le_pow_left hb 63))
  have hs : (signText num).length ≤ 1 := by
    unfold signText
    split <;> simp
  simp only [intText, digitText, List.length_append, List.length_map, textSize, xIntBits]
  omega

/-- Every integer but the minimum is written as a well-formed numeral that fits the documented
buffer. -/
theorem inttostr_wellFormed_iff (hb : 2 ≤ base) (hb' : base ≤ 36) (h₁ : xIntMin ≤ num)
    (h₂ : num ≤ xIntMax) : WritesNumeral base num ↔ num ≠ xIntMin := by
  constructor
  · rintro h rfl
    obtain ⟨text, hrun, -⟩ := h [] (List.replicate textSize nul) (by simp)
    rw [textSize, List.replicate_succ, xLibInttostr_min hb hb' rfl] at hrun
    cases hrun
  · intro hne pre old hold
    have h₁' : xIntMin < num := lt_of_le_of_ne h₁ hne.symm
    have hlen := length_intText hb h₁' h₂
    exact ⟨intText base num, xLibInttostr_run hb hb' h₁' h₂ rfl (hlen.trans_le hold),
      intText_wellFormed hb hb', hlen⟩

theorem inttostr_wellFormed_minus : WritesNumeral 16 (-255) ↔ (-255 : Int) ≠ xIntMin :=
  inttostr_wellFormed_iff (by decide) (by decide) (by decide) (by decide)

/-- The minimum in base 2: negating it overflows. -/
theorem inttostr_min_fails : ¬WritesNumeral 2 xIntMin := by
  intro h
  obtain ⟨text, hrun, -⟩ := h [] (List.replicate textSize nul) (by simp)
  rw [textSize, List.replicate_succ, xLibInttostr_min (by decide) (by decide) rfl] at hrun
  cases hrun

end Runs

end XExpr
