import Mathlib.Data.List.TakeWhile
import XExpr.Str.IntToStr
import XExpr.Str.StrToInt

/-!
# Printing and parsing an integer

`x_lib_inttostr` and `x_lib_strtoint` are inverse to each other. Both directions come from one
fact: the text of a number parses to its sign and its digits (`parse_intText`), and the canonical
numerals are the texts of the numbers (`CanonicalText.eq_intText`).
-/

namespace XExpr

open Digits

variable {base d : Nat} {num : Int} {ds : List Nat} {s : List XChar}

/-! ## The characters of a numeral -/

theorem lowerDigit_ne (h : d < 36) :
    lowerDigit d ≠ nul ∧ lowerDigit d ≠ 43 ∧ lowerDigit d ≠ 45 := by
  revert d
  decide

theorem lowerDigit_not_space (h : d < 36) : isSpaceChar (lowerDigit d) = false := by
  revert d
  decide

theorem alnumValue_lowerDigit (h : d < 36) : alnumValue (lowerDigit d) = some d := by
  revert d
  decide

theorem isDigitOf_lowerDigit (h : d < base) (hb : base ≤ 36) :
    isDigitOf base (lowerDigit d) = true :=
  isDigitOf_iff.mpr ⟨d, alnumValue_lowerDigit (h.trans_le hb), h⟩

theorem map_digitValue (hb : base ≤ 36) (hd : ∀ d ∈ ds, d < base) :
    (digitText ds).map digitValue = ds := by
  rw [digitText, List.map_map]
  calc ds.map (digitValue ∘ lowerDigit)
      = ds.map id := List.map_congr_left fun d hm =>
        digitValue_of_some (alnumValue_lowerDigit ((hd d hm).trans_le hb))
    _ = ds := List.map_id ds

/-! ## The text of a number parses -/

theorem nul_notMem_digitText (hb : base ≤ 36) (hd : ∀ d ∈ ds, d < base) : nul ∉ digitText ds := by
  intro hm
  obtain ⟨d, hmem, he⟩ := List.mem_map.mp hm
  exact (lowerDigit_ne ((hd d hmem).trans_le hb)).1 he

theorem nul_notMem_intText (hb : 1 < base) (hb' : base ≤ 36) : nul ∉ intText base num := by
  intro hm
  rcases List.mem_append.mp hm with hm | hm
  · unfold signText at hm
    split at hm
    · exact absurd (List.mem_singleton.mp hm) (by decide)
    · cases hm
  · exact nul_notMem_digitText hb' (fun d => numeral_lt hb) hm

/-- A run of digits alone: no white space, no sign, no prefix, and all of it is in the base. -/
theorem takeWhile_digitText (hb : base ≤ 36) (hd : ∀ d ∈ ds, d < base) :
    (digitText ds).takeWhile (isDigitOf base) = digitText ds ∧
      (digitText ds).dropWhile (isDigitOf base) = [] := by
  have h : ∀ c ∈ digitText ds, isDigitOf base c = true := fun c hc => by
    obtain ⟨d, hm, rfl⟩ := List.mem_map.mp hc
    exact isDigitOf_lowerDigit (hd d hm) hb
  exact ⟨List.takeWhile_eq_self_iff.mpr h, List.dropWhile_eq_nil_iff.mpr h⟩

theorem parse_intText (hb : 1 < base) (hb' : base ≤ 36) :
    parse base (intText base num) =
      ⟨if num < 0 then -1 else 1, base, digitText (numeral base num.natAbs), []⟩ := by
  have hd : ∀ d ∈ numeral base num.natAbs, d < base := fun d => numeral_lt hb
  obtain ⟨d, ds, hds⟩ := List.exists_cons_of_ne_nil (numeral_ne_nil (b := base) (m := num.natAbs))
  have hd₀ : d < 36 := (hd d (hds ▸ List.mem_cons_self ..)).trans_le hb'
  have hsign : splitSign ((intText base num).dropWhile isSpaceChar) =
      (if num < 0 then -1 else 1, digitText (numeral base num.natAbs)) := by
    unfold intText signText
    split
    · rfl
    · have hspace := lowerDigit_not_space hd₀
      rw [List.nil_append, hds, digitText, List.map_cons,
        List.dropWhile_cons_of_neg (by rw [hspace]; decide), splitSign,
        if_neg (lowerDigit_ne hd₀).2.1, if_neg (lowerDigit_ne hd₀).2.2]
  have hrun := takeWhile_digitText hb' hd
  unfold parse
  simp only [hsign, splitBase_of_ne (show base ≠ 0 by omega), hrun.1, hrun.2]

theorem parse_intText_value (hb : 1 < base) (hb' : base ≤ 36) :
    (parse base (intText base num)).value = num.natAbs := by
  rw [parse_intText hb hb', Parse.value]
  simp only [map_digitValue hb' fun d => numeral_lt hb, horner_numeral]

/-- The parser returns the number, and the end of its text. -/
theorem xLibStrtoint_intText {cs : List XChar} {p : Nat} (ppEnd : Bool) (hb : 1 < base)
    (hb' : base ≤ 36) (h₁ : xIntMin < num) (h₂ : num ≤ xIntMax)
    (h : Text cs p (intText base num)) :
    xLibStrtoint p ppEnd base cs =
      .ok (num, if ppEnd then some (p + (intText base num).length) else none) cs := by
  have hmax : ((parse base (intText base num)).value : Int) ≤ xIntMax := by
    rw [parse_intText_value hb hb']
    unfold xIntMin at h₁
    unfold xIntMax at h₂ ⊢
    omega
  obtain ⟨q, hrun, hq⟩ := xLibStrtoint_run ppEnd h hmax
  rw [hrun, parse_intText_value hb hb']
  rw [parse_intText hb hb'] at hq ⊢
  have hv : (if num < 0 then -1 else 1) * (num.natAbs : Int) = num := by
    split <;> omega
  rw [hv, show q = p + (intText base num).length from hq]

/-! ## Canonical numerals -/

/-- An optional `-`, then digits of the base in lower case, without a leading zero unless the
numeral is `0`, not `-0`, and a magnitude that `x_int_t` holds. -/
def CanonicalText (base : Nat) (s : List XChar) : Prop :=
  ∃ (neg : Bool) (ds : List Nat), s = (if neg then [45] else []) ++ digitText ds ∧
    (∀ d ∈ ds, d < base) ∧ Canonical ds ∧ (neg = true → ds ≠ [0]) ∧ (horner base ds : Int) ≤ xIntMax

/-- The canonical numerals are the texts of the numbers. -/
theorem CanonicalText.eq_intText (hb : 1 < base) (h : CanonicalText base s) :
    ∃ num, xIntMin < num ∧ num ≤ xIntMax ∧ s = intText base num := by
  obtain ⟨neg, ds, rfl, hd, hc, hz, hmax⟩ := h
  have hds := numeral_horner hb hd hc
  unfold xIntMax at hmax
  cases neg with
  | false =>
    refine ⟨horner base ds, by unfold xIntMin; omega, hmax, ?_⟩
    have hneg : ¬(horner base ds : Int) < 0 := by omega
    rw [intText, Int.natAbs_natCast, hds, signText, if_neg hneg]
    rfl
  | true =>
    have hpos : horner base ds ≠ 0 := fun e => hz rfl (by rw [← hds, e, numeral_zero])
    have hneg : -(horner base ds : Int) < 0 := by omega
    refine ⟨-(horner base ds : Int), by unfold xIntMin; omega, by unfold xIntMax; omega, ?_⟩
    rw [intText, Int.natAbs_neg, Int.natAbs_natCast, hds, signText, if_pos hneg]
    rfl

/-! ## The two directions -/

/-- A number that was printed parses to itself, with the end at the terminating NUL; and a
canonical numeral that was parsed prints to itself. -/
theorem inttostr_strtoint_inverse (hb : 2 ≤ base) (hb' : base ≤ 36) :
    (∀ num (pre old : List XChar), xIntMin < num → num ≤ xIntMax →
      (intText base num).length < old.length → ∃ cs e,
        xLibInttostr num (some pre.length) base (pre ++ old) = .ok (some pre.length) cs ∧
        xLibStrtoint pre.length true base cs = .ok (num, some e) cs ∧
        cs[e]? = some nul ∧ ∀ i, pre.length ≤ i → i < e → cs[i]? ≠ some nul) ∧
    ∀ s (pre post pre' old : List XChar), CanonicalText base s → s.length < old.length → ∃ num,
      xLibStrtoint pre.length false base (pre ++ s ++ nul :: post) =
        .ok (num, none) (pre ++ s ++ nul :: post) ∧
      xLibInttostr num (some pre'.length) base (pre' ++ old) =
        .ok (some pre'.length) (pre' ++ s ++ nul :: old.drop (s.length + 1)) := by
  refine ⟨fun num pre old h₁ h₂ hold => ?_, fun s pre post pre' old hs hold => ?_⟩
  · have hn : nul ∉ intText base num := nul_notMem_intText hb hb'
    refine ⟨_, pre.length + (intText base num).length,
      xLibInttostr_run hb hb' h₁ h₂ rfl hold,
      xLibStrtoint_intText true hb hb' h₁ h₂ ⟨hn, pre, _, rfl, rfl⟩, by simp, fun i hi hie he => ?_⟩
    rw [List.append_assoc, List.getElem?_append_right hi,
      List.getElem?_append_left (by omega)] at he
    exact hn (List.mem_of_getElem? he)
  · obtain ⟨num, h₁, h₂, rfl⟩ := hs.eq_intText hb
    exact ⟨num, xLibStrtoint_intText false hb hb' h₁ h₂
      ⟨nul_notMem_intText hb hb', pre, post, rfl, rfl⟩, xLibInttostr_run hb hb' h₁ h₂ rfl hold⟩

/-- `-255` in base 16, and the numeral `-ff`. -/
theorem inttostr_strtoint_hex :
    (∃ cs e, xLibInttostr (-255) (some 0) 16 (List.replicate 65 nul) = .ok (some 0) cs ∧
      xLibStrtoint 0 true 16 cs = .ok (-255, some e) cs ∧
      cs[e]? = some nul ∧ ∀ i, 0 ≤ i → i < e → cs[i]? ≠ some nul) ∧
    ∃ num, xLibStrtoint 0 false 16 [45, 102, 102, nul] = .ok (num, none) [45, 102, 102, nul] ∧
      xLibInttostr num (some 0) 16 (List.replicate 8 nul) =
        .ok (some 0) ([45, 102, 102] ++ nul :: List.replicate 4 nul) := by
  have h : (2 : Nat) ≤ 16 ∧ (16 : Nat) ≤ 36 := by decide
  refine ⟨(inttostr_strtoint_inverse h.1 h.2).1 (-255) [] (List.replicate 65 nul) (by decide)
    (by decide) ?_, (inttostr_strtoint_inverse h.1 h.2).2 [45, 102, 102] [] [] [] _ ?_ (by decide)⟩
  · exact (length_intText (by decide) (by decide) (by decide)).trans_le (by decide)
  · exact ⟨true, [15, 15], rfl, by decide, .inr ⟨by decide, by decide⟩, by decide, by decide⟩

end XExpr
