import Mathlib.Data.Nat.Digits.Lemmas

/-!
# Numerals

A numeral of a base is the list of its digits, the most significant one first.

* `horner`: the value, computed as a parser does, one digit after the other. `le_hornerFrom`:
  the values on the way are not above the last one.
* `numeral`: the numeral without leading zeros, with one digit for zero. `reverse_numeral` gives
  the digits as a printer finds them, by division.
* `horner_numeral`, `numeral_horner`: the two are inverse to each other.
-/

namespace Digits

variable {b k m d a : Nat} {ds es : List Nat}

/-- One more digit behind a number. -/
def push (b a d : Nat) : Nat := a * b + d

/-- The number that the digits `ds` make behind `a`. -/
def hornerFrom (b a : Nat) (ds : List Nat) : Nat := ds.foldl (push b) a

/-- The value of a numeral. -/
def horner (b : Nat) (ds : List Nat) : Nat := hornerFrom b 0 ds

@[simp] theorem hornerFrom_nil : hornerFrom b a [] = a := rfl

@[simp] theorem hornerFrom_cons : hornerFrom b a (d :: ds) = hornerFrom b (a * b + d) ds := rfl

@[simp] theorem horner_singleton : horner b [d] = d := by simp [horner]

theorem hornerFrom_eq : hornerFrom b a ds = a * b ^ ds.length + horner b ds := by
  induction ds generalizing a with
  | nil => simp [horner]
  | cons d ds ih =>
    calc hornerFrom b a (d :: ds)
        = (a * b + d) * b ^ ds.length + horner b ds := by rw [hornerFrom_cons, ih]
      _ = a * b ^ (ds.length + 1) + (d * b ^ ds.length + horner b ds) := by ring
      _ = a * b ^ (d :: ds).length + horner b (d :: ds) := by
        rw [show horner b (d :: ds) = hornerFrom b (0 * b + d) ds from rfl, ih, List.length_cons]
        ring

/-- Reading on does not make a number smaller. -/
theorem le_hornerFrom (hb : 0 < b) : a ≤ hornerFrom b a ds := by
  rw [hornerFrom_eq]
  calc a = a * 1 := (Nat.mul_one a).symm
    _ ≤ a * b ^ ds.length := Nat.mul_le_mul_left a (Nat.one_le_pow _ _ hb)
    _ ≤ _ := Nat.le_add_right _ _

theorem horner_eq_ofDigits : horner b ds = Nat.ofDigits b ds.reverse := by
  induction ds with
  | nil => rfl
  | cons d ds ih =>
    rw [horner, hornerFrom_cons, hornerFrom_eq, ih, List.reverse_cons, Nat.ofDigits_append,
      Nat.ofDigits_singleton, List.length_reverse]
    ring

/-- The digits of a number, without leading zeros. -/
def numeral (b m : Nat) : List Nat := if m = 0 then [0] else (Nat.digits b m).reverse

theorem numeral_zero : numeral b 0 = [0] := rfl

theorem numeral_pos (hm : m ≠ 0) : numeral b m = (Nat.digits b m).reverse := if_neg hm

/-- The digits as division finds them, the least significant one first. -/
theorem reverse_numeral (hb : 1 < b) :
    (numeral b m).reverse = m % b :: if m / b = 0 then [] else (numeral b (m / b)).reverse := by
  by_cases hm : m = 0
  · subst hm
    simp [numeral_zero]
  · rw [numeral_pos hm, List.reverse_reverse, Nat.digits_eq_cons_digits_div hb hm]
    split
    · next h => rw [h, Nat.digits_zero]
    · next h => rw [numeral_pos h, List.reverse_reverse]

theorem numeral_ne_nil : numeral b m ≠ [] := by
  unfold numeral
  split
  · simp
  · next h => simpa using Nat.digits_ne_nil_iff_ne_zero.mpr h

theorem numeral_lt (hb : 1 < b) (hd : d ∈ numeral b m) : d < b := by
  unfold numeral at hd
  split at hd
  · obtain rfl := List.mem_singleton.mp hd
    omega
  · exact Nat.digits_lt_base hb (List.mem_reverse.mp hd)

/-- Only zero has a numeral that starts with a zero. -/
theorem numeral_head (hm : m ≠ 0) : (numeral b m).head numeral_ne_nil ≠ 0 := by
  have h := Nat.getLast_digit_ne_zero b hm
  simp only [numeral_pos hm, List.head_reverse]
  exact h

/-- A number below `b ^ k` has at most `k` digits. -/
theorem length_numeral_le (hb : 1 < b) (hk : 0 < k) (hm : m < b ^ k) :
    (numeral b m).length ≤ k := by
  unfold numeral
  split
  · exact hk
  · rw [List.length_reverse]
    exact (Nat.digits_length_le_iff hb m).mpr hm

theorem horner_numeral : horner b (numeral b m) = m := by
  unfold numeral
  split
  · next h => rw [h, horner_singleton]
  · rw [horner_eq_ofDigits, List.reverse_reverse, Nat.ofDigits_digits]

/-- No leading zero, unless the numeral is the one of zero. -/
def Canonical (ds : List Nat) : Prop := ds = [0] ∨ ∃ h : ds ≠ [], ds.head h ≠ 0

theorem numeral_horner (hb : 1 < b) (hd : ∀ d ∈ ds, d < b) (hc : Canonical ds) :
    numeral b (horner b ds) = ds := by
  rcases hc with rfl | ⟨hne, hh⟩
  · rw [horner_singleton, numeral_zero]
  · have hrev : ds.reverse ≠ [] := by simpa using hne
    have h := Nat.digits_ofDigits b hb ds.reverse (fun d hm => hd d (List.mem_reverse.mp hm))
      fun hn => by rwa [List.getLast_reverse]
    rw [← horner_eq_ofDigits] at h
    have hz : horner b ds ≠ 0 := fun hz => hrev (by rw [← h, hz, Nat.digits_zero])
    rw [numeral_pos hz, h, List.reverse_reverse]

end Digits
