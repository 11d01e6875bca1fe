import Mathlib.Data.List.TakeWhile
import XExpr.Io.State

/-!
# Reading character by character

`x_sys_read_char` returns a character as an `int`, and `X_SYS_EOF` at the end of the input. A
character is signed, so the byte 255 is returned as -1, which is `X_SYS_EOF`.

* `xSysReadChar_run`: one call.
* `readChars_run`: the calls up to the first `X_SYS_EOF` get the bytes before the first byte 255.
* `chars_delivered_iff`: they get all bytes if and only if none of them is 255.
-/

namespace XExpr

/-- What is left to read, by file descriptor; `none` where a read is an error. -/
abbrev Inputs := Int → Option (List XChar)

abbrev InputM := EStateM Stop Inputs

/-- `X_SYS_EOF`. -/
def xSysEof : Int := -1

/-- `sizeof(x_char_t)`. -/
def sizeofChar : Nat := 1

/-- `x_sys_read`: as many of the next bytes as were asked for, or all that are left. -/
def xSysReadInput (fd : Int) (size : Nat) : InputM ReadAnswer := do
  match (← get) fd with
  | none => return .error
  | some l =>
    modify (Function.update · fd (some (l.drop size)))
    return .bytes (l.take size)

/-- What a variable with the value `c` holds after a read into it. -/
def ReadAnswer.stored (c : XChar) : ReadAnswer → XChar
  | bytes (c' :: _) => c'
  | _ => c

/-- `c` is what the local variable holds before the read. -/
def xSysReadChar (c : XChar) (fd : Int) : InputM Int := do
  let answer ← xSysReadInput fd sizeofChar
  if answer.result ≤ 0 then
    return xSysEof
  return (answer.stored c).code

/-- The results of the calls before the first one that returns `X_SYS_EOF`. -/
def readChars (c : XChar) (fd : Int) : Nat → InputM (List Int)
  | 0 => throw .diverge
  | passes + 1 => do
    let r ← xSysReadChar c fd
    if r = xSysEof then
      return []
    return r :: (← readChars c fd passes)

/-- The byte that is read as the end of the input. -/
def eofChar : XChar := .ofCode xSysEof

variable {fd : Int} {s s' : Inputs} {l : List XChar} {c d : XChar} {rs : List Int} {passes : Nat}

theorem code_eq_eof : c.code = xSysEof ↔ c = eofChar := by
  revert c
  decide

/-- The conversion to `int` and back. -/
theorem ofCode_code (c : XChar) : XChar.ofCode c.code = c := by
  rw [XChar.ofCode, XChar.code, BitVec.ofInt_toInt]

/-! ## One call -/

theorem xSysReadInput_run (size : Nat) (h : s fd = some l) : xSysReadInput fd size s =
    .ok (.bytes (l.take size)) (Function.update s fd (some (l.drop size))) := by
  simp only [xSysReadInput, Prog.get_bind, h]
  rfl

/-- The next byte is taken from the input and returned. -/
theorem xSysReadChar_run (h : s fd = some (c :: l)) :
    xSysReadChar d fd s = .ok c.code (Function.update s fd (some l)) := by
  rw [xSysReadChar, Prog.bind_of_ok (xSysReadInput_run sizeofChar h)]
  rfl

theorem xSysReadChar_end (h : s fd = some []) :
    xSysReadChar d fd s = .ok xSysEof (Function.update s fd (some [])) := by
  rw [xSysReadChar, Prog.bind_of_ok (xSysReadInput_run sizeofChar h)]
  rfl

/-! ## The calls up to the first end -/

theorem readChars_run (h : s fd = some l) (hn : l.length < passes) : readChars d fd passes s =
    .ok ((l.takeWhile (· ≠ eofChar)).map XChar.code)
      (Function.update s fd (some (l.dropWhile (· ≠ eofChar)).tail)) := by
  induction l generalizing s passes with
  | nil =>
    obtain ⟨passes, rfl⟩ := Nat.exists_eq_add_one.mpr hn
    rw [readChars, Prog.bind_of_ok (xSysReadChar_end h)]
    rfl
  | cons c l ih =>
    obtain ⟨passes, rfl⟩ := Nat.exists_eq_add_one.mpr (Nat.zero_lt_of_lt hn)
    rw [readChars, Prog.bind_of_ok (xSysReadChar_run h)]
    by_cases hc : c = eofChar
    · rw [if_pos (code_eq_eof.mpr hc)]
      simp [hc]
    · have hrest := ih (s := Function.update s fd (some l)) (by simp)
        (Nat.lt_of_succ_lt_succ hn)
      rw [if_neg (mt code_eq_eof.mp hc), Prog.bind_of_ok hrest]
      simp [hc]

/-- One result for each byte of `l`, in order, and nothing is left. -/
def Delivered (fd : Int) (l : List XChar) (rs : List Int) (s : Inputs) : Prop :=
  rs.map XChar.ofCode = l ∧ s fd = some []

/-- The calls up to the first `X_SYS_EOF` get every byte of the input, if and only if the byte
that is read as `X_SYS_EOF` is not one of them. -/
theorem chars_delivered_iff (d : XChar) (h : s fd = some l) (hn : l.length < passes) :
    ∃ rs s', readChars d fd passes s = .ok rs s' ∧
      (Delivered fd l rs s' ↔ ∀ c ∈ l, c ≠ 255) := by
  refine ⟨_, _, readChars_run h hn, ?_⟩
  have hback : XChar.ofCode ∘ XChar.code = id := funext ofCode_code
  have hall : (∀ c ∈ l, decide (c ≠ eofChar) = true) ↔ ∀ c ∈ l, c ≠ 255 := by
    simp only [decide_eq_true_eq]
    rfl
  rw [Delivered, List.map_map, hback, List.map_id, List.takeWhile_eq_self_iff, hall,
    Function.update_self]
  refine and_iff_left_of_imp fun hc => ?_
  rw [List.dropWhile_eq_nil_iff.mpr (hall.mpr hc), List.tail_nil]

/-- An `A`, the byte 255 and a `B`: the second call returns `X_SYS_EOF`, and the `B` is left. -/
theorem chars_delivered_fails : ∃ rs s',
    readChars 0 0 4 (fun _ => some [65, 255, 66]) = .ok rs s' ∧
      rs = [65] ∧ s' 0 = some [66] ∧ ¬ Delivered 0 [65, 255, 66] rs s' := by
  refine ⟨_, _, readChars_run (l := [65, 255, 66]) rfl (by decide), by decide, by decide, ?_⟩
  rintro ⟨h, -⟩
  exact absurd h (by decide)

theorem chars_delivered_two : ∃ rs s', readChars 0 0 3 (fun _ => some [65, 66]) = .ok rs s' ∧
    Delivered 0 [65, 66] rs s' := by
  let s : Inputs := fun _ => some [65, 66]
  have hs : s 0 = some [65, 66] := rfl
  obtain ⟨rs, s', hr, hiff⟩ := chars_delivered_iff 0 hs (Nat.lt_succ_self _)
  exact ⟨rs, s', hr, hiff.mpr (by decide)⟩

end XExpr
