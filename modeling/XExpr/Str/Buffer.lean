import Mathlib.Data.BitVec
import XExpr.Lib.Prog

/-!
# Strings in an array

The string functions of `x-lib.c` work on an array of characters by index. A read or a store
outside the array, and an operation on `x_int_t` whose result it does not hold, end the run: C does
not define them.

* `StrM`: a run over the array.
* `Text cs i s`: at the index `i` of the array the string `s` starts, up to its terminating NUL.
* `Text.readChar_cons`, `Text.readChar_nil`, `writeChar_run`: the accesses of a string and of a
  known place.
-/

namespace XExpr

/-! ## `x_int_t` -/

/-- The number of bits of `x_int_t`. -/
def xIntBits : Nat := 64

def xIntMin : Int := -2 ^ 63
def xIntMax : Int := 2 ^ 63 - 1

/-! ## Characters -/

/-- `x_char_t`. -/
abbrev XChar := BitVec 8

def nul : XChar := 0

/-- The value of a character in an expression: `char` is signed. -/
def XChar.code (c : XChar) : Int := c.toInt

/-- The character stored by the assignment of an `int`. -/
def XChar.ofCode (w : Int) : XChar := BitVec.ofInt 8 w

/-! The functions of `ctype.h` in the C locale. -/

def isspace (c : Int) : Bool := c = 32 ∨ 9 ≤ c ∧ c ≤ 13

def isdigit (c : Int) : Bool := 48 ≤ c ∧ c ≤ 57

def toupper (c : Int) : Int := if 97 ≤ c ∧ c ≤ 122 then c - 32 else c

/-! ## Runs over an array -/

/-- How a string function ends that does not return. -/
inductive StrStop
  | outOfBounds (i : Nat)
  | overflow (w : Int)
  | diverge
deriving DecidableEq

abbrev StrM := EStateM StrStop (List XChar)

def readChar (i : Nat) : StrM XChar := do
  match (← get)[i]? with
  | some c => return c
  | none => throw (.outOfBounds i)

def writeChar (i : Nat) (c : XChar) : StrM Unit := do
  let _ ← readChar i
  modify (·.set i c)

/-- The result of an operation on `x_int_t`. -/
def xInt (w : Int) : StrM Int :=
  if xIntMin ≤ w ∧ w ≤ xIntMax then return w else throw (.overflow w)

/-- One more than the length of the array, which no walk along a string can pass. -/
def strPasses : StrM Nat := do return (← get).length + 1

section Runs

variable {cs pre mid post s : List XChar} {i : Nat} {c d : XChar} {w : Int}

theorem readChar_run (h : cs[i]? = some c) : readChar i cs = .ok c cs := by
  simp only [readChar, Prog.get_bind, h]
  rfl

theorem writeChar_run (h : cs[i]? = some c) : writeChar i d cs = .ok () (cs.set i d) := by
  rw [writeChar, Prog.bind_of_ok (readChar_run h)]
  rfl

theorem xInt_run (h₁ : xIntMin ≤ w) (h₂ : w ≤ xIntMax) : xInt w cs = .ok w cs := by
  rw [xInt, if_pos ⟨h₁, h₂⟩]
  rfl

theorem xInt_overflow (h : w < xIntMin ∨ xIntMax < w) :
    xInt w cs = .error (.overflow w) cs := by
  rw [xInt, if_neg (by omega)]
  rfl

theorem strPasses_run : strPasses cs = .ok (cs.length + 1) cs := rfl

/-! ### A known place of the array -/

theorem readChar_at (hi : i = pre.length) :
    readChar i (pre ++ c :: post) = .ok c (pre ++ c :: post) :=
  readChar_run (by simp [hi])

theorem writeChar_at (hi : i = pre.length) :
    writeChar i d (pre ++ c :: post) = .ok () (pre ++ d :: post) := by
  rw [writeChar_run (c := c) (by simp [hi])]
  simp [hi]

/-! ### A string in the array -/

/-- The string `s` starts at `i` and ends before the first NUL. -/
def Text (cs : List XChar) (i : Nat) (s : List XChar) : Prop :=
  nul ∉ s ∧ ∃ pre post, cs = pre ++ s ++ nul :: post ∧ pre.length = i

theorem Text.notMem (h : Text cs i s) : nul ∉ s := h.1

theorem Text.length (h : Text cs i s) : i + s.length < cs.length := by
  obtain ⟨-, pre, post, rfl, rfl⟩ := h
  simp

/-- A walk along the string has passes enough. -/
theorem Text.lt_passes (h : Text cs i s) : s.length < cs.length + 1 := by
  have := h.length
  omega

theorem Text.tail (h : Text cs i (c :: s)) : Text cs (i + 1) s := by
  obtain ⟨hn, pre, post, rfl, rfl⟩ := h
  exact ⟨fun hm => hn (.tail _ hm), pre ++ [c], post, by simp, by simp⟩

theorem Text.readChar_cons (h : Text cs i (c :: s)) : readChar i cs = .ok c cs := by
  obtain ⟨-, pre, post, rfl, rfl⟩ := h
  exact readChar_run (by simp)

theorem Text.readChar_nil (h : Text cs i []) : readChar i cs = .ok nul cs := by
  obtain ⟨-, pre, post, rfl, rfl⟩ := h
  exact readChar_run (by simp)

end Runs

end XExpr
