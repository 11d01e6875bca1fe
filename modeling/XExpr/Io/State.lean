import Mathlib.Data.Nat.Digits.Defs
import XExpr.Lib.Bytes
import XExpr.Obj.Alloc
import XExpr.Str.Buffer

/-!
# Input and output

`x_base_read`, `x_base_write` and what they call. A string is an address in a memory of bytes
beside the objects. The system answers a read with an error or with the bytes it has stored, and a
write with the number of bytes it has taken; the answers are parameters.

* `Io`: the objects, the bytes, what each descriptor was given, and the reads that were asked for.
* `xLibMemcpy_run`: the copy loop on a source and a destination that do not overlap.
-/

namespace XExpr

open Sys

/-- The memory of a program that reads and writes. -/
structure Io where
  sys : Sys
  /-- The bytes outside the objects. -/
  bytes : Ptr → Option XChar
  /-- What was written, by file descriptor. -/
  files : Int → List XChar
  /-- The file descriptors and sizes that reads were asked for, newest first. -/
  asked : List (Int × Nat)

abbrev IoM := EStateM Stop Io

/-- A run over the objects. -/
def onSys {α : Type} (m : M α) : IoM α := fun s =>
  match m s.sys with
  | .ok a s' => .ok a { s with sys := s' }
  | .error e s' => .error e { s with sys := s' }

/-- The conversion to `int`. -/
def toCInt (w : Word) : Int := (BitVec.ofInt 32 w).toInt

/-! ## Bytes -/

def readByte (a : Ptr) : IoM XChar := do
  match (← get).bytes a with
  | some c => return c
  | none => throw (.fault (.dangling a))

def writeByte (a : Ptr) (c : XChar) : IoM Unit := do
  let _ ← readByte a
  modify fun s => { s with bytes := Bytes.store s.bytes a [c] }

/-- `x_lib_memcpy`. -/
def xLibMemcpy (dest src : Ptr) : Nat → IoM Unit
  | 0 => return
  | size + 1 => do
    writeByte dest (← readByte src)
    xLibMemcpy (dest + 1) (src + 1) size

/-- The bytes from `a` on. -/
def readBytes (a : Ptr) : Nat → IoM (List XChar)
  | 0 => return []
  | n + 1 => do
    let c ← readByte a
    return c :: (← readBytes (a + 1) n)

/-- The byte `j` of a unit, the least significant first. -/
def unitByte (w : Word) (j : Nat) : XChar := BitVec.ofInt 8 (w / 2 ^ (8 * j))

/-- A unit with its first bytes overwritten. -/
def overwrite (w : Word) (l : List XChar) : Word :=
  (BitVec.ofNat 64 (Nat.ofDigits (2 ^ 8)
    ((List.range 8).map fun j => (l[j]?.getD (unitByte w j)).toNat))).toInt

/-- The units from the first one on, with the bytes at their start overwritten. -/
def overwriteUnits : List Word → List XChar → List Word
  | w :: data, c :: l => overwrite w ((c :: l).take sizeofObj) ::
      overwriteUnits data ((c :: l).drop sizeofObj)
  | data, _ => data

/-- Bytes stored into the object `p`, from its first unit on. -/
def storeBytes (p : Ptr) (l : List XChar) : M Unit := do
  let o ← deref p
  if o.data.length * sizeofObj < l.length then
    fault (.outOfBounds p o.data.length)
  else
    modify (·.modify p fun o => { o with data := overwriteUnits o.data l })

/-! ## System calls -/

/-- The answer to a read: an error, or the bytes that were stored. -/
inductive ReadAnswer
  | error
  | bytes (l : List XChar)
deriving DecidableEq

/-- What `read` returns. -/
def ReadAnswer.result : ReadAnswer → Int
  | error => -1
  | bytes l => l.length

/-- `x_sys_read` into the units of the object `p`. -/
def xSysRead (fd : Int) (p : Ptr) (size : Nat) (answer : ReadAnswer) : IoM Int := do
  modify fun s => { s with asked := (fd, size) :: s.asked }
  match answer with
  | .error => return -1
  | .bytes l =>
    onSys (storeBytes p l)
    return l.length

/-- `x_sys_write`. The system takes the first `taken size` bytes; a negative number is an
error. -/
def xSysWrite (taken : Nat → Int) (fd : Int) (src : Ptr) (size : Nat) : IoM Int := do
  let l ← readBytes src (taken size).toNat
  modify fun s => { s with files := Function.update s.files fd (s.files fd ++ l) }
  return taken size

/-! ## `x_base_read` and `x_base_write` -/

def stdinFileno : Int := 0
def stdoutFileno : Int := 1

/-- The descriptor in a field, or the standard one without a set base. -/
def baseFd (f : Field) (std : Int) (b : Ptr) : M Int := do
  if ← xBaseIsset b then return toCInt (← f.int b) else return std

def xBaseRead (b args : Ptr) (answer : ReadAnswer) : IoM Ptr := do
  let fd ← onSys (baseFd .filein stdinFileno b)
  let atom ← onSys (xFirst args)
  let size ← onSys (do xFirst (← xFirst (← xRest args)))
  let result ← xSysRead fd atom (toSizeT size) answer
  if result = size then
    return atom
  onSys (do setXFirst (← xFirst (← xRest args)) result)
  return nil

/-- The write buffer, if the base is set and has one. -/
def baseWriteBuf (b : Ptr) : M Ptr := do
  if ← xBaseIsset b then Field.writeBuf.obj b else return nil

def xBaseWrite (taken : Nat → Int) (b args : Ptr) : IoM Ptr := do
  let atom ← onSys (xFirst args)
  let size ← onSys (do xFirst (← xFirst (← xRest args)))
  let buf ← onSys (baseWriteBuf b)
  if buf ≠ nil then
    let dst ← onSys (xFirst buf)
    let pos ← onSys (do xFirst (← xRest buf))
    xLibMemcpy (dst + pos) (← onSys (xFirst atom)) (toSizeT size)
    onSys (do setXFirst (← xRest buf) (pos + size))
    return atom
  let fd ← onSys (baseFd .fileout stdoutFileno b)
  if (← xSysWrite taken fd (← onSys (xFirst atom)) (toSizeT size)) = size then
    return atom
  return nil

/-! ## Runs -/

section Runs

variable {α : Type} {m : M α} {s : Io} {a dest src : Ptr} {c : XChar} {l : List XChar}

theorem onSys_ok {v : α} {s' : Sys} (h : m s.sys = .ok v s') :
    onSys m s = .ok v { s with sys := s' } := by
  simp only [onSys, h]

theorem onSys_inv {v : α} {s' : Io} (h : onSys m s = .ok v s') :
    m s.sys = .ok v s'.sys ∧ s' = { s with sys := s'.sys } := by
  unfold onSys at h
  cases hm : m s.sys with
  | ok v' s₁ =>
    rw [hm] at h
    cases h
    exact ⟨rfl, rfl⟩
  | error e s₁ =>
    rw [hm] at h
    cases h

/-- A run over the objects that only reads. -/
theorem onSys_read {v : α} (h : m s.sys = .ok v s.sys) : onSys m s = .ok v s := onSys_ok h

theorem readByte_run (h : s.bytes a = some c) : readByte a s = .ok c s := by
  simp only [readByte, Prog.get_bind, h]
  rfl

theorem writeByte_run {d : XChar} (h : s.bytes a = some d) :
    writeByte a c s = .ok () { s with bytes := Bytes.store s.bytes a [c] } := by
  rw [writeByte, Prog.bind_of_ok (readByte_run h)]
  rfl

/-- The copy loop, on a source that the destination does not overlap. -/
theorem xLibMemcpy_run (hs : Bytes.At s.bytes src l)
    (hd : ∀ x, Bytes.In dest l.length x → ∃ d, s.bytes x = some d)
    (ho : ∀ x, Bytes.In src l.length x → ¬ Bytes.In dest l.length x) :
    xLibMemcpy dest src l.length s =
      .ok () { s with bytes := Bytes.store s.bytes dest l } := by
  induction l generalizing s dest src with
  | nil => rw [Bytes.store_nil]; rfl
  | cons c l ih =>
    have hl : (c :: l).length = l.length + 1 := rfl
    obtain ⟨hc, hs⟩ := Bytes.at_cons.mp hs
    obtain ⟨d, hd₀⟩ := hd dest ⟨le_refl _, by omega⟩
    have hsub : ∀ {y x : Int}, Bytes.In (y + 1) l.length x → Bytes.In y (c :: l).length x := by
      rintro y x ⟨h₁, h₂⟩
      exact ⟨by omega, by omega⟩
    have hhead : ∀ {x : Int}, Bytes.In dest [c].length x → Bytes.In dest (c :: l).length x := by
      rintro x ⟨h₁, h₂⟩
      exact ⟨h₁, by simp at h₂ ⊢; omega⟩
    rw [List.length_cons, xLibMemcpy, Prog.bind_of_ok (readByte_run hc),
      Prog.bind_of_ok (writeByte_run hd₀), ih, Bytes.store_cons]
    · exact hs.store fun x hx hx' => ho x (hsub hx) (hhead hx')
    · intro x hx
      have hn : ¬ Bytes.In dest [c].length x := by
        obtain ⟨h, -⟩ := hx
        rintro ⟨-, h'⟩
        simp only [List.length_singleton] at h'
        omega
      exact (hd x (hsub hx)).imp fun _ e => (Bytes.store_out hn).trans e
    · exact fun x hx hx' => ho x (hsub hx) (hsub hx')

theorem readBytes_run (h : Bytes.At s.bytes a l) : readBytes a l.length s = .ok l s := by
  induction l generalizing a with
  | nil => rfl
  | cons c l ih =>
    obtain ⟨hc, hl⟩ := Bytes.at_cons.mp h
    rw [List.length_cons, readBytes, Prog.bind_of_ok (readByte_run hc), Prog.bind_of_ok (ih hl)]
    rfl

/-- A complete write. -/
theorem xSysWrite_run {taken : Nat → Int} {fd : Int} (ht : ∀ n : Nat, taken n = n)
    (h : Bytes.At s.bytes a l) : xSysWrite taken fd a l.length s =
      .ok l.length { s with files := Function.update s.files fd (s.files fd ++ l) } := by
  unfold xSysWrite
  rw [ht, Int.toNat_natCast, Prog.bind_of_ok (readBytes_run h)]
  rfl

end Runs

end XExpr
