import Mathlib.Data.List.TakeWhile
import XExpr.Io.State
import XExpr.Obj.AllocLemmas

/-!
# The functions of `string.h`

The freestanding `x_lib_strchr`, `x_lib_strcmp`, `x_lib_strlen`, `x_lib_strncmp` and
`x_lib_strndup`. They get addresses in the memory of bytes, and a read where nothing is mapped is a
fault. What is said of them asks for the bytes up to the first NUL, or up to the position `n`, and
for nothing behind them.

* `StrAt`, `StrNAt`: a string in memory, and the part of one before the position `n`.
* `xLibStrchr_run`, `xLibStrcmp_run`, `xLibStrlen_run`, `xLibStrncmp_run`, `xLibStrndup_run`: one
  call.
* `string_functions`: the five functions do what ISO C says.
-/

namespace XExpr

open Sys

/-! ## The functions -/

/-- The loop of `x_lib_strchr`. -/
def strchrLoop (c : XChar) : Nat → Ptr → IoM Ptr
  | 0, _ => throw .diverge
  | passes + 1, ps => do
    let d ← readByte ps
    if d ≠ nul ∧ d ≠ c then strchrLoop c passes (ps + 1) else return ps

def xLibStrchr (passes : Nat) (str : Ptr) (c : Int) : IoM Ptr := do
  let conv := XChar.ofCode c
  let ps ← strchrLoop conv passes str
  if (← readByte ps) = conv then return ps else return nil

/-- `*ps1 && *ps2 && *ps2 == *ps1`. -/
def sameByte (ps1 ps2 : Ptr) : IoM Bool := do
  let c ← readByte ps1
  if c = nul then
    return false
  let d ← readByte ps2
  return d ≠ nul ∧ d = c

/-- `*ps1 - *ps2`, as `unsigned char`. -/
def byteDiff (ps1 ps2 : Ptr) : IoM Int := do
  return ((← readByte ps1).toNat : Int) - (← readByte ps2).toNat

/-- The loop of `x_lib_strcmp`. -/
def strcmpLoop : Nat → Ptr → Ptr → IoM (Ptr × Ptr)
  | 0, _, _ => throw .diverge
  | passes + 1, ps1, ps2 => do
    if ← sameByte ps1 ps2 then strcmpLoop passes (ps1 + 1) (ps2 + 1) else return (ps1, ps2)

def xLibStrcmp (passes : Nat) (str1 str2 : Ptr) : IoM Int := do
  let (ps1, ps2) ← strcmpLoop passes str1 str2
  byteDiff ps1 ps2

/-- The loop of `x_lib_strlen`. -/
def strlenLoop : Nat → Ptr → Nat → IoM Nat
  | 0, _, _ => throw .diverge
  | passes + 1, str, size => do
    if (← readByte str) ≠ nul then
      strlenLoop passes (str + 1) ((size + 1) % 2 ^ 64)
    else return size

def xLibStrlen (passes : Nat) (str : Ptr) : IoM Nat := strlenLoop passes str 0

/-- The loop of `x_lib_strncmp`, before the `--n` of a pass. -/
def strncmpLoop : Nat → Ptr → Ptr → IoM (Ptr × Ptr)
  -- `n` would wrap around; the loop is not entered with 0 and ends before the next pass.
  | 0, _, _ => throw .diverge
  | n + 1, ps1, ps2 => do
    if n = 0 then
      return (ps1, ps2)
    if ← sameByte ps1 ps2 then strncmpLoop n (ps1 + 1) (ps2 + 1) else return (ps1, ps2)

def xLibStrncmp (str1 str2 : Ptr) (n : Nat) : IoM Int := do
  if n = 0 then
    return 0
  let (ps1, ps2) ← strncmpLoop n str1 str2
  byteDiff ps1 ps2

/-- `x_sys_malloc` of `size` bytes; `fill` is what is in them. -/
def xSysMallocBytes (env : Env) (fill : Ptr → XChar) (size : Nat) : IoM Ptr := do
  let a ← onSys (xSysMalloc env size)
  if a = nil then
    return nil
  modify fun s =>
    { s with bytes := Bytes.store s.bytes a ((List.range size).map fun i : Nat => fill (a + i)) }
  return a

/-- The loop of `x_lib_strndup`; `rest` is `size - len`. -/
def strndupLoop (str : Ptr) : Nat → Nat → IoM Nat
  | 0, len => return len
  | rest + 1, len => do
    if (← readByte (str + len)) ≠ nul then strndupLoop str rest (len + 1) else return len

def xLibStrndup (env : Env) (fill : Ptr → XChar) (str : Ptr) (size : Nat) : IoM Ptr := do
  let len ← strndupLoop str size 0
  let clone ← xSysMallocBytes env fill ((len + 1) % 2 ^ 64)
  if clone = nil then
    return nil
  xLibMemcpy clone str len
  writeByte (clone + len) nul
  return clone

/-! ## Strings in memory -/

/-- No byte is at `NULL`, and no array reaches the last address. -/
def Addressable (m : Ptr → Option XChar) : Prop := ∀ x c, m x = some c → 0 < x ∧ x < 2 ^ 64 - 1

/-- The string `l` is at `p`, with its NUL. -/
def StrAt (m : Ptr → Option XChar) (p : Ptr) (l : List XChar) : Prop :=
  nul ∉ l ∧ Bytes.At m p (l ++ [nul])

/-- What is at `p` is the string `l`, as far as its bytes before the position `n` tell. -/
def StrNAt (m : Ptr → Option XChar) (p : Ptr) (l : List XChar) (n : Nat) : Prop :=
  nul ∉ l ∧ Bytes.At m p ((l ++ [nul]).take n)

/-- The lexicographic order of the bytes as `unsigned char`. -/
def compareBytes : List XChar → List XChar → Ordering := List.compareLex (compareOn BitVec.toNat)

variable {env : Env} {fill : Ptr → XChar} {s s' : Io} {m : Ptr → Option XChar} {p q : Ptr}
  {l l' r : List XChar} {c d : XChar} {n passes : Nat}

theorem StrAt.strNAt (h : StrAt m p l) (n : Nat) : StrNAt m p l n :=
  ⟨h.1, h.2.initial (List.take_prefix ..)⟩

/-- Bytes with a NUL among them, or `n` bytes. -/
theorem strNAt_of_bytes (h : Bytes.At m p r) (hr : nul ∈ r ∨ n ≤ r.length) :
    StrNAt m p (r.takeWhile (· ≠ nul)) n := by
  refine ⟨fun hm => ?_, h.initial ?_⟩
  · simpa using List.mem_takeWhile_imp hm
  · by_cases hn : nul ∈ r
    · obtain ⟨l, l', rfl, hl⟩ := List.eq_append_cons_of_mem hn
      rw [List.takeWhile_append_of_pos fun c hc => by
          simpa using fun e : c = nul => hl (e ▸ hc), List.takeWhile_cons_of_neg (by simp),
        List.append_nil]
      exact (List.take_prefix ..).trans ⟨l', by simp⟩
    · rw [List.takeWhile_eq_self_iff.mpr fun c hc => by simpa using fun e : c = nul => hn (e ▸ hc),
        List.take_append_of_le_length (hr.resolve_left hn)]
      exact List.take_prefix ..

theorem StrNAt.head (h : StrNAt m p l (n + 1)) : m p = some (l.headD nul) := by
  cases l with
  | nil => exact (Bytes.at_cons.mp h.2).1
  | cons c l => exact (Bytes.at_cons.mp h.2).1

theorem StrNAt.tail (h : StrNAt m p (c :: l) (n + 1)) : StrNAt m (p + 1) l n :=
  ⟨fun hm => h.1 (.tail _ hm), (Bytes.at_cons.mp h.2).2⟩

theorem StrAt.head (h : StrAt m p l) : m p = some (l.headD nul) := (h.strNAt 1).head

theorem StrAt.tail (h : StrAt m p (c :: l)) : StrAt m (p + 1) l :=
  ⟨fun hm => h.1 (.tail _ hm), (Bytes.at_cons.mp h.2).2⟩

/-! ## Comparing -/

theorem compareBytes_cons : compareBytes (c :: l) (d :: l') =
    (compare c.toNat d.toNat).then (compareBytes l l') := List.compareLex_cons_cons

theorem compareBytes_self (l : List XChar) : compareBytes l l = .eq := by
  induction l with
  | nil => rfl
  | cons c l ih => rw [compareBytes_cons, ih, compare_eq_iff_eq.mpr rfl]; rfl

/-- The sign of a difference. -/
theorem compare_sub (a b : Nat) : compare ((a : Int) - b) 0 = compare a b := by
  rcases Nat.lt_trichotomy a b with h | h | h
  · rw [compare_lt_iff_lt.mpr h, compare_lt_iff_lt]
    omega
  · rw [compare_eq_iff_eq.mpr h, compare_eq_iff_eq]
    omega
  · rw [compare_gt_iff_gt.mpr h, compare_gt_iff_gt]
    omega

theorem toNat_pos (h : c ≠ nul) : 0 < c.toNat := by
  by_contra h₀
  exact h (BitVec.eq_of_toNat_eq (Nat.eq_zero_of_not_pos h₀))

/-- Where the loops stop, the first bytes decide: at the last byte, or at two that are not the
same character. -/
theorem compare_stop (hl : nul ∉ l) (hl' : nul ∉ l')
    (h : n = 0 ∨ ¬ (l.headD nul ≠ nul ∧ l'.headD nul ≠ nul ∧ l'.headD nul = l.headD nul)) :
    compare (l.headD nul).toNat (l'.headD nul).toNat =
      compareBytes (l.take (n + 1)) (l'.take (n + 1)) := by
  rcases l with _ | ⟨c, l⟩ <;> rcases l' with _ | ⟨d, l'⟩
  · rfl
  · exact compare_lt_iff_lt.mpr (toNat_pos fun e => hl' (e ▸ .head _))
  · exact compare_gt_iff_gt.mpr (toNat_pos fun e => hl (e ▸ .head _))
  · rw [List.take_succ_cons, List.take_succ_cons, compareBytes_cons]
    change compare c.toNat d.toNat = _
    cases ho : compare c.toNat d.toNat with
    | lt => rfl
    | gt => rfl
    | eq =>
      have hcd : d = c := (BitVec.eq_of_toNat_eq (compare_eq_iff_eq.mp ho)).symm
      rcases h with rfl | h
      · rfl
      · exact absurd ⟨fun e => hl (e ▸ .head _), fun e => hl' (e ▸ .head _), hcd⟩ h

/-- The same character is not the NUL of either string. -/
theorem cons_of_same (h : l.headD nul ≠ nul ∧ l'.headD nul ≠ nul ∧ l'.headD nul = l.headD nul) :
    ∃ c r r', l = c :: r ∧ l' = c :: r' := by
  obtain ⟨h₁, h₂, h₃⟩ := h
  rcases l with _ | ⟨c, r⟩
  · exact absurd rfl h₁
  · rcases l' with _ | ⟨d, r'⟩
    · exact absurd rfl h₂
    · obtain rfl : d = c := h₃
      exact ⟨d, r, r', rfl, rfl⟩

theorem sameByte_run (hc : s.bytes p = some c) (hd : s.bytes q = some d) :
    sameByte p q s = .ok (decide (c ≠ nul ∧ d ≠ nul ∧ d = c)) s := by
  rw [sameByte, Prog.bind_of_ok (readByte_run hc)]
  by_cases h : c = nul
  · rw [if_pos h, decide_eq_false fun e => e.1 h]
    rfl
  · rw [if_neg h, Prog.bind_of_ok (readByte_run hd)]
    simp [h]

theorem byteDiff_run (hc : s.bytes p = some c) (hd : s.bytes q = some d) :
    byteDiff p q s = .ok ((c.toNat : Int) - d.toNat) s := by
  rw [byteDiff, Prog.bind_of_ok (readByte_run hc), Prog.bind_of_ok (readByte_run hd)]
  rfl

/-- The loop of `x_lib_strcmp` ends at two bytes whose difference tells the order. -/
theorem strcmpLoop_run (h : StrAt s.bytes p l) (h' : StrAt s.bytes q l') (hn : l.length < passes) :
    ∃ p' q' c d, strcmpLoop passes p q s = .ok (p', q') s ∧ s.bytes p' = some c ∧
      s.bytes q' = some d ∧ compare c.toNat d.toNat = compareBytes l l' := by
  induction passes generalizing p q l l' with
  | zero => exact absurd hn (Nat.not_lt_zero _)
  | succ passes ih =>
    rw [strcmpLoop, Prog.bind_of_ok (sameByte_run h.head h'.head)]
    by_cases hs : l.headD nul ≠ nul ∧ l'.headD nul ≠ nul ∧ l'.headD nul = l.headD nul
    · obtain ⟨c, r, r', rfl, rfl⟩ := cons_of_same hs
      rw [decide_eq_true hs, if_pos rfl, compareBytes_cons, compare_eq_iff_eq.mpr rfl]
      exact ih h.tail h'.tail (Nat.lt_of_succ_lt_succ hn)
    · rw [decide_eq_false hs, if_neg Bool.false_ne_true]
      have hstop := compare_stop (n := max l.length l'.length) h.1 h'.1 (.inr hs)
      rw [List.take_of_length_le (by omega), List.take_of_length_le (by omega)] at hstop
      exact ⟨p, q, _, _, rfl, h.head, h'.head, hstop⟩

theorem xLibStrcmp_run (h : StrAt s.bytes p l) (h' : StrAt s.bytes q l')
    (hn : l.length < passes) :
    ∃ d, xLibStrcmp passes p q s = .ok d s ∧ compare d 0 = compareBytes l l' := by
  obtain ⟨p', q', c, d, hrun, hc, hd, hcmp⟩ := strcmpLoop_run h h' hn
  refine ⟨_, ?_, (compare_sub c.toNat d.toNat).trans hcmp⟩
  rw [xLibStrcmp, Prog.bind_of_ok hrun]
  exact byteDiff_run hc hd

theorem strncmpLoop_run (h : StrNAt s.bytes p l (n + 1)) (h' : StrNAt s.bytes q l' (n + 1)) :
    ∃ p' q' c d, strncmpLoop (n + 1) p q s = .ok (p', q') s ∧ s.bytes p' = some c ∧
      s.bytes q' = some d ∧
        compare c.toNat d.toNat = compareBytes (l.take (n + 1)) (l'.take (n + 1)) := by
  induction n generalizing p q l l' with
  | zero => exact ⟨p, q, _, _, rfl, h.head, h'.head, compare_stop h.1 h'.1 (.inl rfl)⟩
  | succ n ih =>
    rw [strncmpLoop, if_neg (Nat.succ_ne_zero n), Prog.bind_of_ok (sameByte_run h.head h'.head)]
    by_cases hs : l.headD nul ≠ nul ∧ l'.headD nul ≠ nul ∧ l'.headD nul = l.headD nul
    · obtain ⟨c, r, r', rfl, rfl⟩ := cons_of_same hs
      rw [decide_eq_true hs, if_pos rfl, List.take_succ_cons, List.take_succ_cons,
        compareBytes_cons, compare_eq_iff_eq.mpr rfl]
      exact ih h.tail h'.tail
    · rw [decide_eq_false hs, if_neg Bool.false_ne_true]
      exact ⟨p, q, _, _, rfl, h.head, h'.head, compare_stop h.1 h'.1 (.inr hs)⟩

theorem xLibStrncmp_run (h : StrNAt s.bytes p l n) (h' : StrNAt s.bytes q l' n) :
    ∃ d, xLibStrncmp p q n s = .ok d s ∧
      compare d 0 = compareBytes (l.take n) (l'.take n) := by
  cases n with
  | zero => exact ⟨0, rfl, rfl⟩
  | succ n =>
    obtain ⟨p', q', c, d, hrun, hc, hd, hcmp⟩ := strncmpLoop_run h h'
    refine ⟨_, ?_, (compare_sub c.toNat d.toNat).trans hcmp⟩
    rw [xLibStrncmp, if_neg (Nat.succ_ne_zero n), Prog.bind_of_ok hrun]
    exact byteDiff_run hc hd

/-- Past the end of one of the strings a cut changes nothing. -/
theorem compareBytes_take (h : l.length < n ∨ l'.length < n) :
    compareBytes (l.take n) (l'.take n) = compareBytes l l' := by
  induction n generalizing l l' with
  | zero => omega
  | succ n ih =>
    rcases l with _ | ⟨c, l⟩ <;> rcases l' with _ | ⟨d, l'⟩
    · rfl
    · rfl
    · rfl
    · rw [List.take_succ_cons, List.take_succ_cons, compareBytes_cons, compareBytes_cons, ih]
      simpa using h

/-! ## `x_lib_strlen` and `x_lib_strchr` -/

theorem strlenLoop_run {k : Nat} (h : StrAt s.bytes p l) (hn : l.length < passes)
    (hk : k + l.length < 2 ^ 64) : strlenLoop passes p k s = .ok (k + l.length) s := by
  induction passes generalizing p l k with
  | zero => exact absurd hn (Nat.not_lt_zero _)
  | succ passes ih =>
    rw [strlenLoop, Prog.bind_of_ok (readByte_run h.head)]
    rcases l with _ | ⟨c, l⟩
    · rfl
    · rw [List.length_cons] at hn hk ⊢
      rw [if_pos (show (c :: l).headD nul ≠ nul from fun e => h.1 (e ▸ .head _)),
        Nat.mod_eq_of_lt (by omega), ih h.tail (by omega) (by omega)]
      congr 1
      omega

/-- There are not more bytes than addresses. -/
theorem Addressable.length_lt {m : Int → Option XChar} {p : Int} (hm : Addressable m)
    (h : Bytes.At m p l) : l.length + 1 < 2 ^ 64 := by
  by_contra hl
  have h₀ := h 0 (by omega)
  have h₁ := h (l.length - 1) (by omega)
  rw [List.getElem?_eq_getElem (by omega)] at h₀ h₁
  have h₂ : 0 < p + ((0 : Nat) : Int) := (hm _ _ h₀).1
  have h₃ : p + ((l.length - 1 : Nat) : Int) < 2 ^ 64 - 1 := (hm _ _ h₁).2
  omega

theorem xLibStrlen_run (hm : Addressable s.bytes) (h : StrAt s.bytes p l)
    (hn : l.length < passes) : xLibStrlen passes p s = .ok l.length s := by
  have hl := hm.length_lt h.2
  rw [List.length_append] at hl
  rw [xLibStrlen, strlenLoop_run h hn (by omega), Nat.zero_add]

/-- `q` is where the first byte of the string at `p` is that equals `c` modulo 256. It is `NULL` if
there is none. -/
def FirstAt (p : Ptr) (l : List XChar) (c : Int) (q : Ptr) : Prop :=
  (∃ i x, (l ++ [nul])[i]? = some x ∧ (x.toNat : Int) = c % 256 ∧
    (∀ y ∈ l.take i, (y.toNat : Int) ≠ c % 256) ∧ q = p + i ∧ q ≠ nil) ∨
  q = nil ∧ ∀ x ∈ l ++ [nul], (x.toNat : Int) ≠ c % 256

theorem ofCode_eq_iff {w : Int} : d = XChar.ofCode w ↔ (d.toNat : Int) = w % 256 := by
  rw [← BitVec.toNat_inj, XChar.ofCode, BitVec.toNat_ofInt]
  omega

/-- The loop ends at the first byte that is the NUL or the character. -/
theorem strchrLoop_run (h : StrAt s.bytes p l) (hn : l.length < passes) :
    ∃ i x, strchrLoop c passes p s = .ok (p + (i : Nat)) s ∧ (l ++ [nul])[i]? = some x ∧
      (x = nul ∨ x = c) ∧ ∀ y ∈ l.take i, y ≠ c := by
  induction passes generalizing p l with
  | zero => exact absurd hn (Nat.not_lt_zero _)
  | succ passes ih =>
    rw [strchrLoop, Prog.bind_of_ok (readByte_run h.head)]
    by_cases hs : l.headD nul ≠ nul ∧ l.headD nul ≠ c
    · rcases l with _ | ⟨d, l⟩
      · exact absurd rfl hs.1
      · obtain ⟨i, x, hrun, hx, hstop, hy⟩ := ih h.tail (Nat.lt_of_succ_lt_succ hn)
        have hp : p + 1 + (i : Int) = p + ((i + 1 : Nat) : Int) := by
          rw [Int.natCast_succ, Int.add_assoc, Int.add_comm 1]
        refine ⟨i + 1, x, ?_, hx, hstop, ?_⟩
        · rw [if_pos hs, hrun, hp]
        · rw [List.take_succ_cons]
          exact List.forall_mem_cons.mpr ⟨hs.2, hy⟩
    · refine ⟨0, l.headD nul, ?_, ?_, ?_, by simp⟩
      · rw [if_neg hs]
        exact congrArg (EStateM.Result.ok · s) (Int.add_zero p).symm
      · cases l <;> rfl
      · by_cases h₁ : l.headD nul = nul
        · exact .inl h₁
        · exact .inr (not_not.mp fun h₂ => hs ⟨h₁, h₂⟩)

theorem xLibStrchr_run (hm : Addressable s.bytes) (h : StrAt s.bytes p l)
    (hn : l.length < passes) (c : Int) :
    ∃ q, xLibStrchr passes p c s = .ok q s ∧ FirstAt p l c q := by
  obtain ⟨i, x, hrun, hx, hstop, hy⟩ := strchrLoop_run (c := .ofCode c) h hn
  have hi : i < (l ++ [nul]).length := (List.getElem?_eq_some_iff.mp hx).1
  have hread : s.bytes (p + (i : Nat)) = some x := by rw [h.2 i hi, hx]
  have hrun' : ∀ r, (if x = XChar.ofCode c then return p + (i : Nat) else return nil : IoM Ptr) s =
      r → xLibStrchr passes p c s = r := by
    rintro r rfl
    rw [xLibStrchr, Prog.bind_of_ok hrun, Prog.bind_of_ok (readByte_run hread)]
  by_cases hc : x = XChar.ofCode c
  · refine ⟨p + (i : Nat), hrun' _ (by rw [if_pos hc]; rfl), .inl ⟨i, x, hx, ofCode_eq_iff.mp hc,
      fun y hy' => mt ofCode_eq_iff.mpr (hy y hy'), rfl, ?_⟩⟩
    exact (hm _ _ hread).1.ne'
  · refine ⟨nil, hrun' _ (by rw [if_neg hc]; rfl), .inr ⟨rfl, fun y hy' => ?_⟩⟩
    -- the loop has stopped at the NUL, which is not the character
    obtain rfl : x = nul := hstop.resolve_right hc
    have hil : i = l.length := by
      by_contra hne
      have hi' : i < l.length := by
        rw [List.length_append, List.length_singleton] at hi
        omega
      rw [List.getElem?_append_left hi'] at hx
      exact h.1 (List.mem_of_getElem? hx)
    refine mt ofCode_eq_iff.mpr ?_
    rcases List.mem_append.mp hy' with hy' | hy'
    · exact hy y (by rwa [hil, List.take_length])
    · rwa [List.mem_singleton.mp hy']

/-! ## `x_lib_strndup` -/

theorem StrNAt.take (h : StrNAt m p l n) : Bytes.At m p (l.take n) := by
  refine h.2.initial ?_
  rw [List.take_append]
  exact List.prefix_append ..

theorem strndupLoop_run {k : Nat} (h : StrNAt s.bytes (p + (k : Nat)) l n) :
    strndupLoop p n k s = .ok (k + (l.take n).length) s := by
  induction n generalizing k l with
  | zero => rfl
  | succ n ih =>
    rw [strndupLoop, Prog.bind_of_ok (readByte_run h.head)]
    rcases l with _ | ⟨c, l⟩
    · rfl
    · have hp : p + (k : Int) + 1 = p + ((k + 1 : Nat) : Int) := by
        rw [Int.natCast_succ, Int.add_assoc]
      rw [if_pos (show (c :: l).headD nul ≠ nul from fun e => h.1 (e ▸ .head _)),
        ih (hp ▸ h.tail), List.take_succ_cons, List.length_cons]
      congr 1
      omega

theorem xSysMallocBytes_run (fill : Ptr → XChar) {a : Ptr} {size : Nat}
    (ha : a = env.malloc.address s.sys size)
    (hg : env.malloc.grants s.sys.requests = true) :
    ∃ s', xSysMallocBytes env fill size s = .ok a s' ∧
      s'.bytes = Bytes.store s.bytes a ((List.range size).map fun i : Nat => fill (a + i)) := by
  have hpos : a ≠ nil := by
    rw [ha]
    exact (env.malloc.fresh s.sys size).1.ne'
  have hrun : xSysMalloc env size s.sys = .ok a (s.sys.request.setBlock a nil) := by
    rw [xSysMalloc_eq, if_pos hg, ha]
  rw [xSysMallocBytes, Prog.bind_of_ok (onSys_ok hrun), if_neg hpos]
  exact ⟨_, rfl, rfl⟩

theorem xSysMallocBytes_refused (fill : Ptr → XChar) (size : Nat)
    (hg : env.malloc.grants s.sys.requests = false) :
    ∃ s', xSysMallocBytes env fill size s = .ok nil s' ∧ s'.bytes = s.bytes := by
  have hrun : xSysMalloc env size s.sys = .ok nil s.sys.request := by
    rw [xSysMalloc_eq, hg]
    rfl
  rw [xSysMallocBytes, Prog.bind_of_ok (onSys_ok hrun), if_pos rfl]
  exact ⟨_, rfl, rfl⟩

/-- What `x_lib_strndup` leaves: a copy of the first `n` characters of the string at `p`, in new
memory at `a`. -/
structure Copied (s : Io) (p : Ptr) (l : List XChar) (n : Nat) (a : Ptr) (s' : Io) : Prop where
  ne_nil : a ≠ nil
  copy : StrAt s'.bytes a (l.take n)
  fresh : ∀ x, Bytes.In a (min n l.length + 1) x → s.bytes x = none
  frame : ∀ x, ¬ Bytes.In a (min n l.length + 1) x → s'.bytes x = s.bytes x
  same : xLibStrncmp a p n s' = .ok 0 s'

theorem xLibStrndup_run (hm : Addressable s.bytes) (h : StrNAt s.bytes p l n)
    (hg : env.malloc.grants s.sys.requests = true)
    (hfresh : ∀ x, Bytes.In (env.malloc.address s.sys (min n l.length + 1))
      (min n l.length + 1) x → s.bytes x = none) :
    ∃ a s', xLibStrndup env fill p n s = .ok a s' ∧ Copied s p l n a s' := by
  obtain ⟨k, hk⟩ : ∃ k, k = min n l.length := ⟨_, rfl⟩
  have hlen : (l.take n).length = k := hk ▸ List.length_take ..
  rw [← hk] at hfresh
  obtain ⟨a, ha⟩ : ∃ a, a = env.malloc.address s.sys (k + 1) := ⟨_, rfl⟩
  rw [← ha] at hfresh
  have hpos : a ≠ nil := by
    rw [ha]
    exact (env.malloc.fresh s.sys _).1.ne'
  have hloop : strndupLoop p n 0 s = .ok k s := by
    rw [strndupLoop_run (k := 0) (by rwa [Int.natCast_zero, Int.add_zero]), hlen, Nat.zero_add]
  obtain ⟨s₁, hmalloc, hs₁⟩ := xSysMallocBytes_run fill ha hg
  obtain ⟨fs, hfs⟩ : ∃ fs, fs = (List.range (k + 1)).map fun i : Nat => fill (a + i) := ⟨_, rfl⟩
  have hfl : fs.length = k + 1 := by simp [hfs]
  rw [← hfs] at hs₁
  -- what was mapped before is not in the new block
  have hold : ∀ {r : List XChar}, Bytes.At s.bytes p r → ∀ x, Bytes.In p r.length x →
      ¬ Bytes.In a (k + 1) x := fun hr x hx hx' => by
    obtain ⟨i, hi, rfl⟩ := Bytes.in_iff.mp hx
    have hr := hr i hi
    rw [hfresh _ hx', List.getElem?_eq_getElem hi] at hr
    cases hr
  have hmono : ∀ x, Bytes.In a k x → Bytes.In a (k + 1) x := fun x hx =>
    ⟨hx.1, hx.2.trans (by rw [Int.natCast_succ, ← Int.add_assoc]; exact Int.lt_succ _)⟩
  have hmapped : ∀ x, Bytes.In a (k + 1) x → ∃ d, s₁.bytes x = some d := fun x hx => by
    obtain ⟨i, hi, rfl⟩ := Bytes.in_iff.mp hx
    exact ⟨fs[i], by rw [hs₁, Bytes.store_in (hfl ▸ hi), List.getElem?_eq_getElem]⟩
  have hcopy : xLibMemcpy a p k s₁ =
      .ok () { s₁ with bytes := Bytes.store s₁.bytes a (l.take n) } := by
    rw [← hlen]
    refine xLibMemcpy_run ?_ (fun x hx => hmapped x (hmono x (hlen ▸ hx)))
      fun x hx hx' => hold h.take x hx (hmono x (hlen ▸ hx'))
    rw [hs₁]
    exact h.take.store fun x hx hx' => hold h.take x hx (hfl ▸ hx')
  have hend : Bytes.In a (k + 1) (a + (k : Nat)) := Bytes.in_iff.mpr ⟨k, Nat.lt_succ_self k, rfl⟩
  obtain ⟨d, hd⟩ := hmapped _ hend
  have hout : ¬ Bytes.In a (l.take n).length (a + (k : Nat)) := fun hx => by
    rw [hlen] at hx
    exact lt_irrefl _ hx.2
  have hwrite : writeByte (a + (k : Nat)) nul
      { s₁ with bytes := Bytes.store s₁.bytes a (l.take n) } =
      .ok () { s₁ with bytes := Bytes.store s₁.bytes a (l.take n ++ [nul]) } := by
    rw [writeByte_run (d := d) (by rw [← hd]; exact Bytes.store_out hout)]
    simp only [← hlen, Bytes.store_append]
  refine ⟨a, { s₁ with bytes := Bytes.store s₁.bytes a (l.take n ++ [nul]) }, ?_, ?_⟩
  · rw [xLibStrndup, Prog.bind_of_ok hloop, Nat.mod_eq_of_lt (hlen ▸ hm.length_lt h.take),
      Prog.bind_of_ok hmalloc, if_neg hpos, Prog.bind_of_ok hcopy, Prog.bind_of_ok hwrite]
    rfl
  · have hcl : (l.take n ++ [nul]).length = k + 1 := by
      rw [List.length_append, hlen, List.length_singleton]
    have hframe : ∀ x, ¬ Bytes.In a (k + 1) x →
        Bytes.store s₁.bytes a (l.take n ++ [nul]) x = s.bytes x := fun x hx => by
      rw [Bytes.store_out (hcl ▸ hx), hs₁, Bytes.store_out (hfl ▸ hx)]
    have hstr : StrAt (Bytes.store s₁.bytes a (l.take n ++ [nul])) a (l.take n) :=
      ⟨fun hm => h.1 (List.mem_of_mem_take hm), Bytes.at_store⟩
    have hsrc : StrNAt (Bytes.store s₁.bytes a (l.take n ++ [nul])) p l n :=
      ⟨h.1, fun i hi => by
        rw [hframe _ (hold h.2 _ (Bytes.in_iff.mpr ⟨i, hi, rfl⟩))]
        exact h.2 i hi⟩
    refine ⟨hpos, hstr, hk ▸ hfresh, hk ▸ hframe, ?_⟩
    obtain ⟨v, hrun, hv⟩ := xLibStrncmp_run
      (s := { s₁ with bytes := Bytes.store s₁.bytes a (l.take n ++ [nul]) }) (hstr.strNAt n) hsrc
    rw [List.take_take, Nat.min_self, compareBytes_self, compare_eq_iff_eq] at hv
    rw [hrun, hv]

theorem xLibStrndup_refused (h : StrNAt s.bytes p l n)
    (hg : env.malloc.grants s.sys.requests = false) :
    ∃ s', xLibStrndup env fill p n s = .ok nil s' ∧ s'.bytes = s.bytes := by
  have hloop : strndupLoop p n 0 s = .ok (l.take n).length s := by
    rw [strndupLoop_run (k := 0) (by rwa [Int.natCast_zero, Int.add_zero]), Nat.zero_add]
  obtain ⟨s', hmalloc, hb⟩ := xSysMallocBytes_refused fill
    (((l.take n).length + 1) % 2 ^ 64) hg
  refine ⟨s', ?_, hb⟩
  rw [xLibStrndup, Prog.bind_of_ok hloop, Prog.bind_of_ok hmalloc, if_pos rfl]
  rfl

/-! ## The four functions -/

/-- The functions on strings in memory. Only the bytes of the strings up to their NUL, or before
the position `n`, are known to be mapped, so no other byte is read. A block that `malloc` grants
is at no byte in use. -/
theorem string_functions (hm : Addressable s.bytes) :
    (∀ p l c passes, StrAt s.bytes p l → l.length < passes →
      ∃ q, xLibStrchr passes p c s = .ok q s ∧ FirstAt p l c q) ∧
    (∀ p q l l' passes, StrAt s.bytes p l → StrAt s.bytes q l' → l.length < passes →
      ∃ d, xLibStrcmp passes p q s = .ok d s ∧ compare d 0 = compareBytes l l') ∧
    (∀ p l passes, StrAt s.bytes p l → l.length < passes →
      xLibStrlen passes p s = .ok l.length s) ∧
    (∀ p q l l' n, StrNAt s.bytes p l n → StrNAt s.bytes q l' n →
      ∃ d, xLibStrncmp p q n s = .ok d s ∧ (n = 0 → d = 0) ∧
        compare d 0 = compareBytes (l.take n) (l'.take n) ∧
        (l.length < n ∨ l'.length < n → compare d 0 = compareBytes l l')) ∧
    ∀ (env : Env) (fill : Ptr → XChar) p r n, Bytes.At s.bytes p r → nul ∈ r ∨ n ≤ r.length →
      (env.malloc.grants s.sys.requests = false →
        ∃ s', xLibStrndup env fill p n s = .ok nil s' ∧ s'.bytes = s.bytes) ∧
      (env.malloc.grants s.sys.requests = true →
        (∀ x, Bytes.In (env.malloc.address s.sys (min n (r.takeWhile (· ≠ nul)).length + 1))
          (min n (r.takeWhile (· ≠ nul)).length + 1) x → s.bytes x = none) →
        ∃ a s', xLibStrndup env fill p n s = .ok a s' ∧
          Copied s p (r.takeWhile (· ≠ nul)) n a s') := by
  refine ⟨fun p l c passes h hn => xLibStrchr_run hm h hn c,
    fun p q l l' passes h h' hn => xLibStrcmp_run h h' hn,
    fun p l passes h hn => xLibStrlen_run hm h hn, fun p q l l' n h h' => ?_,
    fun env fill p r n h hr => ⟨fun hg => ?_, fun hg hfresh => ?_⟩⟩
  · obtain ⟨d, hrun, hd⟩ := xLibStrncmp_run h h'
    refine ⟨d, hrun, fun hn => ?_, hd, fun hn => hd.trans (compareBytes_take hn)⟩
    rw [hn] at hd
    exact compare_eq_iff_eq.mp hd
  · exact xLibStrndup_refused (strNAt_of_bytes h hr) hg
  · exact xLibStrndup_run hm (strNAt_of_bytes h hr) hg hfresh

/-- Two strings, at 16 and at 32, that begin with the same two characters. -/
def twoStrings : Io where
  sys := Sys.empty
  bytes := Bytes.store (Bytes.store (fun _ => none) 16 [200, 97, 98, nul]) 32 [200, 97, 1, 5, nul]
  files _ := []
  asked := []

/-- The third characters decide. -/
theorem string_functions_two :
    (∃ d, xLibStrcmp 4 16 32 twoStrings = .ok d twoStrings ∧ compare d 0 = .gt) ∧
    (∃ q, xLibStrchr 4 16 98 twoStrings = .ok q twoStrings ∧ FirstAt 16 [200, 97, 98] 98 q) ∧
    xLibStrlen 5 32 twoStrings = .ok 4 twoStrings ∧
    (∃ d, xLibStrncmp 16 32 2 twoStrings = .ok d twoStrings ∧ compare d 0 = .eq) ∧
    (∃ d, xLibStrncmp 32 16 3 twoStrings = .ok d twoStrings ∧ compare d 0 = .lt) ∧
    ∃ a s', xLibStrndup (.plain fun _ => true) (fun _ => 7) 16 2 twoStrings = .ok a s' ∧
      Copied twoStrings 16 [200, 97, 98] 2 a s' := by
  have hbytes : ∀ x c, twoStrings.bytes x = some c → 16 ≤ x ∧ x < 37 := fun x c h => by
    by_cases h₁ : Bytes.In 32 5 x
    · exact ⟨le_trans (by decide) h₁.1, h₁.2⟩
    · have h : Bytes.store (fun _ => none) 16 [200, 97, 98, nul] x = some c :=
        (Bytes.store_out h₁).symm.trans h
      by_cases h₂ : Bytes.In 16 4 x
      · exact ⟨h₂.1, h₂.2.trans (by decide)⟩
      · rw [Bytes.store_out h₂] at h
        cases h
  have hm : Addressable twoStrings.bytes := fun x c h =>
    ⟨lt_of_lt_of_le (by decide) (hbytes x c h).1, (hbytes x c h).2.trans (by decide)⟩
  have h₁ : StrAt twoStrings.bytes 16 [200, 97, 98] := ⟨by decide, by
    refine Bytes.at_store.store fun x hx hx' => ?_
    exact absurd (hx'.1.trans_lt hx.2) (by decide)⟩
  have h₂ : StrAt twoStrings.bytes 32 [200, 97, 1, 5] := ⟨by decide, Bytes.at_store⟩
  obtain ⟨hchr, hcmp, hlen, hncmp, hdup⟩ := string_functions hm
  refine ⟨hcmp 16 32 _ _ 4 h₁ h₂ (by decide), hchr 16 _ _ 4 h₁ (by decide),
    hlen 32 _ 5 h₂ (by decide), ?_, ?_, ?_⟩
  · obtain ⟨d, hrun, -, hd, -⟩ := hncmp 16 32 _ _ 2 (h₁.strNAt 2) (h₂.strNAt 2)
    exact ⟨d, hrun, hd⟩
  · obtain ⟨d, hrun, -, hd, -⟩ := hncmp 32 16 _ _ 3 (h₂.strNAt 3) (h₁.strNAt 3)
    exact ⟨d, hrun, hd⟩
  · refine (hdup (.plain fun _ => true) (fun _ => 7) 16 _ 2 h₁.2 (.inl (by decide))).2 rfl
      fun x hx => ?_
    have haddr : (64 : Int) ≤ (twoStrings.sys.top : Int) + 64 := by omega
    by_contra hne
    obtain ⟨c, hc⟩ := Option.ne_none_iff_exists'.mp hne
    exact absurd ((haddr.trans hx.1).trans_lt (hbytes x c hc).2) (by decide)

end XExpr
