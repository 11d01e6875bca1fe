import XExpr.Str.Stdlib

/-!
# Blocks of bytes

`x_lib_memcpy` on blocks that may overlap, `x_lib_memset` and `x_lib_memdup`. The copy goes forward
byte by byte: where the destination starts `d` bytes behind the start of the source, it reads back
what it has written, and the first `d` bytes repeat.

* `Bytes.repeated`: the first `d` values of a list over and over.
* `xLibMemcpy_forward`: a copy between any two blocks.
* `memcpy_exact`: what is copied, and when it is the source.
* `memdup_exact`: `x_lib_memdup`, and its agreement with `x_lib_strndup` on strings.
-/

namespace Bytes

variable {α : Type} {m : Int → Option α} {a : Int} {l l' : List α} {d i : Nat}

/-- The list with its first `d` values over and over. -/
def repeated (l : List α) (d : Nat) : List α := l.mapIdx fun i v => (l[i % d]?).getD v

@[simp] theorem length_repeated : (repeated l d).length = l.length := List.length_mapIdx

theorem repeated_getElem? (hi : i < l.length) : (repeated l d)[i]? = l[i % d]? := by
  have hd : i % d < l.length := (Nat.mod_le i d).trans_lt hi
  rw [repeated, List.getElem?_mapIdx, List.getElem?_eq_getElem hi, List.getElem?_eq_getElem hd]
  rfl

/-- It is the list if the values are equal at the distance `d`. -/
theorem repeated_eq_iff : repeated l d = l ↔ ∀ i, i + d < l.length → l[i + d]? = l[i]? := by
  constructor
  · intro h i hi
    have h₁ := repeated_getElem? (d := d) hi
    have h₂ := repeated_getElem? (d := d) ((Nat.le_add_right i d).trans_lt hi)
    rw [h] at h₁ h₂
    rw [h₁, h₂, Nat.add_mod_right]
  · intro h
    refine List.ext_getElem? fun i => ?_
    by_cases hi : i < l.length
    · rw [repeated_getElem? hi]
      induction i using Nat.strong_induction_on with
      | _ i ih =>
        rcases Nat.eq_zero_or_pos d with rfl | hd
        · rw [Nat.mod_zero]
        by_cases hid : i < d
        · rw [Nat.mod_eq_of_lt hid]
        · have he : i - d + d = i := Nat.sub_add_cancel (Nat.le_of_not_lt hid)
          rw [Nat.mod_eq_sub_mod (Nat.le_of_not_lt hid), ih (i - d) (by omega) (by omega),
            ← h (i - d) (by omega), he]
    · rw [List.getElem?_eq_none (by simpa using hi), List.getElem?_eq_none (by simpa using hi)]

theorem repeated_length : repeated l l.length = l :=
  repeated_eq_iff.mpr fun i hi => absurd hi (by omega)

/-- A store over memories that are equal elsewhere. -/
theorem store_eq_of_out {m' : Int → Option α} (h : ∀ x, ¬ In a l.length x → m' x = m x) :
    store m' a l = store m a l := by
  funext x
  unfold store
  split
  · rfl
  · next hx => exact h x hx

/-- Of two lists of one length at one place. -/
theorem at_store_iff (hl : l.length = l'.length) : At (store m a l') a l ↔ l' = l := by
  refine ⟨fun h => List.ext_getElem? fun i => ?_, fun h => h ▸ at_store⟩
  by_cases hi : i < l.length
  · rw [← h i hi, store_in (hl ▸ hi)]
  · rw [List.getElem?_eq_none (hl ▸ Nat.le_of_not_lt hi),
      List.getElem?_eq_none (Nat.le_of_not_lt hi)]

end Bytes

namespace XExpr

open Sys

/-! ## The functions -/

def xLibMemset (dest : Ptr) (byte : Int) : Nat → IoM Unit
  | 0 => return
  | size + 1 => do
    writeByte dest (.ofCode byte)
    xLibMemset (dest + 1) byte size

/-- `memzero` tells whether `X_OPT_MEMZERO` is defined. -/
def xLibMemdup (memzero : Bool) (env : Env) (fill : Ptr → XChar) (src : Ptr) (size : Nat) :
    IoM Ptr := do
  let dst ← xSysMallocBytes env fill size
  if dst = nil then
    return nil
  if src ≠ nil then
    xLibMemcpy dst src size
  else if memzero then
    xLibMemset dst 0 size
  return dst

section Runs

variable {env : Env} {s : Io} {a p : Ptr} {src dest : Int} {l : List XChar} {fill : Ptr → XChar}
  {memzero : Bool} {n k : Nat}

/-! ## `x_lib_memcpy` -/

/-- How far the destination is behind the source, if it is. -/
def distance (src dest : Int) (n : Nat) : Nat := if src < dest then (dest - src).toNat else n

/-- What the loop reads after `k` passes. -/
theorem memcpy_reads (hs : Bytes.At s.bytes src l) (hk : k < l.length) :
    Bytes.store s.bytes dest ((Bytes.repeated l (distance src dest l.length)).take k) (src + k) =
      l[k % distance src dest l.length]? := by
  have hlen : ((Bytes.repeated l (distance src dest l.length)).take k).length = k := by
    rw [List.length_take, Bytes.length_repeated]
    omega
  by_cases hin : Bytes.In dest k (src + k)
  · -- a byte that was written before
    obtain ⟨h₁, h₂⟩ := hin
    obtain ⟨d, hd⟩ := Int.eq_ofNat_of_zero_le (show 0 ≤ dest - src by omega)
    have hdist : distance src dest l.length = d := by
      rw [distance, if_pos (by omega)]
      omega
    have ha : src + (k : Int) = dest + ((k - d : Nat) : Int) := by omega
    have hlt : k - d < k := by omega
    rw [ha, Bytes.store_in (hlen.symm ▸ hlt), List.getElem?_take_of_lt hlt,
      Bytes.repeated_getElem? (by omega), hdist, ← Nat.mod_eq_sub_mod (by omega)]
  · have hmod : k % distance src dest l.length = k := by
      refine Nat.mod_eq_of_lt ?_
      unfold distance
      split
      · by_contra hd
        exact hin ⟨by omega, by omega⟩
      · exact hk
    rw [Bytes.store_out (hlen.symm ▸ hin), hs k hk, hmod]

/-- The loop from its pass `k` on. -/
theorem memcpy_from (hs : Bytes.At s.bytes src l)
    (hd : ∀ x, Bytes.In dest l.length x → ∃ c, s.bytes x = some c) (hk : k + n = l.length) :
    xLibMemcpy (dest + k) (src + k) n { s with
        bytes := Bytes.store s.bytes dest
          ((Bytes.repeated l (distance src dest l.length)).take k) } =
      .ok () { s with
        bytes := Bytes.store s.bytes dest (Bytes.repeated l (distance src dest l.length)) } := by
  induction n generalizing k with
  | zero =>
    rw [List.take_of_length_le (by rw [Bytes.length_repeated]; omega)]
    rfl
  | succ n ih =>
    have hkl : k < l.length := by omega
    have hlen : ((Bytes.repeated l (distance src dest l.length)).take k).length = k := by
      rw [List.length_take, Bytes.length_repeated]
      omega
    obtain ⟨c, hc⟩ : ∃ c, l[k % distance src dest l.length]? = some c :=
      ⟨_, List.getElem?_eq_getElem ((Nat.mod_le k _).trans_lt hkl)⟩
    obtain ⟨e, he⟩ := hd (dest + k) (Bytes.in_iff.mpr ⟨k, hkl, rfl⟩)
    have hout : ¬ Bytes.In dest k (dest + k) := fun h => lt_irrefl _ h.2
    have hw : Bytes.store (Bytes.store s.bytes dest
          ((Bytes.repeated l (distance src dest l.length)).take k)) (dest + k) [c] =
        Bytes.store s.bytes dest
          ((Bytes.repeated l (distance src dest l.length)).take (k + 1)) := by
      rw [List.take_add_one, Bytes.repeated_getElem? hkl, hc, Option.toList_some,
        ← Bytes.store_append, hlen]
    rw [xLibMemcpy, Prog.bind_of_ok (readByte_run ((memcpy_reads hs hkl).trans hc)),
      Prog.bind_of_ok (writeByte_run ((Bytes.store_out (hlen.symm ▸ hout)).trans he))]
    simp only [hw]
    have hnext := ih (k := k + 1) (by omega)
    rw [Int.natCast_succ, ← Int.add_assoc, ← Int.add_assoc] at hnext
    exact hnext

theorem xLibMemcpy_forward (hs : Bytes.At s.bytes src l)
    (hd : ∀ x, Bytes.In dest l.length x → ∃ c, s.bytes x = some c) :
    xLibMemcpy dest src l.length s = .ok () { s with
      bytes := Bytes.store s.bytes dest (Bytes.repeated l (distance src dest l.length)) } := by
  have h := memcpy_from (k := 0) (n := l.length) hs hd (Nat.zero_add _)
  rw [Int.natCast_zero, Int.add_zero, Int.add_zero, List.take_zero, Bytes.store_nil] at h
  exact h

/-- A copy between any two blocks returns. It writes the block at the destination and nothing
else, and what is there is the source as it was exactly if the destination does not start behind
it, or the source has equal bytes at that distance. -/
theorem memcpy_exact (hs : Bytes.At s.bytes src l)
    (hd : ∀ x, Bytes.In dest l.length x → ∃ c, s.bytes x = some c) :
    ∃ s', xLibMemcpy dest src l.length s = .ok () s' ∧ s'.sys = s.sys ∧
      (∀ x, ¬ Bytes.In dest l.length x → s'.bytes x = s.bytes x) ∧
      (∀ i < l.length, s'.bytes (dest + i) = l[i % distance src dest l.length]?) ∧
      (Bytes.At s'.bytes dest l ↔ src < dest → ∀ i : Nat, i + (dest - src).toNat < l.length →
        l[i + (dest - src).toNat]? = l[i]?) := by
  refine ⟨_, xLibMemcpy_forward hs hd, rfl, fun x hx => Bytes.store_out (by simpa using hx),
    fun i hi => ?_, ?_⟩
  · rw [← Bytes.repeated_getElem? hi]
    exact Bytes.store_in (by simpa using hi)
  · refine (Bytes.at_store_iff Bytes.length_repeated.symm).trans ?_
    unfold distance
    split
    · next h => exact Bytes.repeated_eq_iff.trans ⟨fun h' _ => h', fun h' => h' h⟩
    · next h => exact iff_of_true Bytes.repeated_length fun h' => absurd h' h

/-- Four bytes at 16. -/
def fourBytes : Io where
  sys := Sys.empty
  bytes := Bytes.store (fun _ => none) 16 [1, 2, 3, nul]
  files _ := []
  asked := []

/-- One byte on, three bytes become the first one over and over. -/
theorem memcpy_exact_onward : ∃ s', xLibMemcpy 17 16 3 fourBytes = .ok () s' ∧
    (∀ i : Nat, i < 3 → s'.bytes (17 + i) = [(1 : XChar), 2, 3][i % 1]?) ∧
    ¬ Bytes.At s'.bytes 17 [1, 2, 3] := by
  have hall : Bytes.At fourBytes.bytes 16 ([1, 2, 3] ++ [nul]) := Bytes.at_store
  have hs := (Bytes.at_append.mp hall).1
  have hd : ∀ x, Bytes.In 17 3 x → ∃ c, fourBytes.bytes x = some c := fun x hx => by
    obtain ⟨i, hi, rfl⟩ := Bytes.in_iff.mp hx
    have hi' : i + 1 < [(1 : XChar), 2, 3, nul].length := Nat.succ_lt_succ hi
    have ha : (17 : Int) + (i : Int) = 16 + ((i + 1 : Nat) : Int) := by omega
    refine ⟨[(1 : XChar), 2, 3, nul][i + 1], ?_⟩
    rw [ha]
    exact (Bytes.store_in (m := fun _ => none) (a := 16) hi').trans (List.getElem?_eq_getElem hi')
  obtain ⟨s', hrun, -, -, hbytes, hiff⟩ := @memcpy_exact fourBytes 16 17 _ hs hd
  refine ⟨s', hrun, hbytes, fun h => ?_⟩
  exact absurd (hiff.mp h (by decide) 0 (by decide)) (by decide)

/-! ## `x_lib_memset` and `x_lib_memdup` -/

theorem xLibMemset_run {byte : Int} (hd : ∀ x, Bytes.In dest n x → ∃ c, s.bytes x = some c) :
    xLibMemset dest byte n s = .ok () { s with
      bytes := Bytes.store s.bytes dest (List.replicate n (.ofCode byte)) } := by
  induction n generalizing s dest with
  | zero =>
    rw [List.replicate_zero, Bytes.store_nil]
    rfl
  | succ n ih =>
    obtain ⟨c, hc⟩ := hd dest ⟨le_rfl, by omega⟩
    rw [xLibMemset, Prog.bind_of_ok (writeByte_run hc), ih, List.replicate_succ, Bytes.store_cons]
    intro x hx
    have hn : ¬ Bytes.In dest [XChar.ofCode byte].length x := fun h => by
      have := h.2
      have := hx.1
      simp only [List.length_singleton] at *
      omega
    exact (hd x ⟨by have := hx.1; omega, by have := hx.2; omega⟩).imp fun c hc =>
      (Bytes.store_out hn).trans hc

/-- A granted block: its bytes are mapped, and the others are as before. -/
theorem granted_block (fill : Ptr → XChar) {size : Nat}
    (hg : env.malloc.grants s.sys.requests = true) (ha : a = env.malloc.address s.sys size) :
    ∃ s₁, a ≠ nil ∧ xSysMallocBytes env fill size s = .ok a s₁ ∧
      (∀ x, Bytes.In a size x → ∃ c, s₁.bytes x = some c) ∧
      ∀ x, ¬ Bytes.In a size x → s₁.bytes x = s.bytes x := by
  obtain ⟨s₁, hmalloc, hs₁⟩ := xSysMallocBytes_run fill ha hg
  have hlen : ((List.range size).map fun i : Nat => fill (a + i)).length = size := by simp
  refine ⟨s₁, ha ▸ (env.malloc.fresh s.sys size).1.ne', hmalloc, fun x hx => ?_, fun x hx => ?_⟩
  · obtain ⟨i, hi, rfl⟩ := Bytes.in_iff.mp hx
    rw [hs₁, Bytes.store_in (hlen.symm ▸ hi), List.getElem?_eq_getElem (hlen.symm ▸ hi)]
    exact ⟨_, rfl⟩
  · rw [hs₁, Bytes.store_out (hlen.symm ▸ hx)]

/-- A block that is mapped is not in a new one. -/
theorem apart_of_fresh {size : Nat} {x : Int} (hs : Bytes.At s.bytes src l)
    (hfresh : ∀ x, Bytes.In a size x → s.bytes x = none) (hx : Bytes.In src l.length x) :
    ¬ Bytes.In a size x := fun hx' => by
  obtain ⟨i, hi, rfl⟩ := Bytes.in_iff.mp hx
  have h := hs i hi
  rw [hfresh _ hx', List.getElem?_eq_getElem hi] at h
  cases h

/-- A copy into a new block. -/
theorem memcpy_fresh {size : Nat} {s₁ : Io} (hs : Bytes.At s.bytes src l) (hl : l.length ≤ size)
    (hfresh : ∀ x, Bytes.In a size x → s.bytes x = none)
    (hold : ∀ x, ¬ Bytes.In a size x → s₁.bytes x = s.bytes x)
    (hmapped : ∀ x, Bytes.In a size x → ∃ c, s₁.bytes x = some c) :
    xLibMemcpy a src l.length s₁ = .ok () { s₁ with bytes := Bytes.store s₁.bytes a l } := by
  have hsub : ∀ x, Bytes.In a l.length x → Bytes.In a size x := fun x hx =>
    ⟨hx.1, hx.2.trans_le (by omega)⟩
  refine xLibMemcpy_run (fun i hi => ?_) (fun x hx => hmapped x (hsub x hx)) fun x hx hx' =>
    apart_of_fresh hs hfresh hx (hsub x hx')
  rw [hold _ (apart_of_fresh hs hfresh (Bytes.in_iff.mpr ⟨i, hi, rfl⟩)), hs i hi]

/-- `x_lib_memdup` of a block. -/
theorem xLibMemdup_run (memzero : Bool) (fill : Ptr → XChar) (hp : p ≠ nil)
    (hs : Bytes.At s.bytes p l) (hg : env.malloc.grants s.sys.requests = true)
    (ha : a = env.malloc.address s.sys l.length)
    (hfresh : ∀ x, Bytes.In a l.length x → s.bytes x = none) :
    ∃ s₁, a ≠ nil ∧ xSysMallocBytes env fill l.length s = .ok a s₁ ∧
      (∀ x, Bytes.In a l.length x → ∃ c, s₁.bytes x = some c) ∧
      (∀ x, ¬ Bytes.In a l.length x → s₁.bytes x = s.bytes x) ∧
      xLibMemdup memzero env fill p l.length s =
        .ok a { s₁ with bytes := Bytes.store s.bytes a l } := by
  obtain ⟨s₁, hne, hmalloc, hmapped, hold⟩ := granted_block fill hg ha
  refine ⟨s₁, hne, hmalloc, hmapped, hold, ?_⟩
  rw [xLibMemdup, Prog.bind_of_ok hmalloc, if_neg hne, if_pos hp,
    Prog.bind_of_ok (memcpy_fresh hs le_rfl hfresh hold hmapped), Bytes.store_eq_of_out hold]
  rfl

theorem xLibMemdup_refused {size : Nat} (hg : env.malloc.grants s.sys.requests = false) :
    ∃ s', xLibMemdup memzero env fill p size s = .ok nil s' ∧ s'.bytes = s.bytes := by
  obtain ⟨s', hmalloc, hb⟩ := xSysMallocBytes_refused fill size hg
  refine ⟨s', ?_, hb⟩
  rw [xLibMemdup, Prog.bind_of_ok hmalloc, if_pos rfl]
  rfl

/-- `x_lib_memdup` of `NULL`: the block is left as it is got, or zeroed. -/
theorem xLibMemdup_null {size : Nat} (hg : env.malloc.grants s.sys.requests = true)
    (ha : a = env.malloc.address s.sys size) :
    ∃ s', xLibMemdup memzero env fill nil size s = .ok a s' ∧
      Bytes.At s'.bytes a (if memzero then List.replicate size nul
        else (List.range size).map fun i : Nat => fill (a + i)) ∧
      ∀ x, ¬ Bytes.In a size x → s'.bytes x = s.bytes x := by
  obtain ⟨s₁, hmalloc, hs₁⟩ := xSysMallocBytes_run fill ha hg
  obtain ⟨s₂, hne, hmalloc₂, hmapped, hold⟩ := granted_block fill hg ha
  obtain rfl : s₁ = s₂ := by
    rw [hmalloc] at hmalloc₂
    cases hmalloc₂
    rfl
  rw [xLibMemdup, Prog.bind_of_ok hmalloc, if_neg hne, if_neg (not_not_intro rfl)]
  cases memzero with
  | false => exact ⟨s₁, rfl, hs₁ ▸ Bytes.at_store, hold⟩
  | true =>
    rw [if_pos rfl, Prog.bind_of_ok (xLibMemset_run hmapped), if_pos rfl]
    refine ⟨_, rfl, Bytes.at_store, fun x hx => ?_⟩
    rw [← hold x hx]
    exact Bytes.store_out (by simpa using hx)

/-- On a string with its NUL, `x_lib_memdup` does what `x_lib_strndup` does. -/
theorem xLibMemdup_eq_strndup {t : List XChar} (hm : Addressable s.bytes) (hp : p ≠ nil)
    (ht : StrAt s.bytes p t) (hn : t.length ≤ n)
    (hfresh : ∀ x, Bytes.In (env.malloc.address s.sys (t.length + 1)) (t.length + 1) x →
      s.bytes x = none) :
    xLibMemdup memzero env fill p (t.length + 1) s = xLibStrndup env fill p n s := by
  have hl : (t ++ [nul]).length = t.length + 1 := by simp
  have hmod : (t.length + 1) % 2 ^ 64 = t.length + 1 := by
    have := hm.length_lt ht.2
    rw [hl] at this
    exact Nat.mod_eq_of_lt (by omega)
  have hloop : strndupLoop p n 0 s = .ok t.length s := by
    rw [strndupLoop_run (k := 0) (by rw [Int.natCast_zero, Int.add_zero]; exact ht.strNAt n),
      Nat.zero_add, List.take_of_length_le hn]
  rw [xLibStrndup, Prog.bind_of_ok hloop, hmod]
  cases hg : env.malloc.grants s.sys.requests with
  | false =>
    obtain ⟨s', hmalloc, -⟩ := xSysMallocBytes_refused fill (t.length + 1) hg
    rw [xLibMemdup, Prog.bind_of_ok hmalloc, Prog.bind_of_ok hmalloc]
    rfl
  | true =>
    generalize ha : env.malloc.address s.sys (t.length + 1) = a at hfresh
    obtain ⟨s₁, hne, hmalloc, hmapped, hold, hrun⟩ :=
      xLibMemdup_run memzero fill hp ht.2 hg (hl.symm ▸ ha.symm) (hl.symm ▸ hfresh)
    rw [hl] at hmalloc hmapped hold hrun
    have hcopy := memcpy_fresh (Bytes.at_append.mp ht.2).1 (Nat.le_succ _) hfresh hold hmapped
    have hend : Bytes.In a (t.length + 1) (a + (t.length : Nat)) :=
      Bytes.in_iff.mpr ⟨t.length, Nat.lt_succ_self _, rfl⟩
    have hout : ¬ Bytes.In a t.length (a + (t.length : Nat)) := fun h => lt_irrefl _ h.2
    obtain ⟨c, hc⟩ := hmapped _ hend
    have hwrite := writeByte_run (c := nul) (s := { s₁ with bytes := Bytes.store s₁.bytes a t })
      ((Bytes.store_out hout).trans hc)
    have hstore : Bytes.store s₁.bytes a (t ++ [nul]) = Bytes.store s.bytes a (t ++ [nul]) :=
      Bytes.store_eq_of_out fun x hx => hold x (hl ▸ hx)
    rw [hrun, Prog.bind_of_ok hmalloc, if_neg hne, Prog.bind_of_ok hcopy,
      Prog.bind_of_ok hwrite, ← hstore, ← Bytes.store_append]
    rfl

/-- `x_lib_memdup` copies a block to new memory, or returns `NULL` and changes nothing; a string
with its NUL is duplicated as `x_lib_strndup` does it, with the same pointer and in the same
memory; and for `NULL` there is a block, zeroed if so built. -/
theorem memdup_exact (hm : Addressable s.bytes) (hp : p ≠ nil) (hs : Bytes.At s.bytes p l)
    (hfresh : ∀ x, Bytes.In (env.malloc.address s.sys l.length) l.length x → s.bytes x = none) :
    (env.malloc.grants s.sys.requests = true → ∃ s',
      xLibMemdup memzero env fill p l.length s = .ok (env.malloc.address s.sys l.length) s' ∧
      Bytes.At s'.bytes (env.malloc.address s.sys l.length) l ∧
      ∀ x, s.bytes x ≠ none → s'.bytes x = s.bytes x) ∧
    (env.malloc.grants s.sys.requests = false → ∃ s',
      xLibMemdup memzero env fill p l.length s = .ok nil s' ∧ s'.bytes = s.bytes) ∧
    (∀ t n, l = t ++ [nul] → nul ∉ t → t.length ≤ n →
      xLibMemdup memzero env fill p l.length s = xLibStrndup env fill p n s) ∧
    ∀ size, env.malloc.grants s.sys.requests = true → ∃ s',
      xLibMemdup memzero env fill nil size s = .ok (env.malloc.address s.sys size) s' ∧
      Bytes.At s'.bytes (env.malloc.address s.sys size) (if memzero then List.replicate size nul
        else (List.range size).map fun i : Nat => fill (env.malloc.address s.sys size + i)) ∧
      ∀ x, ¬ Bytes.In (env.malloc.address s.sys size) size x → s'.bytes x = s.bytes x := by
  refine ⟨fun hg => ?_, xLibMemdup_refused, fun t n hl ht hn => ?_,
    fun size hg => xLibMemdup_null hg rfl⟩
  · obtain ⟨s₁, -, -, -, -, hrun⟩ := xLibMemdup_run memzero fill hp hs hg rfl hfresh
    exact ⟨_, hrun, Bytes.at_store, fun x hx => Bytes.store_out fun h => hx (hfresh x h)⟩
  · subst hl
    rw [List.length_append, List.length_singleton] at hfresh ⊢
    exact xLibMemdup_eq_strndup hm hp ⟨ht, hs⟩ hn hfresh

/-- The bytes of `fourBytes` as a string. -/
theorem memdup_exact_fourBytes :
    xLibMemdup false (.plain fun _ => true) (fun _ => 7) 16 4 fourBytes =
      xLibStrndup (.plain fun _ => true) (fun _ => 7) 16 9 fourBytes := by
  have hin : ∀ x c, fourBytes.bytes x = some c → 16 ≤ x ∧ x < 20 := fun x c h => by
    by_contra hx
    have hout : fourBytes.bytes x = none :=
      Bytes.store_out (m := fun _ => none) (l := [1, 2, 3, nul]) hx
    cases hout.symm.trans h
  have hm : Addressable fourBytes.bytes := fun x c h =>
    ⟨lt_of_lt_of_le (by decide) (hin x c h).1, (hin x c h).2.trans (by decide)⟩
  have hs : Bytes.At fourBytes.bytes 16 [1, 2, 3, nul] := Bytes.at_store
  refine (@memdup_exact (.plain fun _ => true) fourBytes 16 _ (fun _ => 7) false hm (by decide) hs
    fun x hx => ?_).2.2.1 [1, 2, 3] 9 rfl (by decide) (by decide)
  have haddr : (64 : Int) ≤ (fourBytes.sys.top : Int) + 64 := by omega
  by_contra hne
  obtain ⟨c, hc⟩ := Option.ne_none_iff_exists'.mp hne
  exact absurd ((haddr.trans hx.1).trans_lt (hin x c hc).2) (by decide)

end Runs

end XExpr
