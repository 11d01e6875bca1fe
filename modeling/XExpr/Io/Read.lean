import XExpr.Io.State

/-!
# Reads with one argument list

`x_base_read` takes the number of bytes from an atom, and after a failed read it leaves the result
there, so the next call with these arguments asks for as many bytes as the last one got.

* `xBaseRead_run`: one call. It returns the destination if the result is the number in the atom,
  and in every case the number in the atom is then the result.
* `reads_reported_iff`: over a sequence of calls, a read is reported as it went if and only if no
  call comes after an error, and after a read that fell short none gets as many bytes as the call
  before it.
-/

namespace XExpr

open Sys
open Mem (chase walk)

variable {s s' : Io} {b args atom rest cnt : Ptr} {n w : Int} {answer : ReadAnswer}
  {answers : List ReadAnswer}

/-! ## The file descriptor -/

/-- There is no set base, or the chase of the descriptor does not pass the objects `l`. -/
def Sys.FdReady (s : Sys) (f : Field) (b : Ptr) (l : List Ptr) : Prop :=
  b = nil ∨ s.unit b 0 = some nil ∧ b ∉ l ∨
    s.IsSet b ∧ (∃ fd, s.fieldInt b f = some fd) ∧
      ∀ x ∈ walk s.unit b (f.valuePath ++ [false]), x.1 ∉ l

namespace Sys.FdReady

variable {s s' : Sys} {f : Field} {l : List Ptr}

theorem run (h : s.FdReady f b l) (std : Int) : ∃ fd, baseFd f std b s = .ok fd s := by
  unfold baseFd
  rcases h with rfl | ⟨hu, -⟩ | ⟨hs, ⟨fd, hfd⟩, -⟩
  · exact ⟨std, rfl⟩
  · have hset : xBaseIsset b s = .ok false s :=
      xBaseIsset_ok.mpr ⟨.inr ⟨_, hu⟩, by simp [IsSet, hu], rfl⟩
    exact ⟨std, by rw [Prog.bind_of_ok hset]; rfl⟩
  · refine ⟨toCInt fd, ?_⟩
    rw [Prog.bind_of_ok (xBaseIsset_run hs), if_pos rfl, Prog.bind_of_ok (Field.int_run hfd)]
    rfl

/-- Changes of the objects `l` leave it. -/
theorem congr (h : s.FdReady f b l) (hu : ∀ q i, q ∉ l → s'.unit q i = s.unit q i) :
    s'.FdReady f b l := by
  rcases h with rfl | ⟨h₀, hb⟩ | ⟨hs, ⟨fd, hfd⟩, hw⟩
  · exact .inl rfl
  · exact .inr (.inl ⟨by rw [hu b 0 hb, h₀], hb⟩)
  · have hwalk : ∀ x ∈ walk s.unit b (f.valuePath ++ [false]), s'.unit x.1 x.2 = s.unit x.1 x.2 :=
      fun x hx => hu _ _ (hw x hx)
    have hint : ∀ s : Sys, s.fieldInt b f = chase s.unit b (f.valuePath ++ [false]) := by
      intro s
      rw [Mem.chase_append]
      exact congrArg _ (funext fun v => by simp [chase])
    obtain ⟨π, hπ⟩ : ∃ π, f.valuePath = false :: π := by cases f <;> exact ⟨_, rfl⟩
    have hb : b ∉ l := hw (b, 0) (by rw [hπ]; exact List.mem_cons_self ..)
    refine .inr (.inr ⟨?_, ⟨fd, ?_⟩, ?_⟩)
    · rwa [IsSet, hu b 0 hb]
    · rw [hint, Mem.chase_congr hwalk, ← hint, hfd]
    · rwa [Mem.walk_congr hwalk]

end Sys.FdReady

/-! ## The bytes that a read stores -/

theorem overwriteUnits_length (data : List Word) (l : List XChar) :
    (overwriteUnits data l).length = data.length := by
  induction data generalizing l with
  | nil => cases l <;> rfl
  | cons w data ih =>
    cases l with
    | nil => rfl
    | cons c l => rw [overwriteUnits, List.length_cons, ih, List.length_cons]

/-- The object that is read into holds the bytes of the answer. -/
def ReadAnswer.FitsIn (answer : ReadAnswer) (data : List Word) : Prop :=
  ∀ l, answer = .bytes l → l.length ≤ data.length * sizeofObj

theorem storeBytes_run {s : Sys} {l : List XChar} (hl : s.Live atom)
    (hf : l.length ≤ (s.dataOf atom).length * sizeofObj) : storeBytes atom l s =
      .ok () (s.modify atom fun o => { o with data := overwriteUnits o.data l }) := by
  obtain ⟨o, ho⟩ := live_iff.mp hl
  have hd : s.dataOf atom = o.data := by simp [dataOf, ho]
  rw [hd] at hf
  unfold storeBytes
  rw [Prog.bind_of_ok (deref_eq ho), if_neg (by omega)]
  rfl

theorem storeBytes_ok {s s' : Sys} {l : List XChar} (h : storeBytes atom l s = .ok () s') :
    l.length ≤ (s.dataOf atom).length * sizeofObj := by
  unfold storeBytes at h
  rw [Prog.bind_ok] at h
  obtain ⟨o, s₁, ho, h⟩ := h
  obtain ⟨ho, rfl⟩ := deref_ok.mp ho
  have hd : s₁.dataOf atom = o.data := by simp [dataOf, ho]
  by_contra hle
  rw [if_pos (by rw [hd] at hle; omega)] at h
  cases h

/-- `s'` is `s` after a read into `atom`. -/
structure Filled (s : Io) (atom : Ptr) (fd : Int) (size : Nat) (s' : Io) : Prop where
  asked : s'.asked = (fd, size) :: s.asked
  unit : ∀ q i, q ≠ atom → s'.sys.unit q i = s.sys.unit q i
  length : (s'.sys.dataOf atom).length = (s.sys.dataOf atom).length
  live : s'.sys.Live atom

theorem xSysRead_run (fd : Int) (size : Nat) (hl : s.sys.Live atom)
    (hf : answer.FitsIn (s.sys.dataOf atom)) :
    ∃ s', xSysRead fd atom size answer s = .ok answer.result s' ∧ Filled s atom fd size s' := by
  unfold xSysRead
  rw [Prog.bind_of_ok (Prog.modify_apply ..)]
  cases answer with
  | error => exact ⟨_, rfl, rfl, fun _ _ _ => rfl, rfl, hl⟩
  | bytes l =>
    refine ⟨_, Prog.bind_of_ok (onSys_ok (storeBytes_run hl (hf l rfl))), rfl, fun q i hq => ?_, ?_,
      ?_⟩
    · simp [Sys.unit, dataOf, obj_modify, hq]
    · obtain ⟨o, ho⟩ := live_iff.mp hl
      simp [dataOf, obj_modify, ho, overwriteUnits_length]
    · exact live_modify.mpr hl

/-- A read that returns has found room for the bytes. -/
theorem xSysRead_ok {fd : Int} {size : Nat} {r : Int}
    (h : xSysRead fd atom size answer s = .ok r s') : answer.FitsIn (s.sys.dataOf atom) := by
  rintro l rfl
  unfold xSysRead at h
  rw [Prog.bind_of_ok (Prog.modify_apply ..)] at h
  dsimp only at h
  rw [Prog.bind_ok] at h
  obtain ⟨_, _, hs, -⟩ := h
  exact storeBytes_ok (onSys_inv hs).1

/-! ## One call -/

/-- What a call reads: the destination, which is an object of its own, and the atom with the number
of bytes. -/
structure ReadReady (s : Sys) (b args atom rest cnt : Ptr) : Prop where
  fd : s.FdReady .filein b [atom, cnt]
  dest : s.unit args 0 = some atom
  more : s.unit args 1 = some rest
  count : s.unit rest 0 = some cnt
  apart : atom ∉ [args, rest, cnt] ∧ cnt ∉ [args, rest]
  live : s.Live atom

theorem ReadReady.congr {s s' : Sys} (h : ReadReady s b args atom rest cnt)
    (hu : ∀ q i, q ∉ [atom, cnt] → s'.unit q i = s.unit q i) (hl : s'.Live atom) :
    ReadReady s' b args atom rest cnt := by
  have hx : args ∉ [atom, cnt] ∧ rest ∉ [atom, cnt] := by
    have := h.apart
    simp only [List.mem_cons, List.not_mem_nil, or_false, not_or] at this ⊢
    grind
  exact ⟨h.fd.congr hu, by rw [hu _ _ hx.1, h.dest], by rw [hu _ _ hx.1, h.more],
    by rw [hu _ _ hx.2, h.count], h.apart, hl⟩

/-- The memory after a call that was answered with the result `r`: the atom holds it. -/
structure ReadDone (s : Io) (b args atom rest cnt : Ptr) (size : Nat) (r : Int) (s' : Io) :
    Prop where
  asked : ∃ fd, s'.asked = (fd, size) :: s.asked
  ready : ReadReady s'.sys b args atom rest cnt
  count : s'.sys.unit cnt 0 = some r
  length : (s'.sys.dataOf atom).length = (s.sys.dataOf atom).length

theorem countAtom_run {s : Sys} {w : Word} (h : ReadReady s b args atom rest cnt)
    (hc : s.unit cnt 0 = some w) : (do xFirst (← xFirst (← xRest args)) : M Word) s = .ok w s := by
  rw [Prog.bind_of_ok (xRest_eq h.more), Prog.bind_of_ok (xFirst_eq h.count)]
  exact xFirst_eq hc

theorem xBaseRead_run (answer : ReadAnswer) (h : ReadReady s.sys b args atom rest cnt)
    (hc : s.sys.unit cnt 0 = some n) (hf : answer.FitsIn (s.sys.dataOf atom)) :
    ∃ s', xBaseRead b args answer s = .ok (if answer.result = n then atom else nil) s' ∧
      ReadDone s b args atom rest cnt (toSizeT n) answer.result s' := by
  obtain ⟨fd, hfd⟩ := h.fd.run stdinFileno
  obtain ⟨s₁, hrun, hs₁⟩ := xSysRead_run fd (toSizeT n) h.live hf
  obtain ⟨⟨-, -, hac⟩, hcnt⟩ : (atom ≠ args ∧ atom ≠ rest ∧ atom ≠ cnt) ∧ cnt ∉ [args, rest] := by
    have := h.apart
    simpa [List.mem_cons, not_or] using this
  have hready : ReadReady s₁.sys b args atom rest cnt :=
    h.congr (fun q i hq => hs₁.unit q i fun e => hq (by simp [e])) hs₁.live
  have hcount : s₁.sys.unit cnt 0 = some n := by rw [hs₁.unit _ _ hac.symm, hc]
  unfold xBaseRead
  rw [Prog.bind_of_ok (onSys_read hfd), Prog.bind_of_ok (onSys_read (xFirst_eq h.dest)),
    Prog.bind_of_ok (onSys_read (countAtom_run h hc)), Prog.bind_of_ok hrun]
  by_cases hr : answer.result = n
  · rw [if_pos hr, if_pos hr]
    exact ⟨s₁, rfl, ⟨fd, hs₁.asked⟩, hready, hr ▸ hcount, hs₁.length⟩
  · rw [if_neg hr, if_neg hr]
    have hset : (do setXFirst (← xFirst (← xRest args)) answer.result : M Unit) s₁.sys =
        .ok () (s₁.sys.setUnit cnt 0 answer.result) := by
      rw [Prog.bind_of_ok (xRest_eq hready.more), Prog.bind_of_ok (xFirst_eq hready.count)]
      exact setXObjDataI_eq hcount
    refine ⟨{ s₁ with sys := s₁.sys.setUnit cnt 0 answer.result }, ?_, ⟨fd, hs₁.asked⟩, ?_, ?_, ?_⟩
    · rw [Prog.bind_of_ok (onSys_ok hset)]
      rfl
    · refine hready.congr (fun q i hq => ?_) (live_setUnit.mpr hs₁.live)
      rw [unit_setUnit hcount, if_neg fun e => hq (by simp [e.1])]
    · rw [unit_setUnit hcount, if_pos ⟨rfl, rfl⟩]
    · rw [dataOf_setUnit, if_neg hac, hs₁.length]

/-- A call that returns. -/
theorem xBaseRead_ok {r : Ptr} (h : ReadReady s.sys b args atom rest cnt)
    (hc : s.sys.unit cnt 0 = some n) (hrun : xBaseRead b args answer s = .ok r s') :
    r = (if answer.result = n then atom else nil) ∧
      ReadDone s b args atom rest cnt (toSizeT n) answer.result s' := by
  by_cases hf : answer.FitsIn (s.sys.dataOf atom)
  · obtain ⟨s₁, hrun₁, hd⟩ := xBaseRead_run answer h hc hf
    cases hrun.symm.trans hrun₁
    exact ⟨rfl, hd⟩
  · obtain ⟨fd, hfd⟩ := h.fd.run stdinFileno
    unfold xBaseRead at hrun
    rw [Prog.bind_of_ok (onSys_read hfd), Prog.bind_of_ok (onSys_read (xFirst_eq h.dest)),
      Prog.bind_of_ok (onSys_read (countAtom_run h hc)), Prog.bind_ok] at hrun
    obtain ⟨_, _, hno, -⟩ := hrun
    exact absurd (xSysRead_ok hno) hf

/-! ## Sequences of calls -/

/-- A call of `x_base_read`: how the system answered, what was returned, and for how many bytes the
system was asked. -/
structure ReadCall where
  answer : ReadAnswer
  ret : Ptr
  size : Nat

/-- Calls one after the other. The system stores no more bytes than it is asked for. -/
inductive Reads (b args : Ptr) : Io → List ReadCall → Io → Prop
  | nil (s : Io) : Reads b args s [] s
  | cons {s s₁ s' : Io} {answer : ReadAnswer} {ret : Ptr} {fd : Int} {size : Nat}
      {cs : List ReadCall} (h : xBaseRead b args answer s = .ok ret s₁)
      (ha : s₁.asked = (fd, size) :: s.asked) (hs : answer.result ≤ size)
      (hr : Reads b args s₁ cs s') : Reads b args s (⟨answer, ret, size⟩ :: cs) s'

/-- The call returned the destination only if it got `n` bytes, and `NULL` otherwise, and it asked
for at most `n`. -/
def ReadCall.Reported (n : Int) (atom : Ptr) (c : ReadCall) : Prop :=
  (c.ret = atom → c.answer.result = n) ∧ (c.answer.result ≠ n → c.ret = nil) ∧
    (c.size : Int) ≤ n

/-- After a call with the result `w`, no call comes after an error, and after a result other than
`n` the next one is different. -/
def Unrepeated (n : Int) : Int → List ReadAnswer → Prop
  | _, [] => True
  | w, a :: l => w ≠ -1 ∧ (a.result = w → w = n) ∧ Unrepeated n a.result l

/-- The system stores no more bytes than it is asked for, if that is the result of the call
before. -/
def Bounded : Int → List ReadAnswer → Prop
  | _, [] => True
  | w, a :: l => a.result ≤ toSizeT w ∧ Bounded a.result l

theorem ReadAnswer.result_cases (a : ReadAnswer) : a.result = -1 ∨ 0 ≤ a.result := by
  cases a with
  | error => exact .inl rfl
  | bytes l => exact .inr (Int.natCast_nonneg _)

/-- A number of bytes that is no error is asked for as it is. -/
theorem toSizeT_of_nonneg (h₀ : 0 ≤ w) (h : w ≤ xIntMax) : (toSizeT w : Int) = w := by
  unfold toSizeT xIntMax at *
  omega

theorem toSizeT_neg_one : (toSizeT (-1) : Int) = 2 ^ 64 - 1 := by decide

/-- The calls from one on, when the atom holds `w`. -/
theorem Reads.reported_iff {cs : List ReadCall} (hr : Reads b args s cs s')
    (h : ReadReady s.sys b args atom rest cnt) (hc : s.sys.unit cnt 0 = some w)
    (hn : n ≤ xIntMax) (hw : w = -1 ∨ 0 ≤ w) (hwn : w ≤ n) :
    (∀ c ∈ cs, c.Reported n atom) ↔ Unrepeated n w (cs.map (·.answer)) := by
  induction hr generalizing w with
  | nil => simp [Unrepeated]
  | @cons s s₁ s' a ret fd size cs hrun hask hsize _ ih =>
    obtain ⟨hret, hdone⟩ := xBaseRead_ok h hc hrun
    obtain ⟨fd', hask'⟩ := hdone.asked
    obtain ⟨⟨rfl, rfl⟩, -⟩ : (fd = fd' ∧ size = toSizeT w) ∧ s.asked = s.asked := by
      rw [hask] at hask'
      simpa using hask'
    have hne : atom ≠ XExpr.nil := h.live.ne_nil
    rw [List.forall_mem_cons, List.map_cons, Unrepeated]
    rcases hw with rfl | hw
    · -- the request is for the error code as a size
      have hbig : ¬ ReadCall.Reported n atom ⟨a, ret, toSizeT (-1)⟩ := by
        rintro ⟨-, -, hle⟩
        rw [toSizeT_neg_one] at hle
        unfold xIntMax at hn
        omega
      simp [hbig]
    · have hsz := toSizeT_of_nonneg hw (hwn.trans hn)
      rw [hsz] at hsize
      rw [ih hdone.ready hdone.count a.result_cases (hsize.trans hwn), ← and_assoc]
      refine and_congr ?_ Iff.rfl
      simp only [ReadCall.Reported, hret, hsz]
      by_cases he : a.result = w
      · rw [if_pos he]
        constructor
        · rintro ⟨h₁, -, -⟩
          exact ⟨by omega, fun _ => he.symm.trans (h₁ rfl)⟩
        · rintro ⟨-, h₂⟩
          exact ⟨fun _ => he.trans (h₂ he), fun hne' => absurd (he.trans (h₂ he)) hne', hwn⟩
      · rw [if_neg he]
        exact iff_of_true ⟨fun e => absurd e.symm hne, fun _ => rfl, hwn⟩
          ⟨by omega, fun e => absurd e he⟩

/-- The calls return, as long as no call comes after an error. -/
theorem Reads.exists (h : ReadReady s.sys b args atom rest cnt)
    (hc : s.sys.unit cnt 0 = some w) (hn : n ≤ xIntMax) (hw : w = -1 ∨ 0 ≤ w) (hwn : w ≤ n)
    (hroom : n ≤ (s.sys.dataOf atom).length * sizeofObj) (hu : Unrepeated n w answers)
    (hb : Bounded w answers) :
    ∃ cs s', Reads b args s cs s' ∧ cs.map (·.answer) = answers := by
  induction answers generalizing s w with
  | nil => exact ⟨[], s, .nil s, rfl⟩
  | cons a l ih =>
    obtain ⟨hw₁, -, hu⟩ := hu
    obtain ⟨ha, hb⟩ := hb
    have hsz := toSizeT_of_nonneg (hw.resolve_left hw₁) (hwn.trans hn)
    have hle : a.result ≤ n := by omega
    obtain ⟨s₁, hrun, hdone⟩ := xBaseRead_run a h hc (by
      rintro l rfl
      simp only [ReadAnswer.result] at hle
      omega)
    obtain ⟨fd, hask⟩ := hdone.asked
    obtain ⟨cs, s', hr, he⟩ := ih hdone.ready hdone.count a.result_cases hle
      (by rw [hdone.length]; exact hroom) hu hb
    exact ⟨_, s', .cons hrun hask ha hr, by rw [List.map_cons, he]⟩

/-- A destination of one unit at 192, and an argument list for one byte. -/
def readList : Io where
  sys := (((Sys.empty.place 64 ⟨nil, xTypePairObj, xObjFlagNone, [], [192, 128]⟩).place 128
    ⟨nil, xTypePairObj, xObjFlagNone, [], [256, nil]⟩).place 192
    ⟨nil, xTypeAtomObj, xObjFlagNone, [], [0]⟩).place 256 ⟨nil, xTypeAtomObj, xObjFlagNone, [], [1]⟩
  bytes _ := none
  files _ := []
  asked := []

theorem readList_ready : ReadReady readList.sys nil 64 192 128 256 where
  fd := .inl rfl
  dest := by decide
  more := by decide
  count := by decide
  apart := by decide
  live := by decide

/-- Every call reports its read as it went, if and only if no call comes after an error, and after
a read that fell short none gets as many bytes as the one before it. Calls that keep to this
return. -/
theorem reads_reported_iff (h : ReadReady s.sys b args atom rest cnt)
    (hc : s.sys.unit cnt 0 = some n)
    (hn : 1 ≤ n) (hmax : n ≤ xIntMax) (hroom : n ≤ (s.sys.dataOf atom).length * sizeofObj) :
    (∀ cs s', Reads b args s cs s' →
      ((∀ c ∈ cs, c.Reported n atom) ↔ Unrepeated n n (cs.map (·.answer)))) ∧
    ∀ answers, Unrepeated n n answers → Bounded n answers →
      ∃ cs s', Reads b args s cs s' ∧ cs.map (·.answer) = answers :=
  ⟨fun _ _ hr => hr.reported_iff h hc hmax (.inr (by omega)) le_rfl,
    fun _ hu hb => Reads.exists h hc hmax (.inr (by omega)) le_rfl hroom hu hb⟩

/-- A read that fails is tried again and fails again: the second call asks for `2 ^ 64 - 1` bytes
and returns the destination. -/
theorem reads_reported_fails : ∃ cs s', ReadReady readList.sys nil 64 192 128 256 ∧
    readList.sys.unit 256 0 = some 1 ∧ Reads nil 64 readList cs s' ∧
    cs = [⟨.error, nil, 1⟩, ⟨.error, 192, 2 ^ 64 - 1⟩] ∧ ¬ ∀ c ∈ cs, c.Reported 1 192 := by
  have hc : readList.sys.unit 256 0 = some 1 := by decide
  obtain ⟨s₁, hrun₁, h₁⟩ := xBaseRead_run .error readList_ready hc nofun
  obtain ⟨s₂, hrun₂, h₂⟩ := xBaseRead_run .error h₁.ready h₁.count nofun
  obtain ⟨fd₁, ha₁⟩ := h₁.asked
  obtain ⟨fd₂, ha₂⟩ := h₂.asked
  refine ⟨_, s₂, readList_ready, hc, .cons hrun₁ ha₁ (by decide) (.cons hrun₂ ha₂ (by decide)
    (.nil s₂)), rfl, fun h => ?_⟩
  exact absurd (h ⟨.error, 192, 2 ^ 64 - 1⟩ (.tail _ (.head _))).1 (by decide)

/-- A byte is read, and then there is an error. -/
theorem reads_reported_one : ∃ cs s', Reads nil 64 readList cs s' ∧
    cs.map (·.answer) = [.bytes [65], .error] ∧ ∀ c ∈ cs, c.Reported 1 192 := by
  obtain ⟨hiff, hex⟩ := reads_reported_iff readList_ready
    (by decide : readList.sys.unit 256 0 = some 1)
    le_rfl (by decide) (by decide)
  have hu : Unrepeated 1 1 [.bytes [65], .error] := by simp [Unrepeated, ReadAnswer.result]
  obtain ⟨cs, s', hr, he⟩ := hex [.bytes [65], .error] hu (by simp [Bounded]; decide)
  exact ⟨cs, s', hr, he, (hiff cs s' hr).mpr (he ▸ hu)⟩

end XExpr
