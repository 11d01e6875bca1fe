import XExpr.Str.RoundTrip

/-!
# Numbers one behind the other

`x_lib_strtoint` stores where it stopped, so that the next call can go on from there, and
`x_lib_inttostr` can write over the terminating NUL of what is there before. Here a list of numbers
is written to one array and read back.

* `readInts`, `writeInts`: the calls one after the other.
* `readInts_run`: numerals with white space between them are read as they stand.
* `numbers_read_back`: this for any such text, and for the text that was written.
-/

namespace XExpr

open Digits

/-! ## The calls -/

/-- Calls of `x_lib_strtoint`, each from where the one before it stopped. -/
def readInts (base : Nat) : Nat → Nat → StrM (List Int × Nat)
  | 0, p => return ([], p)
  | n + 1, p => do
    let (num, e) ← xLibStrtoint p true base
    let (nums, q) ← readInts base n (e.getD p)
    return (num :: nums, q)

/-- The terminating NUL of the string at `p`. -/
def strEnd : Nat → Nat → StrM Nat
  | 0, _ => throw .diverge
  | n + 1, p => do
    if (← readChar p) = nul then return p else strEnd n (p + 1)

/-- Calls of `x_lib_inttostr`, each behind a separator that is stored over the NUL at `p`. -/
def writeInts (base : Nat) (sep : XChar) : List Int → Nat → StrM Nat
  | [], p => return p
  | num :: nums, p => do
    writeChar p sep
    let _ ← xLibInttostr num (some (p + 1)) base
    let q ← strEnd (← strPasses) (p + 1)
    writeInts base sep nums q

/-- Numerals, each behind some white space. -/
def spacedText (base : Nat) (l : List (List XChar × Int)) : List XChar :=
  l.flatMap fun x => x.1 ++ intText base x.2

/-- Numerals, each behind the separator. -/
def writtenText (base : Nat) (sep : XChar) (nums : List Int) : List XChar :=
  spacedText base (nums.map fun num => ([sep], num))

section Runs

variable {base n p : Nat} {num : Int} {nums : List Int} {cs ws s rest pre old : List XChar}
  {sep c : XChar} {l : List (List XChar × Int)}

theorem Text.append (h : Text cs p (s ++ rest)) : Text cs (p + s.length) rest := by
  obtain ⟨hn, pre, post, rfl, rfl⟩ := h
  exact ⟨fun hm => hn (List.mem_append_right _ hm), pre ++ s, post, by simp, by simp⟩

/-! ## Reading -/

theorem isDigitOf_space (h : isSpaceChar c = true) : isDigitOf base c = false := by
  have hd : alnumValue c = none := by
    unfold isSpaceChar isspace at h
    simp only [decide_eq_true_eq] at h
    unfold alnumValue
    rw [if_neg (by omega), if_neg (by omega), if_neg (by omega)]
  rw [isDigitOf, hd]
  rfl

/-- A numeral behind white space, and in front of something that does not go on with a digit. -/
theorem parse_spaced (hb : 1 < base) (hb' : base ≤ 36) (hws : ∀ c ∈ ws, isSpaceChar c = true)
    (hrest : ∀ c ∈ rest.head?, isDigitOf base c = false) :
    parse base (ws ++ intText base num ++ rest) =
      ⟨if num < 0 then -1 else 1, base, digitText (numeral base num.natAbs), rest⟩ := by
  have hd : ∀ d ∈ numeral base num.natAbs, d < base := fun d => numeral_lt hb
  obtain ⟨d, ds, hds⟩ := List.exists_cons_of_ne_nil (numeral_ne_nil (b := base) (m := num.natAbs))
  have hd₀ : d < 36 := (hd d (hds ▸ List.mem_cons_self ..)).trans_le hb'
  have hsign : splitSign ((ws ++ intText base num ++ rest).dropWhile isSpaceChar) =
      (if num < 0 then -1 else 1, digitText (numeral base num.natAbs) ++ rest) := by
    rw [List.append_assoc, List.dropWhile_append_of_pos hws]
    unfold intText signText
    split
    · rfl
    · have hspace := lowerDigit_not_space hd₀
      rw [List.nil_append, hds, digitText, List.map_cons, List.cons_append,
        List.dropWhile_cons_of_neg (by rw [hspace]; decide), splitSign,
        if_neg (lowerDigit_ne hd₀).2.1, if_neg (lowerDigit_ne hd₀).2.2]
  have hall : ∀ c ∈ digitText (numeral base num.natAbs), isDigitOf base c = true := fun c hc => by
    obtain ⟨d, hm, rfl⟩ := List.mem_map.mp hc
    exact isDigitOf_lowerDigit (hd d hm) hb'
  have htake : rest.takeWhile (isDigitOf base) = [] := by
    cases rest with
    | nil => rfl
    | cons c rest => exact List.takeWhile_cons_of_neg (by simp [hrest c rfl])
  have hdrop : rest.dropWhile (isDigitOf base) = rest := by
    cases rest with
    | nil => rfl
    | cons c rest => exact List.dropWhile_cons_of_neg (by simp [hrest c rfl])
  unfold parse
  simp only [hsign, splitBase_of_ne (show base ≠ 0 by omega),
    List.takeWhile_append_of_pos hall, List.dropWhile_append_of_pos hall, htake, hdrop,
    List.append_nil]

/-- The parser returns the number, and the end of its numeral. -/
theorem xLibStrtoint_spaced (hb : 1 < base) (hb' : base ≤ 36) (h₁ : xIntMin < num)
    (h₂ : num ≤ xIntMax) (hws : ∀ c ∈ ws, isSpaceChar c = true)
    (hrest : ∀ c ∈ rest.head?, isDigitOf base c = false)
    (h : Text cs p (ws ++ intText base num ++ rest)) :
    xLibStrtoint p true base cs =
      .ok (num, some (p + (ws ++ intText base num).length)) cs := by
  have hparse : parse base (ws ++ intText base num ++ rest) =
      ⟨if num < 0 then -1 else 1, base, digitText (numeral base num.natAbs), rest⟩ :=
    parse_spaced hb hb' hws hrest
  have hval : (parse base (ws ++ intText base num ++ rest)).value = num.natAbs := by
    rw [hparse, Parse.value]
    simp only [map_digitValue hb' fun d => numeral_lt hb, horner_numeral]
  have hmax : ((parse base (ws ++ intText base num ++ rest)).value : Int) ≤ xIntMax := by
    rw [hval]
    unfold xIntMin at h₁
    unfold xIntMax at h₂ ⊢
    omega
  obtain ⟨q, hrun, hq⟩ := xLibStrtoint_run true h hmax
  rw [hrun, hval]
  rw [hparse] at hq ⊢
  change q + rest.length = _ at hq
  have hv : (if num < 0 then -1 else 1) * (num.natAbs : Int) = num := by
    split <;> omega
  rw [List.length_append] at hq
  rw [hv, show q = p + (ws ++ intText base num).length by omega]
  rfl

/-- Numerals apart are read one after the other. -/
theorem readInts_run (hb : 1 < base) (hb' : base ≤ 36)
    (hnum : ∀ x ∈ l, xIntMin < x.2 ∧ x.2 ≤ xIntMax)
    (hspace : ∀ x ∈ l, ∀ c ∈ x.1, isSpaceChar c = true) (happart : ∀ x ∈ l.tail, x.1 ≠ [])
    (hrest : ∀ c ∈ rest.head?, isDigitOf base c = false)
    (h : Text cs p (spacedText base l ++ rest)) :
    readInts base l.length p cs =
      .ok (l.map Prod.snd, p + (spacedText base l).length) cs := by
  induction l generalizing p with
  | nil => rfl
  | cons x l ih =>
    have hsplit : spacedText base (x :: l) ++ rest =
        x.1 ++ intText base x.2 ++ (spacedText base l ++ rest) := by
      simp [spacedText]
    rw [hsplit] at h
    have hhead : ∀ c ∈ (spacedText base l ++ rest).head?, isDigitOf base c = false := by
      cases l with
      | nil => exact hrest
      | cons y l =>
        obtain ⟨c, ws, hy⟩ := List.exists_cons_of_ne_nil (happart y (.head _))
        rintro c' hc'
        obtain rfl : c = c' := by simpa [spacedText, hy] using hc'
        exact isDigitOf_space (hspace y (.tail _ (.head _)) c (hy ▸ .head _))
    have hrun := xLibStrtoint_spaced hb hb' (hnum x (.head _)).1 (hnum x (.head _)).2
      (hspace x (.head _)) hhead h
    have htail := ih (fun y hy => hnum y (.tail _ hy)) (fun y hy => hspace y (.tail _ hy))
      (fun y hy => happart y (List.mem_of_mem_tail hy)) h.append
    rw [List.length_cons, readInts, Prog.bind_of_ok hrun]
    refine (Prog.bind_of_ok htail).trans ?_
    have hlen : (spacedText base (x :: l)).length =
        (x.1 ++ intText base x.2).length + (spacedText base l).length := by
      rw [spacedText, List.flatMap_cons, List.length_append]
      rfl
    rw [hlen, ← Nat.add_assoc]
    rfl

/-! ## Writing -/

theorem strEnd_run (h : Text cs p s) (hn : s.length < n) :
    strEnd n p cs = .ok (p + s.length) cs := by
  induction s generalizing p n with
  | nil =>
    cases n with
    | zero => omega
    | succ n =>
      rw [strEnd, Prog.bind_of_ok h.readChar_nil, if_pos rfl]
      rfl
  | cons c s ih =>
    cases n with
    | zero => omega
    | succ n =>
      have hc : c ≠ nul := fun e => h.notMem (e ▸ List.mem_cons_self ..)
      rw [strEnd, Prog.bind_of_ok h.readChar_cons, if_neg hc, ih h.tail (by simpa using hn),
        List.length_cons, Nat.add_right_comm, Nat.add_assoc]

/-- The numbers as they are written. -/
theorem writeInts_run (hb : 2 ≤ base) (hb' : base ≤ 36)
    (hnum : ∀ num ∈ nums, xIntMin < num ∧ num ≤ xIntMax)
    (hlen : (writtenText base sep nums).length ≤ old.length) :
    writeInts base sep nums pre.length (pre ++ nul :: old) =
      .ok (pre.length + (writtenText base sep nums).length)
        (pre ++ writtenText base sep nums ++
          nul :: old.drop (writtenText base sep nums).length) := by
  induction nums generalizing pre old with
  | nil => simp [writeInts, writtenText, spacedText]
  | cons num nums ih =>
    have hcons : writtenText base sep (num :: nums) =
        sep :: (intText base num ++ writtenText base sep nums) := by
      simp [writtenText, spacedText]
    generalize writtenText base sep nums = t at ih hcons
    rw [hcons, List.length_cons, List.length_append] at hlen ⊢
    have hp : pre.length + 1 = (pre ++ [sep]).length := by simp
    have hprint := xLibInttostr_run hb hb' (hnum num (.head _)).1 (hnum num (.head _)).2 hp
      (show (intText base num).length < old.length by omega)
    have htext : Text (pre ++ [sep] ++ intText base num ++
        nul :: old.drop ((intText base num).length + 1)) (pre.length + 1) (intText base num) :=
      ⟨nul_notMem_intText hb hb', _, _, rfl, hp.symm⟩
    have hnext := @ih (pre ++ [sep] ++ intText base num) (old.drop ((intText base num).length + 1))
      (fun n hn => hnum n (.tail _ hn)) (by rw [List.length_drop]; omega)
    rw [writeInts, Prog.bind_of_ok (writeChar_at rfl),
      show pre ++ sep :: old = (pre ++ [sep]) ++ old by simp, Prog.bind_of_ok hprint,
      Prog.bind_of_ok strPasses_run, Prog.bind_of_ok (strEnd_run htext htext.lt_passes),
      hp, ← List.length_append, hnext, List.drop_drop]
    simp [Nat.add_comm, Nat.add_left_comm]

theorem nul_notMem_spacedText (hb : 1 < base) (hb' : base ≤ 36)
    (hspace : ∀ x ∈ l, ∀ c ∈ x.1, isSpaceChar c = true) : nul ∉ spacedText base l := by
  intro hm
  obtain ⟨x, hx, hm⟩ := List.mem_flatMap.mp hm
  rcases List.mem_append.mp hm with hm | hm
  · exact absurd (hspace x hx nul hm) (by decide)
  · exact nul_notMem_intText hb hb' hm

/-- Numerals apart in any text are read as they stand; and numbers that are written into an array
behind a string, with white space between them, are read back. -/
theorem numbers_read_back (hb : 2 ≤ base) (hb' : base ≤ 36) :
    (∀ l rest p cs, (∀ x ∈ l, xIntMin < x.2 ∧ x.2 ≤ xIntMax) →
      (∀ x ∈ l, ∀ c ∈ x.1, isSpaceChar c = true) → (∀ x ∈ l.tail, x.1 ≠ []) →
      (∀ c ∈ rest.head?, isDigitOf base c = false) → Text cs p (spacedText base l ++ rest) →
      readInts base l.length p cs =
        .ok (l.map Prod.snd, p + (spacedText base l).length) cs) ∧
    ∀ nums sep (pre old : List XChar), (∀ num ∈ nums, xIntMin < num ∧ num ≤ xIntMax) →
      isSpaceChar sep = true → (writtenText base sep nums).length ≤ old.length → ∃ cs e,
        writeInts base sep nums pre.length (pre ++ nul :: old) = .ok e cs ∧
        cs[e]? = some nul ∧ cs.take pre.length = pre ∧
        readInts base nums.length pre.length cs = .ok (nums, e) cs := by
  refine ⟨fun l rest p cs hnum hspace happart hrest h =>
    readInts_run hb hb' hnum hspace happart hrest h, fun nums sep pre old hnum hsep hlen => ?_⟩
  refine ⟨_, _, writeInts_run hb hb' hnum hlen, ?_, by simp, ?_⟩
  · rw [← List.length_append]
    simp
  · have hspace : ∀ x ∈ nums.map fun num => ([sep], num), ∀ c ∈ x.1, isSpaceChar c = true := by
      intro x hx c hc
      obtain ⟨num, -, rfl⟩ := List.mem_map.mp hx
      exact List.mem_singleton.mp hc ▸ hsep
    have happart : ∀ x ∈ nums.map fun num => ([sep], num), x.1 ≠ [] := by
      intro x hx
      obtain ⟨num, -, rfl⟩ := List.mem_map.mp hx
      exact List.cons_ne_nil _ _
    have htext : Text (pre ++ writtenText base sep nums ++
          nul :: old.drop (writtenText base sep nums).length) pre.length
        (writtenText base sep nums ++ []) := by
      rw [List.append_nil]
      exact ⟨nul_notMem_spacedText hb hb' hspace, pre, _, rfl, rfl⟩
    have hrun := readInts_run hb hb' (by simpa using hnum) hspace
      (fun x hx => happart x (List.mem_of_mem_tail hx)) (by simp) htext
    simpa [writtenText, Function.comp_def] using hrun

end Runs

theorem numbers_read_back_two : ∃ cs e,
    writeInts 16 32 [-255, 7] 0 (nul :: List.replicate 8 nul) = .ok e cs ∧
    cs[e]? = some nul ∧ readInts 16 2 0 cs = .ok ([-255, 7], e) cs := by
  obtain ⟨cs, e, hw, hnul, -, hr⟩ := (@numbers_read_back 16 (by decide) (by decide)).2
    [-255, 7] 32 [] (List.replicate 8 nul) (by decide) (by decide) (by decide)
  exact ⟨cs, e, hw, hnul, hr⟩

end XExpr
