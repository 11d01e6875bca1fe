import Mathlib.Data.List.TakeWhile
import XExpr.Str.StrToInt

/-!
# The two builds of `x_lib_strtoint`

With `X_USE_STDLIB` the function is `strtol`. ISO C defines `strtol` by the subject sequence, the
longest initial part of the string, from its first character on that is no white space, that is of
the expected form.

* `Subject`, `Strtol`: the expected form, and what `strtol` returns and stores.
* `unsigned_hex`, `unsigned_plain`: the initial parts of a string that are of the expected form.
* `Strtol.hex`, `Strtol.plain`: the value and the end, computed from the longest of them.
* `strtol_agrees_iff`: the strings on which the two builds agree.
-/

namespace XExpr

open Digits

/-! ## `strtol` -/

/-- `x` or `X`. -/
def IsX (x : XChar) : Prop := x = 120 ∨ x = 88

/-- All characters are digits or letters of the base. -/
def AllDigits (base : Nat) (ds : List XChar) : Prop := ∀ c ∈ ds, isDigitOf base c = true

/-- `u` is of the expected form for the base, without a sign; its radix and its digits. -/
inductive Unsigned (base : Nat) : List XChar → Nat → List XChar → Prop
  | given {ds : List XChar} (hb : base ≠ 0) (hne : ds ≠ []) (hd : AllDigits base ds) :
      Unsigned base ds base ds
  /-- With base 16 a prefix is optional; with base 0 it makes a hexadecimal constant. -/
  | hex {x : XChar} {ds : List XChar} (hb : base = 0 ∨ base = 16) (hx : IsX x) (hne : ds ≠ [])
      (hd : AllDigits 16 ds) : Unsigned base (48 :: x :: ds) 16 ds
  | decimal {c : XChar} {ds : List XChar} (hb : base = 0) (hc : c ≠ 48)
      (hd : AllDigits 10 (c :: ds)) : Unsigned base (c :: ds) 10 (c :: ds)
  | octal {ds : List XChar} (hb : base = 0) (hd : AllDigits 8 ds) :
      Unsigned base (48 :: ds) 8 (48 :: ds)

/-- An optional sign. -/
def IsSign (sg : List XChar) (sign : Int) : Prop :=
  sg = [] ∧ sign = 1 ∨ sg = [43] ∧ sign = 1 ∨ sg = [45] ∧ sign = -1

/-- The expected form of a subject sequence, and its value. -/
def Subject (base : Nat) (t : List XChar) (v : Int) : Prop :=
  ∃ sg sign u r ds, t = sg ++ u ∧ IsSign sg sign ∧ Unsigned base u r ds ∧
    v = sign * horner r (ds.map digitValue)

/-- `strtol` returns `v` and stores the end `e`, an index of the string `s`. -/
inductive Strtol (base : Nat) (s : List XChar) : Int → Nat → Prop
  | converted {t : List XChar} {v : Int} (ht : t <+: s.dropWhile isSpaceChar)
      (hv : Subject base t v)
      (hmax : ∀ t', t' <+: s.dropWhile isSpaceChar → (∃ v', Subject base t' v') →
        t'.length ≤ t.length) :
      Strtol base s v ((s.takeWhile isSpaceChar).length + t.length)
  | none (h : ∀ t, t <+: s.dropWhile isSpaceChar → ¬∃ v, Subject base t v) : Strtol base s 0 0

/-! ## The parts of the expected form -/

section Forms

variable {base r : Nat} {s t u ds : List XChar} {x h : XChar} {v : Int} {e : Nat}

/-- A hexadecimal prefix with a digit behind it. -/
def HexPrefix (t : List XChar) : Prop :=
  ∃ x h r, t = 48 :: x :: h :: r ∧ IsX x ∧ isDigitOf 16 h = true

theorem prefix_takeWhile {p : XChar → Bool} (h : u <+: t) (hu : ∀ c ∈ u, p c = true) :
    u <+: t.takeWhile p := by
  obtain ⟨r, rfl⟩ := h
  rw [List.takeWhile_append_of_pos hu]
  exact List.prefix_append ..

theorem allDigits_takeWhile : AllDigits base (t.takeWhile (isDigitOf base)) :=
  fun _ hc => List.mem_takeWhile_imp hc

theorem isX_not_digit (hx : IsX x) (hb : base ≤ 33) : isDigitOf base x = false := by
  have h33 : alnumValue x = some 33 := by rcases hx with rfl | rfl <;> rfl
  rw [isDigitOf, h33, Option.any_some, decide_eq_false_iff_not]
  omega

theorem Unsigned.ne_nil (hu : Unsigned base u r ds) : u ≠ [] := by
  cases hu with
  | given _ hne _ => exact hne
  | hex => simp
  | decimal => simp
  | octal => simp

/-- A form does not start with a sign. -/
theorem Unsigned.head (hu : Unsigned base u r ds) (c : XChar) (hc : u.head? = some c) :
    c ≠ 43 ∧ c ≠ 45 := by
  have hdigit : ∀ b, isDigitOf b c = true → c ≠ 43 ∧ c ≠ 45 := by
    intro b hb
    obtain ⟨d, hd, -⟩ := isDigitOf_iff.mp hb
    constructor <;> rintro rfl <;> cases hd
  cases hu with
  | given _ _ hd => exact hdigit _ (hd c (List.mem_of_mem_head? hc))
  | hex => obtain rfl := Option.some.inj hc; decide
  | decimal _ _ hd => exact hdigit _ (hd c (List.mem_of_mem_head? hc))
  | octal => obtain rfl := Option.some.inj hc; decide

/-- With a prefix that a digit follows, the forms are a `0` and the prefix with digits. -/
theorem unsigned_hex (hb : base = 0 ∨ base = 16) (hx : IsX x) (hu : Unsigned base u r ds)
    (hpre : u <+: 48 :: x :: t) :
    u = [48] ∨ r = 16 ∧ u = 48 :: x :: ds ∧ ds <+: t.takeWhile (isDigitOf 16) := by
  cases hu with
  | given hb₀ hne hd =>
    left
    obtain ⟨c, u, rfl⟩ := List.exists_cons_of_ne_nil hne
    obtain ⟨rfl, hpre₁⟩ := List.cons_prefix_cons.mp hpre
    cases u with
    | nil => rfl
    | cons y u =>
      have hy : y = x := (List.cons_prefix_cons.mp hpre₁).1
      have := hd y (by simp)
      rw [hy] at this
      rw [isX_not_digit hx (by omega)] at this
      cases this
  | hex hb₀ hx₀ hne hd =>
    right
    obtain ⟨-, hpre₁⟩ := List.cons_prefix_cons.mp hpre
    obtain ⟨rfl, hpre₂⟩ := List.cons_prefix_cons.mp hpre₁
    exact ⟨rfl, rfl, prefix_takeWhile hpre₂ hd⟩
  | decimal hb₀ hc hd => exact absurd (List.cons_prefix_cons.mp hpre).1 hc
  | @octal ds hb₀ hd =>
    left
    obtain ⟨-, hpre₁⟩ := List.cons_prefix_cons.mp hpre
    cases ds with
    | nil => rfl
    | cons y ds =>
      have hy : y = x := (List.cons_prefix_cons.mp hpre₁).1
      have := hd y (by simp)
      rw [hy] at this
      rw [isX_not_digit hx (by omega)] at this
      cases this

/-- The radix of a string without such a prefix. -/
def plainRadix (base : Nat) (t : List XChar) : Nat :=
  if base ≠ 0 then base else if t.head? = some 48 then 8 else 10

/-- Without such a prefix, the forms are runs of digits. -/
theorem unsigned_plain (hp : ¬((base = 0 ∨ base = 16) ∧ HexPrefix t)) (hu : Unsigned base u r ds)
    (hpre : u <+: t) :
    r = plainRadix base t ∧ ds = u ∧ u <+: t.takeWhile (isDigitOf (plainRadix base t)) := by
  unfold plainRadix
  cases hu with
  | given hb hne hd =>
    rw [if_pos hb]
    exact ⟨rfl, rfl, prefix_takeWhile hpre hd⟩
  | @hex x ds hb hx hne hd =>
    obtain ⟨h, ds, rfl⟩ := List.exists_cons_of_ne_nil hne
    obtain ⟨rest, rfl⟩ := hpre
    exact absurd ⟨hb, x, h, _, rfl, hx, hd h (by simp)⟩ hp
  | @decimal c ds hb hc hd =>
    have hhead : t.head? = some c := by
      obtain ⟨rest, rfl⟩ := hpre
      rfl
    rw [if_neg (not_not.mpr hb), hhead, if_neg (by simpa using hc)]
    exact ⟨rfl, rfl, prefix_takeWhile hpre hd⟩
  | @octal ds hb hd =>
    have hhead : t.head? = some 48 := by
      obtain ⟨rest, rfl⟩ := hpre
      rfl
    rw [if_neg (not_not.mpr hb), if_pos hhead]
    refine ⟨rfl, rfl, prefix_takeWhile hpre fun c hc => ?_⟩
    rcases List.mem_cons.mp hc with rfl | hc
    · decide
    · exact hd c hc

/-- A run of digits of the radix is a form. -/
theorem unsigned_takeWhile
    (hne : t.takeWhile (isDigitOf (plainRadix base t)) ≠ []) :
    Unsigned base (t.takeWhile (isDigitOf (plainRadix base t))) (plainRadix base t)
      (t.takeWhile (isDigitOf (plainRadix base t))) := by
  by_cases hb : base = 0
  · cases t with
    | nil => exact absurd rfl hne
    | cons c t =>
      by_cases hc : c = 48
      · subst hc
        have hr : plainRadix base (48 :: t) = 8 := by simp [plainRadix, hb]
        rw [hr, List.takeWhile_cons_of_pos (by decide)]
        exact .octal hb allDigits_takeWhile
      · have hr : plainRadix base (c :: t) = 10 := by
          rw [plainRadix, if_neg (not_not.mpr hb), List.head?_cons,
            if_neg (fun e => hc (Option.some.inj e))]
        rw [hr] at hne ⊢
        by_cases hd : isDigitOf 10 c = true
        · rw [List.takeWhile_cons_of_pos hd]
          refine .decimal hb hc fun y hy => ?_
          rcases List.mem_cons.mp hy with rfl | hy
          · exact hd
          · exact allDigits_takeWhile y hy
        · rw [List.takeWhile_cons_of_neg hd] at hne
          exact absurd rfl hne
  · have hr : plainRadix base t = base := by simp [plainRadix, hb]
    rw [hr] at hne ⊢
    exact .given hb hne allDigits_takeWhile

/-! ### With a sign -/

theorem splitSign_eq (t : List XChar) :
    ∃ sg, IsSign sg (splitSign t).1 ∧ t = sg ++ (splitSign t).2 := by
  cases t with
  | nil => exact ⟨[], .inl ⟨rfl, rfl⟩, rfl⟩
  | cons c t =>
    rw [splitSign]
    split_ifs with hp hm
    · exact ⟨[43], .inr (.inl ⟨rfl, rfl⟩), by rw [hp]; rfl⟩
    · exact ⟨[45], .inr (.inr ⟨rfl, rfl⟩), by rw [hm]; rfl⟩
    · exact ⟨[], .inl ⟨rfl, rfl⟩, rfl⟩

/-- The sign of a form is the sign of the string. -/
theorem splitSign_of_prefix {sg : List XChar} {sign : Int} (hs : IsSign sg sign)
    (hu : Unsigned base u r ds) (hpre : sg ++ u <+: t) :
    sign = (splitSign t).1 ∧ t = sg ++ (splitSign t).2 := by
  obtain ⟨c, u', rfl⟩ := List.exists_cons_of_ne_nil hu.ne_nil
  obtain ⟨hc₁, hc₂⟩ := hu.head c rfl
  obtain ⟨rest, rfl⟩ := hpre
  rcases hs with ⟨rfl, rfl⟩ | ⟨rfl, rfl⟩ | ⟨rfl, rfl⟩
  · rw [List.nil_append, List.cons_append, splitSign, if_neg hc₁, if_neg hc₂]
    exact ⟨rfl, rfl⟩
  · exact ⟨rfl, rfl⟩
  · exact ⟨rfl, rfl⟩

/-- The subject sequences at the front of a string are its sign and the forms behind it. -/
theorem subject_iff {pre sg : List XChar} (hsg : t = sg ++ (splitSign t).2) :
    pre <+: t ∧ Subject base pre v ↔ ∃ u r ds, pre = sg ++ u ∧ u <+: (splitSign t).2 ∧
      Unsigned base u r ds ∧ v = (splitSign t).1 * horner r (ds.map digitValue) := by
  constructor
  · rintro ⟨hpre, sg', sign, u, r, ds, rfl, hs, hu, rfl⟩
    obtain ⟨rfl, ht⟩ := splitSign_of_prefix hs hu hpre
    obtain rfl : sg = sg' := List.append_cancel_right (hsg.symm.trans ht)
    refine ⟨u, r, ds, rfl, ?_, hu, rfl⟩
    rw [hsg] at hpre
    exact (List.prefix_append_right_inj sg).mp hpre
  · rintro ⟨u, r, ds, rfl, hpre, hu, rfl⟩
    obtain ⟨sg', hs, ht⟩ := splitSign_eq t
    obtain rfl : sg = sg' := List.append_cancel_right (hsg.symm.trans ht)
    refine ⟨?_, sg, _, u, r, ds, rfl, hs, hu, rfl⟩
    have h := (List.prefix_append_right_inj sg).mpr hpre
    rwa [← hsg] at h

/-! ### The longest one -/

/-- The string behind its white space and its sign. -/
def unsignedPart (s : List XChar) : List XChar := (splitSign (s.dropWhile isSpaceChar)).2

/-- The sign of the string. -/
def signPart (s : List XChar) : Int := (splitSign (s.dropWhile isSpaceChar)).1

/-- What `strtol` computes, in terms of the forms behind the sign. -/
theorem Strtol.cases (h : Strtol base s v e) :
    (∃ u r ds, u <+: unsignedPart s ∧ Unsigned base u r ds ∧
      v = signPart s * horner r (ds.map digitValue) ∧
      e + (unsignedPart s).length = s.length + u.length ∧
      ∀ u' r' ds', u' <+: unsignedPart s → Unsigned base u' r' ds' → u'.length ≤ u.length) ∨
    v = 0 ∧ e = 0 ∧ ∀ u r ds, u <+: unsignedPart s → ¬Unsigned base u r ds := by
  obtain ⟨sg, -, hsg⟩ := splitSign_eq (s.dropWhile isSpaceChar)
  cases h with
  | @converted t _ ht hv hmax =>
    left
    obtain ⟨u, r, ds, rfl, hpre, hu, hval⟩ := (subject_iff hsg).mp ⟨ht, hv⟩
    refine ⟨u, r, ds, hpre, hu, hval, ?_, fun u' r' ds' hpre' hu' => ?_⟩
    · have h₁ := congrArg List.length (List.takeWhile_append_dropWhile (p := isSpaceChar) (l := s))
      have h₂ := congrArg List.length hsg
      rw [List.length_append] at h₁ h₂
      rw [unsignedPart, List.length_append]
      omega
    · obtain ⟨ht', hv'⟩ := (subject_iff hsg).mpr ⟨u', r', ds', rfl, hpre', hu', rfl⟩
      have := hmax _ ht' ⟨_, hv'⟩
      simpa using this
  | none hnone =>
    right
    refine ⟨rfl, rfl, fun u r ds hpre hu => ?_⟩
    obtain ⟨ht, hv⟩ := (subject_iff hsg).mpr ⟨u, r, ds, rfl, hpre, hu, rfl⟩
    exact hnone _ ht ⟨_, hv⟩

/-- With a hexadecimal prefix. -/
theorem Strtol.hex (h : Strtol base s v e) (hb : base = 0 ∨ base = 16) (hx : IsX x)
    (hp : unsignedPart s = 48 :: x :: t) (hne : t.takeWhile (isDigitOf 16) ≠ []) :
    v = signPart s * horner 16 ((t.takeWhile (isDigitOf 16)).map digitValue) ∧
      e + t.length = s.length + (t.takeWhile (isDigitOf 16)).length := by
  have hfull : Unsigned base (48 :: x :: t.takeWhile (isDigitOf 16)) 16
      (t.takeWhile (isDigitOf 16)) := .hex hb hx hne allDigits_takeWhile
  have hpre : 48 :: x :: t.takeWhile (isDigitOf 16) <+: unsignedPart s := by
    rw [hp]
    exact List.cons_prefix_cons.mpr ⟨rfl, List.cons_prefix_cons.mpr ⟨rfl, List.takeWhile_prefix _⟩⟩
  rcases h.cases with ⟨u, r, ds, hu, hform, hv, he, hmax⟩ | ⟨-, -, hnone⟩
  · have hlen := hmax _ _ _ hpre hfull
    rw [hp] at hu he
    rcases unsigned_hex hb hx hform hu with rfl | ⟨rfl, rfl, hds⟩
    · simp at hlen
    · have hds' : ds = t.takeWhile (isDigitOf 16) :=
        hds.eq_of_length_le (by simpa using hlen)
      subst hds'
      refine ⟨hv, ?_⟩
      simp only [List.length_cons] at he
      omega
  · exact absurd hfull (hnone _ _ _ hpre)

/-- Without a hexadecimal prefix. -/
theorem Strtol.plain (h : Strtol base s v e)
    (hp : ¬((base = 0 ∨ base = 16) ∧ HexPrefix (unsignedPart s)))
    (hds : (unsignedPart s).takeWhile (isDigitOf (plainRadix base (unsignedPart s))) = ds) :
    ds = [] ∧ v = 0 ∧ e = 0 ∨
    ds ≠ [] ∧ v = signPart s * horner (plainRadix base (unsignedPart s)) (ds.map digitValue) ∧
      e + (unsignedPart s).length = s.length + ds.length := by
  have hfull := @unsigned_takeWhile base (unsignedPart s)
  have hpre := List.takeWhile_prefix (l := unsignedPart s)
    (isDigitOf (plainRadix base (unsignedPart s)))
  rw [hds] at hfull hpre
  rcases h.cases with ⟨u, r, ds', hu, hform, hv, he, hmax⟩ | ⟨rfl, rfl, hnone⟩
  · right
    obtain ⟨rfl, rfl, hu'⟩ := unsigned_plain hp hform hu
    rw [hds] at hu'
    have hne : ds ≠ [] := fun e => hform.ne_nil (List.prefix_nil.mp (e ▸ hu'))
    have hlen := hmax _ _ _ hpre (hfull hne)
    obtain rfl := hu'.eq_of_length_le hlen
    exact ⟨hne, hv, he⟩
  · left
    refine ⟨?_, rfl, rfl⟩
    by_contra hne
    exact hnone _ _ _ hpre (hfull hne)

end Forms

/-! ## Where the builds agree -/

section Agree

variable {base p : Nat} {s t r cs : List XChar} {x h : XChar} {v : Int} {e : Nat}

theorem xLibStrtoint_eq_iff (h : Text cs p s) :
    xLibStrtoint p true base cs = .ok (v, some (p + e)) cs ↔
      ((parse base s).value : Int) ≤ xIntMax ∧ signPart s * (parse base s).value = v ∧
        e + (parse base s).rest.length = s.length := by
  by_cases hmax : ((parse base s).value : Int) ≤ xIntMax
  · obtain ⟨q, hrun, hq⟩ := xLibStrtoint_run true h hmax
    rw [hrun]
    constructor
    · intro heq
      cases heq
      exact ⟨hmax, rfl, by omega⟩
    · rintro ⟨-, rfl, he⟩
      rw [show q = p + e by omega]
      rfl
  · obtain ⟨w, hrun⟩ := xLibStrtoint_overflow true h (not_le.mp hmax)
    rw [hrun]
    simp [hmax]

/-- Only the minimum has a magnitude that `x_int_t` does not hold. -/
theorem magnitude_le_iff {m : Nat} (hv : v = signPart s * m) (h₁ : xIntMin ≤ v)
    (h₂ : v ≤ xIntMax) : (m : Int) ≤ xIntMax ↔ v ≠ xIntMin := by
  unfold xIntMin xIntMax at *
  rcases splitSign_cases (s.dropWhile isSpaceChar) with hs | hs
  · rw [show signPart s = 1 from hs] at hv
    omega
  · rw [show signPart s = -1 from hs] at hv
    omega

/-- The unsigned part is the string itself, or shorter. -/
theorem unsignedPart_eq_iff : (unsignedPart s).length = s.length ↔ unsignedPart s = s :=
  ⟨(splitSign_suffix.trans (List.dropWhile_suffix _)).eq_of_length, congrArg List.length⟩

/-- A prefix that no digit follows. -/
def LonePrefix (t : List XChar) : Prop := (∃ x r, t = 48 :: x :: r ∧ IsX x) ∧ ¬HexPrefix t

/-- The two builds read the string alike: it has no hexadecimal prefix if base 16 is given, no
prefix without digits if the base is to be detected, something but digits only if nothing is
skipped before it, and its value is not the minimum. -/
structure BuildsAgree (base : Nat) (s : List XChar) (v : Int) : Prop where
  given : ¬(base = 16 ∧ HexPrefix (unsignedPart s))
  lone : ¬(base = 0 ∧ LonePrefix (unsignedPart s))
  digits : (∃ c ∈ (unsignedPart s).head?,
    isDigitOf (plainRadix base (unsignedPart s)) c = true) ∨ unsignedPart s = s
  notMin : v ≠ xIntMin

theorem takeWhile_hex_ne (hh : isDigitOf 16 h = true) :
    (h :: r).takeWhile (isDigitOf 16) ≠ [] := by
  rw [List.takeWhile_cons_of_pos hh]
  exact List.cons_ne_nil _ _

/-- What the parser reads behind the sign, once the base is found. -/
theorem parse_of_splitBase {b : Nat} (h : splitBase base (unsignedPart s) = (b, t)) :
    (parse base s).value = horner b ((t.takeWhile (isDigitOf b)).map digitValue) ∧
      (t.takeWhile (isDigitOf b)).length + (parse base s).rest.length = t.length := by
  have hp : parse base s =
      ⟨signPart s, b, t.takeWhile (isDigitOf b), t.dropWhile (isDigitOf b)⟩ := by
    unfold unsignedPart at h
    simp only [parse, h, signPart]
  have hlen := congrArg List.length
    (List.takeWhile_append_dropWhile (p := isDigitOf b) (l := t))
  rw [List.length_append] at hlen
  rw [hp]
  exact ⟨rfl, hlen⟩

theorem splitBase_hex (hx : IsX x) : splitBase 0 (48 :: x :: r) = (16, r) := by
  have hx' : (x :: r).head? = some 120 ∨ (x :: r).head? = some 88 :=
    hx.imp (congrArg some) (congrArg some)
  rw [splitBase, if_neg (not_not.mpr rfl), if_pos rfl, if_pos hx']
  rfl

/-- With base 16 given, a prefix is read as the number zero. -/
theorem agree_given (ht : Text cs p s) (hs : Strtol 16 s v e) (hp : HexPrefix (unsignedPart s)) :
    xLibStrtoint p true 16 cs ≠ .ok (v, some (p + e)) cs := by
  obtain ⟨x, h, r, hu, hx, hh⟩ := hp
  obtain ⟨-, he⟩ := hs.hex (.inr rfl) hx hu (takeWhile_hex_ne hh)
  obtain ⟨-, hrest⟩ :=
    parse_of_splitBase (splitBase_of_ne (s := unsignedPart s) (show 16 ≠ 0 by decide))
  rw [hu, List.takeWhile_cons_of_pos (by decide), List.takeWhile_cons_of_neg
    (by rw [isX_not_digit hx (by decide)]; decide)] at hrest
  rw [ne_eq, xLibStrtoint_eq_iff ht]
  rintro ⟨-, -, hlen⟩
  simp only [List.length_cons, List.length_nil] at he hlen hrest
  omega

/-- With the base to be detected, a prefix and its digits are read alike. -/
theorem agree_hex (ht : Text cs p s) (hs : Strtol 0 s v e) (hp : HexPrefix (unsignedPart s))
    (h₁ : xIntMin ≤ v) (h₂ : v ≤ xIntMax) :
    xLibStrtoint p true 0 cs = .ok (v, some (p + e)) cs ↔ v ≠ xIntMin := by
  obtain ⟨x, h, r, hu, hx, hh⟩ := hp
  obtain ⟨hv, he⟩ := hs.hex (.inl rfl) hx hu (takeWhile_hex_ne hh)
  obtain ⟨hvalue, hrest⟩ := parse_of_splitBase ((congrArg _ hu).trans (splitBase_hex hx))
  rw [xLibStrtoint_eq_iff ht, hvalue, ← magnitude_le_iff hv h₁ h₂]
  exact ⟨And.left, fun hmax => ⟨hmax, hv.symm, by omega⟩⟩

/-- A prefix without digits is consumed, where `strtol` reads the `0` only. -/
theorem agree_lone (ht : Text cs p s) (hs : Strtol 0 s v e) (hp : LonePrefix (unsignedPart s)) :
    xLibStrtoint p true 0 cs ≠ .ok (v, some (p + e)) cs := by
  obtain ⟨⟨x, r, hu, hx⟩, hp⟩ := hp
  obtain ⟨-, hrest⟩ := parse_of_splitBase ((congrArg _ hu).trans (splitBase_hex hx))
  have hnone : r.takeWhile (isDigitOf 16) = [] := by
    cases r with
    | nil => rfl
    | cons h r =>
      refine List.takeWhile_cons_of_neg fun hh => hp ⟨x, h, r, hu, hx, hh⟩
  have hds : (unsignedPart s).takeWhile (isDigitOf (plainRadix 0 (unsignedPart s))) = [48] := by
    have hr : plainRadix 0 (unsignedPart s) = 8 := by
      rw [plainRadix, if_neg (not_not.mpr rfl), hu, List.head?_cons, if_pos rfl]
    rw [hr, hu, List.takeWhile_cons_of_pos (by decide), List.takeWhile_cons_of_neg
      (by rw [isX_not_digit hx (by decide)]; decide)]
  rcases hs.plain (fun h => hp h.2) hds with ⟨h, -⟩ | ⟨-, -, he⟩
  · cases h
  · rw [ne_eq, xLibStrtoint_eq_iff ht]
    rintro ⟨-, -, hlen⟩
    rw [hnone] at hrest
    rw [hu] at he
    simp only [List.length_cons, List.length_nil] at he hlen hrest
    omega

/-- Without a prefix the parser reads the digits of the radix. -/
theorem parse_plain (hp : ¬((base = 0 ∨ base = 16) ∧ HexPrefix (unsignedPart s)))
    (hl : ¬(base = 0 ∧ LonePrefix (unsignedPart s)))
    (hds : (unsignedPart s).takeWhile (isDigitOf (plainRadix base (unsignedPart s))) = r) :
    (parse base s).value = horner (plainRadix base (unsignedPart s)) (r.map digitValue) ∧
      r.length + (parse base s).rest.length = (unsignedPart s).length := by
  subst hds
  by_cases hb : base = 0
  · subst hb
    generalize hu : unsignedPart s = u at *
    have hr : plainRadix 0 u = if u.head? = some 48 then 8 else 10 := if_neg (not_not.mpr rfl)
    cases u with
    | nil => exact parse_of_splitBase ((congrArg _ hu).trans rfl)
    | cons c u =>
      rw [List.head?_cons] at hr
      by_cases hc : c = 48
      · -- An octal constant: the parser takes the `0` off, which does not change the value.
        subst hc
        rw [if_pos rfl] at hr
        have hx : ¬(u.head? = some 120 ∨ u.head? = some 88) := fun hx => by
          obtain ⟨x, u, rfl⟩ : ∃ x u', u = x :: u' := by
            cases u with
            | nil => simp at hx
            | cons x u => exact ⟨x, u, rfl⟩
          have hx' : IsX x := hx.imp Option.some.inj Option.some.inj
          exact hl ⟨rfl, ⟨x, u, rfl, hx'⟩, fun h => hp ⟨.inl rfl, h⟩⟩
        have hsplit : splitBase 0 (unsignedPart s) = (8, u) := by
          rw [hu, splitBase, if_neg (not_not.mpr rfl), if_pos rfl, if_neg hx]
        obtain ⟨hvalue, hrest⟩ := parse_of_splitBase hsplit
        rw [hr, List.takeWhile_cons_of_pos (by decide)]
        refine ⟨hvalue, ?_⟩
        simp only [List.length_cons]
        omega
      · rw [if_neg fun h => hc (Option.some.inj h)] at hr
        have hsplit : splitBase 0 (unsignedPart s) = (10, c :: u) := by
          rw [hu, splitBase, if_neg (not_not.mpr rfl), if_neg hc]
        rw [hr]
        exact parse_of_splitBase hsplit
  · have hr : plainRadix base (unsignedPart s) = base := if_pos hb
    rw [hr]
    exact parse_of_splitBase (splitBase_of_ne hb)

/-- Without a prefix the builds read alike, unless there are no digits. -/
theorem agree_plain (ht : Text cs p s) (hs : Strtol base s v e)
    (hp : ¬((base = 0 ∨ base = 16) ∧ HexPrefix (unsignedPart s)))
    (hl : ¬(base = 0 ∧ LonePrefix (unsignedPart s))) (h₁ : xIntMin ≤ v) (h₂ : v ≤ xIntMax) :
    xLibStrtoint p true base cs = .ok (v, some (p + e)) cs ↔
      ((∃ c ∈ (unsignedPart s).head?, isDigitOf (plainRadix base (unsignedPart s)) c = true) ∨
        unsignedPart s = s) ∧ v ≠ xIntMin := by
  obtain ⟨hvalue, hrest⟩ := parse_plain hp hl rfl
  rw [xLibStrtoint_eq_iff ht, hvalue]
  have hhead : (unsignedPart s).takeWhile (isDigitOf (plainRadix base (unsignedPart s))) = [] ↔
      ¬∃ c ∈ (unsignedPart s).head?, isDigitOf (plainRadix base (unsignedPart s)) c = true := by
    cases unsignedPart s with
    | nil => simp
    | cons c u => simp [List.takeWhile_cons]
  rcases hs.plain hp rfl with ⟨hnil, rfl, rfl⟩ | ⟨hne, hv, he⟩
  · rw [hnil] at hrest ⊢
    rw [or_iff_right (hhead.mp hnil), ← unsignedPart_eq_iff]
    have hmin : (0 : Int) ≠ xIntMin := by decide
    have hmax : (0 : Int) ≤ xIntMax := by decide
    simp only [List.map_nil, List.length_nil, horner, hornerFrom_nil, Nat.cast_zero, mul_zero,
      hmin, hmax, ne_eq, not_false_eq_true, true_and, and_true] at hrest ⊢
    omega
  · have hdigit := not_not.mp (mt hhead.mpr hne)
    rw [← magnitude_le_iff hv h₁ h₂]
    exact ⟨fun h => ⟨.inl hdigit, h.1⟩, fun h => ⟨h.2, hv.symm, by omega⟩⟩

/-- The freestanding build returns and stores what `strtol` does exactly if the string is read
alike. -/
theorem strtol_agrees_iff (ht : Text cs p s) (hs : Strtol base s v e) (h₁ : xIntMin ≤ v)
    (h₂ : v ≤ xIntMax) :
    xLibStrtoint p true base cs = .ok (v, some (p + e)) cs ↔ BuildsAgree base s v := by
  by_cases hg : base = 16 ∧ HexPrefix (unsignedPart s)
  · obtain ⟨rfl, hp⟩ := hg
    exact iff_of_false (agree_given ht hs hp) fun h => h.given ⟨rfl, hp⟩
  by_cases hl : base = 0 ∧ LonePrefix (unsignedPart s)
  · obtain ⟨rfl, hl⟩ := hl
    exact iff_of_false (agree_lone ht hs hl) fun h => h.lone ⟨rfl, hl⟩
  by_cases hp : base = 0 ∧ HexPrefix (unsignedPart s)
  · obtain ⟨rfl, hp⟩ := hp
    rw [agree_hex ht hs hp h₁ h₂]
    refine ⟨fun hv => ⟨hg, hl, .inl ?_, hv⟩, BuildsAgree.notMin⟩
    obtain ⟨x, h, r, hu, -⟩ := hp
    have hr : plainRadix 0 (48 :: x :: h :: r) = 8 := rfl
    rw [hu, hr]
    exact ⟨48, rfl, by decide⟩
  · rw [agree_plain ht hs (fun h => h.1.elim (fun e => hp ⟨e, h.2⟩) fun e => hg ⟨e, h.2⟩) hl h₁ h₂]
    exact ⟨fun h => ⟨hg, hl, h.1, h.2⟩, fun h => ⟨h.digits, h.notMin⟩⟩

/-- A string that is a subject sequence as a whole. -/
theorem strtol_whole (hs : s.dropWhile isSpaceChar = s) (hv : Subject base s v) :
    Strtol base s v s.length := by
  have hspace : (s.takeWhile isSpaceChar).length = 0 := by
    have hlen := congrArg List.length (List.takeWhile_append_dropWhile (p := isSpaceChar) (l := s))
    rw [List.length_append, hs] at hlen
    omega
  have h : Strtol base s v ((s.takeWhile isSpaceChar).length + s.length) :=
    .converted (by rw [hs]) hv fun t ht _ => by
      rw [hs] at ht
      exact ht.length_le
  rwa [hspace, Nat.zero_add] at h

/-- `"12"` in base 10. -/
theorem strtol_agrees_decimal :
    xLibStrtoint 0 true 10 [49, 50, nul] = .ok (12, some (0 + 2)) [49, 50, nul] ↔
      BuildsAgree 10 [49, 50] 12 :=
  strtol_agrees_iff ⟨by decide, [], [], rfl, rfl⟩
    (strtol_whole rfl ⟨[], 1, _, 10, _, rfl, .inl ⟨rfl, rfl⟩,
      .given (by decide) (by decide) (by unfold AllDigits; decide), rfl⟩) (by decide) (by decide)

/-- `"0x1f"` in base 16: `strtol` reads 31 and stops at the end, the freestanding build reads 0
and stops behind the `0`. -/
theorem strtol_differs : Strtol 16 [48, 120, 49, 102] 31 4 ∧
    xLibStrtoint 0 true 16 [48, 120, 49, 102, nul] = .ok (0, some 1) [48, 120, 49, 102, nul] ∧
    xLibStrtoint 0 true 16 [48, 120, 49, 102, nul] ≠ .ok (31, some 4) [48, 120, 49, 102, nul] := by
  have h : Text [48, 120, 49, 102, nul] 0 [48, 120, 49, 102] := ⟨by decide, [], [], rfl, rfl⟩
  have hrun : xLibStrtoint 0 true 16 [48, 120, 49, 102, nul] =
      .ok (0, some (0 + 1)) [48, 120, 49, 102, nul] := by
    refine (xLibStrtoint_eq_iff h).mpr ⟨?_, ?_, ?_⟩ <;> decide
  refine ⟨strtol_whole rfl ⟨[], 1, _, 16, [49, 102], rfl, .inl ⟨rfl, rfl⟩,
    .hex (.inr rfl) (.inl rfl) (by decide) (by unfold AllDigits; decide), rfl⟩, hrun, ?_⟩
  rw [hrun]
  simp

end Agree

end XExpr
