import XExpr.Base.Refine
import XExpr.Str.Buffer

/-!
# The size of a block

`x_obj_alloc` computes the size of its request in `size_t`, from the signed number in the
obj-meta-extra atom and the number of data units. Nothing is checked, so the sum and the product
may wrap around, and a negative number is taken for a large one.

* `allocBlock`, `xObjAlloc_eq`: the call up to the answer of `malloc`, with the size it asks for.
* `xObjSize_exact_iff`: when the size is exact.
* `block_fits_iff`: the blocks that are as large as the object laid out in them.
-/

namespace XExpr

open Sys

variable {env : Env} {s s' s₁ : Sys} {b p t a : Ptr} {fl : Flags} {units size : Nat} {w : Word}
  {l : AllocFields}

/-- The number in the obj-meta-extra atom of a full base. -/
def Sys.metaExtra (s : Sys) (b : Ptr) : Word :=
  if s.Full b then (s.fieldInt b .objMetaExtra).getD 0 else 0

theorem Sys.extraOf_eq_metaExtra : s.extraOf b = toSizeT (s.metaExtra b) := by
  unfold extraOf metaExtra
  split
  · rfl
  · rfl

/-- `x_obj_alloc` up to the answer of `malloc`: the fields, the size of the request, the block. -/
def allocBlock (env : Env) (b : Ptr) (units : Nat) : M (AllocFields × Nat × Ptr) := do
  let l ← allocFields b
  allocTripped l
  allocCeiling env b l
  let size := xObjSize l.extra units
  let a ← xSysMalloc env size
  return (l, size, a)

theorem xObjAlloc_eq (env : Env) (b t : Ptr) (fl : Flags) (units : Nat) :
    xObjAlloc env b t fl units = (do
      let (l, size, a) ← allocBlock env b units
      if a = nil then
        allocRefused l
      else
        (if l.full then bumpCount b 1 else return)
        allocLayOut env b t fl l.extra size a) := by
  unfold xObjAlloc allocBlock
  simp only [bind_assoc, pure_bind]

/-- The request is for the extra units that the atom says, the header and the data. -/
theorem allocBlock_ok (h : allocBlock env b units s = .ok (l, size, a) s₁) :
    l.extra = toSizeT (s.metaExtra b) ∧ size = xObjSize (toSizeT (s.metaExtra b)) units := by
  unfold allocBlock at h
  rw [Prog.bind_ok] at h
  obtain ⟨l', _, hl, h⟩ := h
  obtain ⟨rfl, -, hextra, -⟩ := allocFields_ok hl
  rw [Prog.bind_ok] at h
  obtain ⟨_, _, -, h⟩ := h
  rw [Prog.bind_ok] at h
  obtain ⟨_, _, -, h⟩ := h
  rw [Prog.bind_ok] at h
  obtain ⟨a', _, -, h⟩ := h
  cases h
  rw [extraOf_eq_metaExtra] at hextra
  exact ⟨hextra, by rw [hextra]⟩

/-- The block is as large as the object laid out in it: the conversion of the number of extra
units keeps its value, the size is the exact one, and the extra units and the header are inside. -/
structure BlockFits (w : Word) (units size : Nat) : Prop where
  extra : (toSizeT w : Int) = w
  exact : (size : Int) = sizeofObj * (w + xObjMetaLen + units)
  header : sizeofObj * (toSizeT w + xObjMetaLen) ≤ size

theorem toSizeT_exact_iff {w : Int} (hw : xIntMin ≤ w ∧ w ≤ xIntMax) :
    (toSizeT w : Int) = w ↔ 0 ≤ w := by
  unfold toSizeT xIntMin xIntMax at *
  omega

theorem xObjSize_exact_iff {extra : Nat} :
    xObjSize extra units = sizeofObj * (extra + xObjMetaLen + units) ↔
      sizeofObj * (extra + xObjMetaLen + units) < 2 ^ 64 := by
  unfold xObjSize sizeofObj xObjMetaLen
  omega

theorem blockFits_iff (hw : xIntMin ≤ w ∧ w ≤ xIntMax) :
    BlockFits w units (xObjSize (toSizeT w) units) ↔
      0 ≤ w ∧ sizeofObj * (w + xObjMetaLen + units) < 2 ^ 64 := by
  constructor
  · rintro ⟨hx, hs, -⟩
    have hw₀ : 0 ≤ w := (toSizeT_exact_iff hw).mp hx
    obtain ⟨n, rfl⟩ := Int.eq_ofNat_of_zero_le hw₀
    have hn : toSizeT n = n := by exact_mod_cast hx
    rw [hn] at hs
    exact ⟨hw₀, by exact_mod_cast xObjSize_exact_iff.mp (by exact_mod_cast hs)⟩
  · rintro ⟨hw₀, hlt⟩
    have hx : (toSizeT w : Int) = w := (toSizeT_exact_iff hw).mpr hw₀
    obtain ⟨n, rfl⟩ := Int.eq_ofNat_of_zero_le hw₀
    have hn : toSizeT n = n := by exact_mod_cast hx
    have hs : xObjSize n units = sizeofObj * (n + xObjMetaLen + units) :=
      xObjSize_exact_iff.mpr (by exact_mod_cast hlt)
    rw [hn]
    refine ⟨hx, by rw [hs]; push_cast; rfl, ?_⟩
    rw [hs, hn]
    exact Nat.mul_le_mul_left _ (Nat.le_add_right ..)

/-- An object that is returned is in a block that `malloc` has answered with. -/
theorem xObjAlloc_block (h : xObjAlloc env b t fl units s = .ok p s') (hp : p ≠ nil) :
    ∃ l size a s₁, allocBlock env b units s = .ok (l, size, a) s₁ ∧ a ≠ nil ∧
      p = a + (sizeofObj * l.extra : Nat) := by
  rw [xObjAlloc_eq, Prog.bind_ok] at h
  obtain ⟨⟨l, size, a⟩, s₁, hb, h⟩ := h
  dsimp only at h
  refine ⟨l, size, a, s₁, hb, ?_⟩
  split at h
  · unfold allocRefused at h
    split at h
    · rw [Prog.bind_ok] at h
      obtain ⟨_, _, -, h⟩ := h
      cases h
    · cases h
      exact absurd rfl hp
  · next ha =>
    rw [Prog.bind_ok] at h
    obtain ⟨_, s₂, -, h⟩ := h
    obtain ⟨-, hpa, -⟩ := allocLayOut_ok h
    exact ⟨ha, hpa⟩

/-- Every object that `x_obj_alloc` returns is in a block that it asked for, and a block is as
large as the object laid out in it if and only if the number of extra units is not negative and
the exact size is less than `2 ^ 64`. -/
theorem block_fits_iff (env : Env) (units : Nat)
    (hw : xIntMin ≤ s.metaExtra b ∧ s.metaExtra b ≤ xIntMax) :
    (∀ t fl p s', xObjAlloc env b t fl units s = .ok p s' → p ≠ nil →
      ∃ l size a s₁, allocBlock env b units s = .ok (l, size, a) s₁ ∧ a ≠ nil ∧
        p = a + (sizeofObj * l.extra : Nat)) ∧
    ∀ l size a s₁, allocBlock env b units s = .ok (l, size, a) s₁ → a ≠ nil →
      (BlockFits (s.metaExtra b) units size ↔
        0 ≤ s.metaExtra b ∧ sizeofObj * (s.metaExtra b + xObjMetaLen + units) < 2 ^ 64) := by
  refine ⟨fun t fl p s' h hp => xObjAlloc_block h hp, fun l size a s₁ h _ => ?_⟩
  obtain ⟨-, rfl⟩ := allocBlock_ok h
  exact blockFits_iff hw

/-- Without a base, `2 ^ 61` data units get a block of 24 bytes, which is the header. -/
theorem block_fits_fails : ∃ l a s₁ p s',
    allocBlock (.plain fun _ => true) nil (2 ^ 61) Sys.empty = .ok (l, 24, a) s₁ ∧
      xObjAlloc (.plain fun _ => true) nil xTypeAtomObj xObjFlagNone (2 ^ 61) Sys.empty =
        .ok p s' ∧ p ≠ nil ∧ ¬ BlockFits (Sys.empty.metaExtra nil) (2 ^ 61) 24 := by
  obtain ⟨p, s', hrun, hp⟩ : ∃ p s', xObjAlloc (.plain fun _ => true) nil xTypeAtomObj
      xObjFlagNone (2 ^ 61) Sys.empty = .ok p s' ∧ p ≠ nil := by
    rcases xObjAlloc_bare_cases (.plain fun _ => true) xTypeAtomObj xObjFlagNone (2 ^ 61)
      (s := Sys.empty) (.inl rfl) with ⟨hg, -⟩ | ⟨-, hs, -⟩ | ⟨p, _, _, s', -, hrun, hm, -⟩
    · cases hg
    · exact absurd hs (by decide)
    · exact ⟨p, s', hrun, hm.ne_nil⟩
  obtain ⟨l, size, a, s₁, hb, -⟩ := xObjAlloc_block hrun hp
  have hw : Sys.empty.metaExtra nil = 0 := if_neg not_full_nil
  obtain ⟨-, rfl⟩ := allocBlock_ok hb
  rw [hw] at hb ⊢
  refine ⟨l, a, s₁, p, s', hb, hrun, hp, fun h => ?_⟩
  exact absurd h.exact (by decide)

/-- A pair on a base that gives its objects two extra units. -/
theorem block_fits_pair : ∃ b s l a s₁, s.Full b ∧ s.metaExtra b = 2 ∧
    allocBlock (.plain fun _ => true) b 2 s = .ok (l, 56, a) s₁ ∧
      BlockFits (s.metaExtra b) 2 56 := by
  obtain ⟨b, -, s, t, -, -, hfull, htree, -⟩ :=
    exists_full_base { XBaseT.standard with objMetaExtra := 2 } Sys.empty
  have hw : s.metaExtra b = 2 := by
    rw [metaExtra, if_pos hfull, htree.currentInt (f := .objMetaExtra) rfl]
    rfl
  obtain ⟨hret, hiff⟩ := block_fits_iff (s := s) (b := b) (.plain fun _ => true) 2
    (by rw [hw]; decide)
  obtain ⟨p, a₀, data, s', hrun, hm, -⟩ := xObjAlloc_full (.plain fun _ => true) xTypePairObj
    xObjFlagNone (htree.allocReady hfull) rfl
    (show s.extraOf b + 2 ≤ 2 ^ 59 by rw [extraOf_eq_metaExtra, hw]; decide)
  obtain ⟨l, size, a, s₁, hb, ha, -⟩ := hret _ _ p s' hrun hm.ne_nil
  have hfits := (hiff l size a s₁ hb ha).mpr (by rw [hw]; decide)
  obtain ⟨-, rfl⟩ := allocBlock_ok hb
  rw [hw] at hb hfits
  refine ⟨b, s, l, a, s₁, hfull, hw, hb, ?_⟩
  rw [hw]
  exact hfits

end XExpr
