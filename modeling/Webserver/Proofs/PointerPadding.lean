import Webserver.Proofs.PoolLayout
import Mathlib.Data.Nat.Prime.Basic

/-! What `padPointer` pads to. The subtraction is meant to leave the remainder of `-p`,
which it does above zero only for divisors of the size of an address. -/

namespace Webserver.MemoryPool

variable {p align : UInt64}

/-- The padding is less than a slot and ends on a multiple of the slot size. -/
structure Padded (p align : UInt64) : Prop where
  short : padPointer p align < align
  multiple : align.toNat ∣ (p + padPointer p align).toNat

private theorem dvd_size_iff {divisor : Nat} (small : divisor < UInt64.size) :
    divisor ∣ UInt64.size ↔ divisor.isPowerOfTwo := by
  constructor
  · intro divides
    change divisor ∣ 2 ^ 64 at divides
    obtain ⟨exponent, -, power⟩ := (Nat.dvd_prime_pow Nat.prime_two).mp divides
    exact ⟨exponent, power⟩
  · rintro ⟨exponent, rfl⟩
    have least : exponent < 64 := (Nat.pow_lt_pow_iff_right (by decide)).mp small
    exact Nat.pow_dvd_pow 2 (Nat.le_of_lt least)

private theorem padPointer_lt (positive : 0 < align.toNat) : padPointer p align < align := by
  rw [UInt64.lt_iff_toNat_lt, padPointer, UInt64.toNat_mod]
  exact Nat.mod_lt _ positive

/-- The subtraction wraps for every address above the slot size. -/
private theorem toNat_sub_add :
    p.toNat + (align - p).toNat = if p ≤ align then align.toNat else UInt64.size + align.toNat := by
  have first := p.toNat_lt
  have second := align.toNat_lt
  split
  next below =>
    rw [UInt64.toNat_sub_of_le _ _ below]
    exact Nat.add_sub_of_le (UInt64.le_iff_toNat_le.mp below)
  next above =>
    rw [UInt64.le_iff_toNat_le, Nat.not_le] at above
    rw [UInt64.toNat_sub]
    change _ = 2 ^ 64 + align.toNat
    omega

private theorem multiple_iff_sub (positive : 0 < align.toNat) (fits : p.toNat + align.toNat < UInt64.size) :
    align.toNat ∣ (p + padPointer p align).toNat ↔ align.toNat ∣ p.toNat + (align - p).toNat := by
  have short := UInt64.lt_iff_toNat_lt.mp (padPointer_lt (p := p) positive)
  have sum : (p + padPointer p align).toNat = p.toNat + (align - p).toNat % align.toNat := by
    rw [UInt64.toNat_add, Nat.mod_eq_of_lt (Nat.lt_trans (Nat.add_lt_add_left short _) fits), padPointer, UInt64.toNat_mod]
  rw [sum, Nat.dvd_iff_mod_eq_zero, Nat.add_mod_mod, ← Nat.dvd_iff_mod_eq_zero]

private theorem multiple_iff (positive : 0 < align.toNat) (fits : p.toNat + align.toNat < UInt64.size) :
    align.toNat ∣ (p + padPointer p align).toNat ↔ align.toNat.isPowerOfTwo ∨ p ≤ align := by
  rw [multiple_iff_sub positive fits, toNat_sub_add]
  split
  next below =>
    constructor
    · intro divides
      exact Or.inr below
    · intro aligned
      exact Nat.dvd_refl _
  next above => rw [Nat.dvd_add_left (Nat.dvd_refl _), dvd_size_iff (UInt64.toNat_lt align), or_iff_left above]

/-- The padding aligns for the slot sizes that are powers of two, and else only for
addresses up to the slot size. -/
theorem padPointer_aligns_iff (range : Width align.toNat) (fits : p.toNat + align.toNat < UInt64.size) :
    Padded p align ↔ align.toNat.isPowerOfTwo ∨ p ≤ align := by
  constructor
  · intro padded
    exact (multiple_iff range.positive fits).mp padded.multiple
  · intro aligned
    exact ⟨padPointer_lt range.positive, (multiple_iff range.positive fits).mpr aligned⟩

theorem padPointer_aligns_iff_page : Padded 4104 64 :=
  (padPointer_aligns_iff ⟨by decide, by decide, by decide⟩ (by decide)).mpr (Or.inl ⟨6, rfl⟩)

/-- The first slot of 24 bytes behind the link of a block at 4096. -/
theorem padPointer_misaligns : padPointer 4104 24 = 16 ∧ (4104 + padPointer 4104 24).toNat % 24 = 16 ∧ ¬Padded 4104 24 := by
  refine ⟨by decide, by decide, ?_⟩
  intro padded
  exact absurd padded.multiple (by decide)

/-- A block begins with a slot on a multiple of the slot size just when that is a power of two. -/
theorem linkBlock_aligned_iff {width : Nat} {pool : MemoryPool} (range : Width width) (sized : Sized width pool)
    {newBlock : UInt64} (bounded : newBlock.toNat + 4096 < UInt64.size) (high : width ≤ newBlock.toNat) :
    width ∣ (pool.linkBlock newBlock).curSlot_.toNat ↔ width.isPowerOfTwo := by
  obtain ⟨-, rfl⟩ := sized
  have small := range.small
  have body : (newBlock + sizeofSlot).toNat = newBlock.toNat + 8 := by
    rw [UInt64.toNat_add]
    exact Nat.mod_eq_of_lt (Nat.lt_of_le_of_lt (Nat.add_le_add_left (by decide) _) bounded)
  have above : ¬newBlock + sizeofSlot ≤ pool.SlotSize_ := by
    rw [UInt64.le_iff_toNat_le, body]
    omega
  have fits : (newBlock + sizeofSlot).toNat + pool.SlotSize_.toNat < UInt64.size := by
    rw [body]
    omega
  exact (multiple_iff range.positive fits).trans (or_iff_left above)

end Webserver.MemoryPool
