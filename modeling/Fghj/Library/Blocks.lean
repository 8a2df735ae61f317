import Mathlib.Data.Nat.Bitwise
import Mathlib.Data.Set.Basic

/-!
# Aligned blocks of numbers

Numbers are laid out in blocks of one size, the first of which begins at zero. A block of an even
size is two blocks of half the size.
-/

namespace Fghj
namespace Blocks

variable {size half n m : Nat}

/-- The numbers in one block with a number. -/
def block (size n : Nat) : Set Nat := {m | m / size = n / size}

/-- The first number of the block. -/
def first (size n : Nat) : Nat := n / size * size

theorem mem_block_iff (positive : 0 < size) :
    m ∈ block size n ↔ first size n ≤ m ∧ m < first size n + size := by
  change m / size = n / size ↔ _
  rw [Nat.div_eq_iff positive, first]
  omega

theorem first_mem (positive : 0 < size) : first size n ∈ block size n := by
  rw [mem_block_iff positive]
  omega

theorem first_eq_of_mem (member : m ∈ block size n) : first size m = first size n := by
  rw [first, first, member]

/-- A block ends before a bound that a block ends at. -/
theorem first_add_le {bound : Nat} (aligned : size ∣ bound) (inside : n < bound) :
    first size n + size ≤ bound := by
  obtain ⟨count, rfl⟩ := aligned
  have place : n / size < count := Nat.div_lt_of_lt_mul inside
  calc first size n + size = size * (n / size + 1) := by rw [first, Nat.mul_add_one, Nat.mul_comm]
    _ ≤ size * count := Nat.mul_le_mul_left size place

theorem first_upper (positive : 0 < half) :
    first half (first (2 * half) n + half) = first (2 * half) n + half := by
  have shape : first (2 * half) n + half = (2 * (n / (2 * half)) + 1) * half := by
    rw [first, Nat.add_mul, Nat.one_mul, Nat.mul_left_comm, Nat.mul_assoc]
  rw [shape, first, Nat.mul_div_cancel _ positive]

theorem block_upper (positive : 0 < half) :
    block half (first (2 * half) n + half) =
      {m | m ∈ block (2 * half) n ∧ first (2 * half) n + half ≤ m} := by
  ext m
  change _ ↔ m ∈ block (2 * half) n ∧ _
  rw [mem_block_iff positive, mem_block_iff (by omega), first_upper positive]
  omega

/-- Clearing the low bits of a number leaves the first of its block. -/
theorem and_not_mask (width low : Nat) (inside : n < 2 ^ width) (narrow : low ≤ width) :
    n &&& (2 ^ width - 1 - (2 ^ low - 1)) = first (2 ^ low) n := by
  have mask : 2 ^ low - 1 < 2 ^ width := by
    have := Nat.pow_le_pow_right (by decide : 0 < 2) narrow
    have := Nat.two_pow_pos low
    omega
  apply Nat.eq_of_testBit_eq
  intro bit
  rw [Nat.sub_sub, Nat.add_comm 1, Nat.testBit_and, Nat.testBit_two_pow_sub_succ mask,
    Nat.testBit_two_pow_sub_one, first, Nat.testBit_mul_two_pow, Nat.testBit_div_two_pow]
  by_cases below : bit < low
  · simp [below, Nat.not_le.mpr below]
  · have above := Nat.not_lt.mp below
    by_cases wide : bit < width
    · simp [below, above, wide]
    · have zero : n.testBit bit = false :=
        Nat.testBit_eq_false_of_lt
          (Nat.lt_of_lt_of_le inside (Nat.pow_le_pow_right (by decide) (Nat.not_lt.mp wide)))
      simp [above, zero]

end Blocks
end Fghj
