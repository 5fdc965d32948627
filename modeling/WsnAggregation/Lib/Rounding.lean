import Mathlib.Algebra.Order.Ring.Nat

/-!
# Natural numbers in binary floating point

What a format with so many binary digits holds of a natural number, as long as its exponent is
large enough: the nearest number that has no more digits before its zeros, and of two the one whose
last digit is even.
-/

namespace WsnAggregation.Lib

/-- `n / d`, rounded to the nearest integer, and to the even one of two. -/
def divRound (n d : ℕ) : ℕ :=
  if 2 * (n % d) < d ∨ 2 * (n % d) = d ∧ n / d % 2 = 0 then n / d else n / d + 1

/-- The number with all but its first `bits` digits rounded away. -/
def roundBits (bits n : ℕ) : ℕ :=
  let ulp := 2 ^ (n.log2 + 1 - bits)
  divRound n ulp * ulp

variable {bits n : ℕ}

theorem roundBits_of_dvd (h : 2 ^ (n.log2 + 1 - bits) ∣ n) : roundBits bits n = n := by
  have hpos : 0 < 2 ^ (n.log2 + 1 - bits) := Nat.two_pow_pos _
  have hround : divRound n (2 ^ (n.log2 + 1 - bits)) = n / 2 ^ (n.log2 + 1 - bits) := by
    rw [divRound, Nat.mod_eq_zero_of_dvd h, if_pos (Or.inl hpos)]
  rw [roundBits, hround, Nat.div_mul_cancel h]

/-- A number of no more digits is held as it is, and so is the next one. -/
theorem roundBits_of_le (hbits : 0 < bits) (h : n ≤ 2 ^ bits) : roundBits bits n = n := by
  apply roundBits_of_dvd
  rcases h.eq_or_lt with rfl | hlt
  · rw [Nat.log2_two_pow, Nat.add_sub_cancel_left]
    exact Nat.pow_dvd_pow 2 hbits
  · have hlog : n.log2 < bits := by
      by_cases hzero : n = 0
      · rw [hzero]
        exact hbits
      · exact (Nat.log2_lt hzero).2 hlt
    rw [Nat.sub_eq_zero_of_le hlog]
    exact one_dvd n

end WsnAggregation.Lib
