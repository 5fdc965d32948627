import Mathlib.Data.Int.ModEq
import Mathlib.Tactic.LinearCombination

/-!
# A clock that wraps

Moments on a clock of `M` ticks that starts again at zero. How far one moment is ahead of another
is known modulo `M` only; as long as less than a whole turn is meant, it adds up.
-/

namespace WsnAggregation.Lib

/-- How many ticks after `a` the clock shows `b`. -/
def ahead (M a b : ℤ) : ℕ := ((b - a) % M).toNat

variable {M a b : ℤ}

/-- Fewer ticks than a turn are the distance, whatever turns are added. -/
theorem ahead_eq {n : ℕ} (hn : (n : ℤ) < M) {q : ℤ} (h : b = a + n + M * q) : ahead M a b = n := by
  have hdiff : b - a = n + M * q := by linear_combination h
  rw [ahead, hdiff, Int.add_mul_emod_self_left, Int.emod_eq_of_lt (Int.natCast_nonneg n) hn]
  rfl

section

variable (hM : 0 < M)
include hM

theorem cast_ahead : (ahead M a b : ℤ) = (b - a) % M :=
  Int.toNat_of_nonneg (Int.emod_nonneg _ hM.ne')

theorem ahead_lt : (ahead M a b : ℤ) < M := by
  rw [cast_ahead hM]
  exact Int.emod_lt_of_pos _ hM

/-- The clock shows `b` after so many ticks, and some whole turns. -/
theorem exists_turns (a b : ℤ) : ∃ q, b = a + ahead M a b + M * q := by
  refine ⟨(b - a) / M, ?_⟩
  rw [cast_ahead hM]
  linear_combination -Int.emod_add_mul_ediv (b - a) M

theorem ahead_emod_left : ahead M (a % M) b = ahead M a b := by
  obtain ⟨q, hq⟩ := exists_turns hM a b
  exact ahead_eq (ahead_lt hM) (q := q + a / M)
    (by linear_combination hq - Int.emod_add_mul_ediv a M)

theorem ahead_emod_right : ahead M a (b % M) = ahead M a b := by
  obtain ⟨q, hq⟩ := exists_turns hM a b
  exact ahead_eq (ahead_lt hM) (q := q - b / M)
    (by linear_combination hq + Int.emod_add_mul_ediv b M)

theorem ahead_add {n : ℕ} (h : ((ahead M a b + n : ℕ) : ℤ) < M) :
    ahead M a (b + n) = ahead M a b + n := by
  obtain ⟨q, hq⟩ := exists_turns hM a b
  exact ahead_eq h (q := q) (by push_cast; linear_combination hq)

/-- From a moment on the way the rest is ahead. -/
theorem ahead_of_le {c : ℤ} (h : ahead M a c ≤ ahead M a b) :
    ahead M c b = ahead M a b - ahead M a c := by
  obtain ⟨q, hq⟩ := exists_turns hM a b
  obtain ⟨r, hr⟩ := exists_turns hM a c
  have hlt : (ahead M a b : ℤ) < M := ahead_lt hM
  refine ahead_eq (by omega) (q := q - r) ?_
  rw [Nat.cast_sub h]
  linear_combination hq - hr

/-- A moment just passed is almost a whole turn ahead. -/
theorem ahead_swap (h : 0 < ahead M a b) : (ahead M b a : ℤ) = M - ahead M a b := by
  obtain ⟨q, hq⟩ := exists_turns hM a b
  have hlt : (ahead M a b : ℤ) < M := ahead_lt hM
  obtain ⟨n, hn⟩ := Int.eq_ofNat_of_zero_le (a := M - ahead M a b) (by omega)
  rw [hn, ahead_eq (n := n) (by omega) (q := -q - 1) (by linear_combination -hq + hn)]

end

end WsnAggregation.Lib
