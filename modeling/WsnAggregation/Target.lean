import Mathlib.Data.Int.ModEq
import Mathlib.Data.Rat.Floor
import Mathlib.Tactic

/-!
# The target platform

The firmware is compiled for motes whose C types differ: `int` has 16 bits on the msp430 and 32
elsewhere, `unsigned long` and `clock_time_t` have their own widths, and a conversion of a
floating-point value that does not fit is left to the compiler. A `Target` collects these
choices, so that every theorem is about all of them at once.

Doubles are read as exact rationals throughout.
-/

namespace WsnAggregation

/-- What the C code leaves to the platform it is compiled for. -/
structure Target where
  /-- Width of `int` (and of `unsigned int`). -/
  intBits : ℕ
  /-- Width of `unsigned long`. -/
  longBits : ℕ
  /-- Width of `clock_time_t`. -/
  clockBits : ℕ
  /-- `CLOCK_SECOND`. -/
  clockSecond : ℕ
  /-- `PROCESS_CONF_NUMEVENTS`. -/
  numEvents : ℕ
  /-- The value an out-of-range conversion of a double yields. -/
  outOfRange : ℚ → ℕ
  sixteen_le_intBits : 16 ≤ intBits
  thirtyTwo_le_longBits : 32 ≤ longBits
  longBits_le_sixtyFour : longBits ≤ 64
  clockSecond_pos : 0 < clockSecond
  /-- The intervals the firmware asks for fit in `clock_time_t`. -/
  interval_fits : 6 * clockSecond < 2 ^ clockBits
  numEvents_pos : 0 < numEvents

/-- The mote the simulations run: a 16-bit msp430 with a 128 Hz clock. -/
def Target.sky : Target where
  intBits := 16
  longBits := 32
  clockBits := 32
  clockSecond := 128
  numEvents := 32
  outOfRange := fun _ => 0
  sixteen_le_intBits := le_rfl
  thirtyTwo_le_longBits := le_rfl
  longBits_le_sixtyFour := by decide
  clockSecond_pos := by decide
  interval_fits := by decide
  numEvents_pos := by decide

namespace Target

variable (T : Target)

/-! ## Integer conversions -/

/-- Conversion to `int`: the value modulo `2 ^ intBits`, in the signed range. -/
def toInt (z : ℤ) : ℤ := z.bmod (2 ^ T.intBits)

/-- Conversion to `unsigned int`. -/
def toUnsigned (z : ℤ) : ℕ := (z % 2 ^ T.intBits).toNat

theorem two_pow_intBits : ∃ k, 2 ^ T.intBits = 65536 * 2 ^ k :=
  ⟨T.intBits - 16, by
    have h := T.sixteen_le_intBits
    rw [show (65536 : ℕ) = 2 ^ 16 from rfl, ← pow_add]
    congr 1
    omega⟩

theorem le_two_pow_intBits : 65536 ≤ 2 ^ T.intBits := by
  obtain ⟨k, hk⟩ := T.two_pow_intBits
  have := Nat.one_le_two_pow (n := k)
  omega

/-- Values of at most 15 bits survive the conversion to `int` on every target. -/
theorem toInt_of_abs_lt {z : ℤ} (hl : -32768 ≤ z) (hu : z < 32768) : T.toInt z = z := by
  have h := T.le_two_pow_intBits
  unfold toInt
  apply Int.bmod_eq_of_le <;> omega

/-- The conversion to `int` keeps the value modulo `2 ^ 16`. -/
theorem toInt_modEq (z : ℤ) : T.toInt z ≡ z [ZMOD 65536] := by
  obtain ⟨k, hk⟩ := T.two_pow_intBits
  have hdvd : ((2 ^ T.intBits : ℕ) : ℤ) ∣ z - T.toInt z := Int.dvd_self_sub_bmod
  rw [Int.modEq_iff_dvd]
  refine dvd_trans ⟨(2 ^ k : ℤ), ?_⟩ hdvd
  rw [hk]
  push_cast
  ring

end Target

/-! ## Conversions from double -/

/-- C truncation toward zero. -/
def truncZ (q : ℚ) : ℤ := if 0 ≤ q then ⌊q⌋ else ⌈q⌉

/-- A value truncated toward zero to three decimals. -/
def trunc3 (q : ℚ) : ℚ := truncZ (q * 1000) / 1000

theorem truncZ_of_nonneg {q : ℚ} (h : 0 ≤ q) : truncZ q = ⌊q⌋ := if_pos h

theorem truncZ_of_neg {q : ℚ} (h : q < 0) : truncZ q = ⌈q⌉ := if_neg (not_le.mpr h)

/-- Conversion of a double to `int`. -/
def Target.doubleToInt (T : Target) (q : ℚ) : ℤ :=
  if -(2 ^ (T.intBits - 1)) ≤ truncZ q ∧ truncZ q < 2 ^ (T.intBits - 1) then truncZ q
  else T.toInt (T.outOfRange q)

/-- Conversion of a double to an unsigned type of the given width. -/
def Target.doubleToUnsigned (T : Target) (bits : ℕ) (q : ℚ) : ℕ :=
  if 0 ≤ truncZ q ∧ truncZ q < 2 ^ bits then (truncZ q).toNat else T.outOfRange q % 2 ^ bits

end WsnAggregation
