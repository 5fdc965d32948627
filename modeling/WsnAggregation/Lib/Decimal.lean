import Mathlib.Data.Nat.Log
import Mathlib.Tactic.IntervalCases
import Mathlib.Tactic.Ring

/-!
# Decimal numerals

Writing numbers in decimal, as `printf` does, and the value of a text of digits. The reader's
digits may be more than the ten the writer uses: `digit` is the value a reader gives a character,
and all that is asked of it is that it knows the ten.
-/

namespace WsnAggregation.Lib

/-! ## Writing -/

/-- The decimal numeral of `n` (`%u`). -/
def decimal (n : ℕ) : List Char := Nat.toDigits 10 n

/-- A numeral padded with zeros to a width (`%0wu`). -/
def padded (w n : ℕ) : List Char := List.replicate (w - (decimal n).length) '0' ++ decimal n

/-- The decimal numeral of an integer (`%d`). -/
def signed (z : ℤ) : List Char := if z < 0 then '-' :: decimal z.natAbs else decimal z.natAbs

theorem decimal_ne_nil (n : ℕ) : decimal n ≠ [] := Nat.toDigits_ne_nil

theorem signed_of_nonneg {z : ℤ} (h : 0 ≤ z) : signed z = decimal z.natAbs :=
  if_neg (not_lt.2 h)

theorem signed_of_neg {z : ℤ} (h : z < 0) : signed z = '-' :: decimal z.natAbs := if_pos h

@[simp] theorem signed_natCast (n : ℕ) : signed n = decimal n := signed_of_nonneg (Int.natCast_nonneg n)

theorem mem_decimal {c : Char} {n : ℕ} (h : c ∈ decimal n) : ∃ d < 10, c = Nat.digitChar d := by
  unfold decimal at h
  induction n using Nat.strong_induction_on with
  | _ n ih =>
    by_cases hn : n < 10
    · rw [Nat.toDigits_of_lt_base hn, List.mem_singleton] at h
      exact ⟨n, hn, h⟩
    · rw [Nat.toDigits_of_base_le (by decide) (not_lt.1 hn)] at h
      rcases List.mem_append.1 h with h | h
      · exact ih _ (Nat.div_lt_self (by omega) (by decide)) h
      · exact ⟨n % 10, Nat.mod_lt _ (by decide), List.mem_singleton.1 h⟩

theorem mem_padded {c : Char} {w n : ℕ} (h : c ∈ padded w n) : ∃ d < 10, c = Nat.digitChar d := by
  rcases List.mem_append.1 h with h | h
  · exact ⟨0, by decide, (List.mem_replicate.1 h).2⟩
  · exact mem_decimal h

theorem length_decimal_le {n k : ℕ} (hk : 0 < k) (h : n < 10 ^ k) : (decimal n).length ≤ k :=
  (Nat.length_toDigits_le_iff (by decide) hk).2 h

theorem length_padded {w n : ℕ} (hw : 0 < w) (h : n < 10 ^ w) : (padded w n).length = w := by
  have hlen := length_decimal_le hw h
  simp only [padded, List.length_append, List.length_replicate]
  omega

/-! ## Reading -/

/-- The value of a text of digits. -/
def valueOf (digit : Char → ℕ) (l : List Char) : ℕ := l.foldl (fun n c => 10 * n + digit c) 0

/-- The reader knows the ten digits. -/
def KnowsDigits (digit : Char → ℕ) : Prop := ∀ d < 10, digit (Nat.digitChar d) = d

section Value

variable {digit : Char → ℕ}

theorem valueOf_concat (l : List Char) (c : Char) :
    valueOf digit (l ++ [c]) = 10 * valueOf digit l + digit c := by
  simp [valueOf]

/-- Reading undoes writing. -/
theorem valueOf_decimal (h : KnowsDigits digit) (n : ℕ) : valueOf digit (decimal n) = n := by
  unfold decimal
  induction n using Nat.strong_induction_on with
  | _ n ih =>
    by_cases hn : n < 10
    · rw [Nat.toDigits_of_lt_base hn]
      simpa [valueOf] using h n hn
    · rw [Nat.toDigits_of_base_le (by decide) (not_lt.1 hn), valueOf_concat,
        ih _ (Nat.div_lt_self (by omega) (by decide)), h _ (Nat.mod_lt _ (by decide))]
      omega

theorem valueOf_zeros (h : KnowsDigits digit) (k : ℕ) (l : List Char) :
    valueOf digit (List.replicate k '0' ++ l) = valueOf digit l := by
  have h0 : digit '0' = 0 := h 0 (by decide)
  induction k with
  | zero => rfl
  | succ k ih =>
    rw [List.replicate_succ, List.cons_append, ← ih]
    simp [valueOf, h0]

theorem valueOf_padded (h : KnowsDigits digit) (w n : ℕ) : valueOf digit (padded w n) = n := by
  rw [padded, valueOf_zeros h, valueOf_decimal h]

theorem decimal_of_isPrefix (h : KnowsDigits digit) {n : ℕ} {g : List Char} (hne : g ≠ [])
    (hg : g <+: decimal n) : g = decimal (valueOf digit g) := by
  induction n using Nat.strong_induction_on with
  | _ n ih =>
    have hwhole : g = decimal n → g = decimal (valueOf digit g) := by
      rintro rfl
      rw [valueOf_decimal h]
    unfold decimal at hg
    by_cases hn : n < 10
    · rw [Nat.toDigits_of_lt_base hn] at hg
      apply hwhole
      rw [decimal, Nat.toDigits_of_lt_base hn]
      exact hg.eq_of_length_le (List.length_pos_iff.2 hne)
    · rw [Nat.toDigits_of_base_le (by decide) (not_lt.1 hn), List.prefix_concat_iff] at hg
      rcases hg with hg | hg
      · apply hwhole
        rw [decimal, Nat.toDigits_of_base_le (by decide) (not_lt.1 hn), hg]
      · exact ih (n / 10) (Nat.div_lt_self (by omega) (by decide)) hg

/-- Only the numeral of zero begins with a zero. -/
theorem eq_zero_of_isPrefix {n : ℕ} (hg : decimal 0 <+: decimal n) : n = 0 := by
  unfold decimal at hg
  induction n using Nat.strong_induction_on with
  | _ n ih =>
    by_cases hn : n < 10
    · rw [Nat.toDigits_of_lt_base hn, Nat.toDigits_of_lt_base (by decide)] at hg
      have heq : Nat.digitChar 0 = Nat.digitChar n := by simpa using hg.eq_of_length rfl
      interval_cases n <;> first | rfl | exact absurd heq (by decide)
    · rw [Nat.toDigits_of_base_le (by decide) (not_lt.1 hn), List.prefix_concat_iff] at hg
      rcases hg with hg | hg
      · have hlen := congrArg List.length hg
        rw [Nat.toDigits_of_lt_base (by decide)] at hlen
        have hpos := List.length_pos_iff.2 (Nat.toDigits_ne_nil (b := 10) (n := n / 10))
        simp only [List.length_singleton, List.length_append] at hlen
        omega
      · have hzero := ih (n / 10) (Nat.div_lt_self (by omega) (by decide)) hg
        omega

end Value

end WsnAggregation.Lib
