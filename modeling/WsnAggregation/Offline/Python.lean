import Mathlib.Algebra.Order.Field.Basic
import Mathlib.Algebra.Order.Field.Rat
import Mathlib.Data.List.TakeWhile
import Mathlib.Data.Rat.Defs
import Mathlib.Tactic.IntervalCases
import Mathlib.Tactic.Linarith
import Mathlib.Tactic.NormNum
import WsnAggregation.Lib.Decimal
import WsnAggregation.Lib.Rounding

/-!
# Python texts

What the analysis script uses of Python: reading a text file by lines, `str.split(", ")`, and
`int` and `float` of the texts its patterns capture. Those hold digits, points, commas and
spaces only, so signs, exponents and underscores do not occur.

A decimal digit is any character of the Unicode category Nd, as for `\d`, `int` and `float`.
-/

namespace WsnAggregation

open Lib

/-- The exceptions the script can raise. -/
inductive PyError where
  | valueError
  | zeroDivisionError
  deriving DecidableEq, Repr

/-! ## Digits -/

/-- The characters with digit value zero; the other nine digits of a script follow its zero. -/
def digitZeros : List ℕ :=
  [0x30, 0x660, 0x6f0, 0x7c0, 0x966, 0x9e6, 0xa66, 0xae6, 0xb66, 0xbe6, 0xc66, 0xce6, 0xd66,
    0xde6, 0xe50, 0xed0, 0xf20, 0x1040, 0x1090, 0x17e0, 0x1810, 0x1946, 0x19d0, 0x1a80, 0x1a90,
    0x1b50, 0x1bb0, 0x1c40, 0x1c50, 0xa620, 0xa8d0, 0xa900, 0xa9d0, 0xa9f0, 0xaa50, 0xabf0,
    0xff10, 0x104a0, 0x10d30, 0x11066, 0x110f0, 0x11136, 0x111d0, 0x112f0, 0x11450, 0x114d0,
    0x11650, 0x116c0, 0x11730, 0x118e0, 0x11950, 0x11c50, 0x11d50, 0x11da0, 0x16a60, 0x16ac0,
    0x16b50, 0x1d7ce, 0x1d7d8, 0x1d7e2, 0x1d7ec, 0x1d7f6, 0x1e140, 0x1e2f0, 0x1e950, 0x1fbf0]

/-- The value of a decimal digit. -/
def digitOf (c : Char) : Option ℕ :=
  (digitZeros.find? fun z => z ≤ c.toNat && c.toNat < z + 10).map (c.toNat - ·)

/-- `\d`. -/
def isDecimal (c : Char) : Bool := (digitOf c).isSome

/-- The value of a character that is a digit. -/
def digitVal (c : Char) : ℕ := (digitOf c).getD 0

theorem digitOf_digitChar {d : ℕ} (h : d < 10) : digitOf (Nat.digitChar d) = some d := by
  interval_cases d <;> rfl

theorem knowsDigits_digitVal : KnowsDigits digitVal := fun d h => by
  rw [digitVal, digitOf_digitChar h, Option.getD_some]

theorem isDecimal_digitChar {d : ℕ} (h : d < 10) : isDecimal (Nat.digitChar d) = true := by
  rw [isDecimal, digitOf_digitChar h, Option.isSome_some]

theorem isDecimal_of_mem_decimal {c : Char} {n : ℕ} (h : c ∈ decimal n) : isDecimal c = true := by
  obtain ⟨d, hd, rfl⟩ := mem_decimal h
  exact isDecimal_digitChar hd

theorem isDecimal_of_mem_padded {c : Char} {w n : ℕ} (h : c ∈ padded w n) : isDecimal c = true := by
  obtain ⟨d, hd, rfl⟩ := mem_padded h
  exact isDecimal_digitChar hd

/-! ## Numbers -/

/-- `int` refuses longer texts (`sys.int_info.default_max_str_digits`). -/
def maxStrDigits : ℕ := 4300

/-- `str.strip`, for texts whose only white space is the space. -/
def pyStrip (s : List Char) : List Char :=
  ((s.dropWhile (· = ' ')).reverse.dropWhile (· = ' ')).reverse

/-- `int(s)`. -/
def pyInt (s : List Char) : Except PyError ℕ :=
  let t := pyStrip s
  if t ≠ [] ∧ t.all isDecimal ∧ t.length ≤ maxStrDigits then .ok (valueOf digitVal t)
  else .error .valueError

/-- `float(s)`: digits with at most one point among them, read as an exact rational. -/
def pyFloat (s : List Char) : Except PyError ℚ :=
  let whole := s.takeWhile (· ≠ '.')
  let fraction := (s.dropWhile (· ≠ '.')).tail
  if whole ++ fraction ≠ [] ∧ (whole ++ fraction).all isDecimal then
    .ok (valueOf digitVal whole + valueOf digitVal fraction / 10 ^ fraction.length)
  else .error .valueError

/-- The double that stands for an integer. -/
def asDouble (n : ℕ) : ℕ := roundBits 53 n

/-- Doubles hold the integers up to here. -/
theorem asDouble_of_le {n : ℕ} (h : n ≤ 2 ^ 53) : asDouble n = n := roundBits_of_le (by decide) h

theorem ne_of_isDecimal {c d : Char} (hc : isDecimal c = true) (hd : isDecimal d = false) :
    c ≠ d := by
  rintro rfl
  simp [hc] at hd

theorem pyStrip_of_isDecimal {s : List Char} (h : ∀ c ∈ s, isDecimal c = true) : pyStrip s = s := by
  have hspace : ∀ l : List Char, (∀ c ∈ l, isDecimal c = true) → l.dropWhile (· = ' ') = l := by
    intro l hl
    cases l with
    | nil => rfl
    | cons c l =>
      rw [List.dropWhile_cons_of_neg]
      simpa using ne_of_isDecimal (hl c List.mem_cons_self) (by decide)
  rw [pyStrip, hspace s h, hspace s.reverse (fun c hc => h c (List.mem_reverse.1 hc)),
    List.reverse_reverse]

theorem pyInt_decimal {n : ℕ} (h : n < 10 ^ maxStrDigits) : pyInt (decimal n) = .ok n := by
  have hall : ∀ c ∈ decimal n, isDecimal c = true := fun c hc => isDecimal_of_mem_decimal hc
  rw [pyInt, pyStrip_of_isDecimal hall, if_pos, valueOf_decimal knowsDigits_digitVal]
  exact ⟨decimal_ne_nil n, List.all_eq_true.2 hall, length_decimal_le (by decide) h⟩

theorem takeWhile_point {s : List Char} (h : ∀ c ∈ s, isDecimal c = true) :
    s.takeWhile (· ≠ '.') = s ∧ s.dropWhile (· ≠ '.') = [] := by
  have hne : ∀ c ∈ s, decide (c ≠ '.') = true := fun c hc =>
    decide_eq_true (ne_of_isDecimal (h c hc) (by decide))
  exact ⟨List.takeWhile_eq_self_iff.2 hne, List.dropWhile_eq_nil_iff.2 hne⟩

theorem split_point {a : List Char} (h : '.' ∉ a) (b : List Char) :
    (a ++ '.' :: b).takeWhile (· ≠ '.') = a ∧
      (a ++ '.' :: b).dropWhile (· ≠ '.') = '.' :: b := by
  have hne : ∀ c ∈ a, decide (c ≠ '.') = true := by
    intro c hc
    refine decide_eq_true ?_
    rintro rfl
    exact h hc
  rw [List.takeWhile_append_of_pos hne, List.dropWhile_append_of_pos hne]
  simp

theorem not_mem_point {s : List Char} (h : ∀ c ∈ s, isDecimal c = true) : '.' ∉ s :=
  fun hmem => ne_of_isDecimal (h _ hmem) (by decide) rfl

theorem pyFloat_decimal (n : ℕ) : pyFloat (decimal n) = .ok n := by
  have hall : ∀ c ∈ decimal n, isDecimal c = true := fun c hc => isDecimal_of_mem_decimal hc
  obtain ⟨htake, hdrop⟩ := takeWhile_point hall
  have hcond : decimal n ++ ([] : List Char).tail ≠ [] ∧
      (decimal n ++ ([] : List Char).tail).all isDecimal := by
    refine ⟨by simpa using decimal_ne_nil n, ?_⟩
    simpa using hall
  simp only [pyFloat, htake, hdrop, if_pos hcond, valueOf_decimal knowsDigits_digitVal]
  simp [valueOf]

/-- The value of `a.b`, with the fraction `b` written with at least three digits. -/
def pointValue (a b : ℕ) : ℚ := a + b / 10 ^ (padded 3 b).length

theorem pointValue_of_lt {a b : ℕ} (h : b < 1000) : pointValue a b = a + b / 1000 := by
  rw [pointValue, length_padded (by decide) h]
  norm_num

theorem pointValue_lt (a b : ℕ) : pointValue a b < a + 1 := by
  have hb : b < 10 ^ (padded 3 b).length := by
    have hpos : 0 < (decimal b).length := List.length_pos_iff.2 (decimal_ne_nil b)
    have hle : b < 10 ^ (decimal b).length :=
      (Nat.length_toDigits_le_iff (by decide) hpos).1 le_rfl
    refine hle.trans_le (Nat.pow_le_pow_right (by decide) ?_)
    rw [padded, List.length_append]
    omega
  have hq : (b : ℚ) < 10 ^ (padded 3 b).length := by exact_mod_cast hb
  have hlt : (b : ℚ) / 10 ^ (padded 3 b).length < 1 := (div_lt_one (by positivity)).2 hq
  rw [pointValue]
  linarith

theorem pyFloat_point (a b : ℕ) :
    pyFloat (decimal a ++ '.' :: padded 3 b) = .ok (pointValue a b) := by
  have ha : ∀ c ∈ decimal a, isDecimal c = true := fun c hc => isDecimal_of_mem_decimal hc
  have hb : ∀ c ∈ padded 3 b, isDecimal c = true := fun c hc => isDecimal_of_mem_padded hc
  obtain ⟨htake, hdrop⟩ := split_point (not_mem_point ha) (padded 3 b)
  have hcond : decimal a ++ padded 3 b ≠ [] ∧ (decimal a ++ padded 3 b).all isDecimal := by
    refine ⟨by simp [decimal_ne_nil], List.all_eq_true.2 fun c hc => ?_⟩
    rcases List.mem_append.1 hc with hc | hc
    · exact ha c hc
    · exact hb c hc
  simp only [pyFloat, htake, hdrop, List.tail_cons, if_pos hcond,
    valueOf_decimal knowsDigits_digitVal, valueOf_padded knowsDigits_digitVal, pointValue]

/-! ## Lists and lines -/

/-- `s.split(", ")`. -/
def pySplit : List Char → List (List Char)
  | [] => [[]]
  | ',' :: ' ' :: s => [] :: pySplit s
  | c :: s =>
    match pySplit s with
    | [] => [[c]]
    | w :: ws => (c :: w) :: ws

theorem pySplit_cons {c : Char} (h : c ≠ ',') (s : List Char) :
    pySplit (c :: s) = (match pySplit s with
      | [] => [[c]]
      | w :: ws => (c :: w) :: ws) := by
  rw [pySplit]
  simp [h]

theorem pySplit_of_no_comma {s : List Char} (h : ∀ c ∈ s, c ≠ ',') : pySplit s = [s] := by
  induction s with
  | nil => rfl
  | cons c s ih =>
    rw [pySplit_cons (h c List.mem_cons_self), ih fun d hd => h d (List.mem_cons_of_mem _ hd)]

theorem pySplit_append {s : List Char} (h : ∀ c ∈ s, c ≠ ',') (t : List Char) :
    pySplit (s ++ ',' :: ' ' :: t) = s :: pySplit t := by
  induction s with
  | nil => rfl
  | cons c s ih =>
    rw [List.cons_append, pySplit_cons (h c List.mem_cons_self),
      ih fun d hd => h d (List.mem_cons_of_mem _ hd)]

/-- Universal newlines: a text file is read with every line end as `\n`. -/
def translateNewlines : List Char → List Char
  | '\r' :: '\n' :: s => '\n' :: translateNewlines s
  | '\r' :: s => '\n' :: translateNewlines s
  | c :: s => c :: translateNewlines s
  | [] => []

/-- Cut a text after each `\n`. -/
def cutLines : List Char → List (List Char)
  | [] => []
  | c :: s =>
    if c = '\n' then ['\n'] :: cutLines s
    else match cutLines s with
      | [] => [[c]]
      | l :: ls => (c :: l) :: ls

/-- `for line in file`. -/
def pyLines (text : List Char) : List (List Char) := cutLines (translateNewlines text)

/-- A line as the firmware prints it: no line end but the last character. -/
def IsLine (l : List Char) : Prop := ∃ s, l = s ++ ['\n'] ∧ '\n' ∉ s ∧ '\r' ∉ s

theorem translateNewlines_cons {c : Char} (h : c ≠ '\r') (s : List Char) :
    translateNewlines (c :: s) = c :: translateNewlines s := by
  rw [translateNewlines]
  · rintro _ rfl
    exact absurd rfl h
  · rintro rfl
    exact absurd rfl h

theorem pyLines_line {l : List Char} (h : IsLine l) (rest : List Char) :
    pyLines (l ++ rest) = l :: pyLines rest := by
  obtain ⟨s, rfl, hn, hr⟩ := h
  induction s with
  | nil => rw [pyLines, List.nil_append, List.singleton_append,
      translateNewlines_cons (by decide), cutLines, if_pos rfl]; rfl
  | cons c s ih =>
    obtain ⟨hcn, hn⟩ := not_or.1 (fun h => hn (List.mem_cons.2 h))
    obtain ⟨hcr, hr⟩ := not_or.1 (fun h => hr (List.mem_cons.2 h))
    have ih' := ih hn hr
    rw [pyLines] at ih' ⊢
    rw [List.cons_append, List.cons_append, translateNewlines_cons (Ne.symm hcr), cutLines,
      if_neg (Ne.symm hcn), ih']

/-- A file of whole lines is read line by line. -/
theorem pyLines_flatten {ls : List (List Char)} (h : ∀ l ∈ ls, IsLine l) :
    pyLines ls.flatten = ls := by
  induction ls with
  | nil => rfl
  | cons l ls ih =>
    rw [List.flatten_cons, pyLines_line (h l List.mem_cons_self),
      ih fun l' hl' => h l' (List.mem_cons_of_mem _ hl')]

end WsnAggregation
