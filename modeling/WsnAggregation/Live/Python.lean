import Mathlib.Algebra.Order.Round
import Mathlib.Data.List.DropRight
import Mathlib.Data.Rat.Floor
import WsnAggregation.Offline.Python

/-!
# Python, for the live plots

What the live reader uses of Python, on any text: `str.strip`, slices, `int`, `float`, `round` and
the division of integers. Here the texts are whatever a line holds, so signs, underscores,
exponents and the names of infinity and of the non-numbers all occur.

A double is read as an exact rational, but it has a largest value: a text beyond it is infinity,
and a quotient beyond it raises.
-/

namespace WsnAggregation.Live

open Lib

/-- The exceptions that the body of `parse_data` can raise. -/
inductive PyException where
  | indexError
  | valueError
  | overflowError
  deriving DecidableEq, Repr

/-! ## Texts -/

/-- `str.isspace`, of one character. -/
def isSpace (c : Char) : Bool :=
  let n := c.toNat
  (9 ≤ n && n ≤ 13) || (28 ≤ n && n ≤ 32) || n == 0x85 || n == 0xa0 || n == 0x1680 ||
    (0x2000 ≤ n && n ≤ 0x200a) || n == 0x2028 || n == 0x2029 || n == 0x202f || n == 0x205f ||
    n == 0x3000

/-- `s.strip()`. -/
def strip (s : List Char) : List Char := (s.dropWhile isSpace).rdropWhile isSpace

/-- `s[1:-2]`. -/
def slice (s : List Char) : List Char := (s.take (s.length - 2)).drop 1

/-! ## Numbers -/

/-- The white space that `int` and `float` leave out: not the four separators of ASCII. -/
def isNumberSpace (c : Char) : Bool := isSpace c && !(28 ≤ c.toNat && c.toNat ≤ 31)

/-- A text without the white space around it. -/
def stripNumber (s : List Char) : List Char :=
  (s.dropWhile isNumberSpace).rdropWhile isNumberSpace

/-- The sign, true for minus, and the rest of the text. -/
def splitSign : List Char → Bool × List Char
  | '-' :: s => (true, s)
  | '+' :: s => (false, s)
  | s => (false, s)

/-- A value with its sign. -/
def withSign {α : Type} [Neg α] (negative : Bool) (x : α) : α := if negative then -x else x

/-- A run of digits, with underscores allowed one at a time between digits; they are dropped. -/
def digitPart : List Char → Option (List Char)
  | [] => none
  | [c] => if isDecimal c then some [c] else none
  | c :: '_' :: s => if isDecimal c then (digitPart s).map (c :: ·) else none
  | c :: s => if isDecimal c then (digitPart s).map (c :: ·) else none

/-- `int(s)`. -/
def parseInt (s : List Char) : Except PyException ℤ :=
  let (negative, digits) := splitSign (stripNumber s)
  match digitPart digits with
  | some ds =>
    if ds.length ≤ maxStrDigits then .ok (withSign negative (valueOf digitVal ds))
    else .error .valueError
  | none => .error .valueError

/-- A `float`. -/
inductive PyFloat where
  | finite (q : ℚ)
  | infinity
  | nan
  deriving DecidableEq, Repr

/-- From this value on, rounding to a double gives infinity. -/
def overflowBound : ℚ := 2 ^ 1024 - 2 ^ 970

/-- The nearest double. -/
def toFloat (q : ℚ) : PyFloat := if overflowBound ≤ |q| then .infinity else .finite q

/-- A part of a number that may be left out. -/
def optionalDigits : List Char → Option (List Char)
  | [] => some []
  | s => digitPart s

/-- The value of a number before its exponent: digits with a point among or around them. -/
def mantissa (s : List Char) : Option ℚ :=
  match s.dropWhile (· ≠ '.') with
  | [] => (digitPart s).map fun ds => (valueOf digitVal ds : ℚ)
  | _ :: fraction =>
    if s = ['.'] then none
    else do
      let whole ← optionalDigits (s.takeWhile (· ≠ '.'))
      let fraction ← optionalDigits fraction
      return valueOf digitVal whole + valueOf digitVal fraction / 10 ^ fraction.length

/-- The exponent: the part from the `e` on. -/
def exponent : List Char → Option ℤ
  | [] => some 0
  | _ :: s =>
    let (negative, digits) := splitSign s
    (digitPart digits).map fun ds => withSign negative (valueOf digitVal ds : ℤ)

/-- Does the text name infinity? -/
def namesInfinity (s : List Char) : Bool :=
  s.map Char.toLower == "inf".toList || s.map Char.toLower == "infinity".toList

/-- `float(s)`. -/
def parseFloat (s : List Char) : Except PyException PyFloat :=
  let (negative, number) := splitSign (stripNumber s)
  if namesInfinity number then .ok .infinity
  else if number.map Char.toLower == "nan".toList then .ok .nan
  else
    match mantissa (number.takeWhile fun c => c ≠ 'e' && c ≠ 'E'),
        exponent (number.dropWhile fun c => c ≠ 'e' && c ≠ 'E') with
    | some m, some e => .ok (toFloat (withSign negative (m * 10 ^ e)))
    | _, _ => .error .valueError

/-- The nearest integer, and the even one of two. -/
def roundHalfEven (q : ℚ) : ℤ :=
  if Int.fract q < 1 / 2 then ⌊q⌋
  else if 1 / 2 < Int.fract q then ⌊q⌋ + 1
  else if Even ⌊q⌋ then ⌊q⌋
  else ⌊q⌋ + 1

/-- `round(x)`. -/
def pyRound : PyFloat → Except PyException ℤ
  | .finite q => .ok (roundHalfEven q)
  | .infinity => .error .overflowError
  | .nan => .error .valueError

/-- `n / 1000`. -/
def divThousand (n : ℤ) : Except PyException ℚ :=
  if overflowBound ≤ |(n / 1000 : ℚ)| then .error .overflowError else .ok (n / 1000)

/-! ## Stripping -/

theorem dropWhile_of_head {s : List Char} (h : ∀ c ∈ s.head?, isSpace c = false) :
    s.dropWhile isSpace = s := by
  cases s with
  | nil => rfl
  | cons c s => exact List.dropWhile_cons_of_neg (by simp [h c rfl])

theorem rdropWhile_of_last {s : List Char} (h : ∀ c ∈ s.getLast?, isSpace c = false) :
    s.rdropWhile isSpace = s := by
  rw [List.rdropWhile_eq_self_iff]
  intro hne
  simp [h _ (List.getLast?_eq_some_getLast hne)]

theorem isSpace_newline : ∀ c ∈ ['\n'], isSpace c = true := by
  intro c hc
  rw [List.mem_singleton.1 hc]
  rfl

theorem strip_append_space {s w : List Char} (h : ∀ c ∈ w, isSpace c = true) :
    strip (s ++ w) = strip s := by
  have hright : ∀ t : List Char, (t ++ w).rdropWhile isSpace = t.rdropWhile isSpace := by
    intro t
    rw [List.rdropWhile, List.reverse_append,
      List.dropWhile_append_of_pos (fun c hc => h c (List.mem_reverse.1 hc)), List.rdropWhile]
  rw [strip, strip, List.dropWhile_append]
  split_ifs with hnil
  · have hw : w.dropWhile isSpace = [] := List.dropWhile_eq_nil_iff.2 h
    rw [hw, List.isEmpty_iff.1 hnil]
  · exact hright _

theorem strip_space_append {s w : List Char} (h : ∀ c ∈ w, isSpace c = true) :
    strip (w ++ s) = strip s := by
  rw [strip, List.dropWhile_append_of_pos h, strip]

theorem strip_of_ends {s : List Char} (hhead : ∀ c ∈ s.head?, isSpace c = false)
    (hlast : ∀ c ∈ s.getLast?, isSpace c = false) : strip s = s := by
  rw [strip, dropWhile_of_head hhead, rdropWhile_of_last hlast]

/-- The text is empty or begins with something else than white space. -/
def Starts (t : List Char) : Prop := ∀ c ∈ t.head?, isSpace c = false

theorem strip_of_starts {t : List Char} (h : Starts t) : strip t = t.rdropWhile isSpace := by
  rw [strip, dropWhile_of_head h]

/-- Only white space at the very end is dropped. -/
theorem rdropWhile_append_of_ne_nil {u : List Char} (h : u.rdropWhile isSpace ≠ [])
    (t : List Char) : (t ++ u).rdropWhile isSpace = t ++ u.rdropWhile isSpace := by
  have hne : ¬(u.reverse.dropWhile isSpace).isEmpty = true := by
    rw [List.isEmpty_iff]
    intro hnil
    exact h (by rw [List.rdropWhile, hnil, List.reverse_nil])
  rw [List.rdropWhile, List.reverse_append, List.dropWhile_append, if_neg hne,
    List.reverse_append, List.reverse_reverse, List.rdropWhile]

/-- The text begins with something else than white space. -/
def Begins (t : List Char) : Prop := ∃ c u, t = c :: u ∧ isSpace c = false

theorem Begins.ne_nil {t : List Char} (h : Begins t) : t ≠ [] := by
  obtain ⟨c, u, rfl, -⟩ := h
  exact List.cons_ne_nil c u

theorem Begins.append {t : List Char} (h : Begins t) (u : List Char) : Begins (t ++ u) := by
  obtain ⟨c, t, rfl, hc⟩ := h
  exact ⟨c, t ++ u, rfl, hc⟩

theorem Begins.take {t : List Char} (h : Begins t) {n : ℕ} (hn : 0 < n) : Begins (t.take n) := by
  obtain ⟨c, u, rfl, hc⟩ := h
  obtain ⟨n, rfl⟩ := Nat.exists_eq_succ_of_ne_zero (Nat.ne_of_gt hn)
  exact ⟨c, u.take n, List.take_succ_cons, hc⟩

theorem Begins.starts {t : List Char} (h : Begins t) : Starts t := by
  obtain ⟨c, u, rfl, hc⟩ := h
  intro d hd
  cases hd
  exact hc

theorem Begins.rdropWhile_ne_nil {t : List Char} (h : Begins t) : t.rdropWhile isSpace ≠ [] := by
  obtain ⟨c, u, rfl, hc⟩ := h
  intro hnil
  have hspace := List.rdropWhile_eq_nil_iff.1 hnil c List.mem_cons_self
  rw [hc] at hspace
  cases hspace

theorem not_mem_strip {c : Char} {t : List Char} (h : c ∉ t) : c ∉ strip t := fun hc =>
  h ((List.dropWhile_suffix _).subset ((List.rdropWhile_prefix _ _).subset hc))

/-! ## Integers -/

theorem stripNumber_of_not_space {s : List Char} (h : ∀ c ∈ s, isNumberSpace c = false) :
    stripNumber s = s := by
  have hdrop : s.dropWhile isNumberSpace = s := by
    cases s with
    | nil => rfl
    | cons c s => exact List.dropWhile_cons_of_neg (by simp [h c List.mem_cons_self])
  rw [stripNumber, hdrop, List.rdropWhile_eq_self_iff]
  intro hne
  simp [h _ (List.getLast_mem hne)]

@[simp] theorem stripNumber_space (s : List Char) : stripNumber (' ' :: s) = stripNumber s := by
  rw [stripNumber, List.dropWhile_cons_of_pos (by decide), stripNumber]

@[simp] theorem parseInt_space (s : List Char) : parseInt (' ' :: s) = parseInt s := by
  simp only [parseInt, stripNumber_space]

theorem isSpace_of_isDigit {c : Char} (h : c.isDigit = true) : isSpace c = false := by
  have hn : 48 ≤ c.toNat ∧ c.toNat ≤ 57 := by
    simpa [Char.isDigit, UInt32.le_iff_toNat_le] using h
  simp only [isSpace]
  have : ¬c.toNat ≤ 13 := by omega
  have : ¬c.toNat ≤ 32 := by omega
  simp
  omega

theorem isNumberSpace_of_isDigit {c : Char} (h : c.isDigit = true) : isNumberSpace c = false := by
  rw [isNumberSpace, isSpace_of_isDigit h, Bool.false_and]

theorem isDigit_of_mem_decimal {c : Char} {n : ℕ} (h : c ∈ decimal n) : c.isDigit = true :=
  Nat.isDigit_of_mem_toDigits (by decide) (by decide) h

theorem splitSign_of_isDecimal {s : List Char} (h : ∀ c ∈ s, isDecimal c = true) :
    splitSign s = (false, s) := by
  unfold splitSign
  split
  · exact absurd (h '-' List.mem_cons_self) (by decide)
  · exact absurd (h '+' List.mem_cons_self) (by decide)
  · rfl

theorem digitPart_of_isDecimal {s : List Char} (hne : s ≠ []) (h : ∀ c ∈ s, isDecimal c = true) :
    digitPart s = some s := by
  fun_induction digitPart s with
  | case1 => exact absurd rfl hne
  | case2 c hc => rfl
  | case3 c hc => exact absurd (h c List.mem_cons_self) hc
  | case4 c s hc ih => exact absurd (h '_' (by simp)) (by decide)
  | case5 c s hc => exact absurd (h c List.mem_cons_self) hc
  | case6 c s hs hu hc ih =>
    rw [ih (fun hnil => hs hnil) fun d hd => h d (List.mem_cons_of_mem _ hd)]
    rfl
  | case7 c s hs hu hc => exact absurd (h c List.mem_cons_self) hc

theorem stripNumber_of_isPrefix {z : ℤ} {s : List Char} (h : s <+: signed z) :
    stripNumber s = s := by
  refine stripNumber_of_not_space fun c hc => ?_
  have hmem : c ∈ signed z := h.subset hc
  unfold signed at hmem
  split_ifs at hmem
  · rcases List.mem_cons.1 hmem with rfl | hmem
    · decide
    · exact isNumberSpace_of_isDigit (isDigit_of_mem_decimal hmem)
  · exact isNumberSpace_of_isDigit (isDigit_of_mem_decimal hmem)

theorem isDecimal_of_isPrefix {n : ℕ} {s : List Char} (h : s <+: decimal n) :
    ∀ c ∈ s, isDecimal c = true := fun _ hc => isDecimal_of_mem_decimal (h.subset hc)

theorem parseInt_eq_of_digits {s ds : List Char} {negative : Bool} {v : ℤ}
    (hsign : splitSign (stripNumber s) = (negative, ds)) (hds : ∀ c ∈ ds, isDecimal c = true) :
    parseInt s = .ok v ↔ ds ≠ [] ∧ ds.length ≤ maxStrDigits ∧
      v = withSign negative (valueOf digitVal ds : ℤ) := by
  rw [parseInt, hsign]
  by_cases hne : ds = []
  · simp [hne, digitPart]
  · simp only [digitPart_of_isDecimal hne hds]
    split_ifs with hlen
    · simp [hne, hlen, eq_comm]
    · simp [hlen]

/-- A printed integer is read back. -/
theorem parseInt_signed {z : ℤ} (h : z.natAbs < 10 ^ maxStrDigits) :
    parseInt (signed z) = .ok z := by
  have hlen := length_decimal_le (show 0 < maxStrDigits by decide) h
  have hdec := isDecimal_of_isPrefix (List.prefix_refl (decimal z.natAbs))
  have hstrip := stripNumber_of_isPrefix (List.prefix_refl (signed z))
  rcases lt_or_ge z 0 with hz | hz
  · have hsign : splitSign (stripNumber (signed z)) = (true, decimal z.natAbs) := by
      rw [hstrip, signed_of_neg hz]
      rfl
    rw [parseInt_eq_of_digits hsign hdec, valueOf_decimal knowsDigits_digitVal]
    refine ⟨decimal_ne_nil _, hlen, ?_⟩
    simp only [withSign, if_true]
    omega
  · have hsign : splitSign (stripNumber (signed z)) = (false, decimal z.natAbs) := by
      rw [hstrip, signed_of_nonneg hz, splitSign_of_isDecimal hdec]
    rw [parseInt_eq_of_digits hsign hdec, valueOf_decimal knowsDigits_digitVal]
    refine ⟨decimal_ne_nil _, hlen, ?_⟩
    simp only [withSign, Bool.false_eq_true, if_false]
    omega

/-- Whatever the beginning of a printed integer is read as, it is the numeral of that. -/
theorem eq_signed_of_isPrefix {z v : ℤ} {s : List Char} (hs : s <+: signed z)
    (h : parseInt s = .ok v) : s = signed v := by
  have hstrip := stripNumber_of_isPrefix hs
  rcases lt_or_ge z 0 with hz | hz
  · rw [signed_of_neg hz] at hs
    cases s with
    | nil => cases h
    | cons c g =>
      rw [List.cons_prefix_cons] at hs
      obtain ⟨rfl, hg⟩ := hs
      have hsign : splitSign (stripNumber ('-' :: g)) = (true, g) := by
        rw [hstrip]
        rfl
      rw [parseInt_eq_of_digits hsign (isDecimal_of_isPrefix hg)] at h
      obtain ⟨hne, -, hv⟩ := h
      have hnum := decimal_of_isPrefix knowsDigits_digitVal hne hg
      -- The numeral of a negative number does not begin with a zero.
      have hpos : valueOf digitVal g ≠ 0 := by
        intro hzero
        rw [hnum, hzero] at hg
        have := eq_zero_of_isPrefix hg
        omega
      simp only [withSign, if_true] at hv
      rw [signed_of_neg (show v < 0 by omega), show v.natAbs = valueOf digitVal g by omega, ← hnum]
  · rw [signed_of_nonneg hz] at hs
    have hsign : splitSign (stripNumber s) = (false, s) := by
      rw [hstrip, splitSign_of_isDecimal (isDecimal_of_isPrefix hs)]
    rw [parseInt_eq_of_digits hsign (isDecimal_of_isPrefix hs)] at h
    obtain ⟨hne, -, hv⟩ := h
    simp only [withSign, Bool.false_eq_true, if_false] at hv
    rw [hv, signed_natCast]
    exact decimal_of_isPrefix knowsDigits_digitVal hne hs

/-! ## Texts that are not numbers -/

/-- The characters that an integer may have. -/
def isNumberChar (c : Char) : Bool :=
  isNumberSpace c || c == '-' || c == '+' || c == '_' || isDecimal c

theorem mem_stripNumber {c : Char} {s : List Char} (hc : c ∈ s)
    (hspace : isNumberSpace c = false) : c ∈ stripNumber s := by
  rw [← List.takeWhile_append_dropWhile (p := isNumberSpace) (l := s), List.mem_append] at hc
  rcases hc with hc | hc
  · rw [List.mem_takeWhile_imp hc] at hspace
    cases hspace
  · rw [← List.rdropWhile_append_rtakeWhile (p := isNumberSpace)
      (l := s.dropWhile isNumberSpace), List.mem_append] at hc
    rcases hc with hc | hc
    · exact hc
    · rw [List.mem_rtakeWhile_imp hc] at hspace
      cases hspace

theorem isDecimal_of_mem_digitPart {s ds : List Char} (h : digitPart s = some ds) {c : Char}
    (hc : c ∈ s) : c = '_' ∨ isDecimal c = true := by
  fun_induction digitPart s generalizing ds with
  | case1 => cases h
  | case2 d hd => exact Or.inr (by rwa [List.mem_singleton.1 hc])
  | case3 => cases h
  | case4 d s hd ih =>
    rcases List.mem_cons.1 hc with rfl | hc
    · exact Or.inr hd
    · rcases List.mem_cons.1 hc with rfl | hc
      · exact Or.inl rfl
      · obtain ⟨ds', hds', -⟩ := Option.map_eq_some_iff.1 h
        exact ih hds' hc
  | case5 => cases h
  | case6 d s hs hu hd ih =>
    rcases List.mem_cons.1 hc with rfl | hc
    · exact Or.inr hd
    · obtain ⟨ds', hds', -⟩ := Option.map_eq_some_iff.1 h
      exact ih hds' hc
  | case7 => cases h

theorem parseInt_ne_ok {s : List Char} {c : Char} (hc : c ∈ s) (hnot : isNumberChar c = false)
    (v : ℤ) : parseInt s ≠ .ok v := by
  simp only [isNumberChar, Bool.or_eq_false_iff, beq_eq_false_iff_ne] at hnot
  obtain ⟨⟨⟨⟨hspace, hminus⟩, hplus⟩, hunder⟩, hdec⟩ := hnot
  have hmem := mem_stripNumber hc hspace
  have hdigits : c ∈ (splitSign (stripNumber s)).2 := by
    unfold splitSign
    split
    · rename_i heq
      rw [heq] at hmem
      exact (List.mem_cons.1 hmem).resolve_left hminus
    · rename_i heq
      rw [heq] at hmem
      exact (List.mem_cons.1 hmem).resolve_left hplus
    · exact hmem
  intro hok
  rw [parseInt] at hok
  cases hpart : digitPart (splitSign (stripNumber s)).2 with
  | none =>
    simp only [hpart] at hok
    cases hok
  | some ds =>
    rcases isDecimal_of_mem_digitPart hpart hdigits with h | h
    · exact hunder h
    · rw [hdec] at h
      cases h

end WsnAggregation.Live
