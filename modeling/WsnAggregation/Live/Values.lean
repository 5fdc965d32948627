import WsnAggregation.Live.Cut

/-!
# The values of a line that is cut

A line that is cut may lose what it records, or record a wrong time or a wrong missed count, but
not a wrong value: the samples have at most three characters, and the value of an aggregate is
read only with the field after it.
-/

namespace WsnAggregation.Live

open Lib

theorem aggregatorFields_value {parts : List (List Char)} {nodeId missed : ℤ} {aggValue : PyFloat}
    {time : ℚ} (h : aggregatorFields parts = .ok (nodeId, aggValue, missed, time))
    {field : List Char} (hfield : secondField parts[2]? = .ok field) (hne : field ≠ []) :
    parseFloat field = .ok aggValue := by
  simp only [aggregatorFields, bind_eq_ok] at h
  obtain ⟨_, -, _, -, field', hfield', h⟩ := h
  rw [hfield] at hfield'
  obtain rfl := Except.ok.inj hfield'
  split_ifs at h with hnil
  · exact absurd hnil hne
  · simp only [bind_eq_ok, pure, Except.pure, Except.ok.injEq, Prod.mk.injEq] at h
    obtain ⟨value, hvalue, _, -, _, -, _, -, -, rfl, -⟩ := h
    exact hvalue

namespace LogLine

variable {T : Target} (hint : T.intBits ≤ T.longBits)

theorem length_signed_le {z : ℤ} (hl : -99 ≤ z) (hu : z ≤ 999) : (signed z).length ≤ 3 := by
  rcases lt_or_ge z 0 with hz | hz
  · rw [signed_of_neg hz, List.length_cons]
    exact Nat.succ_le_succ (length_decimal_le (by decide) (by omega))
  · rw [signed_of_nonneg hz]
    exact length_decimal_le (by decide) (by omega)

/-- A numeral that is cut is not read with a time unless it is whole. -/
theorem eq_of_parseInt_slice {z v t : ℤ} {y : List Char} {label : String} {x : List Char}
    (hl : ':' ∉ label.toList) (hlen : (signed z).length ≤ 3)
    (hz : z.natAbs < 10 ^ maxStrDigits) (hx : x <+: labelled label (signed z) ++ [','])
    (hf : Faithful (labelled label (signed z) ++ [','])) (hy : secondField (some x) = .ok y)
    (hv : parseInt y = .ok v) (ht : parseInt (slice y) = .ok t) : v = z := by
  obtain ⟨a, b, rfl⟩ := hf x y t hx (secondField_eq_ok_iff.1 hy) ht
  have hcolon : ':' ∉ ' ' :: (signed z ++ [',']) := by
    simp [not_mem_signed (show ':'.isDigit = false by decide) (by decide) z]
  rw [labelled_append] at hx
  obtain ⟨-, hpre⟩ := splitOn_of_isPrefix hl hcolon hx (secondField_eq_ok_iff.1 hy)
  obtain ⟨-, hpre⟩ := List.cons_prefix_cons.1 hpre
  have hpos : 0 < (signed t).length := by
    obtain ⟨c, s, hs, -⟩ := begins_signed t
    rw [hs]
    exact Nat.succ_pos _
  rcases List.prefix_concat_iff.1 hpre with heq | hpre
  · -- The comma is no part of a numeral.
    rw [heq] at hv
    exact absurd hv (parseInt_ne_ok (c := ',') (by simp) (by decide) v)
  · have heq : signed t ++ [a, b] = signed z := by
      refine hpre.eq_of_length_le ?_
      rw [List.length_append, List.length_cons, List.length_singleton]
      omega
    rw [heq, parseInt_space, parseInt_signed hz] at hv
    exact (Except.ok.inj hv).symm

theorem getElem?_take_append {ps : List (List Char)} {i j : ℕ} (x : List Char) (hj : j < i)
    (hi : i ≤ ps.length) : (ps.take i ++ [x])[j]? = ps[j]? := by
  have hlen : (ps.take i).length = i := List.length_take_of_le hi
  rw [List.getElem?_append_left (hlen.symm ▸ hj), List.getElem?_take_of_lt hj]

include hint

/-- **A source line that is cut records its sample or nothing.** -/
theorem effect_take_sample {m : Message} {time : ℕ} (hlen : (signed m.sample).length ≤ 3)
    (h : (source m time).Typed T) {size : ℕ} (hsize : 0 < size) {nodeId v : ℤ} {t : ℚ}
    (heff : effect (strip (((source m time).text T).take size)) = .source nodeId (.ok (v, t))) :
    nodeId = T.toInt m.nodeId ∧ v = m.sample := by
  have hs := (source m time).shows_take (T := T) hsize
  obtain ⟨-, hfields, htime⟩ := effect_eq_source_ok_iff.1 heff
  refine ⟨(hs.sourceFields_eq_ok hint hfields).1, ?_⟩
  obtain ⟨i, x, f, hf, hx, heq⟩ := hs
  rw [heq] at hfields htime
  have hsample : m.sample.natAbs < 10 ^ maxStrDigits :=
    lt_ten_pow_maxStrDigits (h.1.natAbs_lt hint)
  have hpart : ((source m time).parts T)[2]? = some (labelled "sample" (signed m.sample)) := rfl
  have hi : i < ((source m time).parts T).length := by
    obtain ⟨p, hp, -⟩ := getElem?_withCommas hf
    exact (List.getElem?_eq_some_iff.1 hp).1
  obtain ⟨y, z, -, hz, hv, -⟩ := sourceFields_eq_ok_iff.1 hfields
  by_cases hcut : 2 < i
  · -- The sample is there whole.
    rw [getElem?_take_append x hcut hi.le, hpart,
      secondField_labelled (by decide) (not_mem_signed (by decide) (by decide) _)] at hz
    obtain rfl := Except.ok.inj hz
    rw [parseInt_space, parseInt_signed hsample] at hv
    exact (Except.ok.inj hv).symm
  · -- It is the last part, so it is also read as the time.
    have hlast : i = 2 := by
      by_contra hne
      have hnone : (((source m time).parts T).take i ++ [x])[2]? = none := by
        rw [List.getElem?_eq_none_iff, List.length_append, List.length_take_of_le hi.le,
          List.length_singleton]
        omega
      rw [hnone] at hz
      cases hz
    subst hlast
    have hfaithful := (source m time).faithful_parts f (List.mem_of_getElem? hf)
    obtain rfl : labelled "sample" (signed m.sample) ++ [','] = f := Option.some.inj hf
    have hget : (((source m time).parts T).take 2 ++ [x])[2]? = some x := rfl
    rw [hget] at hz
    rw [timeValue_eq, List.getLast?_concat, timeOf, hz] at htime
    simp only [bind_eq_ok, Except.ok.injEq, exists_eq_left'] at htime
    obtain ⟨t', ht', -⟩ := htime
    exact eq_of_parseInt_slice (by decide) hlen hsample hx hfaithful hz hv ht'

omit hint

/-- The value of an aggregate, as it is shown. -/
def shownValue (T : Target) (a : MessageAgg) : ℤ :=
  roundHalfEven (pointFloat (T.doubleToInt a.sample)
    (T.doubleToUnsigned T.intBits ((a.sample - T.doubleToInt a.sample) * 1000)))

/-- The node id of a line. -/
def nodeId : LogLine → ℕ
  | .source m _ => m.nodeId
  | .aggregator a _ => a.nodeId

/-- The value of a line, as it is shown. -/
def value (T : Target) : LogLine → ℤ
  | .source m _ => m.sample
  | .aggregator a _ => shownValue T a

include hint

/-- **An aggregator line that is cut records its value or nothing.** -/
theorem effect_take_value {a : MessageAgg} {time size : ℕ} (hsize : 0 < size) {nodeId v missed : ℤ}
    {t : ℚ} (heff : effect (strip (((aggregator a time).text T).take size)) =
      .aggregator nodeId (.ok (v, missed, t))) :
    nodeId = T.toInt a.nodeId ∧ v = shownValue T a := by
  have hs := (aggregator a time).shows_take (T := T) hsize
  obtain ⟨-, -, aggValue, hfields, hround⟩ := effect_eq_aggregator_ok_iff.1 heff
  refine ⟨(hs.aggregatorFields_eq_ok hint hfields).1, ?_⟩
  obtain ⟨i, x, f, hf, hx, heq⟩ := hs
  rw [heq] at hfields
  obtain ⟨-, z, -, -, hz, -, -⟩ := Live.aggregatorFields_eq_ok hfields
  -- The missed messages are read from the part after the value.
  have hvalue : (((aggregator a time).parts T).take i ++ [x])[2]? =
      ((aggregator a time).parts T)[2]? := getElem?_of_take hf hz (by decide)
  have hpart : ((aggregator a time).parts T)[2]? = some (labelled "sample"
      (pointText (T.doubleToInt a.sample)
        (T.doubleToUnsigned T.intBits ((a.sample - T.doubleToInt a.sample) * 1000)))) := rfl
  have hcolon : ':' ∉ pointText (T.doubleToInt a.sample)
      (T.doubleToUnsigned T.intBits ((a.sample - T.doubleToInt a.sample) * 1000)) :=
    not_mem_pointText (by decide) (by decide) (by decide) _ _
  have hfield := hvalue.trans hpart
  have hread := aggregatorFields_value hfields
    (hfield ▸ secondField_labelled (show ':' ∉ "sample".toList by decide) hcolon)
    (List.cons_ne_nil _ _)
  rw [parseFloat_pointText _ ((isInt_doubleToInt T a.sample).natAbs_lt hint)] at hread
  obtain rfl := Except.ok.inj hread
  exact (Except.ok.inj hround).symm

end LogLine

end WsnAggregation.Live
