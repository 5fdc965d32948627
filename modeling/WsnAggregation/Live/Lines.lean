import WsnAggregation.Live.Parse
import WsnAggregation.Offline.RoundTrip

/-!
# The printed lines, live

What `parse_data` makes of the lines that the firmware prints and `SerialSocketServer` stamps. A
line is its parts joined by `, `, and most parts are a label and a value. Without the line feed,
which the receiver strips off, a source line always records its sample, and an aggregator line its
rounded value.
-/

namespace WsnAggregation.Live

open Lib

/-! ## Parts -/

/-- Texts joined by `, `. -/
def joined : List (List Char) → List Char
  | [] => []
  | [p] => p
  | p :: q :: ps => p ++ ',' :: ' ' :: joined (q :: ps)

/-- A part with a label. -/
def labelled (label : String) (value : List Char) : List Char :=
  label.toList ++ ':' :: ' ' :: value

/-- The text of a number with a fraction. -/
def pointText (a : ℤ) (b : ℕ) : List Char := signed a ++ '.' :: padded 3 b

/-- The parts of a source line. -/
def sourceParts (nodeId sample aMean : ℤ) (bMean aVariance bVariance msgId time : ℕ) :
    List (List Char) :=
  ["source".toList, labelled "node_id" (signed nodeId), labelled "sample" (signed sample),
    labelled "mean" (pointText aMean bMean), labelled "variance" (pointText aVariance bVariance),
    labelled "msg_id" (decimal msgId ++ [' ']), labelled "time" (decimal time ++ " #".toList)]

/-- The parts of an aggregator line. -/
def aggregatorParts (nodeId aSample : ℤ) (bSample : ℕ) (missedSamples : ℤ) (msgIds : Fin 3 → ℕ)
    (nodeIds : Fin 3 → ℤ) (time : ℕ) : List (List Char) :=
  ["aggregator".toList, labelled "node_id" (signed nodeId),
    labelled "sample" (pointText aSample bSample), labelled "missed_samples" (signed missedSamples),
    labelled "msg_ids_in_msg" ('[' :: decimal (msgIds 0)), decimal (msgIds 1),
    decimal (msgIds 2) ++ [']'], labelled "node_ids_in_msg" ('[' :: signed (nodeIds 0)),
    signed (nodeIds 1), signed (nodeIds 2) ++ "] ".toList,
    labelled "time" (decimal time ++ " #".toList)]

theorem pySplit_joined {ps : List (List Char)} (hne : ps ≠ []) (h : ∀ p ∈ ps, ',' ∉ p) :
    pySplit (joined ps) = ps := by
  have hcomma : ∀ p ∈ ps, ∀ c ∈ p, c ≠ ',' := by
    rintro p hp c hc rfl
    exact h p hp hc
  clear h
  induction ps with
  | nil => exact absurd rfl hne
  | cons p ps ih =>
    cases ps with
    | nil => exact pySplit_of_no_comma (hcomma p List.mem_cons_self)
    | cons q ps =>
      rw [joined, pySplit_append (hcomma p List.mem_cons_self),
        ih (List.cons_ne_nil q ps) fun r hr => hcomma r (List.mem_cons_of_mem _ hr)]

theorem sourceText_eq (nodeId sample aMean : ℤ) (bMean aVariance bVariance msgId time : ℕ) :
    sourceText nodeId sample aMean bMean aVariance bVariance msgId time =
      joined (sourceParts nodeId sample aMean bMean aVariance bVariance msgId time) ++ ['\n'] := by
  have hfirst : "source, node_id: ".toList =
      "source".toList ++ ',' :: ' ' :: ("node_id".toList ++ [':', ' ']) := rfl
  have hsample : ", sample: ".toList = ',' :: ' ' :: ("sample".toList ++ [':', ' ']) := rfl
  have hmean : ", mean: ".toList = ',' :: ' ' :: ("mean".toList ++ [':', ' ']) := rfl
  have hvariance : ", variance: ".toList = ',' :: ' ' :: ("variance".toList ++ [':', ' ']) := rfl
  have hmsg : ", msg_id: ".toList = ',' :: ' ' :: ("msg_id".toList ++ [':', ' ']) := rfl
  have htime : " , time: ".toList = ' ' :: ',' :: ' ' :: ("time".toList ++ [':', ' ']) := rfl
  have hpoint : ".".toList = ['.'] := rfl
  have hend : " #\n".toList = " #".toList ++ ['\n'] := rfl
  unfold sourceText sourceParts
  simp only [joined, labelled, pointText, signed_natCast, hfirst, hsample, hmean, hvariance, hmsg,
    htime, hpoint, hend, List.flatten_cons, List.flatten_nil, List.append_assoc, List.cons_append,
    List.nil_append, List.append_nil]

theorem aggregatorText_eq (nodeId aSample : ℤ) (bSample : ℕ) (missedSamples : ℤ)
    (msgIds : Fin 3 → ℕ) (nodeIds : Fin 3 → ℤ) (time : ℕ) :
    aggregatorText nodeId aSample bSample missedSamples msgIds nodeIds time =
      joined (aggregatorParts nodeId aSample bSample missedSamples msgIds nodeIds time) ++
        ['\n'] := by
  have hfirst : "aggregator, node_id: ".toList =
      "aggregator".toList ++ ',' :: ' ' :: ("node_id".toList ++ [':', ' ']) := rfl
  have hsample : ", sample: ".toList = ',' :: ' ' :: ("sample".toList ++ [':', ' ']) := rfl
  have hmissed : ", missed_samples: ".toList =
      ',' :: ' ' :: ("missed_samples".toList ++ [':', ' ']) := rfl
  have hmsg : ", msg_ids_in_msg: [".toList =
      ',' :: ' ' :: ("msg_ids_in_msg".toList ++ [':', ' ', '[']) := rfl
  have hnode : "], node_ids_in_msg: [".toList =
      ']' :: ',' :: ' ' :: ("node_ids_in_msg".toList ++ [':', ' ', '[']) := rfl
  have htime : "] , time: ".toList = "] ".toList ++ ',' :: ' ' :: ("time".toList ++ [':', ' ']) :=
    rfl
  have hcomma : ", ".toList = [',', ' '] := rfl
  have hpoint : ".".toList = ['.'] := rfl
  have hend : " #\n".toList = " #".toList ++ ['\n'] := rfl
  unfold aggregatorText aggregatorParts
  simp only [joined, labelled, pointText, hfirst, hsample, hmissed, hmsg, hnode, htime, hcomma,
    hpoint, hend, List.flatten_cons, List.flatten_nil, List.append_assoc, List.cons_append,
    List.nil_append, List.append_nil]

theorem not_mem_labelled {c : Char} {label : String} {value : List Char} (hl : c ∉ label.toList)
    (hcolon : c ≠ ':') (hspace : c ≠ ' ') (hv : c ∉ value) : c ∉ labelled label value := by
  simp [labelled, hl, hcolon, hspace, hv]

theorem not_mem_pointText {c : Char} (hc : c.isDigit = false) (hm : c ≠ '-') (hp : c ≠ '.')
    (a : ℤ) (b : ℕ) : c ∉ pointText a b := by
  simp [pointText, not_mem_signed hc hm, not_mem_padded hc, hp]

/-! ## Fields -/

theorem secondField_labelled {label : String} {value : List Char} (hl : ':' ∉ label.toList)
    (hv : ':' ∉ value) : secondField (some (labelled label value)) = .ok (' ' :: value) := by
  have hsplit : (labelled label value).splitOn ':' = [label.toList, ' ' :: value] := by
    rw [labelled, List.splitOn_append_cons_self_of_not_mem hl,
      List.splitOn_eq_singleton (by simpa using hv)]
  simp only [secondField, Option.bind_some, hsplit]
  rfl

@[simp] theorem slice_cons_append (c a b : Char) (g : List Char) :
    slice (c :: (g ++ [a, b])) = g := by
  simp [slice]

theorem parseInt_decimal {n : ℕ} (h : n < 10 ^ maxStrDigits) : parseInt (decimal n) = .ok n := by
  rw [← signed_natCast]
  exact parseInt_signed (by simpa using h)

theorem overflowBound_large : (2 : ℚ) ^ 64 + 1 < overflowBound := by
  have hsplit : (2 : ℚ) ^ 1024 = 2 ^ 970 * 2 ^ 54 := by rw [← pow_add]
  have hle : (2 : ℚ) ^ 64 ≤ 2 ^ 970 := pow_le_pow_right₀ (by norm_num) (by norm_num)
  rw [overflowBound, hsplit]
  generalize (2 : ℚ) ^ 970 = x at hle ⊢
  norm_num at hle ⊢
  linarith

theorem divThousand_of_lt {n : ℕ} (h : n < 2 ^ 64) : divThousand n = .ok ((n : ℚ) / 1000) := by
  have hn : (n : ℚ) < 2 ^ 64 := by exact_mod_cast h
  have hnonneg : (0 : ℚ) ≤ n := Nat.cast_nonneg n
  have hlarge := overflowBound_large
  have hlt : ¬overflowBound ≤ |((n : ℤ) / 1000 : ℚ)| := by
    rw [not_le, Int.cast_natCast, abs_of_nonneg (by positivity)]
    linarith
  rw [divThousand, if_neg hlt, Int.cast_natCast]

/-- The time of a line, from its last part. -/
def timeOf (part : Option (List Char)) : Except PyException ℚ := do
  let field ← secondField part
  let time ← parseInt (slice field)
  divThousand time

theorem timeValue_eq (parts : List (List Char)) : timeValue parts = timeOf parts.getLast? := rfl

theorem timeOf_time {time : ℕ} (h : time < 2 ^ 64) :
    timeOf (some (labelled "time" (decimal time ++ " #".toList))) = .ok ((time : ℚ) / 1000) := by
  have hcolon : ':' ∉ decimal time ++ " #".toList := by
    rw [List.mem_append, not_or]
    exact ⟨not_mem_decimal (by decide) time, by decide⟩
  have hslice : slice (' ' :: (decimal time ++ " #".toList)) = decimal time :=
    slice_cons_append ' ' ' ' '#' (decimal time)
  simp only [timeOf, secondField_labelled (show ':' ∉ "time".toList by decide) hcolon, bind,
    Except.bind, hslice, parseInt_decimal (lt_ten_pow_maxStrDigits h), divThousand_of_lt h]

theorem sourceFields_eq {nodeId sample : ℤ} (hn : nodeId.natAbs < 10 ^ maxStrDigits)
    (hs : sample.natAbs < 10 ^ maxStrDigits) (p : List Char) (rest : List (List Char)) :
    sourceFields (p :: labelled "node_id" (signed nodeId) :: labelled "sample" (signed sample) ::
      rest) = .ok (nodeId, sample) := by
  have hcolon : ∀ z, ':' ∉ signed z := not_mem_signed (by decide) (by decide)
  simp only [sourceFields, List.getElem?_cons_succ, List.getElem?_cons_zero,
    secondField_labelled (show ':' ∉ "node_id".toList by decide) (hcolon _),
    secondField_labelled (show ':' ∉ "sample".toList by decide) (hcolon _), bind, Except.bind,
    parseInt_space, parseInt_signed hn, parseInt_signed hs]
  rfl

/-! ## Decimal fractions -/

/-- The value of the text of a number with a fraction. -/
def pointFloat (a : ℤ) (b : ℕ) : ℚ := withSign (decide (a < 0)) (pointValue a.natAbs b)

theorem abs_withSign (negative : Bool) (q : ℚ) : |withSign negative q| = |q| := by
  unfold withSign
  split_ifs
  · exact abs_neg q
  · rfl

theorem isDigit_of_mem_padded {c : Char} {w n : ℕ} (h : c ∈ padded w n) : c.isDigit = true := by
  by_contra hc
  exact not_mem_padded (by simpa using hc) w n h

theorem stripNumber_pointText (a : ℤ) (b : ℕ) : stripNumber (pointText a b) = pointText a b := by
  refine stripNumber_of_not_space fun c hc => ?_
  simp only [pointText, List.mem_append, List.mem_cons] at hc
  rcases hc with hc | rfl | hc
  · unfold signed at hc
    split_ifs at hc
    · rcases List.mem_cons.1 hc with rfl | hc
      · decide
      · exact isNumberSpace_of_isDigit (isDigit_of_mem_decimal hc)
    · exact isNumberSpace_of_isDigit (isDigit_of_mem_decimal hc)
  · decide
  · exact isNumberSpace_of_isDigit (isDigit_of_mem_padded hc)

theorem splitSign_pointText (a : ℤ) (b : ℕ) :
    splitSign (pointText a b) = (decide (a < 0), decimal a.natAbs ++ '.' :: padded 3 b) := by
  rcases lt_or_ge a 0 with ha | ha
  · rw [pointText, signed_of_neg ha, decide_eq_true ha]
    rfl
  · rw [pointText, signed_of_nonneg ha, decide_eq_false (not_lt.2 ha)]
    cases hd : decimal a.natAbs with
    | nil => exact absurd hd (decimal_ne_nil _)
    | cons c s =>
      have hc : c.isDigit = true := isDigit_of_mem_decimal (hd ▸ List.mem_cons_self)
      unfold splitSign
      split
      · rename_i heq
        obtain ⟨rfl, -⟩ := List.cons.inj heq
        exact absurd hc (by decide)
      · rename_i heq
        obtain ⟨rfl, -⟩ := List.cons.inj heq
        exact absurd hc (by decide)
      · rfl

theorem pointDigits_ne_name (a b : ℕ) (name : List Char) (h : '.' ∉ name) :
    ((decimal a ++ '.' :: padded 3 b).map Char.toLower == name) = false := by
  rw [beq_eq_false_iff_ne]
  rintro rfl
  apply h
  rw [List.mem_map]
  exact ⟨'.', by simp, by decide⟩

theorem optionalDigits_of_isDecimal {s : List Char} (hne : s ≠ [])
    (h : ∀ c ∈ s, isDecimal c = true) : optionalDigits s = some s := by
  cases s with
  | nil => exact absurd rfl hne
  | cons c s => exact digitPart_of_isDecimal hne h

theorem mantissa_point (a b : ℕ) :
    mantissa (decimal a ++ '.' :: padded 3 b) = some (pointValue a b) := by
  have hdec : ∀ c ∈ decimal a, isDecimal c = true := fun c hc => isDecimal_of_mem_decimal hc
  have hpad : ∀ c ∈ padded 3 b, isDecimal c = true := fun c hc => isDecimal_of_mem_padded hc
  have hpadne : padded 3 b ≠ [] := by simp [padded, decimal_ne_nil]
  obtain ⟨htake, hdrop⟩ := split_point (not_mem_point hdec) (padded 3 b)
  have hne : decimal a ++ '.' :: padded 3 b ≠ ['.'] := by
    intro heq
    have hlen := congrArg List.length heq
    have := List.length_pos_iff.2 (decimal_ne_nil a)
    simp at hlen
    omega
  simp only [mantissa, hdrop, htake, if_neg hne,
    optionalDigits_of_isDecimal (decimal_ne_nil a) hdec, optionalDigits_of_isDecimal hpadne hpad]
  simp [pointValue, valueOf_decimal knowsDigits_digitVal, valueOf_padded knowsDigits_digitVal]

theorem not_exponent_point (a b : ℕ) :
    ∀ c ∈ decimal a ++ '.' :: padded 3 b, (c ≠ 'e' && c ≠ 'E') = true := by
  have hdecimal : ∀ c, isDecimal c = true → (c ≠ 'e' && c ≠ 'E') = true := by
    intro c hc
    simp [ne_of_isDecimal hc (show isDecimal 'e' = false by decide),
      ne_of_isDecimal hc (show isDecimal 'E' = false by decide)]
  intro c hc
  simp only [List.mem_append, List.mem_cons] at hc
  rcases hc with hc | rfl | hc
  · exact hdecimal c (isDecimal_of_mem_decimal hc)
  · decide
  · exact hdecimal c (isDecimal_of_mem_padded hc)

/-- The value is not too large for a double. -/
theorem toFloat_pointFloat {a : ℤ} (b : ℕ) (ha : a.natAbs < 2 ^ 64) :
    toFloat (pointFloat a b) = .finite (pointFloat a b) := by
  have hlarge := overflowBound_large
  have hlt := pointValue_lt a.natAbs b
  have hcast : (a.natAbs : ℚ) < 2 ^ 64 := by exact_mod_cast ha
  have hnot : ¬overflowBound ≤ |pointFloat a b| := by
    rw [pointFloat, abs_withSign, abs_of_nonneg (pointValue_nonneg _ _), not_le]
    linarith
  rw [toFloat, if_neg hnot]

theorem parseFloat_pointText {a : ℤ} (b : ℕ) (ha : a.natAbs < 2 ^ 64) :
    parseFloat (' ' :: pointText a b) = .ok (.finite (pointFloat a b)) := by
  have hchar := not_exponent_point a.natAbs b
  have htake := List.takeWhile_eq_self_iff.2 hchar
  have hdrop := List.dropWhile_eq_nil_iff.2 hchar
  have hnan := pointDigits_ne_name a.natAbs b "nan".toList (by decide)
  have hinf : namesInfinity (decimal a.natAbs ++ '.' :: padded 3 b) = false := by
    rw [namesInfinity, pointDigits_ne_name _ _ _ (by decide), pointDigits_ne_name _ _ _ (by decide)]
    rfl
  simp only [parseFloat, stripNumber_space, stripNumber_pointText, splitSign_pointText, hinf, hnan,
    htake, hdrop, mantissa_point, exponent, Bool.false_eq_true, if_false, zpow_zero, mul_one]
  rw [← pointFloat, toFloat_pointFloat b ha]

theorem aggregatorFields_eq {nodeId aSample missedSamples : ℤ}
    (hn : nodeId.natAbs < 10 ^ maxStrDigits) (ha : aSample.natAbs < 2 ^ 64)
    (hm : missedSamples.natAbs < 10 ^ maxStrDigits) (bSample : ℕ) (p : List Char)
    (rest : List (List Char)) :
    aggregatorFields (p :: labelled "node_id" (signed nodeId) ::
        labelled "sample" (pointText aSample bSample) ::
        labelled "missed_samples" (signed missedSamples) :: rest) =
      (timeOf (p :: labelled "node_id" (signed nodeId) ::
        labelled "sample" (pointText aSample bSample) ::
        labelled "missed_samples" (signed missedSamples) :: rest).getLast?).map fun time =>
          (nodeId, .finite (pointFloat aSample bSample), missedSamples, time) := by
  have hcolon : ∀ z, ':' ∉ signed z := not_mem_signed (by decide) (by decide)
  have hpoint : ':' ∉ pointText aSample bSample :=
    not_mem_pointText (by decide) (by decide) (by decide) _ _
  simp only [aggregatorFields, List.getElem?_cons_succ, List.getElem?_cons_zero,
    secondField_labelled (show ':' ∉ "node_id".toList by decide) (hcolon _),
    secondField_labelled (show ':' ∉ "sample".toList by decide) hpoint,
    secondField_labelled (show ':' ∉ "missed_samples".toList by decide) (hcolon _), bind,
    Except.bind, parseInt_space, parseInt_signed hn, parseInt_signed hm, parseFloat_pointText _ ha,
    List.cons_ne_nil, if_false, timeValue_eq]
  rfl

/-! ## Whole lines -/

section

variable {nodeId sample aMean aSample missedSamples : ℤ}
  {bMean aVariance bVariance bSample msgId time : ℕ} {msgIds : Fin 3 → ℕ} {nodeIds : Fin 3 → ℤ}

theorem comma_sourceParts :
    ∀ p ∈ sourceParts nodeId sample aMean bMean aVariance bVariance msgId time, ',' ∉ p := by
  have hsigned : ∀ z, ',' ∉ signed z := not_mem_signed (by decide) (by decide)
  have hdecimal : ∀ n, ',' ∉ decimal n := not_mem_decimal (by decide)
  have hpoint : ∀ a b, ',' ∉ pointText a b :=
    not_mem_pointText (by decide) (by decide) (by decide)
  simp only [sourceParts, List.forall_mem_cons]
  refine ⟨by decide, ?_, ?_, ?_, ?_, ?_, ?_, fun p hp => absurd hp List.not_mem_nil⟩
  all_goals
    refine not_mem_labelled (by decide) (by decide) (by decide) ?_
    simp [hsigned, hdecimal, hpoint]

theorem comma_aggregatorParts :
    ∀ p ∈ aggregatorParts nodeId aSample bSample missedSamples msgIds nodeIds time, ',' ∉ p := by
  have hsigned : ∀ z, ',' ∉ signed z := not_mem_signed (by decide) (by decide)
  have hdecimal : ∀ n, ',' ∉ decimal n := not_mem_decimal (by decide)
  have hpoint : ∀ a b, ',' ∉ pointText a b :=
    not_mem_pointText (by decide) (by decide) (by decide)
  simp only [aggregatorParts, List.forall_mem_cons]
  refine ⟨by decide, ?_, ?_, ?_, ?_, hdecimal _, by simp [hdecimal], ?_, hsigned _,
    by simp [hsigned], ?_, fun p hp => absurd hp List.not_mem_nil⟩
  all_goals
    refine not_mem_labelled (by decide) (by decide) (by decide) ?_
    simp [hsigned, hdecimal, hpoint]

theorem pySplit_sourceLine :
    pySplit (joined (sourceParts nodeId sample aMean bMean aVariance bVariance msgId time)) =
      sourceParts nodeId sample aMean bMean aVariance bVariance msgId time :=
  pySplit_joined (by simp [sourceParts]) comma_sourceParts

theorem pySplit_aggregatorLine :
    pySplit (joined (aggregatorParts nodeId aSample bSample missedSamples msgIds nodeIds time)) =
      aggregatorParts nodeId aSample bSample missedSamples msgIds nodeIds time :=
  pySplit_joined (by simp [aggregatorParts]) comma_aggregatorParts

/-- **A source line records its sample under its node id.** -/
theorem effect_sourceLine (hn : nodeId.natAbs < 10 ^ maxStrDigits)
    (hs : sample.natAbs < 10 ^ maxStrDigits) (ht : time < 2 ^ 64) :
    effect (joined (sourceParts nodeId sample aMean bMean aVariance bVariance msgId time)) =
      .source nodeId (.ok (sample, (time : ℚ) / 1000)) := by
  rw [effect, pySplit_sourceLine]
  have hstart : startsWith "source"
      (sourceParts nodeId sample aMean bMean aVariance bVariance msgId time) = true := by
    simp [startsWith, sourceParts]
  rw [if_pos hstart, sourceEffect, timeValue_eq]
  have hlast : (sourceParts nodeId sample aMean bMean aVariance bVariance msgId time).getLast? =
      some (labelled "time" (decimal time ++ " #".toList)) := rfl
  rw [hlast, timeOf_time ht, sourceParts, sourceFields_eq hn hs]
  rfl

/-- **An aggregator line records its rounded value under its node id.** -/
theorem effect_aggregatorLine (hn : nodeId.natAbs < 10 ^ maxStrDigits)
    (ha : aSample.natAbs < 2 ^ 64) (hm : missedSamples.natAbs < 10 ^ maxStrDigits)
    (ht : time < 2 ^ 64) :
    effect (joined (aggregatorParts nodeId aSample bSample missedSamples msgIds nodeIds time)) =
      .aggregator nodeId
        (.ok (roundHalfEven (pointFloat aSample bSample), missedSamples, (time : ℚ) / 1000)) := by
  rw [effect, pySplit_aggregatorLine]
  have hsource : ¬startsWith "source"
      (aggregatorParts nodeId aSample bSample missedSamples msgIds nodeIds time) = true := by
    simp [startsWith, aggregatorParts, List.isPrefixOf]
  have hstart : startsWith "aggregator"
      (aggregatorParts nodeId aSample bSample missedSamples msgIds nodeIds time) = true := by
    simp [startsWith, aggregatorParts]
  rw [if_neg hsource, if_pos hstart, aggregatorEffect]
  have hlast : (aggregatorParts nodeId aSample bSample missedSamples msgIds nodeIds time).getLast? =
      some (labelled "time" (decimal time ++ " #".toList)) := rfl
  rw [aggregatorParts, aggregatorFields_eq hn ha hm, ← aggregatorParts, hlast, timeOf_time ht]
  rfl

end

/-! ## Lines of the logs -/

/-- A value of type `int`. -/
def IsInt (T : Target) (z : ℤ) : Prop := -(2 ^ (T.intBits - 1)) ≤ z ∧ z < 2 ^ (T.intBits - 1)

/-- A line of a log: a message or an aggregate that was printed, and the time of the stamp. -/
inductive LogLine where
  | source (m : Message) (time : ℕ)
  | aggregator (a : MessageAgg) (time : ℕ)

namespace LogLine

variable (T : Target)

/-- What the types of the printed values say: the integers are of type `int`, the ids
`unsigned long`, and the time is a positive `long` of Java. -/
def Typed : LogLine → Prop
  | .source m time => IsInt T m.sample ∧ m.msgId < 2 ^ T.longBits ∧ time < 2 ^ 63
  | .aggregator a time =>
    IsInt T a.missedSamples ∧ (∀ i, a.msgIdsInMsg i < 2 ^ T.longBits) ∧ time < 2 ^ 63

/-- The time of the stamp. -/
def time : LogLine → ℕ
  | .source _ time => time
  | .aggregator _ time => time

/-- The line as it stands in the log. -/
def text : LogLine → List Char
  | .source m time => stamp time (printMessage T m)
  | .aggregator a time => stamp time (printMessageAgg T a)

/-- The parts of the line without its line feed. -/
def parts : LogLine → List (List Char)
  | .source m time =>
    sourceParts (T.toInt m.nodeId) m.sample (T.doubleToInt m.mean)
      (T.doubleToUnsigned T.intBits ((m.mean - T.doubleToInt m.mean) * 1000))
      (T.doubleToUnsigned 32 m.variance)
      (T.doubleToUnsigned T.intBits ((m.variance - T.doubleToUnsigned 32 m.variance) * 1000))
      m.msgId time
  | .aggregator a time =>
    aggregatorParts (T.toInt a.nodeId) (T.doubleToInt a.sample)
      (T.doubleToUnsigned T.intBits ((a.sample - T.doubleToInt a.sample) * 1000))
      a.missedSamples a.msgIdsInMsg (fun i => T.toInt (a.nodeIdsInMsg i)) time

/-- The line without its line feed. -/
def body (l : LogLine) : List Char := joined (l.parts T)

theorem text_eq (l : LogLine) : l.text T = l.body T ++ ['\n'] := by
  cases l with
  | source m time => exact (stamp_printMessage T time m).trans (sourceText_eq _ _ _ _ _ _ _ _)
  | aggregator a time =>
    exact (stamp_printMessageAgg T time a).trans (aggregatorText_eq _ _ _ _ _ _ _)

end LogLine

theorem isInt_toInt (T : Target) (z : ℤ) : IsInt T (T.toInt z) := by
  have hhalf : (2 : ℕ) ^ T.intBits = 2 * 2 ^ (T.intBits - 1) := by
    rw [← pow_succ']
    congr 1
    have := T.sixteen_le_intBits
    omega
  have hpos : 0 < 2 ^ T.intBits := by positivity
  have hle := Int.le_bmod (x := z) hpos
  have hlt := Int.bmod_lt (x := z) hpos
  have hcast : ((2 ^ (T.intBits - 1) : ℕ) : ℤ) = 2 ^ (T.intBits - 1) := by push_cast; rfl
  rw [Target.toInt, IsInt, ← hcast]
  omega

theorem isInt_doubleToInt (T : Target) (q : ℚ) : IsInt T (T.doubleToInt q) := by
  unfold Target.doubleToInt
  split_ifs with h
  · exact h
  · exact isInt_toInt T _

/-- An `int` is no wider than a `long`, so it has at most 64 bits. -/
theorem IsInt.natAbs_lt {T : Target} (hint : T.intBits ≤ T.longBits) {z : ℤ} (h : IsInt T z) :
    z.natAbs < 2 ^ 64 := by
  have hle : (2 : ℤ) ^ (T.intBits - 1) ≤ 2 ^ 63 :=
    pow_le_pow_right₀ (by decide) (by have := T.longBits_le_sixtyFour; omega)
  obtain ⟨hlo, hhi⟩ := h
  omega

namespace LogLine

variable {T : Target}

/-- What a whole line records. -/
def recorded (T : Target) : LogLine → Effect
  | .source m time => .source (T.toInt m.nodeId) (.ok (m.sample, (time : ℚ) / 1000))
  | .aggregator a time =>
    .aggregator (T.toInt a.nodeId)
      (.ok (roundHalfEven (pointFloat (T.doubleToInt a.sample)
          (T.doubleToUnsigned T.intBits ((a.sample - T.doubleToInt a.sample) * 1000))),
        a.missedSamples, (time : ℚ) / 1000))

/-- **A whole line records its values.** -/
theorem effect_body (hint : T.intBits ≤ T.longBits) {l : LogLine} (h : l.Typed T) :
    effect (l.body T) = l.recorded T := by
  have hdigits : ∀ {z : ℤ}, IsInt T z → z.natAbs < 10 ^ maxStrDigits := fun hz =>
    lt_ten_pow_maxStrDigits (hz.natAbs_lt hint)
  cases l with
  | source m time =>
    obtain ⟨hsample, -, htime⟩ := h
    rw [body, parts, effect_sourceLine (hdigits (isInt_toInt T _)) (hdigits hsample) (by omega)]
    rfl
  | aggregator a time =>
    obtain ⟨hmissed, -, htime⟩ := h
    rw [body, parts, effect_aggregatorLine (hdigits (isInt_toInt T _))
      ((isInt_doubleToInt T _).natAbs_lt hint) (hdigits hmissed) (by omega)]
    rfl

end LogLine

theorem joined_cons_eq (p : List Char) (ps : List (List Char)) : ∃ t, joined (p :: ps) = p ++ t := by
  cases ps with
  | nil => exact ⟨[], (List.append_nil p).symm⟩
  | cons q ps => exact ⟨_, rfl⟩

theorem joined_concat_eq (ps : List (List Char)) (q : List Char) :
    ∃ t, joined (ps ++ [q]) = t ++ q := by
  induction ps with
  | nil => exact ⟨[], rfl⟩
  | cons p ps ih =>
    obtain ⟨t, ht⟩ := ih
    cases ps with
    | nil => exact ⟨p ++ [',', ' '], by simp [joined]⟩
    | cons r ps =>
      refine ⟨p ++ ',' :: ' ' :: t, ?_⟩
      rw [List.cons_append, List.cons_append, joined, ← List.cons_append, ht]
      simp

theorem LogLine.body_head (T : Target) (l : LogLine) :
    ∃ c t, l.body T = c :: t ∧ isSpace c = false := by
  cases l with
  | source m time =>
    obtain ⟨t, ht⟩ := joined_cons_eq "source".toList ((LogLine.source m time).parts T).tail
    exact ⟨'s', _, ht, by decide⟩
  | aggregator a time =>
    obtain ⟨t, ht⟩ := joined_cons_eq "aggregator".toList ((LogLine.aggregator a time).parts T).tail
    exact ⟨'a', _, ht, by decide⟩

theorem LogLine.body_last (T : Target) (l : LogLine) : ∃ t, l.body T = t ++ ['#'] := by
  have hlast : ∃ time, l.parts T =
      (l.parts T).dropLast ++ [labelled "time" (decimal time ++ " #".toList)] := by
    cases l with
    | source m time => exact ⟨time, rfl⟩
    | aggregator a time => exact ⟨time, rfl⟩
  obtain ⟨time, htime⟩ := hlast
  obtain ⟨t, ht⟩ := joined_concat_eq (l.parts T).dropLast
    (labelled "time" (decimal time ++ " #".toList))
  refine ⟨t ++ labelled "time" (decimal time ++ [' ']), ?_⟩
  rw [LogLine.body, htime, ht, show " #".toList = [' '] ++ ['#'] from rfl]
  simp [labelled]

/-- The receiver strips the line feed. -/
theorem LogLine.strip_text (T : Target) (l : LogLine) : strip (l.text T) = l.body T := by
  obtain ⟨c, t, hc, hspace⟩ := l.body_head T
  obtain ⟨u, hu⟩ := l.body_last T
  rw [l.text_eq, strip_append_space isSpace_newline]
  apply strip_of_ends
  · rw [hc]
    simpa using hspace
  · rw [hu]
    simp [isSpace]

theorem LogLine.strip_body (T : Target) (l : LogLine) : strip (l.body T) = l.body T := by
  rw [← strip_append_space isSpace_newline, ← l.text_eq, l.strip_text]

end WsnAggregation.Live
