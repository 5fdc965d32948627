import WsnAggregation.Offline.Parse
import WsnAggregation.SourceRun

/-!
# From a message to its record

Whether the record that the parsers make of a printed and stamped message is the message's own.
Doubles are compared with their value truncated toward zero to three decimals.

* `pointValue_split` — the text `a.b` of a double in the range of 16 bits is read back as the
  truncated value exactly when the double is more than `-1/1000`.
* `parseSourceLogs_stamp`, `parseAggregatorLog_stamp` — the record of a whole line.
* `source_round_trip` — for the messages a source sends.
-/

namespace WsnAggregation

open Lib Contiki

/-! ## Splitting a double -/

section Split

variable {q : ℚ}

theorem truncZ_bounds (hlo : -32768 < q) (hhi : q < 32768) :
    -32768 ≤ truncZ q ∧ truncZ q < 32768 := by
  rcases le_or_gt 0 q with h | h
  · rw [truncZ_of_nonneg h]
    exact ⟨(by decide : (-32768 : ℤ) ≤ 0).trans (Int.floor_nonneg.2 h),
      Int.floor_lt.2 (by exact_mod_cast hhi)⟩
  · rw [truncZ_of_neg h]
    refine ⟨Int.le_of_lt (Int.lt_ceil.2 (by exact_mod_cast hlo)), ?_⟩
    have hle : ⌈q⌉ ≤ 0 := Int.ceil_le.2 (by exact_mod_cast h.le)
    omega

/-- A double in the range of 16 bits converts to `int` on every target. -/
theorem doubleToInt_of_abs_lt (T : Target) (hlo : -32768 < q) (hhi : q < 32768) :
    T.doubleToInt q = truncZ q := by
  have hbounds := truncZ_bounds hlo hhi
  have hpow : (2 : ℤ) ^ 15 ≤ 2 ^ (T.intBits - 1) :=
    pow_le_pow_right₀ (by decide) (by have := T.sixteen_le_intBits; omega)
  rw [Target.doubleToInt, if_pos]
  constructor <;> omega

theorem doubleToUnsigned_of_nonneg (T : Target) {bits : ℕ} (h : 0 ≤ q) (hlt : q < 2 ^ bits) :
    T.doubleToUnsigned bits q = ⌊q⌋.toNat := by
  rw [Target.doubleToUnsigned, truncZ_of_nonneg h, if_pos]
  exact ⟨Int.floor_nonneg.2 h, Int.floor_lt.2 (by exact_mod_cast hlt)⟩

theorem truncZ_nonneg_iff : 0 ≤ truncZ q ↔ -1 < q := by
  rcases le_or_gt 0 q with h | h
  · rw [truncZ_of_nonneg h]
    exact ⟨fun _ => by linarith, fun _ => Int.floor_nonneg.2 h⟩
  · have hceil : -1 < ⌈q⌉ ↔ -1 < q := by
      rw [Int.lt_ceil]
      push_cast
      rfl
    rw [truncZ_of_neg h, ← hceil]
    exact ⟨fun hle => by omega, fun hlt => by omega⟩

/-- The integer part and the fraction, each truncated, make up the truncated number. -/
theorem pointValue_of_nonneg (T : Target) (h : 0 ≤ q) :
    pointValue ⌊q⌋.toNat (T.doubleToUnsigned T.intBits ((q - ⌊q⌋) * 1000)) = trunc3 q := by
  have hfrac : 0 ≤ (q - ⌊q⌋) * 1000 ∧ (q - ⌊q⌋) * 1000 < 1000 := by
    have := Int.floor_le q
    have := Int.lt_floor_add_one q
    constructor <;> linarith
  have hpow : (1000 : ℚ) ≤ 2 ^ T.intBits := by
    have := T.le_two_pow_intBits
    exact_mod_cast (show 1000 ≤ 2 ^ T.intBits by omega)
  have hfloor : ⌊q * 1000⌋ = 1000 * ⌊q⌋ + ⌊(q - ⌊q⌋) * 1000⌋ := by
    rw [← Int.floor_intCast_add]
    congr 1
    push_cast
    ring
  have hint := Int.floor_nonneg.2 h
  have hnonneg := Int.floor_nonneg.2 hfrac.1
  have hlt : ⌊(q - ⌊q⌋) * 1000⌋ < 1000 := Int.floor_lt.2 (by exact_mod_cast hfrac.2)
  rw [doubleToUnsigned_of_nonneg T hfrac.1 (by linarith), pointValue_of_lt (by omega), trunc3,
    truncZ_of_nonneg (by linarith), hfloor]
  have hcast : ∀ {z : ℤ}, 0 ≤ z → ((z.toNat : ℕ) : ℚ) = z := fun {z} hz => by
    rw [← Int.cast_natCast, Int.toNat_of_nonneg hz]
  rw [hcast hint, hcast hnonneg]
  push_cast
  ring

theorem pointValue_nonneg (a b : ℕ) : 0 ≤ pointValue a b := by
  unfold pointValue
  positivity

/-- **A double in the range of 16 bits is read back truncated to three decimals exactly when it
is more than `-1/1000`.** A smaller one has lost its sign, or is not read at all. -/
theorem pointValue_split (T : Target) (hlo : -32768 < q) (hhi : q < 32768) :
    (0 ≤ T.doubleToInt q ∧ pointValue (T.doubleToInt q).natAbs
        (T.doubleToUnsigned T.intBits ((q - T.doubleToInt q) * 1000)) = trunc3 q) ↔
      -1 / 1000 < q := by
  rw [doubleToInt_of_abs_lt T hlo hhi, truncZ_nonneg_iff]
  rcases le_or_gt 0 q with h | h
  · have hint := Int.floor_nonneg.2 h
    have hnat : ⌊q⌋.natAbs = ⌊q⌋.toNat := by omega
    rw [truncZ_of_nonneg h, hnat, pointValue_of_nonneg T h]
    exact ⟨fun _ => by linarith, fun _ => ⟨by linarith, rfl⟩⟩
  · constructor
    · rintro ⟨-, hvalue⟩
      -- What is read is not negative, so the number was truncated to zero.
      have hnonneg := hvalue ▸ pointValue_nonneg _ _
      have htrunc : (0 : ℚ) ≤ truncZ (q * 1000) := by
        rw [trunc3] at hnonneg
        linarith
      have hlt := truncZ_nonneg_iff.1 (by exact_mod_cast htrunc)
      linarith
    · intro hq
      have hzero : ∀ {r : ℚ}, -1 < r → r < 0 → truncZ r = 0 := fun {r} hr hneg => by
        have hle : ⌈r⌉ ≤ 0 := Int.ceil_le.2 (by exact_mod_cast hneg.le)
        have := truncZ_nonneg_iff.2 hr
        rw [truncZ_of_neg hneg] at this ⊢
        omega
      have hint := hzero (r := q) (by linarith) h
      have hfrac := hzero (r := q * 1000) (by linarith) (by linarith)
      have hunsigned : T.doubleToUnsigned T.intBits (q * 1000) = 0 := by
        rw [Target.doubleToUnsigned, hfrac, if_pos ⟨le_rfl, by positivity⟩]
        rfl
      refine ⟨by linarith, ?_⟩
      rw [hint, trunc3, hfrac, Int.cast_zero, sub_zero, hunsigned]
      rw [Int.natAbs_zero, pointValue_of_lt (by decide)]
      norm_num

theorem pointValue_split_unsigned (T : Target) (h : 0 ≤ q) (hlt : q < 2 ^ 32) :
    pointValue (T.doubleToUnsigned 32 q)
      (T.doubleToUnsigned T.intBits ((q - T.doubleToUnsigned 32 q) * 1000)) = trunc3 q := by
  have hnat : ((T.doubleToUnsigned 32 q : ℕ) : ℚ) = ⌊q⌋ := by
    rw [doubleToUnsigned_of_nonneg T h hlt, ← Int.cast_natCast,
      Int.toNat_of_nonneg (Int.floor_nonneg.2 h)]
  rw [hnat, doubleToUnsigned_of_nonneg T h hlt, pointValue_of_nonneg T h]

end Split

/-! ## Whole lines -/

theorem isLine_flatten (ls : List (List Char)) (h : ∀ l ∈ ls, '\n' ∉ l ∧ '\r' ∉ l) :
    IsLine (ls ++ [" #\n".toList]).flatten := by
  refine ⟨ls.flatten ++ [' ', '#'], ?_, ?_, ?_⟩
  · rw [List.flatten_append, List.flatten_singleton, List.append_assoc]
    rfl
  · rw [List.mem_append, List.mem_flatten]
    rintro (⟨l, hl, hmem⟩ | hmem)
    · exact (h l hl).1 hmem
    · exact absurd hmem (by decide)
  · rw [List.mem_append, List.mem_flatten]
    rintro (⟨l, hl, hmem⟩ | hmem)
    · exact (h l hl).2 hmem
    · exact absurd hmem (by decide)

theorem not_mem_newline_decimal (n : ℕ) : '\n' ∉ decimal n ∧ '\r' ∉ decimal n :=
  ⟨not_mem_decimal (by decide) n, not_mem_decimal (by decide) n⟩

theorem not_mem_newline_padded (w n : ℕ) : '\n' ∉ padded w n ∧ '\r' ∉ padded w n :=
  ⟨not_mem_padded (by decide) w n, not_mem_padded (by decide) w n⟩

theorem not_mem_newline_signed (z : ℤ) : '\n' ∉ signed z ∧ '\r' ∉ signed z :=
  ⟨not_mem_signed (by decide) (by decide) z, not_mem_signed (by decide) (by decide) z⟩

theorem isLine_sourceText (nodeId sample aMean : ℤ) (bMean aVariance bVariance msgId time : ℕ) :
    IsLine (sourceText nodeId sample aMean bMean aVariance bVariance msgId time) := by
  refine isLine_flatten ["source, node_id: ".toList, signed nodeId,
    ", sample: ".toList, signed sample, ", mean: ".toList, signed aMean, ".".toList,
    padded 3 bMean, ", variance: ".toList, decimal aVariance, ".".toList, padded 3 bVariance,
    ", msg_id: ".toList, decimal msgId, " , time: ".toList, decimal time] ?_
  simp only [List.forall_mem_cons]
  refine ⟨?_, not_mem_newline_signed _, ?_, not_mem_newline_signed _, ?_,
    not_mem_newline_signed _, ?_, not_mem_newline_padded _ _, ?_, not_mem_newline_decimal _, ?_,
    not_mem_newline_padded _ _, ?_, not_mem_newline_decimal _, ?_, not_mem_newline_decimal _,
    fun l hl => by cases hl⟩
  all_goals decide

theorem isLine_aggregatorText (nodeId aSample : ℤ) (bSample : ℕ) (missedSamples : ℤ)
    (msgIds : Fin 3 → ℕ) (nodeIds : Fin 3 → ℤ) (time : ℕ) :
    IsLine (aggregatorText nodeId aSample bSample missedSamples msgIds nodeIds time) := by
  refine isLine_flatten ["aggregator, node_id: ".toList, signed nodeId,
    ", sample: ".toList, signed aSample, ".".toList, padded 3 bSample,
    ", missed_samples: ".toList, signed missedSamples,
    ", msg_ids_in_msg: [".toList, decimal (msgIds 0), ", ".toList, decimal (msgIds 1),
    ", ".toList, decimal (msgIds 2),
    "], node_ids_in_msg: [".toList, signed (nodeIds 0), ", ".toList, signed (nodeIds 1),
    ", ".toList, signed (nodeIds 2), "] , time: ".toList, decimal time] ?_
  simp only [List.forall_mem_cons]
  refine ⟨?_, not_mem_newline_signed _, ?_, not_mem_newline_signed _, ?_,
    not_mem_newline_padded _ _, ?_, not_mem_newline_signed _, ?_, not_mem_newline_decimal _, ?_,
    not_mem_newline_decimal _, ?_, not_mem_newline_decimal _, ?_, not_mem_newline_signed _, ?_,
    not_mem_newline_signed _, ?_, not_mem_newline_signed _, ?_, not_mem_newline_decimal _,
    fun l hl => by cases hl⟩
  all_goals decide

/-- A 16-bit number converts to `int` as it is, or to a negative number. -/
theorem toInt_natCast (T : Target) {n : ℕ} (h : n < 65536) :
    T.toInt n = n ∨ (T.toInt n < 0 ∧ T.toInt n = n - 65536) := by
  have hpow := T.le_two_pow_intBits
  obtain ⟨k, hk⟩ := T.two_pow_intBits
  rw [Target.toInt, Int.bmod_def, Int.emod_eq_of_lt (by omega) (by omega)]
  split_ifs with hlt
  · exact Or.inl rfl
  · have hone : 2 ^ k < 2 := by omega
    have hpos := Nat.one_le_two_pow (n := k)
    have : 2 ^ T.intBits = 65536 := by omega
    exact Or.inr ⟨by omega, by omega⟩

theorem lt_ten_pow_maxStrDigits {n : ℕ} (h : n < 2 ^ 64) : n < 10 ^ maxStrDigits := by
  refine h.trans_le ?_
  calc (2 : ℕ) ^ 64 ≤ 10 ^ 64 := Nat.pow_le_pow_left (by decide) 64
    _ ≤ 10 ^ maxStrDigits := Nat.pow_le_pow_right (by decide) (by decide)

/-! ## Source lines -/

/-- The record a message should have. -/
def Message.record (m : Message) (time : ℕ) : SourceRecord :=
  ⟨m.nodeId, m.sample, trunc3 m.mean, trunc3 m.variance, m.msgId, time⟩

/-- The record that the printed and stamped message has. -/
def printedRecord (T : Target) (time : ℕ) (m : Message) : Option SourceRecord :=
  sourceRecord (T.toInt m.nodeId) m.sample (T.doubleToInt m.mean)
    (T.doubleToUnsigned T.intBits ((m.mean - T.doubleToInt m.mean) * 1000))
    (T.doubleToUnsigned 32 m.variance)
    (T.doubleToUnsigned T.intBits ((m.variance - T.doubleToUnsigned 32 m.variance) * 1000))
    m.msgId time

/-- `parse_source_logs` on the line of the message, stamped, gives the record of the message and
no other. -/
def SourceRoundTrip (T : Target) (time : ℕ) (m : Message) : Prop :=
  parseSourceLogs [stamp time (printMessage T m)] = .ok [m.record time]

section SourceLine

variable {T : Target} {nodeId : ℕ} {m : Message}

theorem isLine_stamp_printMessage (T : Target) (time : ℕ) (m : Message) :
    IsLine (stamp time (printMessage T m)) := by
  rw [stamp_printMessage]
  exact isLine_sourceText _ _ _ _ _ _ _ _

theorem parseSourceLine_stamp (h : Sendable T nodeId m) (hnode : nodeId < 65536) (time : ℕ) :
    parseSourceLine (stamp time (printMessage T m)) = .ok (printedRecord T time m) := by
  rw [stamp_printMessage]
  refine parseSourceLine_sourceText (lt_ten_pow_maxStrDigits ?_) (lt_ten_pow_maxStrDigits ?_)
  · rw [h.nodeId_eq]
    have := toInt_natCast T hnode
    omega
  · exact h.msgId_lt.trans_le (Nat.pow_le_pow_right (by decide) T.longBits_le_sixtyFour)

/-- Which messages are read back. -/
theorem printedRecord_eq_iff (h : Sendable T nodeId m) (hnode : nodeId < 65536) (time : ℕ) :
    printedRecord T time m = some (m.record time) ↔
      0 ≤ m.sample ∧ 0 ≤ m.mean ∧ 0 ≤ T.toInt m.nodeId := by
  have habs := abs_le.1 h.mean_abs
  have hmean : -1 / 1000 < m.mean ↔ 0 ≤ m.mean := by
    constructor
    · intro hlt
      by_contra hneg
      have := h.mean_of_neg (not_le.1 hneg)
      linarith
    · intro hle
      linarith
  have hsplit := pointValue_split T (q := m.mean) (by linarith) (by linarith)
  have hvariance := pointValue_split_unsigned T h.variance_nonneg
    (by linarith [h.variance_le])
  rw [printedRecord, sourceRecord]
  constructor
  · intro heq
    split_ifs at heq with hcond
    have hrecord := Option.some.inj heq
    exact ⟨hcond.2.1, hmean.1 (hsplit.1 ⟨hcond.2.2, congrArg SourceRecord.mean hrecord⟩), hcond.1⟩
  · rintro ⟨hsample, hm, hid⟩
    obtain ⟨hint, hvalue⟩ := hsplit.2 (hmean.2 hm)
    have hnat : (T.toInt m.nodeId).natAbs = m.nodeId := by
      rw [h.nodeId_eq] at hid ⊢
      have := toInt_natCast T hnode
      omega
    rw [if_pos ⟨hid, hsample, hint⟩, hnat, hvalue, hvariance]
    rfl

theorem parseSourceLogs_stamp (h : Sendable T nodeId m) (hnode : nodeId < 65536) (time : ℕ) :
    parseSourceLogs [stamp time (printMessage T m)] = .ok (printedRecord T time m).toList := by
  have hline : ∀ l ∈ [stamp time (printMessage T m)], IsLine l := by
    intro l hl
    rw [List.mem_singleton.1 hl]
    exact isLine_stamp_printMessage T time m
  have hlines := pyLines_flatten hline
  rw [List.flatten_singleton] at hlines
  simp only [parseSourceLogs, hlines, parseLines, parseSourceLine_stamp h hnode, bind,
    Except.bind, pure, Except.pure, List.append_nil]

/-- **A line of the source log is read back exactly when it shows no negative number.** -/
theorem sourceRoundTrip_iff (h : Sendable T nodeId m) (hnode : nodeId < 65536) (time : ℕ) :
    SourceRoundTrip T time m ↔ 0 ≤ m.sample ∧ 0 ≤ m.mean ∧ 0 ≤ T.toInt m.nodeId := by
  rw [← printedRecord_eq_iff h hnode time, SourceRoundTrip, parseSourceLogs_stamp h hnode]
  cases printedRecord T time m <;> simp

end SourceLine

/-- **The log line of a message that a source sends is read back as that message exactly when
its sample and its mean are not negative and the node id prints without a sign.** -/
theorem source_round_trip (rand : ℕ → ℕ) (T : Target) (nodeId : ℕ) (hnode : nodeId < 65536)
    (steps : List KernelStep) (time : ℕ) :
    ∀ p ∈ sentMessages (sourceRun rand T nodeId steps).history,
      SourceRoundTrip T time p.2 ↔ 0 ≤ p.2.sample ∧ 0 ≤ p.2.mean ∧ 0 ≤ T.toInt p.2.nodeId := by
  intro p hp
  have hsendable := ((sound_run rand T nodeId steps).sendable p hp).2
  exact sourceRoundTrip_iff hsendable hnode time

/-- The message of node 4 whose first sample is 10. -/
def firstMessage (sample : ℤ) : Message where
  nodeId := 4
  sample := sample
  variance := 0
  mean := sample
  msgId := 1

theorem source_round_trip_firstSample : SourceRoundTrip .sky 1234 (firstMessage 10) :=
  (source_round_trip (fun i => if i = 3 then 20 else 0) .sky 4 (by decide)
    [.poll, .event] 1234 (serverOf 4, firstMessage 10) (by decide +kernel)).2 (by decide +kernel)

/-- The smallest sample in normal operation is -10, and no record is made of its message. -/
theorem source_round_trip_fails :
    ¬ ∀ (rand : ℕ → ℕ) (T : Target) (nodeId : ℕ), nodeId < 65536 →
      ∀ (steps : List KernelStep) (time : ℕ),
        ∀ p ∈ sentMessages (sourceRun rand T nodeId steps).history, SourceRoundTrip T time p.2 := by
  intro h
  have hmem : (serverOf 4, firstMessage (-10)) ∈
      sentMessages (sourceRun (fun _ => 0) .sky 4 [.poll, .event]).history := by decide +kernel
  have hsendable := ((sound_run (fun _ => 0) .sky 4 [.poll, .event]).sendable _ hmem).2
  have htrip := h (fun _ => 0) .sky 4 (by decide) [.poll, .event] 1234 _ hmem
  exact absurd ((sourceRoundTrip_iff hsendable (by decide) 1234).1 htrip).1 (by decide)

end WsnAggregation
