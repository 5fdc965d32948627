import WsnAggregation.Live.Lines

/-!
# The two parsers compared

The live parser and the offline ones on the same printed and stamped line. The offline patterns
have no sign, so they skip a line that shows a negative number, which the live parser records.
Where both record a line they agree on its numbers but not on its time: the stamp is in
microseconds, and the live parser takes it for milliseconds.

* `source_records`, `aggregator_records` — which lines each parser records, and what.
* `parsers_agree` — the lines on which the parsers agree: those stamped at time zero that show no
  negative number.
-/

namespace WsnAggregation.Live

open Lib

/-! ## Negative node ids -/

theorem isList_of_mem_item {c : Char} {n : ℕ} (hc : c ∈ decimal n ++ ", ".toList) :
    (c.isDigit || c == ',' || c == ' ') = true := by
  rcases List.mem_append.1 hc with hc | hc
  · rw [isDigit_of_mem_decimal hc]
    rfl
  · have hcases : c = ',' ∨ c = ' ' := by simpa using hc
    rcases hcases with rfl | rfl
    · rfl
    · rfl

/-- A list does not match up to a negative number: the run stops before the sign, where the
pattern wants a bracket. -/
theorem matchAt_listRun_negative (ps : List Piece) {w : List Char} {z : ℤ} (hz : z < 0)
    (hw : ∀ c ∈ w, (c.isDigit || c == ',' || c == ' ') = true) (rest : List Char) :
    matchAt (listRun :: .lit "] , time: ".toList :: ps) (w ++ (signed z ++ rest)) = none := by
  rw [signed_of_neg hz, List.cons_append]
  exact matchAt_run_stop (c := ']') (d := '-') hw (by decide) (by decide) (by decide) _ _

theorem matchAt_nodeIds_negative {ps : List Piece} {nodeIds : Fin 3 → ℤ} (h : ∃ i, nodeIds i < 0)
    (ls : List (List Char)) :
    matchAt (listRun :: .lit "] , time: ".toList :: ps)
      (signed (nodeIds 0) :: ", ".toList :: signed (nodeIds 1) :: ", ".toList ::
        signed (nodeIds 2) :: ls).flatten = none := by
  by_cases h0 : nodeIds 0 < 0
  · exact matchAt_listRun_negative ps h0 (w := []) (fun c hc => absurd hc List.not_mem_nil) _
  · rw [signed_of_nonneg (not_lt.1 h0)]
    by_cases h1 : nodeIds 1 < 0
    · have hw := matchAt_listRun_negative ps h1
        (fun c (hc : c ∈ decimal (nodeIds 0).natAbs ++ ", ".toList) => isList_of_mem_item hc)
        (", ".toList :: signed (nodeIds 2) :: ls).flatten
      rw [← hw]
      simp only [List.flatten_cons, List.append_assoc]
    · have h2 : nodeIds 2 < 0 := by
        obtain ⟨i, hi⟩ := h
        fin_cases i
        · exact absurd hi h0
        · exact absurd hi h1
        · exact hi
      have hitems : ∀ c ∈ decimal (nodeIds 0).natAbs ++ ", ".toList ++
          (decimal (nodeIds 1).natAbs ++ ", ".toList),
          (c.isDigit || c == ',' || c == ' ') = true := fun c hc =>
        (List.mem_append.1 hc).elim isList_of_mem_item isList_of_mem_item
      rw [signed_of_nonneg (not_lt.1 h1), ← matchAt_listRun_negative ps h2 hitems ls.flatten]
      simp only [List.flatten_cons, List.append_assoc]

theorem parseAggregatorLine_of_negative {nodeIds : Fin 3 → ℤ} (h : ∃ i, nodeIds i < 0)
    (nodeId aSample : ℤ) (bSample : ℕ) (missedSamples : ℤ) (msgIds : Fin 3 → ℕ) (time : ℕ) :
    parseAggregatorLine (aggregatorText nodeId aSample bSample missedSamples msgIds nodeIds
      time) = .ok none := by
  have hmatch : matchAt aggregatorPattern
      (aggregatorText nodeId aSample bSample missedSamples msgIds nodeIds time) = none := by
    unfold aggregatorPattern aggregatorText
    rw [matchAt_part_lit]
    rcases lt_or_ge nodeId 0 with hn | hn
    · rw [matchAt_digitRun_negative hn]
    rw [signed_of_nonneg hn, matchAt_digitRun (by decide)]
    rcases lt_or_ge aSample 0 with hs | hs
    · rw [matchAt_numberRun_negative hs, Option.map_none]
    rw [signed_of_nonneg hs, matchAt_numberRun_point (by decide)]
    rcases lt_or_ge missedSamples 0 with hm | hm
    · rw [matchAt_digitRun_negative hm, Option.map_none, Option.map_none]
    rw [signed_of_nonneg hm, matchAt_digitRun (by decide), matchAt_listRun (by decide),
      matchAt_nodeIds_negative h]
    rfl
  rw [parseAggregatorLine, hmatch]
  rfl

/-! ## What the parsers record -/

/-- The node id, the sample and the time that `parse_data` records for a source line. -/
def liveSource (line : List Char) : Option (ℤ × ℤ × ℚ) :=
  match effect line with
  | .source nodeId (.ok (sample, time)) => some (nodeId, sample, time)
  | _ => none

/-- The node id, the value, the missed samples and the time it records for an aggregator line. -/
def liveAggregator (line : List Char) : Option (ℤ × ℤ × ℤ × ℚ) :=
  match effect line with
  | .aggregator nodeId (.ok (value, missed, time)) => some (nodeId, value, missed, time)
  | _ => none

/-- The record that an offline parser makes, if it makes one. -/
def offlineRecord {α : Type} (r : Except PyError (Option α)) : Option α :=
  match r with
  | .ok record => record
  | .error _ => none

/-- The records of a source line agree. -/
def SourcesAgree (live : ℤ × ℤ × ℚ) (r : SourceRecord) : Prop :=
  live.1 = r.nodeId ∧ (live.2.1 : ℚ) = r.sample ∧ live.2.2 = r.time / 10 ^ 6

/-- The records of an aggregator line agree. -/
def AggregatorsAgree (live : ℤ × ℤ × ℤ × ℚ) (r : AggregatorRecord) : Prop :=
  live.1 = r.nodeId ∧ live.2.1 = roundHalfEven r.sample ∧ live.2.2.1 = r.missedSamples ∧
    live.2.2.2 = r.time / 10 ^ 6

namespace LogLine

variable (T : Target)

/-- The parsers agree on a line: both record it, and alike, or neither does. -/
def Agrees (l : LogLine) : Prop :=
  match l with
  | .source _ _ => Option.Rel SourcesAgree (liveSource (strip (l.text T)))
      (offlineRecord (parseSourceLine (l.text T)))
  | .aggregator _ _ => Option.Rel AggregatorsAgree (liveAggregator (strip (l.text T)))
      (offlineRecord (parseAggregatorLine (l.text T)))

/-- The line shows no negative number where the offline patterns expect one. -/
def Unsigned : LogLine → Prop
  | .source m _ => 0 ≤ T.toInt m.nodeId ∧ 0 ≤ m.sample ∧ 0 ≤ T.doubleToInt m.mean
  | .aggregator a _ => (0 ≤ T.toInt a.nodeId ∧ 0 ≤ T.doubleToInt a.sample ∧
      0 ≤ a.missedSamples) ∧ ∀ i, 0 ≤ T.toInt (a.nodeIdsInMsg i)

end LogLine

section

variable {T : Target} (hint : T.intBits ≤ T.longBits)
include hint

/-- **A source line is always recorded live, and offline if it shows no negative number.** The
offline record has the same node id and the same sample. -/
theorem source_records {m : Message} {time : ℕ} (h : (LogLine.source m time).Typed T) :
    liveSource (strip ((LogLine.source m time).text T)) =
        some (T.toInt m.nodeId, m.sample, (time : ℚ) / 1000) ∧
      ((LogLine.source m time).Unsigned T →
        ∃ r, offlineRecord (parseSourceLine ((LogLine.source m time).text T)) = some r ∧
          (r.nodeId : ℤ) = T.toInt m.nodeId ∧ r.sample = m.sample ∧ r.time = time) ∧
      (¬(LogLine.source m time).Unsigned T →
        offlineRecord (parseSourceLine ((LogLine.source m time).text T)) = none) := by
  have hid : (T.toInt m.nodeId).natAbs < 10 ^ maxStrDigits :=
    lt_ten_pow_maxStrDigits ((isInt_toInt T _).natAbs_lt hint)
  have hmsg : m.msgId < 10 ^ maxStrDigits := lt_ten_pow_maxStrDigits
    (h.2.1.trans_le (Nat.pow_le_pow_right (by decide) T.longBits_le_sixtyFour))
  have hparse : parseSourceLine ((LogLine.source m time).text T) =
      .ok (printedRecord T time m) := by
    rw [LogLine.text, stamp_printMessage]
    exact parseSourceLine_sourceText hid hmsg
  have hcast : ∀ {z : ℤ}, 0 ≤ z → ((z.natAbs : ℕ) : ℤ) = z := fun hz => Int.natAbs_of_nonneg hz
  refine ⟨?_, fun hu => ?_, fun hu => ?_⟩
  · rw [liveSource, LogLine.strip_text, LogLine.effect_body hint h]
    rfl
  · have hcond : 0 ≤ T.toInt m.nodeId ∧ 0 ≤ m.sample ∧ 0 ≤ T.doubleToInt m.mean := hu
    rw [hparse, printedRecord, sourceRecord, if_pos hcond]
    exact ⟨_, rfl, hcast hu.1, rfl, rfl⟩
  · have hcond : ¬(0 ≤ T.toInt m.nodeId ∧ 0 ≤ m.sample ∧ 0 ≤ T.doubleToInt m.mean) := hu
    rw [hparse, printedRecord, sourceRecord, if_neg hcond]
    rfl

/-- **An aggregator line is always recorded live, and offline if it shows no negative number.**
The offline record has the same node id and missed samples, and a sample that rounds to the live
value. -/
theorem aggregator_records {a : MessageAgg} {time : ℕ} (h : (LogLine.aggregator a time).Typed T) :
    ∃ value, liveAggregator (strip ((LogLine.aggregator a time).text T)) =
        some (T.toInt a.nodeId, value, a.missedSamples, (time : ℚ) / 1000) ∧
      ((LogLine.aggregator a time).Unsigned T →
        ∃ r, offlineRecord (parseAggregatorLine ((LogLine.aggregator a time).text T)) = some r ∧
          (r.nodeId : ℤ) = T.toInt a.nodeId ∧ roundHalfEven r.sample = value ∧
          (r.missedSamples : ℤ) = a.missedSamples ∧ r.time = time) ∧
      (¬(LogLine.aggregator a time).Unsigned T →
        offlineRecord (parseAggregatorLine ((LogLine.aggregator a time).text T)) = none) := by
  have hdigits : ∀ {z : ℤ}, IsInt T z → z.natAbs < 10 ^ maxStrDigits := fun hz =>
    lt_ten_pow_maxStrDigits (hz.natAbs_lt hint)
  have hcast : ∀ {z : ℤ}, 0 ≤ z → ((z.natAbs : ℕ) : ℤ) = z := fun hz => Int.natAbs_of_nonneg hz
  refine ⟨_, by rw [liveAggregator, LogLine.strip_text, LogLine.effect_body hint h]; rfl, ?_⟩
  by_cases hnodes : ∀ i, 0 ≤ T.toInt (a.nodeIdsInMsg i)
  · have hnat : (fun i => T.toInt (a.nodeIdsInMsg i)) =
        fun i => (((T.toInt (a.nodeIdsInMsg i)).natAbs : ℕ) : ℤ) := by
      funext i
      exact (hcast (hnodes i)).symm
    have hparse : parseAggregatorLine ((LogLine.aggregator a time).text T) =
        .ok (aggregatorRecord (T.toInt a.nodeId) (T.doubleToInt a.sample)
          (T.doubleToUnsigned T.intBits ((a.sample - T.doubleToInt a.sample) * 1000))
          a.missedSamples a.msgIdsInMsg (fun i => (T.toInt (a.nodeIdsInMsg i)).natAbs) time) := by
      rw [LogLine.text, stamp_printMessageAgg, hnat]
      exact parseAggregatorLine_aggregatorText (hdigits (isInt_toInt T _)) (hdigits h.1)
        (fun i => lt_ten_pow_maxStrDigits ((h.2.1 i).trans_le
          (Nat.pow_le_pow_right (by decide) T.longBits_le_sixtyFour)))
        fun i => hdigits (isInt_toInt T _)
    constructor
    · intro hu
      rw [hparse, aggregatorRecord, if_pos hu.1]
      refine ⟨_, rfl, hcast hu.1.1, ?_, hcast hu.1.2.2, rfl⟩
      rw [pointFloat, decide_eq_false (not_lt.2 hu.1.2.1)]
      rfl
    · intro hu
      rw [hparse, aggregatorRecord, if_neg fun hcond => hu ⟨hcond, hnodes⟩]
      rfl
  · constructor
    · intro hu
      exact absurd hu.2 hnodes
    · intro _
      rw [LogLine.text, stamp_printMessageAgg, parseAggregatorLine_of_negative]
      · rfl
      · simpa using hnodes

end

/-- Milliseconds and microseconds agree on the time zero only. -/
theorem div_thousand_eq_iff (time : ℕ) :
    (time : ℚ) / 1000 = (time : ℚ) / 10 ^ 6 ↔ time = 0 := by
  constructor
  · intro h
    have hzero : (time : ℚ) = 0 := by linarith
    exact_mod_cast hzero
  · rintro rfl
    norm_num

/-- **Where the live and the offline parsers agree**: on the lines stamped at time zero that show
no negative number, and on no others. -/
theorem parsers_agree (T : Target) (hint : T.intBits ≤ T.longBits) (l : LogLine)
    (h : l.Typed T) : l.Agrees T ↔ l.time = 0 ∧ l.Unsigned T := by
  cases l with
  | source m time =>
    obtain ⟨hlive, hrecord, hskip⟩ := source_records hint h
    rw [LogLine.Agrees, hlive]
    by_cases hu : (LogLine.source m time).Unsigned T
    · obtain ⟨r, hr, hid, hsample, htime⟩ := hrecord hu
      rw [hr, Option.rel_some_some, SourcesAgree, htime, div_thousand_eq_iff]
      exact ⟨fun hagree => ⟨hagree.2.2, hu⟩, fun hzero => ⟨hid.symm, hsample.symm, hzero.1⟩⟩
    · rw [hskip hu]
      exact ⟨fun hagree => (nomatch hagree), fun hzero => absurd hzero.2 hu⟩
  | aggregator a time =>
    obtain ⟨value, hlive, hrecord, hskip⟩ := aggregator_records hint h
    rw [LogLine.Agrees, hlive]
    by_cases hu : (LogLine.aggregator a time).Unsigned T
    · obtain ⟨r, hr, hid, hvalue, hmissed, htime⟩ := hrecord hu
      rw [hr, Option.rel_some_some, AggregatorsAgree, htime, div_thousand_eq_iff]
      exact ⟨fun hagree => ⟨hagree.2.2.2, hu⟩,
        fun hzero => ⟨hid.symm, hvalue.symm, hmissed.symm, hzero.1⟩⟩
    · rw [hskip hu]
      exact ⟨fun hagree => (nomatch hagree), fun hzero => absurd hzero.2 hu⟩

/-- The line of the first message of node 4, with the sample 10. -/
def firstLine (time : ℕ) : LogLine := .source (firstMessage 10) time

theorem typed_firstLine {time : ℕ} (h : time < 2 ^ 63) : (firstLine time).Typed .sky :=
  ⟨⟨by decide, by decide⟩, by decide, h⟩

/-- Stamped at time zero, the line has the same record from both parsers. -/
theorem parsers_agree_firstLine : (firstLine 0).Agrees .sky :=
  (parsers_agree .sky (by decide) (firstLine 0) (typed_firstLine (by decide))).2
    ⟨rfl, by decide +kernel, by decide +kernel, by decide +kernel⟩

/-- Stamped a second into the simulation, its live time is a thousand seconds. -/
theorem parsers_agree_fails : ¬ ∀ (T : Target), T.intBits ≤ T.longBits →
    ∀ l : LogLine, l.Typed T → l.Agrees T := by
  intro h
  have htyped : (firstLine 1000000).Typed .sky := typed_firstLine (by decide)
  have hrel := h .sky (by decide) (firstLine 1000000) htyped
  obtain ⟨hlive, hrecord, -⟩ := source_records (by decide) htyped
  obtain ⟨r, hr, -, -, htime⟩ :=
    hrecord ⟨by decide +kernel, by decide +kernel, by decide +kernel⟩
  rw [firstLine, LogLine.Agrees, hlive, hr, Option.rel_some_some, SourcesAgree, htime] at hrel
  norm_num at hrel

end WsnAggregation.Live
