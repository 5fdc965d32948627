import WsnAggregation.Lib.Pattern
import WsnAggregation.Offline.Python
import WsnAggregation.Print

/-!
# Parsing the logs

`parse_aggregator_log` and `parse_source_logs` of `metrics_calculation.py`, and what they make of
the lines the firmware prints. A line that does not match its pattern is skipped. The patterns
have no sign, so a line that shows a negative number is one of those.
-/

namespace WsnAggregation

open Lib

/-! ## The patterns -/

/-- `(\d+)`. -/
def digitRun : Piece := .run isDecimal

/-- `([\d.]+)`. -/
def numberRun : Piece := .run fun c => isDecimal c || c == '.'

/-- `([0-9, ]+)`. -/
def listRun : Piece := .run fun c => c.isDigit || c == ',' || c == ' '

/-- The pattern of an aggregator line. -/
def aggregatorPattern : List Piece :=
  [.lit "aggregator, node_id: ".toList, digitRun, .lit ", sample: ".toList, numberRun,
    .lit ", missed_samples: ".toList, digitRun, .lit ", msg_ids_in_msg: [".toList, listRun,
    .lit "], node_ids_in_msg: [".toList, listRun, .lit "] , time: ".toList, digitRun]

/-- The pattern of a source line. -/
def sourcePattern : List Piece :=
  [.lit "source, node_id: ".toList, digitRun, .lit ", sample: ".toList, numberRun,
    .lit ", mean: ".toList, numberRun, .lit ", variance: ".toList, numberRun,
    .lit ", msg_id: ".toList, digitRun, .lit " , time: ".toList, digitRun]

/-! ## The parsers -/

/-- A row of the aggregator frame. -/
structure AggregatorRecord where
  nodeId : ℕ
  sample : ℚ
  missedSamples : ℕ
  msgIdsInMsg : List ℕ
  nodeIdsInMsg : List ℕ
  time : ℚ
  deriving DecidableEq, Repr

/-- A row of the source frame. -/
structure SourceRecord where
  nodeId : ℕ
  sample : ℚ
  mean : ℚ
  variance : ℚ
  msgId : ℕ
  time : ℚ
  deriving DecidableEq, Repr

/-- `list(map(int, s.split(", ")))`. -/
def intList : List (List Char) → Except PyError (List ℕ)
  | [] => .ok []
  | w :: ws => do
    let n ← pyInt w
    let ns ← intList ws
    return n :: ns

/-- The body of the loop of `parse_aggregator_log`. -/
def parseAggregatorLine (line : List Char) : Except PyError (Option AggregatorRecord) :=
  match matchAt aggregatorPattern line with
  | some [g1, g2, g3, g4, g5, g6] => do
    let nodeId ← pyInt g1
    let sample ← pyFloat g2
    let missedSamples ← pyInt g3
    let msgIdsInMsg ← intList (pySplit g4)
    let nodeIdsInMsg ← intList (pySplit g5)
    let time ← pyFloat g6
    return some ⟨nodeId, sample, missedSamples, msgIdsInMsg, nodeIdsInMsg, time⟩
  | _ => return none

/-- The body of the loop of `parse_source_logs`. -/
def parseSourceLine (line : List Char) : Except PyError (Option SourceRecord) :=
  match matchAt sourcePattern line with
  | some [g1, g2, g3, g4, g5, g6] => do
    let nodeId ← pyInt g1
    let sample ← pyFloat g2
    let mean ← pyFloat g3
    let variance ← pyFloat g4
    let msgId ← pyInt g5
    let time ← pyFloat g6
    return some ⟨nodeId, sample, mean, variance, msgId, time⟩
  | _ => return none

/-- Append the record of each line, if it has one. -/
def parseLines {α : Type} (parse : List Char → Except PyError (Option α)) :
    List (List Char) → Except PyError (List α)
  | [] => .ok []
  | line :: lines => do
    let record ← parse line
    let records ← parseLines parse lines
    return record.toList ++ records

/-- `parse_aggregator_log`, on the text of the file. -/
def parseAggregatorLog (text : List Char) : Except PyError (List AggregatorRecord) :=
  parseLines parseAggregatorLine (pyLines text)

/-- `parse_source_logs`, on the texts of the files. -/
def parseSourceLogs : List (List Char) → Except PyError (List SourceRecord)
  | [] => .ok []
  | text :: texts => do
    let records ← parseLines parseSourceLine (pyLines text)
    let rest ← parseSourceLogs texts
    return records ++ rest

/-! ## Matching a printed line -/

section Match

variable {cls : Char → Bool} {ps : List Piece}

theorem matchAt_part_lit (s : List Char) (ls : List (List Char)) :
    matchAt (.lit s :: ps) (s :: ls).flatten = matchAt ps ls.flatten := by
  rw [List.flatten_cons, matchAt_lit]

theorem matchAt_part_run {w s : List Char} (hne : w ≠ []) (hw : ∀ c ∈ w, cls c = true)
    (hs : endsRun cls s = true) (ls : List (List Char)) :
    matchAt (.run cls :: .lit s :: ps) (w :: s :: ls).flatten =
      (matchAt ps ls.flatten).map (w :: ·) := by
  rw [List.flatten_cons, List.flatten_cons, matchAt_run_lit hne hw hs]

theorem matchAt_run_negative {z : ℤ} (hz : z < 0) (hcls : cls '-' = false)
    (ls : List (List Char)) : matchAt (.run cls :: ps) (signed z :: ls).flatten = none := by
  rw [signed_of_neg hz, List.flatten_cons, List.cons_append, matchAt_run_of_not hcls]

theorem isNumber_of_isDecimal {c : Char} (h : isDecimal c = true) :
    (isDecimal c || c == '.') = true := by
  rw [h, Bool.true_or]

theorem matchAt_digitRun_negative {z : ℤ} (hz : z < 0) (ls : List (List Char)) :
    matchAt (digitRun :: ps) (signed z :: ls).flatten = none :=
  matchAt_run_negative hz (by decide) ls

theorem matchAt_numberRun_negative {z : ℤ} (hz : z < 0) (ls : List (List Char)) :
    matchAt (numberRun :: ps) (signed z :: ls).flatten = none :=
  matchAt_run_negative hz (by decide) ls

theorem matchAt_digitRun {s : List Char} (hs : endsRun isDecimal s = true) (n : ℕ)
    (ls : List (List Char)) :
    matchAt (digitRun :: .lit s :: ps) (decimal n :: s :: ls).flatten =
      (matchAt ps ls.flatten).map (decimal n :: ·) :=
  matchAt_part_run (decimal_ne_nil n) (fun _ hc => isDecimal_of_mem_decimal hc) hs ls

theorem matchAt_numberRun {s : List Char} (hs : endsRun (fun c => isDecimal c || c == '.') s = true)
    (n : ℕ) (ls : List (List Char)) :
    matchAt (numberRun :: .lit s :: ps) (decimal n :: s :: ls).flatten =
      (matchAt ps ls.flatten).map (decimal n :: ·) :=
  matchAt_part_run (decimal_ne_nil n)
    (fun _ hc => isNumber_of_isDecimal (isDecimal_of_mem_decimal hc)) hs ls

/-- A decimal fraction is three parts of the line. -/
theorem matchAt_numberRun_point {s : List Char}
    (hs : endsRun (fun c => isDecimal c || c == '.') s = true) (a b : ℕ) (ls : List (List Char)) :
    matchAt (numberRun :: .lit s :: ps) (decimal a :: ".".toList :: padded 3 b :: s :: ls).flatten =
      (matchAt ps ls.flatten).map ((decimal a ++ '.' :: padded 3 b) :: ·) := by
  have hflat : (decimal a :: ".".toList :: padded 3 b :: s :: ls).flatten =
      ((decimal a ++ '.' :: padded 3 b) :: s :: ls).flatten := by
    rw [List.flatten_cons, List.flatten_cons, List.flatten_cons, List.flatten_cons,
      List.flatten_cons, List.flatten_cons, List.append_assoc]
    rfl
  rw [hflat]
  refine matchAt_part_run (by simp) (fun c hc => ?_) hs ls
  rcases List.mem_append.1 hc with hc | hc
  · exact isNumber_of_isDecimal (isDecimal_of_mem_decimal hc)
  · rcases List.mem_cons.1 hc with rfl | hc
    · decide
    · exact isNumber_of_isDecimal (isDecimal_of_mem_padded hc)

theorem matchAt_digitRun_last {s : List Char} (hs : endsRun isDecimal s = true) (n : ℕ) :
    matchAt [digitRun] [decimal n, s].flatten = some [decimal n] := by
  rw [List.flatten_cons, List.flatten_cons]
  exact matchAt_run_last (decimal_ne_nil n) (fun _ hc => isDecimal_of_mem_decimal hc) hs _

end Match

/-- What a printed source line matches: everything if no number shown is negative. -/
theorem matchAt_sourceText (nodeId sample aMean : ℤ) (bMean aVariance bVariance msgId time : ℕ) :
    matchAt sourcePattern (sourceText nodeId sample aMean bMean aVariance bVariance msgId time) =
      if 0 ≤ nodeId ∧ 0 ≤ sample ∧ 0 ≤ aMean then
        some [decimal nodeId.natAbs, decimal sample.natAbs,
          decimal aMean.natAbs ++ '.' :: padded 3 bMean,
          decimal aVariance ++ '.' :: padded 3 bVariance, decimal msgId, decimal time]
      else none := by
  unfold sourcePattern sourceText
  rw [matchAt_part_lit]
  by_cases hn : 0 ≤ nodeId
  swap
  · rw [matchAt_digitRun_negative (not_le.1 hn), if_neg (fun h => hn h.1)]
  rw [signed_of_nonneg hn, matchAt_digitRun]
  by_cases hs : 0 ≤ sample
  swap
  · rw [matchAt_numberRun_negative (not_le.1 hs), if_neg (fun h => hs h.2.1), Option.map_none]
  rw [signed_of_nonneg hs, matchAt_numberRun]
  by_cases hm : 0 ≤ aMean
  swap
  · rw [matchAt_numberRun_negative (not_le.1 hm), if_neg (fun h => hm h.2.2), Option.map_none,
      Option.map_none]
  rw [signed_of_nonneg hm, matchAt_numberRun_point, matchAt_numberRun_point, matchAt_digitRun,
    matchAt_digitRun_last, if_pos ⟨hn, hs, hm⟩]
  · rfl
  all_goals decide

/-- The three numbers of a list, as they are printed. -/
def listText (ns : Fin 3 → ℕ) : List Char :=
  decimal (ns 0) ++ ',' :: ' ' :: (decimal (ns 1) ++ ',' :: ' ' :: decimal (ns 2))

theorem matchAt_listRun {ps : List Piece} {s : List Char}
    (hs : endsRun (fun c => c.isDigit || c == ',' || c == ' ') s = true) (ns : Fin 3 → ℕ)
    (ls : List (List Char)) :
    matchAt (listRun :: .lit s :: ps) (decimal (ns 0) :: ", ".toList :: decimal (ns 1) ::
        ", ".toList :: decimal (ns 2) :: s :: ls).flatten =
      (matchAt ps ls.flatten).map (listText ns :: ·) := by
  have hflat : (decimal (ns 0) :: ", ".toList :: decimal (ns 1) :: ", ".toList ::
      decimal (ns 2) :: s :: ls).flatten = (listText ns :: s :: ls).flatten := by
    unfold listText
    rw [List.flatten_cons, List.flatten_cons, List.flatten_cons, List.flatten_cons,
      List.flatten_cons, List.flatten_cons, List.flatten_cons, List.flatten_cons,
      List.append_assoc, List.cons_append, List.cons_append, List.append_assoc]
    rfl
  have hdigit : ∀ n, ∀ c ∈ decimal n, (c.isDigit || c == ',' || c == ' ') = true := by
    intro n c hc
    rw [Nat.isDigit_of_mem_toDigits (by decide) (by decide) hc]
    rfl
  rw [hflat]
  refine matchAt_part_run (by simp [listText]) (fun c hc => ?_) hs ls
  simp only [listText, List.mem_append, List.mem_cons] at hc
  rcases hc with hc | rfl | rfl | hc | rfl | rfl | hc
  · exact hdigit _ c hc
  · decide
  · decide
  · exact hdigit _ c hc
  · decide
  · decide
  · exact hdigit _ c hc

theorem intList_listText {ns : Fin 3 → ℕ} (h : ∀ i, ns i < 10 ^ maxStrDigits) :
    intList (pySplit (listText ns)) = .ok [ns 0, ns 1, ns 2] := by
  have hcomma : ∀ n, ∀ c ∈ decimal n, c ≠ ',' := fun n c hc =>
    ne_of_isDecimal (isDecimal_of_mem_decimal hc) (by decide)
  rw [listText, pySplit_append (hcomma _), pySplit_append (hcomma _),
    pySplit_of_no_comma (hcomma _)]
  simp only [intList, pyInt_decimal (h _)]
  rfl

theorem matchAt_aggregatorText (nodeId aSample : ℤ) (bSample : ℕ) (missedSamples : ℤ)
    (msgIds nodeIds : Fin 3 → ℕ) (time : ℕ) :
    matchAt aggregatorPattern (aggregatorText nodeId aSample bSample missedSamples msgIds
        (fun i => nodeIds i) time) =
      if 0 ≤ nodeId ∧ 0 ≤ aSample ∧ 0 ≤ missedSamples then
        some [decimal nodeId.natAbs, decimal aSample.natAbs ++ '.' :: padded 3 bSample,
          decimal missedSamples.natAbs, listText msgIds, listText nodeIds, decimal time]
      else none := by
  unfold aggregatorPattern aggregatorText
  rw [matchAt_part_lit, signed_natCast, signed_natCast, signed_natCast]
  by_cases hn : 0 ≤ nodeId
  swap
  · rw [matchAt_digitRun_negative (not_le.1 hn), if_neg (fun h => hn h.1)]
  rw [signed_of_nonneg hn, matchAt_digitRun]
  by_cases hs : 0 ≤ aSample
  swap
  · rw [matchAt_numberRun_negative (not_le.1 hs), if_neg (fun h => hs h.2.1), Option.map_none]
  rw [signed_of_nonneg hs, matchAt_numberRun_point]
  by_cases hm : 0 ≤ missedSamples
  swap
  · rw [matchAt_digitRun_negative (not_le.1 hm), if_neg (fun h => hm h.2.2), Option.map_none,
      Option.map_none]
  rw [signed_of_nonneg hm, matchAt_digitRun, matchAt_listRun, matchAt_listRun,
    matchAt_digitRun_last, if_pos ⟨hn, hs, hm⟩]
  · rfl
  all_goals decide

/-! ## Parsing a printed line -/

/-- The record of a printed source line. -/
def sourceRecord (nodeId sample aMean : ℤ) (bMean aVariance bVariance msgId time : ℕ) :
    Option SourceRecord :=
  if 0 ≤ nodeId ∧ 0 ≤ sample ∧ 0 ≤ aMean then
    some ⟨nodeId.natAbs, sample, pointValue aMean.natAbs bMean, pointValue aVariance bVariance,
      msgId, time⟩
  else none

/-- The record of a printed aggregator line. -/
def aggregatorRecord (nodeId aSample : ℤ) (bSample : ℕ) (missedSamples : ℤ)
    (msgIds nodeIds : Fin 3 → ℕ) (time : ℕ) : Option AggregatorRecord :=
  if 0 ≤ nodeId ∧ 0 ≤ aSample ∧ 0 ≤ missedSamples then
    some ⟨nodeId.natAbs, pointValue aSample.natAbs bSample, missedSamples.natAbs,
      [msgIds 0, msgIds 1, msgIds 2], [nodeIds 0, nodeIds 1, nodeIds 2], time⟩
  else none

/-- **A printed source line is parsed to its record**, or skipped if it shows a negative
number. -/
theorem parseSourceLine_sourceText {nodeId sample aMean : ℤ}
    {bMean aVariance bVariance msgId time : ℕ} (hn : nodeId.natAbs < 10 ^ maxStrDigits)
    (hid : msgId < 10 ^ maxStrDigits) :
    parseSourceLine (sourceText nodeId sample aMean bMean aVariance bVariance msgId time) =
      .ok (sourceRecord nodeId sample aMean bMean aVariance bVariance msgId time) := by
  rw [parseSourceLine, matchAt_sourceText, sourceRecord]
  split_ifs with h
  · have hs : ((sample.natAbs : ℕ) : ℚ) = sample := by
      rw [← Int.cast_natCast, Int.natAbs_of_nonneg h.2.1]
    simp only [pyInt_decimal hn, pyInt_decimal hid, pyFloat_decimal, pyFloat_point, hs]
    rfl
  · rfl

/-- **A printed aggregator line is parsed to its record**, or skipped if it shows a negative
number. -/
theorem parseAggregatorLine_aggregatorText {nodeId aSample : ℤ} {bSample : ℕ} {missedSamples : ℤ}
    {msgIds nodeIds : Fin 3 → ℕ} {time : ℕ} (hn : nodeId.natAbs < 10 ^ maxStrDigits)
    (hm : missedSamples.natAbs < 10 ^ maxStrDigits) (hmsg : ∀ i, msgIds i < 10 ^ maxStrDigits)
    (hnode : ∀ i, nodeIds i < 10 ^ maxStrDigits) :
    parseAggregatorLine (aggregatorText nodeId aSample bSample missedSamples msgIds
        (fun i => nodeIds i) time) =
      .ok (aggregatorRecord nodeId aSample bSample missedSamples msgIds nodeIds time) := by
  rw [parseAggregatorLine, matchAt_aggregatorText, aggregatorRecord]
  split_ifs with h
  · simp only [pyInt_decimal hn, pyInt_decimal hm, pyFloat_decimal, pyFloat_point,
      intList_listText hmsg, intList_listText hnode]
    rfl
  · rfl

end WsnAggregation
