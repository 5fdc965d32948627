import WsnAggregation.Lib.Decimal
import WsnAggregation.Message
import WsnAggregation.Target

/-!
# Printed lines

The lines `message.c` prints, and the time stamp that `SerialSocketServer.java` writes into them
on their way to the log. A double is printed as an integer part and a fraction, each converted
on its own: the fraction of a negative number is a negative double converted to an unsigned type.
-/

namespace WsnAggregation

open Lib

/-- `print_message`. The 16-bit node id is printed as an `int`. -/
def printMessage (T : Target) (node : Message) : List Char :=
  let aMean := T.doubleToInt node.mean
  let aVariance := T.doubleToUnsigned 32 node.variance
  let bMean := (node.mean - aMean) * 1000
  let bVariance := (node.variance - aVariance) * 1000
  List.flatten
    ["source, node_id: ".toList, signed (T.toInt node.nodeId),
      ", sample: ".toList, signed node.sample,
      ", mean: ".toList, signed aMean, ".".toList, padded 3 (T.doubleToUnsigned T.intBits bMean),
      ", variance: ".toList, decimal aVariance, ".".toList,
      padded 3 (T.doubleToUnsigned T.intBits bVariance),
      ", msg_id: ".toList, decimal node.msgId, " #\n".toList]

/-- `print_message_agg`. -/
def printMessageAgg (T : Target) (node : MessageAgg) : List Char :=
  let aSample := T.doubleToInt node.sample
  let bSample := (node.sample - aSample) * 1000
  List.flatten
    ["aggregator, node_id: ".toList, signed (T.toInt node.nodeId),
      ", sample: ".toList, signed aSample, ".".toList,
      padded 3 (T.doubleToUnsigned T.intBits bSample),
      ", missed_samples: ".toList, signed node.missedSamples,
      ", msg_ids_in_msg: [".toList, decimal (node.msgIdsInMsg 0), ", ".toList,
      decimal (node.msgIdsInMsg 1), ", ".toList, decimal (node.msgIdsInMsg 2),
      "], node_ids_in_msg: [".toList, signed (T.toInt (node.nodeIdsInMsg 0)), ", ".toList,
      signed (T.toInt (node.nodeIdsInMsg 1)), ", ".toList,
      signed (T.toInt (node.nodeIdsInMsg 2)), "] #\n".toList]

/-- `serialDataObserver`: the simulation time is inserted before each `#`. -/
def stamp (time : ℕ) (line : List Char) : List Char :=
  line.flatMap fun c => if c = '#' then ", time: ".toList ++ decimal time ++ " #".toList else [c]

/-! ## The stamped lines -/

@[simp] theorem stamp_append (time : ℕ) (l l' : List Char) :
    stamp time (l ++ l') = stamp time l ++ stamp time l' := List.flatMap_append

theorem stamp_of_not_mem (time : ℕ) {l : List Char} (h : '#' ∉ l) : stamp time l = l := by
  induction l with
  | nil => rfl
  | cons c l ih =>
    obtain ⟨hc, hl⟩ := not_or.1 (fun h' => h (List.mem_cons.2 h'))
    rw [stamp, List.flatMap_cons, if_neg (Ne.symm hc), ← stamp, ih hl]
    rfl

theorem digitChar_ne_of_lt {c : Char} (hc : c.isDigit = false) {d : ℕ} (hd : d < 10) :
    Nat.digitChar d ≠ c := by
  rintro rfl
  rw [Nat.isDigit_digitChar, decide_eq_false_iff_not] at hc
  exact hc hd

theorem not_mem_decimal {c : Char} (hc : c.isDigit = false) (n : ℕ) : c ∉ decimal n := by
  intro h
  obtain ⟨d, hd, rfl⟩ := mem_decimal h
  exact digitChar_ne_of_lt hc hd rfl

theorem not_mem_padded {c : Char} (hc : c.isDigit = false) (w n : ℕ) : c ∉ padded w n := by
  intro h
  obtain ⟨d, hd, rfl⟩ := mem_padded h
  exact digitChar_ne_of_lt hc hd rfl

theorem not_mem_signed {c : Char} (hc : c.isDigit = false) (hm : c ≠ '-') (z : ℤ) :
    c ∉ signed z := by
  unfold signed
  split_ifs
  · simpa [hm] using not_mem_decimal hc _
  · exact not_mem_decimal hc _

section Stamped

variable (T : Target) (time : ℕ)

/-- The text that a line of the source log has for the values it shows. -/
def sourceText (nodeId sample aMean : ℤ) (bMean aVariance bVariance msgId time : ℕ) : List Char :=
  List.flatten
    ["source, node_id: ".toList, signed nodeId, ", sample: ".toList, signed sample,
      ", mean: ".toList, signed aMean, ".".toList, padded 3 bMean,
      ", variance: ".toList, decimal aVariance, ".".toList, padded 3 bVariance,
      ", msg_id: ".toList, decimal msgId, " , time: ".toList, decimal time, " #\n".toList]

/-- The text that a line of the aggregator log has for the values it shows. -/
def aggregatorText (nodeId aSample : ℤ) (bSample : ℕ) (missedSamples : ℤ) (msgIds : Fin 3 → ℕ)
    (nodeIds : Fin 3 → ℤ) (time : ℕ) : List Char :=
  List.flatten
    ["aggregator, node_id: ".toList, signed nodeId,
      ", sample: ".toList, signed aSample, ".".toList, padded 3 bSample,
      ", missed_samples: ".toList, signed missedSamples,
      ", msg_ids_in_msg: [".toList, decimal (msgIds 0), ", ".toList, decimal (msgIds 1),
      ", ".toList, decimal (msgIds 2),
      "], node_ids_in_msg: [".toList, signed (nodeIds 0), ", ".toList, signed (nodeIds 1),
      ", ".toList, signed (nodeIds 2), "] , time: ".toList, decimal time, " #\n".toList]

/-- Parts of a line without a `#` go through as they are. -/
theorem stamp_cons {l : List Char} (h : '#' ∉ l) (ls : List (List Char)) :
    stamp time (l :: ls).flatten = l ++ stamp time ls.flatten := by
  rw [List.flatten_cons, stamp_append, stamp_of_not_mem time h]

theorem stamp_cons_decimal (n : ℕ) (ls : List (List Char)) :
    stamp time (decimal n :: ls).flatten = decimal n ++ stamp time ls.flatten :=
  stamp_cons time (not_mem_decimal (by decide) n) ls

theorem stamp_cons_padded (w n : ℕ) (ls : List (List Char)) :
    stamp time (padded w n :: ls).flatten = padded w n ++ stamp time ls.flatten :=
  stamp_cons time (not_mem_padded (by decide) w n) ls

theorem stamp_cons_signed (z : ℤ) (ls : List (List Char)) :
    stamp time (signed z :: ls).flatten = signed z ++ stamp time ls.flatten :=
  stamp_cons time (not_mem_signed (by decide) (by decide) z) ls

theorem stamp_source_end : stamp time [" #\n".toList].flatten =
    " , time: ".toList ++ (decimal time ++ " #\n".toList) := by
  rw [show " #\n".toList = [' ', '#', '\n'] from rfl,
    show " , time: ".toList = ' ' :: ", time: ".toList from rfl, List.flatten_singleton, stamp,
    List.flatMap_cons, List.flatMap_cons, List.flatMap_cons, List.flatMap_nil,
    if_neg (by decide), if_pos rfl, if_neg (by decide), show " #".toList = [' ', '#'] from rfl]
  simp only [List.append_nil, List.append_assoc, List.cons_append, List.nil_append]

theorem stamp_aggregator_end : stamp time ["] #\n".toList].flatten =
    "] , time: ".toList ++ (decimal time ++ " #\n".toList) := by
  rw [show "] #\n".toList = ']' :: " #\n".toList from rfl,
    show "] , time: ".toList = ']' :: " , time: ".toList from rfl, List.flatten_singleton, stamp,
    List.flatMap_cons, if_neg (by decide)]
  change [']'] ++ stamp time [" #\n".toList].flatten = _
  rw [stamp_source_end]
  rfl

theorem stamp_printMessage (node : Message) :
    stamp time (printMessage T node) = sourceText (T.toInt node.nodeId) node.sample
      (T.doubleToInt node.mean)
      (T.doubleToUnsigned T.intBits ((node.mean - T.doubleToInt node.mean) * 1000))
      (T.doubleToUnsigned 32 node.variance)
      (T.doubleToUnsigned T.intBits ((node.variance - T.doubleToUnsigned 32 node.variance) * 1000))
      node.msgId time := by
  dsimp only [printMessage]
  rw [stamp_cons, stamp_cons_signed, stamp_cons, stamp_cons_signed, stamp_cons, stamp_cons_signed,
    stamp_cons, stamp_cons_padded, stamp_cons, stamp_cons_decimal, stamp_cons, stamp_cons_padded,
    stamp_cons, stamp_cons_decimal, stamp_source_end]
  · unfold sourceText
    rfl
  all_goals decide

theorem stamp_printMessageAgg (node : MessageAgg) :
    stamp time (printMessageAgg T node) = aggregatorText (T.toInt node.nodeId)
      (T.doubleToInt node.sample)
      (T.doubleToUnsigned T.intBits ((node.sample - T.doubleToInt node.sample) * 1000))
      node.missedSamples node.msgIdsInMsg (fun i => T.toInt (node.nodeIdsInMsg i)) time := by
  dsimp only [printMessageAgg]
  rw [stamp_cons, stamp_cons_signed, stamp_cons, stamp_cons_signed, stamp_cons, stamp_cons_padded,
    stamp_cons, stamp_cons_signed, stamp_cons, stamp_cons_decimal, stamp_cons, stamp_cons_decimal,
    stamp_cons, stamp_cons_decimal, stamp_cons, stamp_cons_signed, stamp_cons, stamp_cons_signed,
    stamp_cons, stamp_cons_signed, stamp_aggregator_end]
  · unfold aggregatorText
    rfl
  all_goals decide

end Stamped

end WsnAggregation
