import WsnAggregation.Lib.Completes
import WsnAggregation.Offline.Metrics

/-!
# When the analysis completes

The script on the texts of any log files. A line that matches its pattern is not skipped, and
then every group of it has to be read: but `[\d.]+` also matches texts such as `1.2.3`, and
`[0-9, ]+` also lists such as `1,2`, which `float` and `int` refuse. And `calculate_metrics`
divides by the number of source messages without looking whether there are any.

* `ReadableAggregatorLine`, `ReadableSourceLine` — what the groups of a line have to be.
* `analysis_completes` — the script completes exactly when every line is readable and some
  source line matches.
-/

namespace WsnAggregation

open Lib

/-- The script, on the texts of the files. -/
def metricsCalculation (aggregatorText : List Char) (sourceTexts : List (List Char)) :
    Except PyError Metrics := do
  let aggDf ← parseAggregatorLog aggregatorText
  let srcDf ← parseSourceLogs sourceTexts
  calculateMetrics aggDf srcDf

/-! ## What int and float read -/

/-- Digits, not more than `int` allows, between spaces. -/
def IntText (s : List Char) : Prop :=
  ∃ (a b : ℕ) (digits : List Char),
    s = List.replicate a ' ' ++ (digits ++ List.replicate b ' ') ∧ digits ≠ [] ∧
      (∀ c ∈ digits, isDecimal c = true) ∧ digits.length ≤ maxStrDigits

/-- A digit, and at most one point. -/
def FloatText (s : List Char) : Prop := (∃ c ∈ s, isDecimal c = true) ∧ s.count '.' ≤ 1

theorem dropWhile_spaces (s : List Char) :
    ∃ a, s = List.replicate a ' ' ++ s.dropWhile (· = ' ') := by
  refine ⟨(s.takeWhile (· = ' ')).length, ?_⟩
  have hspaces : s.takeWhile (· = ' ') =
      List.replicate (s.takeWhile (· = ' ')).length ' ' :=
    List.eq_replicate_iff.2 ⟨rfl, fun c hc => by simpa using List.mem_takeWhile_imp hc⟩
  rw [← hspaces, List.takeWhile_append_dropWhile]

/-- `str.strip` takes spaces away at both ends. -/
theorem exists_pyStrip (s : List Char) :
    ∃ a b, s = List.replicate a ' ' ++ (pyStrip s ++ List.replicate b ' ') := by
  obtain ⟨a, ha⟩ := dropWhile_spaces s
  obtain ⟨b, hb⟩ := dropWhile_spaces (s.dropWhile (· = ' ')).reverse
  refine ⟨a, b, ?_⟩
  have hright : s.dropWhile (· = ' ') = pyStrip s ++ List.replicate b ' ' := by
    rw [pyStrip, ← List.reverse_replicate, ← List.reverse_append, ← hb, List.reverse_reverse]
  rw [← hright]
  exact ha

theorem dropWhile_replicate_append {digits : List Char} (hne : digits ≠ [])
    (hdigits : ∀ c ∈ digits, isDecimal c = true) (a : ℕ) (s : List Char) :
    (List.replicate a ' ' ++ (digits ++ s)).dropWhile (· = ' ') = digits ++ s := by
  rw [List.dropWhile_append_of_pos fun c hc => decide_eq_true (List.eq_of_mem_replicate hc)]
  obtain ⟨c, rest, rfl⟩ := List.exists_cons_of_ne_nil hne
  have hc : c ≠ ' ' := ne_of_isDecimal (hdigits c List.mem_cons_self) (by decide)
  exact List.dropWhile_cons_of_neg (by simpa using hc)

theorem pyStrip_spaces {digits : List Char} (hne : digits ≠ [])
    (hdigits : ∀ c ∈ digits, isDecimal c = true) (a b : ℕ) :
    pyStrip (List.replicate a ' ' ++ (digits ++ List.replicate b ' ')) = digits := by
  have hne' : digits.reverse ≠ [] := by simpa using hne
  have hright := dropWhile_replicate_append hne'
    (fun c hc => hdigits c (List.mem_reverse.1 hc)) b []
  rw [List.append_nil] at hright
  rw [pyStrip, dropWhile_replicate_append hne hdigits, List.reverse_append,
    List.reverse_replicate, hright, List.reverse_reverse]

theorem pyInt_completes_iff (s : List Char) : Completes (pyInt s) ↔ IntText s := by
  rw [pyInt, completes_ite_iff]
  constructor
  · rintro ⟨hne, hall, hlen⟩
    obtain ⟨a, b, hs⟩ := exists_pyStrip s
    exact ⟨a, b, pyStrip s, hs, hne, List.all_eq_true.1 hall, hlen⟩
  · rintro ⟨a, b, digits, rfl, hne, hdigits, hlen⟩
    rw [pyStrip_spaces hne hdigits]
    exact ⟨hne, List.all_eq_true.2 hdigits, hlen⟩

/-- A run of digits is only refused for its length. -/
theorem pyInt_run_completes_iff {s : List Char} (h : IsRun isDecimal s) :
    Completes (pyInt s) ↔ s.length ≤ maxStrDigits := by
  rw [pyInt, completes_ite_iff, pyStrip_of_isDecimal h.2]
  exact ⟨fun hs => hs.2.2, fun hlen => ⟨h.1, List.all_eq_true.2 h.2, hlen⟩⟩

theorem pyFloat_of_isDecimal {s : List Char} (h : IsRun isDecimal s) : Completes (pyFloat s) := by
  obtain ⟨htake, hdrop⟩ := takeWhile_point h.2
  rw [pyFloat, completes_ite_iff, htake, hdrop, List.tail_nil, List.append_nil]
  exact ⟨h.1, List.all_eq_true.2 h.2⟩

section Point

variable {a : List Char} (ha : '.' ∉ a) (b : List Char)
include ha

theorem pyFloat_split_completes_iff :
    Completes (pyFloat (a ++ '.' :: b)) ↔ a ++ b ≠ [] ∧ ∀ c ∈ a ++ b, isDecimal c = true := by
  obtain ⟨htake, hdrop⟩ := split_point ha b
  rw [pyFloat, completes_ite_iff, htake, hdrop, List.tail_cons, List.all_eq_true]

theorem floatText_split_iff :
    FloatText (a ++ '.' :: b) ↔ (∃ c ∈ a ++ b, isDecimal c = true) ∧ '.' ∉ b := by
  have hcount : (a ++ '.' :: b).count '.' = b.count '.' + 1 := by
    rw [List.count_append, List.count_eq_zero.2 ha, List.count_cons_self, zero_add]
  have hdigit : (∃ c ∈ a ++ '.' :: b, isDecimal c = true) ↔ ∃ c ∈ a ++ b, isDecimal c = true := by
    have hpoint : isDecimal '.' = false := by decide
    simp [or_and_right, exists_or, hpoint]
  rw [FloatText, hcount, hdigit, ← List.count_eq_zero]
  exact and_congr_right fun _ => by omega

end Point

/-- A run of digits and points is read if it has a digit and at most one point. -/
theorem pyFloat_run_completes_iff {s : List Char}
    (h : IsRun (fun c => isDecimal c || c == '.') s) : Completes (pyFloat s) ↔ FloatText s := by
  have hdigit : ∀ c ∈ s, c ≠ '.' → isDecimal c = true := by
    intro c hc hne
    simpa [hne] using h.2 c hc
  by_cases hmem : '.' ∈ s
  · obtain ⟨a, b, rfl, ha⟩ := List.eq_append_cons_of_mem hmem
    rw [pyFloat_split_completes_iff ha, floatText_split_iff ha]
    constructor
    · rintro ⟨hcons, hall⟩
      obtain ⟨c, hc⟩ := List.exists_mem_of_ne_nil _ hcons
      exact ⟨⟨c, hc, hall c hc⟩, not_mem_point fun d hd => hall d (List.mem_append_right a hd)⟩
    · rintro ⟨⟨c, hc, -⟩, hb⟩
      refine ⟨List.ne_nil_of_mem hc, fun d hd => hdigit d ?_ ?_⟩
      · rw [List.mem_append, List.mem_cons]
        exact (List.mem_append.1 hd).imp_right Or.inr
      · rintro rfl
        exact (List.mem_append.1 hd).elim ha hb
  · have hrun : IsRun isDecimal s := ⟨h.1, fun c hc => hdigit c hc fun heq => hmem (heq ▸ hc)⟩
    obtain ⟨c, hc⟩ := List.exists_mem_of_ne_nil s h.1
    refine iff_of_true (pyFloat_of_isDecimal hrun) ⟨⟨c, hc, hrun.2 c hc⟩, ?_⟩
    rw [List.count_eq_zero.2 hmem]
    exact Nat.zero_le 1

theorem intList_completes_iff (items : List (List Char)) :
    Completes (intList items) ↔ ∀ item ∈ items, IntText item := by
  simp only [← pyInt_completes_iff]
  exact completes_collect_iff pyInt intList List.cons (completes_ok []) (fun _ _ => rfl) items

/-! ## What a line has to be -/

/-- The groups of the line can be read, if it matches. -/
def ReadableAggregatorLine (line : List Char) : Prop :=
  ∀ g1 g2 g3 g4 g5 g6, matchAt aggregatorPattern line = some [g1, g2, g3, g4, g5, g6] →
    g1.length ≤ maxStrDigits ∧ FloatText g2 ∧ g3.length ≤ maxStrDigits ∧
      (∀ item ∈ pySplit g4, IntText item) ∧ ∀ item ∈ pySplit g5, IntText item

/-- The groups of the line can be read, if it matches. -/
def ReadableSourceLine (line : List Char) : Prop :=
  ∀ g1 g2 g3 g4 g5 g6, matchAt sourcePattern line = some [g1, g2, g3, g4, g5, g6] →
    g1.length ≤ maxStrDigits ∧ FloatText g2 ∧ FloatText g3 ∧ FloatText g4 ∧
      g5.length ≤ maxStrDigits

/-- The line of a source log is recorded. -/
def MatchesSource (line : List Char) : Prop := (matchAt sourcePattern line).isSome = true

theorem matchAt_six {ps : List Piece} {c1 c2 c3 c4 c5 c6 : Char → Bool} {line : List Char}
    {caps : List (List Char)} (hruns : runs ps = [c1, c2, c3, c4, c5, c6])
    (h : matchAt ps line = some caps) :
    ∃ g1 g2 g3 g4 g5 g6, caps = [g1, g2, g3, g4, g5, g6] ∧ IsRun c1 g1 ∧ IsRun c2 g2 ∧
      IsRun c3 g3 ∧ IsRun c4 g4 ∧ IsRun c5 g5 ∧ IsRun c6 g6 := by
  have hcaps := matchAt_captures h
  rw [hruns] at hcaps
  rcases hcaps with _ | ⟨h1, _ | ⟨h2, _ | ⟨h3, _ | ⟨h4, _ | ⟨h5, _ | ⟨h6, _ | _⟩⟩⟩⟩⟩⟩
  exact ⟨_, _, _, _, _, _, rfl, h1, h2, h3, h4, h5, h6⟩

theorem parseAggregatorLine_completes_iff (line : List Char) :
    Completes (parseAggregatorLine line) ↔ ReadableAggregatorLine line := by
  rw [parseAggregatorLine, ReadableAggregatorLine]
  cases h : matchAt aggregatorPattern line with
  | none =>
    refine iff_of_true (completes_pure none) ?_
    intro _ _ _ _ _ _ hsome
    cases hsome
  | some caps =>
    obtain ⟨g1, g2, g3, g4, g5, g6, rfl, h1, h2, h3, -, -, h6⟩ := matchAt_six rfl h
    have hread : Completes (do
        let nodeId ← pyInt g1
        let sample ← pyFloat g2
        let missedSamples ← pyInt g3
        let msgIdsInMsg ← intList (pySplit g4)
        let nodeIdsInMsg ← intList (pySplit g5)
        let time ← pyFloat g6
        return some
          (⟨nodeId, sample, missedSamples, msgIdsInMsg, nodeIdsInMsg, time⟩ : AggregatorRecord)) ↔
        g1.length ≤ maxStrDigits ∧ FloatText g2 ∧ g3.length ≤ maxStrDigits ∧
          (∀ item ∈ pySplit g4, IntText item) ∧ ∀ item ∈ pySplit g5, IntText item := by
      rw [← pyInt_run_completes_iff h1, ← pyFloat_run_completes_iff h2,
        ← pyInt_run_completes_iff h3, ← intList_completes_iff, ← intList_completes_iff]
      refine completes_bind_iff fun _ _ => completes_bind_iff fun _ _ => ?_
      refine completes_bind_iff fun _ _ => completes_bind_iff fun _ _ => ?_
      -- A run of digits is a float, however long.
      exact completes_bind_of fun _ =>
        (completes_bind_of fun _ => completes_pure _).2 (pyFloat_of_isDecimal h6)
    refine hread.trans ⟨?_, fun hall => hall _ _ _ _ _ _ rfl⟩
    rintro hgroups _ _ _ _ _ _ ⟨⟩
    exact hgroups

theorem parseSourceLine_completes_iff (line : List Char) :
    Completes (parseSourceLine line) ↔ ReadableSourceLine line := by
  rw [parseSourceLine, ReadableSourceLine]
  cases h : matchAt sourcePattern line with
  | none =>
    refine iff_of_true (completes_pure none) ?_
    intro _ _ _ _ _ _ hsome
    cases hsome
  | some caps =>
    obtain ⟨g1, g2, g3, g4, g5, g6, rfl, h1, h2, h3, h4, h5, h6⟩ := matchAt_six rfl h
    have hread : Completes (do
        let nodeId ← pyInt g1
        let sample ← pyFloat g2
        let mean ← pyFloat g3
        let variance ← pyFloat g4
        let msgId ← pyInt g5
        let time ← pyFloat g6
        return some (⟨nodeId, sample, mean, variance, msgId, time⟩ : SourceRecord)) ↔
        g1.length ≤ maxStrDigits ∧ FloatText g2 ∧ FloatText g3 ∧ FloatText g4 ∧
          g5.length ≤ maxStrDigits := by
      rw [← pyInt_run_completes_iff h1, ← pyFloat_run_completes_iff h2,
        ← pyFloat_run_completes_iff h3, ← pyFloat_run_completes_iff h4,
        ← pyInt_run_completes_iff h5]
      refine completes_bind_iff fun _ _ => completes_bind_iff fun _ _ => ?_
      refine completes_bind_iff fun _ _ => completes_bind_iff fun _ _ => ?_
      exact completes_bind_of fun _ =>
        (completes_bind_of fun _ => completes_pure _).2 (pyFloat_of_isDecimal h6)
    refine hread.trans ⟨?_, fun hall => hall _ _ _ _ _ _ rfl⟩
    rintro hgroups _ _ _ _ _ _ ⟨⟩
    exact hgroups

theorem isSome_of_parseSourceLine {line : List Char} {record : Option SourceRecord}
    (h : parseSourceLine line = .ok record) : record.isSome = true ↔ MatchesSource line := by
  rw [parseSourceLine] at h
  rw [MatchesSource]
  cases hmatch : matchAt sourcePattern line with
  | none =>
    rw [hmatch] at h
    cases h
    exact Iff.rfl
  | some caps =>
    obtain ⟨g1, g2, g3, g4, g5, g6, rfl, -⟩ := matchAt_six rfl hmatch
    rw [hmatch] at h
    simp only [bind_eq_ok] at h
    obtain ⟨_, -, _, -, _, -, _, -, _, -, _, -, hrecord⟩ := h
    cases hrecord
    exact Iff.rfl

/-! ## The files -/

theorem parseLines_completes_iff {α : Type} (parse : List Char → Except PyError (Option α))
    (lines : List (List Char)) :
    Completes (parseLines parse lines) ↔ ∀ line ∈ lines, Completes (parse line) :=
  completes_collect_iff parse (parseLines parse) (fun record records => record.toList ++ records)
    (completes_ok []) (fun _ _ => rfl) lines

theorem parseSourceLogs_completes_iff (texts : List (List Char)) :
    Completes (parseSourceLogs texts) ↔
      ∀ text ∈ texts, ∀ line ∈ pyLines text, ReadableSourceLine line := by
  simp only [← parseSourceLine_completes_iff, ← parseLines_completes_iff]
  exact completes_collect_iff (fun text => parseLines parseSourceLine (pyLines text))
    parseSourceLogs (fun records rest => records ++ rest) (completes_ok []) (fun _ _ => rfl) texts

theorem calculateMetrics_completes_iff (aggregatorDf : List AggregatorRecord)
    (sourceDf : List SourceRecord) :
    Completes (calculateMetrics aggregatorDf sourceDf) ↔ sourceDf ≠ [] := by
  constructor
  · rintro ⟨metrics, hmetrics⟩ rfl
    cases hmetrics
  · intro hne
    obtain ⟨metrics, hmetrics, -⟩ := calculateMetrics_counts aggregatorDf hne
    exact ⟨metrics, hmetrics⟩

theorem parseLines_ne_nil_iff {lines : List (List Char)} {rows : List SourceRecord}
    (h : parseLines parseSourceLine lines = .ok rows) :
    rows ≠ [] ↔ ∃ line ∈ lines, MatchesSource line := by
  induction lines generalizing rows with
  | nil =>
    cases h
    simp
  | cons line lines ih =>
    rw [parseLines] at h
    simp only [bind_eq_ok] at h
    obtain ⟨record, hrecord, records, hrecords, hrows⟩ := h
    cases hrows
    rw [List.exists_mem_cons_iff, ← ih hrecords, ← isSome_of_parseSourceLine hrecord]
    cases record <;> simp

theorem parseSourceLogs_ne_nil_iff {texts : List (List Char)} {rows : List SourceRecord}
    (h : parseSourceLogs texts = .ok rows) :
    rows ≠ [] ↔ ∃ text ∈ texts, ∃ line ∈ pyLines text, MatchesSource line := by
  induction texts generalizing rows with
  | nil =>
    cases h
    simp
  | cons text texts ih =>
    rw [parseSourceLogs] at h
    simp only [bind_eq_ok] at h
    obtain ⟨records, hrecords, rest, hrest, hrows⟩ := h
    cases hrows
    rw [List.exists_mem_cons_iff, ← ih hrest, ← parseLines_ne_nil_iff hrecords]
    simp [or_iff_not_imp_left]

/-- **The script completes exactly when `int` and `float` can read the groups of every line that
matches its pattern, and at least one source line matches**: a line that is captured but not read
is not skipped, and the completeness is divided by the number of source messages unguarded. -/
theorem analysis_completes (aggregatorText : List Char) (sourceTexts : List (List Char)) :
    Completes (metricsCalculation aggregatorText sourceTexts) ↔
      (∀ line ∈ pyLines aggregatorText, ReadableAggregatorLine line) ∧
        (∀ text ∈ sourceTexts, ∀ line ∈ pyLines text, ReadableSourceLine line) ∧
        ∃ text ∈ sourceTexts, ∃ line ∈ pyLines text, MatchesSource line := by
  simp only [← parseAggregatorLine_completes_iff]
  rw [← parseLines_completes_iff, ← parseSourceLogs_completes_iff]
  refine completes_bind_iff fun aggDf _ => completes_bind_iff fun srcDf hsrc => ?_
  rw [calculateMetrics_completes_iff, parseSourceLogs_ne_nil_iff hsrc]

/-- No message was printed. -/
theorem analysis_completes_fails :
    ¬ ∀ (aggregatorText : List Char) (sourceTexts : List (List Char)),
      Completes (metricsCalculation aggregatorText sourceTexts) := by
  intro h
  obtain ⟨metrics, hmetrics⟩ := h [] (List.replicate 6 [])
  cases hmetrics

example : parseSourceLine ("source, node_id: 4, sample: 1.2.3, mean: 1.000, variance: 0.000, " ++
    "msg_id: 1 , time: 5").toList = .error .valueError := rfl

end WsnAggregation
