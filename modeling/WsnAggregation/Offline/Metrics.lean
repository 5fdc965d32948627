import WsnAggregation.Network
import WsnAggregation.Offline.Parse

/-!
# The metrics

`calculate_metrics` of `metrics_calculation.py`, and the script run on the logs of the network. A
data frame is the list of its rows. Its samples and its times are read as exact numbers, as
elsewhere. An id is an integer of at most 64 bits, and becomes a double when `iterrows` makes a row
of it together with these.

* `calculateMetrics_counts` — what the counts are, if the frame of the sources has a row.
* `parseLines_logged` — the rows of a log are those of the lines printed.
-/

namespace WsnAggregation

open Contiki Lib

/-! ## The calculation -/

/-- What `calculate_metrics` returns. -/
structure Metrics where
  totalMessages : ℕ
  receivedMessages : ℕ
  missedMessages : ℤ
  completeness : ℚ
  avgLatency : ℚ
  avgAccuracy : ℚ
  deriving DecidableEq, Repr

/-- The condition of the `lambda`: the aggregate lists the message id paired with the node id. The
ids of the row are doubles. A listed message id is compared with a double as one; the node id is
made an integer again before it is compared. -/
def lists (row : SourceRecord) (rowAgg : AggregatorRecord) : Bool :=
  (rowAgg.msgIdsInMsg.zip rowAgg.nodeIdsInMsg).any fun p =>
    asDouble row.msgId = asDouble p.1 && asDouble row.nodeId = p.2

/-- The variables of the loop. -/
structure Totals where
  receivedMessages : ℕ := 0
  totalLatency : ℚ := 0
  totalAccuracy : ℚ := 0

/-- The body of the loop. The rows selected from an empty frame are none. -/
def countRow (aggregatorDf : List AggregatorRecord) (acc : Totals) (row : SourceRecord) : Totals :=
  match aggregatorDf.filter (lists row) with
  | [] => acc
  | first :: _ =>
    { receivedMessages := acc.receivedMessages + 1
      totalLatency := acc.totalLatency + (first.time - row.time)
      totalAccuracy := acc.totalAccuracy + |row.sample - first.sample| }

/-- `calculate_metrics`. Python divides the number of messages before it looks at it. -/
def calculateMetrics (aggregatorDf : List AggregatorRecord) (sourceDf : List SourceRecord) :
    Except PyError Metrics :=
  let totalSourceMessages := sourceDf.length
  let totals := sourceDf.foldl (countRow aggregatorDf) {}
  if totalSourceMessages = 0 then .error .zeroDivisionError
  else
    .ok
      { totalMessages := totalSourceMessages
        receivedMessages := totals.receivedMessages
        missedMessages := (totalSourceMessages : ℤ) - totals.receivedMessages
        completeness := (totals.receivedMessages : ℚ) / totalSourceMessages * 100
        avgLatency :=
          if totals.receivedMessages > 0 then totals.totalLatency / totals.receivedMessages else 0
        avgAccuracy :=
          if totals.receivedMessages > 0 then totals.totalAccuracy / totals.receivedMessages
          else 0 }

section Loop

variable {aggregatorDf : List AggregatorRecord} {row : SourceRecord} {acc : Totals}

theorem countRow_of_none (h : aggregatorDf.find? (lists row) = none) :
    countRow aggregatorDf acc row = acc := by
  rw [← List.head?_filter, List.head?_eq_none_iff] at h
  rw [countRow, h]

theorem countRow_of_some {first : AggregatorRecord}
    (h : aggregatorDf.find? (lists row) = some first) :
    countRow aggregatorDf acc row =
      { receivedMessages := acc.receivedMessages + 1
        totalLatency := acc.totalLatency + (first.time - row.time)
        totalAccuracy := acc.totalAccuracy + |row.sample - first.sample| } := by
  rw [← List.head?_filter, List.head?_eq_some_iff] at h
  obtain ⟨rest, hrows⟩ := h
  rw [countRow, hrows]

/-- The totals after the loop are sums over the rows that some aggregate lists, each with the
first that does. -/
theorem foldl_countRow (aggregatorDf : List AggregatorRecord) (sourceDf : List SourceRecord)
    (acc : Totals) : sourceDf.foldl (countRow aggregatorDf) acc =
      { receivedMessages :=
          acc.receivedMessages + sourceDf.countP fun row => aggregatorDf.any (lists row)
        totalLatency := acc.totalLatency + (sourceDf.filterMap fun row =>
          (aggregatorDf.find? (lists row)).map fun first => first.time - row.time).sum
        totalAccuracy := acc.totalAccuracy + (sourceDf.filterMap fun row =>
          (aggregatorDf.find? (lists row)).map fun first => |row.sample - first.sample|).sum } := by
  induction sourceDf generalizing acc with
  | nil => simp
  | cons row rows ih =>
    rw [List.foldl_cons, ih, List.countP_cons, ← List.isSome_find?]
    cases hrow : aggregatorDf.find? (lists row) with
    | none =>
      rw [countRow_of_none hrow]
      simp only [List.filterMap_cons, hrow, Option.map_none]
      rfl
    | some first =>
      rw [countRow_of_some hrow]
      simp only [List.filterMap_cons, hrow, Option.map_some, List.sum_cons, Option.isSome_some,
        if_true, add_assoc, add_comm 1]

end Loop

theorem calculateMetrics_counts (aggregatorDf : List AggregatorRecord)
    {sourceDf : List SourceRecord} (h : sourceDf ≠ []) :
    ∃ metrics, calculateMetrics aggregatorDf sourceDf = .ok metrics ∧
      metrics.totalMessages = sourceDf.length ∧
      metrics.receivedMessages = sourceDf.countP fun row => aggregatorDf.any (lists row) := by
  have hlen : sourceDf.length ≠ 0 := fun h0 => h (List.length_eq_zero_iff.1 h0)
  refine ⟨_, if_neg hlen, rfl, ?_⟩
  rw [foldl_countRow]
  exact zero_add _

/-! ## The script -/

/-- The motes whose logs are the source logs, in the order of the script. -/
def sourceNodes : List SourceNode := [.node4, .node5, .node6, .node7, .node8, .node9]

theorem mem_sourceNodes (s : SourceNode) : s ∈ sourceNodes := by
  cases s <;> decide

/-- The script, on the logs of the network. -/
def analysis (net : Network) : Except PyError Metrics := do
  let aggDf ← parseAggregatorLog (net.aggLog .node1).flatten
  let srcDf ← parseSourceLogs (sourceNodes.map fun s => (net.sourceLog s).flatten)
  calculateMetrics aggDf srcDf

/-! ## The rows of a log -/

section Rows

variable {α β : Type} {print : α → List Char} {parse : List Char → Except PyError (Option β)}
  {R : β → α → Prop}

/-- If every line printed is parsed to a row that is right for it, the log is parsed to rows that
are right for what was printed, in the same order. -/
theorem parseLines_logged {log : List (List Char)} {printed : List α} (h : Logged print log printed)
    (hline : ∀ time a, IsLine (stamp time (print a)))
    (hparse : ∀ time, ∀ a ∈ printed, ∃ r, parse (stamp time (print a)) = .ok (some r) ∧ R r a) :
    ∃ rows, parseLines parse (pyLines log.flatten) = .ok rows ∧ List.Forall₂ R rows printed := by
  induction h with
  | nil => exact ⟨[], rfl, .nil⟩
  | cons hl _ ih =>
    obtain ⟨time, rfl⟩ := hl
    obtain ⟨r, hr, hR⟩ := hparse time _ List.mem_cons_self
    obtain ⟨rows, hrows, hall⟩ := ih fun time a ha => hparse time a (List.mem_cons_of_mem _ ha)
    refine ⟨r :: rows, ?_, .cons hR hall⟩
    rw [List.flatten_cons, pyLines_line (hline time _), parseLines, hr, hrows]
    rfl

theorem parseSourceLogs_rows {ι : Type} {R : SourceRecord → Message → Prop} (text : ι → List Char)
    (messages : ι → List Message) (l : List ι)
    (h : ∀ s, ∃ rows, parseLines parseSourceLine (pyLines (text s)) = .ok rows ∧
      List.Forall₂ R rows (messages s)) :
    ∃ rows, parseSourceLogs (l.map text) = .ok rows ∧ List.Forall₂ R rows (l.flatMap messages) := by
  induction l with
  | nil => exact ⟨[], rfl, .nil⟩
  | cons s l ih =>
    obtain ⟨rows, hrows, hall⟩ := h s
    obtain ⟨rest, hrest, hall'⟩ := ih
    refine ⟨rows ++ rest, ?_, List.rel_append hall hall'⟩
    rw [List.map_cons, parseSourceLogs, hrows, hrest]
    rfl

end Rows

theorem countP_eq_of_forall₂ {α β : Type} {R : β → α → Prop} {p : β → Bool} {q : α → Bool}
    {rows : List β} {l : List α} (h : List.Forall₂ R rows l)
    (hpq : ∀ r, ∀ a ∈ l, R r a → p r = q a) : rows.countP p = l.countP q := by
  induction h with
  | nil => rfl
  | cons hr _ ih =>
    rw [List.countP_cons, List.countP_cons, hpq _ _ List.mem_cons_self hr,
      ih fun r a ha => hpq r a (List.mem_cons_of_mem _ ha)]

theorem exists_mem_iff_of_forall₂ {α β : Type} {R : β → α → Prop} {p : β → Prop} {q : α → Prop}
    {rows : List β} {l : List α} (h : List.Forall₂ R rows l)
    (hpq : ∀ r, ∀ a ∈ l, R r a → (p r ↔ q a)) : (∃ r ∈ rows, p r) ↔ ∃ a ∈ l, q a := by
  induction h with
  | nil => simp
  | cons hr _ ih =>
    rw [List.exists_mem_cons_iff, List.exists_mem_cons_iff, hpq _ _ List.mem_cons_self hr,
      ih fun r a ha => hpq r a (List.mem_cons_of_mem _ ha)]

theorem forall_mem_of_forall₂ {α β : Type} {R : β → α → Prop} {p : β → Prop}
    {rows : List β} {l : List α} (h : List.Forall₂ R rows l) (hp : ∀ r, ∀ a ∈ l, R r a → p r) :
    ∀ r ∈ rows, p r := by
  induction h with
  | nil => exact fun r hr => by cases hr
  | cons hr _ ih =>
    exact List.forall_mem_cons.2 ⟨hp _ _ List.mem_cons_self hr,
      ih fun r a ha => hp r a (List.mem_cons_of_mem _ ha)⟩

end WsnAggregation
