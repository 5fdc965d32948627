import WsnAggregation.Live.Chunking
import WsnAggregation.Offline.RunMetrics

/-!
# The network, the collector and the dashboard

The network, the collector that writes what the motes print to one file for each mote, and the
live dashboard that polls the files, in any interleaving. The collector receives the output of a
mote in pieces of at most 1024 characters, wherever they end, and the dashboard may be started
again at any time: it then lists the files that there are, in some order, and starts anew.

* `Followed` — what the dictionaries hold, by the polls of the files that made them.
* `follows_run` — it holds of every run of the whole.
-/

namespace WsnAggregation.Live

open Contiki Lib

/-! ## The source's code -/

/-- A mote of the network. -/
inductive Mote where
  | agg (n : AggNode)
  | source (s : SourceNode)
  deriving DecidableEq

/-- All motes. -/
def motes : List Mote :=
  [.agg .node1, .agg .node2, .agg .node3, .source .node4, .source .node5, .source .node6,
    .source .node7, .source .node8, .source .node9]

/-- What `SerialSocketServer` has sent of a mote. -/
def output (net : Network) : Mote → List Char
  | .agg n => (net.aggLog n).flatten
  | .source s => (net.sourceLog s).flatten

/-- `sock.recv(1024)`, when the socket gives as much as this of what is left of the output. -/
def recv (size : ℕ) (left : List Char) : List Char := left.take (min size 1024)

/-- A turn of the collector's loop for a mote. The file is only made for data. -/
def collect (net : Network) (m : Mote) (size : ℕ) (files : Mote → List Char) : Mote → List Char :=
  let data := recv size ((output net m).drop (files m).length)
  if data ≠ [] then Function.update files m (files m ++ data) else files

/-- `get_all_filenames`, which lists the files there are, in any order. -/
def allFilenames (files : Mote → List Char) : List Mote := motes.filter fun m => files m ≠ []

/-- The loop of `update_box_plot` over the receivers. -/
def readReceivers (files : Mote → List Char) :
    List (Mote × Receiver) → Store → List (Mote × Receiver) × Store
  | [], s => ([], s)
  | (m, r) :: receivers, s =>
    let p := poll (files m) (r, s) (files m).length
    let rest := readReceivers files receivers p.2
    ((m, p.1) :: rest.1, rest.2)

/-- The network and the programs that follow it. -/
structure Pipeline where
  net : Network
  /-- The file of each mote; empty while there is none. -/
  files : Mote → List Char
  receivers : List (Mote × Receiver)
  store : Store

/-- One step of the network or of a program. -/
inductive PipelineStep where
  | net (l : NetStep)
  /-- The collector receives of a mote. -/
  | collect (m : Mote) (size : ℕ)
  /-- The dashboard is started, and lists the files in this order. -/
  | start (fileNames : List Mote)
  /-- The dashboard polls the files. -/
  | update
  deriving DecidableEq

section

variable (rand : SourceNode → ℕ → ℕ) (T : Target)

/-- The pipeline after a step. -/
def pipelineStep (p : Pipeline) : PipelineStep → Pipeline
  | .net l => { p with net := netStep rand T p.net l }
  | .collect m size => { p with files := collect p.net m size p.files }
  | .start fileNames =>
    if fileNames.Perm (allFilenames p.files) then
      { p with receivers := fileNames.map fun m => (m, .init), store := .empty }
    else p
  | .update =>
    let r := readReceivers p.files p.receivers p.store
    { p with receivers := r.1, store := r.2 }

/-- The pipeline when all motes have booted. -/
def pipelineBoot : Pipeline := ⟨netBoot rand T, fun _ => [], [], .empty⟩

/-- The pipeline after a run. -/
def pipelineRun (steps : List PipelineStep) : Pipeline :=
  steps.foldl (pipelineStep rand T) (pipelineBoot rand T)

theorem pipelineRun_concat (steps : List PipelineStep) (l : PipelineStep) :
    pipelineRun rand T (steps ++ [l]) = pipelineStep rand T (pipelineRun rand T steps) l := by
  simp [pipelineRun, List.foldl_append]

/-- The network of a run is in a state of a run of its own. -/
theorem pipelineRun_net (steps : List PipelineStep) :
    ∃ netSteps, (pipelineRun rand T steps).net = netRun rand T netSteps := by
  induction steps using List.reverseRecOn with
  | nil => exact ⟨[], rfl⟩
  | append_singleton steps l ih =>
    obtain ⟨netSteps, h⟩ := ih
    rw [pipelineRun_concat]
    cases l with
    | net l => exact ⟨netSteps ++ [l], by rw [netRun_concat, ← h]; rfl⟩
    | collect m size => exact ⟨netSteps, h⟩
    | update => exact ⟨netSteps, h⟩
    | start fileNames =>
      refine ⟨netSteps, ?_⟩
      rw [← h, pipelineStep]
      split_ifs <;> rfl

end

/-! ## The lines of the motes -/

/-- The lines of a mote, by the entries of its log. -/
def logLines (aggs : AggNode → List (ℕ × MessageAgg)) (messages : SourceNode → List (ℕ × Message)) :
    Mote → List LogLine
  | .agg n => (aggs n).map fun e => .aggregator e.2 e.1
  | .source s => (messages s).map fun e => .source e.2 e.1

section Lines

variable {rand : SourceNode → ℕ → ℕ} {T : Target} {net : Network}
  {aggs : AggNode → List (ℕ × MessageAgg)} {messages : SourceNode → List (ℕ × Message)}

theorem output_eq (ht : Timed T net aggs messages) (m : Mote) :
    output net m = fileOf (LogLine.text T) (logLines aggs messages m) := by
  cases m with
  | agg n =>
    rw [output, (ht.agg n).log, fileOf, logLines, List.map_map]
    rfl
  | source s =>
    rw [output, (ht.source s).log, fileOf, logLines, List.map_map]
    rfl

theorem isInt_of_bounds {T : Target} {z : ℤ} (hl : -32768 ≤ z) (hu : z < 32768) : IsInt T z := by
  rw [← T.toInt_of_abs_lt hl hu]
  exact isInt_toInt T z

theorem isInt_missedSamples (h : Linked rand T net) {n : AggNode} {a : MessageAgg}
    (ha : a ∈ flushedAggs (net.agg n).history) : IsInt T a.missedSamples := by
  obtain ⟨past, t, count, future, heq⟩ := mem_flushedAggs.1 ha
  obtain ⟨-, app, -, -, rfl⟩ := h.flush_at heq
  exact isInt_toInt T _

theorem typed_logLines (h : Linked rand T net) (ht : Timed T net aggs messages)
    (htime : net.time < 2 ^ 63) (m : Mote) : ∀ l ∈ logLines aggs messages m, l.Typed T := by
  cases m with
  | source s =>
    intro l hl
    obtain ⟨e, he, rfl⟩ := List.mem_map.1 hl
    have hsendable := ht.entry_sendable h he
    refine ⟨isInt_of_bounds ?_ ?_, hsendable.msgId_lt,
      ((ht.source s).bounded e he).trans_lt htime⟩
    · have := hsendable.sample_ge
      omega
    · have := hsendable.sample_le
      omega
  | agg n =>
    intro l hl
    obtain ⟨e, he, rfl⟩ := List.mem_map.1 hl
    have hprinted : e.2 ∈ printedAggs (net.agg n).history := by
      rw [← (ht.agg n).printed]
      exact List.mem_map_of_mem he
    refine ⟨?_, (ht.entry_sendableAgg h he).msgId_lt, ((ht.agg n).bounded e he).trans_lt htime⟩
    rcases n.aggregates_or with rfl | hid
    · obtain ⟨n, hflushed⟩ := h.printed_flushed hprinted
      exact isInt_missedSamples h hflushed
    · rw [(h.forwards hid).printed] at hprinted
      cases hprinted

end Lines

/-! ## What the dictionaries hold -/

/-- The dictionaries after polls of the files: `polls` are the sizes that were found, all of them
`Good`, and `events` the pieces of lines that were parsed, in turn. -/
structure Followed (T : Target) (Good : List Char → Prop) (files : Mote → List Char)
    (lines : Mote → List LogLine) (polls : Mote → List ℕ)
    (events : List (Mote × LogLine × List Char)) (s : Store) : Prop where
  file : ∀ m, files m <+: fileOf (LogLine.text T) (lines m)
  sorted : ∀ m, (polls m).Pairwise (· ≤ ·)
  found : ∀ m, ∀ size ∈ polls m, size ≤ (files m).length ∧ Good ((files m).take size)
  store : s = Effect.applyAll (events.map fun e => effect (strip e.2.2)) .empty
  pieces : ∀ m, (events.filter fun e => e.1 = m).map Prod.snd =
    seen (LogLine.text T) 0 (polls m) (lines m)

/-- The polls once these receivers have polled their files. -/
def polledOnce (files : Mote → List Char) (receivers : List (Mote × Receiver))
    (polls : Mote → List ℕ) (m : Mote) : List ℕ :=
  if m ∈ receivers.map Prod.fst then polls m ++ [(files m).length] else polls m

namespace Followed

variable {T : Target} {Good : List Char → Prop} {files : Mote → List Char}
  {lines : Mote → List LogLine} {polls : Mote → List ℕ}
  {events : List (Mote × LogLine × List Char)} {s : Store}

theorem init (hfile : ∀ m, files m <+: fileOf (LogLine.text T) (lines m)) :
    Followed T Good files lines (fun _ => []) [] .empty where
  file := hfile
  sorted := fun m => .nil
  found := fun m size hsize => by cases hsize
  store := rfl
  pieces := fun m => (seen_no_size 0 (lines m)).symm

theorem print (h : Followed T Good files lines polls events s) (new : Mote → List LogLine) :
    Followed T Good files (fun m => lines m ++ new m) polls events s where
  file := fun m => by
    refine (h.file m).trans ?_
    rw [fileOf, fileOf, List.map_append, List.flatten_append]
    exact List.prefix_append _ _
  sorted := h.sorted
  found := h.found
  store := h.store
  pieces := fun m => by
    rw [h.pieces, seen_append]
    exact fun size hsize => (h.found m size hsize).1.trans (h.file m).length_le

theorem grow (h : Followed T Good files lines polls events s) {files' : Mote → List Char}
    (hgrow : ∀ m, files m <+: files' m)
    (hfile : ∀ m, files' m <+: fileOf (LogLine.text T) (lines m)) :
    Followed T Good files' lines polls events s where
  file := hfile
  sorted := h.sorted
  found := fun m size hsize => by
    obtain ⟨hle, hgood⟩ := h.found m size hsize
    obtain ⟨t, ht⟩ := hgrow m
    rw [← ht, List.take_append_of_le_length hle, List.length_append]
    exact ⟨hle.trans (Nat.le_add_right _ _), hgood⟩
  store := h.store
  pieces := h.pieces

section Polls

variable (hint : T.intBits ≤ T.longBits) (htyped : ∀ m, ∀ l ∈ lines m, l.Typed T)
  (hgood : ∀ m, Good (files m))
include hint htyped hgood

theorem poll_one (h : Followed T Good files lines polls events s) (m : Mote) :
    ∃ s' events', poll (files m) (⟨(polls m).getLastD 0⟩, s) (files m).length =
        (⟨(files m).length⟩, s') ∧
      Followed T Good files lines
        (Function.update polls m (polls m ++ [(files m).length])) events' s' := by
  have hlast : (polls m).getLastD 0 ≤ (files m).length := by
    rw [List.getLastD_eq_getLast?]
    cases hget : (polls m).getLast? with
    | none => exact Nat.zero_le _
    | some size => exact (h.found m size (List.mem_of_getLast? hget)).1
  have hsorted : (polls m ++ [(files m).length]).Pairwise (· ≤ ·) := by
    rw [List.pairwise_append]
    refine ⟨h.sorted m, List.pairwise_singleton _ _, fun size hsize size' hsize' => ?_⟩
    rw [List.mem_singleton.1 hsize']
    exact (h.found m size hsize).1
  have htake : files m = (fileOf (LogLine.text T) (lines m)).take (files m).length :=
    List.prefix_iff_eq_take.1 (h.file m)
  have hstart : Starts [] := fun c hc => (nomatch hc)
  have hparse := parse_piece (fun l hl => LogLine.piecewise hint (htyped m l hl)) parseText_nil
    hstart hlast s
  refine ⟨_, events ++ (seen (LogLine.text T) ((polls m).getLastD 0) [(files m).length]
    (lines m)).map fun e => (m, e), poll_eq hlast le_rfl s, h.file, fun m' => ?_,
    fun m' => ?_, ?_, fun m' => ?_⟩
  · by_cases hm : m' = m
    · rw [hm, Function.update_self]
      exact hsorted
    · rw [Function.update_of_ne hm]
      exact h.sorted m'
  · by_cases hm : m' = m
    · rw [hm, Function.update_self]
      intro size hsize
      rcases List.mem_append.1 hsize with hsize | hsize
      · exact h.found m size hsize
      · rw [List.mem_singleton.1 hsize, List.take_length]
        exact ⟨le_rfl, hgood m⟩
    · rw [Function.update_of_ne hm]
      exact h.found m'
  · rw [List.take_length]
    conv_lhs => rw [htake]
    rw [hparse, h.store]
    simp only [Effect.applyAll, List.map_append, List.foldl_append, List.foldl_map]
  · rw [List.filter_append, List.map_append, h.pieces m']
    by_cases hm : m' = m
    · subst hm
      rw [Function.update_self, seen_concat (List.pairwise_cons.2 ⟨fun n _ => Nat.zero_le n,
        hsorted⟩)]
      simp [List.filter_map, Function.comp_def]
    · rw [Function.update_of_ne hm]
      simp [List.filter_map, Function.comp_def, Ne.symm hm]

theorem poll_all (h : Followed T Good files lines polls events s)
    {receivers : List (Mote × Receiver)} (hnodup : (receivers.map Prod.fst).Nodup)
    (hpos : ∀ e ∈ receivers, e.2 = ⟨(polls e.1).getLastD 0⟩) :
    (readReceivers files receivers s).1 = receivers.map (fun e => (e.1, ⟨(files e.1).length⟩)) ∧
      ∃ events', Followed T Good files lines (polledOnce files receivers polls) events'
        (readReceivers files receivers s).2 := by
  induction receivers generalizing polls events s with
  | nil => exact ⟨rfl, events, h⟩
  | cons e receivers ih =>
    obtain ⟨m, r⟩ := e
    obtain ⟨hm, hnodup'⟩ := List.nodup_cons.1 hnodup
    obtain rfl : r = ⟨(polls m).getLastD 0⟩ := hpos (m, r) List.mem_cons_self
    obtain ⟨s', events', hpoll, h'⟩ := h.poll_one hint htyped hgood m
    have hrest : ∀ e ∈ receivers, e.2 = ⟨(Function.update polls m
        (polls m ++ [(files m).length]) e.1).getLastD 0⟩ := by
      intro e he
      have hne : e.1 ≠ m := fun heq => hm (List.mem_map.2 ⟨e, he, heq⟩)
      rw [Function.update_of_ne hne]
      exact hpos e (List.mem_cons_of_mem _ he)
    obtain ⟨hfst, events'', h''⟩ := ih h' hnodup' hrest
    have hpolls : polledOnce files receivers (Function.update polls m
        (polls m ++ [(files m).length])) =
          polledOnce files ((m, ⟨(polls m).getLastD 0⟩) :: receivers) polls := by
      funext m'
      by_cases heq : m' = m
      · subst heq
        rw [polledOnce, if_neg hm, Function.update_self, polledOnce, List.map_cons,
          if_pos List.mem_cons_self]
      · simp only [polledOnce, Function.update_of_ne heq, List.map_cons, List.mem_cons, heq,
          false_or]
    simp only [readReceivers, hpoll, List.map_cons, hfst]
    rw [← hpolls]
    exact ⟨trivial, events'', h''⟩

end Polls

end Followed

/-! ## Runs -/

/-- What holds of every state of the pipeline, if the files were `Good` at every poll. -/
structure Follows (T : Target) (Good : List Char → Prop) (p : Pipeline)
    (aggs : AggNode → List (ℕ × MessageAgg)) (messages : SourceNode → List (ℕ × Message))
    (polls : Mote → List ℕ) (events : List (Mote × LogLine × List Char)) : Prop where
  timed : Timed T p.net aggs messages
  followed : Followed T Good p.files (logLines aggs messages) polls events p.store
  nodup : (p.receivers.map Prod.fst).Nodup
  position : ∀ e ∈ p.receivers, e.2 = ⟨(polls e.1).getLastD 0⟩
  unread : ∀ m, m ∉ p.receivers.map Prod.fst → polls m = []

section Runs

variable {rand : SourceNode → ℕ → ℕ} {T : Target} {Good : List Char → Prop}

theorem collect_extends (net : Network) (m : Mote) (size : ℕ) (files : Mote → List Char)
    (m' : Mote) : files m' <+: collect net m size files m' := by
  unfold collect
  split_ifs
  · by_cases hm : m' = m
    · rw [hm, Function.update_self]
      exact List.prefix_append _ _
    · rw [Function.update_of_ne hm]
  · exact List.prefix_rfl

/-- The collector writes what the mote has printed. -/
theorem collect_output {net : Network} {files : Mote → List Char}
    (hfile : ∀ m, files m <+: output net m) (m : Mote) (size : ℕ) (m' : Mote) :
    collect net m size files m' <+: output net m' := by
  unfold collect
  split_ifs
  · by_cases hm : m' = m
    · subst hm
      obtain ⟨t, ht⟩ := hfile m'
      rw [Function.update_self, ← ht, List.drop_left, List.prefix_append_right_inj]
      exact List.take_prefix _ _
    · rw [Function.update_of_ne hm]
      exact hfile m'
  · exact hfile m'

theorem pipelineStep_time {p : Pipeline} (h : Linked rand T p.net) (l : PipelineStep) :
    p.net.time ≤ (pipelineStep rand T p l).net.time := by
  cases l with
  | net l =>
    obtain ⟨aggNew, sourceNew, hadds⟩ := h.stepAdds l
    exact hadds.time
  | collect m size => exact le_rfl
  | update => exact le_rfl
  | start fileNames =>
    rw [pipelineStep]
    split_ifs <;> exact le_rfl

theorem linked_pipeline (rand : SourceNode → ℕ → ℕ) (T : Target) (steps : List PipelineStep) :
    Linked rand T (pipelineRun rand T steps).net := by
  obtain ⟨netSteps, h⟩ := pipelineRun_net rand T steps
  rw [h]
  exact linked_run rand T netSteps

theorem Follows.step {p : Pipeline} {aggs : AggNode → List (ℕ × MessageAgg)}
    {messages : SourceNode → List (ℕ × Message)} {polls : Mote → List ℕ}
    {events : List (Mote × LogLine × List Char)} (hint : T.intBits ≤ T.longBits)
    (h : Follows T Good p aggs messages polls events) (hlinked : Linked rand T p.net)
    (htime : p.net.time < 2 ^ 63) (l : PipelineStep) (hgood : l = .update → ∀ m, Good (p.files m)) :
    ∃ aggs messages polls events,
      Follows T Good (pipelineStep rand T p l) aggs messages polls events := by
  cases l with
  | net l =>
    obtain ⟨aggNew, sourceNew, hadds⟩ := hlinked.stepAdds l
    have hlines : logLines
        (fun n => aggs n ++ (printedAggs (aggNew n)).map fun a => (p.net.time, a))
        (fun s => messages s ++ (printedMessages (sourceNew s)).map fun m => (p.net.time, m)) =
        fun m => logLines aggs messages m ++ logLines
          (fun n => (printedAggs (aggNew n)).map fun a => (p.net.time, a))
          (fun s => (printedMessages (sourceNew s)).map fun m => (p.net.time, m)) m := by
      funext m
      cases m with
      | agg n => exact List.map_append
      | source s => exact List.map_append
    refine ⟨_, _, polls, events, h.timed.step (hlinked.step l) hadds, ?_, h.nodup, h.position,
      h.unread⟩
    rw [hlines]
    exact h.followed.print _
  | collect m size =>
    refine ⟨aggs, messages, polls, events, h.timed, ?_, h.nodup, h.position, h.unread⟩
    refine h.followed.grow (collect_extends p.net m size p.files) fun m' => ?_
    rw [← output_eq h.timed]
    refine collect_output (fun m => ?_) m size m'
    rw [output_eq h.timed]
    exact h.followed.file m
  | start fileNames =>
    rw [pipelineStep]
    split_ifs with hperm
    · refine ⟨aggs, messages, fun _ => [], [], h.timed, .init h.followed.file, ?_, ?_, fun m _ => rfl⟩
      · have hmotes : motes.Nodup := by decide
        rw [List.map_map]
        simpa [Function.comp_def] using hperm.nodup_iff.2 (hmotes.filter _)
      · intro e he
        obtain ⟨m, -, rfl⟩ := List.mem_map.1 he
        rfl
    · exact ⟨aggs, messages, polls, events, h⟩
  | update =>
    have htyped := typed_logLines hlinked h.timed htime
    obtain ⟨hfst, events', h'⟩ := h.followed.poll_all hint htyped (hgood rfl) h.nodup h.position
    have hnames : ((readReceivers p.files p.receivers p.store).1).map Prod.fst =
        p.receivers.map Prod.fst := by
      rw [hfst, List.map_map]
      rfl
    refine ⟨aggs, messages, _, events', h.timed, h', ?_, ?_, ?_⟩
    · exact hnames.symm ▸ h.nodup
    · intro e he
      have hmem : e.1 ∈ p.receivers.map Prod.fst := by
        rw [← hnames]
        exact List.mem_map_of_mem he
      have he' : e ∈ p.receivers.map fun e => (e.1, (⟨(p.files e.1).length⟩ : Receiver)) := by
        rw [← hfst]
        exact he
      obtain ⟨e, -, rfl⟩ := List.mem_map.1 he'
      rw [polledOnce, if_pos hmem, List.getLastD_concat]
    · intro m hm
      have hm' : m ∉ p.receivers.map Prod.fst := by
        rw [← hnames]
        exact hm
      rw [polledOnce, if_neg hm']
      exact h.unread m hm'

/-- **The invariant holds of every run** whose polls find good files. -/
theorem follows_run (rand : SourceNode → ℕ → ℕ) (Good : List Char → Prop)
    (hint : T.intBits ≤ T.longBits) {steps : List PipelineStep} (htime : (pipelineRun rand T steps).net.time < 2 ^ 63)
    (hgood : ∀ past, past ++ [.update] <+: steps →
      ∀ m, Good ((pipelineRun rand T past).files m)) :
    ∃ aggs messages polls events,
      Follows T Good (pipelineRun rand T steps) aggs messages polls events := by
  induction steps using List.reverseRecOn with
  | nil =>
    refine ⟨_, _, fun _ => [], [], timed_boot rand T, .init fun m => List.nil_prefix, .nil,
      fun e he => ?_, fun m _ => rfl⟩
    cases he
  | append_singleton steps l ih =>
    rw [pipelineRun_concat] at htime ⊢
    have hlinked := linked_pipeline rand T steps
    have hbefore := (pipelineStep_time hlinked l).trans_lt htime
    obtain ⟨aggs, messages, polls, events, h⟩ := ih hbefore fun past hpast =>
      hgood past (hpast.trans (List.prefix_append _ _))
    refine h.step hint hlinked hbefore l fun hl => hgood steps ?_
    rw [hl]

/-- After a poll the receivers are at the ends of their files. -/
theorem update_position (rand : SourceNode → ℕ → ℕ) (hint : T.intBits ≤ T.longBits)
    {steps : List PipelineStep}
    (htime : (pipelineRun rand T (steps ++ [.update])).net.time < 2 ^ 63) :
    ∀ e ∈ (pipelineRun rand T (steps ++ [.update])).receivers,
      e.2 = ⟨((pipelineRun rand T (steps ++ [.update])).files e.1).length⟩ := by
  rw [pipelineRun_concat] at htime ⊢
  have hlinked := linked_pipeline rand T steps
  have hbefore := (pipelineStep_time hlinked .update).trans_lt htime
  obtain ⟨aggs, messages, polls, events, h⟩ :=
    follows_run rand (fun _ => True) hint hbefore fun _ _ _ => trivial
  obtain ⟨hreceivers, -⟩ := h.followed.poll_all hint (typed_logLines hlinked h.timed hbefore)
    (fun _ => trivial) h.nodup h.position
  intro e he
  rw [pipelineStep, hreceivers] at he
  obtain ⟨e, -, rfl⟩ := List.mem_map.1 he
  rfl

end Runs

end WsnAggregation.Live
