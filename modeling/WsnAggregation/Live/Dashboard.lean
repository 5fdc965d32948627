import WsnAggregation.Live.Isolation
import WsnAggregation.Live.Pipeline
import WsnAggregation.Live.Values

/-!
# What the dashboard shows

The dictionaries of the dashboard in every run of the network, the collector and the dashboard.

* `dashboard_sound` — whatever the pieces and the polls, the dictionaries hold no value that was
  not printed, none twice and none under another node.
* `dashboard_exact` — if no poll finds a line that is not whole, they hold exactly what the files
  had at the last one.
-/

namespace WsnAggregation.Live

open Contiki Lib

/-! ## The keys -/

theorem filterMap_filter_of_imp {α β γ : Type} [DecidableEq γ] {f : α → Option β} (tag : α → γ)
    (c : γ) {l : List α} (h : ∀ a ∈ l, ∀ b, f a = some b → tag a = c) :
    l.filterMap f = (l.filter fun a => tag a = c).filterMap f := by
  rw [List.filterMap_filter]
  refine List.filterMap_congr fun a ha => ?_
  by_cases hc : tag a = c
  · simp [hc]
  · rw [if_neg (by simpa using hc), Option.eq_none_iff_forall_ne_some]
    exact fun b hb => hc (h a ha b hb)

section Keys

variable {rand : SourceNode → ℕ → ℕ} {T : Target} {Good : List Char → Prop} {p : Pipeline}
  {aggs : AggNode → List (ℕ × MessageAgg)} {messages : SourceNode → List (ℕ × Message)}
  {polls : Mote → List ℕ} {events : List (Mote × LogLine × List Char)}
  (hint : T.intBits ≤ T.longBits) (h : Follows T Good p aggs messages polls events)
  (hlinked : Linked rand T p.net) (htime : p.net.time < 2 ^ 63)
include hint h hlinked htime

omit hint in
theorem Follows.event_take {e : Mote × LogLine × List Char} (he : e ∈ events) :
    e.2.1 ∈ logLines aggs messages e.1 ∧ e.2.1.Typed T ∧
      ∃ size, 0 < size ∧ e.2.2 = (e.2.1.text T).take size := by
  have hseen : e.2 ∈ seen (LogLine.text T) 0 (polls e.1) (logLines aggs messages e.1) := by
    rw [← h.followed.pieces e.1]
    exact List.mem_map_of_mem (List.mem_filter.2 ⟨he, decide_eq_true rfl⟩)
  exact ⟨(map_fst_seen_sublist 0 _ _).subset (List.mem_map_of_mem hseen),
    eq_take_of_mem_seen (typed_logLines hlinked h.timed htime e.1) hseen⟩

/-- Only a source makes a key of `data`, its own. -/
theorem Follows.source_key {e : Mote × LogLine × List Char} (he : e ∈ events) {k : ℤ}
    {entry : Except PyException (ℤ × ℚ)} (heff : effect (strip e.2.2) = .source k entry) :
    ∃ s, e.1 = .source s ∧ k = s.nodeId := by
  obtain ⟨hline, -, size, hsize, hpiece⟩ := h.event_take hlinked htime he
  rw [hpiece] at heff
  obtain ⟨x, hrecorded⟩ := LogLine.effect_take_source hint hsize heff
  obtain ⟨m, l, piece⟩ := e
  cases m with
  | agg n =>
    obtain ⟨e, -, rfl⟩ := List.mem_map.1 hline
    cases hrecorded
  | source s =>
    obtain ⟨e, hentry, rfl⟩ := List.mem_map.1 hline
    have hle := s.nodeId_le
    have hid : T.toInt (s.nodeId : ℤ) = s.nodeId := T.toInt_of_abs_lt (by omega) (by omega)
    rw [LogLine.recorded, (h.timed.entry_sendable hlinked hentry).nodeId_eq, hid] at hrecorded
    cases hrecorded
    exact ⟨s, rfl, rfl⟩

/-- Only node 1 makes a key of `aggregated_data`, that of the node that aggregated. -/
theorem Follows.aggregator_key {e : Mote × LogLine × List Char} (he : e ∈ events) {k : ℤ}
    {entry : Except PyException (ℤ × ℤ × ℚ)}
    (heff : effect (strip e.2.2) = .aggregator k entry) :
    e.1 = .agg .node1 ∧ (k = 2 ∨ k = 3) := by
  obtain ⟨hline, -, size, hsize, hpiece⟩ := h.event_take hlinked htime he
  rw [hpiece] at heff
  obtain ⟨x, hrecorded⟩ := LogLine.effect_take_aggregator hint hsize heff
  obtain ⟨m, l, piece⟩ := e
  cases m with
  | source s =>
    obtain ⟨e, -, rfl⟩ := List.mem_map.1 hline
    cases hrecorded
  | agg n =>
    obtain ⟨e, hentry, rfl⟩ := List.mem_map.1 hline
    have hsendable := h.timed.entry_sendableAgg hlinked hentry
    have hmote : n = .node1 := by
      rcases n.aggregates_or with rfl | hn
      · rfl
      · have hprinted := (h.timed.agg n).printed
        rw [(hlinked.forwards hn).printed] at hprinted
        rw [List.map_eq_nil_iff.1 hprinted] at hentry
        cases hentry
    have hkey : T.toInt e.2.nodeId = k := by
      rw [LogLine.recorded] at hrecorded
      cases hrecorded
      rfl
    rw [hmote, ← hkey, hsendable.toInt_nodeId]
    refine ⟨rfl, ?_⟩
    rcases hsendable.nodeId with hid | hid
    · exact Or.inl (by rw [hid]; rfl)
    · exact Or.inr (by rw [hid]; rfl)

theorem Follows.data_source (s : SourceNode) : p.store.data.entriesAt (s.nodeId : ℤ) =
    ((seen (LogLine.text T) 0 (polls (.source s)) (logLines aggs messages (.source s))).map
      fun e => effect (strip e.2)).filterMap (Effect.sourceEntry s.nodeId) := by
  have hempty : Store.empty.data.entriesAt (s.nodeId : ℤ) = [] :=
    ListDict.entriesAt_of_not_mem Finmap.notMem_empty
  have hfile : events.filterMap (fun e => (effect (strip e.2.2)).sourceEntry s.nodeId) =
      (events.filter fun e => e.1 = .source s).filterMap
        fun e => (effect (strip e.2.2)).sourceEntry s.nodeId := by
    refine filterMap_filter_of_imp Prod.fst _ fun e he x hx => ?_
    obtain ⟨s', hs', hid⟩ :=
      h.source_key hint hlinked htime he (Effect.sourceEntry_eq_some_iff.1 hx)
    rw [hs', SourceNode.nodeId_injective (Int.ofNat_injective hid)]
  rw [h.followed.store, Effect.data_applyAll, hempty, List.nil_append, List.filterMap_map,
    ← h.followed.pieces, List.map_map, List.filterMap_map]
  exact hfile

theorem Follows.aggregatedData_node1 (k : ℤ) : p.store.aggregatedData.entriesAt k =
    ((seen (LogLine.text T) 0 (polls (.agg .node1)) (logLines aggs messages (.agg .node1))).map
      fun e => effect (strip e.2)).filterMap (Effect.aggregatorEntry k) := by
  have hempty : Store.empty.aggregatedData.entriesAt k = [] :=
    ListDict.entriesAt_of_not_mem Finmap.notMem_empty
  have hfile : events.filterMap (fun e => (effect (strip e.2.2)).aggregatorEntry k) =
      (events.filter fun e => e.1 = .agg .node1).filterMap
        fun e => (effect (strip e.2.2)).aggregatorEntry k :=
    filterMap_filter_of_imp Prod.fst _ fun e he x hx =>
      (h.aggregator_key hint hlinked htime he (Effect.aggregatorEntry_eq_some_iff.1 hx)).1
  rw [h.followed.store, Effect.aggregatedData_applyAll, hempty, List.nil_append,
    List.filterMap_map, ← h.followed.pieces, List.map_map, List.filterMap_map]
  exact hfile

omit hint hlinked htime in
theorem Follows.store_eq :
    p.store = tryEach parseLine (events.map fun e => strip e.2.2) .empty := by
  rw [h.followed.store, tryEach_parseLine, Effect.applyAll, List.foldl_map, List.foldl_map]

theorem Follows.seen_value {m : Mote} {e : LogLine × List Char}
    (he : e ∈ seen (LogLine.text T) 0 (polls m) (logLines aggs messages m)) {k : ℤ} :
    (∀ {x}, effect (strip e.2) = .source k (.ok x) → x.1 = e.1.value T) ∧
      ∀ {x}, effect (strip e.2) = .aggregator k (.ok x) → e.1.nodeId = k ∧ x.1 = e.1.value T := by
  have hline : e.1 ∈ logLines aggs messages m :=
    (map_fst_seen_sublist 0 _ _).subset (List.mem_map_of_mem he)
  obtain ⟨htyped, size, hsize, hpiece⟩ :=
    eq_take_of_mem_seen (typed_logLines hlinked h.timed htime m) he
  rw [hpiece]
  cases m with
  | source s =>
    obtain ⟨e', hentry, heq⟩ := List.mem_map.1 hline
    rw [← heq] at htyped ⊢
    have hsendable := h.timed.entry_sendable hlinked hentry
    refine ⟨fun heff => ?_, fun heff => ?_⟩
    · refine (LogLine.effect_take_sample hint ?_ htyped hsize heff).2
      exact LogLine.length_signed_le (by linarith [hsendable.sample_ge])
        (by linarith [hsendable.sample_le])
    · obtain ⟨y, hrecorded⟩ := LogLine.effect_take_aggregator hint hsize heff
      cases hrecorded
  | agg n =>
    obtain ⟨e', hentry, heq⟩ := List.mem_map.1 hline
    rw [← heq]
    have hid := (h.timed.entry_sendableAgg hlinked hentry).toInt_nodeId
    refine ⟨fun heff => ?_, fun heff => ?_⟩
    · obtain ⟨y, hrecorded⟩ := LogLine.effect_take_source hint hsize heff
      cases hrecorded
    · obtain ⟨hk, hv⟩ := LogLine.effect_take_value hint hsize heff
      exact ⟨hid.symm.trans hk.symm, hv⟩

end Keys

/-! ## Whatever the pieces -/

/-- The dictionaries show what the motes printed, and nothing else. -/
structure Sound (T : Target) (p : Pipeline) : Prop where
  /-- The samples of a source, in the order it sent them. -/
  samples : ∀ s : SourceNode,
    ((p.store.data.entriesAt (s.nodeId : ℤ)).map Prod.fst).Sublist
      ((p.net.sentBy s).map fun m => m.sample)
  /-- The values that node 1 printed for an aggregator, in its order. -/
  values : ∀ n : ℕ, Aggregates n →
    ((p.store.aggregatedData.entriesAt (n : ℤ)).map Prod.fst).Sublist
      (((printedAggs (p.net.agg .node1).history).filter fun a => a.nodeId = n).map
        (LogLine.shownValue T))
  nodeIds : ∀ k ∈ p.store.data, ∃ s : SourceNode, k = s.nodeId
  aggregators : ∀ k ∈ p.store.aggregatedData, k = 2 ∨ k = 3

theorem filterMap_sublist {α β : Type} {f : α → Option β} {keep : α → Bool} {g : α → β}
    {l : List α} (h : ∀ a ∈ l, ∀ b, f a = some b → keep a = true ∧ b = g a) :
    (l.filterMap f).Sublist ((l.filter keep).map g) := by
  induction l with
  | nil => exact List.Sublist.refl _
  | cons a l ih =>
    have hrest := ih fun a ha => h a (List.mem_cons_of_mem _ ha)
    cases hf : f a with
    | none =>
      rw [List.filterMap_cons_none hf]
      exact hrest.trans (((List.sublist_cons_self a l).filter keep).map g)
    | some b =>
      obtain ⟨hkeep, rfl⟩ := h a List.mem_cons_self b hf
      rw [List.filterMap_cons_some hf, List.filter_cons_of_pos hkeep]
      exact hrest.cons_cons _

theorem filterMap_seen_sublist {ρ β : Type} {text : ρ → List Char} {records : List ρ}
    {f : ρ × List Char → Option β} {keep : ρ → Bool} {g : ρ → β} (pos : ℕ) (sizes : List ℕ)
    (h : ∀ e ∈ seen text pos sizes records, ∀ b, f e = some b → keep e.1 = true ∧ b = g e.1) :
    ((seen text pos sizes records).filterMap f).Sublist ((records.filter keep).map g) := by
  have hkept : ((seen text pos sizes records).filterMap f).Sublist
      (((seen text pos sizes records).filter fun e => keep e.1).map fun e => g e.1) :=
    filterMap_sublist h
  have hmap : ((seen text pos sizes records).filter fun e => keep e.1).map (fun e => g e.1) =
      (((seen text pos sizes records).map Prod.fst).filter keep).map g := by
    rw [List.filter_map, List.map_map]
    rfl
  rw [hmap] at hkept
  exact hkept.trans (((map_fst_seen_sublist pos sizes records).filter keep).map g)

/-- **The dashboard shows only what was printed**, in every run of the network, the collector and
the dashboard: however the output is cut into pieces and whenever the files are polled, the
samples under a node id are samples of that source, in order and none twice, and so are the
values of the aggregators. What a cut line can spoil is only a time or a missed count. -/
theorem dashboard_sound (rand : SourceNode → ℕ → ℕ) (T : Target) (hint : T.intBits ≤ T.longBits)
    (steps : List PipelineStep) (htime : (pipelineRun rand T steps).net.time < 2 ^ 63) :
    Sound T (pipelineRun rand T steps) := by
  obtain ⟨aggs, messages, polls, events, h⟩ :=
    follows_run rand (fun _ => True) hint htime fun _ _ _ => trivial
  have hlinked := linked_pipeline rand T steps
  refine { samples := fun s => ?_, values := fun n hn => ?_, nodeIds := fun k hk => ?_,
           aggregators := fun k hk => ?_ }
  · have hsent : (logLines aggs messages (.source s)).map (LogLine.value T) =
        ((pipelineRun rand T steps).net.sentBy s).map fun m => m.sample := by
      rw [logLines, ← h.timed.entries_sent hlinked s, List.map_map, List.map_map]
      rfl
    have hkept : ((seen (LogLine.text T) 0 (polls (.source s)) (logLines aggs messages
        (.source s))).filterMap fun e => ((effect (strip e.2)).sourceEntry s.nodeId).map
          Prod.fst).Sublist (((logLines aggs messages (.source s)).filter fun _ => true).map
            (LogLine.value T)) := by
      refine filterMap_seen_sublist 0 _ fun e he v hv => ⟨rfl, ?_⟩
      obtain ⟨x, hx, rfl⟩ := Option.map_eq_some_iff.1 hv
      have heff := Effect.sourceEntry_eq_some_iff.1 hx
      exact (h.seen_value hint hlinked htime he).1 heff
    rw [List.filter_true, hsent] at hkept
    rw [h.data_source hint hlinked htime, List.filterMap_map, List.map_filterMap]
    exact hkept
  · have hprinted : ((logLines aggs messages (.agg .node1)).filter fun l => l.nodeId = n).map
        (LogLine.value T) = ((printedAggs ((pipelineRun rand T steps).net.agg .node1).history).filter
          fun a => a.nodeId = n).map (LogLine.shownValue T) := by
      rw [← (h.timed.agg .node1).printed, logLines, List.filter_map, List.filter_map, List.map_map,
        List.map_map]
      rfl
    have hkept : ((seen (LogLine.text T) 0 (polls (.agg .node1)) (logLines aggs messages
        (.agg .node1))).filterMap fun e => ((effect (strip e.2)).aggregatorEntry n).map
          Prod.fst).Sublist (((logLines aggs messages (.agg .node1)).filter
            fun l => l.nodeId = n).map (LogLine.value T)) := by
      refine filterMap_seen_sublist 0 _ fun e he v hv => ?_
      obtain ⟨x, hx, rfl⟩ := Option.map_eq_some_iff.1 hv
      have heff := Effect.aggregatorEntry_eq_some_iff.1 hx
      obtain ⟨hid, hvalue⟩ := (h.seen_value hint hlinked htime he).2 heff
      exact ⟨decide_eq_true (Int.ofNat_injective hid), hvalue⟩
    rw [hprinted] at hkept
    rw [h.aggregatedData_node1 hint hlinked htime, List.filterMap_map, List.map_filterMap]
    exact hkept
  · rw [h.store_eq, mem_data_tryEach] at hk
    obtain hk | ⟨l, hl, entry, heff⟩ := hk
    · exact absurd hk Finmap.notMem_empty
    · obtain ⟨e, he, rfl⟩ := List.mem_map.1 hl
      obtain ⟨s, -, hs⟩ := h.source_key hint hlinked htime he heff
      exact ⟨s, hs⟩
  · rw [h.store_eq, mem_aggregatedData_tryEach] at hk
    obtain hk | ⟨l, hl, entry, heff⟩ := hk
    · exact absurd hk Finmap.notMem_empty
    · obtain ⟨e, he, rfl⟩ := List.mem_map.1 hl
      exact (h.aggregator_key hint hlinked htime he heff).2

/-- Node 4 sends a message. The dashboard starts when the collector has a part of the line. -/
def cutLineRun : List PipelineStep :=
  [.net (.source .node4 .poll), .net (.source .node4 .event), .collect (.source .node4) 40,
    .start [.source .node4], .update, .collect (.source .node4) 1024, .update]

theorem dashboard_sound_cutLine : Sound .sky (pipelineRun (fourthDraw 0) .sky cutLineRun) :=
  dashboard_sound (fourthDraw 0) .sky (by decide) cutLineRun (by decide +kernel)

/-! ## Polls of whole lines -/

/-- The file ends with a line feed, or is empty. -/
def WholeLines (file : List Char) : Prop := ∀ c ∈ file.getLast?, c = '\n'

instance (file : List Char) : Decidable (WholeLines file) :=
  decidable_of_iff (file.getLast?.all fun c => c == '\n') (by
    unfold WholeLines
    cases file.getLast? <;> simp)

/-- The dictionaries are those of the files, line by line. -/
structure Exact (T : Target) (p : Pipeline) (aggs : AggNode → List (ℕ × MessageAgg))
    (messages : SourceNode → List (ℕ × Message)) : Prop where
  source : ∀ s, .source s ∈ p.receivers.map Prod.fst → ∃ shown, shown <+: messages s ∧
    p.files (.source s) = (shown.map fun e => stamp e.1 (printMessage T e.2)).flatten ∧
    p.store.data.entriesAt (s.nodeId : ℤ) = shown.map fun e => (e.2.sample, (e.1 : ℚ) / 1000)
  agg : .agg .node1 ∈ p.receivers.map Prod.fst → ∃ shown, shown <+: aggs .node1 ∧
    p.files (.agg .node1) = (shown.map fun e => stamp e.1 (printMessageAgg T e.2)).flatten ∧
    ∀ n : ℕ, p.store.aggregatedData.entriesAt (n : ℤ) = (shown.filter fun e => e.2.nodeId = n).map
      fun e => (LogLine.shownValue T e.2, e.2.missedSamples, (e.1 : ℚ) / 1000)
  /-- What is not listed when the dashboard starts is not followed. -/
  unlisted : ∀ s, .source s ∉ p.receivers.map Prod.fst →
    p.store.data.entriesAt (s.nodeId : ℤ) = []

section Whole

variable {rand : SourceNode → ℕ → ℕ} {T : Target} {p : Pipeline}
  {aggs : AggNode → List (ℕ × MessageAgg)} {messages : SourceNode → List (ℕ × Message)}
  {polls : Mote → List ℕ} {events : List (Mote × LogLine × List Char)}

theorem text_mark (l : LogLine) : ∃ body, l.text T = body ++ ['\n'] ∧ '\n' ∉ body :=
  ⟨l.body T, l.text_eq T, l.newline_body⟩

/-- Polls that find whole lines see whole lines, up to the last. -/
theorem Follows.seen_eq (h : Follows T WholeLines p aggs messages polls events) (m : Mote) :
    ∃ a, a <+: logLines aggs messages m ∧
      (polls m).getLastD 0 = (fileOf (LogLine.text T) a).length ∧
      seen (LogLine.text T) 0 (polls m) (logLines aggs messages m) = a.map fun l => (l, l.text T) := by
  refine seen_of_whole (fun l _ => l.text_ne_nil) (h.followed.sorted m) fun size hsize => ?_
  obtain ⟨hle, hwhole⟩ := h.followed.found m size hsize
  obtain ⟨a, ha, hfile⟩ := whole_of_mark (fun l _ => text_mark l)
    ((List.take_prefix size _).trans (h.followed.file m)) hwhole
  exact ⟨a, ha, by rw [← hfile, List.length_take_of_le hle]⟩

theorem filterMap_eq_filter {α β : Type} {f : α → Option β} {keep : α → Bool} {g : α → β}
    {l : List α} (h : ∀ a ∈ l, f a = if keep a then some (g a) else none) :
    l.filterMap f = (l.filter keep).map g := by
  rw [List.filterMap_congr h]
  induction l with
  | nil => rfl
  | cons a l ih =>
    have hrest := ih fun a ha => h a (List.mem_cons_of_mem _ ha)
    cases hk : keep a with
    | true => simp [hk, hrest]
    | false => simp [hk, hrest]

variable (hint : T.intBits ≤ T.longBits) (h : Follows T WholeLines p aggs messages polls events)
  (hlinked : Linked rand T p.net) (htime : p.net.time < 2 ^ 63)
include hint h hlinked htime

theorem Follows.seen_recorded (m : Mote) :
    ∃ a, a <+: logLines aggs messages m ∧
      (polls m).getLastD 0 = (fileOf (LogLine.text T) a).length ∧
      (seen (LogLine.text T) 0 (polls m) (logLines aggs messages m)).map
        (fun e => effect (strip e.2)) = a.map (LogLine.recorded T) := by
  obtain ⟨a, ha, hlast, hseen⟩ := h.seen_eq m
  refine ⟨a, ha, hlast, ?_⟩
  rw [hseen, List.map_map]
  refine List.map_congr_left fun l hl => ?_
  have htyped := typed_logLines hlinked h.timed htime m l (ha.subset hl)
  rw [Function.comp_apply, l.strip_text, LogLine.effect_body hint htyped]

omit hint hlinked htime in
theorem Follows.file_eq {m : Mote} {a : List LogLine} (ha : a <+: logLines aggs messages m)
    (hlast : (polls m).getLastD 0 = (fileOf (LogLine.text T) a).length)
    (hposition : (polls m).getLastD 0 = (p.files m).length) :
    p.files m = fileOf (LogLine.text T) a := by
  have hfile : fileOf (LogLine.text T) a <+: fileOf (LogLine.text T) (logLines aggs messages m) := by
    obtain ⟨b, hb⟩ := ha
    rw [← hb, fileOf, fileOf, List.map_append, List.flatten_append]
    exact List.prefix_append _ _
  have hlen : (p.files m).length = (fileOf (LogLine.text T) a).length := hposition.symm.trans hlast
  exact (List.prefix_of_prefix_length_le (h.followed.file m) hfile hlen.le).eq_of_length hlen

theorem Follows.exact_source {s : SourceNode}
    (hposition : (polls (.source s)).getLastD 0 = (p.files (.source s)).length) :
    ∃ shown, shown <+: messages s ∧
      p.files (.source s) = (shown.map fun e => stamp e.1 (printMessage T e.2)).flatten ∧
      p.store.data.entriesAt (s.nodeId : ℤ) =
        shown.map fun e => (e.2.sample, (e.1 : ℚ) / 1000) := by
  obtain ⟨a, ha, hlast, hseen⟩ := h.seen_recorded hint hlinked htime (.source s)
  have hfile := h.file_eq ha hlast hposition
  obtain ⟨shown, hshown, rfl⟩ := List.prefix_map_iff.1 ha
  refine ⟨shown, hshown, ?_, ?_⟩
  · rw [hfile, fileOf, List.map_map]
    rfl
  · have hentry : ∀ e ∈ shown,
        Effect.sourceEntry s.nodeId (LogLine.recorded T (.source e.2 e.1)) =
          some (e.2.sample, (e.1 : ℚ) / 1000) := by
      intro e he
      have hle := s.nodeId_le
      rw [Effect.sourceEntry_eq_some_iff, LogLine.recorded,
        (h.timed.entry_sendable hlinked (hshown.subset he)).nodeId_eq,
        T.toInt_of_abs_lt (by omega) (by omega)]
    rw [h.data_source hint hlinked htime, hseen, List.map_map, List.filterMap_map,
      ← List.filterMap_eq_map']
    exact List.filterMap_congr hentry

theorem Follows.exact_agg
    (hposition : (polls (.agg .node1)).getLastD 0 = (p.files (.agg .node1)).length) :
    ∃ shown, shown <+: aggs .node1 ∧
      p.files (.agg .node1) = (shown.map fun e => stamp e.1 (printMessageAgg T e.2)).flatten ∧
      ∀ n : ℕ, p.store.aggregatedData.entriesAt (n : ℤ) =
        (shown.filter fun e => e.2.nodeId = n).map fun e =>
          (LogLine.shownValue T e.2, e.2.missedSamples, (e.1 : ℚ) / 1000) := by
  obtain ⟨a, ha, hlast, hseen⟩ := h.seen_recorded hint hlinked htime (.agg .node1)
  have hfile := h.file_eq ha hlast hposition
  obtain ⟨shown, hshown, rfl⟩ := List.prefix_map_iff.1 ha
  refine ⟨shown, hshown, ?_, fun n => ?_⟩
  · rw [hfile, fileOf, List.map_map]
    rfl
  · have hentry : ∀ e ∈ shown,
        Effect.aggregatorEntry n (LogLine.recorded T (.aggregator e.2 e.1)) =
          if decide (e.2.nodeId = n) then
            some (LogLine.shownValue T e.2, e.2.missedSamples, (e.1 : ℚ) / 1000)
          else none := by
      intro e he
      have hid := (h.timed.entry_sendableAgg hlinked (hshown.subset he)).toInt_nodeId
      rw [LogLine.recorded, hid, Effect.aggregatorEntry, entryAt]
      simp only [Nat.cast_inj, eq_comm (a := n), decide_eq_true_eq]
      rfl
    rw [h.aggregatedData_node1 hint hlinked htime, hseen, List.map_map, List.filterMap_map]
    exact filterMap_eq_filter hentry

end Whole

/-- **The dashboard shows what the files hold**: if no poll finds a line that is not whole, then
after each the entries are those of the lines in the files, in order, under the node that each
line names. -/
theorem dashboard_exact (rand : SourceNode → ℕ → ℕ) (T : Target) (hint : T.intBits ≤ T.longBits)
    (steps : List PipelineStep)
    (htime : (pipelineRun rand T (steps ++ [.update])).net.time < 2 ^ 63)
    (hwhole : ∀ past, past ++ [.update] <+: steps ++ [.update] →
      ∀ m, WholeLines ((pipelineRun rand T past).files m)) :
    ∃ aggs messages, Timed T (pipelineRun rand T (steps ++ [.update])).net aggs messages ∧
      Exact T (pipelineRun rand T (steps ++ [.update])) aggs messages := by
  obtain ⟨aggs, messages, polls, events, h⟩ := follows_run rand WholeLines hint htime hwhole
  have hlinked := linked_pipeline rand T (steps ++ [.update])
  have hposition : ∀ m ∈ (pipelineRun rand T (steps ++ [.update])).receivers.map Prod.fst,
      (polls m).getLastD 0 = ((pipelineRun rand T (steps ++ [.update])).files m).length := by
    intro m hm
    obtain ⟨e, he, rfl⟩ := List.mem_map.1 hm
    have hpoll := update_position rand hint htime e he
    rw [h.position e he] at hpoll
    exact Receiver.mk.inj hpoll
  refine ⟨aggs, messages, h.timed, fun s hs => ?_, fun hagg => ?_, fun s hs => ?_⟩
  · exact h.exact_source hint hlinked htime (hposition _ hs)
  · exact h.exact_agg hint hlinked htime (hposition _ hagg)
  · rw [h.data_source hint hlinked htime, h.unread _ hs, seen_no_size]
    rfl

/-- Node 4 sends a message, and the collector has the line when the dashboard starts. -/
def wholeLineRun : List PipelineStep :=
  [.net (.source .node4 .poll), .net (.source .node4 .event), .collect (.source .node4) 1024,
    .start [.source .node4]]

theorem dashboard_exact_wholeLine : ∃ aggs messages,
    Timed .sky (pipelineRun (fourthDraw 0) .sky (wholeLineRun ++ [.update])).net aggs messages ∧
      Exact .sky (pipelineRun (fourthDraw 0) .sky (wholeLineRun ++ [.update])) aggs messages := by
  have hwhole : WholeLines ((pipelineRun (fourthDraw 0) .sky wholeLineRun).files
      (.source .node4)) := by decide +kernel
  have hnone : ∀ m ∈ motes, m ≠ .source .node4 →
      (pipelineRun (fourthDraw 0) .sky wholeLineRun).files m = [] := by decide +kernel
  have hmotes : ∀ m, m ∈ motes := by
    intro m
    cases m with
    | agg n => cases n <;> decide
    | source s => cases s <;> decide
  refine dashboard_exact (fourthDraw 0) .sky (by decide) wholeLineRun (by decide +kernel)
    fun past hpast m => ?_
  rcases List.prefix_concat_iff.1 hpast with heq | hin
  · rw [List.append_cancel_right heq]
    by_cases hm : m = .source .node4
    · exact hm ▸ hwhole
    · rw [hnone m (hmotes m) hm]
      exact fun c hc => by cases hc
  · have hmem : .update ∈ wholeLineRun := hin.subset (List.mem_append_right _ List.mem_cons_self)
    exact absurd hmem (by decide)

end WsnAggregation.Live
