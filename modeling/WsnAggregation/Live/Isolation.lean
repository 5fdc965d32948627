import WsnAggregation.Live.Parse

/-!
# What a malformed line does to the others

The `try` of `parse_data` is around the loop, so a line that raises ends the call. In the branch
for source lines the key is made before the time is converted, so a line may make a key and then
raise; the branch for aggregator lines converts first, and only the rounding of its value comes
after the key. The plots take every list of the dictionaries apart without looking whether it is
empty.

* `line_isolation` — a call is the same as a call for each of its lines exactly if nothing is
  lost after its first malformed line.
* `atomic_recording` — over any calls, malformed lines leave the dictionaries alone and the plots
  can take every list apart exactly if no malformed line makes a new key.
-/

namespace WsnAggregation.Live

open Lib

/-! ## Line isolation -/

/-- Whether a line that comes after the lines `seen` leaves the dictionaries as they are: it
records nothing, and if it makes a key before it raises then the key is there already. -/
def AddsNothing (seen : List (List Char)) (s : Store) (line : List Char) : Prop :=
  match effect line with
  | .ignored => True
  | .raised _ => True
  | .source _ (.ok _) => False
  | .aggregator _ (.ok _) => False
  | .source nodeId (.error _) =>
    nodeId ∈ s.data ∨ ∃ l ∈ seen, ∃ entry, effect l = .source nodeId entry
  | .aggregator nodeId (.error _) =>
    nodeId ∈ s.aggregatedData ∨ ∃ l ∈ seen, ∃ entry, effect l = .aggregator nodeId entry

/-- After its first malformed line a batch holds no line that would have added anything. -/
def NothingLost (lines : List (List Char)) (s : Store) : Prop :=
  ∀ before line after, lines = before ++ line :: after →
    (∀ l ∈ before, (effect l).raises = false) → (effect line).raises = true →
    ∀ l ∈ after, AddsNothing (before ++ [line]) s l

theorem mem_record_iff {β : Type} {nodeId k : ℤ} {entry : Except PyException β}
    {d : ListDict ℤ β} : k ∈ record nodeId entry d ↔ k = nodeId ∨ k ∈ d := by
  cases entry with
  | ok x => exact Finmap.mem_insert
  | error e =>
    by_cases hk : nodeId ∈ d
    · rw [record, ListDict.touch_of_mem hk]
      constructor
      · exact Or.inr
      · rintro (rfl | h)
        · exact hk
        · exact h
    · rw [record, ListDict.touch_of_not_mem hk]
      exact Finmap.mem_insert

theorem tryEach_parseLine (lines : List (List Char)) (s : Store) :
    tryEach parseLine lines s = lines.foldl (fun s line => (effect line).apply s) s := by
  rw [tryEach]
  congr 1
  funext s line
  rw [parseLine_eq]

/-- The keys of `data` are those it had and those that the lines made. -/
theorem mem_data_tryEach {k : ℤ} (lines : List (List Char)) (s : Store) :
    k ∈ (tryEach parseLine lines s).data ↔
      k ∈ s.data ∨ ∃ l ∈ lines, ∃ entry, effect l = .source k entry := by
  induction lines generalizing s with
  | nil => simp [tryEach]
  | cons line lines ih =>
    rw [tryEach_cons, ih, parseLine_eq]
    simp only [List.exists_mem_cons_iff]
    cases heff : effect line with
    | source nodeId entry =>
      simp only [Effect.apply, mem_record_iff, Effect.source.injEq, exists_and_left]
      have hentry : ∃ e, entry = e := ⟨entry, rfl⟩
      simp only [hentry, and_true, or_assoc, or_left_comm, eq_comm (a := k)]
    | _ => simp [Effect.apply]

theorem mem_aggregatedData_tryEach {k : ℤ} (lines : List (List Char)) (s : Store) :
    k ∈ (tryEach parseLine lines s).aggregatedData ↔
      k ∈ s.aggregatedData ∨ ∃ l ∈ lines, ∃ entry, effect l = .aggregator k entry := by
  induction lines generalizing s with
  | nil => simp [tryEach]
  | cons line lines ih =>
    rw [tryEach_cons, ih, parseLine_eq]
    simp only [List.exists_mem_cons_iff]
    cases heff : effect line with
    | aggregator nodeId entry =>
      simp only [Effect.apply, mem_record_iff, Effect.aggregator.injEq, exists_and_left]
      have hentry : ∃ e, entry = e := ⟨entry, rfl⟩
      simp only [hentry, and_true, or_assoc, or_left_comm, eq_comm (a := k)]
    | _ => simp [Effect.apply]

theorem addsNothing_iff (seen : List (List Char)) (s : Store) (line : List Char) :
    (parseLine line (tryEach parseLine seen s)).1 = tryEach parseLine seen s ↔
      AddsNothing seen s line := by
  rw [parseLine_eq, AddsNothing]
  cases effect line with
  | ignored => simp [Effect.apply]
  | raised e => simp [Effect.apply]
  | source nodeId entry =>
    have hself : (Effect.source nodeId entry).apply (tryEach parseLine seen s) =
        tryEach parseLine seen s ↔ entry.isOk = false ∧
          nodeId ∈ (tryEach parseLine seen s).data := by
      rw [← record_eq_self_iff, Effect.apply]
      exact ⟨fun h => congrArg Store.data h, fun h => by rw [h]⟩
    refine hself.trans ?_
    rw [mem_data_tryEach]
    cases entry <;> simp [Except.isOk, Except.toBool]
  | aggregator nodeId entry =>
    have hself : (Effect.aggregator nodeId entry).apply (tryEach parseLine seen s) =
        tryEach parseLine seen s ↔ entry.isOk = false ∧
          nodeId ∈ (tryEach parseLine seen s).aggregatedData := by
      rw [← record_eq_self_iff, Effect.apply]
      exact ⟨fun h => congrArg Store.aggregatedData h, fun h => by rw [h]⟩
    refine hself.trans ?_
    rw [mem_aggregatedData_tryEach]
    cases entry <;> simp [Except.isOk, Except.toBool]

theorem parseLine_extends (line : List Char) (s : Store) : s.Extends (parseLine line s).1 := by
  rw [parseLine_eq]
  exact (effect line).extends_apply s

/-- **When lines are isolated.** A call leaves the dictionaries as a call for each line would
exactly if nothing is lost after its first malformed line. -/
theorem line_isolation (lines : List (List Char)) (s : Store) :
    parseData lines s = lines.foldl (fun s line => parseData [line] s) s ↔
      NothingLost lines s := by
  have heach : lines.foldl (fun s line => parseData [line] s) s = tryEach parseLine lines s := by
    rw [tryEach_parseLine]
    congr 1
    funext s line
    exact parseData_singleton line s
  rw [heach, parseData, tryLoop_eq_iff (fun line => (effect line).raises) parseLine_isOk
    Store.Extends.refl Store.Extends.trans Store.Extends.antisymm parseLine_extends]
  simp only [addsNothing_iff, NothingLost]

/-- A source line that was cut off, and a whole one. -/
def cutBatch : List (List Char) :=
  ["source".toList, "source, node_id: 4, sample: 10, mean: 10.000, time: 1000 #".toList]

/-- The first of the two lines raises, and the second is lost. -/
theorem line_isolation_fails : ¬ ∀ lines s,
    parseData lines s = lines.foldl (fun s line => parseData [line] s) s := by
  intro h
  have hlookup : (parseData cutBatch .empty).data.lookup 4 =
      (cutBatch.foldl (fun s line => parseData [line] s) .empty).data.lookup 4 := by
    rw [h cutBatch .empty]
  revert hlookup
  decide +kernel

/-! ## Atomic recording -/

/-- `vals, _ = zip(*values)`: there is nothing to take apart in an empty list. -/
def unpackSource (values : List (ℤ × ℚ)) : Except PyException (List ℤ × List ℚ) :=
  if values = [] then .error .valueError
  else .ok (values.map Prod.fst, values.map Prod.snd)

/-- `agg_values, missed_data, agg_time = zip(*value)`. -/
def unpackAggregator (values : List (ℤ × ℤ × ℚ)) :
    Except PyException (List ℤ × List ℤ × List ℚ) :=
  if values = [] then .error .valueError
  else .ok (values.map Prod.fst, values.map fun v => v.2.1, values.map fun v => v.2.2)

/-- Every key of the two dictionaries maps to a non-empty list. -/
def Store.NonEmpty (s : Store) : Prop := s.data.NonEmpty ∧ s.aggregatedData.NonEmpty

theorem nonEmpty_empty : Store.empty.NonEmpty := by
  constructor <;>
    · intro k l h
      rw [Store.empty, Finmap.lookup_empty] at h
      cases h

/-- `update_box_plot` and `update_combined_lineplot` can take every list apart. -/
structure Store.Unpacks (s : Store) : Prop where
  data : ∀ k values, s.data.lookup k = some values → (unpackSource values).isOk = true
  aggregatedData : ∀ k values, s.aggregatedData.lookup k = some values →
    (unpackAggregator values).isOk = true

theorem Store.NonEmpty.unpacks {s : Store} (h : s.NonEmpty) : s.Unpacks where
  data := fun k values hk => by
    rw [unpackSource, if_neg (h.1 k values hk)]
    rfl
  aggregatedData := fun k values hk => by
    rw [unpackAggregator, if_neg (h.2 k values hk)]
    rfl

/-- A line that makes a new key and then raises: a source line whose node id and sample convert
and whose time does not, or an aggregator line whose value is not finite. -/
def strandsKey (line : List Char) (s : Store) : Bool :=
  match effect line with
  | .source nodeId (.error _) => nodeId ∉ s.data
  | .aggregator nodeId (.error _) => nodeId ∉ s.aggregatedData
  | _ => false

/-- What is asked of a sequence of calls. -/
structure AtomicRecording (calls : List (List (List Char))) (s : Store) : Prop where
  atomic : ∀ p ∈ processedAll parseLine calls s,
    (parseLine p.2 p.1).2.isOk = false → (parseLine p.2 p.1).1 = p.1
  nonEmpty : ∀ before, before <+: calls →
    (before.foldl (fun s lines => parseData lines s) s).NonEmpty
  unpacks : ∀ before, before <+: calls →
    (before.foldl (fun s lines => parseData lines s) s).Unpacks

/-- A line that raises leaves the store alone exactly if it makes no new key. -/
theorem atomic_iff (line : List Char) (s : Store) :
    ((parseLine line s).2.isOk = false → (parseLine line s).1 = s) ↔
      strandsKey line s = false := by
  rw [parseLine_eq, strandsKey]
  rcases effect line with _ | e | ⟨nodeId, e | x⟩ | ⟨nodeId, e | x⟩
  · simp [Effect.apply]
  · simp [Effect.apply]
  · have hself : (Effect.source nodeId (.error e)).apply s = s ↔ nodeId ∈ s.data := by
      rw [← ListDict.touch_eq_self_iff]
      exact ⟨fun h => congrArg Store.data h, fun h => congrArg (Store.mk · s.aggregatedData) h⟩
    simp [Effect.result, Except.isOk, Except.toBool, Except.map, hself]
  · simp [Effect.result, Except.isOk, Except.toBool, Except.map]
  · have hself : (Effect.aggregator nodeId (.error e)).apply s = s ↔
        nodeId ∈ s.aggregatedData := by
      rw [← ListDict.touch_eq_self_iff]
      exact ⟨fun h => congrArg Store.aggregatedData h, fun h => congrArg (Store.mk s.data) h⟩
    simp [Effect.result, Except.isOk, Except.toBool, Except.map, hself]
  · simp [Effect.result, Except.isOk, Except.toBool, Except.map]

theorem Store.NonEmpty.parseLine {s : Store} (h : s.NonEmpty) {line : List Char}
    (hline : strandsKey line s = false) : (parseLine line s).1.NonEmpty := by
  cases hok : (Live.parseLine line s).2.isOk with
  | false =>
    rw [(atomic_iff line s).2 hline hok]
    exact h
  | true =>
    rw [parseLine_eq] at hok ⊢
    cases heff : effect line with
    | ignored => exact h
    | raised e => simp [heff, Effect.result, Except.isOk, Except.toBool] at hok
    | source nodeId entry =>
      cases entry with
      | ok x => exact ⟨h.1.append nodeId x, h.2⟩
      | error e => simp [heff, Effect.result, Except.isOk, Except.toBool, Except.map] at hok
    | aggregator nodeId entry =>
      cases entry with
      | ok x => exact ⟨h.1, h.2.append nodeId x⟩
      | error e => simp [heff, Effect.result, Except.isOk, Except.toBool, Except.map] at hok

theorem processedAll_of_isPrefix {before calls : List (List (List Char))} (h : before <+: calls)
    (s : Store) : ∀ p ∈ processedAll parseLine before s, p ∈ processedAll parseLine calls s := by
  obtain ⟨rest, rfl⟩ := h
  induction before generalizing s with
  | nil => exact fun p hp => absurd hp List.not_mem_nil
  | cons lines before ih =>
    intro p hp
    rw [List.cons_append, processedAll]
    rcases List.mem_append.1 hp with hp | hp
    · exact List.mem_append_left _ hp
    · exact List.mem_append_right _ (ih _ p hp)

/-- **When recording is atomic.** From dictionaries without empty lists, over any calls: the lines
that raise leave the dictionaries alone, no list is ever empty and the plots can take every list
apart, exactly if no line that is processed makes a new key and then raises. -/
theorem atomic_recording (calls : List (List (List Char))) (s : Store) (hs : s.NonEmpty) :
    AtomicRecording calls s ↔ ∀ p ∈ processedAll parseLine calls s,
      strandsKey p.2 p.1 = false := by
  constructor
  · intro h p hp
    exact (atomic_iff p.2 p.1).1 (h.atomic p hp)
  · intro h
    have hnonEmpty : ∀ before, before <+: calls →
        (before.foldl (fun s lines => parseData lines s) s).NonEmpty := fun before hbefore =>
      (processedAll_invariant before hs fun p hp hI =>
        hI.parseLine (h p (processedAll_of_isPrefix hbefore s p hp))).2
    exact ⟨fun p hp => (atomic_iff p.2 p.1).2 (h p hp), hnonEmpty,
      fun before hbefore => (hnonEmpty before hbefore).unpacks⟩

/-- A batch of two lines, one of them malformed but for a known node. -/
def knownBatch : List (List Char) :=
  ["source, node_id: 4, sample: 10, time: 1000 #".toList, "source, node_id: 4, sample: 10".toList]

theorem atomic_recording_knownBatch : AtomicRecording [knownBatch] .empty :=
  (atomic_recording [knownBatch] .empty nonEmpty_empty).2 (by decide +kernel)

/-- A source line that ends with its sample makes a key with an empty list. -/
theorem atomic_recording_fails : ¬ ∀ calls s, s.NonEmpty → AtomicRecording calls s := by
  intro h
  have hall := h [["source, node_id: 4, sample: 10".toList]] .empty nonEmpty_empty
  have hlist := (hall.nonEmpty _ (List.prefix_refl _)).1 4 []
  exact hlist (by decide +kernel) rfl

end WsnAggregation.Live
