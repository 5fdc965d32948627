import WsnAggregation.Lib.Completes
import WsnAggregation.Lib.ListDict
import WsnAggregation.Lib.TryLoop
import WsnAggregation.Live.Python

/-!
# The live parser

`parse_data` of `data_processing.py`, on any lines: one `try` around the loop over them, and two
dictionaries that outlive the call. The message of the handler is not modelled.

What a line does is the same whatever the dictionaries hold (`Effect`, `parseLine_eq`), and they
only ever grow.
-/

namespace WsnAggregation.Live

open Lib

/-- The two global dictionaries. -/
structure Store where
  data : ListDict ℤ (ℤ × ℚ)
  aggregatedData : ListDict ℤ (ℤ × ℤ × ℚ)

/-- The dictionaries before the first call. -/
def Store.empty : Store := ⟨∅, ∅⟩

/-! ## The source's code -/

/-- `part.split(":")[1]`, of a part that may be missing. -/
def secondField (part : Option (List Char)) : Except PyException (List Char) :=
  match part.bind fun p => (p.splitOn ':')[1]? with
  | some field => .ok field
  | none => .error .indexError

/-- The time of a line: the field of its last part, without the first character and the last two. -/
def timeValue (parts : List (List Char)) : Except PyException ℚ := do
  let field ← secondField parts.getLast?
  let time ← parseInt (slice field)
  divThousand time

/-- The node id and the sample of a source line, as the code converts them. -/
def sourceFields (parts : List (List Char)) : Except PyException (ℤ × ℤ) := do
  let nodeId ← secondField parts[1]?
  let field ← secondField parts[2]?
  let sampleValue ← parseInt field
  let nodeId ← parseInt nodeId
  return (nodeId, sampleValue)

/-- The branch for a source line. The key is made before the time is converted. -/
def parseSource (parts : List (List Char)) (s : Store) : Store × Except PyException Unit :=
  match sourceFields parts with
  | .error e => (s, .error e)
  | .ok (nodeId, sampleValue) =>
    let s := { s with data := s.data.touch nodeId }
    match timeValue parts with
    | .error e => (s, .error e)
    | .ok time => ({ s with data := s.data.append nodeId (sampleValue, time) }, .ok ())

/-- The node id, the value, the missed messages and the time of an aggregator line. -/
def aggregatorFields (parts : List (List Char)) : Except PyException (ℤ × PyFloat × ℤ × ℚ) := do
  let field ← secondField parts[1]?
  let nodeId ← parseInt field
  let field ← secondField parts[2]?
  let aggValue ← if field = [] then .ok (.finite 0) else parseFloat field
  let field ← secondField parts[3]?
  let missed ← parseInt field
  let time ← timeValue parts
  return (nodeId, aggValue, missed, time)

/-- The branch for an aggregator line. The value is rounded once the key is made. -/
def parseAggregator (parts : List (List Char)) (s : Store) : Store × Except PyException Unit :=
  match aggregatorFields parts with
  | .error e => (s, .error e)
  | .ok (nodeId, aggValue, missed, time) =>
    let s := { s with aggregatedData := s.aggregatedData.touch nodeId }
    match pyRound aggValue with
    | .error e => (s, .error e)
    | .ok value =>
      ({ s with aggregatedData := s.aggregatedData.append nodeId (value, missed, time) }, .ok ())

/-- `parts[0].startswith(w)`. -/
def startsWith (w : String) (parts : List (List Char)) : Bool :=
  w.toList.isPrefixOf (parts.head?.getD [])

/-- The body of the loop. -/
def parseLine (line : List Char) (s : Store) : Store × Except PyException Unit :=
  let parts := pySplit line
  if startsWith "source" parts then parseSource parts s
  else if startsWith "aggregator" parts then parseAggregator parts s
  else (s, .ok ())

/-- `parse_data`. -/
def parseData (lines : List (List Char)) (s : Store) : Store := tryLoop parseLine lines s

/-! ## What a line does -/

/-- What a line does. The two last make a key, and add an entry unless they raise. -/
inductive Effect where
  | ignored
  | raised (e : PyException)
  | source (nodeId : ℤ) (entry : Except PyException (ℤ × ℚ))
  | aggregator (nodeId : ℤ) (entry : Except PyException (ℤ × ℤ × ℚ))
  deriving DecidableEq

/-- Make a key, and add an entry unless that raises. -/
def record {β : Type} (nodeId : ℤ) (entry : Except PyException β) (d : ListDict ℤ β) :
    ListDict ℤ β :=
  match entry with
  | .ok x => d.append nodeId x
  | .error _ => d.touch nodeId

namespace Effect

/-- The dictionaries afterwards. -/
def apply (e : Effect) (s : Store) : Store :=
  match e with
  | .ignored => s
  | .raised _ => s
  | .source nodeId entry => { s with data := record nodeId entry s.data }
  | .aggregator nodeId entry => { s with aggregatedData := record nodeId entry s.aggregatedData }

/-- Whether an exception leaves the body of the loop. -/
def result : Effect → Except PyException Unit
  | .ignored => .ok ()
  | .raised e => .error e
  | .source _ entry => entry.map fun _ => ()
  | .aggregator _ entry => entry.map fun _ => ()

/-- Does the line raise? -/
def raises (e : Effect) : Bool := !e.result.isOk

end Effect

/-- What a source line does. -/
def sourceEffect (parts : List (List Char)) : Effect :=
  match sourceFields parts with
  | .error e => .raised e
  | .ok (nodeId, sampleValue) =>
    .source nodeId ((timeValue parts).map fun time => (sampleValue, time))

/-- What an aggregator line does. -/
def aggregatorEffect (parts : List (List Char)) : Effect :=
  match aggregatorFields parts with
  | .error e => .raised e
  | .ok (nodeId, aggValue, missed, time) =>
    .aggregator nodeId ((pyRound aggValue).map fun value => (value, missed, time))

/-- What a line does. -/
def effect (line : List Char) : Effect :=
  if startsWith "source" (pySplit line) then sourceEffect (pySplit line)
  else if startsWith "aggregator" (pySplit line) then aggregatorEffect (pySplit line)
  else .ignored

/-! ## What the fields are -/

theorem secondField_eq_ok_iff {x y : List Char} :
    secondField (some x) = .ok y ↔ (x.splitOn ':')[1]? = some y := by
  rw [secondField, Option.bind_some]
  cases (x.splitOn ':')[1]? with
  | none => simp
  | some field => simp

theorem sourceFields_eq_ok_iff {parts : List (List Char)} {nodeId sampleValue : ℤ} :
    sourceFields parts = .ok (nodeId, sampleValue) ↔ ∃ y z, secondField parts[1]? = .ok y ∧
      secondField parts[2]? = .ok z ∧ parseInt z = .ok sampleValue ∧ parseInt y = .ok nodeId := by
  simp only [sourceFields, bind_eq_ok, pure, Except.pure, Except.ok.injEq, Prod.mk.injEq]
  constructor
  · rintro ⟨y, hy, z, hz, v, hv, n, hn, rfl, rfl⟩
    exact ⟨y, z, hy, hz, hv, hn⟩
  · rintro ⟨y, z, hy, hz, hv, hn⟩
    exact ⟨y, hy, z, hz, _, hv, _, hn, rfl, rfl⟩

/-- The fields of an aggregator line, but for how its value is converted. -/
theorem aggregatorFields_eq_ok {parts : List (List Char)} {nodeId missed : ℤ} {aggValue : PyFloat}
    {time : ℚ} (h : aggregatorFields parts = .ok (nodeId, aggValue, missed, time)) :
    ∃ y z, secondField parts[1]? = .ok y ∧ parseInt y = .ok nodeId ∧
      secondField parts[3]? = .ok z ∧ parseInt z = .ok missed ∧ timeValue parts = .ok time := by
  simp only [aggregatorFields, bind_eq_ok] at h
  obtain ⟨y, hy, n, hn, field, -, h⟩ := h
  split_ifs at h
  all_goals
    simp only [bind_eq_ok, pure, Except.pure, Except.ok.injEq, Prod.mk.injEq] at h
    obtain ⟨value, -, z, hz, m, hm, t, ht, rfl, rfl, rfl, rfl⟩ := h
    exact ⟨y, z, hy, hn, hz, hm, ht⟩

theorem effect_eq_source_iff {line : List Char} {nodeId : ℤ}
    {entry : Except PyException (ℤ × ℚ)} :
    effect line = .source nodeId entry ↔ startsWith "source" (pySplit line) = true ∧
      ∃ sampleValue, sourceFields (pySplit line) = .ok (nodeId, sampleValue) ∧
        (timeValue (pySplit line)).map (fun time => (sampleValue, time)) = entry := by
  unfold effect
  split_ifs with hs ha
  · rw [sourceEffect]
    cases hf : sourceFields (pySplit line) with
    | error e => simp
    | ok fields => simp [hs, Prod.ext_iff, and_assoc]
  · rw [aggregatorEffect]
    cases hf : aggregatorFields (pySplit line) with
    | error e => simp [hs]
    | ok fields => simp [hs]
  · simp [hs]

theorem effect_eq_aggregator_iff {line : List Char} {nodeId : ℤ}
    {entry : Except PyException (ℤ × ℤ × ℚ)} :
    effect line = .aggregator nodeId entry ↔ ¬startsWith "source" (pySplit line) = true ∧
      startsWith "aggregator" (pySplit line) = true ∧ ∃ aggValue missed time,
        aggregatorFields (pySplit line) = .ok (nodeId, aggValue, missed, time) ∧
          (pyRound aggValue).map (fun value => (value, missed, time)) = entry := by
  unfold effect
  split_ifs with hs ha
  · rw [sourceEffect]
    cases hf : sourceFields (pySplit line) with
    | error e => simp [hs]
    | ok fields => simp [hs]
  · rw [aggregatorEffect]
    cases hf : aggregatorFields (pySplit line) with
    | error e => simp
    | ok fields => simp [hs, ha, Prod.ext_iff, and_assoc]
  · simp [ha]

/-- When a line adds this entry to `data`. -/
theorem effect_eq_source_ok_iff {line : List Char} {nodeId sampleValue : ℤ} {time : ℚ} :
    effect line = .source nodeId (.ok (sampleValue, time)) ↔
      startsWith "source" (pySplit line) = true ∧
        sourceFields (pySplit line) = .ok (nodeId, sampleValue) ∧
          timeValue (pySplit line) = .ok time := by
  rw [effect_eq_source_iff]
  constructor
  · intro ⟨hstart, v, hfields, hentry⟩
    obtain ⟨t, ht, hpair⟩ := map_eq_ok.1 hentry
    obtain ⟨rfl, rfl⟩ := Prod.mk.inj hpair
    exact ⟨hstart, hfields, ht⟩
  · intro ⟨hstart, hfields, ht⟩
    exact ⟨hstart, sampleValue, hfields, map_eq_ok.2 ⟨time, ht, rfl⟩⟩

theorem effect_eq_aggregator_ok_iff {line : List Char} {nodeId value missed : ℤ} {time : ℚ} :
    effect line = .aggregator nodeId (.ok (value, missed, time)) ↔
      ¬startsWith "source" (pySplit line) = true ∧ startsWith "aggregator" (pySplit line) = true ∧
        ∃ aggValue, aggregatorFields (pySplit line) = .ok (nodeId, aggValue, missed, time) ∧
          pyRound aggValue = .ok value := by
  rw [effect_eq_aggregator_iff]
  constructor
  · intro ⟨hsource, hstart, w, m, t, hfields, hentry⟩
    obtain ⟨v, hv, hpair⟩ := map_eq_ok.1 hentry
    rw [Prod.mk.injEq, Prod.mk.injEq] at hpair
    obtain ⟨rfl, rfl, rfl⟩ := hpair
    exact ⟨hsource, hstart, w, hfields, hv⟩
  · intro ⟨hsource, hstart, w, hfields, hv⟩
    exact ⟨hsource, hstart, w, missed, time, hfields, map_eq_ok.2 ⟨value, hv, rfl⟩⟩

theorem pySplit_head (line : List Char) : ∃ p, (pySplit line).head? = some p ∧ p <+: line := by
  fun_induction pySplit line with
  | case1 => exact ⟨[], rfl, List.nil_prefix⟩
  | case2 s ih => exact ⟨[], rfl, List.nil_prefix⟩
  | case3 c s hcomma hsplit ih =>
    rw [hsplit] at ih
    obtain ⟨p, hp, -⟩ := ih
    cases hp
  | case4 c s hcomma w ws hsplit ih =>
    rw [hsplit] at ih
    obtain ⟨p, hp, hpre⟩ := ih
    cases hp
    exact ⟨c :: w, rfl, List.cons_prefix_cons.2 ⟨rfl, hpre⟩⟩

theorem isPrefix_of_startsWith {w : String} {line : List Char}
    (h : startsWith w (pySplit line) = true) : w.toList <+: line := by
  obtain ⟨p, hp, hpre⟩ := pySplit_head line
  rw [startsWith, hp, Option.getD_some, List.isPrefixOf_iff_prefix] at h
  exact h.trans hpre

theorem effect_ignored {line : List Char} (hs : ¬"source".toList <+: line)
    (ha : ¬"aggregator".toList <+: line) : effect line = .ignored := by
  rw [effect, if_neg fun h => hs (isPrefix_of_startsWith h),
    if_neg fun h => ha (isPrefix_of_startsWith h)]

/-! ## The code does what they say -/

theorem parseSource_eq (parts : List (List Char)) (s : Store) :
    parseSource parts s = ((sourceEffect parts).apply s, (sourceEffect parts).result) := by
  unfold parseSource sourceEffect
  cases sourceFields parts with
  | error e => rfl
  | ok fields =>
    cases timeValue parts with
    | error e => rfl
    | ok time => simp only [Except.map, Effect.apply, Effect.result, record, ListDict.append_touch]

theorem parseAggregator_eq (parts : List (List Char)) (s : Store) :
    parseAggregator parts s =
      ((aggregatorEffect parts).apply s, (aggregatorEffect parts).result) := by
  unfold parseAggregator aggregatorEffect
  cases aggregatorFields parts with
  | error e => rfl
  | ok fields =>
    cases hround : pyRound fields.2.1 with
    | error e => simp only [hround, Except.map, Effect.apply, Effect.result, record]
    | ok value =>
      simp only [hround, Except.map, Effect.apply, Effect.result, record, ListDict.append_touch]

/-- **What a line does does not depend on the dictionaries.** -/
theorem parseLine_eq (line : List Char) (s : Store) :
    parseLine line s = ((effect line).apply s, (effect line).result) := by
  simp only [parseLine, effect]
  split_ifs
  · exact parseSource_eq _ s
  · exact parseAggregator_eq _ s
  · rfl

theorem parseLine_isOk (line : List Char) (s : Store) :
    (parseLine line s).2.isOk = !(effect line).raises := by
  rw [parseLine_eq, Effect.raises, Bool.not_not]

theorem parseData_singleton (line : List Char) (s : Store) :
    parseData [line] s = (effect line).apply s := by
  rw [parseData, tryLoop_singleton, parseLine_eq]

/-! ## The dictionaries grow -/

/-- The dictionaries of `s'` extend those of `s`. -/
def Store.Extends (s s' : Store) : Prop :=
  ListDict.Extends s.data s'.data ∧ ListDict.Extends s.aggregatedData s'.aggregatedData

theorem Store.Extends.refl (s : Store) : s.Extends s :=
  ⟨ListDict.Extends.refl _, ListDict.Extends.refl _⟩

theorem Store.Extends.trans {a b c : Store} (h₁ : a.Extends b) (h₂ : b.Extends c) :
    a.Extends c :=
  ⟨h₁.1.trans h₂.1, h₁.2.trans h₂.2⟩

theorem Store.Extends.antisymm {a b : Store} (h₁ : a.Extends b) (h₂ : b.Extends a) : a = b := by
  cases a
  cases b
  rw [Store.mk.injEq]
  exact ⟨h₁.1.antisymm h₂.1, h₁.2.antisymm h₂.2⟩

theorem extends_record {β : Type} (nodeId : ℤ) (entry : Except PyException β)
    (d : ListDict ℤ β) : ListDict.Extends d (record nodeId entry d) := by
  cases entry with
  | error e => exact ListDict.extends_touch nodeId d
  | ok x => exact ListDict.extends_append nodeId x d

theorem Effect.extends_apply (e : Effect) (s : Store) : s.Extends (e.apply s) := by
  cases e with
  | ignored => exact Store.Extends.refl s
  | raised e => exact Store.Extends.refl s
  | source nodeId entry => exact ⟨extends_record nodeId entry s.data, ListDict.Extends.refl _⟩
  | aggregator nodeId entry =>
    exact ⟨ListDict.Extends.refl _, extends_record nodeId entry s.aggregatedData⟩

/-- Making an entry leaves a dictionary as it is only if it raises and the key is there. -/
theorem record_eq_self_iff {β : Type} (nodeId : ℤ) (entry : Except PyException β)
    (d : ListDict ℤ β) : record nodeId entry d = d ↔ entry.isOk = false ∧ nodeId ∈ d := by
  cases entry with
  | error e => exact ListDict.touch_eq_self_iff.trans (by simp [Except.isOk, Except.toBool])
  | ok x => simp [record, ListDict.append_ne_self, Except.isOk, Except.toBool]

end WsnAggregation.Live
