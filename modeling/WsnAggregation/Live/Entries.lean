import WsnAggregation.Live.Parse

/-!
# Entries in turn

What the dictionaries hold after several lines: under each node id the entries it had, and those
that the lines make, in turn. Two runs over the same lines, one of which makes at most the entries
of the other, so leave the same dictionaries only if every line does the same in both
(`Effect.applyAll_eq_iff`).
-/

namespace WsnAggregation.Live

open Lib

theorem eq_of_filterMap_eq {α β : Type} {f g : α → Option β} {l : List α}
    (h : ∀ a ∈ l, g a = none → f a = none) (heq : l.filterMap f = l.filterMap g) :
    ∀ a ∈ l, f a = g a := by
  induction l with
  | nil => exact fun a ha => absurd ha List.not_mem_nil
  | cons b l ih =>
    have hl : ∀ a ∈ l, g a = none → f a = none := fun a ha => h a (List.mem_cons_of_mem _ ha)
    rw [List.forall_mem_cons]
    cases hg : g b with
    | none =>
      have hf := h b List.mem_cons_self hg
      rw [List.filterMap_cons_none hf, List.filterMap_cons_none hg] at heq
      exact ⟨hf, ih hl heq⟩
    | some y =>
      rw [List.filterMap_cons_some hg] at heq
      cases hf : f b with
      | some x =>
        rw [List.filterMap_cons_some hf, List.cons.injEq] at heq
        exact ⟨congrArg some heq.1, ih hl heq.2⟩
      | none =>
        -- The first map gives no more results than the second.
        have hle : (l.filterMap f).length ≤ (l.filterMap g).length := by
          rw [List.length_filterMap_eq_countP, List.length_filterMap_eq_countP]
          refine List.countP_mono_left fun a ha hsome => ?_
          by_contra hnone
          rw [Bool.not_eq_true, Option.isSome_eq_false_iff, Option.isNone_iff_eq_none] at hnone
          rw [hl a ha hnone] at hsome
          cases hsome
        rw [List.filterMap_cons_none hf] at heq
        rw [heq, List.length_cons] at hle
        omega

/-! ## One dictionary -/

/-- The entry that is made under a key. -/
def entryAt {β : Type} (k nodeId : ℤ) (entry : Except PyException β) : Option β :=
  if k = nodeId then entry.toOption else none

theorem entriesAt_record {β : Type} (k nodeId : ℤ) (entry : Except PyException β)
    (d : ListDict ℤ β) :
    (record nodeId entry d).entriesAt k = d.entriesAt k ++ (entryAt k nodeId entry).toList := by
  cases entry with
  | error e =>
    have hnone : entryAt (β := β) k nodeId (.error e) = none := by simp [entryAt, Except.toOption]
    rw [record, ListDict.entriesAt_touch, hnone, Option.toList_none, List.append_nil]
  | ok x =>
    rw [record, ListDict.entriesAt_append, entryAt]
    split_ifs
    · rfl
    · rfl

theorem entryAt_eq_some_iff {β : Type} {k nodeId : ℤ} {entry : Except PyException β} {x : β} :
    entryAt k nodeId entry = some x ↔ k = nodeId ∧ entry = .ok x := by
  cases entry <;> simp [entryAt, Except.toOption]

/-! ## Effects -/

namespace Effect

/-- The entry that is made in `data` under a node id. -/
def sourceEntry (k : ℤ) : Effect → Option (ℤ × ℚ)
  | .source nodeId entry => entryAt k nodeId entry
  | _ => none

/-- The entry that is made in `aggregated_data` under a node id. -/
def aggregatorEntry (k : ℤ) : Effect → Option (ℤ × ℤ × ℚ)
  | .aggregator nodeId entry => entryAt k nodeId entry
  | _ => none

theorem sourceEntry_eq_some_iff {e : Effect} {k : ℤ} {x : ℤ × ℚ} :
    e.sourceEntry k = some x ↔ e = .source k (.ok x) := by
  cases e with
  | source nodeId entry => simp [sourceEntry, entryAt_eq_some_iff, eq_comm (a := k)]
  | _ => simp [sourceEntry]

theorem aggregatorEntry_eq_some_iff {e : Effect} {k : ℤ} {x : ℤ × ℤ × ℚ} :
    e.aggregatorEntry k = some x ↔ e = .aggregator k (.ok x) := by
  cases e with
  | aggregator nodeId entry => simp [aggregatorEntry, entryAt_eq_some_iff, eq_comm (a := k)]
  | _ => simp [aggregatorEntry]

/-- The dictionaries after several effects. -/
def applyAll (es : List Effect) (s : Store) : Store := es.foldl (fun s e => e.apply s) s

/-- The entries of a dictionary after several effects, if each adds its own. -/
theorem entriesAt_applyAll {β : Type} {k : ℤ} {get : Store → ListDict ℤ β}
    {entry : Effect → Option β}
    (h : ∀ e s, (get (e.apply s)).entriesAt k = (get s).entriesAt k ++ (entry e).toList)
    (es : List Effect) (s : Store) :
    (get (applyAll es s)).entriesAt k = (get s).entriesAt k ++ es.filterMap entry := by
  induction es generalizing s with
  | nil => exact (List.append_nil _).symm
  | cons e es ih =>
    have hcons : applyAll (e :: es) s = applyAll es (e.apply s) := rfl
    rw [hcons, ih, h, List.append_assoc, List.filterMap_cons]
    cases entry e with
    | none => rfl
    | some x => rfl

theorem data_applyAll (es : List Effect) (s : Store) (k : ℤ) :
    (applyAll es s).data.entriesAt k = s.data.entriesAt k ++ es.filterMap (sourceEntry k) := by
  refine entriesAt_applyAll (fun e s => ?_) es s
  cases e with
  | source nodeId entry => exact entriesAt_record k nodeId entry s.data
  | _ => exact (List.append_nil _).symm

theorem aggregatedData_applyAll (es : List Effect) (s : Store) (k : ℤ) :
    (applyAll es s).aggregatedData.entriesAt k =
      s.aggregatedData.entriesAt k ++ es.filterMap (aggregatorEntry k) := by
  refine entriesAt_applyAll (fun e s => ?_) es s
  cases e with
  | aggregator nodeId entry => exact entriesAt_record k nodeId entry s.aggregatedData
  | _ => exact (List.append_nil _).symm

/-- Effects that make at most the entries that others make leave the same dictionaries only if
they are the others. -/
theorem applyAll_eq_iff {α : Type} {f g : α → Effect} {l : List α}
    (hsource : ∀ a ∈ l, ∀ {k entry}, f a = .source k entry → ∃ x, g a = .source k (.ok x))
    (haggregator : ∀ a ∈ l, ∀ {k entry}, f a = .aggregator k entry →
      ∃ x, g a = .aggregator k (.ok x))
    (hg : ∀ a ∈ l, (∃ k x, g a = .source k (.ok x)) ∨ ∃ k x, g a = .aggregator k (.ok x))
    (s : Store) :
    applyAll (l.map f) s = applyAll (l.map g) s ↔ ∀ a ∈ l, f a = g a := by
  constructor
  · intro heq a ha
    rcases hg a ha with ⟨k, x, hx⟩ | ⟨k, x, hx⟩
    · have hentries := congrArg (fun s => s.data.entriesAt k) heq
      simp only [data_applyAll, List.filterMap_map, List.append_cancel_left_eq] at hentries
      have hnone : ∀ b ∈ l, (g b).sourceEntry k = none → (f b).sourceEntry k = none := by
        intro b hb hgb
        rw [Option.eq_none_iff_forall_ne_some] at hgb ⊢
        intro y hy
        obtain ⟨z, hz⟩ := hsource b hb (sourceEntry_eq_some_iff.1 hy)
        exact hgb z (sourceEntry_eq_some_iff.2 hz)
      have hentry : (f a).sourceEntry k = (g a).sourceEntry k :=
        eq_of_filterMap_eq hnone hentries a ha
      rw [hx] at hentry ⊢
      exact sourceEntry_eq_some_iff.1 (hentry.trans (sourceEntry_eq_some_iff.2 rfl))
    · have hentries := congrArg (fun s => s.aggregatedData.entriesAt k) heq
      simp only [aggregatedData_applyAll, List.filterMap_map, List.append_cancel_left_eq]
        at hentries
      have hnone : ∀ b ∈ l, (g b).aggregatorEntry k = none → (f b).aggregatorEntry k = none := by
        intro b hb hgb
        rw [Option.eq_none_iff_forall_ne_some] at hgb ⊢
        intro y hy
        obtain ⟨z, hz⟩ := haggregator b hb (aggregatorEntry_eq_some_iff.1 hy)
        exact hgb z (aggregatorEntry_eq_some_iff.2 hz)
      have hentry : (f a).aggregatorEntry k = (g a).aggregatorEntry k :=
        eq_of_filterMap_eq hnone hentries a ha
      rw [hx] at hentry ⊢
      exact aggregatorEntry_eq_some_iff.1 (hentry.trans (aggregatorEntry_eq_some_iff.2 rfl))
  · intro h
    rw [List.map_congr_left h]

end Effect

end WsnAggregation.Live
