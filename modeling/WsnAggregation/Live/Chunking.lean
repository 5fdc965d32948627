import WsnAggregation.Live.Agreement
import WsnAggregation.Live.Cut
import WsnAggregation.Live.Entries
import WsnAggregation.Live.Receiver

/-!
# Polls that cut lines

`MoteDataReceiver` keeps nothing of a line that is not complete when the file is read. A log of
printed lines that grows while it is polled is so seen line by line, and of each line only what is
there when the file first reaches beyond its start. The rest of a line that was cut is ignored.

* `follow_log` — what polls of a growing log record.
* `follow_of_lineEnds` — polls that find lines with their ends lose nothing.
* `chunking_invariance` — the dictionaries are those of one read of the complete log exactly if of
  each line there was enough.
-/

namespace WsnAggregation.Live

open Lib

/-! ## Pieces from inside a line -/

theorem count_joined {c : Char} (hcomma : c ≠ ',') (hspace : c ≠ ' ') (ps : List (List Char)) :
    (joined ps).count c = (ps.map (List.count c)).sum := by
  induction ps with
  | nil => rfl
  | cons p ps ih =>
    cases ps with
    | nil => simp [joined]
    | cons q ps =>
      rw [joined, List.count_append, List.count_cons_of_ne hcomma.symm,
        List.count_cons_of_ne hspace.symm, ih]
      rfl

theorem count_labelled {c : Char} (hcolon : c ≠ ':') (hspace : c ≠ ' ') (label : String)
    (value : List Char) :
    (labelled label value).count c = label.toList.count c + value.count c := by
  rw [labelled, List.count_append, List.count_cons_of_ne hcolon.symm,
    List.count_cons_of_ne hspace.symm]

section

variable {nodeId sample aMean aSample missedSamples : ℤ}
  {bMean aVariance bVariance bSample msgId time : ℕ} {msgIds : Fin 3 → ℕ} {nodeIds : Fin 3 → ℤ}

theorem not_mem_drop_sourceLine : 'u' ∉
    (joined (sourceParts nodeId sample aMean bMean aVariance bVariance msgId time)).drop 3 := by
  have hsigned : ∀ z, 'u' ∉ signed z := not_mem_signed (by decide) (by decide)
  have hdecimal : ∀ n, 'u' ∉ decimal n := not_mem_decimal (by decide)
  have hpadded : ∀ w n, 'u' ∉ padded w n := not_mem_padded (by decide)
  simp [sourceParts, joined, labelled, pointText, hsigned, hdecimal, hpadded]

theorem count_sourceLine :
    (joined (sourceParts nodeId sample aMean bMean aVariance bVariance msgId time)).count 'g' =
      1 := by
  have hsigned : ∀ z, (signed z).count 'g' = 0 := fun z =>
    List.count_eq_zero_of_not_mem (not_mem_signed (by decide) (by decide) z)
  have hdecimal : ∀ n, (decimal n).count 'g' = 0 := fun n =>
    List.count_eq_zero_of_not_mem (not_mem_decimal (by decide) n)
  have hpoint : ∀ a b, (pointText a b).count 'g' = 0 := fun a b =>
    List.count_eq_zero_of_not_mem (not_mem_pointText (by decide) (by decide) (by decide) a b)
  rw [count_joined (by decide) (by decide), sourceParts]
  simp only [List.map_cons, List.map_nil, count_labelled (show 'g' ≠ ':' by decide)
    (show 'g' ≠ ' ' by decide), List.count_append, hsigned, hdecimal, hpoint]
  rfl

theorem not_mem_aggregatorLine : 'u' ∉
    joined (aggregatorParts nodeId aSample bSample missedSamples msgIds nodeIds time) := by
  have hsigned : ∀ z, 'u' ∉ signed z := not_mem_signed (by decide) (by decide)
  have hdecimal : ∀ n, 'u' ∉ decimal n := not_mem_decimal (by decide)
  have hpadded : ∀ w n, 'u' ∉ padded w n := not_mem_padded (by decide)
  simp [aggregatorParts, joined, labelled, pointText, hsigned, hdecimal, hpadded]

theorem not_mem_drop_aggregatorLine : 'r' ∉
    (joined (aggregatorParts nodeId aSample bSample missedSamples msgIds nodeIds time)).drop
      10 := by
  have hsigned : ∀ z, 'r' ∉ signed z := not_mem_signed (by decide) (by decide)
  have hdecimal : ∀ n, 'r' ∉ decimal n := not_mem_decimal (by decide)
  have hpadded : ∀ w n, 'r' ∉ padded w n := not_mem_padded (by decide)
  simp [aggregatorParts, joined, labelled, pointText, hsigned, hdecimal, hpadded]

end

theorem mem_drop_of_isInfix {w t : List Char} {k : ℕ} {c : Char} (h : w <:+: t.drop 1)
    (hc : w[k]? = some c) : c ∈ t.drop (k + 1) := by
  obtain ⟨u, v, huv⟩ := h
  have hdrop : t.drop (k + 1) = (u ++ w ++ v).drop k := by
    rw [huv, List.drop_drop, Nat.add_comm]
  have hk : k < w.length := (List.getElem?_eq_some_iff.1 hc).1
  rw [hdrop, List.mem_iff_getElem?]
  refine ⟨u.length, ?_⟩
  rw [List.getElem?_drop, List.append_assoc, Nat.add_comm, List.getElem?_append_right (by omega),
    Nat.add_sub_cancel_left, List.getElem?_append_left hk, hc]

namespace LogLine

variable {T : Target}

/-- Neither of the first words occurs inside a line. -/
theorem not_infix_drop (l : LogLine) : ¬"source".toList <:+: (l.body T).drop 1 ∧
    ¬"aggregator".toList <:+: (l.body T).drop 1 := by
  cases l with
  | source m time =>
    constructor
    · intro h
      have hmem : 'u' ∈ (body T (source m time)).drop 3 := mem_drop_of_isInfix h (by decide)
      rw [body, parts] at hmem
      exact not_mem_drop_sourceLine hmem
    · intro h
      have hcount := (h.sublist.trans (List.drop_sublist 1 _)).count_le 'g'
      rw [body, parts, count_sourceLine] at hcount
      exact absurd hcount (by decide)
  | aggregator a time =>
    constructor
    · intro h
      have hmem : 'u' ∈ (body T (aggregator a time)).drop 3 := mem_drop_of_isInfix h (by decide)
      rw [body, parts] at hmem
      exact not_mem_aggregatorLine (List.mem_of_mem_drop hmem)
    · intro h
      have hmem : 'r' ∈ (body T (aggregator a time)).drop 10 := mem_drop_of_isInfix h (by decide)
      rw [body, parts] at hmem
      exact not_mem_drop_aggregatorLine hmem

/-- **A piece from inside a line is ignored.** -/
theorem effect_inside (l : LogLine) {w : List Char} (hw : w <:+: (l.body T).drop 1) :
    effect w = .ignored := by
  obtain ⟨hs, ha⟩ := l.not_infix_drop (T := T)
  exact effect_ignored (fun h => hs (h.isInfix.trans hw)) fun h => ha (h.isInfix.trans hw)

theorem newline_body (l : LogLine) : '\n' ∉ l.body T := by
  have hline : IsLine (l.body T ++ ['\n']) := by
    cases l with
    | source m time =>
      rw [body, parts, ← sourceText_eq]
      exact isLine_sourceText _ _ _ _ _ _ _ _
    | aggregator a time =>
      rw [body, parts, ← aggregatorText_eq]
      exact isLine_aggregatorText _ _ _ _ _ _ _
  obtain ⟨s, hs, hn, -⟩ := hline
  rwa [List.append_cancel_right hs]

/-! ## The pieces of a line -/

theorem strip_isInfix {t : List Char} : strip t <:+: t :=
  (List.rdropWhile_prefix _ _).isInfix.trans (List.dropWhile_suffix _).isInfix

theorem text_ne_nil (l : LogLine) : l.text T ≠ [] := by
  rw [text_eq]
  exact List.concat_ne_nil _ _

/-- What the pieces of a line record: the first one whatever it shows, the others nothing. -/
theorem piecewise (hint : T.intBits ≤ T.longBits) {l : LogLine} (h : l.Typed T) :
    Piecewise (text T) parseText (fun _ piece s => (effect (strip piece)).apply s) Starts l := by
  have hbegins := l.begins_body (T := T)
  have htext : ∀ t, l.text T ++ t = l.body T ++ '\n' :: t := by
    intro t
    rw [text_eq, List.append_assoc, List.singleton_append]
  have hlength : (l.text T).length = (l.body T).length + 1 := by
    rw [text_eq, List.length_append, List.length_singleton]
  have htake : ∀ size, size < (l.text T).length → (l.text T).take size = (l.body T).take size := by
    intro size hsize
    rw [text_eq, List.take_append_of_le_length (by omega)]
  have hdrop : ∀ pos, 0 < pos → (l.body T).drop pos <:+: (l.body T).drop 1 := by
    intro pos hpos
    rw [show pos = 1 + (pos - 1) by omega, ← List.drop_drop]
    exact (List.drop_suffix _ _).isInfix
  refine { start := ?_, whole := ?_, first := ?_, middle := ?_, last := ?_ }
  · intro size t
    by_cases hsize : size = 0
    · rw [hsize]
      intro c hc
      cases hc
    · rw [htext]
      exact ((hbegins.append _).take (Nat.pos_of_ne_zero hsize)).starts
  · intro t s ht
    have hrecorded := effect_body hint h
    have hleft : (l.body T).dropWhile isSpace = l.body T := dropWhile_of_head hbegins.starts
    have hraises : (l.recorded T).raises = false := by
      cases l with
      | source m time => rfl
      | aggregator a time => rfl
    rw [htext, l.strip_text, hrecorded]
    apply parseText_line l.newline_body ht _ _ hraises
    · rw [l.strip_body T, hrecorded]
    · rw [hleft, hrecorded]
  · intro size s _ hsize
    rw [htake size hsize]
    exact parseText_piece (fun hc => l.newline_body (List.mem_of_mem_take hc)) s
  · intro pos size s hpos hsize
    have hinside : strip (((l.body T).take size).drop pos) <:+: (l.body T).drop 1 := by
      rw [List.drop_take]
      exact (strip_isInfix.trans (List.take_prefix _ _).isInfix).trans (hdrop pos hpos)
    rw [htake size hsize, parseText_piece, l.effect_inside hinside]
    · rfl
    · intro hc
      exact l.newline_body (List.mem_of_mem_take (List.mem_of_mem_drop hc))
  · intro pos t s hpos hlt ht
    have hpiece : (l.text T).drop pos ++ t = (l.body T).drop pos ++ '\n' :: t := by
      rw [text_eq, List.drop_append_of_le_length (by omega), List.append_assoc,
        List.singleton_append]
    have hinside := hdrop pos hpos
    rw [hpiece, parseText_line (fun hc => l.newline_body (List.mem_of_mem_drop hc)) ht
      (l.effect_inside (strip_isInfix.trans hinside))
      (l.effect_inside ((List.dropWhile_suffix _).isInfix.trans hinside)) rfl]
    rfl

end LogLine

/-! ## Growing logs -/

section

variable {T : Target} (hint : T.intBits ≤ T.longBits) {lines : List LogLine}
  (htyped : ∀ l ∈ lines, l.Typed T)
include hint htyped

/-- **What polls of a growing log record**: of each line, what its first piece shows. -/
theorem follow_log {sizes : List ℕ} (hsorted : sizes.Pairwise (· ≤ ·))
    (hsize : ∀ size ∈ sizes, size ≤ (fileOf (LogLine.text T) lines).length) (s : Store) :
    follow (fileOf (LogLine.text T) lines) sizes s =
      Effect.applyAll ((seen (LogLine.text T) 0 sizes lines).map fun p => effect (strip p.2)) s := by
  have hpieces := fun l hl => LogLine.piecewise hint (htyped l hl)
  have hstart : Starts [] := fun c hc => (nomatch hc)
  rw [follow_eq_polled hsorted hsize, polled_eq hpieces parseText_nil hstart
    (List.pairwise_cons.2 ⟨fun n _ => Nat.zero_le n, hsorted⟩), Effect.applyAll, List.foldl_map]

theorem follow_whole (s : Store) :
    follow (fileOf (LogLine.text T) lines) [(fileOf (LogLine.text T) lines).length] s =
      Effect.applyAll (lines.map (LogLine.recorded T)) s := by
  rw [follow_log hint htyped (List.pairwise_singleton _ _) (by simp),
    seen_whole (fun l _ => l.text_ne_nil) le_rfl, List.map_map]
  congr 1
  refine List.map_congr_left fun l hl => ?_
  rw [Function.comp_apply, l.strip_text, LogLine.effect_body hint (htyped l hl)]

omit hint in
theorem eq_take_of_mem_seen {sizes : List ℕ} {p : LogLine × List Char}
    (hp : p ∈ seen (LogLine.text T) 0 sizes lines) :
    p.1.Typed T ∧ ∃ size, 0 < size ∧ p.2 = (p.1.text T).take size := by
  obtain ⟨before, after, hl, size, hfind, hpiece⟩ := mem_seen_iff.1 hp
  have hin : p.1 ∈ lines := by
    rw [hl]
    exact List.mem_append_right _ List.mem_cons_self
  exact ⟨htyped p.1 hin, _, Nat.sub_pos_of_lt (lt_of_find? hfind), hpiece⟩

/-- The dictionaries are those of the complete log exactly if what is seen of each line records
what the line does. -/
theorem follow_eq_iff {sizes : List ℕ} (hsorted : sizes.Pairwise (· ≤ ·))
    (hlast : sizes.getLast? = some (fileOf (LogLine.text T) lines).length) (s : Store) :
    follow (fileOf (LogLine.text T) lines) sizes s =
        follow (fileOf (LogLine.text T) lines) [(fileOf (LogLine.text T) lines).length] s ↔
      ∀ p ∈ seen (LogLine.text T) 0 sizes lines, effect (strip p.2) = p.1.recorded T := by
  have hsize : ∀ size ∈ sizes, size ≤ (fileOf (LogLine.text T) lines).length := by
    obtain ⟨init, rfl⟩ := List.getLast?_eq_some_iff.1 hlast
    intro size hin
    rcases List.mem_append.1 hin with hin | hin
    · exact (List.pairwise_append.1 hsorted).2.2 size hin _ List.mem_cons_self
    · exact (List.mem_singleton.1 hin).le
  have hfst : (seen (LogLine.text T) 0 sizes lines).map Prod.fst = lines :=
    map_fst_seen (fun l _ => l.text_ne_nil) ⟨_, List.mem_of_getLast? hlast, le_rfl⟩
  have hwhole : lines.map (LogLine.recorded T) =
      (seen (LogLine.text T) 0 sizes lines).map fun p => p.1.recorded T := by
    conv_lhs => rw [← hfst, List.map_map]
    rfl
  rw [follow_log hint htyped hsorted hsize, follow_whole hint htyped, hwhole]
  apply Effect.applyAll_eq_iff
  · intro p hp k entry heff
    obtain ⟨-, size, hpos, hpiece⟩ := eq_take_of_mem_seen htyped hp
    rw [hpiece] at heff
    exact LogLine.effect_take_source hint hpos heff
  · intro p hp k entry heff
    obtain ⟨-, size, hpos, hpiece⟩ := eq_take_of_mem_seen htyped hp
    rw [hpiece] at heff
    exact LogLine.effect_take_aggregator hint hpos heff
  · intro p _
    cases p.1 with
    | source m time => exact Or.inl ⟨_, _, rfl⟩
    | aggregator a time => exact Or.inr ⟨_, _, rfl⟩

/-- Polls that never find a line without its end leave the dictionaries of the complete log. -/
theorem follow_of_lineEnds {sizes : List ℕ} (hsorted : sizes.Pairwise (· ≤ ·))
    (hlast : sizes.getLast? = some (fileOf (LogLine.text T) lines).length)
    (hends : ∀ before l after, lines = before ++ l :: after → ∀ size ∈ sizes,
      (fileOf (LogLine.text T) before).length < size →
        (fileOf (LogLine.text T) before).length + (l.body T).length ≤ size) (s : Store) :
    follow (fileOf (LogLine.text T) lines) sizes s =
      follow (fileOf (LogLine.text T) lines) [(fileOf (LogLine.text T) lines).length] s := by
  apply (follow_eq_iff hint htyped hsorted hlast s).2
  intro p hp
  obtain ⟨htyped', -⟩ := eq_take_of_mem_seen htyped hp
  obtain ⟨before, after, hl, size, hfind, hpiece⟩ := mem_seen_iff.1 hp
  have hbeyond := lt_of_find? hfind
  have hle := hends before p.1 after hl size (List.mem_of_find?_eq_some hfind) hbeyond
  rw [hpiece, LogLine.effect_take_iff hint htyped' (Nat.sub_pos_of_lt hbeyond)]
  exact LogLine.enough_of_le hint htyped' (by omega)

end

/-- **When a growing log is read like a complete one.** For every way a log of printed lines can
grow while it is polled, the dictionaries are those that one read of the complete log gives
exactly if the file always shows enough of a line when it first reaches beyond its start. -/
theorem chunking_invariance (T : Target) (hint : T.intBits ≤ T.longBits) {lines : List LogLine}
    (htyped : ∀ l ∈ lines, l.Typed T) {sizes : List ℕ} (hsorted : sizes.Pairwise (· ≤ ·))
    (hlast : sizes.getLast? = some (fileOf (LogLine.text T) lines).length) (s : Store) :
    follow (fileOf (LogLine.text T) lines) sizes s =
        follow (fileOf (LogLine.text T) lines) [(fileOf (LogLine.text T) lines).length] s ↔
      ∀ before l after, lines = before ++ l :: after →
        ∀ size, sizes.find? ((fileOf (LogLine.text T) before).length < ·) = some size →
          l.Enough T ((l.text T).take (size - (fileOf (LogLine.text T) before).length)) := by
  rw [follow_eq_iff hint htyped hsorted hlast]
  constructor
  · intro h before l after hl size hfind
    have hin : (l, (l.text T).take (size - (fileOf (LogLine.text T) before).length)) ∈
        seen (LogLine.text T) 0 sizes lines :=
      mem_seen_iff.2 ⟨before, after, hl, size, hfind, rfl⟩
    have hl' := (eq_take_of_mem_seen htyped hin).1
    have heff := h _ hin
    exact (LogLine.effect_take_iff hint hl' (Nat.sub_pos_of_lt (lt_of_find? hfind))).1 heff
  · intro h p hp
    obtain ⟨before, after, hl, size, hfind, hpiece⟩ := mem_seen_iff.1 hp
    have hl' := (eq_take_of_mem_seen htyped hp).1
    rw [hpiece]
    exact (LogLine.effect_take_iff hint hl' (Nat.sub_pos_of_lt (lt_of_find? hfind))).2
      (h before p.1 after hl size hfind)

/-- A log of two lines, polled just before the first line feed and when it is complete. -/
theorem chunking_invariance_lineFeed :
    follow (fileOf (LogLine.text .sky) [firstLine 0, firstLine 1000000]) [84, 176] .empty =
      follow (fileOf (LogLine.text .sky) [firstLine 0, firstLine 1000000]) [176] .empty := by
  have hlen : (fileOf (LogLine.text .sky) [firstLine 0, firstLine 1000000]).length = 176 := by
    decide +kernel
  have hfirst : (fileOf (LogLine.text .sky) [firstLine 0]).length = 85 := by decide +kernel
  have htyped : ∀ l ∈ [firstLine 0, firstLine 1000000], l.Typed .sky := by
    simp only [List.forall_mem_cons]
    exact ⟨typed_firstLine (by decide), typed_firstLine (by decide),
      fun l hl => absurd hl List.not_mem_nil⟩
  have hlast : [84, 176].getLast? =
      some (fileOf (LogLine.text .sky) [firstLine 0, firstLine 1000000]).length := by
    rw [hlen]
    rfl
  have hiff := chunking_invariance .sky (by decide) htyped (by decide) hlast .empty
  rw [hlen] at hiff
  refine hiff.2 fun before l after hl size hfind => ?_
  rcases before with _ | ⟨b, before⟩
  · obtain ⟨rfl, -⟩ := List.cons.inj hl
    obtain rfl : 84 = size := Option.some.inj hfind
    exact LogLine.enough_of_le (by decide) (typed_firstLine (by decide)) (by decide +kernel)
  · obtain ⟨rfl, htail⟩ := List.cons.inj hl
    rcases before with _ | ⟨b, before⟩
    · obtain ⟨rfl, -⟩ := List.cons.inj htail
      rw [hfirst] at hfind ⊢
      obtain rfl : 176 = size := Option.some.inj hfind
      exact LogLine.enough_of_le (by decide) (typed_firstLine (by decide)) (by decide +kernel)
    · simp at htail

/-- One line that is cut before the mark at its end: its time is read without two digits. -/
theorem chunking_invariance_fails : ¬ ∀ (T : Target), T.intBits ≤ T.longBits →
    ∀ lines : List LogLine, (∀ l ∈ lines, l.Typed T) → ∀ sizes : List ℕ,
      sizes.Pairwise (· < ·) →
      sizes.getLast? = some (fileOf (LogLine.text T) lines).length →
      follow (fileOf (LogLine.text T) lines) sizes .empty =
        follow (fileOf (LogLine.text T) lines) [(fileOf (LogLine.text T) lines).length]
          .empty := by
  intro h
  have htyped : ∀ l ∈ [firstLine 1000000], l.Typed .sky := by
    simp only [List.forall_mem_cons]
    exact ⟨typed_firstLine (by decide), fun l hl => absurd hl List.not_mem_nil⟩
  have hlast : [88, 91].getLast? =
      some (fileOf (LogLine.text .sky) [firstLine 1000000]).length := by decide +kernel
  have heq := h .sky (by decide) [firstLine 1000000] htyped [88, 91] (by decide) hlast
  rw [follow_eq_iff (by decide) htyped (by decide) hlast] at heq
  have hrecorded := heq (firstLine 1000000, ((firstLine 1000000).text .sky).take 88)
    (mem_seen_iff.2 ⟨[], [], rfl, 88, rfl, rfl⟩)
  exact absurd hrecorded (by decide +kernel)

end WsnAggregation.Live
