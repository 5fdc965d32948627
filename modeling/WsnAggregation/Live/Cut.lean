import WsnAggregation.Live.Lines

/-!
# Lines cut short

What `parse_data` makes of the beginning of a printed line. It shows the first parts of the line
whole and the last one cut, and the time is read off that one, whichever it is. Whatever number is
read there, it is spelled there.

* `pySplit_cut` — the parts of a line that is cut short.
* `LogLine.effect_take_iff` — when such a line still records what the whole line does.
* `LogLine.effect_take_source`, `LogLine.effect_take_aggregator` — whatever it records, it is
  under the node id of the line.
-/

namespace WsnAggregation.Live

open Lib

/-! ## Parts of a line cut short -/

/-- The parts with the comma that follows each of them. -/
def withCommas : List (List Char) → List (List Char)
  | [] => []
  | [p] => [p]
  | p :: q :: ps => (p ++ [',']) :: withCommas (q :: ps)

theorem isPrefix_append_cases {x a b : List Char} (h : x <+: a ++ b) :
    x <+: a ∨ ∃ y, x = a ++ y ∧ y <+: b := by
  rcases List.prefix_or_prefix_of_prefix h (List.prefix_append a b) with hx | ⟨y, rfl⟩
  · exact Or.inl hx
  · exact Or.inr ⟨y, rfl, (List.prefix_append_right_inj a).1 h⟩

theorem pySplit_of_isPrefix {p x : List Char} (hp : ',' ∉ p) (hx : x <+: p ++ [',']) :
    pySplit x = [x] := by
  have hcomma : ∀ c ∈ p, c ≠ ',' := by
    rintro c hc rfl
    exact hp hc
  rcases List.prefix_concat_iff.1 hx with rfl | hx
  · clear hp hx
    induction p with
    | nil => rfl
    | cons c p ih =>
      rw [List.cons_append, pySplit_cons (hcomma c List.mem_cons_self),
        ih fun d hd => hcomma d (List.mem_cons_of_mem _ hd)]
  · exact pySplit_of_no_comma fun c hc => hcomma c (hx.subset hc)

theorem begins_joined {p : List Char} (hp : Begins p) (ps : List (List Char)) :
    Begins (joined (p :: ps)) := by
  obtain ⟨t, ht⟩ := joined_cons_eq p ps
  rw [ht]
  exact hp.append t

/-- **The parts of a line cut short**: some whole ones and a cut one. -/
theorem pySplit_cut {ps : List (List Char)} (hne : ps ≠ []) (hcomma : ∀ p ∈ ps, ',' ∉ p)
    (hbegins : ∀ p ∈ ps, Begins p) {size : ℕ} (hsize : 0 < size) :
    ∃ i x f, (withCommas ps)[i]? = some f ∧ x <+: f ∧
      pySplit (((joined ps).take size).rdropWhile isSpace) = ps.take i ++ [x] := by
  induction ps generalizing size with
  | nil => exact absurd rfl hne
  | cons p ps ih =>
    have hp := hcomma p List.mem_cons_self
    -- The line is cut before its second part.
    have hshort : ∀ x f, (withCommas (p :: ps))[0]? = some f → x <+: f → x <+: p ++ [','] →
        ∃ i y f, (withCommas (p :: ps))[i]? = some f ∧ y <+: f ∧
          pySplit x = (p :: ps).take i ++ [y] := by
      intro x f hf hx hcut
      exact ⟨0, x, f, hf, hx, pySplit_of_isPrefix hp hcut⟩
    cases ps with
    | nil =>
      have hx : ((joined [p]).take size).rdropWhile isSpace <+: p :=
        (List.rdropWhile_prefix _ _).trans (List.take_prefix size p)
      exact hshort _ p rfl hx (hx.trans (List.prefix_append p [',']))
    | cons q ps =>
      have hjoin : joined (p :: q :: ps) = p ++ [',', ' '] ++ joined (q :: ps) := by
        simp [joined]
      rcases Nat.lt_or_ge (p.length + 2) size with hlong | hle
      · -- It is cut in a later part.
        obtain ⟨i, x, f, hf, hx, hsplit⟩ := ih (List.cons_ne_nil q ps)
          (fun r hr => hcomma r (List.mem_cons_of_mem _ hr))
          (fun r hr => hbegins r (List.mem_cons_of_mem _ hr)) (Nat.sub_pos_of_lt hlong)
        have htake : (joined (p :: q :: ps)).take size =
            p ++ [',', ' '] ++ (joined (q :: ps)).take (size - (p.length + 2)) := by
          rw [hjoin, List.take_append, List.take_of_length_le (by simp; omega), List.length_append]
          rfl
        have hrest := ((begins_joined (hbegins q (by simp)) ps).take
          (Nat.sub_pos_of_lt hlong)).rdropWhile_ne_nil
        refine ⟨i + 1, x, f, hf, hx, ?_⟩
        rw [htake, rdropWhile_append_of_ne_nil hrest, List.append_assoc, List.cons_append,
          List.cons_append, List.nil_append, pySplit_append (by rintro c hc rfl; exact hp hc),
          hsplit]
        rfl
      · have hx : ((joined (p :: q :: ps)).take size).rdropWhile isSpace <+: p ++ [','] := by
          have htake : (joined (p :: q :: ps)).take size <+: p ++ [','] ++ [' '] := by
            rw [hjoin, List.take_append_of_le_length (by simpa using hle), List.append_assoc]
            exact List.take_prefix _ _
          rcases List.prefix_concat_iff.1 htake with heq | hcut
          · rw [heq, List.rdropWhile_concat_pos _ _ _ (by decide)]
            exact List.rdropWhile_prefix _ _
          · exact (List.rdropWhile_prefix _ _).trans hcut
        exact hshort _ _ rfl hx hx

/-! ## The time read off a cut part -/

/-- After its first colon the part has a space, the numeral of the time and two more
characters. -/
def SpellsTime (time : ℕ) (part : List Char) : Prop :=
  ∃ a b, (part.splitOn ':')[1]? = some (' ' :: (decimal time ++ [a, b]))

/-- Wherever the text is cut, a number that is read as the time is spelled there. -/
def Faithful (f : List Char) : Prop :=
  ∀ x y v, x <+: f → (x.splitOn ':')[1]? = some y → parseInt (slice y) = .ok v →
    ∃ a b, y = ' ' :: (signed v ++ [a, b])

theorem Faithful.of_no_colon {f : List Char} (h : ':' ∉ f) : Faithful f := by
  intro x y v hx hy
  rw [List.splitOn_eq_singleton fun hc => h (hx.subset hc)] at hy
  cases hy

/-- The field of a labelled part that is cut. -/
theorem splitOn_of_isPrefix {label value x y : List Char} (hl : ':' ∉ label) (hv : ':' ∉ value)
    (hx : x <+: label ++ ':' :: value) (hy : (x.splitOn ':')[1]? = some y) :
    x = label ++ ':' :: y ∧ y <+: value := by
  rcases isPrefix_append_cases hx with hx | ⟨t, rfl, ht⟩
  · rw [List.splitOn_eq_singleton fun hc => hl (hx.subset hc)] at hy
    cases hy
  · rcases List.prefix_cons_iff.1 ht with rfl | ⟨u, rfl, hu⟩
    · rw [List.append_nil, List.splitOn_eq_singleton hl] at hy
      cases hy
    · rw [List.splitOn_append_cons_self_of_not_mem hl,
        List.splitOn_eq_singleton fun hc => hv (hu.subset hc)] at hy
      cases hy
      exact ⟨rfl, hu⟩

theorem parseInt_nil (v : ℤ) : parseInt [] ≠ .ok v := by
  intro h
  cases h

theorem Faithful.labelled {label : String} {value : List Char} (hl : ':' ∉ label.toList)
    (hv : ':' ∉ value)
    (h : ∀ g a b v, g ++ [a, b] <+: value → parseInt g = .ok v → g = signed v) :
    Faithful (labelled label value) := by
  intro x y v hx hy hread
  have hcolon : ':' ∉ ' ' :: value := by simpa using hv
  obtain ⟨-, hpre⟩ := splitOn_of_isPrefix hl hcolon hx hy
  rcases List.prefix_cons_iff.1 hpre with rfl | ⟨t, rfl, ht⟩
  · exact absurd hread (parseInt_nil v)
  · rcases Nat.lt_or_ge t.length 2 with hshort | hlong
    · have hnil : slice (' ' :: t) = [] := by
        rw [slice, List.drop_eq_nil_iff, List.length_take, List.length_cons]
        omega
      rw [hnil] at hread
      exact absurd hread (parseInt_nil v)
    · -- The last two characters are left out.
      have hend : ∃ a b, t.drop (t.length - 2) = [a, b] :=
        List.length_eq_two.1 (by rw [List.length_drop]; omega)
      obtain ⟨a, b, hab⟩ := hend
      have ht' : t = t.take (t.length - 2) ++ [a, b] := by rw [← hab, List.take_append_drop]
      generalize t.take (t.length - 2) = g at ht'
      subst ht'
      rw [slice_cons_append] at hread
      exact ⟨a, b, by rw [h g a b v ht hread]⟩

/-! ## Beginnings of numbers -/

theorem eq_signed_of_short {z v : ℤ} {tail g : List Char} {a b : Char} (htail : tail.length ≤ 2)
    (hg : g ++ [a, b] <+: signed z ++ tail) (h : parseInt g = .ok v) : g = signed v := by
  have hlen := hg.length_le
  simp only [List.length_append, List.length_cons, List.length_nil] at hlen
  have hpre : g <+: signed z :=
    List.prefix_of_prefix_length_le ((List.prefix_append g [a, b]).trans hg)
      (List.prefix_append _ tail) (by omega)
  exact eq_signed_of_isPrefix hpre h

theorem eq_signed_of_stop {z v : ℤ} {c : Char} {rest g : List Char}
    (hc : isNumberChar c = false) (hg : g <+: signed z ++ c :: rest) (h : parseInt g = .ok v) :
    g = signed v := by
  rcases isPrefix_append_cases hg with hg | ⟨y, rfl, hy⟩
  · exact eq_signed_of_isPrefix hg h
  · rcases List.prefix_cons_iff.1 hy with rfl | ⟨t, rfl, -⟩
    · rw [List.append_nil] at h ⊢
      exact eq_signed_of_isPrefix (List.prefix_refl _) h
    · exact absurd h (parseInt_ne_ok (by simp) hc v)

theorem parseInt_stop {v : ℤ} {c : Char} {rest g : List Char} (hc : isNumberChar c = false)
    (hg : g <+: c :: rest) : parseInt g ≠ .ok v := by
  rcases List.prefix_cons_iff.1 hg with rfl | ⟨t, rfl, -⟩
  · exact parseInt_nil v
  · exact parseInt_ne_ok List.mem_cons_self hc v

/-! ## The parts of the lines -/

theorem labelled_append (label : String) (value t : List Char) :
    labelled label value ++ t = labelled label (value ++ t) := by
  simp [labelled]

/-- A labelled numeral before two other characters at most. -/
theorem faithful_numeral {label : String} {z : ℤ} {tail : List Char} (hl : ':' ∉ label.toList)
    (hcolon : ':' ∉ tail) (htail : tail.length ≤ 2) :
    Faithful (labelled label (signed z ++ tail)) := by
  refine .labelled hl ?_ fun g a b v hg h => eq_signed_of_short htail hg h
  rw [List.mem_append, not_or]
  exact ⟨not_mem_signed (by decide) (by decide) z, hcolon⟩

theorem faithful_point {label : String} (hl : ':' ∉ label.toList) (a : ℤ) (b : ℕ) :
    Faithful (labelled label (pointText a b ++ [','])) := by
  refine .labelled hl ?_ fun g c d v hg h => ?_
  · rw [List.mem_append, not_or]
    exact ⟨not_mem_pointText (by decide) (by decide) (by decide) a b, by decide⟩
  · rw [pointText, List.append_assoc] at hg
    exact eq_signed_of_stop (by decide) ((List.prefix_append g [c, d]).trans hg) h

theorem faithful_bracket {label : String} {value : List Char} (hl : ':' ∉ label.toList)
    (hv : ':' ∉ value) : Faithful (labelled label ('[' :: value)) :=
  .labelled hl (by simpa using hv) fun g a b _ hg h =>
    absurd h (parseInt_stop (by decide) ((List.prefix_append g [a, b]).trans hg))

theorem begins_signed (z : ℤ) : Begins (signed z) := by
  rcases lt_or_ge z 0 with hz | hz
  · rw [signed_of_neg hz]
    exact ⟨'-', _, rfl, by decide⟩
  · rw [signed_of_nonneg hz]
    obtain ⟨c, t, hc⟩ := List.exists_cons_of_ne_nil (decimal_ne_nil z.natAbs)
    exact ⟨c, t, hc, isSpace_of_isDigit (isDigit_of_mem_decimal (hc ▸ List.mem_cons_self))⟩

section

variable {nodeId sample aMean aSample missedSamples : ℤ}
  {bMean aVariance bVariance bSample msgId time : ℕ} {msgIds : Fin 3 → ℕ} {nodeIds : Fin 3 → ℤ}

theorem faithful_sourceParts :
    ∀ f ∈ withCommas (sourceParts nodeId sample aMean bMean aVariance bVariance msgId time),
      Faithful f := by
  simp only [sourceParts, withCommas, List.forall_mem_cons, labelled_append, List.append_assoc,
    ← signed_natCast]
  refine ⟨.of_no_colon (by decide), faithful_numeral ?_ ?_ ?_, faithful_numeral ?_ ?_ ?_,
    faithful_point ?_ _ _, faithful_point ?_ _ _, faithful_numeral ?_ ?_ ?_,
    faithful_numeral ?_ ?_ ?_, fun f hf => absurd hf List.not_mem_nil⟩
  all_goals decide

theorem faithful_aggregatorParts :
    ∀ f ∈ withCommas (aggregatorParts nodeId aSample bSample missedSamples msgIds nodeIds time),
      Faithful f := by
  have hsigned : ∀ z, ':' ∉ signed z := not_mem_signed (by decide) (by decide)
  have hdecimal : ∀ n, ':' ∉ decimal n := not_mem_decimal (by decide)
  simp only [aggregatorParts, withCommas, List.forall_mem_cons, labelled_append, List.append_assoc,
    List.cons_append, ← signed_natCast]
  refine ⟨.of_no_colon (by decide), faithful_numeral ?_ ?_ ?_, faithful_point ?_ _ _,
    faithful_numeral ?_ ?_ ?_, faithful_bracket ?_ ?_, .of_no_colon ?_, .of_no_colon ?_,
    faithful_bracket ?_ ?_, .of_no_colon ?_, .of_no_colon ?_, faithful_numeral ?_ ?_ ?_,
    fun f hf => absurd hf List.not_mem_nil⟩
  all_goals first | decide | simp [hsigned, hdecimal]

theorem begins_sourceParts :
    ∀ p ∈ sourceParts nodeId sample aMean bMean aVariance bVariance msgId time, Begins p := by
  simp only [sourceParts, List.forall_mem_cons]
  refine ⟨⟨'s', _, rfl, by decide⟩, ?_, ?_, ?_, ?_, ?_, ?_, fun p hp => absurd hp List.not_mem_nil⟩
  all_goals exact ⟨_, _, rfl, by decide⟩

theorem begins_aggregatorParts :
    ∀ p ∈ aggregatorParts nodeId aSample bSample missedSamples msgIds nodeIds time, Begins p := by
  have hdecimal : ∀ n, Begins (decimal n) := by
    intro n
    rw [← signed_natCast]
    exact begins_signed n
  simp only [aggregatorParts, List.forall_mem_cons]
  refine ⟨⟨'a', _, rfl, by decide⟩, ?_, ?_, ?_, ?_, hdecimal _, (hdecimal _).append _, ?_,
    begins_signed _, (begins_signed _).append _, ?_, fun p hp => absurd hp List.not_mem_nil⟩
  all_goals exact ⟨_, _, rfl, by decide⟩

end

/-! ## What a line cut short records -/

theorem timeOf_eq_iff {f x : List Char} (hf : Faithful f) (hx : x <+: f) {time : ℕ}
    (ht : time < 2 ^ 64) : timeOf (some x) = .ok ((time : ℚ) / 1000) ↔ SpellsTime time x := by
  constructor
  · intro h
    rw [timeOf, bind_eq_ok] at h
    obtain ⟨y, hy, h⟩ := h
    rw [bind_eq_ok] at h
    obtain ⟨v, hv, h⟩ := h
    have hfield := secondField_eq_ok_iff.1 hy
    have htime : v = time := by
      unfold divThousand at h
      split_ifs at h
      have heq := Except.ok.inj h
      have hcast : (v : ℚ) = time := by linarith
      exact_mod_cast hcast
    obtain ⟨a, b, hab⟩ := hf x y v hx hfield hv
    refine ⟨a, b, ?_⟩
    rw [hfield, hab, htime, signed_natCast]
  · rintro ⟨a, b, hab⟩
    simp only [timeOf, secondField, Option.bind_some, hab, bind, Except.bind, slice_cons_append,
      parseInt_decimal (lt_ten_pow_maxStrDigits ht), divThousand_of_lt ht]

theorem getElem?_withCommas {ps : List (List Char)} {i : ℕ} {f : List Char}
    (h : (withCommas ps)[i]? = some f) : ∃ p, ps[i]? = some p ∧ f <+: p ++ [','] := by
  induction ps generalizing i with
  | nil => cases h
  | cons p ps ih =>
    cases ps with
    | nil =>
      cases i with
      | zero =>
        cases h
        exact ⟨f, rfl, List.prefix_append f [',']⟩
      | succ i => cases h
    | cons q ps =>
      cases i with
      | zero =>
        cases h
        exact ⟨p, rfl, List.prefix_refl _⟩
      | succ i => exact ih h

/-- A labelled number that is read back from a cut part is there whole. -/
theorem eq_of_secondField {label : String} {z : ℤ} {x y : List Char} (hl : ':' ∉ label.toList)
    (hx : x <+: labelled label (signed z) ++ [',']) (hy : secondField (some x) = .ok y)
    (hread : parseInt y = .ok z) : x = labelled label (signed z) := by
  have hcolon : ':' ∉ ' ' :: (signed z ++ [',']) := by
    simp [not_mem_signed (show ':'.isDigit = false by decide) (by decide) z]
  rw [labelled_append] at hx
  obtain ⟨rfl, hpre⟩ := splitOn_of_isPrefix hl hcolon hx (secondField_eq_ok_iff.1 hy)
  rcases List.prefix_cons_iff.1 hpre with rfl | ⟨g, rfl, hg⟩
  · exact absurd hread (parseInt_nil z)
  · rw [parseInt_space] at hread
    rcases List.prefix_concat_iff.1 hg with rfl | hg
    · exact absurd hread (parseInt_ne_ok (by simp) (show isNumberChar ',' = false by decide) z)
    · rw [eq_signed_of_isPrefix hg hread, labelled]

theorem take_of_parseInt {ps : List (List Char)} {i k : ℕ} {x f y : List Char} {label : String}
    {z : ℤ} (hf : (withCommas ps)[i]? = some f) (hx : x <+: f)
    (hp : ps[k]? = some (labelled label (signed z))) (hl : ':' ∉ label.toList)
    (hy : secondField (ps.take i ++ [x])[k]? = .ok y) (hread : parseInt y = .ok z) :
    (ps.take i ++ [x]).take (k + 1) = ps.take (k + 1) := by
  obtain ⟨p, hpi, hfp⟩ := getElem?_withCommas hf
  have hi : i < ps.length := (List.getElem?_eq_some_iff.1 hpi).1
  have hlen : (ps.take i).length = i := List.length_take_of_le hi.le
  rcases lt_trichotomy k i with hlt | rfl | hgt
  · rw [List.take_append_of_le_length (by omega), List.take_take, min_eq_left (by omega)]
  · rw [hpi, Option.some.injEq] at hp
    have hget : (ps.take k ++ [x])[k]? = some x := by
      rw [List.getElem?_append_right hlen.le, hlen, Nat.sub_self]
      rfl
    rw [hget] at hy
    have heq := eq_of_secondField hl (hp ▸ hx.trans hfp) hy hread
    rw [List.take_of_length_le (by simp [hlen]), heq, ← hp, List.take_add_one, hpi]
    rfl
  · have hnone : (ps.take i ++ [x])[k]? = none := by
      rw [List.getElem?_eq_none_iff, List.length_append, hlen, List.length_singleton]
      omega
    rw [hnone] at hy
    cases hy

theorem getElem?_of_take {ps : List (List Char)} {i k : ℕ} {x f y : List Char}
    (hf : (withCommas ps)[i]? = some f) (hy : secondField (ps.take i ++ [x])[k]? = .ok y) {j : ℕ}
    (hj : j < k) : (ps.take i ++ [x])[j]? = ps[j]? := by
  obtain ⟨p, hpi, -⟩ := getElem?_withCommas hf
  have hi : i < ps.length := (List.getElem?_eq_some_iff.1 hpi).1
  have hlen : (ps.take i).length = i := List.length_take_of_le hi.le
  have hk : k ≤ i := by
    by_contra hgt
    have hnone : (ps.take i ++ [x])[k]? = none := by
      rw [List.getElem?_eq_none_iff, List.length_append, hlen, List.length_singleton]
      omega
    rw [hnone] at hy
    cases hy
  rw [List.getElem?_append_left (by omega), List.getElem?_take_of_lt (by omega)]

/-- A number before that is read as it is. -/
theorem eq_of_parseInt_take {ps : List (List Char)} {i j k : ℕ} {x f y y' : List Char}
    {label : String} {z v : ℤ} (hf : (withCommas ps)[i]? = some f)
    (hlater : secondField (ps.take i ++ [x])[k]? = .ok y') (hj : j < k)
    (hp : ps[j]? = some (labelled label (signed z))) (hl : ':' ∉ label.toList)
    (hz : z.natAbs < 10 ^ maxStrDigits) (hy : secondField (ps.take i ++ [x])[j]? = .ok y)
    (hread : parseInt y = .ok v) : v = z := by
  rw [getElem?_of_take hf hlater hj, hp,
    secondField_labelled hl (not_mem_signed (by decide) (by decide) z)] at hy
  rw [← Except.ok.inj hy, parseInt_space, parseInt_signed hz] at hread
  exact (Except.ok.inj hread).symm

/-! ## Lines of the logs cut short -/

namespace LogLine

variable {T : Target}

theorem parts_ne_nil (l : LogLine) : l.parts T ≠ [] := by
  cases l with
  | source m time => exact List.cons_ne_nil _ _
  | aggregator a time => exact List.cons_ne_nil _ _

theorem comma_parts (l : LogLine) : ∀ p ∈ l.parts T, ',' ∉ p := by
  cases l with
  | source m time =>
    rw [parts]
    exact comma_sourceParts
  | aggregator a time =>
    rw [parts]
    exact comma_aggregatorParts

theorem begins_parts (l : LogLine) : ∀ p ∈ l.parts T, Begins p := by
  cases l with
  | source m time =>
    rw [parts]
    exact begins_sourceParts
  | aggregator a time =>
    rw [parts]
    exact begins_aggregatorParts

theorem faithful_parts (l : LogLine) : ∀ f ∈ withCommas (l.parts T), Faithful f := by
  cases l with
  | source m time =>
    rw [parts]
    exact faithful_sourceParts
  | aggregator a time =>
    rw [parts]
    exact faithful_aggregatorParts

theorem begins_body (l : LogLine) : Begins (l.body T) := l.body_head T

theorem strip_take_text (l : LogLine) (size : ℕ) :
    strip ((l.text T).take size) = strip ((l.body T).take size) := by
  rw [text_eq, List.take_append, strip_append_space]
  exact fun c hc => isSpace_newline c (List.mem_of_mem_take hc)

theorem strip_take_body (l : LogLine) (size : ℕ) :
    strip ((l.body T).take size) <+: l.body T := by
  by_cases hsize : size = 0
  · rw [hsize]
    exact List.nil_prefix
  · rw [strip_of_starts (l.begins_body.take (Nat.pos_of_ne_zero hsize)).starts]
    exact (List.rdropWhile_prefix _ _).trans (List.take_prefix size _)

/-- The parts that a line cut short shows: some whole ones and a cut one. -/
def Shows (T : Target) (l : LogLine) (shown : List (List Char)) : Prop :=
  ∃ i x f, (withCommas (l.parts T))[i]? = some f ∧ x <+: f ∧ shown = (l.parts T).take i ++ [x]

theorem shows_take (l : LogLine) {size : ℕ} (hsize : 0 < size) :
    l.Shows T (pySplit (strip ((l.text T).take size))) := by
  rw [strip_take_text, strip_of_starts (l.begins_body.take hsize).starts]
  exact pySplit_cut (l.parts_ne_nil (T := T)) l.comma_parts l.begins_parts hsize

/-- The first word of the line. -/
def word : LogLine → List Char
  | .source _ _ => "source".toList
  | .aggregator _ _ => "aggregator".toList

/-- No line begins with the word of the other kind. -/
theorem not_isPrefix_take (l : LogLine) {w : List Char} (size : ℕ) (h₁ : ¬w <+: l.word)
    (h₂ : ¬l.word <+: w) : ¬w <+: strip ((l.text T).take size) := by
  have hword : l.word <+: l.body T := by
    cases l with
    | source m time =>
      obtain ⟨t, ht⟩ := joined_cons_eq "source".toList ((source m time).parts T).tail
      exact ⟨t, ht.symm⟩
    | aggregator a time =>
      obtain ⟨t, ht⟩ := joined_cons_eq "aggregator".toList ((aggregator a time).parts T).tail
      exact ⟨t, ht.symm⟩
  intro hw
  rw [strip_take_text] at hw
  rcases List.prefix_or_prefix_of_prefix (hw.trans (l.strip_take_body size)) hword with h | h
  · exact h₁ h
  · exact h₂ h

/-- How many parts of the line are converted before its time. -/
def converted : LogLine → ℕ
  | .source _ _ => 3
  | .aggregator _ _ => 4

/-- The beginning of a line shows enough of it: the converted parts whole, and as its last part
one that spells the time. -/
def Enough (T : Target) (l : LogLine) (piece : List Char) : Prop :=
  (pySplit (strip piece)).take l.converted = (l.parts T).take l.converted ∧
    ∃ last, (pySplit (strip piece)).getLast? = some last ∧ SpellsTime l.time last

theorem Typed.time_lt {l : LogLine} (h : l.Typed T) : l.time < 2 ^ 64 := by
  cases l with
  | source m time => exact h.2.2.trans (by decide)
  | aggregator a time => exact h.2.2.trans (by decide)

namespace Shows

/-- The time of the line is read exactly if the last part spells it. -/
theorem timeValue_iff {l : LogLine} {shown : List (List Char)} (hs : l.Shows T shown)
    (h : l.Typed T) : timeValue shown = .ok ((l.time : ℚ) / 1000) ↔
      ∃ last, shown.getLast? = some last ∧ SpellsTime l.time last := by
  obtain ⟨i, x, f, hf, hx, rfl⟩ := hs
  have hfaithful := l.faithful_parts f (List.mem_of_getElem? hf)
  rw [timeValue_eq, List.getLast?_concat, timeOf_eq_iff hfaithful hx h.time_lt]
  constructor
  · intro hspells
    exact ⟨x, rfl, hspells⟩
  · intro ⟨last, hlast, hspells⟩
    rwa [Option.some.inj hlast]

variable (hint : T.intBits ≤ T.longBits)
include hint

/-- The fields of a source line are read from what it shows only if they are those of the line up
to the sample, which is the right one only if it is there whole. -/
theorem sourceFields_eq_ok {m : Message} {time : ℕ} {shown : List (List Char)}
    (hs : (source m time).Shows T shown) {nodeId v : ℤ}
    (hok : sourceFields shown = .ok (nodeId, v)) :
    nodeId = T.toInt m.nodeId ∧
      (v = m.sample → shown.take 3 = ((source m time).parts T).take 3) := by
  obtain ⟨i, x, f, hf, hx, rfl⟩ := hs
  obtain ⟨y, z, hy, hz, hv, hn⟩ := sourceFields_eq_ok_iff.1 hok
  have hid : ((source m time).parts T)[1]? =
      some (labelled "node_id" (signed (T.toInt m.nodeId))) := rfl
  have hnumber : ((source m time).parts T)[2]? =
      some (labelled "sample" (signed m.sample)) := rfl
  constructor
  · exact eq_of_parseInt_take hf hz (by decide) hid (by decide)
      (lt_ten_pow_maxStrDigits ((isInt_toInt T _).natAbs_lt hint)) hy hn
  · intro hsample
    rw [hsample] at hv
    exact take_of_parseInt hf hx hnumber (by decide) hz hv

/-- The same for an aggregator line, up to the missed samples. -/
theorem aggregatorFields_eq_ok {a : MessageAgg} {time : ℕ} {shown : List (List Char)}
    (hs : (aggregator a time).Shows T shown) {nodeId missed : ℤ} {aggValue : PyFloat} {t : ℚ}
    (hok : aggregatorFields shown = .ok (nodeId, aggValue, missed, t)) :
    nodeId = T.toInt a.nodeId ∧
      (missed = a.missedSamples → shown.take 4 = ((aggregator a time).parts T).take 4) := by
  obtain ⟨i, x, f, hf, hx, rfl⟩ := hs
  obtain ⟨y, z, hy, hn, hz, hm, -⟩ := Live.aggregatorFields_eq_ok hok
  have hid : ((aggregator a time).parts T)[1]? =
      some (labelled "node_id" (signed (T.toInt a.nodeId))) := rfl
  have hnumber : ((aggregator a time).parts T)[3]? =
      some (labelled "missed_samples" (signed a.missedSamples)) := rfl
  constructor
  · exact eq_of_parseInt_take hf hz (by decide) hid (by decide)
      (lt_ten_pow_maxStrDigits ((isInt_toInt T _).natAbs_lt hint)) hy hn
  · intro hmissed
    rw [hmissed] at hm
    exact take_of_parseInt hf hx hnumber (by decide) hz hm

end Shows

section

variable (hint : T.intBits ≤ T.longBits)
include hint

theorem effect_take_source_iff {m : Message} {time : ℕ} (h : (source m time).Typed T) {size : ℕ}
    (hsize : 0 < size) :
    effect (strip (((source m time).text T).take size)) = (source m time).recorded T ↔
      (source m time).Enough T (((source m time).text T).take size) := by
  have hs := (source m time).shows_take (T := T) hsize
  have htime := hs.timeValue_iff h
  rw [recorded, effect_eq_source_ok_iff, Enough]
  generalize pySplit (strip (((source m time).text T).take size)) = shown at hs htime ⊢
  constructor
  · intro ⟨_, hfields, ht⟩
    exact ⟨(hs.sourceFields_eq_ok hint hfields).2 rfl, htime.1 ht⟩
  · intro ⟨htake, hlast⟩
    have hshown : shown = "source".toList :: labelled "node_id" (signed (T.toInt m.nodeId)) ::
        labelled "sample" (signed m.sample) :: shown.drop 3 := by
      conv_lhs => rw [← List.take_append_drop 3 shown, show shown.take 3 = _ from htake]
      rfl
    refine ⟨?_, ?_, htime.2 hlast⟩
    · rw [hshown]
      simp [startsWith]
    · rw [hshown]
      exact sourceFields_eq (lt_ten_pow_maxStrDigits ((isInt_toInt T _).natAbs_lt hint))
        (lt_ten_pow_maxStrDigits (h.1.natAbs_lt hint)) _ _

theorem effect_take_aggregator_iff {a : MessageAgg} {time : ℕ}
    (h : (aggregator a time).Typed T) {size : ℕ} (hsize : 0 < size) :
    effect (strip (((aggregator a time).text T).take size)) = (aggregator a time).recorded T ↔
      (aggregator a time).Enough T (((aggregator a time).text T).take size) := by
  have hs := (aggregator a time).shows_take (T := T) hsize
  have htime := hs.timeValue_iff h
  rw [recorded, effect_eq_aggregator_ok_iff, Enough]
  generalize pySplit (strip (((aggregator a time).text T).take size)) = shown at hs htime ⊢
  constructor
  · intro ⟨_, _, aggValue, hfields, _⟩
    obtain ⟨-, -, -, -, -, -, ht⟩ := Live.aggregatorFields_eq_ok hfields
    exact ⟨(hs.aggregatorFields_eq_ok hint hfields).2 rfl, htime.1 ht⟩
  · intro ⟨htake, hlast⟩
    have hshown : shown = "aggregator".toList :: labelled "node_id" (signed (T.toInt a.nodeId)) ::
        labelled "sample" (pointText (T.doubleToInt a.sample)
          (T.doubleToUnsigned T.intBits ((a.sample - T.doubleToInt a.sample) * 1000))) ::
        labelled "missed_samples" (signed a.missedSamples) :: shown.drop 4 := by
      conv_lhs => rw [← List.take_append_drop 4 shown, show shown.take 4 = _ from htake]
      rfl
    have hfields := aggregatorFields_eq
      (lt_ten_pow_maxStrDigits ((isInt_toInt T a.nodeId).natAbs_lt hint))
      ((isInt_doubleToInt T a.sample).natAbs_lt hint)
      (lt_ten_pow_maxStrDigits (h.1.natAbs_lt hint))
      (T.doubleToUnsigned T.intBits ((a.sample - T.doubleToInt a.sample) * 1000))
      "aggregator".toList (shown.drop 4)
    rw [← hshown, ← timeValue_eq, htime.2 hlast] at hfields
    refine ⟨?_, ?_, _, hfields, rfl⟩
    · rw [hshown]
      simp [startsWith, List.isPrefixOf]
    · rw [hshown]
      simp [startsWith]

/-- **A line cut short records what the whole line does exactly if it shows enough.** -/
theorem effect_take_iff {l : LogLine} (h : l.Typed T) {size : ℕ} (hsize : 0 < size) :
    effect (strip ((l.text T).take size)) = l.recorded T ↔
      l.Enough T ((l.text T).take size) := by
  cases l with
  | source m time => exact effect_take_source_iff hint h hsize
  | aggregator a time => exact effect_take_aggregator_iff hint h hsize

/-- The line without its line feed is enough. -/
theorem enough_of_le {l : LogLine} (h : l.Typed T) {size : ℕ}
    (hle : (l.body T).length ≤ size) : l.Enough T ((l.text T).take size) := by
  have hpos : 0 < size := (List.length_pos_iff.2 l.begins_body.ne_nil).trans_le hle
  apply (effect_take_iff hint h hpos).1
  rw [strip_take_text, List.take_of_length_le hle, l.strip_body T, effect_body hint h]

/-- Whatever a source line cut short records, it is under the node id of the line. -/
theorem effect_take_source {l : LogLine} {size : ℕ} (hsize : 0 < size) {nodeId : ℤ}
    {entry : Except PyException (ℤ × ℚ)}
    (h : effect (strip ((l.text T).take size)) = .source nodeId entry) :
    ∃ x, l.recorded T = .source nodeId (.ok x) := by
  obtain ⟨hstart, v, hfields, -⟩ := effect_eq_source_iff.1 h
  cases l with
  | source m time =>
    have hs := (source m time).shows_take (T := T) hsize
    rw [(hs.sourceFields_eq_ok hint hfields).1]
    exact ⟨_, rfl⟩
  | aggregator a time =>
    exact absurd (isPrefix_of_startsWith hstart)
      (not_isPrefix_take (aggregator a time) size
        (show ¬"source".toList <+: "aggregator".toList by decide)
        (show ¬"aggregator".toList <+: "source".toList by decide))

theorem effect_take_aggregator {l : LogLine} {size : ℕ} (hsize : 0 < size) {nodeId : ℤ}
    {entry : Except PyException (ℤ × ℤ × ℚ)}
    (h : effect (strip ((l.text T).take size)) = .aggregator nodeId entry) :
    ∃ x, l.recorded T = .aggregator nodeId (.ok x) := by
  obtain ⟨-, hstart, aggValue, missed, t, hfields, -⟩ := effect_eq_aggregator_iff.1 h
  cases l with
  | source m time =>
    exact absurd (isPrefix_of_startsWith hstart)
      (not_isPrefix_take (source m time) size
        (show ¬"aggregator".toList <+: "source".toList by decide)
        (show ¬"source".toList <+: "aggregator".toList by decide))
  | aggregator a time =>
    have hs := (aggregator a time).shows_take (T := T) hsize
    rw [(hs.aggregatorFields_eq_ok hint hfields).1]
    exact ⟨_, rfl⟩

end

end LogLine

end WsnAggregation.Live
