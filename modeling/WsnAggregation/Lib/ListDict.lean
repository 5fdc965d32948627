import Mathlib.Data.Finmap

/-!
# Dictionaries of lists

A dictionary whose values are lists that only grow: a key is made with an empty list, and entries
are appended to the list of a key. Equality is that of dictionaries, which forgets the order of
the keys.
-/

namespace WsnAggregation.Lib

/-- A dictionary from keys to lists. -/
abbrev ListDict (κ β : Type) : Type := Finmap fun _ : κ => List β

namespace ListDict

variable {κ β : Type} [DecidableEq κ]

/-- `if k not in d: d[k] = []`. -/
def touch (k : κ) (d : ListDict κ β) : ListDict κ β := if k ∈ d then d else d.insert k []

/-- The entries under a key. -/
def entriesAt (k : κ) (d : ListDict κ β) : List β := (d.lookup k).getD []

/-- `d[k].append(x)`. -/
def append (k : κ) (x : β) (d : ListDict κ β) : ListDict κ β := d.insert k (d.entriesAt k ++ [x])

/-- Every key maps to a non-empty list. -/
def NonEmpty (d : ListDict κ β) : Prop := ∀ k l, d.lookup k = some l → l ≠ []

theorem touch_of_mem {k : κ} {d : ListDict κ β} (h : k ∈ d) : touch k d = d := if_pos h

theorem touch_of_not_mem {k : κ} {d : ListDict κ β} (h : k ∉ d) : touch k d = d.insert k [] :=
  if_neg h

theorem entriesAt_of_not_mem {k : κ} {d : ListDict κ β} (h : k ∉ d) : entriesAt k d = [] := by
  rw [entriesAt, Finmap.lookup_eq_none.2 h, Option.getD_none]

@[simp] theorem entriesAt_touch (k j : κ) (d : ListDict κ β) :
    entriesAt j (touch k d) = entriesAt j d := by
  by_cases hk : k ∈ d
  · rw [touch_of_mem hk]
  · rw [touch_of_not_mem hk]
    by_cases hj : j = k
    · subst hj
      rw [entriesAt_of_not_mem hk, entriesAt, Finmap.lookup_insert, Option.getD_some]
    · rw [entriesAt, Finmap.lookup_insert_of_ne d hj, entriesAt]

theorem entriesAt_append (k j : κ) (x : β) (d : ListDict κ β) :
    entriesAt j (append k x d) = entriesAt j d ++ if j = k then [x] else [] := by
  by_cases hj : j = k
  · subst hj
    rw [if_pos rfl, entriesAt, append, Finmap.lookup_insert, Option.getD_some]
  · rw [if_neg hj, List.append_nil, entriesAt, append, Finmap.lookup_insert_of_ne d hj, entriesAt]

theorem append_touch (k : κ) (x : β) (d : ListDict κ β) :
    append k x (touch k d) = append k x d := by
  rw [append, append, entriesAt_touch]
  by_cases hk : k ∈ d
  · rw [touch_of_mem hk]
  · rw [touch_of_not_mem hk, Finmap.insert_insert]

theorem touch_eq_self_iff {k : κ} {d : ListDict κ β} : touch k d = d ↔ k ∈ d := by
  constructor
  · intro h
    by_contra hk
    rw [touch_of_not_mem hk] at h
    have hmem : k ∈ d.insert k ([] : List β) := Finmap.mem_insert.2 (Or.inl rfl)
    rw [h] at hmem
    exact hk hmem
  · exact touch_of_mem

theorem append_ne_self (k : κ) (x : β) (d : ListDict κ β) : append k x d ≠ d := by
  intro h
  have hentries := entriesAt_append k k x d
  rw [h, if_pos rfl] at hentries
  exact List.cons_ne_nil x [] (List.self_eq_append_right.1 hentries)

/-! ## Growth -/

/-- The dictionary `d'` has every key of `d`, with further entries at the end of its list. -/
def Extends (d d' : ListDict κ β) : Prop :=
  ∀ k l, d.lookup k = some l → ∃ l', d'.lookup k = some (l ++ l')

theorem Extends.refl (d : ListDict κ β) : Extends d d :=
  fun _ l h => ⟨[], by rw [h, List.append_nil]⟩

theorem Extends.trans {a b c : ListDict κ β} (h₁ : Extends a b) (h₂ : Extends b c) :
    Extends a c := by
  intro k l hl
  obtain ⟨l', hl'⟩ := h₁ k l hl
  obtain ⟨l'', hl''⟩ := h₂ k _ hl'
  exact ⟨l' ++ l'', by rw [hl'', List.append_assoc]⟩

theorem Extends.antisymm {a b : ListDict κ β} (h₁ : Extends a b) (h₂ : Extends b a) : a = b := by
  refine Finmap.ext_lookup fun k => ?_
  cases ha : a.lookup k with
  | some l =>
    obtain ⟨l', hb⟩ := h₁ k l ha
    obtain ⟨l'', ha'⟩ := h₂ k _ hb
    rw [ha, Option.some.injEq, List.append_assoc, List.self_eq_append_right,
      List.append_eq_nil_iff] at ha'
    rw [hb, ha'.1, List.append_nil]
  | none =>
    cases hb : b.lookup k with
    | none => rfl
    | some l =>
      obtain ⟨l', ha'⟩ := h₂ k l hb
      rw [ha] at ha'
      cases ha'

theorem extends_insert {k : κ} {l l' : List β} {d : ListDict κ β}
    (h : d.lookup k = none ∨ d.lookup k = some l) : Extends d (d.insert k (l ++ l')) := by
  intro j m hm
  by_cases hj : j = k
  · subst hj
    rcases h with h | h
    · rw [h] at hm
      cases hm
    · rw [h, Option.some.injEq] at hm
      exact ⟨l', by rw [Finmap.lookup_insert, hm]⟩
  · exact ⟨[], by rw [Finmap.lookup_insert_of_ne d hj, hm, List.append_nil]⟩

theorem extends_touch (k : κ) (d : ListDict κ β) : Extends d (touch k d) := by
  by_cases hk : k ∈ d
  · rw [touch_of_mem hk]
    exact Extends.refl d
  · rw [touch_of_not_mem hk]
    have hinsert : Extends d (d.insert k (([] : List β) ++ [])) :=
      extends_insert (Or.inl (Finmap.lookup_eq_none.2 hk))
    exact hinsert

theorem extends_append (k : κ) (x : β) (d : ListDict κ β) : Extends d (append k x d) := by
  refine extends_insert ?_
  rw [entriesAt]
  cases d.lookup k with
  | none => exact Or.inl rfl
  | some l => exact Or.inr rfl

/-! ## Non-empty lists -/

theorem NonEmpty.append {d : ListDict κ β} (h : NonEmpty d) (k : κ) (x : β) :
    NonEmpty (append k x d) := by
  intro j l hl
  rw [ListDict.append] at hl
  by_cases hj : j = k
  · subst hj
    rw [Finmap.lookup_insert, Option.some.injEq] at hl
    rw [← hl]
    exact List.append_ne_nil_of_right_ne_nil _ (List.cons_ne_nil x [])
  · rw [Finmap.lookup_insert_of_ne d hj] at hl
    exact h j l hl

end ListDict

end WsnAggregation.Lib
