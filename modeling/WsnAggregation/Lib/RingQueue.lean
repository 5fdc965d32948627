import Mathlib.Data.Nat.ModEq
import Mathlib.Logic.Function.Basic

/-!
# A queue in a ring of slots

A queue that starts at some slot of an array and goes on round its end: what is put in goes to
the first slot after the queue, and what is taken out comes from the first slot of it.
-/

namespace WsnAggregation.Lib

variable {β : Type}

/-- The slots from `first` on, round the end of the array, hold this queue. -/
structure Queued (size : ℕ) (slots : ℕ → β) (first : ℕ) (l : List β) : Prop where
  first_lt : first < size
  length_le : l.length ≤ size
  slot : ∀ i x, l[i]? = some x → slots ((first + i) % size) = x

namespace Queued

variable {size : ℕ} {slots : ℕ → β} {first : ℕ} {l : List β} {x : β}

theorem init (hsize : 0 < size) (slots : ℕ → β) : Queued size slots 0 [] :=
  ⟨hsize, Nat.zero_le _, fun i x h => by simp at h⟩

theorem slot_ne {i j : ℕ} (hij : i < j) (hj : j < size) :
    (first + i) % size ≠ (first + j) % size := by
  intro heq
  have hmod : i ≡ j [MOD size] := Nat.ModEq.add_left_cancel' first heq
  exact hij.ne (hmod.eq_of_lt_of_lt (hij.trans hj) hj)

/-- Put in at the end. -/
theorem push (h : Queued size slots first l) (hroom : l.length < size) (x : β) :
    Queued size (Function.update slots ((first + l.length) % size) x) first (l ++ [x]) where
  first_lt := h.first_lt
  length_le := by
    rw [List.length_append, List.length_singleton]
    exact hroom
  slot := by
    intro i y hy
    rcases Nat.lt_trichotomy i l.length with hi | rfl | hi
    · rw [List.getElem?_append_left hi] at hy
      rw [Function.update_of_ne (slot_ne hi hroom)]
      exact h.slot i y hy
    · rw [List.getElem?_concat_length, Option.some.injEq] at hy
      rw [Function.update_self, hy]
    · have hnone : (l ++ [x])[i]? = none := by
        rw [List.getElem?_eq_none_iff, List.length_append, List.length_singleton]
        exact hi
      rw [hnone] at hy
      cases hy

/-- The first slot holds the front. -/
theorem front (h : Queued size slots first (x :: l)) : slots first = x := by
  have hslot := h.slot 0 x rfl
  rwa [Nat.add_zero, Nat.mod_eq_of_lt h.first_lt] at hslot

/-- Take out at the front. -/
theorem pop (h : Queued size slots first (x :: l)) : Queued size slots ((first + 1) % size) l where
  first_lt := Nat.mod_lt _ (Nat.zero_lt_of_lt h.first_lt)
  length_le := Nat.le_trans (Nat.le_succ _) h.length_le
  slot := by
    intro i y hy
    have hslot := h.slot (i + 1) y hy
    rwa [Nat.mod_add_mod, Nat.add_assoc, Nat.add_comm 1 i]

end Queued

end WsnAggregation.Lib
