import Mathlib.Data.List.Basic

/-!
# Computations that complete

When a sequence of computations that may raise completes: inversion of `>>=` and of `map`, and
the rules for a computation followed by another (`completes_bind_iff`) and for a loop that
collects its results (`completes_collect_iff`).
-/

namespace WsnAggregation.Lib

variable {ε α β γ : Type}

theorem bind_eq_ok {x : Except ε α} {f : α → Except ε β} {b : β} :
    (x >>= f) = .ok b ↔ ∃ a, x = .ok a ∧ f a = .ok b := by
  cases x with
  | error e => exact ⟨fun h => (nomatch h), fun ⟨_, h, _⟩ => (nomatch h)⟩
  | ok a => exact ⟨fun h => ⟨a, rfl, h⟩, fun ⟨_, h, hf⟩ => Except.ok.inj h ▸ hf⟩

theorem map_eq_ok {x : Except ε α} {f : α → β} {b : β} :
    x.map f = .ok b ↔ ∃ a, x = .ok a ∧ f a = b := by
  cases x with
  | error e => exact ⟨fun h => (nomatch h), fun ⟨_, h, _⟩ => (nomatch h)⟩
  | ok a =>
    exact ⟨fun h => ⟨a, rfl, Except.ok.inj h⟩, fun ⟨_, h, hf⟩ => Except.ok.inj h ▸ congrArg _ hf⟩

/-- The computation does not raise. -/
def Completes (x : Except ε α) : Prop := ∃ a, x = .ok a

@[simp] theorem completes_ok (a : α) : Completes (.ok a : Except ε α) := ⟨a, rfl⟩

@[simp] theorem completes_pure (a : α) : Completes (pure a : Except ε α) := ⟨a, rfl⟩

@[simp] theorem not_completes_error (e : ε) : ¬ Completes (.error e : Except ε α) :=
  fun ⟨_, h⟩ => (nomatch h)

theorem completes_ite_iff {p : Prop} [Decidable p] {a : α} {e : ε} :
    Completes (if p then .ok a else .error e : Except ε α) ↔ p := by
  by_cases h : p
  · rw [if_pos h]
    exact iff_of_true (completes_ok a) h
  · rw [if_neg h]
    exact iff_of_false (not_completes_error e) h

/-- Two computations in turn, when whether the second completes does not depend on what the
first one computes. -/
theorem completes_bind_iff {x : Except ε α} {f : α → Except ε β} {q : Prop}
    (h : ∀ a, x = .ok a → (Completes (f a) ↔ q)) : Completes (x >>= f) ↔ Completes x ∧ q := by
  cases x with
  | error e => exact ⟨fun ⟨_, hb⟩ => (nomatch hb), fun ⟨⟨_, ha⟩, _⟩ => (nomatch ha)⟩
  | ok a => exact (h a rfl).trans (and_iff_right (completes_ok a)).symm

theorem completes_bind_of {x : Except ε α} {f : α → Except ε β} (h : ∀ a, Completes (f a)) :
    Completes (x >>= f) ↔ Completes x :=
  (completes_bind_iff fun a _ => iff_true_intro (h a)).trans (and_iff_left trivial)

/-- **A loop that collects what it computes of the elements** completes if each of its steps
does. -/
theorem completes_collect_iff (step : α → Except ε β) (loop : List α → Except ε γ)
    (collect : β → γ → γ) (hnil : Completes (loop []))
    (hcons : ∀ a l, loop (a :: l) = do
      let b ← step a
      let c ← loop l
      return collect b c) (l : List α) : Completes (loop l) ↔ ∀ a ∈ l, Completes (step a) := by
  induction l with
  | nil => exact iff_of_true hnil fun a ha => absurd ha List.not_mem_nil
  | cons a l ih =>
    rw [hcons, List.forall_mem_cons, ← ih]
    exact completes_bind_iff fun b _ => completes_bind_of fun c => completes_pure _

end WsnAggregation.Lib
