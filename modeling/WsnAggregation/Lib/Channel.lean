import Mathlib.Algebra.BigOperators.Group.Finset.Piecewise
import Mathlib.Algebra.Order.BigOperators.Group.Finset
import Mathlib.Algebra.Order.Group.Multiset

/-!
# An unreliable channel

Items that are sent stay in flight until they are delivered, in any order, or lost. What is in
flight or has been delivered was sent, each item at most as often as it was sent (`Conserved`);
with what was lost it is exactly what was sent (`Tally`).

The amounts sent and delivered are sums over parties; `sum_update` says how such a sum changes
when one party takes a step.
-/

namespace WsnAggregation.Lib

variable {α β ι σ : Type*}

/-! ## Conservation -/

theorem eraseIdx_add {l : List α} {k : ℕ} {x : α} (hk : l[k]? = some x) :
    ((l.eraseIdx k : List α) : Multiset α) + {x} = l := by
  obtain ⟨hlt, rfl⟩ := List.getElem?_eq_some_iff.1 hk
  rw [add_comm, Multiset.singleton_add, Multiset.cons_coe, Multiset.coe_eq_coe]
  exact List.getElem_cons_eraseIdx_perm hlt

/-- What is in flight or was delivered was sent. -/
def Conserved (inFlight : List α) (delivered sent : Multiset α) : Prop :=
  (inFlight : Multiset α) + delivered ≤ sent

namespace Conserved

variable {inFlight : List α} {delivered sent : Multiset α}

theorem init : Conserved ([] : List α) 0 0 := le_rfl

theorem send (h : Conserved inFlight delivered sent) (xs : List α) :
    Conserved (inFlight ++ xs) delivered (sent + xs) := by
  rw [Conserved, ← Multiset.coe_add, add_right_comm]
  exact add_le_add_left h _

theorem lose (h : Conserved inFlight delivered sent) (k : ℕ) :
    Conserved (inFlight.eraseIdx k) delivered sent := by
  refine le_trans (add_le_add_left ?_ delivered) h
  exact Multiset.coe_le.2 (List.eraseIdx_sublist inFlight k).subperm

theorem deliver [DecidableEq α] (h : Conserved inFlight delivered sent) {k : ℕ} {x : α}
    (hk : inFlight[k]? = some x) : Conserved (inFlight.eraseIdx k) (delivered + {x}) sent := by
  rw [Conserved, add_comm delivered, ← add_assoc, eraseIdx_add hk]
  exact h

theorem delivered_le (h : Conserved inFlight delivered sent) : delivered ≤ sent :=
  (Multiset.le_add_left _ _).trans h

end Conserved

/-- What was sent is in flight, was lost or was delivered. -/
def Tally (inFlight : List α) (lost delivered sent : Multiset α) : Prop :=
  sent = (inFlight : Multiset α) + lost + delivered

namespace Tally

variable {inFlight : List α} {lost delivered sent : Multiset α}

theorem init : Tally ([] : List α) 0 0 0 := rfl

theorem send (h : Tally inFlight lost delivered sent) (xs : List α) :
    Tally (inFlight ++ xs) lost delivered (sent + xs) := by
  rw [Tally, h, ← Multiset.coe_add, add_right_comm _ delivered, add_right_comm _ lost]

theorem lose (h : Tally inFlight lost delivered sent) {k : ℕ} {x : α}
    (hk : inFlight[k]? = some x) :
    Tally (inFlight.eraseIdx k) (lost + {x}) delivered sent := by
  rw [Tally, h, ← eraseIdx_add hk, add_right_comm _ {x} lost, add_assoc _ lost]

theorem deliver (h : Tally inFlight lost delivered sent) {k : ℕ} {x : α}
    (hk : inFlight[k]? = some x) :
    Tally (inFlight.eraseIdx k) lost (delivered + {x}) sent := by
  rw [Tally, h, ← eraseIdx_add hk, add_right_comm _ {x} lost, add_right_comm _ {x} delivered,
    add_assoc _ delivered]

/-- The items of one kind are balanced by themselves. -/
theorem filterMap (h : Tally inFlight lost delivered sent) (f : α → Option β) :
    Tally (inFlight.filterMap f) (lost.filterMap f) (delivered.filterMap f)
      (sent.filterMap f) := by
  rw [Tally, h, Multiset.filterMap_add, Multiset.filterMap_add, Multiset.filterMap_coe]

end Tally

/-! ## Sums over parties -/

/-- A step of one party adds to a sum over all parties what it adds to its own part. -/
theorem sum_update [Fintype ι] [DecidableEq ι] [AddCommMonoid β] (f : ι → σ) (i : ι) (v : σ)
    (g : ι → σ → β) (x : β) (h : g i v = g i (f i) + x) :
    ∑ j, g j (Function.update f i v j) = ∑ j, g j (f j) + x := by
  have hrest : ∑ j ∈ Finset.univ.erase i, g j (Function.update f i v j) =
      ∑ j ∈ Finset.univ.erase i, g j (f j) := by
    refine Finset.sum_congr rfl fun j hj => ?_
    rw [Function.update_of_ne (Finset.ne_of_mem_erase hj)]
  have hsum := Finset.add_sum_erase _ (fun j => g j (f j)) (Finset.mem_univ i)
  rw [← Finset.add_sum_erase _ _ (Finset.mem_univ i), hrest, Function.update_self, h,
    add_right_comm, hsum]

theorem filterMap_sum (f : α → Option β) (s : Finset ι) (g : ι → Multiset α) :
    (∑ i ∈ s, g i).filterMap f = ∑ i ∈ s, (g i).filterMap f := by
  classical
  induction s using Finset.induction_on with
  | empty => rfl
  | insert i s hi ih => rw [Finset.sum_insert hi, Finset.sum_insert hi, Multiset.filterMap_add, ih]

theorem filterMap_sublist_map {f : α → Option β} {g : α → β} {l : List α}
    (h : ∀ x ∈ l, f x = none ∨ f x = some (g x)) : (l.filterMap f).Sublist (l.map g) := by
  induction l with
  | nil => exact .slnil
  | cons x l ih =>
    have ih' := ih fun y hy => h y (List.mem_cons_of_mem x hy)
    rcases h x List.mem_cons_self with hx | hx
    · rw [List.filterMap_cons_none hx]
      exact ih'.cons _
    · rw [List.filterMap_cons_some hx]
      exact ih'.cons_cons _

end WsnAggregation.Lib
