import Mathlib.Data.List.Basic

/-!
# Queues that are served in order

A system whose steps either take the first item off a queue or leave the items where they are.
Both may append others, but nothing overtakes an item that waits.

* `InOrder.served` — what the service of an item brings about holds once as many steps have taken
  an item as its position in the queue says.
-/

namespace WsnAggregation.Lib

variable {σ α ε : Type*} {step : σ → α → σ} {queue : σ → List ε} {takes : α → Bool}
  {I J : σ → Prop}

/-- Where `I` holds, the steps that `takes` selects take the first item off the queue, and no other
step takes any. -/
structure InOrder (step : σ → α → σ) (queue : σ → List ε) (takes : α → Bool) (I : σ → Prop) :
    Prop where
  invariant : ∀ m l, I m → I (step m l)
  keeps : ∀ m l, I m → takes l = false → queue m <+: queue (step m l)
  takesFirst : ∀ m l, I m → takes l = true → (queue m).tail <+: queue (step m l)

namespace InOrder

/-- What stands at a place stands there in any longer queue. -/
theorem getElem?_stays {q q' : List ε} (h : q <+: q') {i : ℕ} {e : ε} (he : q[i]? = some e) :
    q'[i]? = some e := by
  obtain ⟨hi, rfl⟩ := List.getElem?_eq_some_iff.1 he
  exact List.prefix_iff_getElem?.1 h i hi

/-- **An item is served in its turn.** -/
theorem served (h : InOrder step queue takes I) (hJ : ∀ m l, J m → J (step m l)) {e : ε}
    (hserve : ∀ m l rest, I m → takes l = true → queue m = e :: rest → J (step m l))
    {m : σ} {i : ℕ} (hm : I m) (he : (queue m)[i]? = some e) {ls : List α}
    (hcount : i < ls.countP takes) : J (ls.foldl step m) := by
  induction ls generalizing m i with
  | nil => simp at hcount
  | cons l ls ih =>
    rw [List.foldl_cons]
    cases hl : takes l with
    | false =>
      rw [List.countP_cons_of_neg (by simp [hl])] at hcount
      exact ih (h.invariant m l hm) (getElem?_stays (h.keeps m l hm hl) he) hcount
    | true =>
      rw [List.countP_cons_of_pos hl] at hcount
      cases i with
      | zero =>
        -- It is the first: this step serves it.
        obtain ⟨rest, hrest⟩ := List.head?_eq_some_iff.1 (List.head?_eq_getElem?.trans he)
        exact List.foldlRecOn (motive := J) _ _ (hserve m l rest hm hl hrest) fun m hm l _ =>
          hJ m l hm
      | succ i =>
        have htail : (queue m).tail[i]? = some e := by rw [List.getElem?_tail, he]
        exact ih (h.invariant m l hm) (getElem?_stays (h.takesFirst m l hm hl) htail)
          (by omega)

end InOrder

end WsnAggregation.Lib
