import Mathlib.Data.List.Basic

/-!
# Histories

Reasoning about a list of entries that grows at its end.

* `observe` — a quantity computed by reading a history from its beginning.
* `EachWithPast` — a property that each entry has with respect to the entries before it. It is
  proved of a growing history one entry at a time.
* `filterMapPast` — what each entry yields, given the entries before it.
-/

namespace WsnAggregation.Lib

variable {α β : Type*}

/-- Read a history, updating an observation at each entry. -/
def observe (step : β → α → β) (init : β) (h : List α) : β := h.foldl step init

@[simp] theorem observe_nil (step : β → α → β) (init : β) : observe step init [] = init := rfl

@[simp] theorem observe_cons (step : β → α → β) (init : β) (x : α) (h : List α) :
    observe step init (x :: h) = observe step (step init x) h := rfl

@[simp] theorem observe_append (step : β → α → β) (init : β) (h h' : List α) :
    observe step init (h ++ h') = observe step (observe step init h) h' := by
  simp [observe, List.foldl_append]

/-- `P` holds of every entry together with the entries before it. -/
def EachWithPast (P : List α → α → Prop) (h : List α) : Prop :=
  ∀ past x future, h = past ++ x :: future → P past x

theorem EachWithPast.nil (P : List α → α → Prop) : EachWithPast P [] := by
  intro past x future h
  simp at h

theorem EachWithPast.concat {P : List α → α → Prop} {h : List α} (hh : EachWithPast P h) {y : α}
    (hy : P h y) : EachWithPast P (h ++ [y]) := by
  intro past x future heq
  rcases List.eq_nil_or_concat future with rfl | ⟨rest, z, rfl⟩
  · obtain ⟨rfl, hxy⟩ := List.append_inj' heq rfl
    cases hxy
    exact hy
  · have heq' : h ++ [y] = (past ++ x :: rest) ++ [z] := by simpa using heq
    exact hh past x rest (List.append_inj' heq' rfl).1

theorem EachWithPast.prefix {P : List α → α → Prop} {h h' : List α}
    (hh : EachWithPast P (h ++ h')) : EachWithPast P h := by
  intro past x future heq
  exact hh past x (future ++ h') (by simp [heq])

theorem EachWithPast.mono {P Q : List α → α → Prop} (hPQ : ∀ past x, P past x → Q past x)
    {h : List α} (hh : EachWithPast P h) : EachWithPast Q h :=
  fun past x future heq => hPQ past x (hh past x future heq)

/-- The property read entry by entry, by position. -/
theorem eachWithPast_iff {P : List α → α → Prop} {h : List α} :
    EachWithPast P h ↔ ∀ i : Fin h.length, P (h.take i) h[i] := by
  constructor
  · intro hh i
    exact hh _ _ (h.drop (i + 1)) (by simp)
  · rintro hh past x future rfl
    simpa using hh ⟨past.length, by simp⟩

instance {P : List α → α → Prop} [∀ past x, Decidable (P past x)] (h : List α) :
    Decidable (EachWithPast P h) := decidable_of_iff' _ eachWithPast_iff

/-- What each entry of a history yields, given the entries before it. -/
def filterMapPast (f : List α → α → Option β) (h : List α) : List β :=
  (List.finRange h.length).filterMap fun i : Fin h.length => f (h.take i) (h.get i)

theorem filterMapPast_cons (f : List α → α → Option β) (x : α) (h : List α) :
    filterMapPast f (x :: h) = (f [] x).toList ++ filterMapPast (fun past => f (x :: past)) h := by
  have hrange : List.finRange (x :: h).length = 0 :: (List.finRange h.length).map Fin.succ :=
    List.finRange_succ
  rw [filterMapPast, hrange, List.filterMap_cons, List.filterMap_map]
  change (match f [] x with
    | none => filterMapPast (fun past => f (x :: past)) h
    | some b => b :: filterMapPast (fun past => f (x :: past)) h) = _
  cases f [] x <;> rfl

theorem filterMapPast_concat (f : List α → α → Option β) (h : List α) (x : α) :
    filterMapPast f (h ++ [x]) = filterMapPast f h ++ (f h x).toList := by
  induction h generalizing f with
  | nil => exact (filterMapPast_cons f x []).trans (List.append_nil _)
  | cons y h ih =>
    rw [List.cons_append, filterMapPast_cons, ih, filterMapPast_cons, List.append_assoc]

end WsnAggregation.Lib
