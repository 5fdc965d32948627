import Mathlib.Data.List.Basic

/-!
# Loops and exceptions

A loop over a list whose steps may raise, with the effects of a step kept when it does. With one
`try` around the loop the first exception ends it (`tryLoop`); with a `try` inside, every step
runs (`tryEach`).

Where a step raises or not whatever the state, and states only ever grow, the two loops end alike
exactly if nothing after the first exception would have changed the state (`tryLoop_eq_iff`).
-/

namespace WsnAggregation.Lib

variable {σ α ε : Type} (step : α → σ → σ × Except ε Unit)

/-- The loop inside one `try`. -/
def tryLoop : List α → σ → σ
  | [], s => s
  | a :: l, s =>
    match step a s with
    | (s', .ok ()) => tryLoop l s'
    | (s', .error _) => s'

/-- The loop with a `try` inside. -/
def tryEach (l : List α) (s : σ) : σ := l.foldl (fun s a => (step a s).1) s

/-- The steps that the loop inside one `try` makes, each with the state it finds. -/
def processed : List α → σ → List (σ × α)
  | [], _ => []
  | a :: l, s =>
    (s, a) ::
      match step a s with
      | (s', .ok ()) => processed l s'
      | (_, .error _) => []

/-- The steps of several such loops, one after the other. -/
def processedAll : List (List α) → σ → List (σ × α)
  | [], _ => []
  | l :: ls, s => processed step l s ++ processedAll ls (tryLoop step l s)

variable {step}

theorem tryLoop_cons_ok {a : α} {s s' : σ} (h : step a s = (s', .ok ())) (l : List α) :
    tryLoop step (a :: l) s = tryLoop step l s' := by
  rw [tryLoop, h]

theorem tryLoop_cons_error {a : α} {s s' : σ} {e : ε} (h : step a s = (s', .error e))
    (l : List α) : tryLoop step (a :: l) s = s' := by
  rw [tryLoop, h]

theorem tryLoop_singleton (a : α) (s : σ) : tryLoop step [a] s = (step a s).1 := by
  rcases h : step a s with ⟨s', _ | _⟩
  · exact tryLoop_cons_error h []
  · exact tryLoop_cons_ok h []

theorem tryEach_cons (a : α) (l : List α) (s : σ) :
    tryEach step (a :: l) s = tryEach step l (step a s).1 := rfl

/-! ## Invariants -/

/-- An invariant that each step made keeps holds before and after each of them. -/
theorem processed_invariant {I : σ → Prop} (l : List α) {s : σ} (h : I s)
    (hstep : ∀ p ∈ processed step l s, I p.1 → I (step p.2 p.1).1) :
    (∀ p ∈ processed step l s, I p.1) ∧ I (tryLoop step l s) := by
  induction l generalizing s with
  | nil => exact ⟨fun p hp => absurd hp List.not_mem_nil, h⟩
  | cons a l ih =>
    have ha : I (step a s).1 := hstep (s, a) List.mem_cons_self h
    rcases hs : step a s with ⟨s', e | u⟩
    · simp only [processed, hs] at hstep ⊢
      rw [tryLoop_cons_error hs]
      rw [hs] at ha
      refine ⟨fun p hp => ?_, ha⟩
      rw [List.mem_singleton.1 hp]
      exact h
    · simp only [processed, hs] at hstep ⊢
      rw [tryLoop_cons_ok hs]
      rw [hs] at ha
      obtain ⟨hall, hend⟩ := ih ha fun p hp => hstep p (List.mem_cons_of_mem _ hp)
      refine ⟨fun p hp => ?_, hend⟩
      rcases List.mem_cons.1 hp with rfl | hp
      · exact h
      · exact hall p hp

theorem processedAll_invariant {I : σ → Prop} (ls : List (List α)) {s : σ} (h : I s)
    (hstep : ∀ p ∈ processedAll step ls s, I p.1 → I (step p.2 p.1).1) :
    (∀ p ∈ processedAll step ls s, I p.1) ∧ I (ls.foldl (fun s l => tryLoop step l s) s) := by
  induction ls generalizing s with
  | nil => exact ⟨fun p hp => absurd hp List.not_mem_nil, h⟩
  | cons l ls ih =>
    obtain ⟨hfirst, hmid⟩ := processed_invariant l h fun p hp =>
      hstep p (List.mem_append_left _ hp)
    obtain ⟨hrest, hend⟩ := ih hmid fun p hp => hstep p (List.mem_append_right _ hp)
    refine ⟨fun p hp => ?_, hend⟩
    rcases List.mem_append.1 hp with hp | hp
    · exact hfirst p hp
    · exact hrest p hp

/-! ## The two loops compared -/

section

variable (raises : α → Bool) (hraises : ∀ a s, (step a s).2.isOk = !raises a)
include hraises

theorem tryLoop_append (l l' : List α) (s : σ) (h : ∀ a ∈ l, raises a = false) :
    tryLoop step (l ++ l') s = tryLoop step l' (tryEach step l s) := by
  induction l generalizing s with
  | nil => rfl
  | cons a l ih =>
    have ha := hraises a s
    rw [h a List.mem_cons_self] at ha
    rcases hs : step a s with ⟨s', e | u⟩
    · rw [hs] at ha
      cases ha
    · rw [List.cons_append, tryLoop_cons_ok hs, ih s' fun b hb => h b (List.mem_cons_of_mem _ hb),
        tryEach_cons, hs]

theorem tryLoop_of_not_raises {l : List α} (h : ∀ a ∈ l, raises a = false) (s : σ) :
    tryLoop step l s = tryEach step l s := by
  have happ := tryLoop_append raises hraises l [] s h
  rwa [List.append_nil] at happ

/-- A loop up to its first step that raises. -/
theorem tryLoop_append_cons {l : List α} {a : α} (h : ∀ b ∈ l, raises b = false)
    (ha : raises a = true) (l' : List α) (s : σ) :
    tryLoop step (l ++ a :: l') s = tryEach step (l ++ [a]) s := by
  have hres := hraises a (tryEach step l s)
  rw [ha] at hres
  rw [tryLoop_append raises hraises l _ s h, tryEach, tryEach, List.foldl_append]
  rcases hs : step a (tryEach step l s) with ⟨s', e | u⟩
  · rw [tryEach] at hs
    rw [tryLoop_cons_error hs, List.foldl_cons, hs, List.foldl_nil]
  · rw [hs] at hres
    cases hres

variable {Le : σ → σ → Prop} (hrefl : ∀ s, Le s s) (htrans : ∀ {a b c}, Le a b → Le b c → Le a c)
  (hanti : ∀ {a b}, Le a b → Le b a → a = b) (hgrows : ∀ a s, Le s (step a s).1)

omit hraises in
include hrefl htrans hgrows in
theorem le_tryEach (l : List α) (s : σ) : Le s (tryEach step l s) := by
  induction l generalizing s with
  | nil => exact hrefl s
  | cons a l ih => exact htrans (hgrows a s) (ih _)

omit hraises in
include hrefl htrans hanti hgrows in
/-- Where states only grow, a loop leaves the state as it is only if every step does. -/
theorem tryEach_eq_self_iff (l : List α) (s : σ) :
    tryEach step l s = s ↔ ∀ a ∈ l, (step a s).1 = s := by
  induction l generalizing s with
  | nil => exact ⟨fun _ _ ha => absurd ha List.not_mem_nil, fun _ => rfl⟩
  | cons a l ih =>
    rw [tryEach_cons, List.forall_mem_cons]
    constructor
    · intro h
      have hle : Le (step a s).1 (tryEach step l (step a s).1) :=
        le_tryEach hrefl htrans hgrows l (step a s).1
      rw [h] at hle
      have ha : (step a s).1 = s := hanti hle (hgrows a s)
      rw [ha] at h
      exact ⟨ha, (ih s).1 h⟩
    · rintro ⟨ha, hl⟩
      rw [ha]
      exact (ih s).2 hl

include hrefl htrans hanti hgrows in
/-- **When one `try` around the loop does as well as one inside it**: nothing after the first
exception would have changed the state. -/
theorem tryLoop_eq_iff (l : List α) (s : σ) :
    tryLoop step l s = tryEach step l s ↔
      ∀ before a after, l = before ++ a :: after → (∀ b ∈ before, raises b = false) →
        raises a = true → ∀ b ∈ after,
          (step b (tryEach step (before ++ [a]) s)).1 = tryEach step (before ++ [a]) s := by
  have hsplit : ∀ before a after, l = before ++ a :: after → (∀ b ∈ before, raises b = false) →
      raises a = true → (tryLoop step l s = tryEach step l s ↔ ∀ b ∈ after,
        (step b (tryEach step (before ++ [a]) s)).1 = tryEach step (before ++ [a]) s) := by
    intro before a after hl hbefore ha
    have heach : tryEach step l s = tryEach step after (tryEach step (before ++ [a]) s) := by
      rw [hl, tryEach, tryEach, tryEach, ← List.foldl_append, List.append_assoc,
        List.singleton_append]
    rw [heach, hl, tryLoop_append_cons raises hraises hbefore ha, eq_comm]
    exact tryEach_eq_self_iff hrefl htrans hanti hgrows after _
  constructor
  · intro heq before a after hl hbefore ha
    exact (hsplit before a after hl hbefore ha).1 heq
  · intro h
    by_cases hall : ∀ a ∈ l, raises a = false
    · exact tryLoop_of_not_raises raises hraises hall s
    · -- Some step raises: take the first that does.
      have hsome : (l.find? raises).isSome = true := by
        rw [List.find?_isSome]
        simpa using hall
      obtain ⟨a, hfind⟩ := Option.isSome_iff_exists.1 hsome
      obtain ⟨ha, before, after, hl, hbefore⟩ := List.find?_eq_some_iff_append.1 hfind
      have hbefore : ∀ b ∈ before, raises b = false := fun b hb => by simpa using hbefore b hb
      exact (hsplit before a after hl hbefore ha).2 (h before a after hl hbefore ha)

end

end WsnAggregation.Lib
