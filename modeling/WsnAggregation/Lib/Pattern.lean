import Mathlib.Data.List.Forall2
import Mathlib.Data.List.TakeWhile

/-!
# Patterns of literals and runs

Regular expressions that are a sequence of literal texts and captured runs `([…]+)` of a class of
characters, with the semantics of a backtracking matcher: a run first takes as many characters as
it can, and gives characters back, one at a time, while the rest does not match.

`matchAt_run_lit` is what makes such patterns predictable: a run followed by a literal that
starts outside the run's class never gives a character back.
-/

namespace WsnAggregation.Lib

/-- A part of a pattern. -/
inductive Piece where
  /-- A literal text. -/
  | lit (s : List Char)
  /-- A captured run of at least one character of a class. -/
  | run (cls : Char → Bool)

/-- Match a pattern at the beginning of a text; the result is the list of captured runs. -/
def matchAt : List Piece → List Char → Option (List (List Char))
  | [], _ => some []
  | .lit s :: ps, l => if s.isPrefixOf l then matchAt ps (l.drop s.length) else none
  | .run cls :: ps, l =>
    (List.range (l.takeWhile cls).length).reverse.findSome? fun k =>
      (matchAt ps (l.drop (k + 1))).map (l.take (k + 1) :: ·)

variable {cls : Char → Bool} {ps : List Piece}

@[simp] theorem matchAt_nil (l : List Char) : matchAt [] l = some [] := rfl

theorem matchAt_run (l : List Char) : matchAt (.run cls :: ps) l =
    (List.range (l.takeWhile cls).length).reverse.findSome? fun k =>
      (matchAt ps (l.drop (k + 1))).map (l.take (k + 1) :: ·) := rfl

@[simp] theorem matchAt_lit (s l : List Char) : matchAt (.lit s :: ps) (s ++ l) = matchAt ps l := by
  simp [matchAt]

theorem matchAt_lit_of_ne {c d : Char} (h : c ≠ d) (s l : List Char) :
    matchAt (.lit (c :: s) :: ps) (d :: l) = none := by
  simp [matchAt, List.isPrefixOf, h]

theorem matchAt_run_of_not {d : Char} (h : cls d = false) (l : List Char) :
    matchAt (.run cls :: ps) (d :: l) = none := by
  simp [matchAt, h]

/-- A literal ends every run of the class: it starts outside. -/
def endsRun (cls : Char → Bool) : List Char → Bool
  | [] => false
  | d :: _ => !cls d

theorem takeWhile_run {w s : List Char} (hw : ∀ c ∈ w, cls c = true) (hs : endsRun cls s = true)
    (l : List Char) : (w ++ (s ++ l)).takeWhile cls = w := by
  cases s with
  | nil => cases hs
  | cons d s =>
    have hd : cls d = false := by simpa [endsRun] using hs
    rw [List.takeWhile_append_of_pos hw, List.cons_append,
      List.takeWhile_cons_of_neg (by simp [hd]), List.append_nil]

theorem drop_run {w : List Char} (hw : ∀ c ∈ w, cls c = true) {k : ℕ} (hk : k < w.length)
    (l : List Char) : ∃ c rest, (w ++ l).drop k = c :: rest ∧ cls c = true := by
  rw [List.drop_append_of_le_length hk.le, List.drop_eq_getElem_cons hk]
  exact ⟨w[k], _, rfl, hw _ (List.getElem_mem hk)⟩

/-- **A run followed by a literal that starts outside its class takes the whole run.** -/
theorem matchAt_run_lit {w s : List Char} (hne : w ≠ []) (hw : ∀ c ∈ w, cls c = true)
    (hs : endsRun cls s = true) (l : List Char) :
    matchAt (.run cls :: .lit s :: ps) (w ++ (s ++ l)) = (matchAt ps l).map (w :: ·) := by
  obtain ⟨n, hn⟩ : ∃ n, w.length = n + 1 := Nat.exists_eq_succ_of_ne_zero (by simpa using hne)
  rw [matchAt_run, takeWhile_run hw hs, hn, List.range_succ, List.reverse_append,
    List.reverse_singleton, List.singleton_append, List.findSome?_cons, ← hn]
  rw [List.drop_left, List.take_left, matchAt_lit]
  cases hrest : matchAt ps l with
  | some caps => rfl
  | none =>
    -- Giving characters back does not help: the literal would have to start inside the run.
    simp only [Option.map_none, List.findSome?_eq_none_iff]
    intro k hk
    have hk' : k + 1 < w.length := by
      have := List.mem_range.1 (List.mem_reverse.1 hk)
      omega
    obtain ⟨c, rest, hdrop, hc⟩ := drop_run hw hk' (s ++ l)
    cases s with
    | nil => cases hs
    | cons d s =>
      have hdc : d ≠ c := by
        rintro rfl
        simp [endsRun, hc] at hs
      rw [hdrop, matchAt_lit_of_ne hdc, Option.map_none]

/-- A run at the end of the pattern takes the whole run. -/
theorem matchAt_run_last {w s : List Char} (hne : w ≠ []) (hw : ∀ c ∈ w, cls c = true)
    (hs : endsRun cls s = true) (l : List Char) :
    matchAt [.run cls] (w ++ (s ++ l)) = some [w] := by
  obtain ⟨n, hn⟩ : ∃ n, w.length = n + 1 := Nat.exists_eq_succ_of_ne_zero (by simpa using hne)
  rw [matchAt_run, takeWhile_run hw hs, hn, List.range_succ, List.reverse_append,
    List.reverse_singleton, List.singleton_append, List.findSome?_cons, ← hn, List.take_left]
  rfl

/-- A run that stops before another character than the literal's does not match: the literal
cannot start inside the run either. -/
theorem matchAt_run_stop {w : List Char} {c d : Char} (hw : ∀ x ∈ w, cls x = true)
    (hd : cls d = false) (hc : cls c = false) (hcd : c ≠ d) (s l : List Char) :
    matchAt (.run cls :: .lit (c :: s) :: ps) (w ++ d :: l) = none := by
  have htake : (w ++ d :: l).takeWhile cls = w := by
    rw [List.takeWhile_append_of_pos hw, List.takeWhile_cons_of_neg (by simp [hd]),
      List.append_nil]
  rw [matchAt_run, htake, List.findSome?_eq_none_iff]
  intro k hk
  have hk' : k < w.length := List.mem_range.1 (List.mem_reverse.1 hk)
  rw [Option.map_eq_none_iff]
  rcases Nat.lt_or_ge (k + 1) w.length with hlt | hge
  · obtain ⟨x, rest, hdrop, hx⟩ := drop_run hw hlt (d :: l)
    have hcx : c ≠ x := by
      rintro rfl
      rw [hc] at hx
      cases hx
    rw [hdrop, matchAt_lit_of_ne hcx]
  · rw [show k + 1 = w.length by omega, List.drop_left, matchAt_lit_of_ne hcd]

/-! ## What is captured -/

/-- The classes of the runs of a pattern. -/
def runs : List Piece → List (Char → Bool)
  | [] => []
  | .lit _ :: ps => runs ps
  | .run cls :: ps => cls :: runs ps

/-- A text that a run can capture. -/
def IsRun (cls : Char → Bool) (w : List Char) : Prop := w ≠ [] ∧ ∀ c ∈ w, cls c = true

theorem isRun_take {l : List Char} {k : ℕ} (hk : k < (l.takeWhile cls).length) :
    IsRun cls (l.take (k + 1)) := by
  have htake : l.take (k + 1) = (l.takeWhile cls).take (k + 1) :=
    calc l.take (k + 1) = (l.takeWhile cls ++ l.dropWhile cls).take (k + 1) := by
          rw [List.takeWhile_append_dropWhile]
      _ = (l.takeWhile cls).take (k + 1) := List.take_append_of_le_length hk
  refine ⟨?_, fun c hc => ?_⟩
  · rw [htake, ← List.length_pos_iff, List.length_take]
    omega
  · rw [htake] at hc
    exact List.mem_takeWhile_imp (List.mem_of_mem_take hc)

/-- **A match captures one text for each run, and each text is a run of its class.** -/
theorem matchAt_captures {l : List Char} {caps : List (List Char)} (h : matchAt ps l = some caps) :
    List.Forall₂ IsRun (runs ps) caps := by
  induction ps generalizing l caps with
  | nil =>
    cases h
    exact .nil
  | cons piece ps ih =>
    cases piece with
    | lit s =>
      rw [matchAt] at h
      split_ifs at h
      exact ih h
    | run cls =>
      rw [matchAt_run] at h
      obtain ⟨k, hk, hsome⟩ := List.exists_of_findSome?_eq_some h
      obtain ⟨rest, hrest, rfl⟩ := Option.map_eq_some_iff.1 hsome
      exact .cons (isRun_take (List.mem_range.1 (List.mem_reverse.1 hk))) (ih hrest)

end WsnAggregation.Lib
