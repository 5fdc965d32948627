import WsnAggregation.Contiki.Operations

/-!
# Contiki: the rounds of the loops

The loops over the timers may make a given number of rounds. What an operation does with them it
does with more.

* `runMemory_mono` — an operation that has ended with some rounds ends alike with more.
* `ends` — every operation on a memory that represents the lists ends.
-/

namespace WsnAggregation.Contiki

open Lib

namespace Memory

variable {T : Target} {rounds rounds' : ℕ} {m m' : Memory} (hr : rounds ≤ rounds')
include hr

theorem updateTime_mono (h : m.updateTime T rounds = some m') :
    m.updateTime T rounds' = some m' := by
  unfold updateTime at h ⊢
  cases hlist : m.timerlist with
  | none =>
    rw [hlist] at h
    exact h
  | some t =>
    simp only [hlist, Option.map_eq_some_iff] at h ⊢
    obtain ⟨tdist, hfold, heq⟩ := h
    exact ⟨tdist, foldLoop_mono hr hfold, heq⟩

theorem addTimer_mono {t : TimerId} (h : m.addTimer T rounds t = some m') :
    m.addTimer T rounds' t = some m' := by
  unfold addTimer at h ⊢
  obtain ⟨found, hfound, h⟩ := Option.bind_eq_some_iff.1 h
  refine Option.bind_eq_some_iff.2 ⟨found, ?_, ?_⟩
  · split at hfound
    · next hp =>
      rw [if_pos hp]
      exact searchLoop_mono hr hfound
    · next hp => rw [if_neg hp, hfound]
  · cases found with
    | none => exact updateTime_mono hr h
    | some u => exact updateTime_mono hr h

theorem etimerStop_mono {t : TimerId} (h : m.etimerStop T rounds t = some m') :
    m.etimerStop T rounds' t = some m' := by
  unfold etimerStop at h ⊢
  simp only [Option.map_eq_some_iff] at h ⊢
  obtain ⟨m₁, hunlinked, heq⟩ := h
  refine ⟨m₁, ?_, heq⟩
  split at hunlinked
  · next hfirst =>
    rw [if_pos hfirst]
    exact updateTime_mono hr hunlinked
  · next hfirst =>
    rw [if_neg hfirst]
    obtain ⟨before, hsearch, hunlinked⟩ := Option.bind_eq_some_iff.1 hunlinked
    refine Option.bind_eq_some_iff.2 ⟨before, searchLoop_mono hr hsearch, ?_⟩
    cases before with
    | none => exact hunlinked
    | some u => exact updateTime_mono hr hunlinked

theorem dropTimers_mono {p : Pid} (h : m.dropTimers rounds p = some m') :
    m.dropTimers rounds' p = some m' := by
  unfold dropTimers at h ⊢
  obtain ⟨first, hsearch, h⟩ := Option.bind_eq_some_iff.1 h
  refine Option.bind_eq_some_iff.2 ⟨first, searchLoop_mono hr hsearch, ?_⟩
  cases first with
  | none => exact h
  | some t =>
    simp only [Option.map_eq_some_iff] at h ⊢
    obtain ⟨next, hremove, heq⟩ := h
    exact ⟨next, removeLoop_mono hr hremove, heq⟩

theorem scan_mono {n n' : ℕ} {before p : Option TimerId} {r : Memory × Bool} (hn : n ≤ n')
    (h : scan T rounds n before p m = some r) : scan T rounds' n' before p m = some r := by
  induction n generalizing before p m n' with
  | zero =>
    cases p with
    | none => cases n' <;> exact h
    | some t => cases h
  | succ n ih =>
    obtain ⟨n', rfl⟩ := Nat.exists_eq_succ_of_ne_zero (Nat.ne_zero_of_lt hn)
    have hn := Nat.le_of_succ_le_succ hn
    cases p with
    | none => exact h
    | some t =>
      unfold scan at h ⊢
      by_cases hexp : m.timerExpired T t = true
      · rw [if_pos hexp] at h ⊢
        rcases hpost : m.processPost T (m.timer t).p .timer (.etimer t) with ⟨m₁, posted⟩
        rw [hpost] at h
        cases posted with
        | true =>
          simp only [Option.map_eq_some_iff] at h ⊢
          obtain ⟨m₂, hupdate, heq⟩ := h
          exact ⟨m₂, updateTime_mono hr hupdate, heq⟩
        | false => exact ih hn h
      · rw [if_neg hexp] at h ⊢
        exact ih hn h

theorem again_mono {n n' : ℕ} (hn : n ≤ n') (h : again T rounds n m = some m') :
    again T rounds' n' m = some m' := by
  induction n generalizing m n' with
  | zero => cases h
  | succ n ih =>
    obtain ⟨n', rfl⟩ := Nat.exists_eq_succ_of_ne_zero (Nat.ne_zero_of_lt hn)
    unfold again at h ⊢
    obtain ⟨⟨m₁, left⟩, hscan, h⟩ := Option.bind_eq_some_iff.1 h
    refine Option.bind_eq_some_iff.2 ⟨(m₁, left), scan_mono hr hr hscan, ?_⟩
    cases left with
    | true => exact ih (Nat.le_of_succ_le_succ hn) h
    | false => exact h

theorem etimerThread_mono {ev : Event} {data : Data}
    (h : m.etimerThread T rounds ev data = some m') :
    m.etimerThread T rounds' ev data = some m' := by
  unfold etimerThread at h ⊢
  split at h
  · exact dropTimers_mono hr h
  · exact again_mono hr hr h
  · exact h

end Memory

namespace KernelOp

variable {T : Target} {rounds rounds' : ℕ} {m m' : Memory} {k : Kernel}

/-- **More rounds change nothing.** -/
theorem runMemory_mono {op : KernelOp} (hr : rounds ≤ rounds')
    (h : op.runMemory T rounds m = some m') : op.runMemory T rounds' m = some m' := by
  cases op with
  | etimerSet t interval => exact Memory.addTimer_mono hr h
  | etimerReset t => exact Memory.addTimer_mono hr h
  | etimerRestart t => exact Memory.addTimer_mono hr h
  | etimerStop t => exact Memory.etimerStop_mono hr h
  | etimerThread ev data => exact Memory.etimerThread_mono hr h
  | pollEtimer =>
    have hpoll : m.servePoll.etimerThread T rounds .poll .null = some m' := h
    exact Memory.etimerThread_mono hr hpoll
  | _ => exact h

/-- The operation ends with this memory, as soon as its loops may make enough rounds. -/
def EndsIn (T : Target) (op : KernelOp) (m m' : Memory) : Prop :=
  ∃ n, ∀ rounds, n ≤ rounds → op.runMemory T rounds m = some m'

/-- An operation ends, whatever it is. -/
theorem ends (hnarrow : T.numEvents ≤ 128) (h : Represents T m k) (howned : k.Owned)
    (op : KernelOp) : ∃ m', op.EndsIn T m m' := by
  obtain ⟨m', heq, -⟩ := h.op hnarrow howned (Nat.lt_succ_self k.timerlist.length) op
  exact ⟨m', k.timerlist.length + 1, fun rounds hr => runMemory_mono hr heq⟩

end KernelOp

end WsnAggregation.Contiki
