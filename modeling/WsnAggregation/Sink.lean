import WsnAggregation.AggregatorRun

/-!
# Runs of the sink

Node 1 runs the same image. Its node map is empty and it stores nothing, so its batch stays
empty, the timer is set anew at each datagram, and the flush test always fails. All it does is
print the aggregates it receives.
-/

namespace WsnAggregation

open Contiki Lib

/-- What node 1 does with a datagram. -/
def sinkActions (d : Payload) : List Action :=
  match d with
  | .messageAgg a => [.recv d, .printed a]
  | _ => [.recv d]

/-- Between datagrams node 1 sleeps with an empty batch. -/
structure Idle (m : AggMote) : Prop where
  dead : m.kernel.Dead
  app : m.app = {}

variable {T : Target} {m : AggMote}

theorem handle_sink (d : Payload) (m : AggMote) : (handle 1 d m).kernel = m.kernel ∧
    (handle 1 d m).app = m.app ∧ (handle 1 d m).history = m.history ++
      (sinkActions d).tail.map fun e => (m.kernel.clock, e) := by
  cases d <;> simp [handle, sinkActions]

theorem flushDue_sink (h : m.app.messageCount = 0) (d : Payload) :
    flushDue (handle 1 d (entered T 1 d m)) = false := by
  obtain ⟨hk, ha, -⟩ := handle_sink d (entered T 1 d m)
  have hp : (handle 1 d (entered T 1 d m)).kernel.etimerExpired .app = false := by
    rw [hk, Kernel.etimerExpired, entered_timer_of_empty T 1 d m h]
    rfl
  have hcount : (handle 1 d (entered T 1 d m)).app.messageCount = 0 := by
    rw [ha, entered_app, setForwardIpaddr_messageCount, h]
  simp [flushDue, hp, hcount]

theorem Idle.receive (h : Idle m) (d : Payload) : Idle (receive T 1 d m) ∧
    (receive T 1 d m).history =
      m.history ++ (sinkActions d).map fun e => (m.kernel.clock, e) := by
  have hcount : m.app.messageCount = 0 := by rw [h.app]
  obtain ⟨hk, ha, hh⟩ := handle_sink d (entered T 1 d m)
  have hclosed : closed T 1 (handle 1 d (entered T 1 d m)) = handle 1 d (entered T 1 d m) := by
    rw [closed, flushDue_sink hcount]
    rfl
  rw [receive_eq, hclosed]
  refine ⟨⟨?_, ?_⟩, ?_⟩
  · rw [Mote.onKernel_kernel, hk]
    exact (entered_dead T 1 d m h.dead).setCurrent _
  · rw [Mote.onKernel_app, ha, entered_app, h.app]
    rfl
  · rw [Mote.onKernel_history, hh, entered_history, entered_clock]
    cases d <;> simp [sinkActions]

theorem idle_boot (T : Target) : Idle (aggBoot T 1) := ⟨aggBoot_dead T 1, rfl⟩

theorem Idle.step (h : Idle m) (l : AggStep) : Idle (aggStep T 1 m l) ∧
    (aggStep T 1 m l).history = m.history ++ (match l with
      | .recv d => (sinkActions d).map fun e => (m.kernel.clock, e)
      | .kernel _ => []) := by
  cases l with
  | kernel l =>
    have ha := kernelStep_asleep (aggregator 1) T l h.dead
    exact ⟨⟨ha.dead, ha.app.trans h.app⟩, by simpa [aggStep] using ha.history⟩
  | recv d => exact h.receive d

theorem idle_run (T : Target) (steps : List AggStep) : Idle (aggRun T 1 steps) := by
  induction steps using List.reverseRecOn with
  | nil => exact idle_boot T
  | append_singleton steps l ih =>
    rw [aggRun_concat]
    exact (ih.step l).1

/-- **Node 1 never flushes.** -/
theorem sink_not_flushed (T : Target) (steps : List AggStep) :
    ∀ e ∈ (aggRun T 1 steps).history, ∀ count agg, e.2 ≠ .flushed count agg := by
  induction steps using List.reverseRecOn with
  | nil => intro e he; cases he
  | append_singleton steps l ih =>
    rw [aggRun_concat, ((idle_run T steps).step l).2]
    intro e he
    rcases List.mem_append.1 he with he | he
    · exact ih e he
    · cases l with
      | kernel l => cases he
      | recv d => cases d <;> simp [sinkActions] at he <;> rcases he with rfl | rfl <;> simp

end WsnAggregation
