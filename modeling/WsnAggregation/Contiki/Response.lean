import WsnAggregation.Contiki.Awake
import WsnAggregation.Contiki.Trace
import WsnAggregation.Lib.Served

/-!
# Contiki: how soon a process is called

`do_event` delivers one event, the first of the queue, and nothing overtakes an event that waits.
So a process that never ends is called with an event that is queued for it once as many events have
been delivered as stand before it.

* `responds` — what the call brings about holds from then on, whatever the rest of the system does.
-/

namespace WsnAggregation.Contiki

open Lib

section

variable {σ ε : Type} {fw : Firmware σ ε} {T : Target} {I J : Mote σ ε → Prop} {m : Mote σ ε}

/-- The events of a waiting firmware are delivered in order. -/
theorem inOrder (hfw : fw.Operates T) (hI : Steady fw T I) :
    InOrder (kernelStep fw T) (fun m => m.kernel.events) (fun l => l = .event) I where
  invariant := fun m l h => kernelStep_steady hI h l
  keeps := fun m l _ hl => by
    have h := kernelStep_events hfw m l
    rwa [if_neg (of_decide_eq_false hl)] at h
  takesFirst := fun m l _ hl => by
    have h := kernelStep_events hfw m l
    rwa [if_pos (of_decide_eq_true hl)] at h

/-- The first event of the queue, if it is for the firmware's process. -/
theorem doEvent_eq_resume (hI : Steady fw T I) (h : I m) {e : EventData} {rest : List EventData}
    (heq : m.kernel.events = e :: rest) (hp : e.p = some .app) :
    doEvent fw T m = resume fw T e.ev e.data rest m := by
  have halive := hI.alive m h
  obtain ⟨hinit, hexit, -⟩ := halive.events e (heq ▸ List.mem_cons_self)
  have hends : (fw.thread T e.ev e.data
      (enter .app (m.onKernel fun k => { k with events := rest }))).2 = false :=
    hI.endless e.ev e.data _
  have hrunning : (m.onKernel fun k => { k with events := rest }).kernel.state .app = .running :=
    halive.state
  simp only [doEvent, heq, hp, if_neg hinit]
  rw [callProcess, if_pos hrunning]
  dsimp only [runThread]
  rw [if_neg (by simp [hends, hexit])]
  rfl

/-- **The firmware's process is called with an event in its turn.** -/
theorem responds (hfw : fw.Operates T) (hI : Steady fw T I) (hJ : Steady fw T J) {e : EventData}
    (hp : e.p = some .app)
    (hcall : ∀ rest m, I m → m.kernel.events = e :: rest → J (resume fw T e.ev e.data rest m))
    (h : I m) {i : ℕ} (he : m.kernel.events[i]? = some e) {ls : List KernelStep}
    (hcount : i < ls.count .event) : J (ls.foldl (kernelStep fw T) m) := by
  refine (inOrder hfw hI).served (J := J) (fun m l h => kernelStep_steady hJ h l) ?_ h he ?_
  · intro m l rest hm hl heq
    obtain rfl : l = .event := of_decide_eq_true hl
    rw [kernelStep, doEvent_eq_resume hI hm heq hp]
    exact hcall rest m hm heq
  · rwa [List.count_eq_countP] at hcount

end

end WsnAggregation.Contiki
