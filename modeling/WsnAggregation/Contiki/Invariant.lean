import WsnAggregation.Contiki.Process

/-!
# Contiki: invariants of a firmware

The scheduler reaches the firmware's memory and history through the firmware's thread only. So a
property of these two that the thread preserves, whatever event it is called with and whatever
the kernel looks like, is preserved by every kernel step.
-/

namespace WsnAggregation.Contiki

variable {σ ε : Type}

/-- A property of the firmware's memory and history, said of a mote. -/
def Mote.Holds (P : σ → List (ℕ × ε) → Prop) (m : Mote σ ε) : Prop := P m.app m.history

/-- The thread preserves the property. -/
def Firmware.Preserves (fw : Firmware σ ε) (T : Target) (P : σ → List (ℕ × ε) → Prop) : Prop :=
  ∀ ev data (m : Mote σ ε), m.Holds P → (fw.thread T ev data m).1.Holds P

section

variable {fw : Firmware σ ε} {T : Target} {P : σ → List (ℕ × ε) → Prop}

theorem foldl_holds {α : Type} (f : Mote σ ε → α → Mote σ ε)
    (hf : ∀ m a, m.Holds P → (f m a).Holds P) (l : List α) {m : Mote σ ε} (h : m.Holds P) :
    (l.foldl f m).Holds P := by
  induction l generalizing m with
  | nil => exact h
  | cons a l ih => exact ih (hf m a h)

variable (hfw : fw.Preserves T P) {m : Mote σ ε} (h : m.Holds P)
include hfw h

theorem runThread_holds (p : Pid) (ev : Event) (data : Data) :
    (runThread fw T p ev data m).1.Holds P := by
  cases p with
  | app => exact hfw ev data m h
  | _ => exact h

theorem notifyExited_holds (p q : Pid) : (notifyExited fw T p q m).Holds P := by
  unfold notifyExited
  split
  · exact runThread_holds hfw (m := enter q m) h q .exited (.process p)
  · exact h

theorem exitProcess_holds (p : Pid) : (exitProcess fw T p m).Holds P := by
  unfold exitProcess
  split
  · dsimp only
    split
    · exact foldl_holds _ (fun m q hm => notifyExited_holds hfw hm p q) _
        (m := m.onKernel fun k => k.setState p .none) h
    · exact h
  · exact h

theorem callProcess_holds (p : Pid) (ev : Event) (data : Data) :
    (callProcess fw T p ev data m).Holds P := by
  unfold callProcess
  split
  · have hrun := runThread_holds hfw (m := enter p m) h p ev data
    dsimp only
    split
    · exact exitProcess_holds hfw hrun p
    · exact hrun
  · exact h

theorem processStart_holds (p : Pid) : (processStart fw T p m).Holds P := by
  unfold processStart
  split
  · exact h
  · exact callProcess_holds hfw (m := m.onKernel fun k =>
      { k.setState p .running with processList := p :: k.processList }) h p .init .null

theorem doPoll_holds : (doPoll fw T m).Holds P := by
  refine foldl_holds _ (fun m p hm => ?_) _
    (m := m.onKernel fun k => { k with pollRequested := false }) h
  split
  · exact callProcess_holds hfw (m := m.onKernel fun k =>
      { k.setState p .running with needspoll := Function.update k.needspoll p false })
      hm p .poll .null
  · exact hm

theorem pollIfRequested_holds : (pollIfRequested fw T m).Holds P := by
  unfold pollIfRequested
  split
  · exact doPoll_holds hfw h
  · exact h

theorem doEvent_holds : (doEvent fw T m).Holds P := by
  unfold doEvent
  split
  · exact h
  · rename_i e rest _
    dsimp only
    split
    · exact foldl_holds _ (fun m p hm =>
        callProcess_holds hfw (pollIfRequested_holds hfw hm) p e.ev e.data) _
        (m := m.onKernel fun k => { k with events := rest }) h
    · rename_i p _
      refine callProcess_holds hfw ?_ p e.ev e.data
      split
      · exact h
      · exact h

/-- **Every kernel step preserves what the firmware's thread preserves.** -/
theorem kernelStep_holds (l : KernelStep) : (kernelStep fw T m l).Holds P := by
  cases l with
  | tick d => exact h
  | call n c => exact h
  | start n => exact processStart_holds hfw h (.other n)
  | exit n => exact exitProcess_holds hfw h (.other n)
  | poll => exact pollIfRequested_holds hfw h
  | event => exact doEvent_holds hfw h

end

/-- A firmware's thread only ever adds to the history. -/
def Firmware.Appends (fw : Firmware σ ε) (T : Target) : Prop :=
  ∀ ev data (m : Mote σ ε), m.history <+: (fw.thread T ev data m).1.history

theorem kernelStep_prefix {fw : Firmware σ ε} {T : Target} (hfw : fw.Appends T) (m : Mote σ ε)
    (l : KernelStep) : m.history <+: (kernelStep fw T m l).history := by
  have hP : fw.Preserves T fun _ h => m.history <+: h := fun ev data m' hm' =>
    hm'.trans (hfw ev data m')
  exact kernelStep_holds hP (List.prefix_refl _) l

/-- What holds of the initial memory and an empty history, and is preserved by the thread, holds
at boot. -/
theorem boot_holds {fw : Firmware σ ε} {T : Target} {P : σ → List (ℕ × ε) → Prop}
    (hfw : fw.Preserves T P) (h : P fw.initial []) : (boot fw T).Holds P :=
  processStart_holds hfw (m := { kernel := bootKernel, app := fw.initial, history := [] }) h .app

/-- **The rule for runs of kernel steps.** -/
theorem kernelRun_holds {fw : Firmware σ ε} {T : Target} {P : σ → List (ℕ × ε) → Prop}
    (hfw : fw.Preserves T P) (h : P fw.initial []) (ls : List KernelStep) :
    (ls.foldl (kernelStep fw T) (boot fw T)).Holds P :=
  foldl_holds _ (fun _ l hm => kernelStep_holds hfw hm l) ls (boot_holds hfw h)

end WsnAggregation.Contiki
