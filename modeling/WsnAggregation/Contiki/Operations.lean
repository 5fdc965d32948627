import WsnAggregation.Contiki.Refinement

/-!
# Contiki: the operations of the kernel

Whatever happens on a mote changes the kernel by operations that run to their end: a tick of the
clock, a call of the event timers or of the event queue, a write of the scheduler. Each is done on
the lists and on the memory.

* `Trace` — operations that lead from one kernel to another.
* `Represents.run` — the memory goes along, and no loop needs more rounds than there were
  operations.
-/

namespace WsnAggregation.Contiki

open Lib

/-- One operation of the kernel. -/
inductive KernelOp where
  /-- The clock interrupt counts a tick. -/
  | tick
  | setState (p : Pid) (s : ProcState)
  /-- Set `process_current`. -/
  | setCurrent (p : Option Pid)
  /-- `do_poll` resets `poll_requested`. -/
  | clearPollRequested
  /-- `do_poll` resets `needspoll` of a process. -/
  | clearNeedspoll (p : Pid)
  /-- `process_start` puts a process on the list of processes. -/
  | enlist (p : Pid)
  /-- `exit_process` takes a process off the list of processes. -/
  | delist (p : Pid)
  /-- `do_event` takes an event off the queue. -/
  | takeEvent
  | post (p : Option Pid) (ev : Event) (data : Data)
  | poll (p : Pid)
  | etimerSet (t : TimerId) (interval : ℕ)
  | etimerReset (t : TimerId)
  | etimerRestart (t : TimerId)
  | etimerStop (t : TimerId)
  /-- The thread of `etimer_process` is called with an event. -/
  | etimerThread (ev : Event) (data : Data)
  /-- `do_poll` polls `etimer_process`: its `needspoll` is reset and its thread is called. -/
  | pollEtimer
  deriving DecidableEq, Repr

/-- `do_poll` before it calls the thread of `etimer_process`. -/
def Kernel.servePoll (k : Kernel) : Kernel :=
  { k with
    needspoll := Function.update k.needspoll .etimerProcess false
    state := Function.update k.state .etimerProcess .called
    current := some .etimerProcess }

/-- `do_poll` before it calls the thread of `etimer_process`. -/
def Memory.servePoll (m : Memory) : Memory :=
  { m with
    needspoll := Function.update m.needspoll .etimerProcess false
    state := Function.update m.state .etimerProcess .called
    current := some .etimerProcess }

namespace KernelOp

variable (T : Target) (rounds : ℕ)

/-- The operation on the lists. -/
def run (op : KernelOp) (k : Kernel) : Kernel :=
  match op with
  | tick => { k with clock := k.clock + 1 }
  | setState p s => k.setState p s
  | setCurrent p => k.setCurrent p
  | clearPollRequested => { k with pollRequested := false }
  | clearNeedspoll p => { k with needspoll := Function.update k.needspoll p false }
  | enlist p => { k with processList := p :: k.processList }
  | delist p => { k with processList := k.processList.erase p }
  | takeEvent => { k with events := k.events.tail }
  | post p ev data => (k.processPost T p ev data).1
  | poll p => k.processPoll p
  | etimerSet t interval => k.etimerSet T t interval
  | etimerReset t => k.etimerReset T t
  | etimerRestart t => k.etimerRestart T t
  | etimerStop t => k.etimerStop t
  | etimerThread ev data => k.etimerThread T ev data
  | pollEtimer => k.servePoll.etimerThread T .poll .null

/-- The operation on the memory. -/
def runMemory (op : KernelOp) (m : Memory) : Option Memory :=
  match op with
  | tick => some { m with clock := m.clock + 1 }
  | setState p s => some { m with state := Function.update m.state p s }
  | setCurrent p => some { m with current := p }
  | clearPollRequested => some { m with pollRequested := false }
  | clearNeedspoll p => some { m with needspoll := Function.update m.needspoll p false }
  | enlist p => some { m with processList := p :: m.processList }
  | delist p => some { m with processList := m.processList.erase p }
  | takeEvent => some (m.takeEvent T)
  | post p ev data => some (m.processPost T p ev data).1
  | poll p => some (m.processPoll p)
  | etimerSet t interval => m.etimerSet T rounds t interval
  | etimerReset t => m.etimerReset T rounds t
  | etimerRestart t => m.etimerRestart T rounds t
  | etimerStop t => m.etimerStop T rounds t
  | etimerThread ev data => m.etimerThread T rounds ev data
  | pollEtimer => m.servePoll.etimerThread T rounds .poll .null

/-- The operation starts a timer. -/
def starts : KernelOp → Bool
  | etimerSet _ _ | etimerReset _ | etimerRestart _ => true
  | _ => false

/-- Where the kernel does the operation: a timer is started by a process, and the poll of
`etimer_process` is served at once. -/
def Allowed (k : Kernel) (op : KernelOp) : Prop :=
  (op.starts = true → k.current ≠ none) ∧ op ≠ .clearNeedspoll .etimerProcess

end KernelOp

theorem KernelOp.allowed_of_not_starts {k : Kernel} {op : KernelOp} (hs : op.starts = false)
    (hc : op ≠ .clearNeedspoll .etimerProcess) : op.Allowed k :=
  ⟨fun h => absurd (hs.symm.trans h) Bool.false_ne_true, hc⟩

/-- The operations, each where the kernel does it, lead from one kernel to the other. -/
inductive Trace (T : Target) : Kernel → List KernelOp → Kernel → Prop
  | nil (k : Kernel) : Trace T k [] k
  | cons {k k' : Kernel} {op : KernelOp} {ops : List KernelOp} (allowed : op.Allowed k)
      (rest : Trace T (op.run T k) ops k') : Trace T k (op :: ops) k'

theorem Trace.append {T : Target} {k k' k'' : Kernel} {ops ops' : List KernelOp}
    (h : Trace T k ops k') (h' : Trace T k' ops' k'') : Trace T k (ops ++ ops') k'' := by
  induction h with
  | nil k => exact h'
  | cons allowed _ ih => exact .cons allowed (ih h')

theorem Trace.concat {T : Target} {k k' : Kernel} {op : KernelOp} {ops : List KernelOp}
    (h : Trace T k ops k') (hop : op.Allowed k') : Trace T k (ops ++ [op]) (op.run T k') :=
  h.append (.cons hop (.nil _))

/-- The memory after operations, one after the other. -/
def Memory.run (T : Target) (rounds : ℕ) : List KernelOp → Memory → Option Memory
  | [], m => some m
  | op :: ops, m => (op.runMemory T rounds m).bind (run T rounds ops)

theorem Memory.run_append {T : Target} {rounds : ℕ} {ops : List KernelOp} {m m' : Memory}
    (h : run T rounds ops m = some m') (ops' : List KernelOp) :
    run T rounds (ops ++ ops') m = run T rounds ops' m' := by
  induction ops generalizing m with
  | nil =>
    obtain rfl := Option.some.inj h
    rfl
  | cons op ops ih =>
    obtain ⟨m₁, hm₁, hrest⟩ := Option.bind_eq_some_iff.1 h
    rw [List.cons_append, run, hm₁]
    exact ih hrest

theorem Memory.run_concat {T : Target} {rounds : ℕ} {ops : List KernelOp} {op : KernelOp}
    {m m' : Memory} (h : run T rounds ops m = some m') :
    run T rounds (ops ++ [op]) m = op.runMemory T rounds m' :=
  (run_append h [op]).trans (Option.bind_fun_some _)

/-! ## What an operation does to the timers -/

namespace Kernel

variable {k : Kernel}

/-- A timer that is started comes on the list, unless it is there already. -/
theorem addTimer_timerlist (k : Kernel) (t : TimerId) :
    (k.addTimer t).timerlist = k.timerlist ∧ t ∈ k.timerlist ∨
      (k.addTimer t).timerlist = t :: k.timerlist := by
  have ha : Agrees k k.etimerRequestPoll := processPoll_agrees k _
  unfold addTimer
  dsimp only
  split
  · rename_i hlisted
    rw [ha.timerlist] at hlisted
    exact Or.inl ⟨ha.timerlist, hlisted.2⟩
  · exact Or.inr (congrArg (t :: ·) ha.timerlist)

theorem addTimer_owned (howned : k.Owned) (hcurrent : k.current ≠ none) (t : TimerId) :
    (k.addTimer t).Owned := by
  intro u hu
  rw [addTimer_timer]
  by_cases hut : u = t
  · subst hut
    rw [Function.update_self]
    exact hcurrent
  · rw [Function.update_of_ne hut]
    apply howned u
    rcases addTimer_timerlist k t with ⟨hlist, -⟩ | hlist
    · exact hlist ▸ hu
    · rw [hlist] at hu
      exact (List.mem_cons.1 hu).resolve_left hut

/-- `timer_set`, `timer_reset` and `timer_restart` write the start and the interval of a timer. -/
structure Sets (k k' : Kernel) : Prop where
  timerlist : k'.timerlist = k.timerlist
  current : k'.current = k.current
  state : k'.state = k.state
  processList : k'.processList = k.processList
  p : ∀ t, (k'.timer t).p = (k.timer t).p

theorem sets_setTimer (k : Kernel) {t : TimerId} {e : Etimer} (he : e.p = (k.timer t).p) :
    Sets k (k.setTimer t e) := by
  refine ⟨rfl, rfl, rfl, rfl, fun u => ?_⟩
  by_cases hu : u = t
  · subst hu
    have hself : (k.setTimer u e).timer u = e := Function.update_self ..
    rw [hself]
    exact he
  · have hother : (k.setTimer t e).timer u = k.timer u := Function.update_of_ne hu ..
    rw [hother]

theorem sets_timerReset (T : Target) (k : Kernel) (t : TimerId) : Sets k (k.timerReset T t) := by
  unfold timerReset
  split
  · exact sets_setTimer k rfl
  · exact ⟨rfl, rfl, rfl, rfl, fun _ => rfl⟩

theorem Sets.owned {k' : Kernel} (h : Sets k k') (howned : k.Owned) : k'.Owned := by
  intro t ht
  rw [h.p t]
  exact howned t (h.timerlist ▸ ht)

end Kernel

namespace KernelOp

variable {T : Target} {k : Kernel} {op : KernelOp}

/-- An operation that starts a timer sets its start or its interval, and adds it. -/
theorem run_starts (h : op.starts = true) :
    ∃ k' t, Kernel.Sets k k' ∧ op.run T k = k'.addTimer t := by
  cases op with
  | etimerSet t interval => exact ⟨k.timerSet T t interval, t, Kernel.sets_setTimer k rfl, rfl⟩
  | etimerReset t => exact ⟨_, t, Kernel.sets_timerReset T k t, rfl⟩
  | etimerRestart t => exact ⟨k.timerRestart T t, t, Kernel.sets_setTimer k rfl, rfl⟩
  | _ => cases h

/-- Any other operation takes timers off the list at most. -/
theorem run_sheds (hnodup : k.timerlist.Nodup) (h : op.starts = false) (htick : op ≠ .tick) :
    Kernel.Sheds k (op.run T k) := by
  cases op with
  | tick => exact absurd rfl htick
  | post p ev data => exact Kernel.Sheds.of_agrees (Kernel.processPost_agrees k T p ev data)
  | poll p => exact Kernel.Sheds.of_agrees (Kernel.processPoll_agrees k p)
  | etimerStop t => exact Kernel.Sheds.etimerStop hnodup t
  | etimerThread ev data => exact Kernel.Sheds.etimerThread T ev data hnodup
  | pollEtimer =>
    have hserve : Kernel.Sheds k k.servePoll := Kernel.Sheds.of_eq rfl rfl rfl
    exact hserve.trans (Kernel.Sheds.etimerThread T .poll .null hnodup)
  | etimerSet t interval => cases h
  | etimerReset t => cases h
  | etimerRestart t => cases h
  | _ => exact Kernel.Sheds.of_eq rfl rfl rfl

theorem run_owned (hnodup : k.timerlist.Nodup) (howned : k.Owned) (hop : op.Allowed k) :
    (op.run T k).Owned := by
  by_cases htick : op = .tick
  · subst htick
    exact howned
  cases hs : op.starts with
  | true =>
    obtain ⟨k', t, hset, hrun⟩ := run_starts (T := T) (k := k) hs
    rw [hrun]
    apply Kernel.addTimer_owned (hset.owned howned)
    rw [hset.current]
    exact hop.1 hs
  | false => exact (run_sheds hnodup hs htick).owned howned

theorem length_run_le (hnodup : k.timerlist.Nodup) :
    (op.run T k).timerlist.length ≤ k.timerlist.length + 1 := by
  by_cases htick : op = .tick
  · subst htick
    exact Nat.le_succ _
  cases hs : op.starts with
  | true =>
    obtain ⟨k', t, hset, hrun⟩ := run_starts (T := T) (k := k) hs
    rw [hrun, ← hset.timerlist]
    rcases Kernel.addTimer_timerlist k' t with ⟨hlist, -⟩ | hlist
    · rw [hlist]
      exact Nat.le_succ _
    · rw [hlist]
      exact le_rfl
  | false => exact (run_sheds hnodup hs htick).timerlist.length_le.trans (Nat.le_succ _)

end KernelOp

/-! ## Runs -/

namespace Represents

variable {T : Target} {m : Memory} {k : Kernel} {rounds : ℕ} (hnarrow : T.numEvents ≤ 128)
include hnarrow

/-- **An operation does on the memory what it does on the lists.** It keeps `next_expiration`, or
brings it up to date; if it starts a timer, it brings it up to date. -/
theorem op (h : Represents T m k) (howned : k.Owned) (hr : k.timerlist.length < rounds)
    (op : KernelOp) :
    ∃ m', op.runMemory T rounds m = some m' ∧ Represents T m' (op.run T k) ∧
      (op.starts = false ∧ m'.nextExpiration = m.nextExpiration ∨
        m'.UpToDate T (op.run T k).timerlist) := by
  -- An operation without a loop.
  have hplain : ∀ {m' k'}, Represents T m' k' → m'.nextExpiration = m.nextExpiration →
      ∃ m'', some m' = some m'' ∧ Represents T m'' k' ∧
        (false = false ∧ m''.nextExpiration = m.nextExpiration ∨ m''.UpToDate T k'.timerlist) :=
    fun h' hnext => ⟨_, rfl, h', Or.inl ⟨rfl, hnext⟩⟩
  -- One that starts a timer.
  have hadd : ∀ {m' k'} t, Represents T m' k' → Kernel.Sets k k' →
      ∃ m'', m'.addTimer T rounds t = some m'' ∧ Represents T m'' (k'.addTimer t) ∧
        (true = false ∧ m''.nextExpiration = m.nextExpiration ∨
          m''.UpToDate T (k'.addTimer t).timerlist) := by
    intro m' k' t h' hset
    rw [← hset.timerlist] at hr
    obtain ⟨m'', heq, hm'', hdate⟩ := h'.addTimer (hset.owned howned) hr t
    exact ⟨m'', heq, hm'', Or.inr hdate⟩
  -- One whose loops leave `next_expiration` alone or update it.
  have hkeep : ∀ {m₀ : Memory} {r : Option Memory} {k'}, m₀.nextExpiration = m.nextExpiration →
      (∃ m', r = some m' ∧ Represents T m' k' ∧
        (m'.nextExpiration = m₀.nextExpiration ∨ m'.UpToDate T k'.timerlist)) →
      ∃ m', r = some m' ∧ Represents T m' k' ∧
        (false = false ∧ m'.nextExpiration = m.nextExpiration ∨ m'.UpToDate T k'.timerlist) := by
    rintro m₀ r k' h₀ ⟨m', heq, hm', hnext⟩
    exact ⟨m', heq, hm', hnext.imp (fun hsame => ⟨rfl, hsame.trans h₀⟩) id⟩
  cases op with
  | takeEvent =>
    refine hplain (h.takeEvent hnarrow) ?_
    unfold Memory.takeEvent
    split <;> rfl
  | post p ev data =>
    obtain ⟨hm, hk⟩ | ⟨m', k', hm, hk, h', -, hnext⟩ := h.processPost hnarrow p ev data
    · simp only [KernelOp.runMemory, KernelOp.run, hm, hk]
      exact hplain h rfl
    · simp only [KernelOp.runMemory, KernelOp.run, hm, hk]
      exact hplain h' hnext
  | poll p =>
    refine hplain (h.processPoll p) ?_
    unfold Memory.processPoll
    split <;> rfl
  | etimerSet t interval => exact hadd t (h.timerSet t interval) (Kernel.sets_setTimer k rfl)
  | etimerReset t => exact hadd t (h.timerReset t) (Kernel.sets_timerReset T k t)
  | etimerRestart t => exact hadd t (h.timerRestart t) (Kernel.sets_setTimer k rfl)
  | etimerStop t => exact hkeep rfl (h.etimerStop hr.le t)
  | etimerThread ev data => exact hkeep rfl (h.etimerThread hnarrow hr ev data)
  | pollEtimer =>
    have hserve : Represents T m.servePoll k.servePoll := by
      obtain ⟨ht, hq, hn⟩ := h
      exact ⟨ht, hq, hn⟩
    exact hkeep rfl (hserve.etimerThread hnarrow hr .poll .null)
  | _ =>
    obtain ⟨ht, hq, hn⟩ := h
    exact hplain ⟨ht, hq, hn⟩ rfl

/-- **The memory goes along with the lists.** The induction is on the operations; each puts one
timer on the list at most, so that as many rounds as operations are enough for every loop. -/
theorem run {k' : Kernel} {ops : List KernelOp} (h : Represents T m k) (howned : k.Owned)
    (ht : Trace T k ops k') (hr : k.timerlist.length + ops.length ≤ rounds) :
    ∃ m', Memory.run T rounds ops m = some m' ∧ Represents T m' k' ∧ k'.Owned := by
  induction ht generalizing m with
  | nil k => exact ⟨m, rfl, h, howned⟩
  | @cons k k' op ops hop _ ih =>
    rw [List.length_cons] at hr
    have hlt : k.timerlist.length < rounds := by omega
    obtain ⟨m', heq, hm', -⟩ := h.op hnarrow howned hlt op
    have hlen : (op.run T k).timerlist.length ≤ k.timerlist.length + 1 :=
      KernelOp.length_run_le h.nodup
    obtain ⟨m'', heq', hm''⟩ := ih hm' (KernelOp.run_owned h.nodup howned hop) (by omega)
    refine ⟨m'', ?_, hm''⟩
    rw [Memory.run, heq]
    exact heq'

end Represents

/-! ## Boot -/

/-- The memory once `etimer_process` has started. What the array of events holds does not matter. -/
def bootMemory (events : ℕ → EventData) : Memory where
  clock := 0
  timer := fun _ => {}
  next := fun _ => none
  timerlist := none
  nextExpiration := 0
  events := events
  fevent := 0
  nevents := 0
  pollRequested := false
  needspoll := fun _ => false
  state := fun p => if p = .etimerProcess then .running else .none
  processList := [.etimerProcess]
  current := none

theorem represents_boot (T : Target) (events : ℕ → EventData) :
    Represents T (bootMemory events) bootKernel :=
  .intro (m := bootMemory events) rfl (Queued.init T.numEvents_pos events) rfl

end WsnAggregation.Contiki
