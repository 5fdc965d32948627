import WsnAggregation.Contiki.Rounds
import WsnAggregation.Lib.WrappingClock

/-!
# Contiki: no timer is overlooked

Nobody looks at the timers until `etimer_process` is polled. The clock interrupt polls it, following
`arch/cpu/msp430/f1xxx/clock.c`: it compares the clock with `next_expiration`, which `update_time`
left behind, and takes what is more than half a turn of the clock ahead for past.

* `next_expiration` may be too early, as when the timers of a process that exits go off the list.
  It is never later than the expiration of a timer that has not expired.
* `ToBePolled` — `etimer_process` needs a poll, and `process_run` will poll it: `poll_requested` is
  set, or `do_poll` is under way and has not come to it yet.
* `no_timer_overlooked` — so it is whenever a timer on the list has expired; and when it has been
  polled, which ends, only a full queue leaves an expired timer on the list.
-/

namespace WsnAggregation.Contiki

open Lib

/-- `MAX_TICKS`. -/
def maxTicks (T : Target) : ℕ := (2 ^ T.clockBits - 1) / 2

namespace Memory

variable (T : Target) (m : Memory)

/-- `etimer_pending`. -/
def etimerPending : Bool := m.timerlist.isSome

/-- `etimer_next_expiration_time`. -/
def etimerNextExpirationTime : ℕ := if m.etimerPending then m.nextExpiration else 0

/-- The clock interrupt, where it counts `d` ticks. -/
def clockInterrupt (d : ℕ) : Memory :=
  let m := { m with clock := m.clock + d }
  let remaining := ((m.etimerNextExpirationTime : ℤ) - m.clockTime T - 1) % 2 ^ T.clockBits
  if m.etimerPending ∧ maxTicks T < remaining.toNat then m.etimerRequestPoll else m

/-- The ticks since a timer was started, as far as the clock can tell. -/
def age (t : TimerId) : ℕ := ahead (2 ^ T.clockBits) (m.timer t).start (m.clockTime T)

/-- The clock has room for these ticks: no timer on the list waits longer than for half a turn of
the clock, and none has been on the list for a whole turn. -/
def Timely (d : ℕ) : Prop :=
  ∀ l, Chained m.next m.timerlist l → ∀ t ∈ l,
    2 * ((m.timer t).interval + d) ≤ 2 ^ T.clockBits ∧ m.age T t + d + 1 < 2 ^ T.clockBits

end Memory

namespace KernelOp

/-- What happens between the interrupts of the clock, but for `do_poll`: a timer is started by a
process, and `etimer_process` stays on the list of processes. -/
structure Regular (m : Memory) (op : KernelOp) : Prop where
  current : op.starts = true → m.current ≠ none
  ne_tick : op ≠ .tick
  ne_clearPollRequested : op ≠ .clearPollRequested
  ne_clear : op ≠ .clearNeedspoll .etimerProcess
  ne_poll : op ≠ .pollEtimer
  ne_exit : op ≠ .setState .etimerProcess .none
  ne_delist : op ≠ .delist .etimerProcess

end KernelOp

/-- The memories that operations and interrupts of the clock lead to from boot. The list is that of
the processes which `do_poll` has still to come to; while it does not run there are none. -/
inductive Reached (T : Target) : List Pid → Memory → Prop
  | boot (events : ℕ → EventData) : Reached T [] (bootMemory events)
  | interrupt {todo : List Pid} {m : Memory} (h : Reached T todo m) (d : ℕ) (ht : m.Timely T d) :
      Reached T todo (m.clockInterrupt T d)
  | op {todo : List Pid} {m m' : Memory} (h : Reached T todo m) (op : KernelOp)
      (hop : op.Regular m) (hend : op.EndsIn T m m') : Reached T todo m'
  /-- `process_run` calls `do_poll`. -/
  | doPoll {m : Memory} (h : Reached T [] m) (hreq : m.pollRequested = true) :
      Reached T m.processList { m with pollRequested := false }
  /-- `do_poll` comes to a process that needs no poll. -/
  | pass {p : Pid} {todo : List Pid} {m : Memory} (h : Reached T (p :: todo) m)
      (hneeds : m.needspoll p = false) : Reached T todo m
  /-- It polls `etimer_process`. -/
  | pollEtimer {todo : List Pid} {m m' : Memory} (h : Reached T (.etimerProcess :: todo) m)
      (hneeds : m.needspoll .etimerProcess = true) (hend : KernelOp.pollEtimer.EndsIn T m m') :
      Reached T todo m'
  /-- It polls another process, which then runs. -/
  | pollOther {p : Pid} {todo : List Pid} {m : Memory} (h : Reached T (p :: todo) m)
      (hp : p ≠ .etimerProcess) (hneeds : m.needspoll p = true) :
      Reached T todo
        { m with
          state := Function.update m.state p .running
          needspoll := Function.update m.needspoll p false }

/-- `etimer_process` is to be polled: by the `do_poll` that is under way and has still to come to
`todo`, or by the next one. -/
def ToBePolled (todo : List Pid) (needspoll : Pid → Bool) (pollRequested : Bool) : Prop :=
  needspoll .etimerProcess = true ∧ (pollRequested = true ∨ .etimerProcess ∈ todo)

/-! ## Timers and the clock -/

section Clock

variable {T : Target}

theorem two_pow_clockBits : ∃ h, (2 : ℕ) ^ T.clockBits = 2 * h ∧ 0 < h := by
  have hfits := T.interval_fits
  have hpos := T.clockSecond_pos
  cases hw : T.clockBits with
  | zero =>
    rw [hw] at hfits
    omega
  | succ w => exact ⟨2 ^ w, by ring, Nat.two_pow_pos w⟩

theorem turn_pos (T : Target) : (0 : ℤ) < 2 ^ T.clockBits := by positivity

/-- Until the clock has made a whole turn, a timer has expired once it is as old as its
interval. -/
theorem expiredAt_iff {now : ℕ} {t : Etimer}
    (h : ahead (2 ^ T.clockBits) t.start now + 1 < 2 ^ T.clockBits) :
    Kernel.expiredAt T now t = true ↔ t.interval ≤ ahead (2 ^ T.clockBits) t.start now := by
  have hadd : ahead (2 ^ T.clockBits) t.start (now + (1 : ℕ)) =
      ahead (2 ^ T.clockBits) t.start now + 1 := ahead_add (turn_pos T) (by exact_mod_cast h)
  have hdiff : (((now : ℤ) - t.start + 1) % 2 ^ T.clockBits).toNat =
      ahead (2 ^ T.clockBits) t.start (now + (1 : ℕ)) := by
    unfold ahead
    congr 2
    push_cast
    ring
  rw [Kernel.expiredAt, decide_eq_true_eq, hdiff, hadd]
  exact Nat.lt_succ_iff

theorem timerExpired_iff {m : Memory} {t : TimerId} (h : m.age T t + 1 < 2 ^ T.clockBits) :
    m.timerExpired T t = true ↔ (m.timer t).interval ≤ m.age T t :=
  expiredAt_iff h

theorem ahead_expiration {t : Etimer} (h : t.interval < 2 ^ T.clockBits) :
    ahead (2 ^ T.clockBits) t.start (t.start + t.interval) = t.interval :=
  ahead_eq (q := 0) (by exact_mod_cast h) (by ring)

/-- The time `update_time` computes for a timer that has not expired. -/
theorem distance_eq {now : ℕ} {t : Etimer} (h : t.interval < 2 ^ T.clockBits)
    (hage : ahead (2 ^ T.clockBits) t.start now ≤ t.interval) :
    Memory.distance T now t = t.interval - ahead (2 ^ T.clockBits) t.start now := by
  have hrest := ahead_of_le (turn_pos T) (b := t.start + t.interval)
    (hage.trans_eq (ahead_expiration h).symm)
  rw [ahead_expiration h] at hrest
  exact hrest

/-- A moment that is not later than the expiration, seen from now, is not later seen from there. -/
theorem ahead_of_upToDate {now d : ℕ} {t : Etimer} (h : t.interval < 2 ^ T.clockBits)
    (hage : ahead (2 ^ T.clockBits) t.start now ≤ t.interval) (hd : d ≤ Memory.distance T now t) :
    ahead (2 ^ T.clockBits) ((now + d) % 2 ^ T.clockBits : ℕ) (t.start + t.interval) ≤
      t.interval := by
  rw [distance_eq h hage] at hd
  have hd' : ahead (2 ^ T.clockBits) now (now + d) = d := by
    refine ahead_eq (q := 0) ?_ (by ring)
    have hlt : d < 2 ^ T.clockBits := by omega
    exact_mod_cast hlt
  have hle : ahead (2 ^ T.clockBits) now (now + d) ≤
      ahead (2 ^ T.clockBits) now (t.start + t.interval) := by
    rw [hd']
    exact hd.trans_eq (distance_eq h hage).symm
  have hrest := ahead_of_le (turn_pos T) hle
  push_cast
  rw [ahead_emod_left (turn_pos T), hrest, hd']
  have hdist : ahead (2 ^ T.clockBits) now (t.start + t.interval) =
      t.interval - ahead (2 ^ T.clockBits) t.start now := distance_eq h hage
  omega

/-- **The interrupt sees an expiration that has just passed**: where `next` is not later than the
expiration of a timer that expires within the `d` ticks counted, it reads as past. -/
theorem maxTicks_lt {clock d next : ℕ} {t : Etimer} (hhalf : 2 * (t.interval + d) ≤ 2 ^ T.clockBits)
    (hnext : ahead (2 ^ T.clockBits) next (t.start + t.interval) ≤ t.interval)
    (hbefore : ahead (2 ^ T.clockBits) t.start clock < t.interval)
    (hafter : t.interval ≤ ahead (2 ^ T.clockBits) t.start clock + d) :
    maxTicks T <
      (((next : ℤ) - ((clock + d) % 2 ^ T.clockBits : ℕ) - 1) % 2 ^ T.clockBits).toNat := by
  obtain ⟨q, hq⟩ := exists_turns (turn_pos T) t.start clock
  obtain ⟨r, hr⟩ := exists_turns (turn_pos T) next (t.start + t.interval)
  generalize ahead (2 ^ T.clockBits) t.start clock = age at hbefore hafter hq
  generalize ahead (2 ^ T.clockBits) next (t.start + t.interval) = c at hnext hr
  obtain ⟨h, hpow, hh⟩ := two_pow_clockBits (T := T)
  -- How long ago `next` was, counting the tick that starts now.
  have hpast : ahead (2 ^ T.clockBits) next (clock + d + 1) = c + (age + d - t.interval) + 1 := by
    have hlt : c + (age + d - t.interval) + 1 < 2 ^ T.clockBits := by omega
    refine ahead_eq (by exact_mod_cast hlt) (q := q + r) ?_
    push_cast [hafter]
    linear_combination hq + hr
  have hpos : 0 < ahead (2 ^ T.clockBits) next (clock + d + 1) := by omega
  have hswap := ahead_swap (turn_pos T) hpos
  rw [hpast] at hswap
  have hsame : (((next : ℤ) - ((clock + d) % 2 ^ T.clockBits : ℕ) - 1) % 2 ^ T.clockBits).toNat =
      ahead (2 ^ T.clockBits) (clock + d + 1) next := by
    rw [← ahead_emod_left (turn_pos T) (a := (clock : ℤ) + d + 1), ← Int.emod_add_emod,
      ahead_emod_left (turn_pos T), ahead]
    push_cast
    congr 2
    ring
  rw [hsame, maxTicks]
  have hcast : ((2 : ℤ) ^ T.clockBits) = ((2 ^ T.clockBits : ℕ) : ℤ) := by push_cast; rfl
  rw [hcast] at hswap ⊢
  omega

end Clock

/-! ## Polls -/

section Requests

variable {todo : List Pid} {p : Pid} {needspoll : Pid → Bool} {pollRequested : Bool}

theorem ToBePolled.of_requested (h : ToBePolled [] needspoll pollRequested) :
    ToBePolled todo needspoll pollRequested :=
  ⟨h.1, Or.inl (h.2.resolve_right List.not_mem_nil)⟩

theorem ToBePolled.pass (h : ToBePolled (p :: todo) needspoll pollRequested)
    (hp : needspoll p = false ∨ p ≠ .etimerProcess) : ToBePolled todo needspoll pollRequested := by
  refine ⟨h.1, h.2.imp_right fun hmem => ?_⟩
  rcases List.mem_cons.1 hmem with rfl | hmem
  · rcases hp with hp | hp
    · rw [h.1] at hp
      cases hp
    · exact absurd rfl hp
  · exact hmem

theorem ToBePolled.mark (h : ToBePolled todo needspoll pollRequested) (p : Pid) :
    ToBePolled todo (Function.update needspoll p true) true := by
  refine ⟨?_, Or.inl rfl⟩
  by_cases hp : Pid.etimerProcess = p
  · subst hp
    exact Function.update_self ..
  · rw [Function.update_of_ne hp]
    exact h.1

theorem ToBePolled.clear (h : ToBePolled todo needspoll pollRequested) (hp : p ≠ .etimerProcess) :
    ToBePolled todo (Function.update needspoll p false) pollRequested := by
  refine ⟨?_, h.2⟩
  rw [Function.update_of_ne hp.symm]
  exact h.1

end Requests

namespace Kernel

variable {T : Target} {todo : List Pid} {k k' : Kernel}

/-- While a timer on the list has expired, `etimer_process` is to be polled. -/
structure Watching (T : Target) (todo : List Pid) (k : Kernel) : Prop where
  running : k.state .etimerProcess ≠ .none
  listed : .etimerProcess ∈ k.processList
  polled : ∀ t ∈ k.timerlist, k.timerExpired T t = true →
    ToBePolled todo k.needspoll k.pollRequested

theorem Sheds.timerExpired (h : Sheds k k') (t : TimerId) :
    k'.timerExpired T t = k.timerExpired T t := by
  rw [Kernel.timerExpired, Kernel.timerExpired, clockTime, clockTime, h.clock]
  exact expiredAt_congr T _ (h.start t) (h.interval t)

theorem Watching.sheds {todo' : List Pid} (h : Watching T todo k) (hs : Sheds k k')
    (hstate : k'.state .etimerProcess ≠ .none) (hlisted : .etimerProcess ∈ k'.processList)
    (hpoll : ToBePolled todo k.needspoll k.pollRequested →
      ToBePolled todo' k'.needspoll k'.pollRequested) : Watching T todo' k' := by
  refine ⟨hstate, hlisted, fun t ht hexp => hpoll ?_⟩
  rw [hs.timerExpired] at hexp
  exact h.polled t (hs.timerlist.subset ht) hexp

theorem toBePolled_processPoll (h : ToBePolled todo k.needspoll k.pollRequested) (p : Pid) :
    ToBePolled todo (k.processPoll p).needspoll (k.processPoll p).pollRequested := by
  unfold processPoll
  split
  · exact h
  · exact h.mark p

theorem toBePolled_etimerRequestPoll (h : k.state .etimerProcess ≠ .none) :
    ToBePolled [] k.etimerRequestPoll.needspoll k.etimerRequestPoll.pollRequested := by
  unfold etimerRequestPoll processPoll
  rw [if_neg h]
  exact ⟨Function.update_self Pid.etimerProcess true k.needspoll, Or.inl rfl⟩

/-- A timer that is started asks for a poll. -/
theorem watching_addTimer (hstate : k.state .etimerProcess ≠ .none)
    (hlisted : .etimerProcess ∈ k.processList) (t : TimerId) : Watching T todo (k.addTimer t) := by
  have ha : Agrees k k.etimerRequestPoll := processPoll_agrees k _
  have hasked := toBePolled_etimerRequestPoll hstate
  rw [← ha.state] at hstate
  rw [← ha.processList] at hlisted
  unfold addTimer
  dsimp only
  split
  · exact ⟨hstate, hlisted, fun _ _ _ => hasked.of_requested⟩
  · exact ⟨hstate, hlisted, fun _ _ _ => hasked.of_requested⟩

theorem length_of_refused {p : Option Pid} {ev : Event} {data : Data}
    (h : k.processPost T p ev data = (k', false)) : k.events.length = T.numEvents := by
  unfold processPost at h
  split at h
  · assumption
  · cases h

/-- A pass of the loop that finds no timer to take off has asked for a poll for every expired one,
because the queue is full. -/
theorem scan_none {l : List TimerId} (hstate : k.state .etimerProcess ≠ .none)
    (h : scan T l k = (k', none)) :
    (ToBePolled [] k.needspoll k.pollRequested → ToBePolled [] k'.needspoll k'.pollRequested) ∧
      ∀ t ∈ l, k.timerExpired T t = true →
        ToBePolled [] k'.needspoll k'.pollRequested ∧ k.events.length = T.numEvents := by
  induction l generalizing k with
  | nil =>
    obtain ⟨rfl, -⟩ := Prod.mk.inj h
    exact ⟨id, fun t ht => by cases ht⟩
  | cons t l ih =>
    unfold scan at h
    by_cases hexp : k.timerExpired T t = true
    · rw [if_pos hexp] at h
      rcases processPost_cases k T (k.timer t).p .timer (.etimer t) with hpost | hpost
      · have ha : Agrees k k.etimerRequestPoll := processPoll_agrees k _
        simp only [hpost] at h
        obtain ⟨hkeep, hrest⟩ := ih (ha.state ▸ hstate) h
        have hpolled := hkeep (toBePolled_etimerRequestPoll hstate)
        have hfull : k.events.length = T.numEvents := length_of_refused hpost
        exact ⟨fun _ => hpolled, fun _ _ _ => ⟨hpolled, hfull⟩⟩
      · simp only [hpost] at h
        cases h
    · rw [if_neg hexp] at h
      obtain ⟨hkeep, hrest⟩ := ih hstate h
      refine ⟨hkeep, fun u hu huexp => ?_⟩
      rcases List.mem_cons.1 hu with rfl | hu
      · exact absurd huexp hexp
      · exact hrest u hu huexp

/-- When `etimer_process` has been polled, only a full queue has left an expired timer on the list,
and another poll is pending. -/
theorem again_polled {n : ℕ} (hn : k.timerlist.length ≤ n)
    (hstate : k.state .etimerProcess ≠ .none) :
    ∀ t ∈ (again T n k).timerlist, (again T n k).timerExpired T t = true →
      ToBePolled [] (again T n k).needspoll (again T n k).pollRequested ∧
        (again T n k).events.length = T.numEvents := by
  induction n generalizing k with
  | zero =>
    have hnil : k.timerlist = [] := List.length_eq_zero_iff.1 (Nat.le_zero.1 hn)
    intro t ht
    rw [again, hnil] at ht
    cases ht
  | succ n ih =>
    unfold again
    obtain ⟨k', ha, ⟨hscan, hev⟩ | ⟨t, ht, hscan, -, -⟩⟩ := scan_cases T k k.timerlist
    · rw [hscan]
      intro t ht hexp
      rw [ha.timerlist] at ht
      rw [ha.timerExpired] at hexp
      rw [hev]
      exact (scan_none hstate hscan).2 t ht hexp
    · rw [hscan]
      refine ih ?_ (ha.state ▸ hstate)
      have herase : (k'.unlink t).timerlist = k.timerlist.erase t := by
        rw [← ha.timerlist]
        rfl
      rw [herase, List.length_erase_of_mem ht]
      omega

theorem again_processes (n : ℕ) (k : Kernel) :
    (again T n k).state = k.state ∧ (again T n k).processList = k.processList := by
  induction n generalizing k with
  | zero => exact ⟨rfl, rfl⟩
  | succ n ih =>
    unfold again
    obtain ⟨k', ha, ⟨hscan, -⟩ | ⟨t, -, hscan, -, -⟩⟩ := scan_cases T k k.timerlist
    · rw [hscan]
      exact ⟨ha.state, ha.processList⟩
    · rw [hscan]
      obtain ⟨hstate, hlist⟩ := ih (k'.unlink t)
      exact ⟨hstate.trans ha.state, hlist.trans ha.processList⟩

/-- A poll of `etimer_process` leaves nothing to do but what waits for room in the queue. -/
theorem watching_poll (hstate : k.state .etimerProcess ≠ .none)
    (hlisted : .etimerProcess ∈ k.processList) (data : Data) :
    Watching T todo (k.etimerThread T .poll data) := by
  obtain ⟨hsame, hlist⟩ := again_processes (T := T) k.timerlist.length k
  have hpolled := again_polled (T := T) le_rfl hstate
  exact ⟨hsame ▸ hstate, hlist ▸ hlisted, fun t ht hexp => (hpolled t ht hexp).1.of_requested⟩

theorem watching_etimerThread (hnodup : k.timerlist.Nodup) (h : Watching T todo k) (ev : Event)
    (data : Data) : Watching T todo (k.etimerThread T ev data) := by
  have hs := Sheds.etimerThread T ev data hnodup
  cases ev with
  | poll => exact watching_poll h.running h.listed data
  | exited =>
    cases data with
    | process p => exact h.sheds hs h.running h.listed id
    | _ => exact h
  | _ => exact h

/-- `do_poll` polls `etimer_process`. -/
theorem watching_pollEtimer (h : Watching T todo k) {todo' : List Pid} :
    Watching T todo' (KernelOp.pollEtimer.run T k) := by
  have hcalled : k.servePoll.state .etimerProcess ≠ .none := by
    simp only [servePoll, Function.update_self]
    simp
  exact watching_poll (k := k.servePoll) hcalled h.listed .null

end Kernel

/-! ## Every operation and every interrupt -/

namespace KernelOp

variable {T : Target} {todo : List Pid} {m : Memory} {k : Kernel} {op : KernelOp}

theorem Regular.allowed (h : op.Regular m) (hrep : Represents T m k) : op.Allowed k :=
  ⟨fun hs => hrep.current ▸ h.current hs, h.ne_clear⟩

theorem run_watching (hnodup : k.timerlist.Nodup) (h : Kernel.Watching T todo k)
    (hop : op.Regular m) : Kernel.Watching T todo (op.run T k) := by
  cases hs : op.starts with
  | true =>
    obtain ⟨k', t, hset, hrun⟩ := run_starts (T := T) (k := k) hs
    rw [hrun]
    exact Kernel.watching_addTimer (hset.state ▸ h.running) (hset.processList ▸ h.listed) t
  | false =>
    have hsheds := run_sheds (T := T) hnodup hs hop.ne_tick
    cases op with
    | tick => exact absurd rfl hop.ne_tick
    | clearPollRequested => exact absurd rfl hop.ne_clearPollRequested
    | pollEtimer => exact absurd rfl hop.ne_poll
    | setState p s =>
      refine h.sheds hsheds ?_ h.listed id
      by_cases hp : Pid.etimerProcess = p
      · subst hp
        have hself : (k.setState .etimerProcess s).state .etimerProcess = s := by
          simp only [Kernel.setState, Function.update_self]
        rw [run, hself]
        rintro rfl
        exact hop.ne_exit rfl
      · have hother : (Kernel.setState k p s).state .etimerProcess = k.state .etimerProcess :=
          Function.update_of_ne hp ..
        rw [run, hother]
        exact h.running
    | clearNeedspoll p =>
      have hp : p ≠ .etimerProcess := by
        rintro rfl
        exact hop.ne_clear rfl
      exact h.sheds hsheds h.running h.listed fun hpoll => hpoll.clear hp
    | enlist p => exact h.sheds hsheds h.running (List.mem_cons_of_mem p h.listed) id
    | delist p =>
      have hp : Pid.etimerProcess ≠ p := by
        rintro rfl
        exact hop.ne_delist rfl
      exact h.sheds hsheds h.running ((List.mem_erase_of_ne hp).2 h.listed) id
    | post p ev data =>
      have ha := Kernel.processPost_agrees k T p ev data
      refine h.sheds hsheds (ha.state ▸ h.running) (ha.processList ▸ h.listed) fun hpoll => ?_
      rcases Kernel.processPost_cases k T p ev data with hpost | hpost
      · rw [run, hpost]
        exact hpoll
      · rw [run, hpost]
        exact hpoll
    | poll p =>
      have ha := Kernel.processPoll_agrees k p
      exact h.sheds hsheds (ha.state ▸ h.running) (ha.processList ▸ h.listed) fun hpoll =>
        Kernel.toBePolled_processPoll hpoll p
    | etimerThread ev data => exact Kernel.watching_etimerThread hnodup h ev data
    | etimerSet t interval => cases hs
    | etimerReset t => cases hs
    | etimerRestart t => cases hs
    | _ => exact h.sheds hsheds h.running h.listed id

end KernelOp

/-- Seen from `next_expiration`, no timer that has not expired is further ahead than from its
start. -/
def Covered (T : Target) (m : Memory) (k : Kernel) : Prop :=
  ∀ t ∈ k.timerlist, (m.timer t).interval < 2 ^ T.clockBits → m.age T t < (m.timer t).interval →
    ahead (2 ^ T.clockBits) m.nextExpiration ((m.timer t).start + (m.timer t).interval) ≤
      (m.timer t).interval

section Covered

variable {T : Target} {m m' : Memory} {k k' : Kernel}

theorem Covered.of_upToDate (h : m.UpToDate T k.timerlist) : Covered T m k := by
  intro t ht hfits hage
  obtain ⟨d, hd, hnext⟩ := h t ht
  rw [hnext]
  exact ahead_of_upToDate hfits hage.le hd

theorem Covered.sheds (h : Covered T m k) (hrep : Represents T m k) (hrep' : Represents T m' k')
    (hs : Kernel.Sheds k k') (hnext : m'.nextExpiration = m.nextExpiration) : Covered T m' k' := by
  intro t ht
  have hclock : m'.clockTime T = m.clockTime T := by
    unfold Memory.clockTime
    rw [← hrep.clock, ← hrep'.clock, hs.clock]
  have hstart : (m'.timer t).start = (m.timer t).start := by
    rw [← hrep.timer, ← hrep'.timer, hs.start]
  have hinterval : (m'.timer t).interval = (m.timer t).interval := by
    rw [← hrep.timer, ← hrep'.timer, hs.interval]
  unfold Memory.age
  rw [hclock, hstart, hinterval, hnext]
  exact h t (hs.timerlist.subset ht)

end Covered

/-- What holds of every memory reached, and of the lists it represents. -/
structure Vigilant (T : Target) (todo : List Pid) (m : Memory) (k : Kernel) : Prop where
  represents : Represents T m k
  owned : k.Owned
  watching : Kernel.Watching T todo k
  covered : Covered T m k

namespace Vigilant

variable {T : Target} {todo todo' : List Pid} {m m' : Memory} {k : Kernel} {op : KernelOp}

theorem boot (T : Target) (events : ℕ → EventData) :
    Vigilant T [] (bootMemory events) bootKernel where
  represents := represents_boot T events
  owned := fun t ht => by cases ht
  watching := ⟨by simp [bootKernel], List.mem_singleton_self _, fun t ht => by cases ht⟩
  covered := fun t ht => by cases ht

/-- An operation after which `etimer_process` is still to be polled if need be. -/
theorem step (hnarrow : T.numEvents ≤ 128) (h : Vigilant T todo m k) (hallowed : op.Allowed k)
    (htick : op ≠ .tick) (hwatching : Kernel.Watching T todo' (op.run T k))
    (hend : op.EndsIn T m m') : Vigilant T todo' m' (op.run T k) := by
  obtain ⟨n, hn⟩ := hend
  have hr : k.timerlist.length < max n (k.timerlist.length + 1) :=
    Nat.lt_of_succ_le (Nat.le_max_right _ _)
  obtain ⟨m'', heq, hrep, hnext⟩ := h.represents.op hnarrow h.owned hr op
  obtain rfl := Option.some.inj ((hn _ (Nat.le_max_left _ _)).symm.trans heq)
  have hnodup := h.represents.nodup
  refine ⟨hrep, KernelOp.run_owned hnodup h.owned hallowed, hwatching, ?_⟩
  rcases hnext with ⟨hs, hsame⟩ | hdate
  · exact h.covered.sheds h.represents hrep (KernelOp.run_sheds hnodup hs htick) hsame
  · exact Covered.of_upToDate hdate

theorem regular (hnarrow : T.numEvents ≤ 128) (h : Vigilant T todo m k) (hop : op.Regular m)
    (hend : op.EndsIn T m m') : Vigilant T todo m' (op.run T k) :=
  h.step hnarrow (hop.allowed h.represents) hop.ne_tick
    (KernelOp.run_watching h.represents.nodup h.watching hop) hend

/-- `do_poll` resets `poll_requested` and has all processes before it. -/
theorem doPoll (hnarrow : T.numEvents ≤ 128) (h : Vigilant T [] m k) :
    Vigilant T m.processList { m with pollRequested := false }
      (KernelOp.clearPollRequested.run T k) := by
  refine h.step hnarrow (KernelOp.allowed_of_not_starts rfl (by simp)) (by simp) ?_
    ⟨0, fun _ _ => rfl⟩
  rw [← h.represents.processList]
  exact h.watching.sheds (Kernel.Sheds.of_eq rfl rfl rfl) h.watching.running h.watching.listed
    fun hpoll => ⟨hpoll.1, Or.inr h.watching.listed⟩

theorem pass {p : Pid} (h : Vigilant T (p :: todo) m k)
    (hp : m.needspoll p = false ∨ p ≠ .etimerProcess) : Vigilant T todo m k := by
  rw [← h.represents.needspoll] at hp
  exact ⟨h.represents, h.owned, h.watching.sheds (Kernel.Sheds.of_eq rfl rfl rfl)
    h.watching.running h.watching.listed fun hpoll => hpoll.pass hp, h.covered⟩

theorem pollEtimer (hnarrow : T.numEvents ≤ 128) (h : Vigilant T todo m k)
    (hend : KernelOp.pollEtimer.EndsIn T m m') :
    Vigilant T todo' m' (KernelOp.pollEtimer.run T k) :=
  h.step hnarrow (KernelOp.allowed_of_not_starts rfl (by simp)) (by simp)
    (Kernel.watching_pollEtimer h.watching) hend

theorem pollOther (hnarrow : T.numEvents ≤ 128) {p : Pid} (h : Vigilant T (p :: todo) m k)
    (hp : p ≠ .etimerProcess) :
    ∃ k', Vigilant T todo
      { m with
        state := Function.update m.state p .running
        needspoll := Function.update m.needspoll p false } k' := by
  have hset : (KernelOp.setState p .running).Regular m :=
    ⟨fun hs => (by cases hs), by simp, by simp, by simp, by simp, by simp, by simp⟩
  have hclear : (KernelOp.clearNeedspoll p).Regular
      { m with state := Function.update m.state p .running } :=
    ⟨fun hs => (by cases hs), by simp, by simp, by simp [hp], by simp, by simp, by simp⟩
  have hrunning := (h.pass (Or.inr hp)).regular hnarrow hset ⟨0, fun _ _ => rfl⟩
  exact ⟨_, hrunning.regular hnarrow hclear ⟨0, fun _ _ => rfl⟩⟩

theorem age_add {t : TimerId} {d : ℕ} (h : m.age T t + d < 2 ^ T.clockBits) :
    Memory.age T { m with clock := m.clock + d } t = m.age T t + d := by
  unfold Memory.age Memory.clockTime at h ⊢
  push_cast at h ⊢
  rw [ahead_emod_right (turn_pos T)] at h ⊢
  rw [ahead_emod_right (turn_pos T)]
  exact ahead_add (turn_pos T) (by exact_mod_cast h)

/-- Once a poll is pending, nothing more is asked of the timers. -/
theorem of_requestPoll (hrep : Represents T m k) (howned : k.Owned)
    (hrunning : k.state .etimerProcess ≠ .none) (hlisted : .etimerProcess ∈ k.processList)
    (hcovered : Covered T m k) : Vigilant T todo m.etimerRequestPoll k.etimerRequestPoll := by
  have ha : Kernel.Agrees k k.etimerRequestPoll := Kernel.processPoll_agrees k _
  have hs := Kernel.Sheds.of_agrees ha
  have hrep' : Represents T m.etimerRequestPoll k.etimerRequestPoll := hrep.processPoll _
  have hnext : m.etimerRequestPoll.nextExpiration = m.nextExpiration := by
    unfold Memory.etimerRequestPoll Memory.processPoll
    split <;> rfl
  have hasked := Kernel.toBePolled_etimerRequestPoll hrunning
  exact ⟨hrep', hs.owned howned,
    ⟨ha.state ▸ hrunning, ha.processList ▸ hlisted, fun _ _ _ => hasked.of_requested⟩,
    hcovered.sheds hrep hrep' hs hnext⟩

/-- **The interrupt asks for a poll when a timer has expired.** -/
theorem interrupt (h : Vigilant T todo m k) {d : ℕ} (ht : m.Timely T d) :
    ∃ k', Vigilant T todo (m.clockInterrupt T d) k' := by
  have htimely := ht k.timerlist h.represents.timers
  have hrep : Represents T { m with clock := m.clock + d } { k with clock := k.clock + d } := by
    obtain ⟨hchain, hq, hn⟩ := h.represents
    exact ⟨hchain, hq, hn⟩
  have hage : ∀ t ∈ k.timerlist,
      Memory.age T { m with clock := m.clock + d } t = m.age T t + d := fun t hmem =>
    age_add (Nat.lt_of_succ_lt (htimely t hmem).2)
  have hcovered : Covered T { m with clock := m.clock + d } { k with clock := k.clock + d } := by
    intro t hmem hfits hlt
    rw [hage t hmem] at hlt
    exact h.covered t hmem hfits (Nat.lt_of_le_of_lt (Nat.le_add_right _ d) hlt)
  unfold Memory.clockInterrupt
  dsimp only
  split
  · exact ⟨_, of_requestPoll hrep h.owned h.watching.running h.watching.listed hcovered⟩
  · rename_i hquiet
    refine ⟨_, hrep, h.owned,
      ⟨h.watching.running, h.watching.listed, fun t hmem hexp => ?_⟩, hcovered⟩
    by_cases hbefore : k.timerExpired T t = true
    · exact h.watching.polled t hmem hbefore
    · -- The timer has expired in these ticks, so the interrupt has asked for a poll.
      obtain ⟨hhalf, hturn⟩ := htimely t hmem
      have hold : m.age T t < (m.timer t).interval := by
        rw [h.represents.timerExpired, timerExpired_iff (by omega)] at hbefore
        exact Nat.lt_of_not_le hbefore
      have hnew : (m.timer t).interval ≤ m.age T t + d := by
        rw [hrep.timerExpired, timerExpired_iff (by rw [hage t hmem]; exact hturn),
          hage t hmem] at hexp
        exact hexp
      have hfits : (m.timer t).interval < 2 ^ T.clockBits := by omega
      have hnext := h.covered t hmem hfits hold
      have hclock : m.age T t = ahead (2 ^ T.clockBits) (m.timer t).start m.clock := by
        unfold Memory.age Memory.clockTime
        push_cast
        exact ahead_emod_right (turn_pos T)
      rw [hclock] at hold hnew
      have hpast := maxTicks_lt hhalf hnext hold hnew
      have hpending : m.timerlist.isSome = true := by
        rw [h.represents.timers.head]
        exact List.isSome_head?.2 (List.ne_nil_of_mem hmem)
      refine absurd ⟨hpending, ?_⟩ hquiet
      have hread : Memory.etimerNextExpirationTime { m with clock := m.clock + d } =
          m.nextExpiration := if_pos hpending
      rw [hread]
      exact hpast

end Vigilant

/-- Whatever memory is reached, the invariant holds of the lists it represents. The induction is on
the steps; each is taken by the lists too. -/
theorem Reached.vigilant {T : Target} (hnarrow : T.numEvents ≤ 128) {todo : List Pid} {m : Memory}
    (h : Reached T todo m) : ∃ k, Vigilant T todo m k := by
  induction h with
  | boot events => exact ⟨bootKernel, Vigilant.boot T events⟩
  | interrupt _ d ht ih =>
    obtain ⟨k, hk⟩ := ih
    exact hk.interrupt ht
  | op _ op hop hend ih =>
    obtain ⟨k, hk⟩ := ih
    exact ⟨_, hk.regular hnarrow hop hend⟩
  | doPoll _ _ ih =>
    obtain ⟨k, hk⟩ := ih
    exact ⟨_, hk.doPoll hnarrow⟩
  | pass _ hneeds ih =>
    obtain ⟨k, hk⟩ := ih
    exact ⟨k, hk.pass (Or.inl hneeds)⟩
  | pollEtimer _ _ hend ih =>
    obtain ⟨k, hk⟩ := ih
    exact ⟨_, hk.pollEtimer hnarrow hend⟩
  | pollOther _ hp _ ih =>
    obtain ⟨k, hk⟩ := ih
    exact hk.pollOther hnarrow hp

/-- Every operation ends, so that a memory reached is never the last one. -/
theorem Reached.ends {T : Target} (hnarrow : T.numEvents ≤ 128) {todo : List Pid} {m : Memory}
    (h : Reached T todo m) (op : KernelOp) : ∃ m', op.EndsIn T m m' := by
  obtain ⟨k, hk⟩ := h.vigilant hnarrow
  exact KernelOp.ends hnarrow hk.represents hk.owned op

/-- **No timer is overlooked**: whatever operations of the kernel and interrupts of the clock
follow each other, as long as the clock has room for the timers on the list, `etimer_process` is to
be polled whenever a timer on the list has expired; and when it is polled, that ends, and then a
timer on the list has expired only where the queue is full. -/
theorem no_timer_overlooked {T : Target} (hnarrow : T.numEvents ≤ 128) {todo : List Pid}
    {m : Memory} (h : Reached T todo m) :
    (∃ l, Chained m.next m.timerlist l ∧ ∀ t ∈ l, m.timerExpired T t = true →
      ToBePolled todo m.needspoll m.pollRequested) ∧
    ∃ m', KernelOp.pollEtimer.EndsIn T m m' ∧ ∃ l, Chained m'.next m'.timerlist l ∧
      ∀ t ∈ l, m'.timerExpired T t = true → m'.nevents = T.numEvents := by
  obtain ⟨k, hk⟩ := h.vigilant hnarrow
  obtain ⟨m', hend⟩ := h.ends hnarrow .pollEtimer
  refine ⟨⟨k.timerlist, hk.represents.timers, fun t ht hexp => ?_⟩, m', hend, ?_⟩
  · rw [← hk.represents.timerExpired] at hexp
    rw [← hk.represents.needspoll, ← hk.represents.pollRequested]
    exact hk.watching.polled t ht hexp
  · have hpolled : Vigilant T [] m' (KernelOp.pollEtimer.run T k) := hk.pollEtimer hnarrow hend
    have hrep := hpolled.represents
    have hcalled : k.servePoll.state .etimerProcess ≠ .none := by
      simp [Kernel.servePoll]
    refine ⟨_, hrep.timers, fun t ht hexp => ?_⟩
    rw [← hrep.timerExpired] at hexp
    rw [hrep.nevents]
    exact (Kernel.again_polled le_rfl hcalled t ht hexp).2

/-- The memory after an operation whose loops make at most one round. -/
def after (op : KernelOp) (m : Memory) : Memory := (op.runMemory .sky 1 m).getD m

/-- The firmware runs, and starts a timer of ten ticks. -/
def started : Memory :=
  after (.etimerSet .app 10)
    (after (.setCurrent (some .app)) (bootMemory fun _ => ⟨.other 0, .null, none⟩))

/-- The poll that this asks for is served. -/
def waiting : Memory := after .pollEtimer { started with pollRequested := false }

theorem reached_started : Reached .sky [] started := by
  have hrunning : Reached .sky [] (after (.setCurrent (some .app))
      (bootMemory fun _ => ⟨.other 0, .null, none⟩)) :=
    (Reached.boot _).op (.setCurrent (some .app))
      ⟨fun hs => (by cases hs), by simp, by simp, by simp, by simp, by simp, by simp⟩
      ⟨0, fun _ _ => rfl⟩
  refine hrunning.op (.etimerSet .app 10)
    ⟨fun _ => ?_, by simp, by simp, by simp, by simp, by simp, by simp⟩ ⟨1, fun rounds hr => ?_⟩
  · exact Option.some_ne_none Pid.app
  · cases rounds with
    | zero => cases hr
    | succ n => rfl

theorem reached_waiting : Reached .sky [] waiting := by
  have hpolling : Reached .sky [.etimerProcess] { started with pollRequested := false } :=
    reached_started.doPoll rfl
  refine hpolling.pollEtimer rfl ⟨1, fun rounds hr => ?_⟩
  obtain _ | _ | n := rounds
  · cases hr
  · rfl
  · rfl

theorem timely_waiting : waiting.Timely .sky 10 := by
  intro l hl t ht
  have hchain : Chained waiting.next waiting.timerlist [.app] := ⟨rfl, rfl⟩
  rw [hl.unique hchain, List.mem_singleton] at ht
  subst ht
  decide

/-- Nothing is to be polled while the timer waits; then the clock makes ten ticks. -/
theorem no_timer_overlooked_waiting :
    waiting.needspoll .etimerProcess = false ∧ waiting.pollRequested = false ∧
      ToBePolled [] (waiting.clockInterrupt .sky 10).needspoll
        (waiting.clockInterrupt .sky 10).pollRequested := by
  obtain ⟨⟨l, hl, hpolled⟩, -⟩ :=
    no_timer_overlooked (by decide) (reached_waiting.interrupt 10 timely_waiting)
  have hchain : Chained (waiting.clockInterrupt .sky 10).next
      (waiting.clockInterrupt .sky 10).timerlist [.app] := ⟨rfl, rfl⟩
  rw [hl.unique hchain] at hpolled
  exact ⟨rfl, rfl, hpolled .app List.mem_cons_self (by decide)⟩

end WsnAggregation.Contiki
