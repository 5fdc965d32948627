import WsnAggregation.Contiki.Memory
import WsnAggregation.Contiki.Quiet

/-!
# Contiki: what the memory represents

The kernel with its timers and its events as lists is what the kernel's memory represents: the
pointers go through the timers of the list one after the other, and the events stand in the array
from `fevent` on. Every operation of the kernel does on its memory what it does on the lists.

* A timer on the list has an owner, which is how `add_timer` sees that it is on the list.
* The index of a new event is computed in eight bits, which is enough for a queue of 128.
-/

namespace WsnAggregation.Contiki

open Lib

/-- The kernel of a memory, with its timers and its events as lists. -/
def Memory.kernel (m : Memory) (timerlist : List TimerId) (events : List EventData) : Kernel where
  clock := m.clock
  timer := m.timer
  timerlist := timerlist
  events := events
  pollRequested := m.pollRequested
  needspoll := m.needspoll
  state := m.state
  processList := m.processList
  current := m.current

theorem foldl_nearer_le {α : Type} (distance : α → ℕ) (l : List α) (b : ℕ) :
    (l.foldl (fun b a => if distance a < b then distance a else b) b ≤ b) ∧
      ∀ a ∈ l, l.foldl (fun b a => if distance a < b then distance a else b) b ≤ distance a := by
  induction l generalizing b with
  | nil => exact ⟨le_rfl, fun a ha => by cases ha⟩
  | cons c l ih =>
    obtain ⟨hb, hl⟩ := ih (if distance c < b then distance c else b)
    have hmin : (if distance c < b then distance c else b) ≤ b ∧
        (if distance c < b then distance c else b) ≤ distance c := by
      split <;> omega
    refine ⟨hb.trans hmin.1, fun a ha => ?_⟩
    rcases List.mem_cons.1 ha with rfl | ha
    · exact hb.trans hmin.2
    · exact hl a ha

/-- Seen from now, `next_expiration` is not later than the expiration of any of these timers. -/
def Memory.UpToDate (T : Target) (m : Memory) (l : List TimerId) : Prop :=
  ∀ t ∈ l, ∃ d ≤ distance T (m.clockTime T) (m.timer t),
    m.nextExpiration = (m.clockTime T + d) % 2 ^ T.clockBits

/-- `update_time` writes `next_expiration` only, and brings it up to date. -/
theorem Memory.updateTime_spec (T : Target) {m : Memory} {l : List TimerId} {rounds : ℕ}
    (h : Chained m.next m.timerlist l) (hr : l.length ≤ rounds) :
    ∃ e, m.updateTime T rounds = some { m with nextExpiration := e } ∧
      UpToDate T { m with nextExpiration := e } l := by
  cases l with
  | nil =>
    refine ⟨0, ?_, fun t ht => by cases ht⟩
    unfold updateTime
    split
    · rfl
    · rename_i t hlist
      rw [Chained.nil_iff.1 h] at hlist
      cases hlist
  | cons t l =>
    obtain ⟨hhead, htail⟩ := h
    have hnearest := foldl_nearer_le
      (fun u => distance T (m.clockTime T) (m.timer u)) l (distance T (m.clockTime T) (m.timer t))
    generalize hd : l.foldl _ _ = d at hnearest
    refine ⟨(m.clockTime T + d) % 2 ^ T.clockBits, ?_, fun u hu => ⟨d, ?_, rfl⟩⟩
    · unfold updateTime
      split
      · rename_i hlist
        rw [hhead] at hlist
        cases hlist
      · rename_i u hlist
        obtain rfl := Option.some.inj (hhead.symm.trans hlist)
        dsimp only
        rw [htail.foldLoop_eq _ _ (Nat.le_of_succ_le hr), hd]
        rfl
    · rcases List.mem_cons.1 hu with rfl | hu
      · exact hnearest.1
      · exact hnearest.2 u hu

/-- The memory holds the timers and the events of the kernel. -/
inductive Represents (T : Target) (m : Memory) : Kernel → Prop
  | intro {timerlist : List TimerId} {events : List EventData}
      (timers : Chained m.next m.timerlist timerlist)
      (queue : Queued T.numEvents m.events m.fevent events)
      (nevents : m.nevents = events.length) : Represents T m (m.kernel timerlist events)

/-- Every timer on the list has an owner. -/
def Kernel.Owned (k : Kernel) : Prop := ∀ t ∈ k.timerlist, (k.timer t).p ≠ none

/-- Timers have gone off the list, and no others have changed. -/
structure Kernel.Sheds (k k' : Kernel) : Prop where
  clock : k'.clock = k.clock
  start : ∀ t, (k'.timer t).start = (k.timer t).start
  interval : ∀ t, (k'.timer t).interval = (k.timer t).interval
  timerlist : k'.timerlist.Sublist k.timerlist
  p : ∀ t ∈ k'.timerlist, (k'.timer t).p = (k.timer t).p

namespace Kernel.Sheds

variable {k k' k'' : Kernel}

theorem of_eq (hclock : k'.clock = k.clock) (htimer : k'.timer = k.timer)
    (hlist : k'.timerlist = k.timerlist) : Sheds k k' :=
  ⟨hclock, fun t => by rw [htimer], fun t => by rw [htimer], hlist ▸ List.Sublist.refl _,
    fun t _ => by rw [htimer]⟩

theorem trans (h : Sheds k k') (h' : Sheds k' k'') : Sheds k k'' :=
  ⟨h'.clock.trans h.clock, fun t => (h'.start t).trans (h.start t),
    fun t => (h'.interval t).trans (h.interval t), h'.timerlist.trans h.timerlist,
    fun t ht => (h'.p t ht).trans (h.p t (h'.timerlist.subset ht))⟩

theorem of_agrees (h : Agrees k k') : Sheds k k' := of_eq h.clock h.timer h.timerlist

theorem owned (h : Sheds k k') (howned : k.Owned) : k'.Owned := by
  intro t ht
  rw [h.p t ht]
  exact howned t (h.timerlist.subset ht)

theorem etimerStop (hnodup : k.timerlist.Nodup) (t : TimerId) : Sheds k (k.etimerStop t) := by
  have htimer : ∀ u, u ≠ t → (k.etimerStop t).timer u = k.timer u := fun u hu =>
    Function.update_of_ne hu _ _
  have htime : ∀ u, ((k.etimerStop t).timer u).start = (k.timer u).start ∧
      ((k.etimerStop t).timer u).interval = (k.timer u).interval := by
    intro u
    by_cases hu : u = t
    · subst hu
      simp [Kernel.etimerStop, Kernel.setTimer]
    · rw [htimer u hu]
      exact ⟨rfl, rfl⟩
  refine ⟨rfl, fun u => (htime u).1, fun u => (htime u).2, List.erase_sublist, fun u hu => ?_⟩
  rw [htimer u (hnodup.mem_erase_iff.1 hu).1]

theorem again (T : Target) (n : ℕ) (hnodup : k.timerlist.Nodup) :
    Sheds k (Kernel.again T n k) := by
  induction n generalizing k with
  | zero => exact of_eq rfl rfl rfl
  | succ n ih =>
    unfold Kernel.again
    obtain ⟨k', ha, ⟨hscan, -⟩ | ⟨t, -, hscan, -, -⟩⟩ := scan_cases T k k.timerlist
    · rw [hscan]
      exact of_agrees ha
    · rw [hscan]
      rw [← ha.timerlist] at hnodup
      have hstop := etimerStop hnodup t
      exact ((of_agrees ha).trans hstop).trans (ih (hnodup.sublist hstop.timerlist))

theorem etimerThread (T : Target) (ev : Event) (data : Data) (hnodup : k.timerlist.Nodup) :
    Sheds k (k.etimerThread T ev data) := by
  unfold Kernel.etimerThread
  split
  · exact ⟨rfl, fun _ => rfl, fun _ => rfl, List.filter_sublist, fun _ _ => rfl⟩
  · exact again T _ hnodup
  · exact of_eq rfl rfl rfl

end Kernel.Sheds

namespace Represents

variable {T : Target} {m : Memory} {k : Kernel}

theorem clock (h : Represents T m k) : k.clock = m.clock := by
  cases h
  rfl

theorem timer (h : Represents T m k) : k.timer = m.timer := by
  cases h
  rfl

theorem state (h : Represents T m k) : k.state = m.state := by
  cases h
  rfl

theorem needspoll (h : Represents T m k) : k.needspoll = m.needspoll := by
  cases h
  rfl

theorem pollRequested (h : Represents T m k) : k.pollRequested = m.pollRequested := by
  cases h
  rfl

theorem processList (h : Represents T m k) : k.processList = m.processList := by
  cases h
  rfl

theorem current (h : Represents T m k) : k.current = m.current := by
  cases h
  rfl

theorem timers (h : Represents T m k) : Chained m.next m.timerlist k.timerlist := by
  cases h with
  | intro timers queue nevents => exact timers

theorem queue (h : Represents T m k) : Queued T.numEvents m.events m.fevent k.events := by
  cases h with
  | intro timers queue nevents => exact queue

theorem nevents (h : Represents T m k) : m.nevents = k.events.length := by
  cases h with
  | intro timers queue nevents => exact nevents

theorem nodup (h : Represents T m k) : k.timerlist.Nodup := h.timers.nodup

theorem timerExpired (h : Represents T m k) (t : TimerId) :
    k.timerExpired T t = m.timerExpired T t := by
  cases h
  rfl

theorem setTimer (h : Represents T m k) (t : TimerId) (e : Etimer) :
    Represents T (m.setTimer t e) (k.setTimer t e) := by
  obtain ⟨ht, hq, hn⟩ := h
  exact ⟨ht, hq, hn⟩

theorem timerSet (h : Represents T m k) (t : TimerId) (interval : ℕ) :
    Represents T (m.timerSet T t interval) (k.timerSet T t interval) := by
  obtain ⟨ht, hq, hn⟩ := h
  exact ⟨ht, hq, hn⟩

theorem timerRestart (h : Represents T m k) (t : TimerId) :
    Represents T (m.timerRestart T t) (k.timerRestart T t) := by
  obtain ⟨ht, hq, hn⟩ := h
  exact ⟨ht, hq, hn⟩

theorem timerReset (h : Represents T m k) (t : TimerId) :
    Represents T (m.timerReset T t) (k.timerReset T t) := by
  unfold Kernel.timerReset Memory.timerReset
  rw [h.timerExpired, h.timer]
  split
  · exact h.setTimer t _
  · exact h

theorem processPoll (h : Represents T m k) (p : Pid) :
    Represents T (m.processPoll p) (k.processPoll p) := by
  unfold Kernel.processPoll Memory.processPoll
  rw [h.state]
  split
  · exact h
  · obtain ⟨ht, hq, hn⟩ := h
    exact ⟨ht, hq, hn⟩

/-! ## The event queue -/

theorem firstEvent (h : Represents T m k) : m.firstEvent = k.events.head? := by
  unfold Memory.firstEvent
  rw [h.nevents]
  have hq := h.queue
  cases hev : k.events with
  | nil => rfl
  | cons e q =>
    have hpos : 0 < (e :: q).length := Nat.succ_pos _
    rw [hev] at hq
    rw [if_pos hpos, hq.front]
    rfl

section Narrow

variable (hnarrow : T.numEvents ≤ 128)
include hnarrow

/-- Both queues refuse an event, or both take it. -/
theorem processPost (h : Represents T m k) (p : Option Pid) (ev : Event) (data : Data) :
    (m.processPost T p ev data = (m, false) ∧ k.processPost T p ev data = (k, false)) ∨
      ∃ m' k', m.processPost T p ev data = (m', true) ∧ k.processPost T p ev data = (k', true) ∧
        Represents T m' k' ∧ k'.timerlist = k.timerlist ∧ m'.nextExpiration = m.nextExpiration := by
  obtain ⟨ht, hq, hn⟩ := h
  rename_i l q
  unfold Kernel.processPost Memory.processPost
  have hevents : (m.kernel l q).events = q := rfl
  rw [hn, hevents]
  split
  · exact Or.inl ⟨rfl, rfl⟩
  · rename_i hfull
    have hroom : q.length < T.numEvents := Nat.lt_of_le_of_ne hq.length_le hfull
    have hfirst := hq.first_lt
    -- Neither the index nor the number of events is cut off.
    have hindex : Memory.toNumEvents (m.fevent + q.length) = m.fevent + q.length :=
      Nat.mod_eq_of_lt (by omega)
    have hcount : Memory.toNumEvents (q.length + 1) = (q ++ [EventData.mk ev data p]).length := by
      rw [List.length_append, List.length_singleton]
      exact Nat.mod_eq_of_lt (by omega)
    dsimp only
    rw [hindex]
    exact Or.inr ⟨_, _, rfl, rfl, ⟨ht, hq.push hroom _, hcount⟩, rfl, rfl⟩

theorem takeEvent (h : Represents T m k) :
    Represents T (m.takeEvent T) { k with events := k.events.tail } := by
  obtain ⟨ht, hq, hn⟩ := h
  rename_i l q
  unfold Memory.takeEvent
  cases q with
  | nil =>
    rw [if_neg (by rw [hn]; exact Nat.lt_irrefl 0)]
    exact ⟨ht, hq, hn⟩
  | cons e q =>
    have hlt : (m.fevent + 1) % T.numEvents < T.numEvents := Nat.mod_lt _ T.numEvents_pos
    have hfirst : Memory.toNumEvents ((m.fevent + 1) % T.numEvents) =
        (m.fevent + 1) % T.numEvents := Nat.mod_eq_of_lt (by omega)
    rw [if_pos (by rw [hn]; exact Nat.succ_pos _), hfirst, hn]
    exact ⟨ht, hq.pop, rfl⟩

end Narrow

/-! ## Event timers -/

variable {rounds : ℕ}

/-- `next_expiration` stays up to date when timers go off the list. -/
theorem upToDate_sheds {m' : Memory} {k' : Kernel} (h : Represents T m k)
    (h' : Represents T m' k') (hdate : m.UpToDate T k.timerlist) (hs : Kernel.Sheds k k')
    (hnext : m'.nextExpiration = m.nextExpiration) : m'.UpToDate T k'.timerlist := by
  intro t ht
  obtain ⟨d, hd, heq⟩ := hdate t (hs.timerlist.subset ht)
  have hclock : m'.clockTime T = m.clockTime T := by
    unfold Memory.clockTime
    rw [← h.clock, ← h'.clock, hs.clock]
  have hdist : Memory.distance T (m'.clockTime T) (m'.timer t) =
      Memory.distance T (m.clockTime T) (m.timer t) := by
    unfold Memory.distance
    rw [hclock, ← h.timer, ← h'.timer, hs.start, hs.interval]
  refine ⟨d, ?_, ?_⟩
  · rw [hdist]
    exact hd
  · rw [hnext, hclock]
    exact heq

/-- Only the clock interrupt looks at `next_expiration`. -/
theorem setNextExpiration (h : Represents T m k) (e : ℕ) :
    Represents T { m with nextExpiration := e } k := by
  obtain ⟨ht, hq, hn⟩ := h
  exact ⟨ht, hq, hn⟩

theorem updateTime (h : Represents T m k) (hr : k.timerlist.length ≤ rounds) :
    ∃ m', m.updateTime T rounds = some m' ∧ Represents T m' k ∧ m'.UpToDate T k.timerlist := by
  obtain ⟨e, he, hdate⟩ := Memory.updateTime_spec T h.timers hr
  exact ⟨_, he, h.setNextExpiration e, hdate⟩

theorem addTimer (h : Represents T m k) (howned : k.Owned) (hr : k.timerlist.length < rounds)
    (t : TimerId) : ∃ m', m.addTimer T rounds t = some m' ∧ Represents T m' (k.addTimer t) ∧
      m'.UpToDate T (k.addTimer t).timerlist := by
  have hpoll : Represents T m.etimerRequestPoll k.etimerRequestPoll := h.processPoll _
  have hsame : Kernel.Agrees k k.etimerRequestPoll := Kernel.processPoll_agrees k _
  rw [← hsame.timerlist] at hr
  have howned' : k.etimerRequestPoll.Owned := by
    intro t ht
    rw [hsame.timer]
    exact howned t (hsame.timerlist ▸ ht)
  unfold Memory.addTimer Kernel.addTimer
  generalize m.etimerRequestPoll = m at hpoll
  generalize k.etimerRequestPoll = k at hpoll hr howned'
  have hset := hpoll.setTimer t { m.timer t with p := m.current }
  dsimp only
  rw [hpoll.timer, hpoll.current]
  by_cases hlisted : t ∈ k.timerlist
  · -- The timer has an owner, so the loop looks for it and finds it.
    have hp : (m.timer t).p ≠ none := by
      rw [← hpoll.timer]
      exact howned' t hlisted
    have hfind : ∃ u, k.timerlist.find? (fun u => decide (u = t)) = some u := by
      rw [← Option.isSome_iff_exists, List.find?_isSome]
      exact ⟨t, hlisted, decide_eq_true rfl⟩
    obtain ⟨u, hu⟩ := hfind
    rw [if_pos hp, hpoll.timers.searchLoop_eq _ hr.le, hu, if_pos ⟨hp, hlisted⟩]
    exact hset.updateTime hr.le
  · have hfound : (if (m.timer t).p ≠ none then
        searchLoop m.next (fun u => decide (u = t)) rounds m.timerlist else some none) =
        some none := by
      split
      · rw [hpoll.timers.searchLoop_eq _ hr.le, List.find?_eq_none.2]
        intro u hu hut
        exact hlisted (of_decide_eq_true hut ▸ hu)
      · rfl
    rw [hfound, if_neg fun hboth => hlisted hboth.2]
    have hpush : Represents T
        { m.setTimer t { m.timer t with p := m.current } with
          next := Function.update m.next t m.timerlist
          timerlist := some t }
        { k.setTimer t { m.timer t with p := m.current } with timerlist := t :: k.timerlist } := by
      obtain ⟨ht, hq, hn⟩ := hpoll
      exact ⟨ht.push hlisted, hq, hn⟩
    exact hpush.updateTime hr

/-- The timer at the front goes off the list, or the pointer before it is led past it. -/
theorem unlinkFirst {t : TimerId} {l : List TimerId} (h : Represents T m k)
    (hlist : k.timerlist = t :: l) :
    Represents T { m with timerlist := m.next t } { k with timerlist := k.timerlist.erase t } := by
  obtain ⟨ht, hq, hn⟩ := h
  dsimp only [Memory.kernel] at hlist
  subst hlist
  have herase : (t :: l).erase t = l := List.erase_cons_head t l
  dsimp only [Memory.kernel]
  rw [herase]
  exact ⟨ht.2, hq, hn⟩

theorem unlinkAfter {t u : TimerId} {l₁ l₂ : List TimerId} (h : Represents T m k)
    (hlist : k.timerlist = l₁ ++ u :: t :: l₂) :
    Represents T { m with next := Function.update m.next u (m.next t) }
      { k with timerlist := k.timerlist.erase t } := by
  obtain ⟨ht, hq, hn⟩ := h
  dsimp only [Memory.kernel] at hlist
  subst hlist
  have hnot : t ∉ l₁ ++ [u] := by
    have hnodup := ht.nodup
    rw [List.append_cons] at hnodup
    exact fun hmem => List.disjoint_of_nodup_append hnodup hmem List.mem_cons_self
  have herase : (l₁ ++ u :: t :: l₂).erase t = l₁ ++ u :: l₂ := by
    rw [List.append_cons, List.erase_append_right _ hnot, List.erase_cons_head, ← List.append_cons]
  dsimp only [Memory.kernel]
  rw [herase]
  exact ⟨ht.unlink, hq, hn⟩

theorem release (h : Represents T m k) {t : TimerId} (ht : t ∉ k.timerlist) :
    Represents T (m.release t) (k.setTimer t { k.timer t with p := none }) := by
  obtain ⟨hchain, hq, hn⟩ := h
  exact ⟨hchain.update ht none, hq, hn⟩

/-- Taking the timer off the list is all of `etimer_stop` but the end. -/
theorem etimerStop_of_unlinked (h : Represents T m k) {t : TimerId} {unlinked : Option Memory}
    (hu : ∃ m', unlinked = some m' ∧
      Represents T m' { k with timerlist := k.timerlist.erase t } ∧
      (m'.nextExpiration = m.nextExpiration ∨ m'.UpToDate T (k.timerlist.erase t))) :
    ∃ m', (unlinked.map fun m => m.release t) = some m' ∧ Represents T m' (k.etimerStop t) ∧
      (m'.nextExpiration = m.nextExpiration ∨ m'.UpToDate T (k.etimerStop t).timerlist) := by
  obtain ⟨m', rfl, hm', hnext⟩ := hu
  have hnot : t ∉ k.timerlist.erase t := fun hmem => (h.nodup.mem_erase_iff.1 hmem).1 rfl
  refine ⟨_, rfl, hm'.release hnot, hnext.imp id fun hdate u hu => ?_⟩
  have htimer : (m'.release t).timer u = m'.timer u := by
    refine Function.update_of_ne ?_ _ _
    rintro rfl
    exact hnot hu
  rw [htimer]
  exact hdate u hu

theorem etimerStop (h : Represents T m k) (hr : k.timerlist.length ≤ rounds) (t : TimerId) :
    ∃ m', m.etimerStop T rounds t = some m' ∧ Represents T m' (k.etimerStop t) ∧
      (m'.nextExpiration = m.nextExpiration ∨ m'.UpToDate T (k.etimerStop t).timerlist) := by
  have herased : ({ k with timerlist := k.timerlist.erase t } : Kernel).timerlist.length ≤ rounds :=
    (List.length_erase_le).trans hr
  unfold Memory.etimerStop
  apply h.etimerStop_of_unlinked
  have hhead := h.timers.head
  by_cases hmem : t ∈ k.timerlist
  · obtain ⟨l₁, l₂, hlist⟩ := List.append_of_mem hmem
    rcases List.eq_nil_or_concat l₁ with rfl | ⟨l₁, u, rfl⟩
    · have hfirst : m.timerlist = some t := by
        rw [hhead, hlist]
        rfl
      rw [if_pos hfirst]
      obtain ⟨m', heq, hm', hdate⟩ := (h.unlinkFirst hlist).updateTime herased
      exact ⟨m', heq, hm', Or.inr hdate⟩
    · rw [List.concat_eq_append, List.append_assoc, List.singleton_append] at hlist
      have hsearch := h.timers.searchLoop_eq (fun u => m.next u = some t) hr
      have htimers := h.timers
      rw [hlist] at htimers
      have hne : m.timerlist ≠ some t := by
        intro hfirst
        have hnodup := htimers.nodup
        rw [htimers.head] at hfirst
        cases l₁ with
        | nil =>
          obtain rfl := Option.some.inj hfirst
          exact (List.nodup_cons.1 hnodup).1 List.mem_cons_self
        | cons c l₁ =>
          obtain rfl := Option.some.inj hfirst
          exact (List.nodup_cons.1 hnodup).1
            (List.mem_append_right _ (List.mem_cons_of_mem _ List.mem_cons_self))
      rw [hlist, htimers.find?_before] at hsearch
      rw [if_neg hne, hsearch]
      obtain ⟨m', heq, hm', hdate⟩ := (h.unlinkAfter hlist).updateTime herased
      exact ⟨m', heq, hm', Or.inr hdate⟩
  · have hne : m.timerlist ≠ some t := by
      intro hfirst
      rw [hfirst] at hhead
      exact hmem (List.mem_of_mem_head? hhead.symm)
    have hnone : k.timerlist.find? (fun u => decide (m.next u = some t)) = none := by
      rw [List.find?_eq_none]
      intro u hu hnext
      exact hmem (h.timers.next_mem hu (of_decide_eq_true hnext))
    rw [if_neg hne, h.timers.searchLoop_eq _ hr, hnone, List.erase_of_not_mem hmem]
    exact ⟨m, rfl, h, Or.inl rfl⟩

/-! ## The timer process -/

theorem dropTimers (h : Represents T m k) (hr : k.timerlist.length ≤ rounds) (p : Pid) :
    ∃ m', m.dropTimers rounds p = some m' ∧
      Represents T m'
        { k with timerlist := k.timerlist.filter fun t => (k.timer t).p ≠ some p } ∧
      m'.nextExpiration = m.nextExpiration := by
  unfold Memory.dropTimers
  rw [h.timers.searchLoop_eq _ hr, h.timer]
  obtain ⟨ht, hq, hn⟩ := h
  rename_i l q
  dsimp only [Memory.kernel] at hr ⊢
  cases hfind : l.find? fun t => decide ((m.timer t).p ≠ some p) with
  | none =>
    have hfilter : (l.filter fun t => decide ((m.timer t).p ≠ some p)) = [] :=
      List.filter_eq_nil_iff.2 (List.find?_eq_none.1 hfind)
    rw [hfilter]
    exact ⟨_, rfl, ⟨rfl, hq, hn⟩, rfl⟩
  | some t =>
    obtain ⟨hstay, l₁, l₂, rfl, hgo⟩ := List.find?_eq_some_iff_append.1 hfind
    have hfilter : ((l₁ ++ t :: l₂).filter fun t => decide ((m.timer t).p ≠ some p)) =
        t :: l₂.filter fun t => !decide ((m.timer t).p = some p) := by
      have hfirst : (l₁.filter fun t => decide ((m.timer t).p ≠ some p)) = [] := by
        rw [List.filter_eq_nil_iff]
        intro a ha hp
        have hnot := hgo a ha
        rw [hp] at hnot
        cases hnot
      rw [List.filter_append, hfirst, List.nil_append, List.filter_cons, if_pos hstay]
      simp only [ne_eq, decide_not]
    have hlen : l₂.length ≤ rounds := by
      rw [List.length_append, List.length_cons] at hr
      omega
    have hnot : t ∉ l₂ := (List.nodup_cons.1 (List.nodup_append.1 ht.nodup).2.1).1
    obtain ⟨next', heq, hchain, -⟩ :=
      ht.tail.removeLoop_eq hnot (fun u => decide ((m.timer u).p = some p)) hlen
    rw [hfilter]
    dsimp only [Option.bind]
    rw [heq]
    exact ⟨_, rfl, ⟨⟨rfl, hchain⟩, hq, hn⟩, rfl⟩

/-- A timer whose event is posted goes off the list. -/
theorem takeOff (h : Represents T m k) {l₁ l₂ : List TimerId} {t : TimerId}
    (hlist : k.timerlist = l₁ ++ t :: l₂) (hr : k.timerlist.length ≤ rounds) :
    ∃ m', (m.takeOff l₁.getLast? t).updateTime T rounds = some m' ∧
      Represents T m' (k.unlink t) ∧ m'.UpToDate T (k.unlink t).timerlist := by
  have hnot : t ∉ k.timerlist.erase t := fun hmem => (h.nodup.mem_erase_iff.1 hmem).1 rfl
  have herased : (k.unlink t).timerlist.length ≤ rounds := (List.length_erase_le).trans hr
  have hoff : Represents T (m.takeOff l₁.getLast? t) (k.unlink t) := by
    rcases List.eq_nil_or_concat l₁ with rfl | ⟨l₁, u, rfl⟩
    · exact (h.unlinkFirst hlist).release hnot
    · rw [List.concat_eq_append, List.append_assoc, List.singleton_append] at hlist
      rw [List.concat_eq_append, List.getLast?_concat]
      exact (h.unlinkAfter hlist).release hnot
  exact hoff.updateTime herased

section Narrow

variable (hnarrow : T.numEvents ≤ 128)
include hnarrow

/-- The `for` loop, from the middle of the list on, finds what the pass over the rest of the list
finds. The induction is on the rest of the list. -/
theorem scan {l₁ l₂ : List TimerId} (h : Represents T m k) (hlist : k.timerlist = l₁ ++ l₂)
    (hr : k.timerlist.length ≤ rounds) {n : ℕ} (hn : l₂.length ≤ n) :
    ∃ m', Memory.scan T rounds n l₁.getLast? l₂.head? m =
        some (m', (Kernel.scan T l₂ k).2.isSome) ∧
      match (Kernel.scan T l₂ k).2 with
      | none => Represents T m' (Kernel.scan T l₂ k).1 ∧ m'.nextExpiration = m.nextExpiration
      | some t => Represents T m' ((Kernel.scan T l₂ k).1.unlink t) ∧
          m'.UpToDate T ((Kernel.scan T l₂ k).1.unlink t).timerlist := by
  induction l₂ generalizing l₁ m k n with
  | nil =>
    refine ⟨m, ?_, h, rfl⟩
    cases n <;> rfl
  | cons t l₂ ih =>
    cases n with
    | zero => cases hn
    | succ n =>
      have hn' : l₂.length ≤ n := Nat.le_of_succ_le_succ hn
      have hnext : ∀ {m' k'}, Represents T m' k' → k'.timerlist = l₁ ++ t :: l₂ →
          m'.next t = l₂.head? := by
        intro m' k' h' hlist'
        have hchain := h'.timers
        rw [hlist'] at hchain
        exact hchain.tail.head
      have hlast : some t = (l₁ ++ [t]).getLast? := List.getLast?_concat.symm
      unfold Kernel.scan
      simp only [List.head?_cons, Memory.scan]
      rw [← h.timerExpired]
      by_cases hexp : k.timerExpired T t = true
      · rw [if_pos hexp, if_pos hexp]
        have hp : (m.timer t).p = (k.timer t).p := by rw [h.timer]
        rw [hp]
        obtain ⟨hm, hk⟩ | ⟨m', k', hm, hk, h', hlist', -⟩ :=
          h.processPost hnarrow (k.timer t).p .timer (.etimer t)
        · -- The queue is full: the timer stays on the list.
          simp only [hm, hk]
          have hpolled : Represents T m.etimerRequestPoll k.etimerRequestPoll := h.processPoll _
          have hsame : k.etimerRequestPoll.timerlist = k.timerlist :=
            (Kernel.processPoll_agrees k _).timerlist
          have hkept : m.etimerRequestPoll.nextExpiration = m.nextExpiration := by
            unfold Memory.etimerRequestPoll Memory.processPoll
            split <;> rfl
          rw [hnext h hlist, hlast, ← hkept]
          rw [← hsame] at hlist hr
          exact ih hpolled (by rw [hlist, List.append_assoc]; rfl) hr hn'
        · simp only [hm, hk]
          rw [← hlist'] at hr
          obtain ⟨m'', heq, hm'', hdate⟩ := h'.takeOff (hlist'.trans hlist) hr
          rw [heq]
          exact ⟨m'', rfl, hm'', hdate⟩
      · rw [if_neg hexp, if_neg hexp, hnext h hlist, hlast]
        exact ih h (by rw [hlist, List.append_assoc]; rfl) hr hn'

/-- The rounds of the loop around it. The induction is on the number of timers on the list. -/
theorem again (h : Represents T m k) (hr : k.timerlist.length ≤ rounds) {n : ℕ}
    (hn : k.timerlist.length < n) :
    ∃ m', Memory.again T rounds n m = some m' ∧
      Represents T m' (Kernel.again T k.timerlist.length k) ∧
      (m'.nextExpiration = m.nextExpiration ∨
        m'.UpToDate T (Kernel.again T k.timerlist.length k).timerlist) := by
  generalize hlen : k.timerlist.length = len at hn
  induction len generalizing m k n with
  | zero =>
    cases n with
    | zero => cases hn
    | succ n =>
      have hnil := List.length_eq_zero_iff.1 hlen
      have hnone : m.timerlist = none := by
        rw [h.timers.head, hnil]
        rfl
      unfold Memory.again
      rw [hnone]
      refine ⟨m, ?_, h, Or.inl rfl⟩
      cases rounds <;> rfl
  | succ len ih =>
    cases n with
    | zero => cases hn
    | succ n =>
      obtain ⟨m', heq, hm'⟩ := h.scan hnarrow (List.nil_append _).symm hr hr
      unfold Memory.again Kernel.again
      rw [h.timers.head]
      rw [List.getLast?_nil] at heq
      rw [heq]
      obtain ⟨k', ha, ⟨hscan, -⟩ | ⟨t, ht, hscan, -, -⟩⟩ := Kernel.scan_cases T k k.timerlist
      · rw [hscan] at hm' ⊢
        exact ⟨m', rfl, hm'.1, Or.inl hm'.2⟩
      · rw [hscan] at hm' ⊢
        have hlen' : (k'.unlink t).timerlist.length = len := by
          have herase : (k'.unlink t).timerlist = k.timerlist.erase t := by
            rw [← ha.timerlist]
            rfl
          rw [herase, List.length_erase_of_mem ht, hlen]
          rfl
        obtain ⟨m'', heq', hm'', hnext⟩ :=
          ih hm'.1 (by rw [hlen']; omega) hlen' (Nat.lt_of_succ_lt_succ hn)
        refine ⟨m'', heq', hm'', Or.inr ?_⟩
        rcases hnext with hsame | hdate
        · exact hm'.1.upToDate_sheds hm'' hm'.2 (Kernel.Sheds.again T len hm'.1.nodup) hsame
        · exact hdate

/-- **`etimer_process` does on the memory what it does on the lists**, and its loops end. -/
theorem etimerThread (h : Represents T m k) (hr : k.timerlist.length < rounds) (ev : Event)
    (data : Data) :
    ∃ m', m.etimerThread T rounds ev data = some m' ∧
      Represents T m' (k.etimerThread T ev data) ∧
      (m'.nextExpiration = m.nextExpiration ∨
        m'.UpToDate T (k.etimerThread T ev data).timerlist) := by
  cases ev with
  | exited =>
    cases data with
    | process p =>
      obtain ⟨m', heq, hm', hnext⟩ := h.dropTimers hr.le p
      exact ⟨m', heq, hm', Or.inl hnext⟩
    | _ => exact ⟨m, rfl, h, Or.inl rfl⟩
  | poll => exact h.again hnarrow hr.le hr
  | _ => exact ⟨m, rfl, h, Or.inl rfl⟩

end Narrow

end Represents

end WsnAggregation.Contiki
