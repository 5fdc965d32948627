import WsnAggregation.Contiki.Process

/-!
# Contiki: a firmware whose process has ended

A firmware may keep a receive callback registered after its process has run off its end. From
then on the scheduler never runs the firmware's thread, and the rest of the system can change
the firmware's timer in one way only: `etimer_process` takes it off the list once it has expired.

* `Dead` — the firmware's process has ended and nothing in the queue restarts it.
* `Quiet` — what happens to the firmware's timer while others run.
* `kernelStep_asleep` — every kernel step keeps `Dead`, is `Quiet`, and leaves the firmware's
  memory and history alone.
-/

namespace WsnAggregation.Contiki

namespace Kernel

/-- The firmware's process has ended: it is not on the process list, its state is
`PROCESS_STATE_NONE`, and no queued event would set it running. -/
structure Dead (k : Kernel) : Prop where
  state : k.state .app = .none
  unlisted : .app ∉ k.processList
  events : ∀ e ∈ k.events, e.ev ≠ .init

/-- What may happen to the firmware's timer between `k` and `k'`: time passes, and if the timer
is marked as expired then its interval had passed at some moment in between. -/
structure Quiet (T : Target) (k k' : Kernel) : Prop where
  clock : k.clock ≤ k'.clock
  start : (k'.timer .app).start = (k.timer .app).start
  interval : (k'.timer .app).interval = (k.timer .app).interval
  p : (k'.timer .app).p = (k.timer .app).p ∨
    ((k'.timer .app).p = none ∧ ∃ c, k.clock ≤ c ∧ c ≤ k'.clock ∧
      expiredAt T (c % 2 ^ T.clockBits) (k.timer .app) = true)

theorem Quiet.refl (T : Target) (k : Kernel) : Quiet T k k := ⟨le_rfl, rfl, rfl, Or.inl rfl⟩

/-- Changes that leave the clock and the firmware's timer alone are quiet. -/
theorem Quiet.of_eq {T : Target} {k k' : Kernel} (hc : k'.clock = k.clock)
    (ht : k'.timer .app = k.timer .app) : Quiet T k k' :=
  ⟨hc ▸ le_rfl, by rw [ht], by rw [ht], Or.inl (by rw [ht])⟩

theorem expiredAt_congr (T : Target) (now : ℕ) {a b : Etimer} (hs : a.start = b.start)
    (hi : a.interval = b.interval) : expiredAt T now a = expiredAt T now b := by
  simp [expiredAt, hs, hi]

theorem Quiet.trans {T : Target} {a b c : Kernel} (h₁ : Quiet T a b) (h₂ : Quiet T b c) :
    Quiet T a c where
  clock := h₁.clock.trans h₂.clock
  start := h₂.start.trans h₁.start
  interval := h₂.interval.trans h₁.interval
  p := by
    rcases h₂.p with hp | ⟨hp, t, hbt, htc, hexp⟩
    · rcases h₁.p with hp' | ⟨hp', t, hat, htb, hexp⟩
      · exact Or.inl (hp.trans hp')
      · exact Or.inr ⟨hp.trans hp', t, hat, htb.trans h₂.clock, hexp⟩
    · refine Or.inr ⟨hp, t, h₁.clock.trans hbt, htc, ?_⟩
      rw [expiredAt_congr T _ h₁.start.symm h₁.interval.symm]
      exact hexp

/-- A timer that reads as expired has run for its interval, also when the clock has wrapped. -/
theorem le_of_expiredAt {T : Target} {t₀ c : ℕ} {e : Etimer} (hs : e.start = t₀ % 2 ^ T.clockBits)
    (hc : t₀ ≤ c) (h : expiredAt T (c % 2 ^ T.clockBits) e = true) :
    t₀ + e.interval ≤ c := by
  simp only [expiredAt, decide_eq_true_eq, hs] at h
  have hmod : (((c % 2 ^ T.clockBits : ℕ) : ℤ) - ((t₀ % 2 ^ T.clockBits : ℕ) : ℤ) + 1) %
      2 ^ T.clockBits = ((c : ℤ) - t₀ + 1) % 2 ^ T.clockBits := by
    push_cast
    exact (((Int.mod_modEq _ _).sub (Int.mod_modEq _ _)).add_right 1)
  rw [hmod] at h
  have hle : ((c : ℤ) - t₀ + 1) % 2 ^ T.clockBits ≤ (c : ℤ) - t₀ + 1 := by
    rw [show (c : ℤ) - t₀ + 1 = ((c - t₀ + 1 : ℕ) : ℤ) by omega]
    exact_mod_cast Nat.mod_le _ _
  omega

/-- A timer set at `t₀` is not marked as expired before its interval has passed. -/
theorem Quiet.elapsed {T : Target} {k k' : Kernel} (h : Quiet T k k') {t₀ d : ℕ}
    (hs : (k.timer .app).start = t₀ % 2 ^ T.clockBits) (hle : t₀ ≤ k.clock)
    (hd : d ≤ (k.timer .app).interval) (hp : (k.timer .app).p = none → t₀ + d ≤ k.clock)
    (hnone : (k'.timer .app).p = none) : t₀ + d ≤ k'.clock := by
  rcases h.p with hsame | ⟨-, c, hc, hc', hexp⟩
  · exact (hp (hsame.symm.trans hnone)).trans h.clock
  · have := le_of_expiredAt hs (hle.trans hc) hexp
    omega

end Kernel

/-- From `m` to `m'` the ended firmware sleeps: it stays ended, its memory and history stay as
they are, and the kernel is quiet. -/
structure Asleep {σ ε : Type} (T : Target) (m m' : Mote σ ε) : Prop where
  dead : m'.kernel.Dead
  quiet : Kernel.Quiet T m.kernel m'.kernel
  app : m'.app = m.app
  history : m'.history = m.history

namespace Asleep

variable {σ ε : Type} {T : Target}

theorem refl {m : Mote σ ε} (h : m.kernel.Dead) : Asleep T m m :=
  ⟨h, Kernel.Quiet.refl T _, rfl, rfl⟩

theorem trans {a b c : Mote σ ε} (h₁ : Asleep T a b) (h₂ : Asleep T b c) : Asleep T a c :=
  ⟨h₂.dead, h₁.quiet.trans h₂.quiet, h₂.app.trans h₁.app, h₂.history.trans h₁.history⟩

theorem onKernel {m : Mote σ ε} {f : Kernel → Kernel} (hd : (f m.kernel).Dead)
    (hc : (f m.kernel).clock = m.kernel.clock)
    (ht : (f m.kernel).timer .app = m.kernel.timer .app) : Asleep T m (m.onKernel f) :=
  ⟨hd, Kernel.Quiet.of_eq hc ht, rfl, rfl⟩

theorem foldl {α : Type} (f : Mote σ ε → α → Mote σ ε) (l : List α)
    (hf : ∀ m : Mote σ ε, m.kernel.Dead → ∀ a ∈ l, Asleep T m (f m a)) (m : Mote σ ε)
    (h : m.kernel.Dead) : Asleep T m (l.foldl f m) := by
  induction l generalizing m with
  | nil => exact refl h
  | cons a l ih =>
    have hstep := hf m h a List.mem_cons_self
    exact hstep.trans (ih (fun m hm b hb => hf m hm b (List.mem_cons_of_mem _ hb)) _ hstep.dead)

end Asleep

/-! ## Kernel operations -/

namespace Kernel

variable {T : Target} {k : Kernel}

theorem Dead.setState (h : k.Dead) {p : Pid} (hp : p ≠ .app) (s : ProcState) :
    (k.setState p s).Dead :=
  ⟨by simp [Kernel.setState, Function.update_of_ne hp.symm, h.state], h.unlisted, h.events⟩

theorem Dead.setCurrent (h : k.Dead) (p : Option Pid) : (k.setCurrent p).Dead :=
  ⟨h.state, h.unlisted, h.events⟩

/-- The two kernels differ in the event queue and the poll flags only. -/
structure Agrees (k k' : Kernel) : Prop where
  clock : k'.clock = k.clock
  timer : k'.timer = k.timer
  timerlist : k'.timerlist = k.timerlist
  state : k'.state = k.state
  processList : k'.processList = k.processList

theorem Agrees.refl (k : Kernel) : Agrees k k := ⟨rfl, rfl, rfl, rfl, rfl⟩

theorem Agrees.trans {a b c : Kernel} (h₁ : Agrees a b) (h₂ : Agrees b c) : Agrees a c :=
  ⟨h₂.clock.trans h₁.clock, h₂.timer.trans h₁.timer, h₂.timerlist.trans h₁.timerlist,
    h₂.state.trans h₁.state, h₂.processList.trans h₁.processList⟩

theorem Agrees.quiet {k' : Kernel} (h : Agrees k k') : Quiet T k k' :=
  Quiet.of_eq h.clock (by rw [h.timer])

theorem Agrees.timerExpired {k' : Kernel} (h : Agrees k k') (t : TimerId) :
    k'.timerExpired T t = k.timerExpired T t := by
  rw [Kernel.timerExpired, Kernel.timerExpired, clockTime, clockTime, h.clock, h.timer]

theorem Dead.agrees {k' : Kernel} (h : k.Dead) (ha : Agrees k k')
    (he : ∀ e ∈ k'.events, e ∈ k.events ∨ e.ev ≠ .init) : k'.Dead :=
  ⟨by rw [ha.state, h.state], by rw [ha.processList]; exact h.unlisted,
    fun e hmem => (he e hmem).elim (h.events e) id⟩

theorem processPoll_agrees (k : Kernel) (p : Pid) : Agrees k (k.processPoll p) := by
  unfold processPoll
  split <;> exact ⟨rfl, rfl, rfl, rfl, rfl⟩

@[simp] theorem processPoll_events (p : Pid) : (k.processPoll p).events = k.events := by
  unfold processPoll; split <;> rfl

theorem processPost_cases (k : Kernel) (T : Target) (p : Option Pid) (ev : Event) (data : Data) :
    k.processPost T p ev data = (k, false) ∨
      k.processPost T p ev data = ({ k with events := k.events ++ [⟨ev, data, p⟩] }, true) := by
  unfold processPost
  split
  · exact Or.inl rfl
  · exact Or.inr rfl

theorem processPost_agrees (k : Kernel) (T : Target) (p : Option Pid) (ev : Event) (data : Data) :
    Agrees k (k.processPost T p ev data).1 := by
  rcases processPost_cases k T p ev data with h | h <;> rw [h] <;> exact ⟨rfl, rfl, rfl, rfl, rfl⟩

theorem mem_processPost_events {p : Option Pid} {ev : Event} {data : Data} {e : EventData}
    (he : e ∈ (k.processPost T p ev data).1.events) : e ∈ k.events ∨ e = ⟨ev, data, p⟩ := by
  rcases processPost_cases k T p ev data with h | h
  · rw [h] at he
    exact Or.inl he
  · rw [h] at he
    simpa using he

theorem Dead.processPoll (h : k.Dead) (p : Pid) : (k.processPoll p).Dead :=
  h.agrees (processPoll_agrees k p) fun e he => Or.inl (by rwa [processPoll_events] at he)

theorem Dead.processPost (h : k.Dead) (T : Target) (p : Option Pid) (ev : Event) (hev : ev ≠ .init)
    (data : Data) : (k.processPost T p ev data).1.Dead :=
  h.agrees (processPost_agrees k T p ev data) fun e he => by
    rcases mem_processPost_events he with hmem | rfl
    · exact Or.inl hmem
    · exact Or.inr hev

theorem Dead.setTimer (h : k.Dead) (t : TimerId) (e : Etimer) : (k.setTimer t e).Dead :=
  ⟨h.state, h.unlisted, h.events⟩

theorem Dead.addTimer (h : k.Dead) (t : TimerId) : (k.addTimer t).Dead := by
  have hp : k.etimerRequestPoll.Dead := h.processPoll _
  unfold Kernel.addTimer
  dsimp only
  split
  · exact hp.setTimer _ _
  · exact ⟨hp.state, hp.unlisted, hp.events⟩

theorem addTimer_clock (t : TimerId) : (k.addTimer t).clock = k.clock := by
  have hp : k.etimerRequestPoll.clock = k.clock := (processPoll_agrees k _).clock
  unfold addTimer
  dsimp only
  split <;> exact hp

/-- Adding a timer writes its owner and nothing else of any timer. -/
theorem addTimer_timer (t : TimerId) :
    (k.addTimer t).timer = Function.update k.timer t { k.timer t with p := k.current } := by
  have hp : k.etimerRequestPoll.timer = k.timer := (processPoll_agrees k _).timer
  have hc : k.etimerRequestPoll.current = k.current := by
    unfold etimerRequestPoll processPoll; split <;> rfl
  unfold addTimer
  dsimp only
  split <;> simp only [setTimer, hp, hc]

theorem Dead.etimerStop (h : k.Dead) (t : TimerId) : (k.etimerStop t).Dead :=
  ⟨h.state, h.unlisted, h.events⟩

/-- A timer operation on another process's timer leaves the firmware's timer alone. -/
theorem setTimer_other (n : ℕ) (e : Etimer) : (k.setTimer (.other n) e).timer .app = k.timer .app :=
  Function.update_of_ne (by simp : (TimerId.app : TimerId) ≠ .other n) e k.timer

/-- Taking an expired timer off the list is quiet. -/
theorem etimerStop_quiet {t : TimerId} (h : k.timerExpired T t = true) :
    Quiet T k (k.etimerStop t) := by
  by_cases ht : t = .app
  · subst ht
    refine ⟨le_rfl, ?_, ?_, Or.inr ⟨?_, k.clock, le_rfl, le_rfl, h⟩⟩ <;>
      simp [etimerStop, setTimer]
  · exact Quiet.of_eq rfl (Function.update_of_ne (Ne.symm ht) _ _)

/-! ## The timer process -/

/-- One pass of the loop either posts nothing, or posts the event of one expired timer of the
list. -/
theorem scan_cases (T : Target) (k : Kernel) (l : List TimerId) :
    ∃ k', Agrees k k' ∧
      ((scan T l k = (k', none) ∧ k'.events = k.events) ∨
        ∃ t ∈ l, scan T l k = (k', some t) ∧ k.timerExpired T t = true ∧
          k'.events = k.events ++ [⟨.timer, .etimer t, (k.timer t).p⟩]) := by
  induction l generalizing k with
  | nil => exact ⟨k, Agrees.refl k, Or.inl ⟨rfl, rfl⟩⟩
  | cons t ts ih =>
    unfold scan
    by_cases hexp : k.timerExpired T t = true
    · rcases processPost_cases k T (k.timer t).p .timer (.etimer t) with hpost | hpost
      · -- The queue is full: another poll is requested, and the loop goes on.
        simp only [hexp, hpost, if_true]
        have ha : Agrees k k.etimerRequestPoll := processPoll_agrees k _
        obtain ⟨k', ha', ⟨hnone, hev⟩ | ⟨t', ht', hsome, hexp', hev⟩⟩ := ih k.etimerRequestPoll
        · exact ⟨k', ha.trans ha', Or.inl ⟨hnone, hev.trans (processPoll_events _)⟩⟩
        · rw [ha.timerExpired] at hexp'
          rw [ha.timer] at hev
          refine ⟨k', ha.trans ha', Or.inr ⟨t', List.mem_cons_of_mem _ ht', hsome, hexp', ?_⟩⟩
          rw [hev]
          exact congrArg (· ++ _) (processPoll_events _)
      · simp only [hexp, hpost, if_true]
        exact ⟨{ k with events := k.events ++ [⟨.timer, .etimer t, (k.timer t).p⟩] },
          ⟨rfl, rfl, rfl, rfl, rfl⟩, Or.inr ⟨t, List.mem_cons_self, rfl, hexp, rfl⟩⟩
    · simp only [hexp]
      obtain ⟨k', ha', hk' | ⟨t', ht', hrest⟩⟩ := ih k
      · exact ⟨k', ha', Or.inl hk'⟩
      · exact ⟨k', ha', Or.inr ⟨t', List.mem_cons_of_mem _ ht', hrest⟩⟩

/-- The whole loop is quiet: each round takes an expired timer off the list. -/
theorem again_quiet (n : ℕ) (h : k.Dead) : (again T n k).Dead ∧ Quiet T k (again T n k) := by
  induction n generalizing k with
  | zero => exact ⟨h, Quiet.refl T k⟩
  | succ n ih =>
    unfold again
    obtain ⟨k', ha, ⟨hscan, hev⟩ | ⟨t, -, hscan, hexp, hev⟩⟩ := scan_cases T k k.timerlist
    · rw [hscan]
      exact ⟨h.agrees ha fun e he => Or.inl (hev ▸ he), ha.quiet⟩
    · rw [hscan]
      have hd : k'.Dead := h.agrees ha fun e he => by
        rw [hev, List.mem_append, List.mem_singleton] at he
        rcases he with he | rfl
        · exact Or.inl he
        · exact Or.inr (by simp)
      obtain ⟨hd', hq'⟩ := ih (hd.etimerStop t)
      have hexp' : k'.timerExpired T t = true := (ha.timerExpired t).trans hexp
      exact ⟨hd', (ha.quiet.trans (etimerStop_quiet hexp')).trans hq'⟩

theorem etimerThread_quiet (ev : Event) (data : Data) (h : k.Dead) :
    (k.etimerThread T ev data).Dead ∧ Quiet T k (k.etimerThread T ev data) := by
  unfold etimerThread
  split
  · exact ⟨⟨h.state, h.unlisted, h.events⟩, Quiet.of_eq rfl rfl⟩
  · exact again_quiet _ h
  · exact ⟨h, Quiet.refl T k⟩

end Kernel

/-! ## The scheduler -/

section

variable {σ ε : Type} (fw : Firmware σ ε) (T : Target) {m : Mote σ ε}

theorem runThread_asleep {p : Pid} (hp : p ≠ .app) (ev : Event) (data : Data)
    (h : m.kernel.Dead) : Asleep T m (runThread fw T p ev data m).1 := by
  cases p with
  | etimerProcess =>
    obtain ⟨hd, hq⟩ := Kernel.etimerThread_quiet (T := T) ev data h
    exact ⟨hd, hq, rfl, rfl⟩
  | app => exact absurd rfl hp
  | other n => exact Asleep.refl h

theorem enter_asleep {p : Pid} (hp : p ≠ .app) (h : m.kernel.Dead) : Asleep T m (enter p m) :=
  Asleep.onKernel ((h.setState hp .called).setCurrent _) rfl rfl

theorem setState_asleep {p : Pid} (hp : p ≠ .app) (s : ProcState) (h : m.kernel.Dead) :
    Asleep T m (m.onKernel fun k => k.setState p s) :=
  Asleep.onKernel (h.setState hp s) rfl rfl

theorem notifyExited_asleep (p q : Pid) (h : m.kernel.Dead) :
    Asleep T m (notifyExited fw T p q m) := by
  unfold notifyExited
  split
  · rename_i hq
    have hne : q ≠ .app := by
      rintro rfl
      rw [h.state] at hq
      simp at hq
    have h1 := enter_asleep T hne h
    have h2 := runThread_asleep fw T hne .exited (.process p) h1.dead
    exact (h1.trans h2).trans (setState_asleep T hne _ h2.dead)
  · exact Asleep.refl h

theorem exitProcess_asleep {p : Pid} (hp : p ≠ .app) (h : m.kernel.Dead) :
    Asleep T m (exitProcess fw T p m) := by
  have hunlist : ∀ m' : Mote σ ε, m'.kernel.Dead → Asleep T m' (m'.onKernel fun k =>
      { k.setCurrent m.kernel.current with processList := k.processList.erase p }) :=
    fun m' h' => Asleep.onKernel
      ⟨h'.state, fun hmem => h'.unlisted (List.mem_of_mem_erase hmem), h'.events⟩ rfl rfl
  unfold exitProcess
  split
  · dsimp only
    split
    · have h1 := setState_asleep T hp .none h
      have h2 := Asleep.foldl (T := T) (fun m q => notifyExited fw T p q m) m.kernel.processList
        (fun m hm q _ => notifyExited_asleep fw T p q hm) _ h1.dead
      exact (h1.trans h2).trans (hunlist _ h2.dead)
    · exact hunlist _ h
  · exact Asleep.refl h

theorem callProcess_asleep (p : Pid) (ev : Event) (data : Data) (h : m.kernel.Dead) :
    Asleep T m (callProcess fw T p ev data m) := by
  unfold callProcess
  split
  · rename_i hrun
    have hp : p ≠ .app := by
      rintro rfl
      rw [h.state] at hrun
      cases hrun
    have h1 := enter_asleep T hp h
    have h2 := runThread_asleep fw T hp ev data h1.dead
    dsimp only
    split
    · exact (h1.trans h2).trans (exitProcess_asleep fw T hp h2.dead)
    · exact (h1.trans h2).trans (setState_asleep T hp _ h2.dead)
  · exact Asleep.refl h

theorem processStart_asleep {p : Pid} (hp : p ≠ .app) (h : m.kernel.Dead) :
    Asleep T m (processStart fw T p m) := by
  unfold processStart
  split
  · exact Asleep.refl h
  · have hs := h.setState hp .running
    have h1 : Asleep T m (m.onKernel fun k =>
        { k.setState p .running with processList := p :: k.processList }) :=
      Asleep.onKernel ⟨hs.state, by simpa using ⟨hp.symm, h.unlisted⟩, hs.events⟩ rfl rfl
    have h2 := callProcess_asleep fw T p .init .null h1.dead
    exact (h1.trans h2).trans
      (Asleep.onKernel (h2.dead.setCurrent _) rfl rfl)

theorem doPoll_asleep (h : m.kernel.Dead) : Asleep T m (doPoll fw T m) := by
  have h0 : Asleep T m (m.onKernel fun k => { k with pollRequested := false }) :=
    Asleep.onKernel ⟨h.state, h.unlisted, h.events⟩ rfl rfl
  refine h0.trans (Asleep.foldl _ _ (fun m' hm' p hmem => ?_) _ h0.dead)
  have hp : p ≠ .app := fun he => h.unlisted (he ▸ hmem)
  split
  · have hs := hm'.setState hp .running
    have h1 : Asleep T m' (m'.onKernel fun k =>
        { k.setState p .running with needspoll := Function.update k.needspoll p false }) :=
      Asleep.onKernel ⟨hs.state, hs.unlisted, hs.events⟩ rfl rfl
    exact h1.trans (callProcess_asleep fw T p .poll .null h1.dead)
  · exact Asleep.refl hm'

theorem pollIfRequested_asleep (h : m.kernel.Dead) : Asleep T m (pollIfRequested fw T m) := by
  unfold pollIfRequested
  split
  · exact doPoll_asleep fw T h
  · exact Asleep.refl h

theorem doEvent_asleep (h : m.kernel.Dead) : Asleep T m (doEvent fw T m) := by
  unfold doEvent
  split
  · exact Asleep.refl h
  · rename_i e rest heq
    have hmem : ∀ e' ∈ rest, e' ∈ m.kernel.events := fun e' he' =>
      heq ▸ List.mem_cons_of_mem _ he'
    have h1 : Asleep T m (m.onKernel fun k => { k with events := rest }) :=
      Asleep.onKernel ⟨h.state, h.unlisted, fun e' he' => h.events e' (hmem e' he')⟩ rfl rfl
    have hinit : e.ev ≠ .init := h.events e (heq ▸ List.mem_cons_self)
    dsimp only
    split
    · refine h1.trans (Asleep.foldl _ _ (fun m' hm' p _ => ?_) _ h1.dead)
      have h2 := pollIfRequested_asleep fw T hm'
      exact h2.trans (callProcess_asleep fw T p e.ev e.data h2.dead)
    · rw [if_neg hinit]
      exact h1.trans (callProcess_asleep fw T _ e.ev e.data h1.dead)

/-! ## The environment -/

theorem Call.run_quiet (c : Call) {k : Kernel} (h : k.Dead) :
    (c.run T k).Dead ∧ (c.run T k).clock = k.clock ∧ (c.run T k).timer .app = k.timer .app := by
  cases c with
  | post p ev data =>
    simp only [Call.run]
    split
    · exact ⟨h, rfl, rfl⟩
    · rename_i hev
      have hinit : ev ≠ .init := by rintro rfl; simp [Event.isKernelEvent] at hev
      have ha := Kernel.processPost_agrees k T p ev data
      exact ⟨h.processPost T p ev hinit data, ha.clock, by rw [ha.timer]⟩
  | poll p =>
    have ha := Kernel.processPoll_agrees k p
    exact ⟨h.processPoll p, ha.clock, congrFun ha.timer .app⟩
  | etimerSet t interval =>
    refine ⟨(h.setTimer _ _).addTimer _, Kernel.addTimer_clock _, ?_⟩
    simp [Call.run, Kernel.etimerSet, Kernel.addTimer_timer, Kernel.timerSet, Kernel.setTimer_other]
  | etimerReset t =>
    have hreset : (k.timerReset T (.other t)).Dead ∧
        (k.timerReset T (.other t)).clock = k.clock ∧
        (k.timerReset T (.other t)).timer .app = k.timer .app := by
      unfold Kernel.timerReset
      split
      · exact ⟨h.setTimer _ _, rfl, Kernel.setTimer_other _ _⟩
      · exact ⟨h, rfl, rfl⟩
    refine ⟨hreset.1.addTimer _, (Kernel.addTimer_clock _).trans hreset.2.1, ?_⟩
    simp [Call.run, Kernel.etimerReset, Kernel.addTimer_timer, hreset.2.2]
  | etimerRestart t =>
    refine ⟨(h.setTimer _ _).addTimer _, Kernel.addTimer_clock _, ?_⟩
    simp [Call.run, Kernel.etimerRestart, Kernel.addTimer_timer, Kernel.timerRestart,
      Kernel.setTimer_other]
  | etimerStop t =>
    exact ⟨h.etimerStop _, rfl, Kernel.setTimer_other t { k.timer (.other t) with p := none }⟩

/-- **Once its process has ended, a firmware sleeps through every kernel step.** -/
theorem kernelStep_asleep (l : KernelStep) (h : m.kernel.Dead) :
    Asleep T m (kernelStep fw T m l) := by
  cases l with
  | tick d =>
    exact ⟨⟨h.state, h.unlisted, h.events⟩,
      ⟨Nat.le_add_right _ _, rfl, rfl, Or.inl rfl⟩, rfl, rfl⟩
  | call n c =>
    obtain ⟨hd, hc, ht⟩ := Call.run_quiet T c (h.setCurrent (some (.other n)))
    exact ⟨hd.setCurrent _, Kernel.Quiet.of_eq hc ht, rfl, rfl⟩
  | start n => exact processStart_asleep fw T (by simp) h
  | exit n => exact exitProcess_asleep fw T (by simp) h
  | poll => exact pollIfRequested_asleep fw T h
  | event => exact doEvent_asleep fw T h

end

end WsnAggregation.Contiki
