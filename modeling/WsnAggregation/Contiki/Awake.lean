import WsnAggregation.Contiki.Quiet

/-!
# Contiki: a firmware whose process never ends

While such a firmware waits, the rest of the system can do two things to it: call its process,
perhaps after taking an event of its off the queue, and let its timer expire. An expiry takes the
timer off the list only together with posting the event that will wake the process.

* `Alive` — the process waits for events, and its timer is on the list exactly while it is owned.
* `Awake` — what happens to the firmware while others run.
* `kernelStep_steady` — an invariant that survives `Awake` and the calls of the firmware's process
  survives every kernel step.
-/

namespace WsnAggregation.Contiki

/-- The event that tells the firmware's process that its timer has expired. -/
def expiry : EventData := ⟨.timer, .etimer .app, some .app⟩

namespace Kernel

/-- The firmware's process waits for events. No queued event starts or ends a process, and the
firmware's timer is on the list exactly while a process owns it. -/
structure Alive (k : Kernel) : Prop where
  state : k.state .app = .running
  events : ∀ e ∈ k.events, e.ev ≠ .init ∧ e.ev ≠ .exit ∧ e.ev ≠ .exited
  timer : ((k.timer .app).p = some .app ∧ k.timerlist.count .app = 1) ∨
    ((k.timer .app).p = none ∧ k.timerlist.count .app = 0)

/-- What may happen to the kernel while the firmware's process waits: the timer is quiet, the
events queued for the process stay queued, and if the timer is marked as expired then the process
is about to be told. -/
structure Waits (T : Target) (k k' : Kernel) : Prop where
  alive : k'.Alive
  quiet : Quiet T k k'
  queued : ∀ e ∈ k.events, e.p = some .app → e ∈ k'.events
  wakes : (k.timer .app).p ≠ none → (k'.timer .app).p ≠ none ∨ expiry ∈ k'.events

variable {T : Target} {k k' : Kernel}

theorem Waits.refl (h : k.Alive) : Waits T k k :=
  ⟨h, Quiet.refl T k, fun _ he _ => he, Or.inl⟩

theorem Waits.trans {a b c : Kernel} (h₁ : Waits T a b) (h₂ : Waits T b c) : Waits T a c where
  alive := h₂.alive
  quiet := h₁.quiet.trans h₂.quiet
  queued := fun e he hp => h₂.queued e (h₁.queued e he hp) hp
  wakes := fun ha => by
    rcases h₁.wakes ha with hb | hb
    · exact h₂.wakes hb
    · exact Or.inr (h₂.queued expiry hb rfl)

/-- A change that leaves the firmware's timer alone and keeps the events of its process. -/
theorem Waits.of_eq (h : k'.Alive) (hc : k'.clock = k.clock)
    (ht : k'.timer .app = k.timer .app) (he : ∀ e ∈ k.events, e.p = some .app → e ∈ k'.events) :
    Waits T k k' :=
  ⟨h, Quiet.of_eq hc ht, he, fun hp => Or.inl (by rwa [ht])⟩

/-! ## Kernel operations -/

/-- The invariant speaks of these variables only. -/
theorem Alive.congr (h : k.Alive) (hs : k'.state .app = .running)
    (he : ∀ e ∈ k'.events, e ∈ k.events ∨ (e.ev ≠ .init ∧ e.ev ≠ .exit ∧ e.ev ≠ .exited))
    (ht : (k'.timer .app).p = (k.timer .app).p)
    (hl : k'.timerlist.count .app = k.timerlist.count .app) : k'.Alive :=
  ⟨hs, fun e hmem => (he e hmem).elim (h.events e) id, by rw [ht, hl]; exact h.timer⟩

theorem Alive.agrees (h : k.Alive) (ha : Agrees k k')
    (he : ∀ e ∈ k'.events, e ∈ k.events ∨ (e.ev ≠ .init ∧ e.ev ≠ .exit ∧ e.ev ≠ .exited)) :
    k'.Alive :=
  h.congr (by rw [ha.state, h.state]) he (by rw [ha.timer]) (by rw [ha.timerlist])

theorem processPoll_waits (h : k.Alive) (p : Pid) : Waits T k (k.processPoll p) := by
  have ha := processPoll_agrees k p
  have hev : (k.processPoll p).events = k.events := processPoll_events p
  exact Waits.of_eq (h.agrees ha fun e he => Or.inl (hev ▸ he)) ha.clock (by rw [ha.timer])
    fun e he _ => hev ▸ he

theorem processPost_waits (h : k.Alive) (p : Option Pid) (ev : Event)
    (hev : ev ≠ .init ∧ ev ≠ .exit ∧ ev ≠ .exited) (data : Data) :
    Waits T k (k.processPost T p ev data).1 := by
  have ha := processPost_agrees k T p ev data
  have halive : (k.processPost T p ev data).1.Alive := h.agrees ha fun e he => by
    rcases mem_processPost_events he with hmem | rfl
    · exact Or.inl hmem
    · exact Or.inr hev
  refine Waits.of_eq halive ha.clock (by rw [ha.timer]) fun e he _ => ?_
  rcases processPost_cases k T p ev data with hpost | hpost
  · rw [hpost]
    exact he
  · rw [hpost]
    exact List.mem_append_left _ he

/-- An operation on another process's timer. -/
theorem setTimer_waits (h : k.Alive) (n : ℕ) (e : Etimer) :
    Waits T k (k.setTimer (.other n) e) := by
  have ht : (k.setTimer (.other n) e).timer .app = k.timer .app := setTimer_other n e
  exact Waits.of_eq (h.congr h.state (fun _ he => Or.inl he) (by rw [ht]) rfl) rfl ht
    fun _ he _ => he

theorem addTimer_waits (h : k.Alive) (n : ℕ) : Waits T k (k.addTimer (.other n)) := by
  have hpoll : Waits T k k.etimerRequestPoll := processPoll_waits h _
  have hset := hpoll.trans (setTimer_waits (T := T) hpoll.alive n
    { k.etimerRequestPoll.timer (.other n) with p := k.etimerRequestPoll.current })
  unfold addTimer
  dsimp only
  split_ifs
  · exact hset
  · refine hset.trans (Waits.of_eq (hset.alive.congr hset.alive.state (fun _ he => Or.inl he) rfl ?_)
      rfl rfl fun _ he _ => he)
    exact List.count_cons_of_ne (by simp)

theorem etimerStop_waits (h : k.Alive) (n : ℕ) : Waits T k (k.etimerStop (.other n)) := by
  have hset := setTimer_waits (T := T) h n { k.timer (.other n) with p := none }
  refine hset.trans (Waits.of_eq (hset.alive.congr hset.alive.state (fun _ he => Or.inl he) rfl ?_)
    rfl rfl fun _ he _ => he)
  exact List.count_erase_of_ne (by simp)

/-! ## The timer process -/

/-- Taking the firmware's timer off the list once its event is posted. -/
theorem unlink_waits {a : Kernel} (h : k.Alive) (ha : Agrees k a) {t : TimerId}
    (ht : t ∈ k.timerlist) (hexp : k.timerExpired T t = true)
    (hev : a.events = k.events ++ [⟨.timer, .etimer t, (k.timer t).p⟩]) :
    Waits T k (a.unlink t) := by
  have hquiet : Quiet T k (a.unlink t) :=
    ha.quiet.trans (etimerStop_quiet ((ha.timerExpired t).trans hexp))
  have hevents : ∀ e ∈ (a.unlink t).events,
      e ∈ k.events ∨ (e.ev ≠ .init ∧ e.ev ≠ .exit ∧ e.ev ≠ .exited) := by
    intro e he
    change e ∈ a.events at he
    rw [hev, List.mem_append, List.mem_singleton] at he
    rcases he with he | rfl
    · exact Or.inl he
    · exact Or.inr (by simp)
  have hqueued : ∀ e ∈ k.events, e.p = some .app → e ∈ (a.unlink t).events := by
    intro e he _
    change e ∈ a.events
    rw [hev]
    exact List.mem_append_left _ he
  have hstate : (a.unlink t).state .app = .running := by
    change a.state .app = .running
    rw [ha.state, h.state]
  by_cases happ : t = .app
  · -- The firmware's own timer: it was on the list, so the process owned it.
    subst happ
    have hcount : 0 < k.timerlist.count .app := List.count_pos_iff.2 ht
    obtain ⟨hp, hone⟩ : (k.timer .app).p = some .app ∧ k.timerlist.count .app = 1 := by
      rcases h.timer with hown | ⟨-, hzero⟩
      · exact hown
      · omega
    refine ⟨⟨hstate, fun e he => (hevents e he).elim (h.events e) id, Or.inr ⟨?_, ?_⟩⟩, hquiet,
      hqueued, fun _ => Or.inr ?_⟩
    · simp [unlink, etimerStop, setTimer]
    · change (a.timerlist.erase .app).count .app = 0
      rw [ha.timerlist, List.count_erase_self, hone]
    · change expiry ∈ a.events
      rw [hev, hp]
      exact List.mem_append_right _ (List.mem_singleton_self _)
  · have htimer : (a.unlink t).timer .app = k.timer .app := by
      change (Function.update a.timer t _) .app = _
      rw [Function.update_of_ne (Ne.symm happ), ha.timer]
    refine ⟨h.congr hstate hevents (by rw [htimer]) ?_, hquiet, hqueued,
      fun hp => Or.inl (by rwa [htimer])⟩
    change (a.timerlist.erase t).count .app = _
    rw [ha.timerlist, List.count_erase_of_ne (Ne.symm happ)]

theorem again_waits (n : ℕ) (h : k.Alive) : Waits T k (again T n k) := by
  induction n generalizing k with
  | zero => exact Waits.refl h
  | succ n ih =>
    unfold again
    obtain ⟨k', ha, ⟨hscan, hev⟩ | ⟨t, ht, hscan, hexp, hev⟩⟩ := scan_cases T k k.timerlist
    · rw [hscan]
      exact Waits.of_eq (h.agrees ha fun e he => Or.inl (hev ▸ he)) ha.clock (by rw [ha.timer])
        fun e he _ => hev ▸ he
    · rw [hscan]
      have hunlink := unlink_waits h ha ht hexp hev
      exact hunlink.trans (ih hunlink.alive)

theorem etimerThread_waits (h : k.Alive) (ev : Event) (data : Data)
    (hdata : ev = .exited → data ≠ .process .app) : Waits T k (k.etimerThread T ev data) := by
  unfold etimerThread
  split
  · rename_i p
    refine Waits.of_eq (h.congr h.state (fun _ he => Or.inl he) rfl ?_) rfl rfl fun _ he _ => he
    -- The timers of another process leave the list.
    have hp : some .app ≠ some p := fun he => hdata rfl (by rw [Option.some.inj he])
    rcases h.timer with ⟨hown, -⟩ | ⟨hown, -⟩
    · exact List.count_filter (by simpa [hown] using hp)
    · exact List.count_filter (by simp [hown])
  · exact again_waits _ h
  · exact Waits.refl h

end Kernel

/-- From `m` to `m'` the firmware's process waits: it stays as it is, its memory and history too. -/
structure Awake {σ ε : Type} (T : Target) (m m' : Mote σ ε) : Prop where
  waits : Kernel.Waits T m.kernel m'.kernel
  app : m'.app = m.app
  history : m'.history = m.history

namespace Awake

variable {σ ε : Type} {T : Target}

theorem refl {m : Mote σ ε} (h : m.kernel.Alive) : Awake T m m :=
  ⟨Kernel.Waits.refl h, rfl, rfl⟩

theorem trans {a b c : Mote σ ε} (h₁ : Awake T a b) (h₂ : Awake T b c) : Awake T a c :=
  ⟨h₁.waits.trans h₂.waits, h₂.app.trans h₁.app, h₂.history.trans h₁.history⟩

theorem onKernel {m : Mote σ ε} {f : Kernel → Kernel} (h : m.kernel.Alive)
    (hs : (f m.kernel).state .app = .running) (hc : (f m.kernel).clock = m.kernel.clock)
    (ht : (f m.kernel).timer = m.kernel.timer) (hl : (f m.kernel).timerlist = m.kernel.timerlist)
    (he : (f m.kernel).events = m.kernel.events) : Awake T m (m.onKernel f) := by
  have halive : (f m.kernel).Alive :=
    h.congr hs (fun e hmem => Or.inl (he ▸ hmem)) (by rw [ht]) (by rw [hl])
  have hwaits : Kernel.Waits T m.kernel (f m.kernel) :=
    Kernel.Waits.of_eq halive hc (by rw [ht]) fun e hmem _ => by rwa [he]
  exact ⟨hwaits, rfl, rfl⟩

end Awake

/-! ## The scheduler -/

section

variable {σ ε : Type} (fw : Firmware σ ε) (T : Target)

/-- The firmware's process handles an event: it is called, and waits again. `rest` is what is left
of the queue once the event is taken off it. -/
def resume (ev : Event) (data : Data) (rest : List EventData) (m : Mote σ ε) : Mote σ ε :=
  (fw.thread T ev data (enter .app (m.onKernel fun k => { k with events := rest }))).1.onKernel
    fun k => k.setState .app .running

/-- An invariant of a waiting firmware: it survives what the rest of the system does, and the
calls of the process. -/
structure Steady (I : Mote σ ε → Prop) : Prop where
  endless : ∀ ev data (m : Mote σ ε), (fw.thread T ev data m).2 = false
  alive : ∀ m, I m → m.kernel.Alive
  waits : ∀ m m', I m → Awake T m m' → I m'
  resumes : ∀ ev data rest m, I m → rest <:+ m.kernel.events → I (resume fw T ev data rest m)

variable {fw T} {I : Mote σ ε → Prop} {m : Mote σ ε} (hI : Steady fw T I) (h : I m)

theorem enter_awake {p : Pid} (hp : p ≠ .app) (h : m.kernel.Alive) : Awake T m (enter p m) :=
  Awake.onKernel h (by simp [Kernel.setState, Kernel.setCurrent, hp.symm, h.state]) rfl rfl rfl rfl

theorem setState_awake {p : Pid} {s : ProcState} (hp : p = .app → s = .running)
    (h : m.kernel.Alive) : Awake T m (m.onKernel fun k => k.setState p s) := by
  refine Awake.onKernel h ?_ rfl rfl rfl rfl
  by_cases happ : p = .app
  · subst happ
    simpa [Kernel.setState] using hp rfl
  · simp [Kernel.setState, Ne.symm happ, h.state]

theorem runThread_awake {p : Pid} (hp : p ≠ .app) (h : m.kernel.Alive) (ev : Event) (data : Data)
    (hdata : ev = .exited → data ≠ .process .app) :
    Awake T m (runThread fw T p ev data m).1 := by
  cases p with
  | etimerProcess => exact ⟨Kernel.etimerThread_waits h ev data hdata, rfl, rfl⟩
  | app => exact absurd rfl hp
  | other n => exact Awake.refl h

include hI h

/-- The scheduler calls a process that is running, with an event that does not end it. -/
theorem called_steady (p : Pid) (ev : Event) (data : Data)
    (hdata : ev = .exited → data ≠ .process .app) :
    I ((runThread fw T p ev data (enter p m)).1.onKernel fun k => k.setState p .running) := by
  by_cases hp : p = .app
  · subst hp
    exact hI.resumes ev data m.kernel.events m h (List.suffix_refl _)
  · have h1 := enter_awake (T := T) hp (hI.alive m h)
    have h2 : Awake T (enter p m) (runThread fw T p ev data (enter p m)).1 :=
      runThread_awake hp h1.waits.alive ev data hdata
    have h3 := setState_awake (T := T) (p := p) (s := .running) (fun _ => rfl) h2.waits.alive
    exact hI.waits m _ h ((h1.trans h2).trans h3)

theorem notifyExited_steady {p : Pid} (hp : p ≠ .app) (q : Pid) :
    I (notifyExited fw T p q m) := by
  unfold notifyExited
  split
  · exact called_steady hI h q .exited (.process p) fun _ he => hp (Data.process.inj he)
  · exact h

theorem exitProcess_steady {p : Pid} (hp : p ≠ .app) : I (exitProcess fw T p m) := by
  have hunlist : ∀ m' : Mote σ ε, I m' → I (m'.onKernel fun k =>
      { k.setCurrent m.kernel.current with processList := k.processList.erase p }) := by
    intro m' h'
    have halive := hI.alive m' h'
    exact hI.waits m' _ h' (Awake.onKernel halive halive.state rfl rfl rfl rfl)
  unfold exitProcess
  split
  · dsimp only
    split
    · apply hunlist
      have hnone := hI.waits m _ h
        (setState_awake (p := p) (s := .none) (fun he => absurd he hp) (hI.alive m h))
      exact List.foldlRecOn (motive := I) _ _ hnone fun m' h' q _ =>
        notifyExited_steady hI h' hp q
    · exact hunlist m h
  · exact h

theorem callProcess_steady (p : Pid) (ev : Event) (data : Data) (hexit : ev ≠ .exit)
    (hdata : ev = .exited → data ≠ .process .app) : I (callProcess fw T p ev data m) := by
  have hends : (runThread fw T p ev data (enter p m)).2 = false := by
    cases p with
    | app => exact hI.endless ev data _
    | _ => rfl
  unfold callProcess
  split
  · dsimp only
    rw [if_neg (by simp [hends, hexit])]
    exact called_steady hI h p ev data hdata
  · exact h

theorem processStart_steady {p : Pid} (hp : p ≠ .app) : I (processStart fw T p m) := by
  unfold processStart
  split
  · exact h
  · have halive := hI.alive m h
    have h1 : I (m.onKernel fun k =>
        { k.setState p .running with processList := p :: k.processList }) :=
      hI.waits m _ h (Awake.onKernel halive
        (by simp [Kernel.setState, hp.symm, halive.state]) rfl rfl rfl rfl)
    have h2 := callProcess_steady hI h1 p .init .null (by simp) (by simp)
    exact hI.waits _ _ h2
      (Awake.onKernel (hI.alive _ h2) (hI.alive _ h2).state rfl rfl rfl rfl)

theorem doPoll_steady : I (doPoll fw T m) := by
  have halive := hI.alive m h
  refine List.foldlRecOn (motive := I) _ _
    (hI.waits m _ h (Awake.onKernel halive halive.state rfl rfl rfl rfl)) fun m' h' p _ => ?_
  split
  · have halive' := hI.alive m' h'
    have h1 := setState_awake (T := T) (p := p) (s := .running) (fun _ => rfl) halive'
    have h2 : Awake T m' (m'.onKernel fun k =>
        { k.setState p .running with needspoll := Function.update k.needspoll p false }) :=
      Awake.onKernel halive' h1.waits.alive.state rfl rfl rfl rfl
    exact callProcess_steady hI (hI.waits m' _ h' h2) p .poll .null (by simp) (by simp)
  · exact h'

theorem pollIfRequested_steady : I (pollIfRequested fw T m) := by
  unfold pollIfRequested
  split
  · exact doPoll_steady hI h
  · exact h

/-- Taking an event off the queue and calling its process: either the event was for the
firmware's process, or nothing was taken from that process. -/
theorem doEvent_steady : I (doEvent fw T m) := by
  have halive := hI.alive m h
  unfold doEvent
  split
  · exact h
  · rename_i e rest heq
    obtain ⟨hinit, hexit, hexited⟩ := halive.events e (heq ▸ List.mem_cons_self)
    have hdata : e.ev = .exited → e.data ≠ .process .app := fun he => absurd he hexited
    have hdrop : e.p ≠ some .app → I (m.onKernel fun k => { k with events := rest }) := by
      intro hp
      have hrest : Kernel.Alive { m.kernel with events := rest } :=
        halive.congr halive.state (fun e' he' => Or.inl (heq ▸ List.mem_cons_of_mem _ he')) rfl rfl
      refine hI.waits m _ h ⟨Kernel.Waits.of_eq hrest rfl rfl fun e' he' hp' => ?_, rfl, rfl⟩
      rw [heq, List.mem_cons] at he'
      rcases he' with rfl | he'
      · exact absurd hp' hp
      · exact he'
    dsimp only
    split
    · rename_i hnone
      exact List.foldlRecOn (motive := I) _ _ (hdrop (by simp [hnone])) fun m' h' p _ =>
        callProcess_steady hI (pollIfRequested_steady hI h') p e.ev e.data hexit hdata
    · rename_i p hsome
      rw [if_neg hinit]
      by_cases hp : p = .app
      · subst hp
        have hends : (fw.thread T e.ev e.data
            (enter .app (m.onKernel fun k => { k with events := rest }))).2 = false :=
          hI.endless e.ev e.data _
        unfold callProcess
        rw [if_pos (show (m.onKernel fun k => { k with events := rest }).kernel.state .app = .running
          from halive.state)]
        dsimp only [runThread]
        rw [if_neg (by simp [hends, hexit])]
        exact hI.resumes e.ev e.data rest m h (heq ▸ List.suffix_cons e rest)
      · exact callProcess_steady hI (hdrop (by simpa [hsome] using hp)) p e.ev e.data hexit hdata

omit hI h in
theorem Call.run_waits (c : Call) {k : Kernel} (h : k.Alive) : Kernel.Waits T k (c.run T k) := by
  cases c with
  | post p ev data =>
    simp only [Call.run]
    split
    · exact Kernel.Waits.refl h
    · rename_i hev
      refine Kernel.processPost_waits h p ev ⟨?_, ?_, ?_⟩ data <;>
        · rintro rfl
          simp [Event.isKernelEvent] at hev
  | poll p => exact Kernel.processPoll_waits h p
  | etimerSet t interval =>
    have h1 := Kernel.setTimer_waits (T := T) h t
      { k.timer (.other t) with interval := interval, start := k.clockTime T }
    exact h1.trans (Kernel.addTimer_waits h1.alive t)
  | etimerReset t =>
    have h1 : Kernel.Waits T k (k.timerReset T (.other t)) := by
      unfold Kernel.timerReset
      split
      · exact Kernel.setTimer_waits h t _
      · exact Kernel.Waits.refl h
    exact h1.trans (Kernel.addTimer_waits h1.alive t)
  | etimerRestart t =>
    have h1 := Kernel.setTimer_waits (T := T) h t
      { k.timer (.other t) with start := k.clockTime T }
    exact h1.trans (Kernel.addTimer_waits h1.alive t)
  | etimerStop t => exact Kernel.etimerStop_waits h t

/-- **Every kernel step keeps an invariant of the waiting firmware.** -/
theorem kernelStep_steady (l : KernelStep) : I (kernelStep fw T m l) := by
  have halive := hI.alive m h
  cases l with
  | tick d =>
    have htick : Kernel.Alive { m.kernel with clock := m.kernel.clock + d } :=
      halive.congr halive.state (fun _ he => Or.inl he) rfl rfl
    exact hI.waits m _ h
      ⟨⟨htick, ⟨Nat.le_add_right _ _, rfl, rfl, Or.inl rfl⟩, fun _ he _ => he, Or.inl⟩, rfl, rfl⟩
  | call n c =>
    have h1 : Awake T m (m.onKernel fun k => k.setCurrent (some (.other n))) :=
      Awake.onKernel halive halive.state rfl rfl rfl rfl
    have h2 := Call.run_waits (T := T) c h1.waits.alive
    have h3 : Kernel.Alive ((c.run T (m.kernel.setCurrent (some (.other n)))).setCurrent
        m.kernel.current) :=
      h2.alive.congr h2.alive.state (fun _ he => Or.inl he) rfl rfl
    exact hI.waits m _ h ⟨(h1.waits.trans h2).trans (Kernel.Waits.of_eq h3 rfl rfl
      fun _ he _ => he), rfl, rfl⟩
  | start n => exact processStart_steady hI h (by simp)
  | exit n => exact exitProcess_steady hI h (by simp)
  | poll => exact pollIfRequested_steady hI h
  | event => exact doEvent_steady hI h

omit h in
/-- **The rule for runs of kernel steps.** -/
theorem kernelRun_steady (hboot : I (boot fw T)) (ls : List KernelStep) :
    I (ls.foldl (kernelStep fw T) (boot fw T)) :=
  List.foldlRecOn (motive := I) _ _ hboot fun _ h l _ => kernelStep_steady hI h l

end

end WsnAggregation.Contiki
