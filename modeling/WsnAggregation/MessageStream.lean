import WsnAggregation.SourceRun
import WsnAggregation.Window

/-!
# The message stream of a source

What a source sends, event by event. The process is looked at from its first wait on: a run is
the list of events delivered to it, and the kernel may be in any state at each of them, so that
timers expire, or not, at any moment.

* `Phase` — the presses of the button so far, modulo 3, decide whether samples are normal, faulty
  or not taken at all.
* `message_stream` — ids, statistics and samples of the messages sent, for every list of events.
* `sourceRun_served` — a run of the whole mote is one of these.
-/

namespace WsnAggregation

open Contiki Lib

/-! ## Events delivered -/

/-- An event delivered to the process, with the kernel as the process finds it. -/
structure Delivery where
  kernel : Kernel
  ev : Event
  data : Data

/-- The event is a press of the button. -/
def Delivery.isPress (d : Delivery) : Bool := d.ev = .sensors ∧ d.data = .buttonSensor

/-- The presses of the button among the events. -/
def presses (ds : List Delivery) : ℕ := ds.countP Delivery.isPress

theorem presses_concat (ds : List Delivery) (d : Delivery) :
    presses (ds ++ [d]) = presses ds + if d.isPress then 1 else 0 := by
  rw [presses, List.countP_append, List.countP_singleton, presses]

section Served

variable (rand : ℕ → ℕ) (T : Target) (nodeId : ℕ)

/-- The process at its first wait. -/
def startedOn (k : Kernel) : SourceMote :=
  startSource rand T nodeId { kernel := k, app := {}, history := [] }

/-- The process is called with an event. -/
def deliver (m : SourceMote) (d : Delivery) : SourceMote :=
  sourceEvent rand T nodeId d.ev d.data { m with kernel := d.kernel }

/-- The process after a list of events. -/
def served (k : Kernel) (ds : List Delivery) : SourceMote :=
  ds.foldl (deliver rand T nodeId) (startedOn rand T nodeId k)

theorem served_concat (k : Kernel) (ds : List Delivery) (d : Delivery) :
    served rand T nodeId k (ds ++ [d]) = deliver rand T nodeId (served rand T nodeId k ds) d := by
  simp [served, List.foldl_append]

/-- The messages sent. -/
def messagesSent (k : Kernel) (ds : List Delivery) : List Message :=
  (sentMessages (served rand T nodeId k ds).history).map Prod.snd

/-- The messages sent while the process handles the event after `past`. -/
def sentOn (k : Kernel) (past : List Delivery) (d : Delivery) : List Message :=
  (messagesSent rand T nodeId k (past ++ [d])).drop (messagesSent rand T nodeId k past).length

end Served

/-! ## The phases -/

/-- The variables of a source whose button was pressed `p` times. -/
structure Phase (p : ℕ) (s : Source) : Prop where
  btnCount : s.btnCount = p % 3
  active : s.active = decide (p % 3 ≠ 2)
  normal : p % 3 = 0 → sampleMin - delta ≤ s.min ∧ s.min ≤ sampleMin + delta ∧
    sampleMax - delta ≤ s.max ∧ s.max ≤ sampleMax + delta
  faulty : p % 3 ≠ 0 → s.min = 300 ∧ s.max = 500

section Press

variable {p : ℕ} {s : Source}

/-- Drawing the ends again, a source is back in normal operation. -/
theorem Phase.initialize (rand : ℕ → ℕ) (T : Target) (hp : p % 3 = 0) (hmin : s.min = -1)
    (hmax : s.max = -1) :
    Phase p { initializeDistributionParam rand T s with active := true, btnCount := 0 } where
  btnCount := hp.symm
  active := (decide_eq_true (by omega)).symm
  normal := fun _ => initializeDistributionParam_normal rand T hmin hmax
  faulty := fun h => absurd hp h

theorem Phase.press (h : Phase p s) (rand : ℕ → ℕ) (T : Target) :
    Phase (p + 1) (pressButton rand T s) := by
  have hbtn := h.btnCount
  unfold pressButton
  split_ifs with h0 h1
  · exact {
      btnCount := by simp only; omega
      active := h.active.trans (decide_eq_decide.2 (by omega))
      normal := fun h3 => by omega
      faulty := fun _ => ⟨rfl, rfl⟩ }
  · exact {
      btnCount := by simp only; omega
      active := (decide_eq_false (by omega)).symm
      normal := fun h3 => by omega
      faulty := fun _ => h.faulty (by omega) }
  · exact Phase.initialize rand T (by omega) rfl rfl

theorem Phase.sample_mem (h : Phase p s) (T : Target) (r : ℕ) :
    (p % 3 ≠ 0 → 300 ≤ generateUniform T r s.min s.max ∧ generateUniform T r s.min s.max ≤ 500) ∧
      s.min ≤ generateUniform T r s.min s.max ∧ generateUniform T r s.min s.max ≤ s.max := by
  have hnormal := h.normal
  have hfaulty := h.faulty
  simp only [sampleMin, sampleMax, delta] at hnormal
  have hmem := generateUniform_mem T s.min s.max (by omega) (by omega) (by omega) (by omega) r
  exact ⟨by omega, hmem⟩

end Press

/-! ## The stream -/

/-- What a message must show, after the messages before it. -/
def Follows (T : Target) (nodeId : ℕ) (past : List Message) (m : Message) : Prop :=
  m.msgId = (past.length + 1) % 2 ^ T.longBits ∧ m.nodeId = nodeId ∧
    m.mean = (statisticsOf ((past ++ [m]).map Message.sample)).mean ∧
    m.variance = (statisticsOf ((past ++ [m]).map Message.sample)).variance

/-- The variables of a source whose button was pressed `p` times and that has sent `sent`. -/
structure Streaming (T : Target) (nodeId p : ℕ) (s : Source) (sent : List Message) : Prop where
  phase : Phase p s
  distribution : s.distribution = statisticsOf (sent.map Message.sample)
  msgId : s.msgId = (sent.length + 1) % 2 ^ T.longBits
  follows : EachWithPast (Follows T nodeId) sent

section Stream

variable {rand : ℕ → ℕ} {T : Target} {nodeId p : ℕ}

/-- A press changes the phase only. -/
theorem streaming_press {s : Source} {sent : List Message} (h : Streaming T nodeId p s sent) :
    Streaming T nodeId (p + 1) (pressButton rand T s) sent := by
  have hsame : (pressButton rand T s).distribution = s.distribution ∧
      (pressButton rand T s).msgId = s.msgId := by
    unfold pressButton
    split_ifs
    · exact ⟨rfl, rfl⟩
    · exact ⟨rfl, rfl⟩
    · rw [initializeDistributionParam_eq]
      exact ⟨rfl, rfl⟩
  exact ⟨h.phase.press rand T, hsame.1.trans h.distribution, hsame.2.trans h.msgId, h.follows⟩

/-- The message sent continues the stream. -/
theorem streaming_transmit {m : SourceMote} {sent : List Message}
    (h : Streaming T nodeId p m.app sent) :
    Streaming T nodeId p (transmit rand T nodeId m).app
      (sent ++ [transmitted rand T nodeId m.app]) := by
  have hdist : (takeSample rand T m.app).distribution =
      statisticsOf ((sent ++ [transmitted rand T nodeId m.app]).map Message.sample) := by
    rw [List.map_append, List.map_singleton, statisticsOf_concat, ← h.distribution]
    rfl
  refine {
    phase := ⟨h.phase.btnCount, h.phase.active, h.phase.normal, h.phase.faulty⟩
    distribution := hdist
    msgId := ?_
    follows := h.follows.concat ⟨h.msgId, rfl, ?_, ?_⟩ }
  · change (m.app.msgId + 1) % 2 ^ T.longBits = _
    rw [h.msgId, Nat.mod_add_mod, List.length_append, List.length_singleton]
  · exact congrArg Distribution.mean hdist
  · exact congrArg Distribution.variance hdist

theorem presses_concat_eq (rand : ℕ → ℕ) (T : Target) (ds : List Delivery) (d : Delivery)
    (s : Source) :
    (presses (ds ++ [d]) = presses ds ∧ pressed rand T d.ev d.data s = s) ∨
      (presses (ds ++ [d]) = presses ds + 1 ∧ pressed rand T d.ev d.data s = pressButton rand T s) := by
  rw [presses_concat, pressed, Delivery.isPress]
  by_cases hpress : d.ev = .sensors ∧ d.data = .buttonSensor
  · rw [if_pos (decide_eq_true hpress), if_pos hpress]
    exact Or.inr ⟨rfl, rfl⟩
  · rw [if_neg (by simpa using hpress), if_neg hpress]
    exact Or.inl ⟨rfl, rfl⟩

theorem streaming_pressed (rand : ℕ → ℕ) {ds : List Delivery} {s : Source} {sent : List Message}
    (h : Streaming T nodeId (presses ds) s sent) (d : Delivery) :
    Streaming T nodeId (presses (ds ++ [d])) (pressed rand T d.ev d.data s) sent := by
  rcases presses_concat_eq rand T ds d s with ⟨hp, hs⟩ | ⟨hp, hs⟩
  · rw [hp, hs]
    exact h
  · rw [hp, hs]
    exact streaming_press h

theorem streaming_startedOn (k : Kernel) :
    Streaming T nodeId 0 (startedOn rand T nodeId k).app [] := by
  have hinit := initializeDistributionParam_eq rand T
    { started := true, serverIpaddr := serverOf nodeId }
  have happ : (startedOn rand T nodeId k).app = drawn (initializeDistributionParam rand T
      { started := true, serverIpaddr := serverOf nodeId }) := rfl
  have hnormal := initializeDistributionParam_normal rand T
    (s := { started := true, serverIpaddr := serverOf nodeId }) rfl rfl
  refine {
    phase := ⟨?_, ?_, fun _ => hnormal, fun h => absurd rfl h⟩
    distribution := ?_
    msgId := ?_
    follows := EachWithPast.nil _ }
  · rw [happ, hinit]
    rfl
  · rw [happ, hinit]
    rfl
  · rw [happ, hinit]
    rfl
  · have hlong : 1 < 2 ^ T.longBits := Nat.one_lt_two_pow (by have := T.thirtyTwo_le_longBits; omega)
    rw [happ, hinit]
    exact (Nat.mod_eq_of_lt hlong).symm

/-- What a message sent after `p` presses must show, `s` being the memory of the source. -/
def InPhase (p : ℕ) (s : Source) (m : Message) : Prop :=
  p % 3 ≠ 2 ∧ (p % 3 = 1 → 300 ≤ m.sample ∧ m.sample ≤ 500) ∧
    (p % 3 = 0 → sampleMin - delta ≤ s.min ∧ s.min ≤ sampleMin + delta ∧
      sampleMax - delta ≤ s.max ∧ s.max ≤ sampleMax + delta ∧
      s.min ≤ m.sample ∧ m.sample ≤ s.max)

theorem Phase.inPhase {m : SourceMote} (h : Phase p m.app) (hactive : m.app.active = true) :
    InPhase p (transmit rand T nodeId m).app (transmitted rand T nodeId m.app) := by
  have hmem := h.sample_mem T (randomRand rand m.app)
  rw [h.active, decide_eq_true_iff] at hactive
  refine ⟨hactive, fun h1 => hmem.1 (by omega), fun h0 => ?_⟩
  obtain ⟨hmin, hmin', hmax, hmax'⟩ := h.normal h0
  exact ⟨hmin, hmin', hmax, hmax', hmem.2⟩

/-- What one event makes of the stream: it stays as it was, or goes on by messages of the
phase. -/
theorem streaming_deliver {m : SourceMote} {ds : List Delivery} {sent : List Message}
    (hsent : (sentMessages m.history).map Prod.snd = sent)
    (h : Streaming T nodeId (presses ds) m.app sent) (d : Delivery) :
    ∃ new, (sentMessages (deliver rand T nodeId m d).history).map Prod.snd = sent ++ new ∧
      Streaming T nodeId (presses (ds ++ [d])) (deliver rand T nodeId m d).app (sent ++ new) ∧
      ∀ x ∈ new, InPhase (presses (ds ++ [d])) (deliver rand T nodeId m d).app x := by
  have hpressed := streaming_pressed rand h d
  obtain ⟨m', hm'⟩ : ∃ m', m' = onSource (pressed rand T d.ev d.data) { m with kernel := d.kernel } :=
    ⟨_, rfl⟩
  have happ : m'.app = pressed rand T d.ev d.data m.app := by
    rw [hm']
    rfl
  have hhist : m'.history = m.history := by
    rw [hm']
    rfl
  have hcases := sourceEvent_cases rand T nodeId d.ev d.data { m with kernel := d.kernel }
  rw [← hm', ← deliver, ← happ] at hcases
  rw [← happ] at hpressed
  rcases hcases with ⟨heq, -⟩ | ⟨-, hactive, heq⟩
  · rw [heq, hhist, hsent]
    exact ⟨[], (List.append_nil sent).symm, by rwa [List.append_nil], fun x hx => by cases hx⟩
  · refine ⟨[transmitted rand T nodeId m'.app], ?_, ?_, fun x hx => ?_⟩
    · rw [heq, transmit_history, sentMessages_append, List.map_append, hhist, hsent]
      rfl
    · rw [heq]
      exact streaming_transmit hpressed
    · rw [List.mem_singleton.1 hx, heq]
      exact hpressed.phase.inPhase hactive

end Stream

/-! ## Every run -/

section Run

variable (rand : ℕ → ℕ) (T : Target) (nodeId : ℕ) (k : Kernel)

theorem streaming_served (ds : List Delivery) :
    Streaming T nodeId (presses ds) (served rand T nodeId k ds).app
      (messagesSent rand T nodeId k ds) := by
  induction ds using List.reverseRecOn with
  | nil => exact streaming_startedOn k
  | append_singleton ds d ih =>
    obtain ⟨new, hnew, hstream, -⟩ := streaming_deliver rfl ih d
    rw [messagesSent, served_concat, hnew]
    exact hstream

theorem messagesSent_concat (past : List Delivery) (d : Delivery) :
    messagesSent rand T nodeId k (past ++ [d]) =
        messagesSent rand T nodeId k past ++ sentOn rand T nodeId k past d ∧
      ∀ m ∈ sentOn rand T nodeId k past d,
        InPhase (presses (past ++ [d])) (served rand T nodeId k (past ++ [d])).app m := by
  have hsent : (sentMessages (served rand T nodeId k past).history).map Prod.snd =
      messagesSent rand T nodeId k past := rfl
  obtain ⟨new, hnew, -, hphase⟩ :=
    streaming_deliver hsent (streaming_served rand T nodeId k past) d
  rw [← served_concat, ← messagesSent] at hnew
  rw [← served_concat] at hphase
  rw [sentOn, hnew, List.drop_left]
  exact ⟨rfl, hphase⟩

/-- The messages that a source sends, while it handles the events `ds`. -/
structure MessageStream (ds : List Delivery) : Prop where
  /-- Messages sent are not taken back. -/
  grows : EachWithPast (fun past d => messagesSent rand T nodeId k (past ++ [d]) =
    messagesSent rand T nodeId k past ++ sentOn rand T nodeId k past d) ds
  /-- The `n`-th message has the id `n`, and the statistics of the first `n` samples. -/
  follows : EachWithPast (Follows T nodeId) (messagesSent rand T nodeId k ds)
  /-- A message is sent in normal operation or as a faulty source. -/
  phases : EachWithPast (fun past d => ∀ m ∈ sentOn rand T nodeId k past d,
    InPhase (presses (past ++ [d])) (served rand T nodeId k (past ++ [d])).app m) ds

/-- **The message stream is right after every sequence of events**, whatever numbers are drawn and
whenever the timer expires. -/
theorem message_stream (ds : List Delivery) : MessageStream rand T nodeId k ds where
  grows := fun past d _ _ => (messagesSent_concat rand T nodeId k past d).1
  follows := (streaming_served rand T nodeId k ds).follows
  phases := fun past d _ _ => (messagesSent_concat rand T nodeId k past d).2

/-! ## Runs of the mote -/

/-- The memory and the outputs are those after some list of events. -/
def Served (s : Source) (h : List (ℕ × SourceAction)) : Prop :=
  ∃ k ds, s.started = true ∧ s = (served rand T nodeId k ds).app ∧
    h = (served rand T nodeId k ds).history

theorem started_event (ev : Event) (data : Data) (m : SourceMote) (h : m.app.started = true) :
    (sourceEvent rand T nodeId ev data m).app.started = true := by
  have hpressed : (pressed rand T ev data m.app).started = true := by
    unfold pressed
    split_ifs
    · rw [pressButton_started, h]
    · exact h
  rcases sourceEvent_cases rand T nodeId ev data m with ⟨heq, -⟩ | ⟨-, -, heq⟩
  · rw [heq]
    exact hpressed
  · rw [heq]
    exact hpressed

theorem served_preserves : (source rand nodeId).Preserves T (Served rand T nodeId) := by
  intro ev data m ⟨k, ds, hstarted, happ, hhist⟩
  have hdeliver : served rand T nodeId k (ds ++ [⟨m.kernel, ev, data⟩]) =
      sourceEvent rand T nodeId ev data m := by
    rw [served_concat, deliver]
    dsimp only
    rw [← happ, ← hhist]
  simp only [source, hstarted, if_true]
  refine ⟨k, ds ++ [⟨m.kernel, ev, data⟩], started_event rand T nodeId ev data m hstarted, ?_, ?_⟩
  · rw [hdeliver]
  · rw [hdeliver]

theorem served_boot : (boot (source rand nodeId) T).Holds (Served rand T nodeId) := by
  rw [boot_source]
  refine ⟨startKernel, [], ?_, ?_, ?_⟩
  · rw [Mote.onKernel_app]
    exact startSource_started rand T nodeId _
  · rw [Mote.onKernel_app, served, List.foldl_nil, startedOn]
  · rw [Mote.onKernel_history, served, List.foldl_nil, startedOn]

/-- **A run of the mote serves some list of events.** -/
theorem sourceRun_served (steps : List KernelStep) :
    (sourceRun rand T nodeId steps).Holds (Served rand T nodeId) :=
  foldl_holds _ (fun _ l hm => kernelStep_holds (served_preserves rand T nodeId) hm l) steps
    (served_boot rand T nodeId)

end Run

end WsnAggregation
