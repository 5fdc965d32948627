import WsnAggregation.Contiki.Invariant
import WsnAggregation.Contiki.Quiet
import WsnAggregation.Source

/-!
# Runs of a source

What every message that a source sends satisfies, whatever events its process receives and
whatever numbers it draws.

* `generateUniform_mem` — a drawn value lies in its range, on every target.
* `Sendable` — what is known of a message of the source: its sample is in `[-10, 500]`, its mean
  and variance are those of such samples, its id fits.
* `Sound` — the invariant; `sound_run` proves it of every run.
-/

namespace WsnAggregation

open Contiki Lib

/-! ## Drawing -/

section Draw

variable (T : Target)

theorem toUnsigned_coe (z : ℤ) : (T.toUnsigned z : ℤ) = z % 2 ^ T.intBits :=
  Int.toNat_of_nonneg (Int.emod_nonneg _ (by positivity))

theorem toInt_toUnsigned (z : ℤ) : T.toInt (T.toUnsigned z) = T.toInt z := by
  rw [toUnsigned_coe, Target.toInt, Target.toInt]
  exact_mod_cast Int.emod_bmod z (2 ^ T.intBits)

theorem generateUniform_mem (min max : ℤ) (hmin : -32768 ≤ min) (hle : min ≤ max)
    (hmax : max < 32768) (hwidth : max - min < 32768) (r : ℕ) :
    min ≤ generateUniform T r min max ∧ generateUniform T r min max ≤ max := by
  have hpow := T.le_two_pow_intBits
  have hcast : ((2 ^ T.intBits : ℕ) : ℤ) = 2 ^ T.intBits := by push_cast; rfl
  unfold generateUniform
  split_ifs with h16
  · have hn : (T.toUnsigned (max - min + 1) : ℤ) = max - min + 1 := by
      rw [toUnsigned_coe]
      exact Int.emod_eq_of_lt (by omega) (by omega)
    have hr : ((r % T.toUnsigned (max - min + 1) : ℕ) : ℤ) < max - min + 1 := by
      have hlt := Nat.mod_lt r (show 0 < T.toUnsigned (max - min + 1) by omega)
      omega
    have heq : T.toInt (T.toUnsigned (T.toUnsigned min + (r % T.toUnsigned (max - min + 1) : ℕ))) =
        T.toInt (min + (r % T.toUnsigned (max - min + 1) : ℕ)) := by
      rw [toInt_toUnsigned, toUnsigned_coe, Target.toInt, Target.toInt]
      exact_mod_cast Int.emod_add_bmod min (2 ^ T.intBits)
    rw [heq, T.toInt_of_abs_lt (by omega) (by omega)]
    omega
  · rw [Int.tmod_eq_emod_of_nonneg (Int.natCast_nonneg r)]
    have h0 := Int.emod_nonneg (r : ℤ) (show max - min + 1 ≠ 0 by omega)
    have h1 := Int.emod_lt_of_pos (r : ℤ) (show 0 < max - min + 1 by omega)
    omega

end Draw

/-! ## The range of the samples -/

/-- The range in normal operation, or that of the simulated malfunction. -/
def InRange (s : Source) : Prop :=
  (sampleMin - delta ≤ s.min ∧ s.min ≤ sampleMin + delta ∧
    sampleMax - delta ≤ s.max ∧ s.max ≤ sampleMax + delta) ∨ (s.min = 300 ∧ s.max = 500)

/-- What initializing the parameters may change: the two ends and the number of draws. -/
theorem initializeDistributionParam_eq (rand : ℕ → ℕ) (T : Target) (s : Source) :
    initializeDistributionParam rand T s =
      { s with
        min := (initializeDistributionParam rand T s).min
        max := (initializeDistributionParam rand T s).max
        draws := (initializeDistributionParam rand T s).draws } := by
  unfold initializeDistributionParam drawn
  dsimp only
  split_ifs <;> rfl

/-- Ends that were to be drawn are in the range of normal operation. -/
theorem initializeDistributionParam_normal (rand : ℕ → ℕ) (T : Target) {s : Source}
    (hmin : s.min = -1) (hmax : s.max = -1) :
    sampleMin - delta ≤ (initializeDistributionParam rand T s).min ∧
      (initializeDistributionParam rand T s).min ≤ sampleMin + delta ∧
      sampleMax - delta ≤ (initializeDistributionParam rand T s).max ∧
      (initializeDistributionParam rand T s).max ≤ sampleMax + delta := by
  have hlo := generateUniform_mem T (sampleMin - delta) (sampleMin + delta)
    (by decide) (by decide) (by decide) (by decide) (randomRand rand s)
  have hhi := fun s' : Source => generateUniform_mem T (sampleMax - delta)
    (sampleMax + delta) (by decide) (by decide) (by decide) (by decide) (randomRand rand s')
  unfold initializeDistributionParam
  simp only [hmin, if_true, drawn, hmax]
  exact ⟨hlo.1, hlo.2, hhi _⟩

theorem initializeDistributionParam_inRange (rand : ℕ → ℕ) (T : Target) {s : Source}
    (hmin : s.min = -1) (hmax : s.max = -1) :
    InRange (initializeDistributionParam rand T s) :=
  Or.inl (initializeDistributionParam_normal rand T hmin hmax)

theorem InRange.sample_mem {s : Source} (h : InRange s) (T : Target) (r : ℕ) :
    -10 ≤ generateUniform T r s.min s.max ∧ generateUniform T r s.min s.max ≤ 500 := by
  simp only [InRange, sampleMin, sampleMax, delta] at h
  have hmem := generateUniform_mem T s.min s.max (by omega) (by omega) (by omega)
    (by omega) r
  omega

/-! ## One event -/

/-- The memory after the part of a round that looks at the button. -/
def pressed (rand : ℕ → ℕ) (T : Target) (ev : Event) (data : Data) (s : Source) : Source :=
  if ev = .sensors ∧ data = .buttonSensor then pressButton rand T s else s

/-- What one round can do: after the button was looked at, it transmits if the timer has expired
and the source is active, and does nothing else otherwise. -/
theorem sourceEvent_cases (rand : ℕ → ℕ) (T : Target) (nodeId : ℕ) (ev : Event) (data : Data)
    (m : SourceMote) :
    (sourceEvent rand T nodeId ev data m = onSource (pressed rand T ev data) m ∧
      (m.kernel.etimerExpired .app = true → (pressed rand T ev data m.app).active = false)) ∨
    (m.kernel.etimerExpired .app = true ∧ (pressed rand T ev data m.app).active = true ∧
      sourceEvent rand T nodeId ev data m =
        transmit rand T nodeId (onSource (pressed rand T ev data) m)) := by
  have hm : (if ev = .sensors ∧ data = .buttonSensor then onSource (pressButton rand T) m else m) =
      onSource (pressed rand T ev data) m := by
    unfold pressed
    split_ifs <;> rfl
  simp only [sourceEvent, hm, onSource_kernel, onSource_app]
  cases hexp : m.kernel.etimerExpired .app with
  | false => exact Or.inl ⟨rfl, fun h => by cases h⟩
  | true =>
    cases hactive : (pressed rand T ev data m.app).active with
    | false => exact Or.inl ⟨rfl, fun _ => rfl⟩
    | true => exact Or.inr ⟨rfl, rfl, rfl⟩

/-! ## Boot -/

/-- The kernel as the process finds it when it is started. -/
def startKernel : Kernel :=
  ({ bootKernel.setState .app .running with
    processList := [.app, .etimerProcess] }.setState .app .called).setCurrent (some .app)

/-- At boot the process runs to its first wait. -/
theorem boot_source (rand : ℕ → ℕ) (T : Target) (nodeId : ℕ) :
    boot (source rand nodeId) T =
      (startSource rand T nodeId { kernel := startKernel, app := {}, history := [] }).onKernel
        fun k => (k.setState .app .running).setCurrent none := rfl

theorem startSource_started (rand : ℕ → ℕ) (T : Target) (nodeId : ℕ) (m : SourceMote) :
    (startSource rand T nodeId m).app.started = true := by
  have hinit := initializeDistributionParam_eq rand T
    { m.app with started := true, serverIpaddr := serverOf nodeId }
  change (initializeDistributionParam rand T _).started = true
  rw [hinit]

/-! ## The messages sent -/

/-- The messages printed, in order. -/
def printedMessages (h : List (ℕ × SourceAction)) : List Message :=
  h.filterMap fun e => match e.2 with
    | .printed m => some m
    | _ => none

/-- The messages sent, in order, with their destinations. -/
def sentMessages (h : List (ℕ × SourceAction)) : List (Ipaddr × Message) :=
  h.filterMap fun e => match e.2 with
    | .sent dst m => some (dst, m)
    | _ => none

/-- What is known of a message that a source sends. -/
structure Sendable (T : Target) (nodeId : ℕ) (m : Message) : Prop where
  nodeId_eq : m.nodeId = nodeId
  sample_ge : -10 ≤ m.sample
  sample_le : m.sample ≤ 500
  variance_nonneg : 0 ≤ m.variance
  variance_le : m.variance ≤ 250000
  mean_abs : |m.mean| ≤ 500
  mean_of_neg : m.mean < 0 → m.mean ≤ -1 / 100
  msgId_lt : m.msgId < 2 ^ T.longBits

/-- The statistics are those of samples in `[-10, 500]`. -/
structure Statistics (d : Distribution) : Prop where
  ring : Ring d
  moments : Moments d
  bounded : ∀ i, -10 ≤ d.samples i ∧ d.samples i ≤ 500

theorem statistics_init : Statistics {} :=
  ⟨ring_init, moments_init, fun _ => ⟨show (-10 : ℤ) ≤ 0 by decide, show (0 : ℤ) ≤ 500 by decide⟩⟩

theorem Statistics.update {d : Distribution} (h : Statistics d) {sample : ℤ} (hlo : -10 ≤ sample)
    (hhi : sample ≤ 500) : Statistics (updateDistribution sample d) where
  ring := h.ring.update sample
  moments := h.ring.moments sample
  bounded := fun i => by
    by_cases hi : i = d.sampleNum
    · subst hi; simpa [updateDistribution] using ⟨hlo, hhi⟩
    · simpa [updateDistribution, hi] using h.bounded i

theorem Statistics.abs_samples_le {d : Distribution} (h : Statistics d) (i : ℕ) :
    |(d.samples i : ℚ)| ≤ 500 := by
  obtain ⟨hlo, hhi⟩ := h.bounded i
  rw [abs_le]
  constructor
  · have : (-500 : ℤ) ≤ d.samples i := by omega
    exact_mod_cast this
  · exact_mod_cast hhi

theorem Statistics.sendable {T : Target} {nodeId : ℕ} {sample : ℤ} {s : Source}
    (h : Statistics s.distribution) (hlo : -10 ≤ sample) (hhi : sample ≤ 500)
    (hid : s.msgId < 2 ^ T.longBits) : Sendable T nodeId (sourceMessage nodeId sample s) where
  nodeId_eq := rfl
  sample_ge := hlo
  sample_le := hhi
  variance_nonneg := h.moments.variance_nonneg
  variance_le := by
    have hle := h.moments.variance_le (by norm_num) h.abs_samples_le
    norm_num at hle
    exact hle
  mean_abs := h.moments.abs_mean_le (by norm_num) h.abs_samples_le
  mean_of_neg := by
    intro hneg
    have hle := h.moments.mean_le_of_neg hneg
    norm_num [windowSize] at hle ⊢
    exact hle
  msgId_lt := hid

/-! ## The invariant -/

/-- What holds of a source between events. -/
structure Sound (T : Target) (nodeId : ℕ) (s : Source) (h : List (ℕ × SourceAction)) : Prop where
  unset : s.started = false → s.min = -1 ∧ s.max = -1
  range : s.started = true → InRange s
  server : s.started = true → s.serverIpaddr = serverOf nodeId
  statistics : Statistics s.distribution
  sendable : ∀ p ∈ sentMessages h, p.1 = serverOf nodeId ∧ Sendable T nodeId p.2
  /-- If no sample sent was negative, the statistics are those of such samples. -/
  nonneg : (∀ p ∈ sentMessages h, 0 ≤ p.2.sample) →
    (∀ i, 0 ≤ s.distribution.samples i) ∧ ∀ p ∈ sentMessages h, 0 ≤ p.2.mean
  /-- Every message sent was printed. -/
  printed : printedMessages h = (sentMessages h).map Prod.snd
  /-- The ids count the messages. -/
  ids : (sentMessages h).map (fun p => p.2.msgId) =
    (List.range (sentMessages h).length).map fun k => (k + 1) % 2 ^ T.longBits
  msgId : s.msgId = ((sentMessages h).length + 1) % 2 ^ T.longBits

section Run

variable {rand : ℕ → ℕ} {T : Target} {nodeId : ℕ}

theorem sound_init (T : Target) (nodeId : ℕ) : Sound T nodeId {} [] where
  unset := fun _ => ⟨rfl, rfl⟩
  range := fun h => by cases h
  server := fun h => by cases h
  statistics := statistics_init
  sendable := fun p hp => by cases hp
  nonneg := fun _ => ⟨fun _ => le_rfl, fun p hp => by cases hp⟩
  printed := rfl
  ids := rfl
  msgId := by
    have h : 1 < 2 ^ T.longBits := Nat.one_lt_two_pow (by have := T.thirtyTwo_le_longBits; omega)
    exact (Nat.mod_eq_of_lt h).symm

/-- The invariant speaks of these variables only. -/
theorem Sound.congr {s s' : Source} {h : List (ℕ × SourceAction)} (hs : Sound T nodeId s h)
    (hstarted : s'.started = s.started) (hmin : s'.min = s.min) (hmax : s'.max = s.max)
    (hserver : s'.serverIpaddr = s.serverIpaddr) (hdist : s'.distribution = s.distribution)
    (hid : s'.msgId = s.msgId) : Sound T nodeId s' h where
  unset := by rw [hstarted, hmin, hmax]; exact hs.unset
  range := by rw [hstarted, InRange, hmin, hmax]; exact hs.range
  server := by rw [hstarted, hserver]; exact hs.server
  statistics := by rw [hdist]; exact hs.statistics
  sendable := hs.sendable
  nonneg := by rw [hdist]; exact hs.nonneg
  printed := hs.printed
  ids := hs.ids
  msgId := by rw [hid]; exact hs.msgId

theorem sound_initialize {s₀ s : Source} {h : List (ℕ × SourceAction)} (hs : Sound T nodeId s₀ h)
    (hmin : s.min = -1) (hmax : s.max = -1) (hstarted : s.started = true)
    (hserver : s.serverIpaddr = serverOf nodeId) (hdist : s.distribution = s₀.distribution)
    (hid : s.msgId = s₀.msgId) : Sound T nodeId (initializeDistributionParam rand T s) h := by
  have hrange := initializeDistributionParam_inRange rand T hmin hmax
  have hinit := initializeDistributionParam_eq rand T s
  refine {
    unset := fun hfalse => ?_
    range := fun _ => hrange
    server := fun _ => ?_
    statistics := ?_
    sendable := hs.sendable
    nonneg := ?_
    printed := hs.printed
    ids := hs.ids
    msgId := ?_ }
  · rw [hinit] at hfalse
    exact absurd (hstarted.symm.trans hfalse) (by decide)
  · rw [hinit]
    exact hserver
  · rw [hinit]
    exact hdist ▸ hs.statistics
  · rw [hinit]
    exact hdist ▸ hs.nonneg
  · rw [hinit]
    exact hid.trans hs.msgId

theorem sound_start {m : SourceMote} (h : Sound T nodeId m.app m.history)
    (hstarted : m.app.started = false) :
    Sound T nodeId (startSource rand T nodeId m).app (startSource rand T nodeId m).history := by
  obtain ⟨hmin, hmax⟩ := h.unset hstarted
  have hinit : Sound T nodeId (initializeDistributionParam rand T
      { m.app with started := true, serverIpaddr := serverOf nodeId }) m.history :=
    sound_initialize h hmin hmax rfl rfl rfl rfl
  exact hinit.congr rfl rfl rfl rfl rfl rfl

theorem pressButton_started (s : Source) : (pressButton rand T s).started = s.started := by
  unfold pressButton
  split_ifs
  · rfl
  · rfl
  · rw [initializeDistributionParam_eq]

theorem sound_press {m : SourceMote} (h : Sound T nodeId m.app m.history)
    (hstarted : m.app.started = true) : Sound T nodeId (pressButton rand T m.app) m.history := by
  unfold pressButton
  split_ifs with h0 h1
  · exact { h with
      unset := fun hfalse => absurd (hstarted.symm.trans hfalse) (by decide)
      range := fun _ => Or.inr ⟨rfl, rfl⟩ }
  · exact h.congr rfl rfl rfl rfl rfl rfl
  · have hinit : Sound T nodeId (initializeDistributionParam rand T
        { m.app with min := -1, max := -1 }) m.history :=
      sound_initialize h rfl rfl hstarted (h.server hstarted) rfl rfl
    exact hinit.congr rfl rfl rfl rfl rfl rfl

@[simp] theorem printedMessages_append (h₁ h₂ : List (ℕ × SourceAction)) :
    printedMessages (h₁ ++ h₂) = printedMessages h₁ ++ printedMessages h₂ :=
  List.filterMap_append

@[simp] theorem sentMessages_append (h₁ h₂ : List (ℕ × SourceAction)) :
    sentMessages (h₁ ++ h₂) = sentMessages h₁ ++ sentMessages h₂ :=
  List.filterMap_append

/-- The message that a transmission sends. -/
def transmitted (rand : ℕ → ℕ) (T : Target) (nodeId : ℕ) (s : Source) : Message :=
  sourceMessage nodeId (generateUniform T (randomRand rand s) s.min s.max) (takeSample rand T s)

theorem transmit_history (m : SourceMote) :
    (transmit rand T nodeId m).history = m.history ++
      [(m.kernel.clock, .printed (transmitted rand T nodeId m.app)),
        (m.kernel.clock, .sent m.app.serverIpaddr (transmitted rand T nodeId m.app))] :=
  List.append_assoc m.history [_] [_]

theorem sound_transmit {m : SourceMote} (h : Sound T nodeId m.app m.history)
    (hstarted : m.app.started = true) :
    Sound T nodeId (transmit rand T nodeId m).app (transmit rand T nodeId m).history := by
  have hsample := (h.range hstarted).sample_mem T (randomRand rand m.app)
  have hstat := h.statistics.update hsample.1 hsample.2
  have hid : m.app.msgId < 2 ^ T.longBits := by
    rw [h.msgId]
    exact Nat.mod_lt _ (by positivity)
  have hsendable : Sendable T nodeId (transmitted rand T nodeId m.app) :=
    Statistics.sendable (s := takeSample rand T m.app) hstat hsample.1 hsample.2 hid
  have hprinted : printedMessages (transmit rand T nodeId m).history =
      printedMessages m.history ++ [transmitted rand T nodeId m.app] := by
    rw [transmit_history, printedMessages_append]
    rfl
  have hsent : sentMessages (transmit rand T nodeId m).history =
      sentMessages m.history ++ [(m.app.serverIpaddr, transmitted rand T nodeId m.app)] := by
    rw [transmit_history, sentMessages_append]
    rfl
  refine {
    unset := fun hfalse => ?_
    range := fun _ => h.range hstarted
    server := fun _ => h.server hstarted
    statistics := hstat
    sendable := fun p hp => ?_
    nonneg := fun hall => ?_
    printed := ?_
    ids := ?_
    msgId := ?_ }
  · exact absurd (hstarted.symm.trans hfalse) (by decide)
  · rw [hsent, List.mem_append, List.mem_singleton] at hp
    rcases hp with hp | rfl
    · exact h.sendable p hp
    · exact ⟨h.server hstarted, hsendable⟩
  · rw [hsent, List.forall_mem_append, List.forall_mem_singleton] at hall ⊢
    obtain ⟨hsamples, hmeans⟩ := h.nonneg hall.1
    have hnew : 0 ≤ generateUniform T (randomRand rand m.app) m.app.min m.app.max := hall.2
    have hupdated : ∀ i, 0 ≤ (takeSample rand T m.app).distribution.samples i := by
      intro i
      by_cases hi : i = m.app.distribution.sampleNum
      · subst hi
        simpa [takeSample, updateDistribution] using hnew
      · simpa [takeSample, updateDistribution, hi] using hsamples i
    exact ⟨hupdated, hmeans, hstat.moments.mean_nonneg hupdated⟩
  · rw [hprinted, hsent, h.printed, List.map_append]
    rfl
  · rw [hsent, List.map_append, h.ids, List.length_append, List.length_singleton,
      List.range_succ, List.map_append]
    change _ ++ [m.app.msgId] = _
    rw [h.msgId]
    rfl
  · rw [hsent, List.length_append, List.length_singleton]
    change (m.app.msgId + 1) % 2 ^ T.longBits = _
    rw [h.msgId, Nat.mod_add_mod]

theorem sound_event {m : SourceMote} (h : Sound T nodeId m.app m.history)
    (hstarted : m.app.started = true) (ev : Event) (data : Data) :
    Sound T nodeId (sourceEvent rand T nodeId ev data m).app
      (sourceEvent rand T nodeId ev data m).history := by
  have hpressed : (pressed rand T ev data m.app).started = true ∧
      Sound T nodeId (pressed rand T ev data m.app) m.history := by
    unfold pressed
    split_ifs
    · exact ⟨(pressButton_started m.app).trans hstarted, sound_press h hstarted⟩
    · exact ⟨hstarted, h⟩
  rcases sourceEvent_cases rand T nodeId ev data m with ⟨heq, -⟩ | ⟨-, -, heq⟩
  · rw [heq]
    exact hpressed.2
  · rw [heq]
    exact sound_transmit (m := onSource (pressed rand T ev data) m) hpressed.2 hpressed.1

/-- Every event preserves the invariant. -/
theorem source_preserves : (source rand nodeId).Preserves T (Sound T nodeId) := by
  intro ev data m hm
  simp only [source]
  cases hstarted : m.app.started with
  | true => exact sound_event hm hstarted ev data
  | false => exact sound_start hm hstarted

/-- **The invariant of a source holds after every run.** -/
theorem sound_run (rand : ℕ → ℕ) (T : Target) (nodeId : ℕ) (steps : List KernelStep) :
    Sound T nodeId (sourceRun rand T nodeId steps).app (sourceRun rand T nodeId steps).history :=
  kernelRun_holds source_preserves (sound_init T nodeId) steps

/-- The outputs of a source are never taken back. -/
theorem sourceEvent_prefix (ev : Event) (data : Data) (m : SourceMote) :
    m.history <+: (sourceEvent rand T nodeId ev data m).history := by
  rcases sourceEvent_cases rand T nodeId ev data m with ⟨heq, -⟩ | ⟨-, -, heq⟩
  · rw [heq]
    exact List.prefix_refl _
  · rw [heq, transmit_history]
    exact List.prefix_append _ _

theorem source_appends : (source rand nodeId).Appends T := by
  intro ev data m
  simp only [source]
  split_ifs
  · exact sourceEvent_prefix ev data m
  · exact List.prefix_refl _

end Run

end WsnAggregation
