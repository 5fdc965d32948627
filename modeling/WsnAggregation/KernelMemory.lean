import WsnAggregation.Contiki.Trace
import WsnAggregation.Network
import WsnAggregation.Timing

/-!
# The kernel's memory under the firmware

The results on the firmware rest on timers and events as lists. Here the lists are traced back to
the memory of each mote.

* `memory_represents_iff` — the memory holds the lists after any operations, exactly when the queue
  of events has at most 128 places.
* `network_memory` — then every mote has a memory that goes along with the network, step by step,
  in every run.
-/

namespace WsnAggregation

open Contiki Lib

theorem represents_of_trace {T : Target} (hnarrow : T.numEvents ≤ 128) {ops : List KernelOp}
    {k : Kernel} (ht : Trace T bootKernel ops k) (events : ℕ → EventData) {rounds : ℕ}
    (hr : ops.length ≤ rounds) :
    ∃ m, Memory.run T rounds ops (bootMemory events) = some m ∧ Represents T m k := by
  have howned : bootKernel.Owned := fun t ht => by cases ht
  obtain ⟨m, hm, hrep, -⟩ :=
    (represents_boot T events).run hnarrow howned ht ((Nat.zero_add _).trans_le hr)
  exact ⟨m, hm, hrep⟩

/-! ## Motes -/

section Motes

variable {T : Target} {nodeId : ℕ}

theorem aggregator_operates (T : Target) (nodeId : ℕ) : (aggregator nodeId).Operates T :=
  fun _ _ _ _ => Reaches.refl _

theorem handle_kernel (nodeId : ℕ) (d : Payload) (m : AggMote) :
    (handle nodeId d m).kernel = m.kernel := by
  have hslots : ∀ (message : Message) (l : List (Fin numNodes)) (m : AggMote),
      (l.foldl (storeSlot message) m).kernel = m.kernel := by
    intro message l
    induction l with
    | nil => exact fun m => rfl
    | cons i l ih =>
      intro m
      rw [List.foldl_cons, ih]
      unfold storeSlot
      split_ifs <;> rfl
  unfold handle
  cases d with
  | message message =>
    dsimp only
    split_ifs
    · exact hslots message _ m
    · rfl
  | messageAgg a =>
    dsimp only
    split_ifs <;> rfl
  | other n => rfl

theorem receive_reaches (d : Payload) (m : AggMote) :
    Reaches T m.kernel (receive T nodeId d m).kernel := by
  have hset : Reaches T m.kernel (m.kernel.setCurrent (some .app)) := Reaches.setCurrent _ _
  have hentered : Reaches T m.kernel (entered T nodeId d m).kernel := by
    by_cases h : m.app.messageCount = 0
    · rw [entered_kernel_of_empty T nodeId d m h]
      exact hset.trans (Reaches.start (.etimerSet .app T.timeoutThreshold) rfl
        (by simp [Kernel.setCurrent]))
    · rw [entered_kernel_of_open T nodeId d m h]
      exact hset
  have hclosed : Reaches T (entered T nodeId d m).kernel
      (closed T nodeId (handle nodeId d (entered T nodeId d m))).kernel := by
    unfold closed
    split_ifs
    · rw [flush_kernel, handle_kernel]
      exact Reaches.start (.etimerReset .app) rfl (by rw [entered_current]; simp)
    · rw [handle_kernel]
      exact Reaches.refl _
  rw [receive_eq]
  exact (hentered.trans hclosed).trans (Reaches.setCurrent _ _)

theorem aggStep_operated (m : AggMote) (l : AggStep) :
    Operated T m.kernel (aggStep T nodeId m l).kernel := by
  cases l with
  | kernel l => exact kernelStep_operated (aggregator_operates T nodeId) m l
  | recv d => exact (receive_reaches d m).operated

theorem source_operates (rand : ℕ → ℕ) (T : Target) (nodeId : ℕ) :
    (source rand nodeId).Operates T := by
  intro ev data m hcurrent
  have hstart : ∀ interval,
      Reaches T m.kernel (m.kernel.etimerSet T .app interval) := fun interval =>
    Reaches.start (.etimerSet .app interval) rfl hcurrent
  unfold source
  dsimp only
  split_ifs
  · unfold sourceEvent
    have hpress : ∀ pressed : SourceMote, pressed.kernel = m.kernel →
        Reaches T m.kernel (if pressed.kernel.etimerExpired .app && pressed.app.active then
          transmit rand T nodeId pressed else pressed).kernel := by
      intro pressed hsame
      split_ifs
      · have htransmit : (transmit rand T nodeId pressed).kernel = pressed.kernel.etimerSet T .app
            (T.sendInterval + randomRand rand (takeSample rand T pressed.app) %
              (2 * T.clockSecond)) := rfl
        rw [htransmit, hsame]
        exact hstart _
      · rw [hsame]
        exact Reaches.refl _
    apply hpress
    split_ifs <;> rfl
  · exact hstart _

end Motes

section Steps

variable (rand : SourceNode → ℕ → ℕ) (T : Target) (net : Network) (l : NetStep)

theorem netStep_agg_operated (n : AggNode) :
    Operated T (net.agg n).kernel ((netStep rand T net l).agg n).kernel := by
  have hput : ∀ (net' : Network) n' (l : AggStep), net'.agg = net.agg →
      Operated T (net.agg n).kernel
        ((net'.putAgg T n' (aggStep T n'.nodeId (net.agg n') l)).agg n).kernel := by
    intro net' n' l hsame
    have hagg : (net'.putAgg T n' (aggStep T n'.nodeId (net.agg n') l)).agg n =
        Function.update net'.agg n' (aggStep T n'.nodeId (net.agg n') l) n := rfl
    rw [hagg]
    by_cases hn : n = n'
    · subst hn
      rw [Function.update_self]
      exact aggStep_operated (net.agg n) l
    · rw [Function.update_of_ne hn, hsame]
      exact Operated.refl T _
  cases l with
  | agg n' l => exact hput net n' (.kernel l) rfl
  | deliver i =>
    unfold netStep
    dsimp only
    split
    · exact Operated.refl T _
    · split
      · exact Operated.refl T _
      · rename_i n' _
        exact hput { net with inFlight := net.inFlight.eraseIdx i } n' (.recv _) rfl
  | _ => exact Operated.refl T _

theorem netStep_source_operated (s : SourceNode) :
    Operated T (net.source s).kernel ((netStep rand T net l).source s).kernel := by
  by_cases hl : ∃ k, l = .source s k
  · obtain ⟨k, rfl⟩ := hl
    rw [netStep_source_self]
    exact kernelStep_operated (source_operates (rand s) T s.nodeId) _ k
  · rw [netStep_source_of_ne rand T net fun k hk => hl ⟨k, hk⟩]
    exact Operated.refl T _

end Steps

/-! ## How long the queue may be -/

section Capacity

variable {T : Target} {k : Kernel} {m : Memory}

/-- An event of its own for every number. -/
def numberedEvent (n : ℕ) : EventData := ⟨.other n, .null, none⟩

/-- The operation that posts it. -/
def postNumbered (n : ℕ) : KernelOp := .post none (.other n) .null

/-- Post events, one after the other. -/
def posts : ℕ → List KernelOp
  | 0 => []
  | n + 1 => posts n ++ [postNumbered n]

/-- Move the queue round the array: post an event and take it off, again and again. -/
def turns : ℕ → List KernelOp
  | 0 => []
  | n + 1 => turns n ++ [postNumbered 0] ++ [.takeEvent]

theorem postNumbered_allowed (n : ℕ) : (postNumbered n).Allowed k :=
  KernelOp.allowed_of_not_starts rfl (by simp [postNumbered])

theorem events_postNumbered (hroom : k.events.length ≠ T.numEvents) (n : ℕ) :
    ((postNumbered n).run T k).events = k.events ++ [numberedEvent n] := by
  simp only [postNumbered, KernelOp.run, Kernel.processPost, if_neg hroom]
  rfl

/-- The event is written where eight bits say, and counted in eight bits. -/
theorem postNumbered_memory (hroom : m.nevents ≠ T.numEvents) (n : ℕ) :
    ∃ m', (∀ rounds, (postNumbered n).runMemory T rounds m = some m') ∧ m'.fevent = m.fevent ∧
      m'.nevents = Memory.toNumEvents (m.nevents + 1) ∧
      m'.events (Memory.toNumEvents (m.fevent + m.nevents) % T.numEvents) = numberedEvent n := by
  simp only [postNumbered, KernelOp.runMemory, Memory.processPost, if_neg hroom]
  exact ⟨_, fun _ => rfl, rfl, rfl, Function.update_self ..⟩

/-- The queue fills up: on the lists with every event, on the memory as far as eight bits go. -/
theorem posts_run (hk : k.events = []) (hm : m.nevents = 0) {n : ℕ}
    (hn : n ≤ T.numEvents) :
    ∃ k' m', Trace T k (posts n) k' ∧ k'.events = (List.range n).map numberedEvent ∧
      (∀ rounds, Memory.run T rounds (posts n) m = some m') ∧ m'.fevent = m.fevent ∧
      m'.nevents = Memory.toNumEvents n ∧
      ∀ i, n = i + 1 → m'.events
        (Memory.toNumEvents (m.fevent + Memory.toNumEvents i) % T.numEvents) =
          numberedEvent i := by
  induction n with
  | zero => exact ⟨k, m, .nil k, hk, fun _ => rfl, rfl, hm, fun i hi => by cases hi⟩
  | succ n ih =>
    obtain ⟨k', m', ht, hev, hrun, hfirst, hcount, -⟩ := ih (Nat.le_of_succ_le hn)
    have hroom : k'.events.length ≠ T.numEvents := by
      rw [hev, List.length_map, List.length_range]
      omega
    have hroom' : m'.nevents ≠ T.numEvents := by
      have hle : Memory.toNumEvents n ≤ n := Nat.mod_le n 256
      rw [hcount]
      omega
    obtain ⟨m'', hm'', hfirst'', hcount'', hslot⟩ := postNumbered_memory hroom' n
    refine ⟨_, m'', ht.concat (postNumbered_allowed n), ?_, ?_, hfirst''.trans hfirst, ?_,
      fun i hi => ?_⟩
    · rw [events_postNumbered hroom, hev, List.range_succ, List.map_append]
      rfl
    · intro rounds
      rw [posts, Memory.run_concat (hrun rounds)]
      exact hm'' rounds
    · rw [hcount'', hcount, Memory.toNumEvents, Memory.toNumEvents, Memory.toNumEvents,
        Nat.mod_add_mod]
    · obtain rfl := Nat.succ.inj hi
      rw [hfirst, hcount] at hslot
      exact hslot

theorem turns_run (hnum : T.numEvents ≤ 256) (events : ℕ → EventData) {n : ℕ}
    (hn : n < T.numEvents) :
    ∃ k m, Trace T bootKernel (turns n) k ∧ k.events = [] ∧
      (∀ rounds, Memory.run T rounds (turns n) (bootMemory events) = some m) ∧ m.fevent = n ∧
      m.nevents = 0 := by
  induction n with
  | zero => exact ⟨_, _, .nil _, rfl, fun _ => rfl, rfl, rfl⟩
  | succ n ih =>
    obtain ⟨k, m, ht, hev, hrun, hfirst, hcount⟩ := ih (Nat.lt_of_succ_lt hn)
    have hroom : k.events.length ≠ T.numEvents := by
      rw [hev]
      exact T.numEvents_pos.ne
    have hroom' : m.nevents ≠ T.numEvents := by
      rw [hcount]
      exact T.numEvents_pos.ne
    obtain ⟨m', hm', hfirst', hcount', -⟩ := postNumbered_memory hroom' 0
    have hone : m'.nevents = 1 := by
      rw [hcount', hcount]
      rfl
    have htake : Memory.takeEvent T m' =
        { m' with
          fevent := Memory.toNumEvents ((m'.fevent + 1) % T.numEvents)
          nevents := m'.nevents - 1 } := by
      unfold Memory.takeEvent
      rw [if_pos (by rw [hone]; exact Nat.one_pos)]
    have hallowed : ∀ k, KernelOp.takeEvent.Allowed k := fun k =>
      KernelOp.allowed_of_not_starts rfl (by simp)
    refine ⟨_, Memory.takeEvent T m', (ht.concat (postNumbered_allowed 0)).concat (hallowed _),
      ?_, ?_, ?_, ?_⟩
    · have htail : ∀ k, (KernelOp.takeEvent.run T k).events = k.events.tail := fun _ => rfl
      rw [htail, events_postNumbered hroom, hev]
      rfl
    · intro rounds
      have hpost := (Memory.run_concat (hrun rounds)).trans (hm' rounds)
      rw [turns, Memory.run_concat hpost]
      rfl
    · have hlt : (n + 1) % T.numEvents = n + 1 := Nat.mod_eq_of_lt hn
      rw [htake, hfirst', hfirst]
      dsimp only
      rw [hlt]
      exact Nat.mod_eq_of_lt (by omega)
    · rw [htake]
      dsimp only
      rw [hone]

/-- In a queue of 129 to 255 places that starts at the last one, some event is written over the
second. -/
theorem not_represents_of_le (hlong : 128 < T.numEvents) (hbyte : T.numEvents ≤ 255)
    (events : ℕ → EventData) :
    ∃ ops k, Trace T bootKernel ops k ∧ ∀ rounds m,
      Memory.run T rounds ops (bootMemory events) = some m → ¬Represents T m k := by
  have hlast : T.numEvents - 1 < T.numEvents := by omega
  have hle : 258 - T.numEvents ≤ T.numEvents := by omega
  obtain ⟨k, m, ht, hev, hrun, hfirst, hcount⟩ := turns_run (by omega) events hlast
  obtain ⟨k', m', ht', hev', hrun', hfirst', -, hslot⟩ := posts_run hev hcount hle
  refine ⟨_, k', ht.append ht', fun rounds m'' hm'' hrep => ?_⟩
  rw [Memory.run_append (hrun rounds), hrun' rounds, Option.some.injEq] at hm''
  subst hm''
  have hsecond := hrep.queue.slot 1 (numberedEvent 1) (by
    rw [hev', List.getElem?_map, List.getElem?_range (by omega)]
    rfl)
  have hover := hslot (257 - T.numEvents) (by omega)
  have hindex : Memory.toNumEvents (m.fevent + Memory.toNumEvents (257 - T.numEvents)) = 0 := by
    rw [hfirst, Memory.toNumEvents, Memory.toNumEvents, Nat.add_mod_mod]
    have hsum : T.numEvents - 1 + (257 - T.numEvents) = 256 := by omega
    rw [hsum]
  have hround : m'.fevent + 1 = T.numEvents := by omega
  rw [hround, Nat.mod_self] at hsecond
  rw [hindex, Nat.zero_mod, hsecond] at hover
  have hsame : 1 = 257 - T.numEvents := by
    simpa [numberedEvent] using hover
  omega

/-- In a queue of 256 places and more, 256 events are counted as none. -/
theorem not_represents_of_lt (hlong : 255 < T.numEvents) (events : ℕ → EventData) :
    ∃ ops k, Trace T bootKernel ops k ∧ ∀ rounds m,
      Memory.run T rounds ops (bootMemory events) = some m → ¬Represents T m k := by
  obtain ⟨k, m, ht, hev, hrun, -, hcount, -⟩ :=
    posts_run (T := T) (k := bootKernel) (m := bootMemory events) rfl rfl hlong
  refine ⟨_, k, ht, fun rounds m' hm' hrep => ?_⟩
  rw [hrun rounds, Option.some.injEq] at hm'
  subst hm'
  have hnevents := hrep.nevents
  rw [hcount, hev, List.length_map, List.length_range] at hnevents
  cases hnevents

/-- **The memory represents the lists exactly for queues of at most 128 places**: then, after any
operations from boot, it is there and holds the timers and the events, however the array of events
was filled, with as many rounds for every loop as there were operations. For a longer queue there
are operations after which it does not. -/
theorem memory_represents_iff (T : Target) :
    (∀ ops k, Trace T bootKernel ops k → ∀ events rounds, ops.length ≤ rounds →
      ∃ m, Memory.run T rounds ops (bootMemory events) = some m ∧ Represents T m k) ↔
      T.numEvents ≤ 128 := by
  constructor
  · intro h
    by_contra hlong
    have hfails : ∃ ops k, Trace T bootKernel ops k ∧ ∀ rounds m,
        Memory.run T rounds ops (bootMemory fun _ => numberedEvent 0) = some m →
          ¬Represents T m k := by
      by_cases hbyte : T.numEvents ≤ 255
      · exact not_represents_of_le (by omega) hbyte _
      · exact not_represents_of_lt (by omega) _
    obtain ⟨ops, k, ht, hnot⟩ := hfails
    obtain ⟨m, hm, hrep⟩ := h ops k ht (fun _ => numberedEvent 0) ops.length le_rfl
    exact hnot _ m hm hrep
  · exact fun hnarrow ops k ht events rounds hr => represents_of_trace hnarrow ht events hr

end Capacity

/-! ## Every mote of the network -/

/-- Operations, with loops that end, lead from one memory to the other. -/
def LeadsTo (T : Target) (m m' : Memory) : Prop := ∃ ops rounds, Memory.run T rounds ops m = some m'

/-- A memory goes along with the kernel: it is there from boot on, operations lead from each of its
states to the next, and it holds the timers and the events of the kernel at every moment. -/
def InMemory (T : Target) (k : ℕ → Kernel) : Prop :=
  ∀ events, ∃ memory : ℕ → Memory, LeadsTo T (bootMemory events) (memory 0) ∧
    ∀ i, LeadsTo T (memory i) (memory (i + 1)) ∧ Represents T (memory i) (k i)

section Along

variable {T : Target} (hnarrow : T.numEvents ≤ 128)
include hnarrow

theorem Contiki.Operated.leadsTo {k k' : Kernel} (h : Operated T k k') {m : Memory}
    (hm : Represents T m k ∧ k.Owned) :
    ∃ m', LeadsTo T m m' ∧ Represents T m' k' ∧ k'.Owned := by
  obtain ⟨ops, ht⟩ := h
  obtain ⟨m', hrun, hm'⟩ := hm.1.run hnarrow hm.2 ht le_rfl
  exact ⟨m', ⟨ops, _, hrun⟩, hm'⟩

theorem inMemory_of_operated {k : ℕ → Kernel} (hboot : Operated T bootKernel (k 0))
    (hstep : ∀ i, Operated T (k i) (k (i + 1))) : InMemory T k := by
  intro events
  have howned : bootKernel.Owned := fun t ht => by cases ht
  obtain ⟨m₀, hlead, hm₀⟩ := hboot.leadsTo hnarrow ⟨represents_boot T events, howned⟩
  -- The memory of each moment is chosen from that of the moment before.
  have hnext : ∀ i (m : {m // Represents T m (k i) ∧ (k i).Owned}),
      ∃ m' : {m' // Represents T m' (k (i + 1)) ∧ (k (i + 1)).Owned}, LeadsTo T m.1 m'.1 := by
    intro i m
    obtain ⟨m', hlead, hm'⟩ := (hstep i).leadsTo hnarrow m.2
    exact ⟨⟨m', hm'⟩, hlead⟩
  choose next hnext using hnext
  let memory : ∀ i, {m // Represents T m (k i) ∧ (k i).Owned} := fun i =>
    Nat.rec ⟨m₀, hm₀⟩ (fun i m => next i m) i
  exact ⟨fun i => (memory i).1, hlead, fun i => ⟨hnext i (memory i), (memory i).2.1⟩⟩

/-- **The timers and the events of every mote are what its memory holds**: along every run of the
network, whatever the motes do and in whatever order, a memory goes along with each of them. -/
theorem network_memory (rand : SourceNode → ℕ → ℕ) (steps : List NetStep) :
    (∀ n, InMemory T fun i => ((netRun rand T (steps.take i)).agg n).kernel) ∧
      ∀ s, InMemory T fun i => ((netRun rand T (steps.take i)).source s).kernel := by
  -- A moment later the network has taken one step more, or the run has come to its end.
  have hmoment : ∀ i, netRun rand T (steps.take (i + 1)) = netRun rand T (steps.take i) ∨
      ∃ l, netRun rand T (steps.take (i + 1)) = netStep rand T (netRun rand T (steps.take i)) l := by
    intro i
    by_cases hi : i < steps.length
    · right
      refine ⟨steps.get ⟨i, hi⟩, ?_⟩
      rw [← netRun_concat, List.get_eq_getElem, List.take_concat_get']
    · left
      rw [List.take_of_length_le (by omega), List.take_of_length_le (by omega)]
  refine ⟨fun n => inMemory_of_operated hnarrow ?_ fun i => ?_,
    fun s => inMemory_of_operated hnarrow ?_ fun i => ?_⟩
  · exact (boot_reaches (aggregator_operates T n.nodeId)).operated
  · rcases hmoment i with hsame | ⟨l, hl⟩
    · rw [hsame]
      exact Operated.refl T _
    · rw [hl]
      exact netStep_agg_operated rand T _ l n
  · exact (boot_reaches (source_operates (rand s) T s.nodeId)).operated
  · rcases hmoment i with hsame | ⟨l, hl⟩
    · rw [hsame]
      exact Operated.refl T _
    · rw [hl]
      exact netStep_source_operated rand T _ l s

end Along

/-- Node 4 waits for its first transmission, and makes it. -/
theorem network_memory_firstTransmission :
    (∀ n, InMemory .sky fun i => ((netRun (fun _ _ => 7) .sky
      (List.take i [.source .node4 (.tick 7), .source .node4 .poll, .source .node4 .event])).agg
        n).kernel) ∧
      ∀ s, InMemory .sky fun i => ((netRun (fun _ _ => 7) .sky
        (List.take i [.source .node4 (.tick 7), .source .node4 .poll,
          .source .node4 .event])).source s).kernel :=
  network_memory (T := .sky) (by decide) (fun _ _ => 7) _

end WsnAggregation
