import WsnAggregation.Contiki.Response
import WsnAggregation.Integrity
import WsnAggregation.KernelMemory
import WsnAggregation.SourceSchedule

/-!
# How soon a source sends

The timer of a source is marked as expired when the event that tells its process so is posted. The
process sends whenever it is called from then on, unless it has been stopped.

* `Due` — the timer has expired, and the process has not been called since.
* `Answered` — it has been called: it has sent a message, or it is stopped.
* `source_transmits` — in every run of the network a source whose timer has expired sends by the
  time as many of its events have been delivered as were queued, unless it is stopped.
-/

namespace WsnAggregation

open Contiki Lib

/-- At least `n` messages were sent, and if no more were, the timer has expired. -/
structure Due (T : Target) (n : ℕ) (m : SourceMote) : Prop where
  paced : Paced T m
  le_sent : n ≤ (sendTimes m.history).length
  expired : (sendTimes m.history).length = n → m.kernel.etimerExpired .app = true

/-- At least `n` messages were sent, and if no more were, the source is stopped. -/
structure Answered (T : Target) (n : ℕ) (m : SourceMote) : Prop extends Due T n m where
  stopped : (sendTimes m.history).length = n → m.app.active = false

section

variable {rand : ℕ → ℕ} {T : Target} {nodeId n : ℕ} {m m' : SourceMote}

/-- An expired timer stays expired until it is set. -/
theorem Due.awake (h : Due T n m) (ha : Awake T m m') : Due T n m' where
  paced := h.paced.awake ha
  le_sent := by
    rw [ha.history]
    exact h.le_sent
  expired := by
    rw [ha.history]
    intro hn
    have hnone := of_decide_eq_true (h.expired hn)
    refine decide_eq_true ?_
    rcases ha.waits.quiet.p with hp | ⟨hp, -⟩
    · exact hp.trans hnone
    · exact hp

theorem Answered.awake (h : Answered T n m) (ha : Awake T m m') : Answered T n m' where
  toDue := h.toDue.awake ha
  stopped := by
    rw [ha.history, ha.app]
    exact h.stopped

/-- Whatever it is called with, the process sends if it can. -/
theorem Due.resume (h : Due T n m) (ev : Event) (data : Data) {rest : List EventData}
    (hrest : rest <:+ m.kernel.events) :
    Answered T n (resume (source rand nodeId) T ev data rest m) := by
  have hpaced : Paced T (Contiki.resume (source rand nodeId) T ev data rest m) :=
    paced_resume ev data rest h.paced hrest
  -- The mote as the thread finds it.
  obtain ⟨m₁, hm₁⟩ : ∃ m₁, m₁ = enter .app (m.onKernel fun k => { k with events := rest }) :=
    ⟨_, rfl⟩
  have hstarted : m₁.app.started = true := by
    rw [hm₁]
    exact h.paced.started
  have hthread : ((source rand nodeId).thread T ev data m₁).1 =
      sourceEvent rand T nodeId ev data m₁ := by
    simp only [source, hstarted, if_true]
  have hexp : m₁.kernel.etimerExpired .app = m.kernel.etimerExpired .app := by
    rw [hm₁]
    rfl
  have hhistory : m₁.history = m.history := by
    rw [hm₁]
    rfl
  rw [Contiki.resume, ← hm₁, hthread] at hpaced ⊢
  rcases sourceEvent_cases rand T nodeId ev data m₁ with ⟨heq, hinactive⟩ | ⟨-, -, heq⟩
  · rw [heq] at hpaced ⊢
    refine ⟨⟨hpaced, hhistory ▸ h.le_sent, fun hn => ?_⟩, fun hn => hinactive ?_⟩
    · exact hexp.trans (h.expired (hhistory ▸ hn))
    · exact hexp.trans (h.expired (hhistory ▸ hn))
  · -- It sends, so that there are more messages than before.
    rw [heq] at hpaced ⊢
    have hmore : n < (sendTimes (transmit rand T nodeId
        (onSource (pressed rand T ev data) m₁)).history).length := by
      rw [sendTimes_transmit, onSource_history, hhistory, List.length_append]
      exact Nat.lt_succ_of_le h.le_sent
    exact ⟨⟨hpaced, hmore.le, fun hn => absurd hn hmore.ne'⟩, fun hn => absurd hn hmore.ne'⟩

theorem due_steady : Steady (source rand nodeId) T (Due T n) where
  endless := fun _ _ _ => rfl
  alive := fun _ h => h.paced.alive
  waits := fun _ _ h ha => h.awake ha
  resumes := fun ev data _ _ h hrest => (h.resume ev data hrest).toDue

theorem answered_steady : Steady (source rand nodeId) T (Answered T n) where
  endless := fun _ _ _ => rfl
  alive := fun _ h => h.paced.alive
  waits := fun _ _ h ha => h.awake ha
  resumes := fun ev data _ _ h hrest => h.toDue.resume ev data hrest

/-- A source whose timer has expired answers in its turn. -/
theorem Paced.answers (h : Paced T m) (hexp : m.kernel.etimerExpired .app = true)
    {ls : List KernelStep} (hcount : m.kernel.events.length ≤ ls.count .event) :
    Answered T (sendTimes m.history).length (ls.foldl (kernelStep (source rand nodeId) T) m) := by
  have hdue : Due T (sendTimes m.history).length m := ⟨h, le_rfl, fun _ => hexp⟩
  cases hactive : m.app.active with
  | false =>
    have hanswered : Answered T (sendTimes m.history).length m := ⟨hdue, fun _ => hactive⟩
    exact List.foldlRecOn (motive := Answered T (sendTimes m.history).length) _ _ hanswered
      fun _ hm l _ => kernelStep_steady answered_steady hm l
  | true =>
    have hqueued : expiry ∈ m.kernel.events := by
      refine (h.wakes hactive).resolve_left fun hlisted => ?_
      exact h.alive.mem_timerlist.1 hlisted (of_decide_eq_true hexp)
    obtain ⟨i, hi⟩ := List.mem_iff_getElem?.1 hqueued
    have hlt : i < m.kernel.events.length := (List.getElem?_eq_some_iff.1 hi).1
    refine responds (source_operates rand T nodeId) due_steady answered_steady rfl ?_ hdue hi
      (hlt.trans_le hcount)
    intro rest m' hm' heq
    exact hm'.resume expiry.ev expiry.data (heq ▸ List.suffix_cons expiry rest)

end

section Network

variable (rand : SourceNode → ℕ → ℕ) (T : Target)

/-- Of the steps of a network a source takes those that are its own. -/
theorem source_foldl_netStep (s : SourceNode) (steps : List NetStep) (net : Network) :
    ∃ ls : List KernelStep, ls.count .event = steps.count (.source s .event) ∧
      (steps.foldl (netStep rand T) net).source s =
        ls.foldl (kernelStep (source (rand s) s.nodeId) T) (net.source s) := by
  induction steps generalizing net with
  | nil => exact ⟨[], rfl, rfl⟩
  | cons l steps ih =>
    obtain ⟨ls, hcount, hls⟩ := ih (netStep rand T net l)
    rw [List.foldl_cons, hls]
    by_cases hl : ∃ k, l = .source s k
    · obtain ⟨k, rfl⟩ := hl
      refine ⟨k :: ls, ?_, ?_⟩
      · rw [List.count_cons, List.count_cons, hcount]
        simp
      · rw [netStep_source_self, List.foldl_cons]
    · refine ⟨ls, ?_, ?_⟩
      · rw [List.count_cons_of_ne fun heq => hl ⟨_, heq⟩, hcount]
      · rw [netStep_source_of_ne rand T net fun k hk => hl ⟨k, hk⟩]

/-- The messages of a source are as many as the moments it sent at. -/
theorem length_sentBy (net : Network) (s : SourceNode) :
    (net.sentBy s).length = (sendTimes (net.source s).history).length := by
  rw [Network.sentBy, List.length_map, sentMessages, sendTimes, List.length_filterMap_eq_countP,
    List.length_filterMap_eq_countP]
  refine List.countP_congr fun e _ => ?_
  cases e.2 <;> rfl

/-- **A source whose timer has expired sends, unless it is stopped**, by the time as many of its
events have been delivered as were queued for it, whatever else happens in the network. -/
theorem source_transmits (s : SourceNode) (past future : List NetStep)
    (hexp : ((netRun rand T past).source s).kernel.etimerExpired .app = true)
    (hserved : ((netRun rand T past).source s).kernel.events.length ≤
      future.count (.source s .event)) :
    ((netRun rand T past).sentBy s).length < ((netRun rand T (past ++ future)).sentBy s).length ∨
      ((netRun rand T (past ++ future)).source s).app.active = false := by
  obtain ⟨steps, hsteps⟩ := (linked_run rand T past).source s
  have hpaced : Paced T ((netRun rand T past).source s) := by
    rw [hsteps]
    exact kernelRun_steady source_steady paced_boot steps
  obtain ⟨ls, hcount, hls⟩ := source_foldl_netStep rand T s future (netRun rand T past)
  rw [← hcount] at hserved
  have hanswered : Answered T (sendTimes ((netRun rand T past).source s).history).length
      (ls.foldl (kernelStep (source (rand s) s.nodeId) T) ((netRun rand T past).source s)) :=
    hpaced.answers hexp hserved
  rw [← hls, netRun, ← List.foldl_append, ← netRun, ← netRun] at hanswered
  rw [length_sentBy, length_sentBy]
  rcases hanswered.le_sent.eq_or_lt with heq | hlt
  · exact Or.inr (hanswered.stopped heq.symm)
  · exact Or.inl hlt

end Network

/-- The first timer of node 4 has expired, and the event that says so is queued. -/
def expiredRun : List NetStep := [.source .node4 (.tick 7), .source .node4 .poll]

theorem source_transmits_expiredRun :
    ((netRun (fun _ _ => 7) .sky expiredRun).sentBy .node4).length <
        ((netRun (fun _ _ => 7) .sky (expiredRun ++ [.source .node4 .event])).sentBy .node4).length ∨
      ((netRun (fun _ _ => 7) .sky (expiredRun ++ [.source .node4 .event])).source
        .node4).app.active = false :=
  source_transmits (fun _ _ => 7) .sky .node4 expiredRun [.source .node4 .event]
    (by decide +kernel) (by decide +kernel)

end WsnAggregation
