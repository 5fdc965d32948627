import WsnAggregation.Contiki.Process
import WsnAggregation.Distribution
import WsnAggregation.Message

/-!
# The source firmware

`source.c`: a process that draws a sample each time its timer has expired, prints and sends it
with the statistics of the recent samples, and changes its behaviour when the button is pressed.

The random numbers are a stream: draw `i` yields `rand i`, of which `random_rand` returns 16 bits.
-/

namespace WsnAggregation

open Contiki

/-! ## Constants -/

/-- `SAMPLE_MIN`. -/
def sampleMin : ℤ := 0

/-- `SAMPLE_MAX`. -/
def sampleMax : ℤ := 100

/-- `DELTA`. -/
def delta : ℤ := 10

/-- `SEND_INTERVAL`. -/
def Target.sendInterval (T : Target) : ℕ := 4 * T.clockSecond

/-! ## The process -/

/-- The static variables of `source.c` and of its process. `started` says that the process has
come to its first wait; `draws` counts the calls of `random_rand`. -/
structure Source where
  started : Bool := false
  serverIpaddr : Ipaddr := []
  min : ℤ := -1
  max : ℤ := -1
  distribution : Distribution := {}
  active : Bool := true
  btnCount : ℕ := 0
  msgId : ℕ := 1
  draws : ℕ := 0

/-- The outputs of a source. -/
inductive SourceAction where
  /-- `print_message`. -/
  | printed (m : Message)
  /-- `simple_udp_sendto`. -/
  | sent (dst : Ipaddr) (m : Message)
  deriving DecidableEq

/-- A mote running the source firmware. -/
abbrev SourceMote : Type := Mote Source SourceAction

section Process

variable (rand : ℕ → ℕ)

/-- `random_rand`. -/
def randomRand (s : Source) : ℕ := rand s.draws % 65536

/-- Count a draw. -/
def drawn (s : Source) : Source := { s with draws := s.draws + 1 }

/-- `generate_uniform`, on the number drawn. Where `int` has 16 bits the `unsigned short` is
promoted to `unsigned int`, and the arithmetic is unsigned. -/
def generateUniform (T : Target) (r : ℕ) (min max : ℤ) : ℤ :=
  if T.intBits = 16 then
    T.toInt (T.toUnsigned (T.toUnsigned min + (r % T.toUnsigned (max - min + 1) : ℕ)))
  else min + Int.tmod r (max - min + 1)

/-- `initialize_distribution_param`: an end of the range that is -1 is drawn. -/
def initializeDistributionParam (T : Target) (s : Source) : Source :=
  let s :=
    if s.min = -1 then
      { drawn s with
        min := generateUniform T (randomRand rand s) (sampleMin - delta) (sampleMin + delta) }
    else s
  if s.max = -1 then
    { drawn s with
      max := generateUniform T (randomRand rand s) (sampleMax - delta) (sampleMax + delta) }
  else s

/-- The address a source sends to: 4, 5 and 6 send to node 2, the others to node 3. -/
def serverOf (nodeId : ℕ) : Ipaddr :=
  if nodeId = 4 ∨ nodeId = 5 ∨ nodeId = 6 then
    [0xfe80, 0, 0, 0, 0x0212, 0x7402, 0x0002, 0x0202]
  else [0xfe80, 0, 0, 0, 0x0212, 0x7403, 0x0003, 0x0303]

/-- Change the firmware's memory only. -/
def onSource (f : Source → Source) (m : SourceMote) : SourceMote := { m with app := f m.app }

@[simp] theorem onSource_app (f : Source → Source) (m : SourceMote) :
    (onSource f m).app = f m.app := rfl
@[simp] theorem onSource_kernel (f : Source → Source) (m : SourceMote) :
    (onSource f m).kernel = m.kernel := rfl
@[simp] theorem onSource_history (f : Source → Source) (m : SourceMote) :
    (onSource f m).history = m.history := rfl

/-- From the beginning of the process to its first wait. -/
def startSource (T : Target) (nodeId : ℕ) (m : SourceMote) : SourceMote :=
  let m := onSource (fun s => initializeDistributionParam rand T
    { s with started := true, serverIpaddr := serverOf nodeId }) m
  let r := randomRand rand m.app
  (onSource drawn m).onKernel fun k => k.etimerSet T .app (r % T.sendInterval)

/-- A press of the button: simulate a malfunction, stop, and go back to normal, in turn. -/
def pressButton (T : Target) (s : Source) : Source :=
  if s.btnCount = 0 then { s with min := 300, max := 500, btnCount := s.btnCount + 1 }
  else if s.btnCount = 1 then { s with active := false, btnCount := s.btnCount + 1 }
  else
    { initializeDistributionParam rand T { s with min := -1, max := -1 } with
      active := true, btnCount := 0 }

/-- Draw a sample and update the statistics. -/
def takeSample (T : Target) (s : Source) : Source :=
  { drawn s with
    distribution :=
      updateDistribution (generateUniform T (randomRand rand s) s.min s.max) s.distribution }

/-- The message that goes out with the last sample. -/
def sourceMessage (nodeId : ℕ) (sample : ℤ) (s : Source) : Message where
  nodeId := nodeId
  sample := sample
  variance := s.distribution.variance
  mean := s.distribution.mean
  msgId := s.msgId

/-- Sample, print, send, and schedule the next transmission. -/
def transmit (T : Target) (nodeId : ℕ) (m : SourceMote) : SourceMote :=
  let sample := generateUniform T (randomRand rand m.app) m.app.min m.app.max
  let m := onSource (takeSample rand T) m
  let message := sourceMessage nodeId sample m.app
  let m := (m.emit (.printed message)).emit (.sent m.app.serverIpaddr message)
  let r := randomRand rand m.app
  let m := (onSource drawn m).onKernel fun k =>
    k.etimerSet T .app (T.sendInterval + r % (2 * T.clockSecond))
  onSource (fun s => { s with msgId := (s.msgId + 1) % 2 ^ T.longBits }) m

/-- One round of the loop of `udp_client_process`. -/
def sourceEvent (T : Target) (nodeId : ℕ) (ev : Event) (data : Data) (m : SourceMote) :
    SourceMote :=
  let m := if ev = .sensors ∧ data = .buttonSensor then onSource (pressButton rand T) m else m
  if m.kernel.etimerExpired .app && m.app.active then transmit rand T nodeId m else m

/-- The firmware image. `udp_client_process` never ends. -/
def source (nodeId : ℕ) : Firmware Source SourceAction where
  initial := {}
  thread := fun T ev data m =>
    (if m.app.started then sourceEvent rand T nodeId ev data m else startSource rand T nodeId m,
      false)

/-- A source mote after a run from boot. No datagram is addressed to a source. -/
def sourceRun (T : Target) (nodeId : ℕ) (steps : List KernelStep) : SourceMote :=
  steps.foldl (kernelStep (source rand nodeId) T) (boot (source rand nodeId) T)

end Process

end WsnAggregation
