import Mathlib.Data.Fintype.Pi
import Mathlib.Data.Rat.Defs

/-!
# Messages

The structures of `message.c`, the datagrams that carry them, and the link-local addresses of
the simulated motes.
-/

namespace WsnAggregation

/-- `NUM_NODES`, the number of sources an aggregator listens to. -/
abbrev numNodes : ℕ := 3

/-- The arrays of an aggregate are not empty. -/
instance neZero_three : @NeZero ℕ Zero.ofOfNat0 3 := ⟨Nat.succ_ne_zero 2⟩

/-- `message_t`: one sample of a source, with the statistics of its recent samples. Static
storage starts zeroed. -/
structure Message where
  nodeId : ℕ := 0
  sample : ℤ := 0
  variance : ℚ := 0
  mean : ℚ := 0
  msgId : ℕ := 0
  deriving DecidableEq, Repr

/-- `message_agg_t`: one aggregated batch. -/
structure MessageAgg where
  nodeId : ℕ
  sample : ℚ
  missedSamples : ℤ
  msgIdsInMsg : Fin 3 → ℕ
  nodeIdsInMsg : Fin 3 → ℕ
  deriving DecidableEq

/-- What a datagram carries. The receiver tells the two structures apart by their sizes, which
differ on every target; `other` is a datagram of any other length. -/
inductive Payload where
  | message (m : Message)
  | messageAgg (a : MessageAgg)
  | other (datalen : ℕ)
  deriving DecidableEq

/-- An IPv6 address, as the eight words given to `uip_ip6addr`. -/
abbrev Ipaddr : Type := List ℕ

/-- The link-local address of mote `n`, whose link-layer address is `0012.740n.000n.0n0n`. -/
def linkLocal (n : ℕ) : Ipaddr := [0xfe80, 0, 0, 0, 0x0212, 0x7400 + n, n, 0x0101 * n]

end WsnAggregation
