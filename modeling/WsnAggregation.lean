import WsnAggregation.Target
import WsnAggregation.Contiki.Etimer
import WsnAggregation.Contiki.Process
import WsnAggregation.Contiki.Quiet
import WsnAggregation.Message
import WsnAggregation.Aggregator
import WsnAggregation.Lib.History
import WsnAggregation.Batch
import WsnAggregation.AggregatorRun
import WsnAggregation.Accounting
import WsnAggregation.Provenance
import WsnAggregation.Lib.WeightedMean
import WsnAggregation.Lib.Decimal
import WsnAggregation.Lib.Rounding
import WsnAggregation.Lib.Pattern
import WsnAggregation.Offline.Python
import WsnAggregation.Print
import WsnAggregation.Offline.Parse
import WsnAggregation.Lib.Moments
import WsnAggregation.Freshness
import WsnAggregation.Sink
import WsnAggregation.Timing
import WsnAggregation.Distribution
import WsnAggregation.Contiki.Invariant
import WsnAggregation.Source
import WsnAggregation.SourceRun
import WsnAggregation.Offline.RoundTrip
import WsnAggregation.Lib.Channel
import WsnAggregation.Relay
import WsnAggregation.Network
import WsnAggregation.Integrity
import WsnAggregation.Offline.AggregateLog
import WsnAggregation.Offline.Metrics
import WsnAggregation.Offline.Completeness
import WsnAggregation.Window
import WsnAggregation.Estimate
import WsnAggregation.MessageStream
import WsnAggregation.Contiki.Awake
import WsnAggregation.SourceSchedule
import WsnAggregation.Live.Python
import WsnAggregation.Lib.ListDict
import WsnAggregation.Lib.TryLoop
import WsnAggregation.Lib.Completes
import WsnAggregation.Live.Parse
import WsnAggregation.Live.Isolation
import WsnAggregation.Live.Lines
import WsnAggregation.Live.Agreement
import WsnAggregation.Lib.Polling
import WsnAggregation.Live.Receiver
import WsnAggregation.Live.Cut
import WsnAggregation.Live.Entries
import WsnAggregation.Live.Chunking
import WsnAggregation.Offline.Matching
import WsnAggregation.Offline.Readable
import WsnAggregation.Lib.FirstGap
import WsnAggregation.Live.RunDirectory
import WsnAggregation.Live.Plots
import WsnAggregation.RingBuffer
import WsnAggregation.Ledger
import WsnAggregation.Chronicle
import WsnAggregation.Offline.RunMetrics
import WsnAggregation.Live.Values
import WsnAggregation.Live.Pipeline
import WsnAggregation.Live.Dashboard
import WsnAggregation.Lib.LinkedList
import WsnAggregation.Lib.RingQueue
import WsnAggregation.Contiki.Memory
import WsnAggregation.Contiki.Refinement
import WsnAggregation.Contiki.Operations
import WsnAggregation.Contiki.Rounds
import WsnAggregation.Contiki.Trace
import WsnAggregation.KernelMemory
import WsnAggregation.Lib.WrappingClock
import WsnAggregation.Contiki.Wakeup
import WsnAggregation.Lib.Served
import WsnAggregation.Contiki.Response
import WsnAggregation.SourceResponse
