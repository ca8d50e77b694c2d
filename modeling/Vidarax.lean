import Vidarax.Base.Utf8
import Vidarax.Base.Number
import Vidarax.Base.BufRead
import Vidarax.Base.Crc32
import Vidarax.Base.Framing
import Vidarax.Base.Str
import Vidarax.Timeline.Event
import Vidarax.Timeline.Record
import Vidarax.Base.Matching
import Vidarax.Timeline.LogRecord
import Vidarax.Timeline.Reader
import Vidarax.Timeline.Writer
import Vidarax.Timeline.Recovery
import Vidarax.Timeline.Cursor
import Vidarax.Timeline.Corruption
import Vidarax.Admission.State
import Vidarax.Admission.System
import Vidarax.Admission.Accounting
import Vidarax.Admission.Wakeup
import Vidarax.Base.Float32
import Vidarax.Base.Result
import Vidarax.Base.Sequence
import Vidarax.Base.Text
import Vidarax.Base.Transducer
import Vidarax.Base.Worklist
import Vidarax.Rtp.H265
import Vidarax.Rtp.Inverse
import Vidarax.Rtp.Loss
import Vidarax.Trigger.Compile
import Vidarax.Trigger.Correctness
import Vidarax.Base.Json
import Vidarax.Base.Table
import Vidarax.Commit.Protocol
import Vidarax.Rtp.Vp8
import Vidarax.Rtp.Vp8Delivery
import Vidarax.Runs.Lifecycle
import Vidarax.Base.Fair
import Vidarax.Commit.Changes
import Vidarax.Commit.Contract
import Vidarax.Base.Window
import Vidarax.Commit.Log
import Vidarax.Delivery.Exact
import Vidarax.Base.FloatArith
import Vidarax.Ingest.Address
import Vidarax.Ingest.Fetch
import Vidarax.Ingest.Selective
import Vidarax.Live.Clip
import Vidarax.Live.Gate
import Vidarax.Live.Handover
import Vidarax.Live.MediaTime
import Vidarax.Live.Novelty
import Vidarax.Live.Reuse
import Vidarax.Runs.SlotCounts
import Vidarax.Runs.SlotLimit
import Vidarax.Whip.Budget
import Vidarax.Whip.Protocol
import Vidarax.Reason.Dispatch
import Vidarax.Reason.Join
import Vidarax.Reason.Complete
import Vidarax.Policy.Requests
import Vidarax.Session.Acknowledge
import Vidarax.Ingest.SelectExact
import Vidarax.Ingest.SelectSize
import Vidarax.Policy.Active
import Vidarax.Base.Float64
import Vidarax.Base.Program
import Vidarax.Edge.Binding
import Vidarax.Edge.Pointer
import Vidarax.Base.Blocks
import Vidarax.Base.Planes
import Vidarax.Base.TextDecoder
import Vidarax.Sdk.Reading
import Vidarax.Sdk.Resume
import Vidarax.Base.FloatExact
import Vidarax.Crop.Filter
import Vidarax.Crop.Frame
import Vidarax.Base.FloatRatio
import Vidarax.Base.JsonGrammar
import Vidarax.Base.SortedSets
import Vidarax.Live.Transition
import Vidarax.Reason.Extract
import Vidarax.Base.FloatCast
import Vidarax.Reason.Grounded
import Vidarax.Audio.Aggregate
import Vidarax.Audio.Time
import Vidarax.Base.Hex
import Vidarax.Base.JsonObject
import Vidarax.Interactions.Journal
import Vidarax.Interactions.Reader
import Vidarax.Interactions.Times
import Vidarax.Marker.Journal
import Vidarax.Base.Transcript
import Vidarax.Gemini.Attempts
import Vidarax.Gemini.Cleanup
import Vidarax.Base.FloatDiff
import Vidarax.Base.FloatMax
import Vidarax.Base.Hysteresis
import Vidarax.Base.Retention
import Vidarax.Base.Ring
import Vidarax.Base.SortedInsert
import Vidarax.Dashboard.Events
import Vidarax.Dashboard.Indexes
import Vidarax.Dashboard.Latest
import Vidarax.Live.ClipContract
import Vidarax.Live.LoopDetector
import Vidarax.Live.Zone
import Vidarax.Novelty.Gate
import Vidarax.TwoPass.Gate
import Vidarax.TwoPass.Pipeline
import Vidarax.Whip.ReclaimedSessions
import Vidarax.Audio.Ogg
import Vidarax.Audio.OggFraming
import Vidarax.Base.Paragraphs
import Vidarax.Sdk.Chunks
import Vidarax.Audio.Answers
import Vidarax.Base.Volume
import Vidarax.Evidence.Durable
import Vidarax.Evidence.Retry
import Vidarax.Archive.Attempts
