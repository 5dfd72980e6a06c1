import WebRtc.Aecm.Channel
import WebRtc.Aecm.ComfortNoise
import WebRtc.Aecm.Core
import WebRtc.Aecm.Drift
import WebRtc.Aecm.FarDelay
import WebRtc.Aecm.FarHistory
import WebRtc.Aecm.FarLevels
import WebRtc.Aecm.FarLine
import WebRtc.Aecm.Lanes
import WebRtc.Aecm.Mobile
import WebRtc.Aecm.Rebuffer
import WebRtc.Aecm.Reinit
import WebRtc.Aecm.Startup
import WebRtc.Aecm.StepSize
import WebRtc.Aecm.Suppression
import WebRtc.Aecm.Toggle
import WebRtc.Base.BitBuffer
import WebRtc.Base.BitRoundTrip
import WebRtc.Base.RateExact
import WebRtc.Base.RateTracker
import WebRtc.Base.RollingAccumulator
import WebRtc.Common.Numbers
import WebRtc.Common.Shifts
import WebRtc.Delay.BitCount
import WebRtc.Delay.Estimator
import WebRtc.Delay.HistorySize
import WebRtc.Delay.Range
import WebRtc.Desktop.AddRect
import WebRtc.Desktop.Algebra
import WebRtc.Desktop.Canonical
import WebRtc.Desktop.Differ
import WebRtc.Desktop.DifferExact
import WebRtc.Desktop.DifferMark
import WebRtc.Desktop.DifferMerge
import WebRtc.Desktop.Intersect
import WebRtc.Desktop.Iterate
import WebRtc.Desktop.Partition
import WebRtc.Desktop.Region
import WebRtc.Desktop.Rows
import WebRtc.Desktop.Spans
import WebRtc.Desktop.Subtract
import WebRtc.Estimator.FedBack
import WebRtc.Estimator.Unwrapper
import WebRtc.Fec.BitStrings
import WebRtc.Fec.Decoder
import WebRtc.Fec.Encoder
import WebRtc.Fec.MaskColumns
import WebRtc.Fec.MaskGaps
import WebRtc.Fec.Packet
import WebRtc.Fec.Peeling
import WebRtc.Fec.RedRoundTrip
import WebRtc.Fec.Renumber
import WebRtc.Fec.RoundTrip
import WebRtc.Feedback.Builder
import WebRtc.Feedback.Chunk
import WebRtc.Feedback.Counts
import WebRtc.Feedback.Message
import WebRtc.Feedback.Refused
import WebRtc.Feedback.RoundTrip
import WebRtc.Feedback.Safety
import WebRtc.Feedback.Symbols
import WebRtc.H264.Packetizer
import WebRtc.H264.Received
import WebRtc.H264.RoundTrip
import WebRtc.Isac.Agreement
import WebRtc.Isac.ArithCoder
import WebRtc.Isac.Decoder
import WebRtc.Isac.Encoder
import WebRtc.Isac.Lossless
import WebRtc.Jitter.Assembly
import WebRtc.Jitter.Complete
import WebRtc.Jitter.DecodingState
import WebRtc.Jitter.Fragments
import WebRtc.Jitter.FragmentsExact
import WebRtc.Jitter.FrameBuffer
import WebRtc.Jitter.FrameExact
import WebRtc.Jitter.FrameLegal
import WebRtc.Jitter.FrameRefs
import WebRtc.Jitter.FrameRoom
import WebRtc.Jitter.FrameSession
import WebRtc.Jitter.JitterBuffer
import WebRtc.Jitter.NackList
import WebRtc.Jitter.NackListExact
import WebRtc.Jitter.NackOrder
import WebRtc.Jitter.Rejected
import WebRtc.Jitter.Session
import WebRtc.Lib.Audit
import WebRtc.Lib.BitString
import WebRtc.Lib.Block
import WebRtc.Lib.BranchAndBound
import WebRtc.Lib.BubbleSort
import WebRtc.Lib.Bytes
import WebRtc.Lib.CInt
import WebRtc.Lib.Circular
import WebRtc.Lib.Intervals
import WebRtc.Lib.Lines
import WebRtc.Lib.LittleEndian
import WebRtc.Lib.Machine
import WebRtc.Lib.Memory
import WebRtc.Lib.Quotients
import WebRtc.Lib.RangeCoder
import WebRtc.Lib.Reader
import WebRtc.Lib.Ring
import WebRtc.Lib.Runs
import WebRtc.Lib.Search
import WebRtc.Lib.Tally
import WebRtc.Lib.Wire
import WebRtc.NetEq.AudioVector
import WebRtc.NetEq.DelayArithmetic
import WebRtc.NetEq.DelayChecked
import WebRtc.NetEq.DelayManager
import WebRtc.NetEq.Dtmf
import WebRtc.NetEq.Histogram
import WebRtc.NetEq.Nack
import WebRtc.NetEq.NackExact
import WebRtc.NetEq.PacketBuffer
import WebRtc.NetEq.PacketOrder
import WebRtc.NetEq.SplitAudio
import WebRtc.NetEq.SplitRed
import WebRtc.NetEq.TimestampScaler
import WebRtc.NetEq.TimestampShift
import WebRtc.Pacing.Accounts
import WebRtc.Pacing.MediaRate
import WebRtc.Pacing.SendOrder
import WebRtc.RingBuffer.Basic
import WebRtc.RingBuffer.Fifo
import WebRtc.RingBuffer.Refine
import WebRtc.RingBuffer.Spec
import WebRtc.Rtcp.Bitrate
import WebRtc.Rtcp.Buffer
import WebRtc.Rtcp.Events
import WebRtc.Rtcp.Framing
import WebRtc.Rtcp.Nack
import WebRtc.Rtcp.Packet
import WebRtc.Rtcp.Parser
import WebRtc.Rtcp.PictureId
import WebRtc.Rtcp.Progress
import WebRtc.Rtcp.Rounds
import WebRtc.Rtcp.Tmmbr
import WebRtc.Rtcp.TmmbrBounding
import WebRtc.Rtcp.TmmbrCandidates
import WebRtc.Rtcp.TmmbrExact
import WebRtc.Rtcp.TmmbrSelected
import WebRtc.Rtp.Bounds
import WebRtc.Rtp.ExtensionMap
import WebRtc.Rtp.Extensions
import WebRtc.Rtp.Forgets
import WebRtc.Rtp.Header
import WebRtc.Rtp.HistoryExact
import WebRtc.Rtp.Layout
import WebRtc.Rtp.LossReports
import WebRtc.Rtp.LossRuns
import WebRtc.Rtp.LossStats
import WebRtc.Rtp.PacketHistory
import WebRtc.Rtp.PaddedBlock
import WebRtc.Rtp.Parser
import WebRtc.Rtp.Rtx
import WebRtc.Rtp.Sender
import WebRtc.Rtp.Statistics
import WebRtc.Rtp.Update
import WebRtc.Stun.Grammar
import WebRtc.Stun.Integrity
import WebRtc.Stun.Message
import WebRtc.Stun.Reads
import WebRtc.Stun.RoundTrip
import WebRtc.Tcp.Acked
import WebRtc.Tcp.Attempts
import WebRtc.Tcp.LookAhead
import WebRtc.Tcp.Moves
import WebRtc.Tcp.Parse
import WebRtc.Tcp.Process
import WebRtc.Tcp.Tiling
import WebRtc.Vp8.Balanced
import WebRtc.Vp8.Descriptor
import WebRtc.Vp8.EqualSize
import WebRtc.Vp8.Extension
import WebRtc.Vp8.Frame
import WebRtc.Vp8.Lossless
import WebRtc.Vp8.Optimum
import WebRtc.Vp8.Packetizer
import WebRtc.Wav.Header
import WebRtc.Wav.HeaderExact
import WebRtc.Wav.WaveIO
import WebRtc.Wav.WaveIOExact
