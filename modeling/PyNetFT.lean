import PyNetFT.Lib.BigEndian
import PyNetFT.Lib.CappedAppend
import PyNetFT.Lib.CappedDoubling
import PyNetFT.Lib.Counting
import PyNetFT.Lib.Lts
import PyNetFT.Lib.Rounding
import PyNetFT.Lib.RunningMaxima
import PyNetFT.Lib.Ledger
import PyNetFT.Lib.Mealy
import PyNetFT.Lib.Nested
import PyNetFT.Lib.Ranking
import PyNetFT.Lib.SlidingWindow
import PyNetFT.Core.Types
import PyNetFT.Core.Sequence
import PyNetFT.Core.SequenceTheorems
import PyNetFT.Core.Protocol
import PyNetFT.Core.ProtocolTheorems
import PyNetFT.Core.Impl
import PyNetFT.Core.SequenceRefinement
import PyNetFT.Core.DeliveryTheorems
import PyNetFT.Core.RestartDetection
import PyNetFT.Core.FailStop
import PyNetFT.Core.XmlConfig
import PyNetFT.Core.XmlConfigTheorems
import PyNetFT.Core.XmlSafety
import PyNetFT.Core.XmlGrammar
import PyNetFT.Core.XmlLexing
import PyNetFT.Core.XmlAgreement
import PyNetFT.Core.Worker
import PyNetFT.Core.System
import PyNetFT.Core.WorkerTheorems
import PyNetFT.Core.BiasStream
import PyNetFT.Core.CallTheorems
import PyNetFT.Core.Lifecycle
import PyNetFT.Core.Sessions
import PyNetFT.Core.Quiescence
import PyNetFT.Core.Snapshots
import PyNetFT.Core.Progress
import PyNetFT.Core.Descriptors
import PyNetFT.Core.RunBooks
import PyNetFT.Core.Tally
import PyNetFT.Core.Counters
import PyNetFT.Core.Validated
import PyNetFT.Core.Records
import PyNetFT.Core.RateWindows
import PyNetFT.Core.RateLimit
import PyNetFT.Core.Receptions
import PyNetFT.Core.MalformedStorms
import PyNetFT.Core.PowerCycles
import PyNetFT.Core.Accounting
import PyNetFT.Core.FirstSample
import PyNetFT.Core.Calibrations
import PyNetFT.Core.Recovery
import PyNetFT.Core.RecoveryTheorems
import PyNetFT.Core.Handover
import PyNetFT.Core.Destruction
import PyNetFT.Core.Transport
import PyNetFT.Core.TransportTheorems
import PyNetFT.Core.ReceiveTimeouts
import PyNetFT.Core.FailedStarts
import PyNetFT.Core.ResponseCap
import PyNetFT.Core.Scaling
import PyNetFT.Core.Backoff
import PyNetFT.Core.TimeRange
import PyNetFT.Bindings.SampleQueue
import PyNetFT.Bindings.QueueReaders
import PyNetFT.Bindings.NativeClient
import PyNetFT.Bindings.NativeTheorems
import PyNetFT.Bindings.NativeRuns
import PyNetFT.Bindings.Running
import PyNetFT.Bindings.Isolation
import PyNetFT.Bindings.FirstSample
import PyNetFT.Bindings.ReadGenerations
import PyNetFT.Bindings.ReadAnswers
import PyNetFT.Bindings.ErrorStatus
import PyNetFT.Python.Client
import PyNetFT.Python.ClientMoves
import PyNetFT.Python.ClientTheorems
import PyNetFT.Python.CallbackRuns
import PyNetFT.Python.Failures
import PyNetFT.Python.Reports
import PyNetFT.Python.FailedStarts
import PyNetFT.Python.RunIdentity
import PyNetFT.Python.OwnRuns
import PyNetFT.Python.StaleReads
