import ArincEmulator.Lib.Numerals
import ArincEmulator.Lib.Runs
import ArincEmulator.Lib.Census
import ArincEmulator.Types
import ArincEmulator.Semaphore
import ArincEmulator.RwLock
import ArincEmulator.RwLockStop
import ArincEmulator.Lib.Ring
import ArincEmulator.Buffer
import ArincEmulator.Schedule
import ArincEmulator.Time
import ArincEmulator.ModuleScheduler
import ArincEmulator.Process
import ArincEmulator.Activation
import ArincEmulator.ProcessTable
import ArincEmulator.Lib.Phase
import ArincEmulator.PeriodicPhase
import ArincEmulator.IdleBranch
import ArincEmulator.Lib.AndOrTree
import ArincEmulator.StateMachine
import ArincEmulator.EntryPoints
import ArincEmulator.CallLog
import ArincEmulator.Search
import ArincEmulator.Bracketing
import ArincEmulator.EntryRule
import ArincEmulator.ActiveSources
import ArincEmulator.Lib.CondVar
import ArincEmulator.SemaphoreQueue
import ArincEmulator.SemaphoreService
import ArincEmulator.RwLockWakeup
import ArincEmulator.Blackboard
import ArincEmulator.BufferBounds
import ArincEmulator.EventWait
import ArincEmulator.TableLock
import ArincEmulator.Barrier
import ArincEmulator.FrameSync
import ArincEmulator.SamplingPacket
import ArincEmulator.Response
import ArincEmulator.TimeOut
import ArincEmulator.Lib.NameTable
import ArincEmulator.Registry
import ArincEmulator.ObjectIds
import ArincEmulator.Creation
import ArincEmulator.HealthManager
import ArincEmulator.SamplingFreshness
import ArincEmulator.SamplingWrite
import ArincEmulator.Lib.Admission
import ArincEmulator.Lib.Fifo
import ArincEmulator.QueuePort
import ArincEmulator.QueueChannel
import ArincEmulator.EventPort
import ArincEmulator.MalformedDatagram
import ArincEmulator.ChannelWiring
import ArincEmulator.ChannelOwnership
import ArincEmulator.Lib.OrderedSet
import ArincEmulator.Construction
import ArincEmulator.DefaultAction
import ArincEmulator.SchedulingOrder
import ArincEmulator.ForkPoints
import ArincEmulator.DryRun
import ArincEmulator.HistoryRule
import ArincEmulator.EventWakeup
import ArincEmulator.Suspension
import ArincEmulator.Timer
import ArincEmulator.StartWindow
import ArincEmulator.BlackboardEvent
import ArincEmulator.SchedulerPass
import ArincEmulator.Lib.History
import ArincEmulator.StateVariable
import ArincEmulator.Checkpoint
import ArincEmulator.SyncCodec
import ArincEmulator.BarrierMembership
import ArincEmulator.LastValidity
import ArincEmulator.QueueLoss
import ArincEmulator.Lib.Checked
import ArincEmulator.TimeArithmetic
import ArincEmulator.Lib.Multimap
import ArincEmulator.Lib.Fields
import ArincEmulator.PropertyFile
import ArincEmulator.Tokenizer
import ArincEmulator.Lib.CircularLog
import ArincEmulator.Logger
import ArincEmulator.Lib.CausalLog
import ArincEmulator.Lib.Strings
import ArincEmulator.LogEvent
import ArincEmulator.LogParser
import ArincEmulator.LogStore
import ArincEmulator.LogCauses
import ArincEmulator.LogTies
import ArincEmulator.Lib.Windows
import ArincEmulator.Transport
import ArincEmulator.TransportSetup
import ArincEmulator.SamplingFlow
import ArincEmulator.QueueingFlow
import ArincEmulator.Lib.OrderedMap
import ArincEmulator.Lib.Throwing
import ArincEmulator.Initialization
import ArincEmulator.ChannelCreation
import ArincEmulator.ModuleOperation
import ArincEmulator.LogRoundTrip
import ArincEmulator.Supervision
import ArincEmulator.HealthDialogue
import ArincEmulator.HealthAnswers
import ArincEmulator.HealthStorage
import ArincEmulator.Lib.Datagrams
import ArincEmulator.SamplingLink
import ArincEmulator.QueueingLink
import ArincEmulator.NetworkPartition
