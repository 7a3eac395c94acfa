import AebNode.Application
import AebNode.FrameQueueRefinement
import AebNode.ProtocolRecovery
import AebNode.ServerSessions
import AebNode.ServerLeftovers
import AebNode.Node
import AebNode.LidarErrors
import AebNode.LidarShutdown
import AebNode.DeviceOwnership
import AebNode.WorkerRestart
import AebNode.ServerAccounts
import AebNode.ServerDescriptors
import AebNode.DecoderAgreement
import AebNode.RelayPackets
import AebNode.DetectionOrder
import AebNode.FieldOfView
import AebNode.SectorConsistency
import AebNode.RoundedPerception
import AebNode.OptionValues
import AebNode.OptionOrder
import AebNode.ShutdownOrder
import AebNode.ResyncRetention
import AebNode.FrameRecycling
import AebNode.ViewerDraining
import AebNode.MonitorFraming
import AebNode.UnsignedParsing
import AebNode.SignalWaiter
import AebNode.ExitCodes
import AebNode.StreamDelivery
import AebNode.ShutdownProgress
import AebNode.ScreenTrace
import AebNode.RelayTurns
import AebNode.LateJoin
import AebNode.SectorSafety
