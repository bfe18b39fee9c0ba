import ChipSystemSim.Decimal
import ChipSystemSim.Router
import ChipSystemSim.RoutingTable
import ChipSystemSim.RequestHeader
import ChipSystemSim.PipeFrame
import ChipSystemSim.Transport
import ChipSystemSim.TransportSteps
import ChipSystemSim.TransportMoves
import ChipSystemSim.TransportInvariant
import ChipSystemSim.PipeAccount
import ChipSystemSim.TransportFifo
import ChipSystemSim.WakeUps
import ChipSystemSim.AbandonedReads
import ChipSystemSim.Deliverable
import ChipSystemSim.Kahn
import ChipSystemSim.Programs
import ChipSystemSim.ProgramView
import ChipSystemSim.PlacementIndependence
import ChipSystemSim.MlpDp
import ChipSystemSim.TreeReduction
import ChipSystemSim.MlpDpRun
import ChipSystemSim.MlpDpTraining
import ChipSystemSim.MlpDpGradient
import ChipSystemSim.Collect
import ChipSystemSim.PhaseTwo
import ChipSystemSim.PhaseTwoTiming
import ChipSystemSim.PhaseTwoDelays
import ChipSystemSim.PhaseTwoFragments
import ChipSystemSim.PhaseTwoCounterfactual
import ChipSystemSim.BfsCompat
import ChipSystemSim.Csv
import ChipSystemSim.PhaseTwoReports
import ChipSystemSim.TextLines
import ChipSystemSim.GpgpuLimits
import ChipSystemSim.IStream
import ChipSystemSim.BenchTrace
import ChipSystemSim.Json
import ChipSystemSim.RoutingJson
import ChipSystemSim.PhaseTwoFiles
import ChipSystemSim.Graphviz
import ChipSystemSim.Topology
import ChipSystemSim.Base64
import ChipSystemSim.JsonRead
import ChipSystemSim.Argparse
import ChipSystemSim.Staging
import ChipSystemSim.Workdirs
import ChipSystemSim.PipeTags
import ChipSystemSim.TransportMetrics
import ChipSystemSim.TransferTiming
import ChipSystemSim.TransferPairs
import ChipSystemSim.ReplaceText
import ChipSystemSim.PipeCommOverlay
import ChipSystemSim.FifoBroker
import ChipSystemSim.RouterRecords
import ChipSystemSim.LineScan
import ChipSystemSim.PhaseOneExits
import ChipSystemSim.ModelLogs
import ChipSystemSim.Intervals
import ChipSystemSim.SteadyMeasurement
import ChipSystemSim.PipeMetrics
import ChipSystemSim.BarrierTraces
import ChipSystemSim.MeasurementBarriers
import ChipSystemSim.WordBytes
import ChipSystemSim.MatmulDp
import ChipSystemSim.MatmulDpRun
import ChipSystemSim.SizeLimits
import ChipSystemSim.MatmulTransport
import ChipSystemSim.Relay
import ChipSystemSim.RelayFrames
import ChipSystemSim.RelayStreams
import ChipSystemSim.RelayAccount
import ChipSystemSim.RelayFaithful
import ChipSystemSim.Ipv4Literal
import ChipSystemSim.Placements
import ChipSystemSim.Deployment
import ChipSystemSim.PhaseTwoNetwork
import ChipSystemSim.PhaseTwoRunner
import ChipSystemSim.NotifyOne
import ChipSystemSim.BrokerQueues
import ChipSystemSim.TransportDrain
import ChipSystemSim.RemotePipe
import ChipSystemSim.BrokerSessions
import ChipSystemSim.ClientProgress
import ChipSystemSim.Scripts
import ChipSystemSim.Supervisor
import ChipSystemSim.SupervisorService
import ChipSystemSim.ForkJoin
import ChipSystemSim.PlatformNode
import ChipSystemSim.PlatformRuns
