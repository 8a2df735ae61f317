import Fghj.CreateGate
import Fghj.CreateSettle
import Fghj.Docker
import Fghj.Converge
import Fghj.ConvergeSpec
import Fghj.ConvergeBooks
import Fghj.StopInForce
import Fghj.BusyMarks
import Fghj.Observation
import Fghj.Blame
import Fghj.FlowSwitch
import Fghj.Remigration
import Fghj.RepoUrl
import Fghj.Resolver
import Fghj.ResolverSpec
import Fghj.StoreEdges
import Fghj.Universe
import Fghj.Readings
import Fghj.Cycles
import Fghj.Sidecar
import Fghj.HostsFile
import Fghj.Collisions
import Fghj.TaskDone
import Fghj.Library.Listing
import Fghj.Routing
import Fghj.ImageTags
import Fghj.Seeds
import Fghj.Flows
import Fghj.RawNet
import Fghj.RawZone
import Fghj.Traffic
import Fghj.TrafficBudget
import Fghj.AskedNames
import Fghj.LogKept
import Fghj.Wiring
import Fghj.Restart
import Fghj.Teardown
import Fghj.PullEnds
import Fghj.ActivityTrees
import Fghj.SharedResolve
import Fghj.CaptureSessions
import Fghj.PortKeys
import Fghj.SourcePaths
import Fghj.SpecHash
import Fghj.ClosedGraph
import Fghj.Includes
import Fghj.NodeIdentity
import Fghj.TrafficFeed
import Fghj.Healer
import Fghj.Placeholders
import Fghj.ReducerFrame
import Fghj.FannedIn
import Fghj.Lifecycle
import Fghj.Database
import Fghj.Library.Relay
import Fghj.CaptureLink
import Fghj.Activation
import Fghj.CaDirectory
import Fghj.ResolverDir
import Fghj.StartOrder
import Fghj.Closures
import Fghj.Library.LowerCase
import Fghj.RepoSpellings
import Fghj.RouteClaims
import Fghj.HealerRuns
import Fghj.Interruptions
import Fghj.Follow
import Fghj.Library.Slices
import Fghj.Templates
import Fghj.References
import Fghj.TemplateForms
import Fghj.PullHistory
import Fghj.PullTrust
import Fghj.WholeClones
import Fghj.Dockerignore
import Fghj.Globs
import Fghj.Moby
import Fghj.BuildContext
import Fghj.Dns
import Fghj.LogCuts
import Fghj.LogPrint
import Fghj.ProxyHeaders
import Fghj.Forms
import Fghj.TextMode
import Fghj.CaptureLines
import Fghj.NetworkLayout
import Fghj.PassingColumns
import Fghj.ImpliedEdges
import Fghj.ShownGraph
import Fghj.ShownStarts
import Fghj.CardGroups
import Fghj.Library.UnionFind
import Fghj.CardLayout
import Fghj.LayoutOrder
import Fghj.Certificates
import Fghj.Forwarding
import Fghj.Transcripts
import Fghj.FollowPrint
import Fghj.Narration
