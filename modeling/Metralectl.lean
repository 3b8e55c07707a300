import Metralectl.Library.Interleaving
import Metralectl.Control.Retry
import Metralectl.Control.Convergence
import Metralectl.Control.NoRollback
import Metralectl.Control.FailedUpgrade
import Metralectl.Rank.Reservation
import Metralectl.Rank.Authentic
import Metralectl.Rank.ForeignStop
import Metralectl.Pairing.JoinWindow
import Metralectl.Pairing.Attempts
import Metralectl.Cluster.OneCluster
import Metralectl.Cluster.Teardown
import Metralectl.Cluster.Whole
import Metralectl.Cluster.Stop
import Metralectl.Cluster.RetriedStop
import Metralectl.Trust.PinStore
import Metralectl.Cluster.Plan
import Metralectl.Cluster.Consistent
import Metralectl.Cluster.LinkWarning
import Metralectl.Library.Prefixes
import Metralectl.Cluster.SharedLink
import Metralectl.Cluster.DialSocket
import Metralectl.Cluster.Prepare
import Metralectl.Cluster.Rollback
import Metralectl.Rank.Rendering
import Metralectl.Rank.SameGates
import Metralectl.Cluster.Size
import Metralectl.Fleet.LocalFleet
import Metralectl.Fleet.Routing
import Metralectl.Fleet.Agreement
import Metralectl.Fleet.CurrentTrust
import Metralectl.Fleet.Gossip
import Metralectl.Peer.ControlRelay
import Metralectl.Fleet.ListingForm
import Metralectl.Session.Consent
import Metralectl.Control.Ownership
import Metralectl.Control.Runtime
import Metralectl.Control.SharedNode
import Metralectl.Control.LaunchGate
import Metralectl.Rank.ContainerNames
import Metralectl.Release.Revocations
import Metralectl.Library.Framing
import Metralectl.Library.SortedMap
import Metralectl.Translate.Flags
import Metralectl.Recipe.RecipeFile
import Metralectl.Translate.Host
import Metralectl.Translate.Command
import Metralectl.Translate.Secrecy
import Metralectl.Translate.Offline
import Metralectl.Translate.Fingerprint
import Metralectl.Translate.SameLaunch
import Metralectl.Translate.Planned
import Metralectl.Library.Json
import Metralectl.Platform.Canonical
import Metralectl.Translate.Settings
import Metralectl.Library.Shell
import Metralectl.Translate.Portable
import Metralectl.Library.Nesting
import Metralectl.Library.Utf8
import Metralectl.Bench.Events
import Metralectl.Bench.Journal
import Metralectl.Bench.Jobs
import Metralectl.Bench.Creation
import Metralectl.Library.Programs
import Metralectl.Bench.Machine
import Metralectl.Bench.Crash
import Metralectl.Bench.Answers
import Metralectl.Bench.Host
import Metralectl.Bench.Settled
import Metralectl.Bench.Evidence
import Metralectl.Bench.Resumed
import Metralectl.Bench.Checked
import Metralectl.Bench.Operands
import Metralectl.Bench.Served
import Metralectl.Bench.Tailing
import Metralectl.Bench.Fetching
import Metralectl.Bench.FetchedFiles
import Metralectl.Bench.Attaching
import Metralectl.Bench.Following
import Metralectl.Library.SlidingWindow
import Metralectl.Bench.RateLimit
import Metralectl.Pairing.Ceremony
import Metralectl.Pairing.Walk
import Metralectl.Bench.Retention
import Metralectl.Library.Interference
import Metralectl.Bench.House
import Metralectl.Bench.Attribution
import Metralectl.Bench.Children
import Metralectl.Bench.Provenance
import Metralectl.Bench.Idempotence
import Metralectl.Control.StepBudget
import Metralectl.Control.Commands
import Metralectl.Release.Verified
import Metralectl.Service.WindowsTask
import Metralectl.Translate.Rendered
import Metralectl.Library.FirstBest
import Metralectl.Fleet.VouchTable
import Metralectl.Fleet.Sightings
import Metralectl.Recipe.Listing
import Metralectl.Library.ExecLine
import Metralectl.Service.SystemdUnit
import Metralectl.Core.WholeFile
import Metralectl.Library.Arrivals
import Metralectl.Peer.Wire
import Metralectl.Peer.Questions
import Metralectl.Session.Elsewhere
import Metralectl.Core.Metrics
import Metralectl.Control.LaunchSampler
import Metralectl.Control.Logs
import Metralectl.Control.Listed
import Metralectl.Library.Lossy
import Metralectl.Control.HttpScrape
import Metralectl.Control.Scraped
import Metralectl.Core.Exposition
import Metralectl.Core.Folded
import Metralectl.Library.Options
import Metralectl.Translate.Inert
import Metralectl.Library.EditDistance
import Metralectl.Core.Nearest
import Metralectl.Library.Rounding
import Metralectl.Core.Nvidia
import Metralectl.Session.Listener
import Metralectl.Bench.Lease
import Metralectl.Control.OfflineLaunch
import Metralectl.Pairing.TwoSided
import Metralectl.Fleet.Fabric
import Metralectl.Pairing.Onboarding
import Metralectl.Fleet.Discovered
import Metralectl.Fleet.Beacons
import Metralectl.Platform.Released
