import LiveHls.Gateway
import LiveHls.Origin.Cleanup
import LiveHls.Proofs.Window.Calls
import LiveHls.Proofs.Window.Succession
import LiveHls.Proofs.Window.History
import LiveHls.Proofs.Window.Data
import LiveHls.Proofs.Window.Edge
import LiveHls.Proofs.Segment.Content
import LiveHls.Proofs.SegmentAnswer
import LiveHls.Proofs.Broadcast
import LiveHls.Proofs.PartTarget
import LiveHls.Proofs.PlaylistPlan
import LiveHls.Proofs.PlaylistLines
import LiveHls.Proofs.Binary64.Rounding
import LiveHls.Proofs.Binary64.Packing
import LiveHls.Proofs.Binary64.Bounds
import LiveHls.Proofs.AdvanceLimit
import LiveHls.Proofs.Stream.Run
import LiveHls.Proofs.Stream.Wakeup
import LiveHls.Proofs.Stream.Settlement
import LiveHls.Proofs.Stream.Rollover
import LiveHls.Proofs.Stream.Polling
import LiveHls.Proofs.Stream.Phase
import LiveHls.Proofs.Stream.Course
import LiveHls.Proofs.Stream.Content
import LiveHls.Proofs.Stream.Release
import LiveHls.Proofs.Stream.ByteAnswers
import LiveHls.Proofs.Stream.ProgressiveReader
import LiveHls.Proofs.Stream.Arrival
import LiveHls.Proofs.Stream.NextPart
import LiveHls.Proofs.Stream.Advertised
import LiveHls.Proofs.Stream.Eviction
import LiveHls.Proofs.Playlist.Entries
import LiveHls.Proofs.Stream.Published
import LiveHls.Proofs.Decimal.Plain
import LiveHls.Proofs.Playlist.Client
import LiveHls.Proofs.Playlist.Reader
import LiveHls.Proofs.Stream.ReadBack
import LiveHls.Proofs.Waiters.Settling
import LiveHls.Proofs.Gateway.Disconnect
import LiveHls.Proofs.Stream.Bystanders
import LiveHls.Proofs.Answerable
import LiveHls.Proofs.Gateway.Refusals
import LiveHls.Proofs.Gateway.Changes
import LiveHls.Proofs.Gateway.Removal
import LiveHls.Proofs.ConfigLoading
import LiveHls.Proofs.Stream.Attendance
import LiveHls.Proofs.Stream.Tellable
import LiveHls.Proofs.Gateway.Turns
import LiveHls.Proofs.Gateway.Outcomes
import LiveHls.Proofs.Stream.Planning
import LiveHls.Proofs.Gateway.LogLevel
import LiveHls.Proofs.Stream.MasterPlaylist
import LiveHls.Proofs.Gateway.Numbers
import LiveHls.Proofs.Segment.Tiling
import LiveHls.Proofs.Servability
import LiveHls.Proofs.Stream.ByteHold
import LiveHls.Proofs.Stream.Grace
import LiveHls.Proofs.Segment.Reading
import LiveHls.Proofs.Window.Versions
import LiveHls.Proofs.Http.RangeGrammar
import LiveHls.Proofs.Http.RangeChoice
import LiveHls.Proofs.YamlKeys
import LiveHls.Proofs.ConfigPrecedence
import LiveHls.Proofs.Settings.Exact
import LiveHls.Proofs.Settings.Usable
import LiveHls.Proofs.Cleanup.Quiet
import LiveHls.Proofs.Gateway.Rates
import LiveHls.Proofs.Stream.CanonicalName
import LiveHls.Proofs.Stream.WaitKeys
import LiveHls.Proofs.Http.IntegerParam
import LiveHls.Proofs.ReportUnits
