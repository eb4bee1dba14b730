import CameraLogs.Collection.BufferingBalanced
import CameraLogs.Collection.SshAdmissionExact
import CameraLogs.Collection.TailCursor
import CameraLogs.Commands.ReservationExact
import CameraLogs.Indexing.SideIndexExact
import CameraLogs.Logs.ArchiveCrash
import CameraLogs.Logs.ArchiveReaders
import CameraLogs.Logs.CatalogMonotone
import CameraLogs.Logs.ExportExclusion
import CameraLogs.Logs.FileOrder
import CameraLogs.Logs.FullTextIndex
import CameraLogs.Logs.RawSegmentExact
import CameraLogs.Logs.RetentionGroup
import CameraLogs.Logs.SearchPlanExact
import CameraLogs.Logs.WriterBatches
import CameraLogs.Tasks.AcceptedResume
import CameraLogs.Tasks.CapacityAdmission
import CameraLogs.Tasks.CleanupLocks
import CameraLogs.Tasks.PausedRun
import CameraLogs.Tasks.SingleConnection
import CameraLogs.Tasks.StickyStop
import CameraLogs.Viewer.LiveLogExact
import CameraLogs.Logs.PublishedMember
import CameraLogs.Logs.StreamSearchSound
import CameraLogs.Collection.CoredumpExclusive
import CameraLogs.Resources.HealthOrder
import CameraLogs.Coredumps.ExportRepair
import CameraLogs.Coredumps.SnapshotLedgerRun
import CameraLogs.Coredumps.SnapshotCopiesRun
import CameraLogs.Collection.LinePrefixExact
import CameraLogs.Logs.ArchiveReceipts
import CameraLogs.Common.RunArchiveExact
import CameraLogs.Resources.MetricHistory
import CameraLogs.Logs.TimeRangeExact
import CameraLogs.Logs.ArchiveSchedulerExact
import CameraLogs.Collection.PshResponseExact
import CameraLogs.Administration.EventPages
import CameraLogs.Logs.GapCatalogExact
import CameraLogs.Collection.CommandDispatcherExact
import CameraLogs.Administration.DerivedFieldsExact
import CameraLogs.Common.PurgeArchive
import CameraLogs.Common.PurgeSweep
import CameraLogs.Administration.RuntimeEventsExact
import CameraLogs.Coredumps.ScanCoverage
import CameraLogs.Common.RedactionValues
import CameraLogs.Node.PerformanceLabels
import CameraLogs.Common.WriteLatencyExact
import CameraLogs.Logs.NamingStable
import CameraLogs.Common.ExceptionText
import CameraLogs.Logs.TimeWindowExact
import CameraLogs.Logs.WriteGate
import CameraLogs.Logs.Recording
import CameraLogs.Users.Sessions
