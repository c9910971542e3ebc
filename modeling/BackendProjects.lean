import BackendProjects.Library.Runs
import BackendProjects.Library.WriteBack
import BackendProjects.Library.Peeling
import BackendProjects.Library.Json
import BackendProjects.Library.Lease
import BackendProjects.Library.Throttle
import BackendProjects.Library.Regex
import BackendProjects.Library.Paging
import BackendProjects.Workflow.Values
import BackendProjects.Workflow.Retry
import BackendProjects.Workflow.RetryDelays
import BackendProjects.Workflow.Dag
import BackendProjects.Workflow.Validation
import BackendProjects.Workflow.Readiness
import BackendProjects.Workflow.StateMachine
import BackendProjects.Workflow.Rows
import BackendProjects.Workflow.Tasks
import BackendProjects.Workflow.Moves
import BackendProjects.Workflow.EventStream
import BackendProjects.Workflow.BranchProgress
import BackendProjects.Workflow.Coverage
import BackendProjects.Workflow.TaskEntries
import BackendProjects.Workflow.DependencyOrder
import BackendProjects.Workflow.FailureRecord
import BackendProjects.Workflow.RetryLoop
import BackendProjects.Workflow.ConditionBranches
import BackendProjects.Workflow.Templates
import BackendProjects.Workflow.OrderIndependence
import BackendProjects.Workflow.ResumedOutcome
import BackendProjects.Workflow.Stranded
import BackendProjects.Workflow.Cancellation
import BackendProjects.Workflow.StreamReplay
import BackendProjects.Workflow.BranchOutcomes
import BackendProjects.Workflow.BranchTermination
import BackendProjects.Workflow.CancelledRuns
import BackendProjects.Workflow.Delivery
import BackendProjects.Workflow.Drivers
import BackendProjects.Workflow.Refinement
import BackendProjects.Workflow.SettledRows
import BackendProjects.Workflow.Provenance
import BackendProjects.Workflow.StatusHistory
import BackendProjects.Workflow.RowHistory
import BackendProjects.Workflow.RefusedOperations
import BackendProjects.Workflow.SessionUse
import BackendProjects.Workflow.StoredDefinition
import BackendProjects.Workflow.TaskResponses
import BackendProjects.Workflow.ScheduleLock
import BackendProjects.Workflow.SlotTriggers
import BackendProjects.Workflow.LostTriggers
import BackendProjects.Workflow.ScheduleEdits
import BackendProjects.Workflow.Deactivation
import BackendProjects.Anomaly.ScoredPoint
import BackendProjects.Anomaly.FailedIngest
import BackendProjects.Anomaly.ConcurrentWindow
import BackendProjects.Anomaly.SlidingWindow
import BackendProjects.Anomaly.AnomalyStatus
import BackendProjects.Anomaly.ConnectionManager
import BackendProjects.Anomaly.DetectionCalls
import BackendProjects.Anomaly.Reprocessing
import BackendProjects.Anomaly.RuleAlerts
import BackendProjects.Anomaly.MetricConsumer
import BackendProjects.Anomaly.MetricLog
import BackendProjects.Anomaly.Outliers
import BackendProjects.Anomaly.PerfectSeason
import BackendProjects.Anomaly.Invariance
import BackendProjects.Anomaly.EwmaWeights
import BackendProjects.Anomaly.Coherence
import BackendProjects.Listings
import BackendProjects.Workflow.LiveFeed
import BackendProjects.Workflow.StaleRows
import BackendProjects.Workflow.Catalogue
import BackendProjects.Anomaly.Triage
