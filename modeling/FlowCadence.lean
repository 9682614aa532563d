import FlowCadence.Alert
import FlowCadence.Calendar.Date
import FlowCadence.Calendar.Instant
import FlowCadence.Catalog
import FlowCadence.Cron.Field
import FlowCadence.Cron.Grammar
import FlowCadence.Cron.Schedule
import FlowCadence.Job.Config
import FlowCadence.Engine.Basic
import FlowCadence.Engine.Clockwork
import FlowCadence.Engine.Moves
import FlowCadence.Execution.Deeds
import FlowCadence.Execution.Run
import FlowCadence.Execution.Tracker
import FlowCadence.Execution.Workload
import FlowCadence.Fault
import FlowCadence.Turnstile
import FlowCadence.HandOff.Basic
import FlowCadence.Job.Trigger
import FlowCadence.Json.Value
import FlowCadence.Json.Reader
import FlowCadence.KeyStore
import FlowCadence.Leadership.Loop
import FlowCadence.Leadership.Cluster
import FlowCadence.Leadership.Bidding
import FlowCadence.Leadership.LeaseStore
import FlowCadence.Node.Activity
import FlowCadence.Node.Basic
import FlowCadence.Node.Busy
import FlowCadence.Node.Chore
import FlowCadence.Node.Laden
import FlowCadence.Node.Polling
import FlowCadence.Node.Schedule
import FlowCadence.Notice.Basic
import FlowCadence.Notice.Channel
import FlowCadence.Properties
import FlowCadence.Settings.Basic
import FlowCadence.Spec.Basic
import FlowCadence.Spec.Json
import FlowCadence.Text.Basic
import FlowCadence.Text.Split
import FlowCadence.Url.Address
import FlowCadence.Url.Domain
import FlowCadence.Url.Reader
import FlowCadence.ForStd
import FlowCadence.Proofs.Json.RoundTrip
import FlowCadence.Proofs.Notice.Wire
import FlowCadence.Proofs.Notice.Removal
import FlowCadence.Proofs.Node.Effect
import FlowCadence.Proofs.Node.Invariant
import FlowCadence.Proofs.Node.Backing
import FlowCadence.Proofs.Node.Command
import FlowCadence.Proofs.Node.Mirror
import FlowCadence.Proofs.Node.ForwardedUpdate
import FlowCadence.Proofs.Leadership.OneLeader
import FlowCadence.Proofs.Node.Restore
import FlowCadence.Proofs.Engine.Effect
import FlowCadence.Proofs.Engine.Turns
import FlowCadence.Proofs.Engine.Locks
import FlowCadence.Proofs.Engine.Exclusion
import FlowCadence.Proofs.Calendar.Date
import FlowCadence.Proofs.Cron.Denotation
import FlowCadence.Proofs.Cron.Search
import FlowCadence.Proofs.Cron.FireTimes
import FlowCadence.Proofs.Cron.Spelling
import FlowCadence.Proofs.Cron.ClassicItem
import FlowCadence.Proofs.Cron.ClassicWeekdays
import FlowCadence.Proofs.Node.ForwardedDeletion
import FlowCadence.Proofs.Node.Redelivery
import FlowCadence.Proofs.Node.Alignment
import FlowCadence.Proofs.Node.Overtaking
import FlowCadence.Proofs.Node.Standby
import FlowCadence.Proofs.Node.Recreation
import FlowCadence.Proofs.Leadership.Acquisition
import FlowCadence.Proofs.Leadership.Abandonment
import FlowCadence.Proofs.Leadership.Tenure
import FlowCadence.Proofs.Node.HandOver
import FlowCadence.Proofs.Node.Leftover
import FlowCadence.Proofs.Node.Running
import FlowCadence.Proofs.Node.Provenance
import FlowCadence.Proofs.Node.Firing
import FlowCadence.Proofs.Node.Displacement
import FlowCadence.Proofs.Node.Submission
import FlowCadence.Proofs.Spec.RoundTrip
import FlowCadence.Proofs.Spec.Stored
import FlowCadence.Proofs.Node.Delivery
import FlowCadence.Proofs.Node.Addition
import FlowCadence.Proofs.Node.StepDown
import FlowCadence.Proofs.Leadership.LeaseInHand
import FlowCadence.Proofs.Execution.Outcome
import FlowCadence.Node.Encounter
import FlowCadence.Proofs.Node.Pruning
import FlowCadence.Proofs.Cron.MinutePrecision
import FlowCadence.Proofs.HandOff.Attempts
import FlowCadence.Proofs.Settings.Acceptance
import FlowCadence.Proofs.Settings.JobProperties
import FlowCadence.Proofs.Catalog.Announcements
import FlowCadence.Proofs.Engine.Pool
import FlowCadence.Proofs.Node.Commuting
