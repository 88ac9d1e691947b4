import PropzaAmlak.Tx.Logic
import PropzaAmlak.Tx.Process
import PropzaAmlak.Tx.Histories
import PropzaAmlak.Tx.Snapshot
import PropzaAmlak.Data.Text
import PropzaAmlak.Data.Records
import PropzaAmlak.Data.Json
import PropzaAmlak.Data.Calendar
import PropzaAmlak.Data.Ledger
import PropzaAmlak.Data.Table
import PropzaAmlak.Data.Loads
import PropzaAmlak.Data.CheckDigit
import PropzaAmlak.Data.Rounding
import PropzaAmlak.Data.Schema
import PropzaAmlak.Broker.Commission
import PropzaAmlak.Broker.Split
import PropzaAmlak.Broker.Bills
import PropzaAmlak.Broker.States
import PropzaAmlak.Sadad.Invoice
import PropzaAmlak.Sadad.Numbers
import PropzaAmlak.Sadad.Luhn
import PropzaAmlak.Sadad.Desk
import PropzaAmlak.Sadad.Callback
import PropzaAmlak.Sadad.Channels
import PropzaAmlak.Data.Spaces
import PropzaAmlak.CallCenter.Call
import PropzaAmlak.CallCenter.Order
import PropzaAmlak.Crm.Reservation
import PropzaAmlak.Crm.Operations
import PropzaAmlak.Crm.Exclusive
import PropzaAmlak.Crm.Rotation
import PropzaAmlak.Maintenance.Contract
import PropzaAmlak.Maintenance.Periodic
import PropzaAmlak.Notifications.Overdue
import PropzaAmlak.Notifications.Thresholds
import PropzaAmlak.Ejar.Contract
import PropzaAmlak.Ejar.Exceptions
import PropzaAmlak.Ejar.Transition
import PropzaAmlak.Ejar.Payload
import PropzaAmlak.Ejar.Required
import PropzaAmlak.Notifications.Phone
import PropzaAmlak.CallCenter.Lookup
import PropzaAmlak.Profile.Verification
import PropzaAmlak.Profile.Backing
import PropzaAmlak.Ejar.Client
import PropzaAmlak.Ejar.Lifecycle
import PropzaAmlak.Ejar.StepRules
import PropzaAmlak.Ejar.Keeps
import PropzaAmlak.Ejar.PipelineRule
import PropzaAmlak.Submission.Linked
import PropzaAmlak.Submission.Prerequisites
import PropzaAmlak.Ejar.Queue
import PropzaAmlak.Webhook.Handlers
import PropzaAmlak.Ejar.Actions
import PropzaAmlak.Ejar.TaskRules
import PropzaAmlak.Ejar.SubmitRules
import PropzaAmlak.Ejar.Edits
import PropzaAmlak.Status.Transitions
import PropzaAmlak.Status.Cancellation
import PropzaAmlak.Submission.Exclusion
import PropzaAmlak.Submission.Keys
import PropzaAmlak.Ejar.CircuitBreaker
import PropzaAmlak.Ejar.Recovery
import PropzaAmlak.Ejar.RetryHint
import PropzaAmlak.Tx.ReadThrough
import PropzaAmlak.Ejar.Credentials
import PropzaAmlak.Tx.Lifetimes
import PropzaAmlak.Ejar.Environments
import PropzaAmlak.Ejar.Failures
import PropzaAmlak.Data.Months
import PropzaAmlak.Data.LeapDays
import PropzaAmlak.Rental.Payments
import PropzaAmlak.Rental.Schedule
import PropzaAmlak.Ejar.DocFee
import PropzaAmlak.Rental.Days
import PropzaAmlak.Rental.Regeneration
import PropzaAmlak.Rental.Receipts
import PropzaAmlak.Rental.PaymentStates
import PropzaAmlak.Rental.SadadBooks
import PropzaAmlak.Rental.Penalty
import PropzaAmlak.Rental.OwnerReport
import PropzaAmlak.Rental.Deposit
import PropzaAmlak.Rental.Occupancy
import PropzaAmlak.Rental.Renewal
import PropzaAmlak.Rental.LeaseTerms
import PropzaAmlak.Rental.RenewalCron
import PropzaAmlak.Rental.RenewalChain
import PropzaAmlak.Data.Dumps
import PropzaAmlak.Webhook.Sanitize
import PropzaAmlak.Webhook.Controller
import PropzaAmlak.Webhook.ControllerRules
import PropzaAmlak.Webhook.Outcome
import PropzaAmlak.Webhook.Duplicates
import PropzaAmlak.Webhook.Replay
import PropzaAmlak.Webhook.Tenants
import PropzaAmlak.Submission.DeadLetter
import PropzaAmlak.Submission.LiveJobs
import PropzaAmlak.Submission.Occupied
import PropzaAmlak.Submission.Stranded
import PropzaAmlak.Submission.CarefulRuns
import PropzaAmlak.Submission.Readiness
import PropzaAmlak.Submission.ReadyRuns
import PropzaAmlak.Tx.Between
import PropzaAmlak.Submission.FeeCap
import PropzaAmlak.Ejar.LeaseContract
import PropzaAmlak.Crm.LeadContract
import PropzaAmlak.Ejar.Server
import PropzaAmlak.Submission.Once
import PropzaAmlak.Submission.Resumption
import PropzaAmlak.Ejar.Filed
import PropzaAmlak.Submission.Asked
import PropzaAmlak.Submission.Filing
import PropzaAmlak.Submission.CurrentData
import PropzaAmlak.Data.Heapq
import PropzaAmlak.Data.Splits
import PropzaAmlak.Data.Integers
import PropzaAmlak.JobQueue.PriorityQueue
import PropzaAmlak.JobQueue.ChannelQueue
import PropzaAmlak.JobQueue.Channel
import PropzaAmlak.JobQueue.Channels
import PropzaAmlak.JobQueue.Places
import PropzaAmlak.JobQueue.Dispatch
import PropzaAmlak.JobQueue.Edits
import PropzaAmlak.JobQueue.Wakeup
import PropzaAmlak.JobQueue.Manager
import PropzaAmlak.JobQueue.Registry
import PropzaAmlak.JobQueue.Notify
import PropzaAmlak.JobQueue.ManagerRuns
import PropzaAmlak.JobQueue.Config
import PropzaAmlak.JobQueue.ConfigRules
import PropzaAmlak.JobQueue.ManagerSafety
import PropzaAmlak.JobQueue.Runner
import PropzaAmlak.JobQueue.RunnerRules
import PropzaAmlak.JobQueue.RunnerRuns
import PropzaAmlak.JobQueue.RunnerSafety
import PropzaAmlak.JobQueue.RunnerProgress
import PropzaAmlak.JobQueue.Dependencies
import PropzaAmlak.JobQueue.DependencyRules
import PropzaAmlak.JobQueue.DependencySafety
import PropzaAmlak.JobQueue.DependencyProgress
import PropzaAmlak.JobQueue.Graph
import PropzaAmlak.Data.Worklist
import PropzaAmlak.JobQueue.Delayables
import PropzaAmlak.JobQueue.DelayedGraph
import PropzaAmlak.JobQueue.DependencyOrder
