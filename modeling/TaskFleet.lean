import TaskFleet.Theorems.ExactlyOnce
import TaskFleet.Theorems.Fencing
import TaskFleet.Theorems.TerminalRows
import TaskFleet.Theorems.LiveRows
import TaskFleet.Theorems.Absorbing
import TaskFleet.Theorems.AttemptCap
import TaskFleet.Theorems.AbnormalEndings
import TaskFleet.Theorems.FencedRows
import TaskFleet.Theorems.LeaseBounds
import TaskFleet.Theorems.LeaseTtl
import TaskFleet.Theorems.Acknowledgement
import TaskFleet.Theorems.AttemptIsolation
import TaskFleet.Theorems.WorkerIsolation
import TaskFleet.Theorems.UniqueClaim
import TaskFleet.Theorems.Overcommit
import TaskFleet.Theorems.CreditLeak
import TaskFleet.Theorems.LazyRenewal
import TaskFleet.Theorems.PendingResults
import TaskFleet.Theorems.AttemptAgreement
import TaskFleet.Theorems.RetryWindow
import TaskFleet.Theorems.BackoffOverflow
import TaskFleet.Theorems.StickyQuarantine
import TaskFleet.Theorems.TokenFreshness
import TaskFleet.Theorems.OneWinner
import TaskFleet.Theorems.SupersededTeardown
import TaskFleet.Lib.Keepalive
import TaskFleet.Theorems.Doorbell
import TaskFleet.Theorems.DrainedClaims
import TaskFleet.Theorems.PassLimits
import TaskFleet.Theorems.UnansweredFrames
import TaskFleet.Theorems.ReclaimReason
import TaskFleet.Theorems.KeptLeases
import TaskFleet.Theorems.Timeline
import TaskFleet.Theorems.CreditBounds
import TaskFleet.Theorems.NamedRelease
import TaskFleet.Theorems.RateLimiter
import TaskFleet.Theorems.PendingWake
import TaskFleet.Theorems.PoisonResults
import TaskFleet.Theorems.ResultTotality
import TaskFleet.Theorems.CancelTarget
import TaskFleet.Theorems.Chunking
import TaskFleet.Theorems.SentLedger
import TaskFleet.Theorems.NewestResults
import TaskFleet.Theorems.DeclaredNumbers
import TaskFleet.Theorems.Paging
import TaskFleet.Theorems.SlotAccounting
import TaskFleet.Theorems.PriorityOrder
import TaskFleet.Theorems.EnvelopeSize
import TaskFleet.Theorems.CapAgreement
import TaskFleet.Theorems.AcceptedParameters
import TaskFleet.Theorems.StatusTotals
import TaskFleet.Theorems.Throughput
import TaskFleet.Theorems.ResultDurability
import TaskFleet.Theorems.OperatorRequests
import TaskFleet.Theorems.OperatorAuthority
import TaskFleet.Theorems.BatchListing
import TaskFleet.Theorems.ResultProvenance
import TaskFleet.Theorems.FailureCounts
import TaskFleet.Theorems.PolicyHistory
import TaskFleet.Theorems.Recovery
import TaskFleet.Theorems.IdentityClaims
import TaskFleet.Theorems.SweepVerdicts
