import JeryuForge.GateClaims.Leases
import JeryuForge.GreenRef.Verdicts
import JeryuForge.Idempotency.Exclusion
import JeryuForge.Pipeline.Reposts
import JeryuForge.Pipeline.Imports
import JeryuForge.AuditQueue.Leases
import JeryuForge.Wanted.Polls
import JeryuForge.MergeQueue.Attempts
import JeryuForge.MergeQueue.Reload
import JeryuForge.Passport.Contexts
import JeryuForge.MergeQueue.Covering
import JeryuForge.Pipeline.Backfill
import JeryuForge.Flow.Window
import JeryuForge.Presence.Runs
import JeryuForge.Conditional.Etag
import JeryuForge.Shift.RoundTrip
import JeryuForge.Shift.Queue
import JeryuForge.Gateway.Refusal
import JeryuForge.Gateway.Output
import JeryuForge.Gateway.Access
import JeryuForge.AgentRuns.Attach
import JeryuForge.Flow.RedGates
import JeryuForge.Pipeline.Histogram
import JeryuForge.RequestLimits.Windows
import JeryuForge.ReleaseActions.Store
import JeryuForge.Shift.Exchange
import JeryuForge.Replacements.Links
import JeryuForge.Outcomes.Charges
import JeryuForge.GitTransport.Sideband
import JeryuForge.Pipeline.MainHealth
import JeryuForge.ReviewCatch.AtMerge
import JeryuForge.GithubMirror.RunBounded
import JeryuForge.GithubMirror.Reconcile
import JeryuForge.Attention.RunnerItems
