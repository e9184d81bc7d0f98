import Potocolom.Journal.Delivery
import Potocolom.Accounts.Eviction
import Potocolom.Realtime.Fencing
import Potocolom.Realtime.Queue
import Potocolom.Worker.Tombstones
import Potocolom.Deletion.Window
import Potocolom.Install.Collapse
import Potocolom.Protocol.Parse
import Potocolom.Protocol.Faithful
import Potocolom.Edits.Kept
import Potocolom.Events.Verdict
import Potocolom.Reports.Superseded
import Potocolom.Frames.Correlated
import Potocolom.Settlement.Usage
import Potocolom.Dispatch.Stranded
import Potocolom.Rollups.Conserved
import Potocolom.Keys.Rotation
import Potocolom.Manifests.Regex
import Potocolom.Guesses.Budget
import Potocolom.Accounts.Proofs
import Potocolom.Leases.Fenced
import Potocolom.Locks.Accounts
import Potocolom.Locks.Ordered
import Potocolom.Browser.Mailbox
import Potocolom.Admission.Shed
import Potocolom.Limits.Fair
import Potocolom.FrameBatch.Progress
import Potocolom.Dispatch.Verdicts
import Potocolom.Administrators.Last
import Potocolom.Lineage.Walk
import Potocolom.WorkerModels.Whole
import Potocolom.Decision.Kept
import Potocolom.Lib.Subsequence
import Potocolom.PromptDiff.Diff
import Potocolom.PromptDiff.Collapse
import Potocolom.Upscale.Blend
import Potocolom.History.Paging
import Potocolom.Forest.Machine
import Potocolom.Forest.Steps
import Potocolom.Forest.Scheduled
import Potocolom.Lib.Behaviour
import Potocolom.Forest.Drained
import Potocolom.Forest.Answered
import Potocolom.Forest.Replaced
import Potocolom.Starred.Machine
import Potocolom.Starred.Serial
import Potocolom.Starred.Flips
import Potocolom.Starred.Synchronous
import Potocolom.Starred.Converges
import Potocolom.Drawing.File
import Potocolom.Drawing.Accepted
import Potocolom.Drawing.Written
import Potocolom.Drawing.Document
import Potocolom.Drawing.Replay
import Potocolom.Drawing.Gestures
import Potocolom.Drawing.Reached
import Potocolom.Drawing.RoundTrip
import Potocolom.Delivery.Composite
import Potocolom.Delivery.Machine
import Potocolom.Delivery.Steps
import Potocolom.Delivery.Requests
import Potocolom.Delivery.Batches
import Potocolom.Delivery.Blended
import Potocolom.Delivery.Isolated
import Potocolom.Delivery.ChangeMask
import Potocolom.Engine.Honest
import Potocolom.Worker.Stamped
import Potocolom.Parameters.Editable
import Potocolom.Listing.Paging
import Potocolom.Listing.Agreement
import Potocolom.Stored.Png
import Potocolom.Startup.Exclusive
import Potocolom.Dispatch.Lifecycle
