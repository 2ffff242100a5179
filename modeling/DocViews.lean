import DocViews.Session
import DocViews.Numeric.Literal
import DocViews.Proofs.Request.Run
import DocViews.Proofs.Request.Representation
import DocViews.Proofs.Request.Operations
import DocViews.Proofs.Request.Calls
import DocViews.Proofs.Request.Stream
import DocViews.Proofs.Request.Independence
import DocViews.Proofs.Session.Snapshot
import DocViews.Proofs.Numeric.Rounding
import DocViews.Proofs.Numeric.Shortest
import DocViews.Proofs.Json.Strings
import DocViews.Proofs.Json.Integers
import DocViews.Proofs.Json.Floats
import DocViews.Proofs.Json.Values
import DocViews.Proofs.Json.Nesting
import DocViews.Proofs.Metadata
import DocViews.Proofs.Query.Encoding
import DocViews.Proofs.Query.Evaluation
import DocViews.Proofs.Store.Understanding
import DocViews.Proofs.Store.Reply
import DocViews.Proofs.Store.History
import DocViews.Proofs.Store.Isolation
import DocViews.Proofs.Store.Failures
import DocViews.Proofs.Store.Contents
import DocViews.Proofs.Bucket
import DocViews.Proofs.Delivery
import DocViews.Proofs.Request.Effect
import DocViews.Proofs.Request.Consumption
import DocViews.Proofs.Request.Provenance
import DocViews.Proofs.Request.Refusal
import DocViews.Proofs.Request.Handover
import DocViews.Proofs.Request.Recording
import DocViews.Proofs.Workload
import DocViews.Proofs.Session.Submissions
import DocViews.Proofs.Collation
import DocViews.Proofs.Index.Scan
import DocViews.Proofs.Index.Sums
import DocViews.Proofs.Index.Groups
import DocViews.Proofs.Index.Regrouping
import DocViews.Proofs.Store.Holdings
import DocViews.Proofs.Store.Pages
import DocViews.Proofs.Totals
import DocViews.Proofs.Numeric.Exactness
import DocViews.Proofs.Ties
import DocViews.Proofs.Query.Range
import DocViews.Proofs.Store.Ranges
import DocViews.Proofs.Store.Grouped
import DocViews.Proofs.Store.Listed
import DocViews.Proofs.Store.Rearranged
import DocViews.Proofs.Store.Windows
import DocViews.Proofs.Query.Building
import DocViews.Proofs.Query.Wire
import DocViews.Proofs.Numeric.Nearest
import DocViews.Proofs.Json.Survival
import DocViews.Proofs.Store.OwnKey
import DocViews.Proofs.Json.Depth
import DocViews.Proofs.Request.Mapping
import DocViews.Proofs.RowTypes
import DocViews.Proofs.Payloads
import DocViews.Proofs.Numeric.Closest
import DocViews.Proofs.Query.Seconds
import DocViews.Proofs.Config
import DocViews.Proofs.Query.Durations
import DocViews.Proofs.Reencoding
