import DocViews.Query.Encoded
import DocViews.Duration
import DocViews.Signal

/-!
Transports take an encoded query to whoever answers it. A transport is known by a
handle; what the handles have in common is a state that every submission may change.
-/

namespace DocViews

/-- What became of a submission. -/
structure Submission (ω σ : Type) where
  outcome : Except ViewError σ
  /-- The shared state afterwards. -/
  state : ω
  /-- What the transport itself writes to the log. -/
  log : List LogEntry

/-- Handles `κ` on a shared state `ω`, through which sources `σ` are obtained. -/
class Transport (κ : Type) (ω σ : outParam Type) where
  submit : κ → EncodedQuery → Duration → ω → Submission ω σ

end DocViews
