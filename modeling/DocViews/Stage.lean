import DocViews.Vocabulary

/-!
The three stages of a request, passed through in this order.
-/

namespace DocViews

inductive Stage where
  /-- Built but not yet submitted. -/
  | notStarted
  /-- Submitted; rows are being pulled. -/
  | streaming
  /-- No further row will come. -/
  | done
  deriving DecidableEq, Repr, Inhabited

namespace Stage

instance : Vocabulary Stage where
  kind := "state"
  all := [.notStarted, .streaming, .done]
  token
    | .notStarted => "NotStarted"
    | .streaming => "Streaming"
    | .done => "Done"

/-- The place of a stage in the order in which a request passes them. -/
def rank : Stage → Nat
  | .notStarted => 0
  | .streaming => 1
  | .done => 2

instance : LE Stage := ⟨fun a b => a.rank ≤ b.rank⟩

theorem le_refl (s : Stage) : s ≤ s := Nat.le_refl s.rank

theorem le_trans {a b c : Stage} (hab : a ≤ b) (hbc : b ≤ c) : a ≤ c := Nat.le_trans hab hbc

theorem notStarted_le (s : Stage) : .notStarted ≤ s := Nat.zero_le s.rank

theorem le_done (s : Stage) : s ≤ .done := by
  cases s with
  | notStarted => exact Nat.zero_le 2
  | streaming => exact Nat.le_succ 1
  | done => exact le_refl .done

def isTerminal (s : Stage) : Bool := s == .done

/-- Only a request that has not started can be submitted. -/
def canSubmit (s : Stage) : Bool := s == .notStarted

/-- Rows can be pulled until the end; a request that has not started is submitted first. -/
def canPull (s : Stage) : Bool := !s.isTerminal

theorem canPull_iff {s : Stage} : s.canPull ↔ s ≠ .done := by
  cases s <;> decide

end Stage

end DocViews
