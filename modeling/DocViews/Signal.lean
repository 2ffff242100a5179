import DocViews.Source

/-!
What a request lets others observe besides its answers: counters, log events, and the
calls it makes on the transport, the source and the serializer.
-/

namespace DocViews

inductive Counter where
  | queriesSubmitted
  | rowsStreamed
  | streamsCompleted
  | streamErrors
  /-- How often the duration of a stream was recorded. -/
  | streamDurations
  deriving DecidableEq, Repr

namespace Counter

def name : Counter → String
  | .queriesSubmitted => "views_queries_submitted"
  | .rowsStreamed => "views_rows_streamed"
  | .streamsCompleted => "views_streams_completed"
  | .streamErrors => "views_stream_errors"
  | .streamDurations => "views_stream_duration_seconds"

def all : List Counter :=
  [.queriesSubmitted, .rowsStreamed, .streamsCompleted, .streamErrors, .streamDurations]

end Counter

inductive Level where
  | debug
  | warn
  deriving DecidableEq, Repr

def Level.name : Level → String
  | .debug => "DEBUG"
  | .warn => "WARN"

inductive LogEntry where
  | event (level : Level) (message : String) (fields : List (String × String))
  /-- The beginning of an operation. -/
  | span (name : String) (fields : List (String × String))
  deriving DecidableEq, Repr

def LogEntry.debug (message : String) (fields : List (String × String)) : LogEntry :=
  .event .debug message fields

def LogEntry.warn (message : String) (fields : List (String × String)) : LogEntry :=
  .event .warn message fields

/-- A call on one of the parties a request works with. -/
inductive Call where
  | submit
  | next (answer : Pulled)
  | trailer
  | decode (serializer : String) (payload : Bytes)

/-- The branches that a request keeps for the case that it lacks what its stage promises. -/
inductive Fallback where
  /-- Not submitted, and no transport to submit through. -/
  | noTransport
  /-- Rows are pulled, and there is no source. -/
  | noSource
  /-- The rows have ended, and there is no source to ask for the trailer. -/
  | noSourceAtEnd
  deriving DecidableEq, Repr

inductive Signal where
  | count (counter : Counter)
  | log (entry : LogEntry)
  | call (c : Call)
  | fallback (f : Fallback)

namespace Signal

@[simp]
def debug (message : String) (fields : List (String × String)) : Signal :=
  .log (.debug message fields)

@[simp]
def warn (message : String) (fields : List (String × String)) : Signal :=
  .log (.warn message fields)

def total (counter : Counter) (signals : List Signal) : Nat :=
  signals.countP fun
    | .count c => c == counter
    | _ => false

def entries (signals : List Signal) : List LogEntry :=
  signals.filterMap fun
    | .log entry => some entry
    | _ => none

def calls (signals : List Signal) : List Call :=
  signals.filterMap fun
    | .call c => some c
    | _ => none

def fallbacks (signals : List Signal) : List Fallback :=
  signals.filterMap fun
    | .fallback f => some f
    | _ => none

/-- How often the serializer of this name decoded a payload. -/
def decodes (serializer : String) (signals : List Signal) : Nat :=
  (calls signals).countP fun
    | .decode name _ => name == serializer
    | _ => false

/-- A number as log fields show it. -/
def number (n : Nat) : String := String.ofList (digitChars n)

/-- A number that may be missing, as log fields show it. -/
def optionalNumber : Option Nat → String
  | some n => "Some(" ++ number n ++ ")"
  | none => "None"

section Views

variable (signals more : List Signal)

@[simp]
theorem calls_nil : calls [] = [] := rfl

@[simp]
theorem calls_count (c : Counter) : calls (.count c :: signals) = calls signals := rfl

@[simp]
theorem calls_log (entry : LogEntry) : calls (.log entry :: signals) = calls signals := rfl

@[simp]
theorem calls_call (c : Call) : calls (.call c :: signals) = c :: calls signals := rfl

@[simp]
theorem calls_fallback (f : Fallback) : calls (.fallback f :: signals) = calls signals := rfl

@[simp]
theorem calls_append : calls (signals ++ more) = calls signals ++ calls more :=
  List.filterMap_append

/-- What a transport writes to the log is no call of the request. -/
@[simp]
theorem calls_map_log (entries : List LogEntry) : calls (entries.map .log) = [] := by
  induction entries with
  | nil => rfl
  | cons entry rest ih => simpa using ih

@[simp]
theorem fallbacks_nil : fallbacks [] = [] := rfl

@[simp]
theorem fallbacks_count (c : Counter) : fallbacks (.count c :: signals) = fallbacks signals := rfl

@[simp]
theorem fallbacks_log (entry : LogEntry) :
    fallbacks (.log entry :: signals) = fallbacks signals := rfl

@[simp]
theorem fallbacks_call (c : Call) : fallbacks (.call c :: signals) = fallbacks signals := rfl

@[simp]
theorem fallbacks_append : fallbacks (signals ++ more) = fallbacks signals ++ fallbacks more :=
  List.filterMap_append

@[simp]
theorem fallbacks_map_log (entries : List LogEntry) : fallbacks (entries.map .log) = [] := by
  induction entries with
  | nil => rfl
  | cons entry rest ih => simpa using ih

variable (counter : Counter)

@[simp]
theorem total_nil : total counter [] = 0 := rfl

@[simp]
theorem total_count (c : Counter) :
    total counter (.count c :: signals) = total counter signals + if c = counter then 1 else 0 := by
  simp [total, List.countP_cons]

@[simp]
theorem total_log (entry : LogEntry) :
    total counter (.log entry :: signals) = total counter signals := rfl

@[simp]
theorem total_call (c : Call) : total counter (.call c :: signals) = total counter signals := rfl

@[simp]
theorem total_append : total counter (signals ++ more) = total counter signals + total counter more :=
  List.countP_append

@[simp]
theorem total_map_log (entries : List LogEntry) : total counter (entries.map .log) = 0 := by
  induction entries with
  | nil => rfl
  | cons entry rest ih => simpa using ih

@[simp]
theorem entries_nil : entries [] = [] := rfl

@[simp]
theorem entries_count (c : Counter) : entries (.count c :: signals) = entries signals := rfl

@[simp]
theorem entries_log (entry : LogEntry) :
    entries (.log entry :: signals) = entry :: entries signals := rfl

@[simp]
theorem entries_call (c : Call) : entries (.call c :: signals) = entries signals := rfl

@[simp]
theorem entries_append : entries (signals ++ more) = entries signals ++ entries more :=
  List.filterMap_append

@[simp]
theorem entries_map_log (log : List LogEntry) : entries (log.map .log) = log := by
  induction log with
  | nil => rfl
  | cons entry rest ih => simpa using ih

end Views

end Signal

end DocViews
