import DocViews.Json.Writer

/-!
Everything that can go wrong between building a query and the end of its rows, and
the markers by which a server reports an error inside a stream.
-/

namespace DocViews

/-- An error that a server reports inside a stream. -/
structure Marker where
  code : Nat
  message : String
  context : Option Json.Value

inductive ViewError where
  /-- An option was rejected while the query was built. -/
  | invalidArgument (message : String)
  /-- The rows of a request can be iterated once only. -/
  | alreadyQueried
  | designDocumentNotFound (message : String)
  | viewNotFound (message : String)
  | invalidRequest (message : String)
  | requestCanceled (message : String)
  | serviceNotAvailable (message : String)
  | internalServerFailure (message : String)
  | authenticationFailure (message : String)
  | temporaryFailure (message : String)
  | parsingFailure (message : String)
  | ambiguousTimeout (message : String)
  | unambiguousTimeout (message : String)
  /-- A marker whose code has no meaning of its own here. -/
  | server (code : Nat) (message : String)
  /-- A fault outside the server, or an answer that does not decode. -/
  | internal (message : String)
  deriving DecidableEq, Repr

/-- The message of a marker, followed by its context if it has one. -/
def Marker.text (m : Marker) : String :=
  match m.context with
  | some context => m.message ++ " (context: " ++ context.text ++ ")"
  | none => m.message

namespace ViewError

def message : ViewError → String
  | .invalidArgument m => "Invalid argument: " ++ m
  | .alreadyQueried => "Query has already been executed; results can only be iterated once"
  | .designDocumentNotFound m => "Design document not found: " ++ m
  | .viewNotFound m => "View not found: " ++ m
  | .invalidRequest m => "Invalid request: " ++ m
  | .requestCanceled m => "Request canceled: " ++ m
  | .serviceNotAvailable m => "Service not available: " ++ m
  | .internalServerFailure m => "Internal server failure: " ++ m
  | .authenticationFailure m => "Authentication failure: " ++ m
  | .temporaryFailure m => "Temporary failure: " ++ m
  | .parsingFailure m => "Parsing failure: " ++ m
  | .ambiguousTimeout m => "Ambiguous timeout: " ++ m
  | .unambiguousTimeout m => "Unambiguous timeout: " ++ m
  | .server code m => "Server error " ++ String.ofList (digitChars code) ++ ": " ++ m
  | .internal m => "Internal SDK error: " ++ m

/-- The error a marker stands for, by its code. -/
def ofMarker (m : Marker) : ViewError :=
  match m.code with
  | 2 => .requestCanceled m.text
  | 3 => .invalidRequest m.text
  | 4 => .serviceNotAvailable m.text
  | 5 => .internalServerFailure m.text
  | 6 => .authenticationFailure m.text
  | 7 => .temporaryFailure m.text
  | 8 => .parsingFailure m.text
  | 13 => .ambiguousTimeout m.text
  | 14 => .unambiguousTimeout m.text
  | 501 => .viewNotFound m.text
  | 502 => .designDocumentNotFound m.text
  | code => .server code m.text

/-- Whether the error is of a kind that markers stand for. -/
def isInStream : ViewError → Bool
  | .invalidArgument _ | .alreadyQueried | .internal _ => false
  | _ => true

/-- Whether the error was raised while the query was built. -/
def isBuildError : ViewError → Bool
  | .invalidArgument _ => true
  | _ => false

end ViewError

end DocViews
