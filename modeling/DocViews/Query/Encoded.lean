import DocViews.Query.Field
import DocViews.Serializer

/-!
The encoded form of a query: a dictionary of named parameters. Only what was set is
in it, and everything but the serializer goes over the wire.
-/

namespace DocViews

/-- The value of a parameter. A serializer stays on this side of the wire. -/
inductive Param where
  | string (s : String)
  | bool (b : Bool)
  | natural (n : UInt64)
  | strings (list : List String)
  | serializer (s : Serializer)

namespace Param

def same : Param → Param → Bool
  | .string a, .string b => a == b
  | .bool a, .bool b => a == b
  | .natural a, .natural b => a == b
  | .strings a, .strings b => a == b
  | .serializer a, .serializer b => a == b
  | _, _ => false

/-- Serializers are compared by who they are, all else by value. -/
instance : BEq Param := ⟨same⟩

/-- The parameter as it goes over the wire. -/
def wire? : Param → Option Json.Value
  | .string s => some (.string s)
  | .bool b => some (.bool b)
  | .natural n => some (.ofUInt64 n)
  | .strings list => some (.array (list.map .string))
  | .serializer _ => none

end Param

/-- Parameters by name. -/
structure EncodedQuery where
  params : Dictionary Param

namespace EncodedQuery

def empty : EncodedQuery := ⟨.empty⟩

/-- Sets a parameter, in place of one that had the name before. -/
def insert (q : EncodedQuery) (name : String) (param : Param) : EncodedQuery :=
  ⟨q.params.insert name param⟩

def ofPairs (pairs : List (String × Param)) : EncodedQuery :=
  ⟨.ofPairs pairs⟩

def get? (q : EncodedQuery) (name : String) : Option Param := q.params.find? name

def string? (q : EncodedQuery) (name : String) : Option String :=
  match q.get? name with
  | some (.string s) => some s
  | _ => none

def bool? (q : EncodedQuery) (name : String) : Option Bool :=
  match q.get? name with
  | some (.bool b) => some b
  | _ => none

def natural? (q : EncodedQuery) (name : String) : Option UInt64 :=
  match q.get? name with
  | some (.natural n) => some n
  | _ => none

def strings? (q : EncodedQuery) (name : String) : Option (List String) :=
  match q.get? name with
  | some (.strings list) => some list
  | _ => none

/-- A parameter that is a serializer, under any name. -/
def serializerAt? (q : EncodedQuery) (name : String) : Option Serializer :=
  match q.get? name with
  | some (.serializer s) => some s
  | _ => none

def serializer? (q : EncodedQuery) : Option Serializer :=
  q.serializerAt? QueryField.serializer

def contains (q : EncodedQuery) (name : String) : Bool := (q.get? name).isSome

def size (q : EncodedQuery) : Nat := q.params.pairs.length

def isEmpty (q : EncodedQuery) : Bool := q.params.pairs.isEmpty

def names (q : EncodedQuery) : List String := q.params.keys

/-- The object that goes over the wire. -/
def toJson (q : EncodedQuery) : Json.Value :=
  .object (q.params.mapValues Param.wire?).pairs

instance : BEq EncodedQuery := ⟨fun a b => a.params == b.params⟩

end EncodedQuery

end DocViews
