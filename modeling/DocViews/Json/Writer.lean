import DocViews.Json.Value
import DocViews.Numeric.Shortest
import DocViews.Text.Utf8

/-!
The compact text of a JSON value: no blanks, members in the order of the object,
and for every number one spelling.
-/

namespace DocViews.Json

/-- The written form of a character inside a string. Only the quote, the backslash and
the controls below the space are escaped. -/
def escapedChar (c : Char) : List Char :=
  if c = '"' then ['\\', '"']
  else if c = '\\' then ['\\', '\\']
  else if c.toNat = 0x08 then ['\\', 'b']
  else if c.toNat = 0x09 then ['\\', 't']
  else if c.toNat = 0x0a then ['\\', 'n']
  else if c.toNat = 0x0c then ['\\', 'f']
  else if c.toNat = 0x0d then ['\\', 'r']
  else if c.toNat < 0x20 then
    ['\\', 'u', '0', '0', Nat.digitChar (c.toNat / 16), Nat.digitChar (c.toNat % 16)]
  else [c]

def stringChars (s : String) : List Char := '"' :: s.toList.flatMap escapedChar ++ ['"']

/-- A float shows the fewest digits that name it, a tie going to the even digit. It is
written out from `0.00001` up to sixteen places before the point, else with a power
of ten. -/
def floatChars (x : Double) : List Char :=
  let decimal := x.shortest .even
  let unsigned :=
    if x.isZero ∨ (-5 ≤ decimal.leading ∧ decimal.leading ≤ 15) then decimal.positional .oneZero
    else decimal.scientific
  if x.negative then '-' :: unsigned else unsigned

def Number.chars : Number → List Char
  | .integer n => integerChars n.value
  | .float x => floatChars x

namespace Value

mutual

def chars : Value → List Char
  | .null => ['n', 'u', 'l', 'l']
  | .bool true => ['t', 'r', 'u', 'e']
  | .bool false => ['f', 'a', 'l', 's', 'e']
  | .number n => n.chars
  | .string s => stringChars s
  | .array items => '[' :: itemsChars items
  | .object members => '\x7b' :: membersChars members

/-- The items of an array from the first one on, and its end. -/
def itemsChars : List Value → List Char
  | [] => [']']
  | item :: rest => item.chars ++ laterItemsChars rest

/-- The items of an array from a later one on, each after a comma, and its end. -/
def laterItemsChars : List Value → List Char
  | [] => [']']
  | item :: rest => ',' :: item.chars ++ laterItemsChars rest

/-- The members of an object from the first one on, and its end. -/
def membersChars : List (String × Value) → List Char
  | [] => ['\x7d']
  | (key, value) :: rest => stringChars key ++ ':' :: value.chars ++ laterMembersChars rest

/-- The members of an object from a later one on, each after a comma, and its end. -/
def laterMembersChars : List (String × Value) → List Char
  | [] => ['\x7d']
  | (key, value) :: rest =>
      ',' :: stringChars key ++ ':' :: value.chars ++ laterMembersChars rest

end

def text (v : Value) : String := String.ofList v.chars

def bytes (v : Value) : Bytes := Utf8.encode v.chars

end Value

end DocViews.Json
