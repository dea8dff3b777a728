import AddonBuild.Json.Basic

/-!
# Writing JSON

A value is written either compactly or with one item on each line, indented by its depth. Text
outside ASCII is kept; only quotes, backslashes and control characters are escaped.
-/

namespace AddonBuild

namespace Json

/-- The lower-case hexadecimal digit of a number below sixteen. -/
def hexDigit (n : Nat) : Char :=
  (Nat.toDigits 16 (n % 16)).headD '0'

/-- How a character of a string is written. -/
def escapeChar (c : Char) : List Char :=
  if c = '"' then ['\\', '"']
  else if c = '\\' then ['\\', '\\']
  else if c = '\n' then ['\\', 'n']
  else if c = '\r' then ['\\', 'r']
  else if c = '\t' then ['\\', 't']
  else if c.toNat = 0x08 then ['\\', 'b']
  else if c.toNat = 0x0C then ['\\', 'f']
  else if c.toNat < 0x20 then
    ['\\', 'u', '0', '0', hexDigit (c.toNat / 16), hexDigit c.toNat]
  else [c]

/-- A string in quotes. -/
def quote (text : String) : String :=
  "\"" ++ String.ofList (text.toList.flatMap escapeChar) ++ "\""

/-- The text of a number. -/
def Number.text : Number → String
  | .whole value => toString value
  | .floating value => value.text

/-! ### Compact text -/

mutual

/-- A value on one line without blanks. -/
def compact : Json → String
  | .null => "null"
  | .bool true => "true"
  | .bool false => "false"
  | .number n => n.text
  | .string text => quote text
  | .array items => "[" ++ ",".intercalate (compactItems items) ++ "]"
  | .object members => "\x7b" ++ ",".intercalate (compactMembers members) ++ "\x7d"

/-- The items of an array, each on its own. -/
def compactItems : List Json → List String
  | [] => []
  | item :: rest => item.compact :: compactItems rest

/-- The members of an object, each on its own. -/
def compactMembers : List (String × Json) → List String
  | [] => []
  | (key, value) :: rest => (quote key ++ ":" ++ value.compact) :: compactMembers rest

end

/-! ### Indented text -/

/-- A line break and the blanks in front of a line at the given depth. -/
def lineStart (indent : String) (depth : Nat) : String :=
  "\n" ++ String.join (List.replicate depth indent)

/-- Pieces between brackets, one on each line. -/
def bracketed (indent : String) (depth : Nat) (opening closing : String) (pieces : List String) :
    String :=
  if pieces.isEmpty then opening ++ closing
  else
    let start := lineStart indent (depth + 1)
    opening ++ start ++ ("," ++ start).intercalate pieces ++ lineStart indent depth ++ closing

mutual

/-- A value with one item on each line, at the given depth. -/
def prettyAt (indent : String) (depth : Nat) : Json → String
  | .null => "null"
  | .bool true => "true"
  | .bool false => "false"
  | .number n => n.text
  | .string text => quote text
  | .array items => bracketed indent depth "[" "]" (prettyItems indent (depth + 1) items)
  | .object members =>
    bracketed indent depth "\x7b" "\x7d" (prettyMembers indent (depth + 1) members)

/-- The items of an array, each on its own. -/
def prettyItems (indent : String) (depth : Nat) : List Json → List String
  | [] => []
  | item :: rest => prettyAt indent depth item :: prettyItems indent depth rest

/-- The members of an object, each on its own. -/
def prettyMembers (indent : String) (depth : Nat) : List (String × Json) → List String
  | [] => []
  | (key, value) :: rest =>
    (quote key ++ ": " ++ prettyAt indent depth value) :: prettyMembers indent depth rest

end

/-- A value with one item on each line. -/
def pretty (indent : String) (value : Json) : String :=
  prettyAt indent 0 value

end Json

end AddonBuild
