/-!
# Relaxed JSON

Settings of compilers are written in a dialect of JSON with comments and with a comma allowed
behind the last item. A text of that dialect becomes JSON when both are left out.
-/

namespace AddonBuild

namespace Json.Relaxed

/-- What a byte of the text belongs to. -/
inductive Part where
  | plain
  | string
  | lineComment
  | blockComment
deriving DecidableEq, Repr

/-- A byte that may stand between a trailing comma and its bracket. -/
def isBlank (b : UInt8) : Bool :=
  b == 0x20 || b == 0x09 || b == 0x0A || b == 0x0C || b == 0x0D

/-- Whether nothing but blanks comes before a closing bracket. -/
def closes (s : List UInt8) : Bool :=
  match s.dropWhile isBlank with
  | b :: _ => b == 0x5D || b == 0x7D
  | [] => false

/-- The text without what a comment or a trailing comma takes up. -/
def stripFrom : Part → List UInt8 → List UInt8
  | _, [] => []
  | .plain, 0x22 :: rest => 0x22 :: stripFrom .string rest
  | .plain, 0x2F :: 0x2F :: rest => stripFrom .lineComment rest
  | .plain, 0x2F :: 0x2A :: rest => stripFrom .blockComment rest
  | .plain, 0x2C :: rest =>
    if closes rest then stripFrom .plain rest else 0x2C :: stripFrom .plain rest
  | .plain, b :: rest => b :: stripFrom .plain rest
  | .string, 0x5C :: b :: rest => 0x5C :: b :: stripFrom .string rest
  | .string, 0x22 :: rest => 0x22 :: stripFrom .plain rest
  | .string, b :: rest => b :: stripFrom .string rest
  | .lineComment, 0x0A :: rest => 0x0A :: stripFrom .plain rest
  | .lineComment, _ :: rest => stripFrom .lineComment rest
  | .blockComment, 0x2A :: 0x2F :: rest => stripFrom .plain rest
  | .blockComment, _ :: rest => stripFrom .blockComment rest

/-- A text without its comments and trailing commas. Strings are kept as they are. -/
def strip (s : List UInt8) : List UInt8 :=
  stripFrom .plain s

end Json.Relaxed

end AddonBuild
