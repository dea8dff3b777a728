/-!
# Faults of a JSON text

A fault names its cause and the place where reading stopped, as a line and the number of bytes
read on that line.
-/

namespace AddonBuild

namespace Json

/-- What can be wrong with a JSON text. -/
inductive Cause where
  | endInValue
  | endInList
  | endInObject
  | endInString
  | expectedColon
  | expectedCommaOrBracket
  | expectedCommaOrBrace
  | expectedIdentifier
  | expectedValue
  | numberOutOfRange
  | invalidEscape
  | invalidNumber
  | invalidUnicode
  | controlCharacter
  | keyNotString
  | loneSurrogate
  | trailingComma
  | trailingCharacters
  | cutHexEscape
  | tooDeep
deriving DecidableEq, Repr

/-- The wording of a cause. -/
def Cause.message : Cause → String
  | .endInValue => "EOF while parsing a value"
  | .endInList => "EOF while parsing a list"
  | .endInObject => "EOF while parsing an object"
  | .endInString => "EOF while parsing a string"
  | .expectedColon => "expected `:`"
  | .expectedCommaOrBracket => "expected `,` or `]`"
  | .expectedCommaOrBrace => "expected `,` or `\x7d`"
  | .expectedIdentifier => "expected ident"
  | .expectedValue => "expected value"
  | .numberOutOfRange => "number out of range"
  | .invalidEscape => "invalid escape"
  | .invalidNumber => "invalid number"
  | .invalidUnicode => "invalid unicode code point"
  | .controlCharacter => "control character (\\u0000-\\u001F) found while parsing a string"
  | .keyNotString => "key must be a string"
  | .loneSurrogate => "lone leading surrogate in hex escape"
  | .trailingComma => "trailing comma"
  | .trailingCharacters => "trailing characters"
  | .cutHexEscape => "unexpected end of hex escape"
  | .tooDeep => "recursion limit exceeded"

/-- A cause, and the input that was left when it was noticed. -/
structure Halt where
  cause : Cause
  rest : List UInt8
deriving DecidableEq, Repr

/-- A line, counted from one, and the number of bytes read on it. -/
structure Position where
  line : Nat
  column : Nat
deriving DecidableEq, Repr

/-- The position behind the given bytes. -/
def Position.after (read : List UInt8) : Position where
  line := 1 + read.count 10
  column := (read.reverse.takeWhile (· ≠ 10)).length

/-- The position reached in an input when only `rest` is left of it. -/
def Position.of (input rest : List UInt8) : Position :=
  .after (input.take (input.length - rest.length))

/-- The wording of a position. -/
def Position.text (p : Position) : String :=
  s!"line {p.line} column {p.column}"

/-- A cause at a position. -/
structure Fault where
  cause : Cause
  position : Position
deriving DecidableEq, Repr

/-- The fault of an input on which reading stopped. -/
def Fault.of (input : List UInt8) (halt : Halt) : Fault :=
  ⟨halt.cause, .of input halt.rest⟩

/-- The wording of a fault. -/
def Fault.message (fault : Fault) : String :=
  s!"{fault.cause.message} at {fault.position.text}"

end Json

end AddonBuild
