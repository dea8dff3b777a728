import AddonBuild.Text.Quoted

/-!
# Semantic versions

A version is `major.minor.patch`, then optionally `-` and a pre-release label, then optionally `+`
and build metadata. Reading goes from left to right, and the first place that does not fit is the
one that is reported.
-/

namespace AddonBuild

/-- A semantic version. A label that is absent is empty. -/
structure Version where
  major : Nat
  minor : Nat
  patch : Nat
  pre : String
  build : String
deriving DecidableEq, Repr

namespace Version

/-- The parts of a version. -/
inductive Part where
  | major
  | minor
  | patch
  | pre
  | build
deriving DecidableEq, Repr

/-- How a part is called in messages. -/
def Part.text : Part → String
  | .major => "major version number"
  | .minor => "minor version number"
  | .patch => "patch version number"
  | .pre => "pre-release identifier"
  | .build => "build metadata"

/-- Why a text is no version. -/
inductive Fault where
  | empty
  | unexpectedEnd (part : Part)
  | unexpectedIn (part : Part) (c : Char)
  | unexpectedAfter (part : Part) (c : Char)
  | leadingZero (part : Part)
  | tooLarge (part : Part)
  | emptySegment (part : Part)
deriving DecidableEq, Repr

/-- The wording of a fault. -/
def Fault.message : Fault → String
  | .empty => "empty string, expected a semver version"
  | .unexpectedEnd part => s!"unexpected end of input while parsing {part.text}"
  | .unexpectedIn part c => s!"unexpected character {Text.quotedChar c} while parsing {part.text}"
  | .unexpectedAfter part c => s!"unexpected character {Text.quotedChar c} after {part.text}"
  | .leadingZero part => s!"invalid leading zero in {part.text}"
  | .tooLarge part => s!"value of {part.text} exceeds u64::MAX"
  | .emptySegment part => s!"empty identifier segment in {part.text}"

/-! ### Reading -/

/-- The greatest number a part can hold. -/
def maxNumber : Nat := 0xFFFFFFFFFFFFFFFF

/-- Append decimal digits to a number. A zero may not come before another digit. -/
def number (part : Part) (value : Nat) (first : Bool) : List Char → Except Fault Nat
  | [] => .ok value
  | c :: rest =>
    let next := value * 10 + (c.toNat - '0'.toNat)
    if value = 0 ∧ ¬first then .error (.leadingZero part)
    else if maxNumber < next then .error (.tooLarge part)
    else number part next false rest

/-- Read a number and return the text behind it. -/
def readNumber (part : Part) (s : List Char) : Except Fault (Nat × List Char) :=
  let digits := s.takeWhile Char.isDigit
  match digits, s with
  | [], [] => .error (.unexpectedEnd part)
  | [], c :: _ => .error (.unexpectedIn part c)
  | digits, s => do return (← number part 0 true digits, s.dropWhile Char.isDigit)

/-- Step over the dot behind a part. -/
def readDot (part : Part) : List Char → Except Fault (List Char)
  | '.' :: rest => .ok rest
  | c :: _ => .error (.unexpectedAfter part c)
  | [] => .error (.unexpectedEnd part)

/-- A character of a label. -/
def isLabelChar (c : Char) : Bool :=
  c.isAlphanum || c = '-'

/-- Check one segment of a label, given its characters. A number in a pre-release label may not
start with a zero. -/
def checkSegment (part : Part) (segment : List Char) : Except Fault Unit :=
  if segment.isEmpty then .error (.emptySegment part)
  else if part = .pre ∧ segment.all Char.isDigit ∧ 1 < segment.length ∧ segment.head? = some '0'
  then .error (.leadingZero part)
  else .ok ()

/-- Split a text at the dots. -/
def splitDots : List Char → List (List Char)
  | [] => [[]]
  | c :: rest =>
    match splitDots rest with
    | [] => [[c]]
    | piece :: pieces => if c = '.' then [] :: piece :: pieces else (c :: piece) :: pieces

/-- Read the segments of a label and return the text behind it. -/
def readLabel (part : Part) (s : List Char) : Except Fault (String × List Char) := do
  let label := s.takeWhile fun c => isLabelChar c || c = '.'
  (splitDots label).forM (checkSegment part)
  return (String.ofList label, s.dropWhile fun c => isLabelChar c || c = '.')

/-- Read a label if the given mark announces one. -/
def readMarked (mark : Char) (part : Part) (s : List Char) :
    Except Fault (Option String × List Char) :=
  match s with
  | [] => .ok (none, [])
  | c :: rest =>
    if c = mark then do
      let (label, rest) ← readLabel part rest
      return (some label, rest)
    else .ok (none, s)

/-- The version that a text denotes. -/
def parse (text : String) : Except Fault Version := do
  let s := text.toList
  if s.isEmpty then throw .empty
  let (major, s) ← readNumber .major s
  let s ← readDot .major s
  let (minor, s) ← readNumber .minor s
  let s ← readDot .minor s
  let (patch, s) ← readNumber .patch s
  let (pre, s) ← readMarked '-' .pre s
  let (build, s) ← readMarked '+' .build s
  match s with
  | [] => return ⟨major, minor, patch, pre.getD "", build.getD ""⟩
  | c :: _ =>
    let last : Part := if build.isSome then .build else if pre.isSome then .pre else .patch
    throw (.unexpectedAfter last c)

/-! ### Writing -/

/-- The text of a version. -/
def text (v : Version) : String :=
  s!"{v.major}.{v.minor}.{v.patch}"
    ++ (if v.pre.isEmpty then "" else "-" ++ v.pre)
    ++ (if v.build.isEmpty then "" else "+" ++ v.build)

end Version

end AddonBuild
