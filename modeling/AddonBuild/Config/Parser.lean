import AddonBuild.Config
import AddonBuild.Json.Parser

/-!
# Reading settings

Settings are read from JSON in one pass. All of them have to be there, each once; members with
other names are skipped. An array with the settings in their order is accepted as well.
-/

namespace AddonBuild

namespace Config

/-! ### Faults and positions -/

/-- What is wrong with a text of settings. -/
inductive Trouble where
  | malformed (cause : Json.Cause)
  | mismatched (mismatch : Json.Mismatch)

/-- The wording of a trouble. -/
def Trouble.message : Trouble → String
  | .malformed cause => cause.message
  | .mismatched mismatch => mismatch.message

/-- A trouble, with the input that was left when it was noticed. -/
structure Halt where
  trouble : Trouble
  rest : List UInt8

/-- A reader of one part of the settings. -/
abbrev Reader (α : Type) := List UInt8 → Except Halt (α × List UInt8)

/-- Stop at a malformed text. -/
def malformed {α : Type} (cause : Json.Cause) (rest : List UInt8) : Except Halt α :=
  .error ⟨.malformed cause, rest⟩

/-- Stop at a value that does not fit. -/
def mismatched {α : Type} (mismatch : Json.Mismatch) (rest : List UInt8) : Except Halt α :=
  .error ⟨.mismatched mismatch, rest⟩

/-- Read a part of a JSON text. -/
def lift {α : Type} (read : Json.Reader α) : Reader α := fun s =>
  (read s).mapError fun halt => ⟨.malformed halt.cause, halt.rest⟩

/-! ### Values -/

/-- Name the value that starts here as one of the wrong type. Brackets are not stepped over. -/
def wrongType {α : Type} (expected : String) (b : UInt8) (behind : List UInt8) : Except Halt α := do
  let report (found : Json) (rest : List UInt8) : Except Halt α :=
    mismatched (.wrongType found expected) rest
  if b = 0x5B then report (.array []) (b :: behind)
  else if b = 0x7B then report (.object []) (b :: behind)
  else
    match ← lift (Json.startValue .strict [] b) behind with
    | (.done value, rest) => report value rest
    | (.more .., rest) => report .null rest

/-- Read a string. -/
def readText (expected : String) : Reader String := fun s =>
  match Json.skipBlank s with
  | [] => malformed .endInValue []
  | b :: behind =>
    if b = 0x22 then lift Json.quoted behind else wrongType expected b behind

/-- Step to the next item of an array, or find its end. -/
def nextItem (first : Bool) : Reader Bool := fun s =>
  match Json.skipBlank s with
  | [] => malformed .endInList []
  | b :: behind =>
    if b = 0x5D then .ok (false, b :: behind)
    else if first then .ok (true, b :: behind)
    else if b = 0x2C then
      match Json.skipBlank behind with
      | [] => malformed .endInValue []
      | c :: after =>
        if c = 0x5D then malformed .trailingComma after else .ok (true, c :: after)
    else malformed .expectedCommaOrBracket behind

/-- Step over the end of an array, of which no more items are expected. -/
def endArray : Reader Unit := fun s =>
  match Json.skipBlank s with
  | [] => malformed .endInList []
  | b :: behind =>
    if b = 0x5D then .ok ((), behind)
    else if b = 0x2C then
      match Json.skipBlank behind with
      | c :: after =>
        if c = 0x5D then malformed .trailingComma after else malformed .trailingCharacters after
      | [] => malformed .trailingCharacters []
    else malformed .trailingCharacters behind

/-- Read the strings of an array that is already open. There are no more of them than bytes, which
`bound` counts. -/
def readTexts (first : Bool) : Nat → Reader (List String)
  | 0, s => malformed .endInList s
  | bound + 1, s => do
    match ← nextItem first s with
    | (false, s) => return ([], s)
    | (true, s) =>
      let (text, s) ← readText "a string" s
      let (more, s) ← readTexts false bound s
      return (text :: more, s)

/-! ### Settings -/

/-- The form of a setting. -/
inductive Form where
  | path
  | texts
deriving DecidableEq, Repr

/-- The value of a setting. -/
inductive Value where
  | path (p : Path)
  | texts (texts : List String)

/-- The settings by name, in their order. -/
def forms : List (String × Form) := [
  ("root", .path), ("src_dir", .path), ("build_dir", .path), ("generated_dir", .path),
  ("tsconfig", .path), ("reserved_prefixes", .texts), ("exclude", .texts)]

/-- Read the value of a setting. -/
def readValue (form : Form) : Reader Value := fun s =>
  match form with
  | .path => do
    let (text, s) ← readText "path string" s
    return (.path ⟨text⟩, s)
  | .texts =>
    match Json.skipBlank s with
    | [] => malformed .endInValue []
    | b :: behind =>
      if b = 0x5B then do
        let (texts, s) ← readTexts true (behind.length + 1) behind
        let ((), s) ← endArray s
        return (.texts texts, s)
      else wrongType "a sequence" b behind

/-- The settings that are known by their names, put together. -/
def assemble (values : List (String × Value)) : Except Json.Mismatch Config := do
  let path (name : String) : Except Json.Mismatch Path :=
    match values.lookup name with
    | some (.path p) => .ok p
    | _ => .error (.missingField name)
  let texts (name : String) : Except Json.Mismatch (List String) :=
    match values.lookup name with
    | some (.texts texts) => .ok texts
    | _ => .error (.missingField name)
  return {
    root := ← path "root"
    sourceDir := ← path "src_dir"
    buildDir := ← path "build_dir"
    generatedDir := ← path "generated_dir"
    compilerSettings := ← path "tsconfig"
    reserved := ← texts "reserved_prefixes"
    exclude := ← texts "exclude" }

/-- Step over a colon. -/
def readColon : Reader Unit := fun s =>
  match Json.skipBlank s with
  | [] => malformed .endInObject []
  | b :: behind => if b = 0x3A then .ok ((), behind) else malformed .expectedColon behind

/-- Step to the quote of the next key of an object and over it, or find its end. -/
def nextKey (first : Bool) : Reader Bool := fun s =>
  match Json.skipBlank s with
  | [] => malformed .endInObject []
  | b :: behind =>
    if b = 0x7D then .ok (false, b :: behind)
    else if first then
      if b = 0x22 then .ok (true, behind) else malformed .keyNotString behind
    else if b = 0x2C then
      match Json.skipBlank behind with
      | [] => malformed .endInValue []
      | c :: after =>
        if c = 0x22 then .ok (true, after)
        else if c = 0x7D then malformed .trailingComma after
        else malformed .keyNotString after
    else malformed .expectedCommaOrBrace behind

/-- Where the reading of an object stands that is given up: behind its brace if that comes next. -/
def behindBrace (s : List UInt8) : List UInt8 :=
  match Json.skipBlank s with
  | b :: behind => if b = 0x7D then behind else b :: behind
  | [] => []

/-- Read the members of an object that is already open. There are no more of them than bytes,
which `bound` counts. -/
def readMembers (first : Bool) (values : List (String × Value)) :
    Nat → Reader (List (String × Value))
  | 0, s => malformed .endInObject s
  | bound + 1, s => do
    match ← nextKey first s with
    | (false, s) => return (values, s)
    | (true, s) =>
      let (key, s) ← lift Json.quoted s
      match forms.lookup key with
      | some form =>
        if (values.lookup key).isSome then
          mismatched (.duplicateField key) (behindBrace s)
        else
          let ((), s) ← readColon s
          let (value, s) ← readValue form s
          readMembers false (values ++ [(key, value)]) bound s
      | none =>
        let ((), s) ← readColon s
        let (_, s) ← lift (Json.value .skim) s
        readMembers false values bound s

/-- Where the reading of an array stands that is given up: behind its bracket. -/
def behindBracket (s : List UInt8) : List UInt8 :=
  match Json.skipBlank s with
  | b :: behind => if b = 0x5D then behind else b :: behind
  | [] => []

/-- Read the settings from an array that is already open. -/
def readItems (first : Bool) (values : List (String × Value)) :
    List (String × Form) → Reader (List (String × Value))
  | [], s => .ok (values, s)
  | (name, form) :: more, s => do
    match ← nextItem first s with
    | (false, s) =>
      mismatched (.wrongLength values.length "struct BuildConfig with 7 elements")
        (behindBracket s)
    | (true, s) =>
      let (value, s) ← readValue form s
      readItems false (values ++ [(name, value)]) more s

/-- Read settings from an object or an array. -/
def readConfig : Reader Config := fun s =>
  match Json.skipBlank s with
  | [] => malformed .endInValue []
  | b :: behind =>
    if b = 0x7B then do
      let (values, s) ← readMembers true [] (behind.length + 1) behind
      let rest := behindBrace s
      match assemble values with
      | .ok config => return (config, rest)
      | .error mismatch => mismatched mismatch rest
    else if b = 0x5B then do
      let (values, s) ← readItems true [] forms behind
      let ((), s) ← endArray s
      match assemble values with
      | .ok config => return (config, s)
      | .error mismatch => mismatched mismatch s
    else wrongType "struct BuildConfig" b behind

/-- The settings of a text, or the message that says why there are none. -/
def parse (input : List UInt8) : Except String Config :=
  let outcome : Except Halt Config := do
    let (config, rest) ← readConfig input
    match Json.skipBlank rest with
    | [] => return config
    | _ :: behind => malformed .trailingCharacters behind
  outcome.mapError fun halt =>
    s!"{halt.trouble.message} at {(Json.Position.of input halt.rest).text}"

end Config

end AddonBuild
