import AddonBuild.Json.Basic
import AddonBuild.Text.Quoted

/-!
# Values of expected types

Taking strings, flags, lists and records out of JSON. The first member that does not fit is
reported, in the order of the members; members that are missing are reported after that, in the
order in which the record declares them.
-/

namespace AddonBuild

namespace Json

/-- Why a value is not of the expected type. -/
inductive Mismatch where
  | wrongType (found : Json) (expected : String)
  | missingField (name : String)
  | duplicateField (name : String)
  | wrongLength (length : Nat) (expected : String)
  | unknownVariant (name : String) (expected : List String)
  | noVariant (type : String)

/-- How a value is called when it is not what was expected. -/
def description : Json → String
  | .null => "null"
  | .bool value => s!"boolean `{value}`"
  | .number (.whole value) => s!"integer `{value}`"
  | .number (.floating value) => s!"floating point `{value.text}`"
  | .string text => s!"string {Text.quoted text}"
  | .array _ => "sequence"
  | .object _ => "map"

/-- The wording of a mismatch. -/
def Mismatch.message : Mismatch → String
  | .wrongType found expected => s!"invalid type: {found.description}, expected {expected}"
  | .missingField name => s!"missing field `{name}`"
  | .duplicateField name => s!"duplicate field `{name}`"
  | .wrongLength length expected => s!"invalid length {length}, expected {expected}"
  | .unknownVariant name expected =>
    let choices := ", ".intercalate (expected.map fun choice => s!"`{choice}`")
    s!"unknown variant `{name}`, expected one of {choices}"
  | .noVariant type => s!"data did not match any variant of untagged enum {type}"

/-- A reading of a value as one of type `α`. -/
abbrev Decoder (α : Type) := Json → Except Mismatch α

namespace Decoder

/-- A string. -/
def string : Decoder String
  | .string text => .ok text
  | found => .error (.wrongType found "a string")

/-- A flag. -/
def bool : Decoder Bool
  | .bool value => .ok value
  | found => .error (.wrongType found "a boolean")

/-- A value as it is. -/
def any : Decoder Json := .ok

/-- An array whose items are read alike. -/
def list {α : Type} (item : Decoder α) : Decoder (List α)
  | .array items => items.mapM item
  | found => .error (.wrongType found "a sequence")

/-- An object whose members are read alike, in order. -/
def map {α : Type} (item : Decoder α) : Decoder (List (String × α))
  | .object members => members.mapM fun (key, value) => do return (key, ← item value)
  | found => .error (.wrongType found "a map")

/-- A value that may be absent, which `null` says as well. -/
def option {α : Type} (item : Decoder α) : Decoder (Option α)
  | .null => .ok none
  | value => (item value).map some

/-- Check every member that a record knows by name. -/
def checkMembers (known : List (String × (Json → Except Mismatch Unit))) (members : Members) :
    Except Mismatch Unit :=
  members.forM fun (key, value) =>
    match known.lookup key with
    | some check => check value
    | none => .ok ()

/-- A decoder that forgets what it has read. -/
def check {α : Type} (decoder : Decoder α) (value : Json) : Except Mismatch Unit :=
  (decoder value).map fun _ => ()

/-- A record, as the names of its members and the checks of their values. Where the members are
given by their order, one that has a default may be absent. -/
structure Form where
  type : String
  fields : List (String × (Json → Except Mismatch Unit))
  defaulted : List String

/-- The index of the first member from `index` on that has no default. -/
def Form.firstNeeded (form : Form) (index : Nat) : Nat :=
  index + ((form.fields.drop index).takeWhile fun field => field.1 ∈ form.defaulted).length

/-- The checked members of a record, which is given as an object or as an array of the members in
their order. -/
def Form.members (form : Form) : Decoder Members
  | .object members => do
    checkMembers form.fields members
    return members
  | .array items => do
    let members := (form.fields.map (·.1)).zip items
    checkMembers form.fields members
    let needed := form.firstNeeded items.length
    if needed < form.fields.length then
      throw (.wrongLength needed s!"{form.type} with {form.fields.length} elements")
    if form.fields.length < items.length then
      throw (.wrongLength items.length "fewer elements in array")
    return members
  | found => .error (.wrongType found form.type)

/-- A member that has to be there. -/
def required {α : Type} (members : Members) (name : String) (decoder : Decoder α) :
    Except Mismatch α :=
  match members.lookup name with
  | some value => decoder value
  | none => .error (.missingField name)

/-- A member that may be absent or `null`. -/
def optional {α : Type} (members : Members) (name : String) (decoder : Decoder α) :
    Except Mismatch (Option α) :=
  match members.lookup name with
  | some value => option decoder value
  | none => .ok none

/-- A member that has a default. -/
def defaulted {α : Type} (members : Members) (name : String) (decoder : Decoder α) (value : α) :
    Except Mismatch α :=
  match members.lookup name with
  | some found => decoder found
  | none => .ok value

end Decoder

end Json

end AddonBuild
