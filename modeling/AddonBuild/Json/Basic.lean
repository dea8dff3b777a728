import AddonBuild.Binary64

/-!
# JSON values

Objects keep their members in the order in which the keys first appeared, one member for each key.
Whole numbers that fit a 64-bit word, signed or unsigned, stay whole; every other number is
floating.
-/

namespace AddonBuild

/-- A JSON number. -/
inductive Json.Number where
  | whole (value : Int)
  | floating (value : Binary64)
deriving DecidableEq, Repr

/-- A JSON value. -/
inductive Json where
  | null
  | bool (value : Bool)
  | number (value : Json.Number)
  | string (value : String)
  | array (items : List Json)
  | object (members : List (String × Json))
deriving Repr, Inhabited

namespace Json

/-- The members of an object, in order. -/
abbrev Members := List (String × Json)

/-- Give a key a value: in place if the key is there, at the end if it is new. -/
def Members.insert (key : String) (value : Json) : Members → Members
  | [] => [(key, value)]
  | (k, v) :: rest =>
    if k = key then (k, value) :: rest else (k, v) :: Members.insert key value rest

/-- A whole number. -/
def ofNat (n : Nat) : Json :=
  .number (.whole n)

/-- An array of strings. -/
def ofStrings (texts : List String) : Json :=
  .array (texts.map .string)

/-- The member of an object with the given key. -/
def get? (key : String) : Json → Option Json
  | .object members => members.lookup key
  | _ => none

/-- The text of a string. -/
def string? : Json → Option String
  | .string text => some text
  | _ => none

/-- The items of an array. -/
def array? : Json → Option (List Json)
  | .array items => some items
  | _ => none

/-- The members of an object. -/
def object? : Json → Option Members
  | .object members => some members
  | _ => none

/-- The text of a string member of an object. -/
def getString? (key : String) (value : Json) : Option String :=
  (value.get? key).bind string?

/-! ### Merging -/

mutual

/-- Lay one value over another. Objects merge key by key, the keys of the lower one first; any
other value replaces the one it is laid over. -/
def merge : Json → Json → Json
  | .object lower, .object upper => .object (mergeMembers lower upper)
  | _, upper => upper

/-- Lay the members of an object over those of another, one after the other. -/
def mergeMembers (lower : Members) : Members → Members
  | [] => lower
  | (key, value) :: rest =>
    let next := match lower.lookup key with
      | some below => merge below value
      | none => value
    mergeMembers (lower.insert key next) rest

end

end Json

end AddonBuild
