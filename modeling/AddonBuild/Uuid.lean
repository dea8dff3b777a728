/-!
# Universally unique identifiers

An identifier is 32 hexadecimal digits. It is read with or without hyphens, in either case of the
letters, and with hyphens also in braces or behind `urn:uuid:`; it is written in lower case with
hyphens.
-/

namespace AddonBuild

/-- Thirty-two hexadecimal digits. -/
structure Uuid where
  digits : List (Fin 16)
  length_digits : digits.length = 32
deriving DecidableEq, Repr

namespace Uuid

/-- The value of a hexadecimal digit. -/
def digit? (c : Char) : Option (Fin 16) :=
  let n := c.toNat
  if h : 0x30 ≤ n ∧ n ≤ 0x39 then some ⟨n - 0x30, by omega⟩
  else if h : 0x61 ≤ n ∧ n ≤ 0x66 then some ⟨n - 0x57, by omega⟩
  else if h : 0x41 ≤ n ∧ n ≤ 0x46 then some ⟨n - 0x37, by omega⟩
  else none

/-- Read digits that follow each other. -/
def ofDigits? (s : List Char) : Option Uuid :=
  match s.mapM digit? with
  | some digits => if h : digits.length = 32 then some ⟨digits, h⟩ else none
  | none => none

/-- Read five groups of digits with hyphens between them. -/
def ofGroups? (s : List Char) : Option Uuid :=
  let hyphens := [8, 13, 18, 23]
  if s.length = 36 ∧ hyphens.all (fun i => s[i]? == some '-') then
    ofDigits? (s.take 8 ++ (s.drop 9).take 4 ++ (s.drop 14).take 4 ++ (s.drop 19).take 4
      ++ s.drop 24)
  else none

/-- The inside of a text in braces. -/
def unbraced? (s : List Char) : Option (List Char) :=
  if s.head? = some '\x7b' ∧ s.getLast? = some '\x7d' then some (s.drop 1).dropLast else none

/-- What stands in front of an identifier that is written as a name, in either case. -/
def namePrefix : List Char := "urn:uuid:".toList

/-- The identifier that a text denotes. -/
def parse (text : String) : Option Uuid :=
  let s := text.toList
  if s.length = 32 then ofDigits? s
  else if s.length = 36 then ofGroups? s
  else if s.length = 38 then (unbraced? s).bind ofGroups?
  else if (s.take namePrefix.length).map Char.toLower = namePrefix then
    ofGroups? (s.drop namePrefix.length)
  else none

/-- How a digit is written. -/
def digitChar (d : Fin 16) : Char :=
  Nat.digitChar d

/-- The text of an identifier. -/
def text (u : Uuid) : String :=
  let s := u.digits.map digitChar
  String.ofList ("-".toList.intercalate
    [s.take 8, (s.drop 8).take 4, (s.drop 12).take 4, (s.drop 16).take 4, s.drop 20])

end Uuid

end AddonBuild
