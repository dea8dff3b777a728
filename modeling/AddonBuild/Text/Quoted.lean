import AddonBuild.Text.Invisible

/-!
# Quoted text in messages

A text is quoted so that it can be told apart from the message around it: quotes, backslashes and
the common control characters are written with a backslash, and a character that does not show is
written by its number.
-/

namespace AddonBuild

namespace Text

/-- A character by its number. -/
def numbered (c : Char) : List Char :=
  ['\\', 'u', '\x7b'] ++ Nat.toDigits 16 c.toNat ++ ['\x7d']

/-- A character between the given quotes. -/
def escapeBetween (mark c : Char) : List Char :=
  if c = mark ∨ c = '\\' then ['\\', c]
  else if c = '\n' then ['\\', 'n']
  else if c = '\r' then ['\\', 'r']
  else if c = '\t' then ['\\', 't']
  else if c.toNat = 0 then ['\\', '0']
  else if isInvisible c then numbered c
  else [c]

/-- A text in double quotes. -/
def quoted (text : String) : String :=
  String.ofList (['"'] ++ text.toList.flatMap (escapeBetween '"') ++ ['"'])

/-- A character in single quotes. -/
def quotedChar (c : Char) : String :=
  String.ofList (['\''] ++ escapeBetween '\'' c ++ ['\''])

end Text

end AddonBuild
