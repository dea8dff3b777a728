/-!
# Beginnings of texts

Whether a text starts with another, and what then follows, character by character.
-/

namespace AddonBuild

namespace Text

/-- Whether a text starts with `lead`. -/
def startsWith (lead text : String) : Bool :=
  lead.toList.isPrefixOf text.toList

/-- What follows `lead` in a text that starts with it. -/
def dropLead? (lead text : String) : Option String :=
  if startsWith lead text then some (String.ofList (text.toList.drop lead.toList.length))
  else none

/-- The part of a text before the first occurrence of a character, or all of it. -/
def before (c : Char) (text : String) : String :=
  String.ofList (text.toList.takeWhile (· ≠ c))

end Text

end AddonBuild
