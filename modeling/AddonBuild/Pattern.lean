/-!
# Patterns with one wildcard

A pattern is a text with at most one `*`, which stands for any text at all. Alias keys, the places
they point to, and the export maps of packages are patterns.
-/

namespace AddonBuild

/-- A text, or the two sides of a wildcard. -/
inductive Pattern where
  | exact (text : String)
  | wildcard (left right : String)
deriving DecidableEq, Repr

namespace Pattern

/-- How a text matches a pattern. -/
inductive Match where
  | exact
  | captured (text : String)
deriving DecidableEq, Repr

/-- The mark that stands for any text. -/
def mark : Char := '*'

/-- The pattern that a text denotes, unless it has two wildcards. -/
def parse? (source : String) : Option Pattern :=
  let s := source.toList
  match s.dropWhile (· ≠ mark) with
  | [] => some (.exact source)
  | _ :: right =>
    if mark ∈ right then none
    else some (.wildcard (String.ofList (s.takeWhile (· ≠ mark))) (String.ofList right))

/-- Whether a pattern has a wildcard. -/
def hasWildcard : Pattern → Bool
  | .exact _ => false
  | .wildcard _ _ => true

/-- The text of a pattern. -/
def render : Pattern → String
  | .exact text => text
  | .wildcard left right => left ++ String.singleton mark ++ right

/-- The text of a pattern with a value in place of the wildcard. -/
def substitute (value : String) : Pattern → String
  | .exact text => text
  | .wildcard left right => left ++ value ++ right

/-- The text between a beginning and an end that do not overlap. -/
def between? (left right text : List Char) : Option (List Char) :=
  if left.isPrefixOf text then
    let rest := text.drop left.length
    if right.isSuffixOf rest then some (rest.take (rest.length - right.length)) else none
  else none

/-- Match a text against a pattern. -/
def match? (p : Pattern) (text : String) : Option Match :=
  match p with
  | .exact expected => if text = expected then some .exact else none
  | .wildcard left right =>
    (between? left.toList right.toList text.toList).map fun middle =>
      .captured (String.ofList middle)

end Pattern

end AddonBuild
