/-!
# Paths

A path keeps the text it was written with. Everything else is a view of that text: the segments
between its slashes, and the components that the segments stand for. Two paths are the same when
their components are, so `a//b` and `a/./b` name one file while each prints as it was given.

The text is Unicode, as are the texts that paths are read from. A name on a disk that is not UTF-8
has no path.
-/

namespace AddonBuild

/-- The text of a path, with `/` between its segments. -/
structure Path where
  text : String
deriving DecidableEq, Repr, Inhabited

namespace Path

/-- One meaningful step of a path. -/
inductive Component where
  | root
  | here
  | up
  | name (text : String)
deriving DecidableEq, Repr

/-- How a component is written. -/
def Component.text : Component → String
  | .root => "/"
  | .here => "."
  | .up => ".."
  | .name text => text

/-! ### Segments -/

/-- The pieces of a text between its slashes. There is always at least one. -/
def splitSlashes : List Char → List (List Char)
  | [] => [[]]
  | c :: rest =>
    match splitSlashes rest with
    | [] => [[c]]
    | piece :: pieces =>
      if c = '/' then [] :: piece :: pieces else (c :: piece) :: pieces

/-- The pieces of a path between its slashes, empty ones included. -/
def segments (p : Path) : List String :=
  (splitSlashes p.text.toList).map String.ofList

/-- A path is absolute when it starts with a slash. -/
def isAbsolute (p : Path) : Bool :=
  p.text.toList.head? == some '/'

/-- What stands in front of the segments of a path and is not dropped as blank: the root slash,
a leading `.`, or nothing. -/
inductive Lead where
  | root
  | here
  | none
deriving DecidableEq, Repr

/-- The lead of a path and the segments behind it. -/
def split (p : Path) : Lead × List String :=
  if p.isAbsolute then (.root, p.segments.tail)
  else if p.segments.head? = some "." then (.here, p.segments.tail)
  else (.none, p.segments)

/-- Write a lead and the segments behind it. -/
def ofSplit (lead : Lead) (body : List String) : Path :=
  let text := "/".intercalate body
  match lead with
  | .root => ⟨"/" ++ text⟩
  | .here => if body.isEmpty then ⟨"."⟩ else ⟨"./" ++ text⟩
  | .none => ⟨text⟩

/-- Segments that stand for no component. -/
def isBlank (segment : String) : Bool :=
  segment = "" || segment = "."

/-- Drop the blank segments at the end. -/
def trimBlank (body : List String) : List String :=
  (body.reverse.dropWhile isBlank).reverse

theorem length_trimBlank_le (body : List String) : (trimBlank body).length ≤ body.length := by
  have h := (List.dropWhile_sublist isBlank (l := body.reverse)).length_le
  simpa [trimBlank] using h

/-! ### Components -/

/-- The component a segment behind the lead stands for. -/
def Component.ofSegment? (segment : String) : Option Component :=
  if isBlank segment then none
  else if segment = ".." then some .up
  else some (.name segment)

/-- The component that a lead stands for. -/
def Lead.components : Lead → List Component
  | .root => [.root]
  | .here => [.here]
  | .none => []

/-- The meaningful steps of a path, in order. -/
def components (p : Path) : List Component :=
  p.split.1.components ++ p.split.2.filterMap Component.ofSegment?

/-- Two paths are the same when they take the same steps. -/
def same (p q : Path) : Bool :=
  p.components = q.components

/-- Whether a list holds a path that is the same as `p`. -/
def isIn (p : Path) (paths : List Path) : Bool :=
  paths.any p.same

/-! ### Joining -/

/-- Append `q` to `p`. An absolute `q` replaces `p`. -/
def join (p q : Path) : Path :=
  if q.isAbsolute then q
  else if p.text.isEmpty || p.text.toList.getLast? = some '/' then ⟨p.text ++ q.text⟩
  else ⟨p.text ++ "/" ++ q.text⟩

/-- Append a name or a relative text to a path. -/
def child (p : Path) (name : String) : Path :=
  p.join ⟨name⟩

/-- The path that takes the given steps. -/
def ofComponents (steps : List Component) : Path :=
  steps.foldl (fun p step => p.child step.text) ⟨""⟩

/-- A path with one slash between its components and no blank segments. -/
def slashed (p : Path) : String :=
  (ofComponents p.components).text

/-- Append a text such as `.d.ts` to a path as it is written. -/
def withSuffix (p : Path) (suffix : String) : Path :=
  ⟨p.text ++ suffix⟩

/-! ### Parents -/

/-- The path without its last component, or nothing for a root and for the empty path. -/
def parent? (p : Path) : Option Path :=
  match p.split with
  | (lead, body) =>
    match trimBlank body with
    | [] => if lead = .here then some ⟨""⟩ else none
    | segment :: rest => some (ofSplit lead (trimBlank (segment :: rest).dropLast))

/-- The parents of the path with this lead and body, nearest first. -/
def parentsOf (lead : Lead) (body : List String) : List Path :=
  match h : trimBlank body with
  | [] => if lead = .here then [⟨""⟩] else []
  | segment :: rest =>
    let above := trimBlank (segment :: rest).dropLast
    have : above.length < body.length := by
      have kept := length_trimBlank_le body
      have dropped := length_trimBlank_le (segment :: rest).dropLast
      rw [h] at kept
      simp only [above, List.length_dropLast, List.length_cons] at kept dropped ⊢
      omega
    ofSplit lead above :: parentsOf lead above
termination_by body.length

/-- A path followed by its parents, up to the root or the empty path. -/
def ancestors (p : Path) : List Path :=
  p :: parentsOf p.split.1 p.split.2

/-- The directory a file lies in. A path without a parent counts as lying in the root. -/
def directory (p : Path) : Path :=
  p.parent?.getD ⟨"/"⟩

/-! ### File names -/

/-- The last component, when it is a name. -/
def fileName? (p : Path) : Option String :=
  match p.components.getLast? with
  | some (.name text) => some text
  | _ => none

/-- A file name without its last dot and what follows it, and what follows it. A dot at the start
of the name does not count. -/
def splitName (name : String) : String × Option String :=
  let after := name.toList.reverse.takeWhile (· ≠ '.')
  let before := (name.toList.reverse.drop (after.length + 1)).reverse
  if before.isEmpty then (name, none)
  else (String.ofList before, some (String.ofList after.reverse))

/-- What follows the last dot of the file name. -/
def extension? (p : Path) : Option String :=
  p.fileName?.bind fun name => (splitName name).2

/-- Whether the file name ends in the given extension. -/
def hasExtension (p : Path) (extension : String) : Bool :=
  p.extension? == some extension

/-- Replace the extension of the file name, or add one. -/
def withExtension (p : Path) (extension : String) : Path :=
  match p.fileName? with
  | none => p
  | some name =>
    let (lead, body) := p.split
    ofSplit lead ((trimBlank body).dropLast ++ [(splitName name).1 ++ "." ++ extension])

end Path

end AddonBuild
