import AddonBuild.Disk.Change

/-!
# Walking through a tree

A walk goes through all that lies below a directory: it enters each directory, which is opened by
its path, stops at each file, and leaves a directory once it has gone through it. The names in a
directory come in no order that counts, so that files are sorted when they are listed: relative to
the root of the walk, name by name along their paths.
-/

namespace AddonBuild

namespace Location

/-- The relative path along the names of a location. -/
def path (l : Location) : Path :=
  ⟨"/".intercalate l⟩

/-- Put a location in front of the first one that does not come before it. -/
def insert (l : Location) : List Location → List Location
  | [] => [l]
  | k :: rest => if k < l then k :: insert l rest else l :: k :: rest

/-- Locations in their order. -/
def sort (ls : List Location) : List Location :=
  ls.foldr insert []

end Location

/-- Where a walk stops, relative to the directory that it starts from. -/
inductive Stop where
  | enter (directory : Location)
  | file (file : Location)
  | leave (directory : Location)
deriving DecidableEq, Repr

/-- The file that a walk stops at. -/
def Stop.file? : Stop → Option Location
  | .file k => some k
  | .enter _ | .leave _ => none

namespace Disk

/-- The names in the directory at a location. -/
def names (d : Disk) (l : Location) : List String :=
  (d.below l).filterMap fun a =>
    match a.1 with
    | [name] => some name
    | _ => none

/-- The greatest number of names on the way from a location to what lies below it. -/
def height (d : Disk) (l : Location) : Nat :=
  (d.below l).foldr (fun a n => max a.1.length n) 0

/-- The stops at one place of a tree, given those in it if it is a directory. -/
def stopsAt (d : Disk) (l place : Location) (inside : List Stop) : List Stop :=
  match d.get? (l ++ place) with
  | some .directory => .enter place :: inside ++ [.leave place]
  | some (.file _) => [.file place]
  | none => []

/-- The stops of a walk that goes on from a directory below `l` through so many levels, given in
which order the names in a directory come. -/
def stopsFrom (d : Disk) (names : Location → List String) (l : Location) :
    Nat → Location → List Stop
  | 0, _ => []
  | levels + 1, here => (names (l ++ here)).flatMap fun name =>
    d.stopsAt l (here ++ [name]) (d.stopsFrom names l levels (here ++ [name]))

/-- The stops of a walk through all that lies below a location. -/
def stops (d : Disk) (names : Location → List String) (l : Location) : List Stop :=
  d.stopsFrom names l (d.height l) []

/-! ### Listing the files of a tree -/

/-- Enter a directory on a walk from a root. -/
def enter (d : Disk) (root : Path) (directory : Location) : Except DiskError Unit :=
  let p := root.join directory.path
  match d.openDirectory p with
  | .ok _ => .ok ()
  | .error e => .error (.unopened p e)

/-- Pass a stop of a walk that changes nothing. -/
def pass (d : Disk) (root : Path) : Stop → Except DiskError Unit
  | .enter directory => d.enter root directory
  | .file _ | .leave _ => .ok ()

/-- Every regular file under a directory, relative to it. A root that is no directory holds
nothing. -/
def listFiles (d : Disk) (root : Path) : Except DiskError (List Path) :=
  if d.isDirectory root then do
    let stops := d.stops d.names (← d.locate root)
    stops.forM (d.pass root)
    return (Location.sort (stops.filterMap Stop.file?)).map Location.path
  else return []

/-! ### Removing empty directories -/

/-- Pass a stop of a walk that removes a directory on leaving it if nothing is in it any more. Given
and returned is how many were removed. -/
def sweep (root : Path) (removed : Nat) : Stop → DiskM DiskError Nat
  | .enter directory => do
    WorkM.consult (·.enter root directory)
    return removed
  | .file _ => return removed
  | .leave directory => do
    let l ← WorkM.consult (·.openDirectory (root.join directory.path))
    if ((← get).below l).isEmpty then
      modify (·.remove l)
      return removed + 1
    else return removed

/-- Remove the empty directories strictly below a directory, so that one which becomes empty goes as
well. Returns how many were removed. -/
def removeEmptyDirectories (root : Path) : DiskM DiskError Nat := do
  let d ← get
  if d.isDirectory root then
    let l ← WorkM.consult (·.locate root)
    (d.stops d.names l).foldlM (sweep root) 0
  else return 0

end Disk

end AddonBuild
