import AddonBuild.Path.Clean
import AddonBuild.Text.Prefix

/-!
# Relative paths and module specifiers

The way from one directory to a file: up to the last common directory and down again. A module
specifier is that way written so that a script can import it, which means that it starts with a
dot.
-/

namespace AddonBuild

namespace Path

/-- The steps of a cleaned path, where the directory itself is no step at all. -/
def steps (p : Path) : List Component :=
  p.clean.components.filter (· ≠ .here)

/-- What two lists have left after their longest common beginning. -/
def dropCommon : List Component → List Component → List Component × List Component
  | a :: as, b :: bs => if a = b then dropCommon as bs else (a :: as, b :: bs)
  | as, bs => (as, bs)

/-- The path that leads from the directory `start` to `target`. -/
def relative (start target : Path) : Path :=
  let (back, ahead) := dropCommon start.steps target.steps
  ofComponents (back.map (fun _ => .up) ++ ahead)

/-- The specifier by which a script in the directory `start` imports `target`. -/
def moduleSpecifier (start target : Path) : String :=
  let way := (start.relative target).slashed
  if Text.startsWith "../" way || way = ".." then way
  else if way.isEmpty then "."
  else "./" ++ way

end Path

end AddonBuild
