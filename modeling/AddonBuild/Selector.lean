import AddonBuild.Disk.Listing
import AddonBuild.Fault

/-!
# Selecting files

A selector is a list of globs; it selects the files whose relative path at least one of them
matches.
-/

namespace AddonBuild

/-- A list of globs, of which one has to match. -/
structure Selector where
  globs : List Glob
deriving DecidableEq, Repr

namespace Selector

/-- The glob that matches every path, whatever its form. -/
def everything : String := "**"

/-- Read one glob. -/
def parseGlob (source : String) : Except Fault Glob :=
  (Glob.parse source).mapError fun fault => .setting (.badGlob source fault)

/-- The selector of the given globs. -/
def parse (sources : List String) : Except Fault Selector :=
  (sources.mapM parseGlob).map Selector.mk

/-- Whether a relative path is selected. -/
def selects (s : Selector) (relative : Path) : Bool :=
  let text := relative.slashed
  s.globs.any fun g => g.source = everything || g.isMatch text

/-- The selected files under a root, in the order of their paths. -/
def select (s : Selector) (d : Disk) (root : Path) : Except Fault (List Path) := do
  let files ← (d.listFiles root).mapError .disk
  return files.filter s.selects

end Selector

end AddonBuild
