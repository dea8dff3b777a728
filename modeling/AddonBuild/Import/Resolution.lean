import AddonBuild.Path.Relative

/-!
# From a place to a specifier

An import names a module without saying which file it will be. A file of that very name comes
first; if there are only declarations, the import concerns no file at run time and stays as it is;
and a source file will have been compiled by the time the script runs.
-/

namespace AddonBuild

namespace Import

/-- What the name of a file with declarations only ends in. -/
def declarationSuffix : String := ".d.ts"

/-- What the name of a source file ends in. -/
def sourceSuffix : String := ".ts"

/-- What the name of a compiled file ends in. -/
def compiledSuffix : String := ".js"

/-- The specifier for the module at `place`, as written in the file `anchor`, when `present` tells
which files there are. -/
def resolve? (present : Path → Bool) (specifier : String) (anchor place : Path) : Option String :=
  let compiled := place.withSuffix compiledSuffix
  if present place then some (anchor.directory.moduleSpecifier place)
  else if present (place.withSuffix declarationSuffix) then some specifier
  else if present (place.withSuffix sourceSuffix) || present compiled then
    some (anchor.directory.moduleSpecifier compiled)
  else none

end Import

end AddonBuild
