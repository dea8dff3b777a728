import AddonBuild.Import.Relocator
import AddonBuild.Vendor.Closure

/-!
# Settings of a build

Where a build reads from and writes to, which imports belong to the host, and which packages are
never vendored. Every directory is read from the root of the project.
-/

namespace AddonBuild

/-- The settings of a build. -/
structure Config where
  root : Path
  sourceDir : Path
  buildDir : Path
  generatedDir : Path
  compilerSettings : Path
  reserved : List String
  exclude : List String
deriving DecidableEq, Repr

namespace Config

/-- The usual layout under a root. -/
def ofRoot (root : Path) : Config where
  root
  sourceDir := ⟨"src"⟩
  buildDir := ⟨"dist/build"⟩
  generatedDir := ⟨"dist/generated"⟩
  compilerSettings := ⟨"src/tsconfig.json"⟩
  reserved := Relocator.defaultReserved
  exclude := Vendor.defaultExclude

/-- The nearest directory, upwards from a given one, that describes a package. -/
def findRoot? (d : Disk) (directory : Path) : Option Path :=
  directory.ancestors.find? fun above => d.isFile (above.child "package.json")

/-! ### Changing the defaults -/

/-- Use other reserved prefixes, unless the list is empty. -/
def withReserved (c : Config) (lead : List String) : Config :=
  if lead.isEmpty then c else { c with reserved := lead }

/-- Exclude more packages, each once. -/
def withExcluded (c : Config) (packages : List String) : Config :=
  let add (known : List String) (p : String) : List String :=
    if p ∈ known then known else known ++ [p]
  { c with exclude := packages.foldl add c.exclude }

/-! ### Places -/

/-- The description of the root package. -/
def packageJson (c : Config) : Path :=
  c.root.child "package.json"

/-- The source tree. -/
def sourcePath (c : Config) : Path :=
  c.root.absolutize c.sourceDir

/-- The description of the packs, in the source tree. -/
def manifestSource (c : Config) : Path :=
  c.sourcePath.child "manifest.json"

/-- The tree that a build fills. -/
def buildPath (c : Config) : Path :=
  c.root.absolutize c.buildDir

/-- The tree that other tools fill before a build. -/
def generatedPath (c : Config) : Path :=
  c.root.absolutize c.generatedDir

/-- The settings of the compiler, which hold the path mappings. -/
def compilerSettingsPath (c : Config) : Path :=
  c.root.absolutize c.compilerSettings

/-- The directory of all that builds put out. -/
def distPath (c : Config) : Path :=
  c.root.child "dist"

/-! ### Writing -/

/-- The settings as JSON. -/
def toJson (c : Config) : Json :=
  .object [
    ("root", .string c.root.text),
    ("src_dir", .string c.sourceDir.text),
    ("build_dir", .string c.buildDir.text),
    ("generated_dir", .string c.generatedDir.text),
    ("tsconfig", .string c.compilerSettings.text),
    ("reserved_prefixes", .ofStrings c.reserved),
    ("exclude", .ofStrings c.exclude)]

end Config

end AddonBuild
