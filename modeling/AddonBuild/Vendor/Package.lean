import AddonBuild.Document
import AddonBuild.Text.Prefix

/-!
# Packages with modules

What a package offers to scripts: for each subpath that it exports, the file behind it. A package
has to ship modules in the format that scripts import; one that offers nothing at run time is of
no concern, and one that offers something else is refused.
-/

namespace AddonBuild

/-- A package that scripts can import: where it lies, the globs of the files that it is staged with,
and its exports. These map subpaths to files, both as the package writes them. -/
structure Package where
  name : String
  directory : Path
  files : List String
  exports : List (String × String)
deriving DecidableEq, Repr

namespace Package

/-! ### Exports -/

/-- The subpath of the package itself. -/
def whole : String := "."

/-- The file behind a subpath, which has to be given by its name. -/
def exportTarget (package : String) (item : String × Json) : Except Fault (String × String) :=
  match item.2 with
  | .string file => .ok (item.1, file)
  | _ => .error (.unsupportedFormat package (.targetNotString item.1))

/-- The exports that a description lists. -/
def listedExports (package : String) : Json → Except Fault (List (String × String))
  | .string file => .ok [(whole, file)]
  | .object targets => targets.mapM (exportTarget package)
  | _ => .error (.unsupportedFormat package .exportsShape)

/-- The member `exports` of a description, unless it is `null`. -/
def exportsMember? (description : Json) : Option Json :=
  match description.get? "exports" with
  | some .null => none
  | found => found

/-- The exports of the package with the given description, or nothing if it has no entry at run
time. -/
def exports? (package : String) (description : Json) :
    Except Fault (Option (List (String × String))) :=
  let module := description.getString? "module"
  let isModule := description.getString? "type" == some "module"
  match module, exportsMember? description with
  | some _, some listed => (listedExports package listed).map some
  | some file, none => .ok (some [(whole, file)])
  | none, some listed =>
    if isModule then (listedExports package listed).map some
    else .error (.unsupportedFormat package .noModuleEntry)
  | none, none =>
    if (description.get? "main").isSome then .error (.unsupportedFormat package .noModuleEntry)
    else .ok none

/-! ### What an export stands for -/

/-- The glob of the tree around a file of the package. Whatever an exported module imports is
taken to lie in such a tree. -/
def treeGlob (file : String) : String :=
  let around := ((⟨file⟩ : Path).parent?.getD ⟨""⟩).components.filter (· ≠ .here)
  match (Path.ofComponents around).slashed with
  | "" => "**"
  | directory => directory ++ "/**"

/-- The globs of the trees around all exports, each once. -/
def treeGlobs (exports : List (String × String)) : List String :=
  (exports.map fun item => treeGlob item.2).eraseDups

/-- The specifier by which a subpath of a package is imported. -/
def specifier (package subpath : String) : String :=
  let inside := if subpath = whole then "" else (Text.dropLead? "./" subpath).getD subpath
  if inside.isEmpty then package else package ++ "/" ++ inside

/-- A package as JSON. -/
def toJson (p : Package) : Json :=
  .object [
    ("files", .ofStrings p.files),
    ("exports", .object (p.exports.map fun item => (item.1, .string item.2))),
    ("abs_dir", .string p.directory.text)]

end Package

end AddonBuild
