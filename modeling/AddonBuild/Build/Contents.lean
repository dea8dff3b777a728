import AddonBuild.Config
import AddonBuild.Project.Pack
import AddonBuild.Vendor.Staging

/-!
# Filling the packs

Each module of a pack is filled from the source tree. A module of scripts gets its imports
relocated, its JSON files turned into modules, and the packages that it needs staged beside it;
any other module is copied, after its JSON files have been checked. License files go into every
pack.
-/

namespace AddonBuild

namespace Build

/-- What filling the packs did, and how many packages were staged for it. -/
structure Contents extends Tally where
  vendored : Nat
deriving DecidableEq, Repr

namespace Contents

/-- The report of a job that has done nothing. -/
def zero : Contents :=
  ⟨.zero, 0⟩

/-- Count a file. -/
def record (c : Contents) (o : Output) : Contents :=
  { c with toTally := c.toTally.record o }

/-- Add up two reports. -/
def merge (a b : Contents) : Contents where
  toTally := a.toTally.merge b.toTally
  vendored := a.vendored + b.vendored

/-- The report of what was staged. -/
def ofStaging (r : StagingReport) : Contents :=
  ⟨r.toTally, r.packages⟩

end Contents

/-! ### Inputs -/

/-- A file to fill a module with: its tree, and its place in it. -/
structure Input where
  root : Path
  relative : Path
deriving DecidableEq, Repr

/-- Where an input is read from. -/
def Input.source (i : Input) : Path :=
  i.root.join i.relative

/-- A file to write and what it will hold. -/
structure Product where
  path : Path
  content : ByteArray

/-- The selected files of the source tree, other than the source of the manifests. -/
def sourceFiles (c : Config) (s : Selector) (d : Disk) : Except Fault (List Path) := do
  let selected ← s.select d c.sourcePath
  return selected.filter fun r => !(c.sourcePath.join r).same c.manifestSource

/-- The selected scripts of a tree of generated files. -/
def generatedFiles (s : Selector) (d : Disk) (root : Path) : Except Fault (List Path) := do
  let selected ← s.select d root
  return selected.filter (·.hasExtension "js")

/-- The inputs of a module of scripts. A generated script comes in place of a source file of the
same name, and after all source files if there is none. -/
def scriptInputs (sourceRoot generatedRoot : Path) (sources generated : List Path) : List Input :=
  (sources.map fun r => ⟨if r ∈ generated then generatedRoot else sourceRoot, r⟩)
    ++ (generated.filter (· ∉ sources)).map fun r => ⟨generatedRoot, r⟩

/-- Read the bytes of an input. -/
def Input.read (i : Input) (d : Disk) : Except Fault ByteArray :=
  (d.read i.source).mapError .disk

/-- What an input of a module of scripts becomes. Only scripts and JSON files become anything. -/
def Input.scriptProduct (i : Input) (relocator : Relocator) (buildPath : Path) (d : Disk) :
    Except Fault (Option Product) := do
  if i.relative.hasExtension "js" then
    let script ← relocator.relocateFile d i.root i.relative buildPath
    return some ⟨script.destination, script.contents.toUTF8⟩
  else if i.relative.hasExtension "json" then
    let text ← Document.toModule i.source (← i.read d)
    return some ⟨(buildPath.join i.relative).withExtension "js", text.toUTF8⟩
  else return none

/-- What an input of any other module becomes. -/
def Input.copyProduct (i : Input) (buildPath : Path) (d : Disk) : Except Fault Product := do
  let content ← i.read d
  if i.relative.hasExtension "json" then Document.validate i.source content
  return ⟨buildPath.join i.relative, content⟩

/-- Write a product. -/
def Product.emit (p : Product) : SessionM Fault Output :=
  Output.emit p.path p.content

/-! ### Modules of scripts -/

/-- The specifier by which scripts import the description of the project. -/
def packageAlias : String := "package.json"

/-- Where the description of the project is put for the scripts beside it. -/
def packageScript (vendorRoot : Path) : Path :=
  vendorRoot.child "package.js"

/-- The directory beside the scripts of a pack in which packages are staged: the first directory
on the way to the entry. -/
def vendorRoot (buildPath : Path) (entry : String) : Path :=
  buildPath.child (Text.before '/' entry)

/-- The aliases of a module of scripts: the path mappings, then the packages, then the description
of the project. -/
def scriptAliases (c : Config) (vendor : Vendor) (vendorRoot : Path) (d : Disk) :
    Except Fault AliasTable := do
  let table ← AliasTable.load d c.compilerSettingsPath
  let table ← table.addAll (← vendor.aliases vendorRoot)
  let pattern ← (Pattern.parse (packageScript vendorRoot).slashed).mapError .setting
  (table.add packageAlias [⟨pattern, .destination⟩]).mapError .setting

/-- Write the description of the project as a script. -/
def writePackageScript (c : Config) (vendorRoot : Path) : SessionM Fault Output := do
  let description ← SessionM.consult (Document.read · c.packageJson)
  Output.emit (packageScript vendorRoot) (Document.moduleText description).toUTF8

/-- Stage the packages and the description of the project. The description is written even if the
packages cannot be staged. -/
def stageBeside (c : Config) (plan : StagingPlan) (vendorRoot : Path) :
    SessionM Fault Contents := do
  let staged ← WorkM.attempt plan.execute
  let description ← WorkM.attempt (writePackageScript c vendorRoot)
  let staged ← MonadExcept.ofExcept staged
  let description ← MonadExcept.ofExcept description
  return (Contents.ofStaging staged).record description

/-- Fill a module of scripts. -/
def fillScripts (c : Config) (vendor : Vendor) (pack : PlacedPack) (m : Module) (entry : String) :
    SessionM Fault Contents := do
  let buildPath := pack.stagePath c.buildPath
  let generatedPath := pack.stagePath c.generatedPath
  let root := vendorRoot buildPath entry
  let aliases ← SessionM.consult (scriptAliases c vendor root)
  let relocator := { Relocator.ofAliases aliases with reserved := c.reserved }
  let plan ← MonadExcept.ofExcept (StagingPlan.ofVendor vendor root)
  let staged ← stageBeside c (plan.withReserved c.reserved) root
  let selector ← MonadExcept.ofExcept (Selector.parse m.globs)
  let sources ← SessionM.consult (sourceFiles c selector)
  let generated ← SessionM.consult (generatedFiles selector · generatedPath)
  let filled ← (scriptInputs c.sourcePath generatedPath sources generated).mapM fun input => do
    let product ← SessionM.consult (input.scriptProduct relocator buildPath)
    product.mapM Product.emit
  return (filled.filterMap id).foldl Contents.record staged

/-! ### Other modules -/

/-- Fill a module with copies. -/
def fillCopies (c : Config) (pack : PlacedPack) (m : Module) : SessionM Fault Contents := do
  let buildPath := pack.stagePath c.buildPath
  let selector ← MonadExcept.ofExcept (Selector.parse m.globs)
  let sources ← SessionM.consult (sourceFiles c selector)
  let filled ← sources.mapM fun r => do
    let product ← SessionM.consult ((⟨c.sourcePath, r⟩ : Input).copyProduct buildPath)
    product.emit
  return filled.foldl Contents.record .zero

/-- The files with the terms under which a project is shared. -/
def licenseFiles : List String := ["LICENSE", "COPYING"]

/-- Copy the license files at the root of the project into a pack. -/
def fillLicenses (c : Config) (pack : PlacedPack) : SessionM Fault Contents := do
  let filled ← licenseFiles.mapM fun name => do
    if ← SessionM.ask (·.isFile (c.root.child name)) then
      let content ← SessionM.consult (Input.read ⟨c.root, ⟨name⟩⟩)
      return some (← Output.emit ((pack.stagePath c.buildPath).child name) content)
    else return none
  return (filled.filterMap id).foldl Contents.record .zero

/-! ### All packs -/

/-- One part of the filling of a pack. -/
inductive Job where
  | scripts (pack : PlacedPack) (m : Module) (entry : String)
  | copies (pack : PlacedPack) (m : Module)
  | licenses (pack : PlacedPack)

namespace Job

/-- The job that fills a module. -/
def ofModule (pack : PlacedPack) (m : Module) : Job :=
  match m.entry? with
  | some entry => scripts pack m entry
  | none => copies pack m

/-- The jobs that fill a pack. -/
def ofPack (pack : PlacedPack) : List Job :=
  pack.modules.map (ofModule pack) ++ [licenses pack]

/-- Whether a job needs packages. -/
def needsVendor : Job → Bool
  | scripts .. => true
  | copies .. | licenses .. => false

/-- Do a job. -/
def run (c : Config) (vendor : Vendor) : Job → SessionM Fault Contents
  | scripts pack m entry => fillScripts c vendor pack m entry
  | copies pack m => fillCopies c pack m
  | licenses pack => fillLicenses c pack

end Job

/-- The packages that jobs need. -/
def vendorFor (c : Config) (jobs : List Job) (d : Disk) : Except Fault Vendor :=
  if jobs.any Job.needsVendor then Vendor.load d c.packageJson c.exclude else .ok ⟨[]⟩

/-- Fill every pack. No job waits for another; here each is done before the next one starts, which
is one of the orders that they can take. -/
def fillPacks (c : Config) (p : Project) : SessionM Fault Contents := do
  let jobs := p.packs.flatMap Job.ofPack
  let vendor ← SessionM.consult (vendorFor c jobs)
  return (← jobs.mapM (Job.run c vendor)).foldl .merge .zero

end Build

end AddonBuild
