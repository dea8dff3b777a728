import AddonBuild.Disk.Output
import AddonBuild.Import.Relocator
import AddonBuild.Selector
import AddonBuild.Vendor.Closure

/-!
# Staging packages

Staging copies the modules of the needed packages next to the scripts that import them, one
directory for each package. The packages import each other by name, so their scripts are relocated
by aliases of their own, under which every file that will be staged counts as present.
-/

namespace AddonBuild

namespace Vendor

/-! ### Aliases -/

/-- The alias of one export of a package that is staged under `root`. -/
def exportAlias (root : Path) (p : Package) (item : String × String) :
    Except Fault (String × List Candidate) := do
  let target := (root.child p.name).absolutize ⟨item.2⟩
  let pattern ← (Pattern.parse target.slashed).mapError .setting
  return (Package.specifier p.name item.1, [⟨pattern, .destination⟩])

/-- The aliases of all exports, when the packages are staged under `root`. -/
def aliases (v : Vendor) (root : Path) : Except Fault Aliases :=
  (v.packages.flatMap fun p => p.exports.map (p, ·)).mapM fun (p, item) => exportAlias root p item

end Vendor

/-! ### Plans -/

/-- One package to stage. -/
structure StagingTask where
  package : String
  source : Path
  destination : Path
  files : List String
deriving DecidableEq, Repr

namespace StagingTask

/-- The staging of a package under `root`. -/
def ofPackage (root : Path) (p : Package) : StagingTask where
  package := p.name
  source := p.directory
  destination := root.child p.name
  files := p.files

/-- Whether a file of a package is a module of its own. What is installed inside of it belongs to
other packages. -/
def isModule (relative : Path) : Bool :=
  relative.hasExtension "js" && .name "node_modules" ∉ relative.components

/-- The modules of a package, relative to its directory. -/
def modules (t : StagingTask) (d : Disk) : Except Fault (List Path) := do
  let selector ← Selector.parse t.files
  return (← selector.select d t.source).filter isModule

/-- Stage the given modules of a package. -/
def stage (t : StagingTask) (relocator : Relocator) (modules : List Path) :
    SessionM Fault (List Output) :=
  modules.mapM fun relative => do
    let script ← SessionM.consult fun d => relocator.relocateFile d t.source relative t.destination
    Output.emit script.destination script.contents.toUTF8

end StagingTask

/-- What staging did. -/
structure StagingReport extends Tally where
  packages : Nat
deriving DecidableEq, Repr

namespace StagingReport

/-- What staging one package did. -/
def ofTask (outputs : List Output) : StagingReport where
  toTally := .ofOutputs outputs
  packages := 1

/-- Add up two reports. -/
def merge (a b : StagingReport) : StagingReport where
  toTally := a.toTally.merge b.toTally
  packages := a.packages + b.packages

/-- What staging several packages did. -/
def ofTasks (outputs : List (List Output)) : StagingReport :=
  (outputs.map ofTask).foldl merge ⟨.zero, 0⟩

end StagingReport

/-- The packages to stage, and the relocator that they share. -/
structure StagingPlan where
  tasks : List StagingTask
  relocator : Relocator

namespace StagingPlan

/-- The staging of all needed packages under `root`. -/
def ofVendor (v : Vendor) (root : Path) : Except Fault StagingPlan := do
  let table ← (default : AliasTable).addAll (← v.aliases root)
  return ⟨v.packages.map (StagingTask.ofPackage root), .ofAliases table⟩

/-- The plan with other reserved prefixes. -/
def withReserved (plan : StagingPlan) (reserved : List String) : StagingPlan :=
  { plan with relocator := { plan.relocator with reserved } }

/-- The directory in which a package is staged. -/
def destination? (plan : StagingPlan) (package : String) : Option Path :=
  (plan.tasks.find? (·.package = package)).map (·.destination)

/-- Where the modules of a plan will be. -/
def planned (work : List (StagingTask × List Path)) : List Path :=
  work.flatMap fun (task, modules) => modules.map task.destination.absolutize

/-- Put out the modules of every package, after those of all packages have been listed. The
packages are staged one after another, which is one of the orders that they can take. -/
def stage (plan : StagingPlan) : SessionM Fault (List (List Output)) := do
  let work ← SessionM.consult fun d => plan.tasks.mapM fun task => do
    return (task, ← task.modules d)
  let relocator := { plan.relocator with planned := planned work }
  work.mapM fun (task, modules) => task.stage relocator modules

/-- Stage every package. -/
def execute (plan : StagingPlan) : SessionM Fault StagingReport := do
  return .ofTasks (← plan.stage)

end StagingPlan

end AddonBuild
