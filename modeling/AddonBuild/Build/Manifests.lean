import AddonBuild.Config
import AddonBuild.Disk.Output
import AddonBuild.Json.Printer
import AddonBuild.Project.Manifest

/-!
# Writing the manifests

Every pack has its manifest at the top of its directory in the build tree.
-/

namespace AddonBuild

namespace Build

/-- Where the manifest of a pack lies in a build tree. -/
def manifestPath (buildPath : Path) (p : PlacedPack) : Path :=
  (p.stagePath buildPath).child "manifest.json"

/-- The manifest of a pack as it is written. -/
def manifestText (p : Pack) : String :=
  p.manifest.pretty "    " ++ "\n"

/-- Put out the manifest of every pack. -/
def emitManifests (c : Config) (p : Project) : SessionM Fault (List Output) :=
  p.packs.mapM fun pack =>
    Output.emit (manifestPath c.buildPath pack) (manifestText pack.toPack).toUTF8

/-- Write the manifest of every pack. Returns how many had changed. -/
def writeManifests (c : Config) (p : Project) : SessionM Fault Nat := do
  return (← emitManifests c p).countP (·.fresh)

end Build

end AddonBuild
