import AddonBuild.Build.Cleanup
import AddonBuild.Build.Contents
import AddonBuild.Build.Manifests
import AddonBuild.Project.Loading

/-!
# A whole build

A build loads the project, writes the manifests, fills the packs, and then removes from the build
tree whatever it did not put out itself.
-/

namespace AddonBuild

namespace Build

/-- What a build did. -/
structure Report where
  project : Project
  manifests : Nat
  contents : Contents
  removed : Nat

/-- Load the project of the settings. -/
def loadProject (c : Config) (d : Disk) : Except Fault Project :=
  Project.load d c.packageJson c.manifestSource

/-- The files that a build keeps. -/
def kept (c : Config) (p : Project) (contents : Contents) : List Path :=
  p.packs.map (manifestPath c.buildPath) ++ contents.outputs

/-- Build the project. Manifests and contents are two tasks, neither of which waits for the other;
here the manifests come first, which is one of the orders that they can take. The packs are filled
even if the manifests cannot be written. -/
def run (c : Config) : SessionM Fault Report := do
  let project ← SessionM.consult (loadProject c)
  let manifests ← WorkM.attempt (writeManifests c project)
  let contents ← WorkM.attempt (fillPacks c project)
  let manifests ← MonadExcept.ofExcept manifests
  let contents ← MonadExcept.ofExcept contents
  let removed ← .ofDisk (prune c.buildPath (kept c project contents))
  return { project, manifests, contents, removed }

end Build

end AddonBuild
