import AddonBuild.Config
import AddonBuild.Disk.Listing
import AddonBuild.Fault

/-!
# Removing what was built

Trees are removed as a whole, or pruned down to the files that are to be kept.
-/

namespace AddonBuild

namespace Build

/-- Remove the files of a tree that are not kept, and the directories that are then empty. Returns
how many files were removed. -/
def prune (root : Path) (keep : List Path) : DiskM Fault Nat := do
  let kept := keep.map Path.clean
  let files ← WorkM.consult fun d => (d.listFiles root).mapError .disk
  let stale := (files.map fun r => (root.join r).clean).filter fun p => !p.isIn kept
  stale.forM fun p => (Disk.removeFile p).mapError .disk
  let _ ← (Disk.removeEmptyDirectories root).mapError .disk
  return stale.length

/-- Remove a tree if there is one. -/
def removeTree (root : Path) : DiskM Fault Bool := do
  if ← WorkM.ask (·.exists root) then
    (Disk.removeTree root).mapError .disk
    return true
  else return false

/-- Remove the trees of a build. Returns the ones that were there. -/
def clean (c : Config) : DiskM Fault (List Path) := do
  let removed ← [c.buildPath, c.generatedPath].mapM fun root => do
    return if ← removeTree root then some root else none
  return removed.filterMap id

/-- Remove the directory of all that builds put out, if it is there. -/
def cleanAll (c : Config) : DiskM Fault Bool :=
  removeTree c.distPath

end Build

end AddonBuild
