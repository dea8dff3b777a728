import AddonBuild.Version

/-!
# The tool itself

The name and the version that the tool gives of itself, on the command line and in the manifests
that it writes.
-/

namespace AddonBuild

namespace Tool

/-- The name of the tool. -/
def name : String := "cicada-build"

/-- The version of the tool. -/
def version : Version := ⟨0, 2, 0, "", ""⟩

/-- The name and the version. -/
def title : String := s!"{name} {version.text}"

end Tool

end AddonBuild
