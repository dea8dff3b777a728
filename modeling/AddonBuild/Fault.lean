import AddonBuild.Disk.Access
import AddonBuild.Glob
import AddonBuild.Json.Decoder
import AddonBuild.Json.Fault
import AddonBuild.Pattern
import AddonBuild.Version

/-!
# Faults of a build

Everything that can stop a build, by its cause. Each fault has a stable code for programs and a
message for people.
-/

namespace AddonBuild

/-- What is wrong with a pattern, a glob or a path mapping. -/
inductive SettingFault where
  | twoWildcards (source : String)
  | exactAlias (key candidate : Pattern)
  | wildcardAlias (key candidate : Pattern)
  | pathsNotArray (file : Path) (key : String)
  | pathsNotStrings (file : Path) (key : String)
  | badGlob (source : String) (fault : Glob.Fault)

/-- The wording of a fault in the settings. -/
def SettingFault.message : SettingFault → String
  | .twoWildcards source => s!"A pattern can have at most one wildcard '*': {source}"
  | .exactAlias key candidate =>
    s!"Invalid path candidate for exact alias {key.render}: {candidate.render}"
  | .wildcardAlias key candidate =>
    s!"Invalid path candidate for wildcard alias {key.render}: {candidate.render}"
  | .pathsNotArray file key =>
    s!"{file.text}: compilerOptions.paths[\"{key}\"] must be an array"
  | .pathsNotStrings file key =>
    s!"{file.text}: compilerOptions.paths[\"{key}\"] must contain strings"
  | .badGlob source fault => s!"Invalid glob {Text.quoted source}: {fault.message}"

/-- Why a package cannot be vendored. -/
inductive FormatFault where
  | targetNotString (subpath : String)
  | exportsShape
  | noModuleEntry

/-- The wording of the reason. -/
def FormatFault.message : FormatFault → String
  | .targetNotString subpath =>
    s!"non-string \"exports\" target for \"{subpath}\" is not supported"
  | .exportsShape => "\"exports\" must be a string or an object"
  | .noModuleEntry =>
    "no ES module entry point; vendoring CommonJS packages is not supported"

/-- What is wrong with the description of a project. -/
inductive ProjectFault where
  | noName
  | noVersion
  | badVersion (text : String) (fault : Version.Fault)
  | badUuid (text : String)
  | noPackList
  | noPacks
  | badPack (mismatch : Json.Mismatch)
  | badModule (mismatch : Json.Mismatch)
  | deprecatedModule
  | untypedModule
  | noModules (pack : String)
  | dependenciesShape (pack : String)
  | noDependencyTarget
  | noDependencyVersion

/-- The wording of a fault in the description of a project. -/
def ProjectFault.message : ProjectFault → String
  | .noName => "package.json has no \"name\""
  | .noVersion => "package.json has no \"version\""
  | .badVersion text fault => s!"Unparsable version: {text}: {fault.message}"
  | .badUuid text => s!"invalid uuid {Text.quoted text}"
  | .noPackList => "manifest has no \"packs\" array"
  | .noPacks => "a project must have at least one pack"
  | .badPack mismatch => s!"invalid pack: {mismatch.message}"
  | .badModule mismatch => s!"invalid module: {mismatch.message}"
  | .deprecatedModule =>
    "\"javascript\" is a deprecated module type. Use \"script\" instead."
  | .untypedModule => "module has no \"type\""
  | .noModules pack => s!"pack {pack}: packs must have at least one module"
  | .dependenciesShape pack => s!"pack {pack}: \"dependencies\" must be an array or an object"
  | .noDependencyTarget => "dependency needs either \"uuid\" or \"module_name\""
  | .noDependencyVersion => "dependency has no \"version\""

/-- Why a build stops. -/
inductive Fault where
  | disk (cause : DiskError)
  | unreadableConfig (file : Path) (cause : DiskError)
  | malformedConfig (file : Path) (fault : Json.Fault)
  | setting (fault : SettingFault)
  | unresolvedImport (importer : Path) (specifier : String) (candidates : List String)
  | unsupportedFormat (package : String) (fault : FormatFault)
  | dependencyNotFound (package : String) (start : Path)
  | dependencyConflict (package : String) (first second : Path)
  | project (fault : ProjectFault)
  | invalidJson (file : Path) (fault : Json.Fault)

namespace Fault

/-- The stable code of a fault. -/
def code : Fault → String
  | disk .. => "IO_ERROR"
  | unreadableConfig .. => "CONFIG_READ_FAILED"
  | malformedConfig .. => "CONFIG_PARSE_FAILED"
  | setting .. => "CONFIGURATION_INVALID"
  | unresolvedImport .. => "IMPORT_UNRESOLVED"
  | unsupportedFormat .. => "MODULE_FORMAT_UNSUPPORTED"
  | dependencyNotFound .. => "DEPENDENCY_NOT_FOUND"
  | dependencyConflict .. => "DEPENDENCY_CONFLICT"
  | project .. => "PROJECT_INVALID"
  | invalidJson .. => "JSON_INVALID"

/-- Where an import was looked for. -/
def searched (candidates : List String) : String :=
  if candidates.isEmpty then "the alias table or in dependencies"
  else "[" ++ ", ".intercalate candidates ++ "]"

/-- The message of a fault. -/
def message : Fault → String
  | disk cause => s!"IO error: {cause.message}"
  | unreadableConfig file cause => s!"Failed to read config at {file.text}: {cause.message}"
  | malformedConfig file fault => s!"Failed to parse config at {file.text}: {fault.message}"
  | setting fault => fault.message
  | unresolvedImport importer specifier candidates =>
    s!"{importer.text}: Module {specifier} not found in {searched candidates}"
  | unsupportedFormat package fault => s!"Package {package}: {fault.message}"
  | dependencyNotFound package start =>
    s!"Package {package} is not found anywhere above {start.text}. Did you really install it?"
  | dependencyConflict package first second =>
    s!"Conflicting versions of {package} need vendoring ({first.text} and {second.text}), " ++
      "which is not supported"
  | project fault => s!"Invalid project: {fault.message}"
  | invalidJson file fault => s!"{file.text}: invalid JSON: {fault.message}"

end Fault

end AddonBuild
