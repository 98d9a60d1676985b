import CAudit.Config
import CAudit.Yaml.Value

/-! Configuration files: a preset, and settings that override it. -/
namespace CAudit.Config
open Yaml

/-- What a configuration file says. -/
structure File where
  version : Option Nat
  preset : Option String
  parallel : Option Bool
  arithmetic : Option Bool
  patterns : Option Bool
  radius : Option Nat
  deriving DecidableEq, Repr

namespace File

def maxVersion : Nat := 0xffffffff

/-- The entries of a mapping that may be missing, if it has no others than the known ones. -/
def section? (key : String) (known : List String) (entries : Entries) : Option Entries := do
  let inner := (← entries.optional Node.entries? key).getD []
  if inner.areKnown known then some inner else none

/-- The settings in a mapping. Other keys than the known ones, and values of another kind, are
refused. -/
def ofEntries? (entries : Entries) : Option File := do
  guard (entries.areKnown ["version", "preset", "parallel", "detectors", "arithmetic"])
  let switches ← section? "detectors" ["arithmetic", "patterns"] entries
  let limits ← section? "arithmetic" ["context_radius"] entries
  return {
    version := ← entries.optional (Node.natUpTo? maxVersion) "version"
    preset := ← entries.optional Node.text? "preset"
    parallel := ← entries.optional Node.bool? "parallel"
    arithmetic := ← switches.optional Node.bool? "arithmetic"
    patterns := ← switches.optional Node.bool? "patterns"
    radius := ← limits.optional (Node.natUpTo? Json.Reader.maxWord) "context_radius" }

/-- The preset of a file with the settings that override it. -/
def apply (f : File) (c : Config) : Config where
  preset := c.preset
  arithmetic := f.arithmetic.getD c.arithmetic
  patterns := f.patterns.getD c.patterns
  radius := f.radius.getD c.radius
  parallel := f.parallel.getD c.parallel

/-- The configuration of a file: the version is checked first, then the preset, then the radius. -/
def resolve (f : File) : Except Fault Config := do
  match f.version with
  | none => throw .missingVersion
  | some v =>
    if !supportedVersions.contains v then throw (.unsupportedVersion v supportedVersions)
  let base ←
    match f.preset with
    | some name => ofPresetName name
    | none => pure standard
  (f.apply base).build

end File

/-- The configuration in a text. -/
def ofYaml (text : String) : Except Fault Config :=
  match (Yaml.read text).bind File.ofEntries? with
  | some f => f.resolve
  | none => .error .yaml

/-- The configuration in a file. -/
def load (d : Directory) (name : String) : Except Fault Config :=
  match d.readText name with
  | .ok text => ofYaml text
  | .error e => .error (.file e)

/-- The entries that hold a configuration. -/
def entries (c : Config) : Entries :=
  let plain (text : String) : Node := .scalar true text
  [("version", plain "1"), ("preset", plain c.preset.name),
   ("parallel", plain (boolText c.parallel)),
   ("detectors", .mapping
      [("arithmetic", plain (boolText c.arithmetic)), ("patterns", plain (boolText c.patterns))]),
   ("arithmetic", .mapping [("context_radius", plain c.radius.repr)])]

/-- The configuration as a file. -/
def toYaml (c : Config) : String := Yaml.write c.entries

end CAudit.Config
