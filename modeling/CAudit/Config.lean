import CAudit.Arithmetic
import CAudit.Directory
import CAudit.Text.Quoted

/-! Configuration: which detectors run, and how wide the window of bounds checks is. -/
namespace CAudit

inductive Preset where
  | fast | balanced | thorough
  deriving DecidableEq, Repr

namespace Preset

def all : List Preset := [.fast, .balanced, .thorough]

def name : Preset → String
  | .fast => "fast"
  | .balanced => "balanced"
  | .thorough => "thorough"

/-- The preset with exactly this name. -/
def ofName? (s : String) : Option Preset := all.find? (·.name == s)

/-- The preset of a name, whatever its letter case and the blanks around it. -/
def ofLabel? (s : String) : Option Preset := ofName? (Text.lowercase (Text.trimmed s))

/-- The fast preset runs the parser alone. -/
def runsTextDetectors (p : Preset) : Bool := decide (p ≠ .fast)

/-- The thorough preset wants a bounds check within one line of an operation. -/
def radius : Preset → Nat
  | .thorough => 1
  | _ => Arithmetic.defaultRadius

end Preset

/-- The settings of a run. -/
structure Config where
  preset : Preset
  arithmetic : Bool
  patterns : Bool
  radius : Nat
  parallel : Bool
  deriving DecidableEq, Repr

namespace Config

/-- The settings that a preset stands for. -/
def ofPreset (p : Preset) : Config where
  preset := p
  arithmetic := p.runsTextDetectors
  patterns := p.runsTextDetectors
  radius := p.radius
  parallel := true

def standard : Config := ofPreset .balanced

/-- The largest radius that a run accepts. -/
def maxRadius : Nat := 10

/-- Versions of the file format that can be read. -/
def supportedVersions : List Nat := [1]

inductive Fault where
  | range (field value least most hint : String)
  | missingVersion
  | unsupportedVersion (found : Nat) (supported : List Nat)
  | unknownPreset (name : String)
  | file (fault : FileFault)
  | yaml
  deriving DecidableEq, Repr

def versionList (versions : List Nat) : String := ", ".intercalate (versions.map Nat.repr)

def Fault.cause : Fault → String
  | .range field value least most hint =>
    "Invalid range for field '" ++ field ++ "': " ++ value ++ " not in " ++ least ++ "..=" ++
      most ++ ". " ++ hint
  | .missingVersion =>
    "Missing 'version' field in configuration file. " ++
      "Add 'version: 1' to the top of your YAML file."
  | .unsupportedVersion found supported =>
    "Unsupported configuration version " ++ found.repr ++ ". Supported versions: " ++
      versionList supported
  | .unknownPreset name =>
    "Unknown preset '" ++ name ++ "'. Valid presets: " ++ ", ".intercalate (Preset.all.map (·.name))
  | .file fault => "IO error: " ++ fault.message
  | .yaml => "YAML parsing error"

def Fault.message (e : Fault) : String := "Configuration error: " ++ e.cause

/-- The fault with its parts named; malformed YAML has no fixed text. -/
def Fault.detail? : Fault → Option String
  | .range field value least most hint =>
    some ("Range \x7b field: " ++ Text.quoted field ++ ", value: " ++ Text.quoted value ++
      ", min: " ++ Text.quoted least ++ ", max: " ++ Text.quoted most ++ ", hint: " ++
      Text.quoted hint ++ " \x7d")
  | .missingVersion => some "MissingVersion"
  | .unsupportedVersion found supported =>
    some ("UnsupportedVersion \x7b found: " ++ found.repr ++ ", supported: [" ++
      versionList supported ++ "] \x7d")
  | .unknownPreset name => some ("UnknownPreset(" ++ Text.quoted name ++ ")")
  | .file fault => some ("Io(" ++ fault.detail ++ ")")
  | .yaml => none

/-- A radius out of range. -/
def Fault.radius (value : Nat) : Fault :=
  .range "arithmetic.context_radius" value.repr "0" maxRadius.repr
    "The bounds-check window is measured in lines on each side of the operation"

/-- The configuration itself, if its radius is in range. -/
def build (c : Config) : Except Fault Config :=
  if c.radius ≤ maxRadius then .ok c else .error (.radius c.radius)

/-- The configuration of a preset that is given by its name. -/
def ofPresetName (name : String) : Except Fault Config :=
  match Preset.ofLabel? name with
  | some p => .ok (ofPreset p)
  | none => .error (.unknownPreset name)

def boolText (b : Bool) : String := if b then "true" else "false"

/-- The detectors that run; the parser always does. -/
def detectors (c : Config) : List String :=
  ["parser"] ++ (if c.arithmetic then ["arithmetic"] else []) ++
    (if c.patterns then ["patterns"] else [])

/-- The configuration on one line. -/
def describe (c : Config) : String :=
  "preset=" ++ c.preset.name ++ " detectors=[" ++ ", ".intercalate c.detectors ++
    "] context_radius=" ++ c.radius.repr ++ " parallel=" ++ boolText c.parallel

def toJson (c : Config) : Json :=
  .object
    [("preset", .string c.preset.name), ("arithmetic", .bool c.arithmetic),
     ("patterns", .bool c.patterns), ("context_radius", .nat c.radius),
     ("parallel", .bool c.parallel)]

/-- A configuration that is being read. -/
structure Draft where
  preset : Option Preset := none
  arithmetic : Option Bool := none
  patterns : Option Bool := none
  radius : Option Nat := none
  parallel : Option Bool := none

open Json.Reader in
/-- The shape of a configuration inside which `room` more arrays and objects may be opened. -/
def shape (room : Nat) : Shape Draft Config where
  fields :=
    [⟨"preset", (·.preset.isSome),
        fun d => do return { d with preset := some (← oneOf room Preset.ofName?) }, fun _ => none⟩,
      ⟨"arithmetic", (·.arithmetic.isSome),
        fun d => do return { d with arithmetic := some (← bool) }, fun _ => none⟩,
      ⟨"patterns", (·.patterns.isSome),
        fun d => do return { d with patterns := some (← bool) }, fun _ => none⟩,
      ⟨"context_radius", (·.radius.isSome),
        fun d => do return { d with radius := some (← natUpTo maxWord) }, fun _ => none⟩,
      ⟨"parallel", (·.parallel.isSome),
        fun d => do return { d with parallel := some (← bool) }, fun _ => none⟩]
  empty := {}
  finish d := do return ⟨← d.preset, ← d.arithmetic, ← d.patterns, ← d.radius, ← d.parallel⟩

/-- A configuration in JSON, with `room` more arrays and objects to open. -/
def read (room : Nat) : Json.Reader Config := Json.Reader.record room (shape (room - 1))

end Config

end CAudit
