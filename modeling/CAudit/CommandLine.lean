import CAudit.Audit
import CAudit.Config.File
import CAudit.ParseTree.Dot
import CAudit.Review

/-! The command line: arguments, and what a run writes. -/
namespace CAudit

namespace CommandLine

/-- What the arguments ask for. -/
structure Options where
  file : Option String := none
  format : Option Report.Format := none
  config : Option String := none
  preset : Option String := none
  external : List String := []
  dot : Option String := none
  deriving DecidableEq, Repr

/-- Why no run starts. -/
inductive Stop where
  | help | version | misuse
  deriving DecidableEq, Repr

/-- Sets an option that may be given once. -/
def once {α : Type} (old : Option α) (new : Option α) : Except Stop (Option α) :=
  match old, new with
  | none, some a => .ok (some a)
  | _, _ => .error .misuse

/-- A path may not be empty. -/
def path? (s : String) : Option String := if s.isEmpty then none else some s

/-- The options that take a value. -/
def Options.set (o : Options) (name value : String) : Except Stop Options := do
  match name with
  | "format" => return { o with format := ← once o.format (Report.Format.ofName? value) }
  | "config" => return { o with config := ← once o.config (path? value) }
  | "preset" => return { o with preset := ← once o.preset (some value) }
  | "external" =>
    match path? value with
    | some p => return { o with external := o.external ++ [p] }
    | none => throw .misuse
  | "dot" => return { o with dot := ← once o.dot (path? value) }
  | _ => throw .misuse

def Options.setFile (o : Options) (value : String) : Except Stop Options := do
  return { o with file := ← once o.file (path? value) }

def valueOptions : List String := ["format", "config", "preset", "external", "dot"]

inductive Flag where
  | verbose | help | version
  deriving DecidableEq, Repr

namespace Flag

def ofName? : String → Option Flag
  | "verbose" => some .verbose
  | "help" => some .help
  | "version" => some .version
  | _ => none

def ofLetter? : Char → Option Flag
  | 'v' => some .verbose
  | 'h' => some .help
  | 'V' => some .version
  | _ => none

end Flag

/-- A flag ends the reading of arguments or does nothing; nobody uses an unknown one. -/
def heed : Option Flag → Except Stop Unit
  | some .verbose => .ok ()
  | some .help => .error .help
  | some .version => .error .version
  | none => .error .misuse

/-- The kinds of arguments. -/
inductive Argument where
  | file (name : String)
  | terminator
  | flags (flags : List (Option Flag))
  | valued (name : String) (attached : Option String)
  | unusable
  deriving DecidableEq, Repr

/-- A long option, with or without a value behind an equals sign. -/
def longArgument (cs : List Char) : Argument :=
  let name := String.ofList (cs.takeWhile (· != '='))
  let attached := (cs.dropWhile (· != '=')).tail?.map String.ofList
  if valueOptions.contains name then .valued name attached
  else if attached.isSome then .unusable
  else .flags [Flag.ofName? name]

def Argument.ofString (arg : String) : Argument :=
  match arg.toList with
  | ['-', '-'] => .terminator
  | '-' :: '-' :: cs => longArgument cs
  | '-' :: c :: cs => .flags ((c :: cs).map Flag.ofLetter?)
  | _ => .file arg

/-- Whether an argument can be the value of the option in front of it. -/
def isValue (arg : String) : Bool := decide (Argument.ofString arg = .file arg)

/-- Reads the arguments from left to right; the first one that cannot be used ends it. -/
def readArgs (o : Options) : List String → Except Stop Options
  | [] => .ok o
  | arg :: rest =>
    match Argument.ofString arg with
    | .file name =>
      match o.setFile name with
      | .ok o => readArgs o rest
      | .error stop => .error stop
    | .terminator => rest.foldlM Options.setFile o
    | .flags flags =>
      match flags.forM heed with
      | .ok _ => readArgs o rest
      | .error stop => .error stop
    | .valued name (some value) =>
      match o.set name value with
      | .ok o => readArgs o rest
      | .error stop => .error stop
    | .valued name none =>
      match rest with
      | [] => .error .misuse
      | value :: rest =>
        if isValue value then
          match o.set name value with
          | .ok o => readArgs o rest
          | .error stop => .error stop
        else .error .misuse
    | .unusable => .error .misuse

/-- A run needs one source file, and either a configuration file or a preset or none of them. -/
def options (args : List String) : Except Stop Options := do
  let o ← readArgs {} args
  if o.file.isNone || (o.config.isSome && o.preset.isSome) then throw .misuse else return o

/-- The files that a run with these arguments reads. -/
def inputs (args : List String) : List String :=
  match options args with
  | .ok o => o.file.toList ++ o.config.toList ++ o.external
  | .error _ => []

inductive Failure where
  | config (fault : Config.Fault)
  | source (file : String) (fault : FileFault)
  deriving DecidableEq, Repr

/-- The line that tells about a failure; malformed YAML has no fixed text. -/
def Failure.line? : Failure → Option String
  | .config fault => fault.detail?.map ("Error: " ++ ·)
  | .source file fault =>
    some ("Error: " ++ Text.quoted ("cannot read " ++ file ++ ": " ++ fault.message))

/-- What a run leaves behind: the exit code, the output, a failure, and a drawing with the name
of the file it goes to. -/
structure Result where
  exit : Nat
  output : String
  failure : Option Failure := none
  drawing : Option (String × String) := none

def loadConfig (d : Directory) (o : Options) : Except Config.Fault Config :=
  match o.config, o.preset with
  | some name, _ => Config.load d name
  | none, some name => do (← Config.ofPresetName name).build
  | none, none => .ok Config.standard

/-- Runs on a source file. The configuration is read first, and reviews that cannot be read are
passed over. -/
def audit (d : Directory) (o : Options) (file : String) : Except Failure Result := do
  let config ← (loadConfig d o).mapError .config
  let bytes ← (d.read file).mapError (.source file)
  let external := o.external.filterMap fun name => (Review.load d name).toOption
  let report := CAudit.audit config (Text.decodeLossy bytes) external
  let rendered := report.render (o.format.getD .text) file
  return { exit := 0
           output := String.ofList (Text.trimEnd rendered.toList) ++ "\n"
           drawing := o.dot.map fun name => (name, report.tree.dot) }

def versionText : String := "safecompile 0.1.0\n"

def helpText : String :=
  "Static security analysis for C source files\n\n" ++
    "Usage: safecompile [OPTIONS] <FILE>\n\n" ++
    "Arguments:\n" ++
    "  <FILE>  C source file to analyze\n\n" ++
    "Options:\n" ++
    "      --format <FORMAT>      Output format [default: text] [possible values: text, json]\n" ++
    "      --config <CONFIG>      YAML configuration file (version 1)\n" ++
    "      --preset <PRESET>      Detector preset: fast (parser only), balanced (default: " ++
    "parser, patterns, arithmetic), thorough (balanced with a one-line bounds-check window)\n" ++
    "      --external <EXTERNAL>  JSON findings from an external detector (repeatable)\n" ++
    "      --dot <DOT>            Write the parse tree as Graphviz DOT to this path\n" ++
    "  -v, --verbose...           Verbosity level (-v, -vv, -vvv)\n" ++
    "  -h, --help                 Print help\n" ++
    "  -V, --version              Print version\n"

/-- A run with some arguments over some files. -/
def run (d : Directory) (args : List String) : Result :=
  match options args with
  | .error .help => { exit := 0, output := helpText }
  | .error .version => { exit := 0, output := versionText }
  | .error .misuse => { exit := 2, output := "" }
  | .ok o =>
    match audit d o (o.file.getD "") with
    | .ok r => r
    | .error failure => { exit := 1, output := "", failure }

end CommandLine

end CAudit
