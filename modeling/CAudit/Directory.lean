import CAudit.Text.Utf8

/-! The files that a run reads and writes. -/
namespace CAudit

/-- Why a file could not be read as text. -/
inductive FileFault where
  | missing | notText
  deriving DecidableEq, Repr

def FileFault.message : FileFault → String
  | .missing => "No such file or directory (os error 2)"
  | .notText => "stream did not contain valid UTF-8"

/-- The fault with its parts named. -/
def FileFault.detail : FileFault → String
  | .missing => "Os \x7b code: 2, kind: NotFound, message: \"No such file or directory\" \x7d"
  | .notText =>
    "Error \x7b kind: InvalidData, message: \"stream did not contain valid UTF-8\" \x7d"

/-- Files by name. -/
structure Directory where
  files : List (String × List UInt8)

namespace Directory

/-- Files by name; of two with one name the later counts. -/
def ofFiles (files : List (String × List UInt8)) : Directory := ⟨files.reverse⟩

/-- A name without the `./` in front of it. -/
def plainName (name : String) : String :=
  match name.toList with
  | '.' :: '/' :: rest => String.ofList (rest.dropWhile (· == '/'))
  | _ => name

def read (d : Directory) (name : String) : Except FileFault (List UInt8) :=
  match d.files.lookup (plainName name) with
  | some bytes => .ok bytes
  | none => .error .missing

def readText (d : Directory) (name : String) : Except FileFault String := do
  match Text.decode? (← d.read name) with
  | some s => .ok s
  | none => .error .notText

/-- The folder that a name leads into, with its slash. -/
def folder (name : String) : String :=
  String.ofList (name.toList.reverse.dropWhile (· != '/')).reverse

/-- A folder exists if a file lies in it; the directory itself always does. -/
def hasFolder (d : Directory) (folder : String) : Bool :=
  folder.isEmpty || d.files.any fun f => f.1.startsWith folder

/-- Writes a file. If its folder does not exist, nothing changes. -/
def write (d : Directory) (name : String) (bytes : List UInt8) : Directory :=
  let plain := plainName name
  if d.hasFolder (folder plain) then ⟨(plain, bytes) :: d.files.filter (·.1 != plain)⟩ else d

end Directory

/-- The name of a file without its folder and its last extension. A dot in front does not start an
extension. -/
def fileStem (name : String) : String :=
  let base := (name.toList.reverse.takeWhile (· != '/')).reverse
  match base.reverse.span (· != '.') with
  | (_, '.' :: c :: rest) => String.ofList (c :: rest).reverse
  | _ => String.ofList base

end CAudit
