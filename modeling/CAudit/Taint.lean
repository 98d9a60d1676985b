import CAudit.Recogniser

/-! Names that hold input from outside, found line by line. There is no data flow: a name found once
is tainted in the whole source. -/
namespace CAudit

namespace Taint
open Recogniser

/-- A way in which input reaches a variable. -/
structure Source where
  description : String
  names : String → List String

/-- A name in front of an equals sign. -/
def assigned : Recogniser String := do
  let target ← name
  blanks
  symbol '='
  blanks
  return target

/-- The names whose address is taken. -/
def addressed : Pattern String where
  atWordStart := false
  shape := do
    symbol '&'
    blanks
    name

/-- The arguments of a formatted read, up to a semicolon. -/
def formattedRead : Pattern String where
  atWordStart := true
  shape := do
    callOf ["scanf", "fscanf", "sscanf", "vscanf"]
    return String.ofList (← span (· != ';'))

def conversion : Pattern String where
  atWordStart := false
  shape := do
    let target ← assigned
    callOf ["atoi", "atol", "atoll", "strtol", "strtoul", "strtoll"]
    return target

def argument : Pattern String where
  atWordStart := false
  shape := do
    let target ← assigned
    wordOf ["argv"]
    return target

def fileRead : Pattern String where
  atWordStart := true
  shape := do
    callOf ["fgets", "fread", "gets"]
    blanks
    name

def descriptorRead : Pattern String where
  atWordStart := true
  shape := do
    callOf ["read"]
    blanks
    let _ ← word
    blanks
    symbol ','
    blanks
    name

def sources : List Source :=
  [⟨"scanf input", fun line => (formattedRead.occurrences line).flatMap addressed.occurrences⟩,
   ⟨"string to number conversion", conversion.occurrences⟩,
   ⟨"command line argument", argument.occurrences⟩,
   ⟨"file input", fileRead.occurrences⟩,
   ⟨"descriptor read", descriptorRead.occurrences⟩]

/-- The tainted names of some lines. -/
def names (lines : List String) : List String :=
  lines.flatMap fun line => sources.flatMap fun s => s.names line

/-- The tainted names in the order of their characters, each once. -/
def sortedNames (lines : List String) : List String :=
  ((names lines).mergeSort (fun a b => decide (a ≤ b))).eraseDups

/-- Where each source taints names: its description, the line and the names. -/
def sites (lines : List String) : List (String × Nat × List String) :=
  sources.flatMap fun s =>
    ((lines.zipIdx 1).map fun (line, n) => (s.description, n, s.names line)).filter
      (!·.2.2.isEmpty)

end Taint

end CAudit
