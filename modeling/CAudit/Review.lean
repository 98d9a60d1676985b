import CAudit.Finding
import CAudit.Directory

/-! Findings of other reviewers, taken from JSON that may be fenced, wrapped in an object or mixed
with prose. -/
namespace CAudit

namespace Review

/-- The tag of findings whose reviewer has no name. -/
def defaultTag : String := "external"

inductive Fault where
  | empty
  | json (fault : Json.Fault)
  | file (fault : FileFault)
  deriving DecidableEq, Repr

def Fault.message : Fault → String
  | .empty => "External findings error: empty response"
  | .json e => "JSON error: " ++ e.category
  | .file e => "IO error: " ++ e.message

def fence : List Char := "```".toList

/-- The text behind `start`, if it starts so. -/
def dropFront? (start cs : List Char) : Option (List Char) :=
  if start.isPrefixOf cs then some (cs.drop start.length) else none

/-- The text in front of `stop`, if it ends so. -/
def dropBack? (stop cs : List Char) : Option (List Char) :=
  if stop.isSuffixOf cs then some (cs.take (cs.length - stop.length)) else none

/-- The text inside a code fence, with or without the word `json` behind its opening mark. -/
def stripFence (cs : List Char) : List Char :=
  let cs := Text.trim cs
  let cs :=
    match dropFront? (fence ++ "json".toList) cs with
    | some rest => Text.trimStart rest
    | none =>
      match dropFront? fence cs with
      | some rest => Text.trimStart rest
      | none => cs
  match dropBack? fence cs with
  | some rest => Text.trimEnd rest
  | none => cs

/-- The text from the first opening bracket to the last closing one. -/
def bracketSpan? (cs : List Char) : Option (List Char) :=
  let from_ := cs.dropWhile (· != '[')
  let span := (from_.reverse.dropWhile (· != ']')).reverse
  if span.isEmpty then none else some span

/-- The JSON value in a text: the span between brackets if that is one, else the whole. -/
def recover (cs : List Char) : Except Json.Fault Json :=
  match (bracketSpan? cs).map fun span => Json.parse (String.ofList span) with
  | some (.ok v) => .ok v
  | _ => Json.parse (String.ofList cs)

/-- The entries: the items of an array, or of the first array in an object. -/
def entries : Json → List Json
  | .array items => items
  | .object members => (members.findSome? fun m => m.2.asArray?).getD []
  | _ => []

/-- A decimal number of any size, with or without a plus sign. -/
def natOfText? (cs : List Char) : Option Nat :=
  let ds :=
    match cs with
    | '+' :: ds => ds
    | ds => ds
  if ds.isEmpty || !ds.all Json.Reader.isDigit then none
  else some (ds.foldl (fun n c => n * 10 + Json.Reader.digitValue c) 0)

/-- A line number: a number, cut to a whole one, or a text that spells one. -/
def lineOf? (v : Json) : Option Nat := do
  let n ←
    match v with
    | .number (.nat n) => some n
    | .number (.float x) => if x ≥ 1 then some x.toUInt64.toNat else none
    | .string s => natOfText? (Text.trim s.toList)
    | _ => none
  if 1 ≤ n && n ≤ maxLine then some n else none

def text (entry : Json) (key : String) : String :=
  ((entry.get? key).bind Json.asString?).getD ""

/-- The weakness number of an entry, unless it is blank. -/
def cwe? (entry : Json) : Option String := do
  let v ← (entry.get? "cwe_id").or (entry.get? "cwe")
  let cs := Text.trim (← v.asString?).toList
  if cs.isEmpty then none else some (String.ofList cs)

/-- The finding of an entry. An entry without a usable line gives none. -/
def finding? (tag : String) (entry : Json) : Option Finding := do
  let line ← lineOf? (← entry.get? "line_number")
  return { title := text entry "title", line, severity := Severity.ofLabel (text entry "severity"),
           explanation := text entry "explanation", suggestion := text entry "suggestion",
           tag, cwe := cwe? entry }

/-- The findings in a response. -/
def parse (response tag : String) : Except Fault (List Finding) :=
  let cs := stripFence response.toList
  if cs.isEmpty then .error .empty
  else
    match recover cs with
    | .error e => .error (.json e)
    | .ok v => .ok ((entries v).filterMap (finding? tag))

/-- The findings in a file, tagged with the name of the file. -/
def load (d : Directory) (name : String) : Except Fault (List Finding) :=
  match d.readText name with
  | .error e => .error (.file e)
  | .ok response => parse response (fileStem (Directory.plainName name))

end Review

end CAudit
