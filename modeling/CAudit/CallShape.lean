import CAudit.Finding
import CAudit.Recogniser
import CAudit.Text.Lines

/-! Insecure calls told by their shape in a line. -/
namespace CAudit

/-- A shape of a call and what to say about it. -/
structure CallShape where
  title : String
  severity : Severity
  cwe : String
  suggestion : String
  pattern : Pattern Unit

namespace CallShape
open Recogniser

/-- A call of `printf` whose only argument is a name of ASCII characters. -/
def printsName : Recogniser Unit := do
  callOf ["printf"]
  blanks
  let argument ← span1 Text.isNameChar
  guard (argument.head?.any Text.isNameStart)
  blanks
  symbol ')'

def all : List CallShape :=
  [⟨"Unsafe gets() Usage", .critical, "CWE-120", "use fgets() with an explicit buffer size",
      ⟨true, callOf ["gets"]⟩⟩,
   ⟨"Unsafe strcpy() Usage", .high, "CWE-120", "use strncpy() with size limit",
      ⟨true, callOf ["strcpy"]⟩⟩,
   ⟨"Unsafe sprintf() Usage", .high, "CWE-120", "use snprintf()", ⟨true, callOf ["sprintf"]⟩⟩,
   ⟨"Format String Vulnerability", .medium, "CWE-134",
      "pass user data as an argument: printf(\"%s\", value)", ⟨true, printsName⟩⟩]

def finding (s : CallShape) (line : Nat) : Finding where
  title := s.title
  line := min line maxLine
  severity := s.severity
  explanation := "This function is known to be insecure and can lead to vulnerabilities."
  suggestion := s.suggestion
  tag := Finding.patternTag
  cwe := some s.cwe

/-- One finding for each line and each shape in it. -/
def scan (source : String) : List Finding :=
  ((Text.lines source).zipIdx 1).flatMap fun (line, n) =>
    (all.filter fun s => s.pattern.occursIn line).map fun s => s.finding n

end CallShape

end CAudit
