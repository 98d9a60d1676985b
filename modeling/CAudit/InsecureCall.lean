import CAudit.Finding

/-! C library functions that are known to be insecure. -/
namespace CAudit

namespace InsecureCall

/-- What to say about a function. -/
structure Advice where
  suggestion : String
  cwe : String
  severity : Severity
  risk : String
  deriving DecidableEq, Repr

def documented : List (String × Advice) :=
  [("gets", ⟨"use fgets() with an explicit buffer size", "CWE-120", .critical,
      "reads an unbounded line into a fixed-size buffer"⟩),
   ("strcpy", ⟨"use strncpy() with size limit", "CWE-120", .high,
      "copies without checking the destination size"⟩),
   ("strcat", ⟨"use strncat() with size limit", "CWE-120", .high,
      "appends without checking the destination size"⟩),
   ("sprintf", ⟨"use snprintf()", "CWE-120", .high,
      "formats into a buffer without a length bound"⟩),
   ("vsprintf", ⟨"use vsnprintf()", "CWE-120", .high,
      "formats into a buffer without a length bound"⟩),
   ("scanf", ⟨"specify field width and check the return value", "CWE-120", .medium,
      "%s conversions without a width overflow the target"⟩),
   ("printf", ⟨"use a string literal as the format argument", "CWE-134", .medium,
      "a non-literal format string lets input control the output"⟩),
   ("system", ⟨"avoid executing external commands; validate any input that reaches them",
      "CWE-78", .high, "runs a shell command built from program data"⟩),
   ("popen", ⟨"avoid executing external commands; use safer APIs", "CWE-78", .high,
      "runs a shell command built from program data"⟩),
   ("eval", ⟨"avoid code injection; parse inputs safely", "CWE-94", .high,
      "evaluates data as code"⟩),
   ("malloc", ⟨"check the return value for NULL", "CWE-690", .low,
      "a failed allocation returns NULL"⟩),
   ("calloc", ⟨"check the return value for NULL", "CWE-690", .low,
      "a failed allocation returns NULL"⟩),
   ("realloc", ⟨"check the return value for NULL and keep the old pointer until it succeeds",
      "CWE-690", .low, "a failed reallocation returns NULL and leaks the original block"⟩)]

/-- Functions known to be risky, without advice of their own. -/
def undocumented : List String :=
  ["exec", "execl", "execlp", "execle", "execv", "execvp", "tmpnam", "tempnam", "mktemp", "getwd",
   "alloca", "strtok", "wcscpy", "wcscat", "sscanf", "fscanf", "vscanf", "realpath", "streadd",
   "strtrns", "getpass"]

/-- The weakness number given where none is known. -/
def unknownCwe : String := "N/A"

def genericSuggestion : String :=
  "review this call and prefer a bounded, return-checked alternative"

/-- The number of names known. -/
def count : Nat := documented.length + undocumented.length

end InsecureCall

/-- What is known about an insecure function. -/
inductive InsecureCall where
  | advised (advice : InsecureCall.Advice)
  | unadvised
  deriving DecidableEq, Repr

namespace InsecureCall

def lookup? (name : String) : Option InsecureCall :=
  match documented.lookup name with
  | some advice => some (.advised advice)
  | none => if undocumented.contains name then some .unadvised else none

/-- The finding for a call of `name` on a line, if the function is insecure. -/
def finding? (name : String) (line : Nat) : Option Finding :=
  let title := "Unsafe " ++ name ++ "() Usage"
  (lookup? name).map fun
    | .advised a =>
      { title, line, severity := a.severity,
        explanation := "Use of insecure function " ++ name ++ "() detected: " ++ a.risk ++
          " [" ++ a.cwe ++ "].",
        suggestion := a.suggestion, tag := Finding.parserTag, cwe := some a.cwe }
    | .unadvised =>
      { title, line, severity := .medium,
        explanation := "Detected use of '" ++ name ++ "' (marked as insecure).",
        suggestion := genericSuggestion, tag := Finding.parserTag, cwe := some unknownCwe }

end InsecureCall

end CAudit
