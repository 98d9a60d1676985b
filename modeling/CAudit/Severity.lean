import CAudit.Text.Blank
import CAudit.Text.Lowercase

/-! Severity of a finding. -/
namespace CAudit

/-- Severities, the gravest first. -/
inductive Severity where
  | critical | high | medium | low
  deriving DecidableEq, Repr

namespace Severity

def all : List Severity := [.critical, .high, .medium, .low]

def name : Severity → String
  | .critical => "Critical"
  | .high => "High"
  | .medium => "Medium"
  | .low => "Low"

/-- The severity with exactly this name. -/
def ofName? (s : String) : Option Severity := all.find? (·.name == s)

/-- Labels that reviewers use, in lower case. -/
def labels : List (String × Severity) :=
  [("critical", .critical), ("high", .high), ("medium", .medium), ("moderate", .medium),
   ("low", .low), ("info", .low)]

/-- The severity of a label, whatever its letter case and the blanks around it. -/
def ofLabel? (s : String) : Option Severity := labels.lookup (Text.lowercase (Text.trimmed s))

/-- A label nobody knows counts as medium. -/
def ofLabel (s : String) : Severity := (ofLabel? s).getD .medium

/-- Gravest first, equals in their order. -/
def sort (xs : List Severity) : List Severity := all.flatMap fun s => xs.filter (· = s)

end Severity

end CAudit
