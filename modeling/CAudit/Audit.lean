import CAudit.CallShape
import CAudit.Config
import CAudit.Finding.Merge
import CAudit.Parse
import CAudit.Report

/-! One run of every detector that is switched on. -/
namespace CAudit

/-- The findings of the built-in detectors: parser, arithmetic, call shapes. -/
def builtinFindings (c : Config) (source : String) : List (List Finding) :=
  [(parseSource source).findings,
   if c.arithmetic then Arithmetic.scan c.radius source else [],
   if c.patterns then CallShape.scan source else []]

/-- The report on a source. The lists of other reviewers come behind the built-in ones, so a
built-in finding is preferred. -/
def audit (c : Config) (source : String) (external : List (List Finding)) : Report :=
  let outcome := parseSource source
  let findings := Finding.merge (builtinFindings c source ++ external)
  { warnings := outcome.warnings, findings, tree := outcome.tree, isSafe := findings.isEmpty }

end CAudit
