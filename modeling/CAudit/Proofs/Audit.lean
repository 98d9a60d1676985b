import CAudit.Audit
import CAudit.Proofs.Merge

/-! Reports and the findings of other reviewers. Every finding of a built-in detector carries a
suggestion, so no other finding can take its place: other reviewers only add to a report. -/
namespace CAudit

/-- A text whose first character is not blank. -/
def Text.Inked (s : String) : Prop := ∃ c cs, s = String.ofList (c :: cs) ∧ isBlank c = false

theorem Text.Inked.append {s : String} (h : Inked s) (t : String) : Inked (s ++ t) := by
  obtain ⟨c, cs, rfl, hc⟩ := h
  exact ⟨c, cs ++ t.toList, by simp [← String.toList_inj], hc⟩

theorem Finding.hasSuggestion_of_inked {f : Finding} (h : Text.Inked f.suggestion) :
    f.hasSuggestion = true := by
  obtain ⟨c, cs, hs, hc⟩ := h
  have hstart : Text.trimStart (c :: cs) = c :: cs := by simp [Text.trimStart, hc]
  have hend : Text.trimEnd (c :: cs) ≠ [] := by
    rw [Text.trimEnd, List.reverse_cons, List.dropWhile_append]
    split <;> simp [hc]
  simpa [hasSuggestion, hs, Text.trim, hstart] using hend

namespace InsecureCall

theorem documented_inked : ∀ entry ∈ documented, Text.Inked entry.2.suggestion := by
  simp only [documented, List.forall_mem_cons]
  refine ⟨?_, ?_, ?_, ?_, ?_, ?_, ?_, ?_, ?_, ?_, ?_, ?_, ?_, by simp⟩ <;> exact ⟨_, _, rfl, rfl⟩

theorem finding?_hasSuggestion {name : String} {line : Nat} {f : Finding}
    (h : finding? name line = some f) : f.hasSuggestion = true := by
  unfold finding? lookup? at h
  split at h
  · next a ha =>
    obtain rfl := Option.some.inj h
    obtain ⟨before, behind, hsplit, -⟩ := List.lookup_eq_some_iff.1 ha
    exact Finding.hasSuggestion_of_inked (documented_inked (name, a) (by simp [hsplit]))
  · split at h
    · obtain rfl := Option.some.inj h
      exact Finding.hasSuggestion_of_inked ⟨_, _, rfl, rfl⟩
    · cases h

end InsecureCall

theorem parseTokens_hasSuggestion {ts : List Token} {f : Finding}
    (h : f ∈ (parseTokens ts).findings) : f.hasSuggestion = true := by
  obtain ⟨t, -, ht⟩ := List.mem_filterMap.1 h
  exact InsecureCall.finding?_hasSuggestion ht

/-- A finding about arithmetic is made for some operation on a line of the source. -/
theorem Arithmetic.exists_of_mem_scan {radius : Nat} {source : String} {f : Finding}
    (h : f ∈ Arithmetic.scan radius source) :
    ∃ o index fromInput, index < (Text.lines source).length ∧
      f = Arithmetic.finding o (index + 1) fromInput := by
  simp only [scan, List.mem_flatMap] at h
  obtain ⟨⟨line, index⟩, hline, hf⟩ := h
  split at hf
  · cases hf
  · simp only [lineFindings, List.mem_flatMap, List.mem_map] at hf
    obtain ⟨o, -, texts, -, rfl⟩ := hf
    have hindex := List.mem_zipIdx hline
    exact ⟨o, index, _, by simpa using hindex.2.1, rfl⟩

/-- A finding about a call is made for one of the shapes, on a line of the source. -/
theorem CallShape.exists_of_mem_scan {source : String} {f : Finding}
    (h : f ∈ CallShape.scan source) :
    ∃ s ∈ CallShape.all, ∃ index < (Text.lines source).length, f = s.finding (index + 1) := by
  simp only [scan, List.mem_flatMap, List.mem_map, List.mem_filter] at h
  obtain ⟨⟨line, n⟩, hline, s, ⟨hs, -⟩, rfl⟩ := h
  have hn := List.mem_zipIdx hline
  refine ⟨s, hs, n - 1, by omega, ?_⟩
  rw [Nat.sub_add_cancel hn.1]

theorem Arithmetic.suggestion_inked : Text.Inked Arithmetic.suggestion :=
  Text.Inked.append ⟨_, _, rfl, rfl⟩ _

theorem Arithmetic.scan_hasSuggestion {radius : Nat} {source : String} {f : Finding}
    (h : f ∈ Arithmetic.scan radius source) : f.hasSuggestion = true := by
  obtain ⟨o, index, fromInput, -, rfl⟩ := Arithmetic.exists_of_mem_scan h
  exact Finding.hasSuggestion_of_inked suggestion_inked

theorem CallShape.all_inked : ∀ s ∈ CallShape.all, Text.Inked s.suggestion := by
  simp only [all, List.forall_mem_cons]
  refine ⟨?_, ?_, ?_, ?_, by simp⟩ <;> exact ⟨_, _, rfl, rfl⟩

theorem CallShape.scan_hasSuggestion {source : String} {f : Finding}
    (h : f ∈ CallShape.scan source) : f.hasSuggestion = true := by
  obtain ⟨s, hs, index, -, rfl⟩ := CallShape.exists_of_mem_scan h
  exact Finding.hasSuggestion_of_inked (all_inked s hs)

/-- The findings of a built-in detector, by detector. -/
theorem mem_builtinFindings {c : Config} {source : String} {f : Finding} :
    f ∈ (builtinFindings c source).flatten ↔ f ∈ (parseSource source).findings ∨
      (c.arithmetic = true ∧ f ∈ Arithmetic.scan c.radius source) ∨
      (c.patterns = true ∧ f ∈ CallShape.scan source) := by
  cases ha : c.arithmetic <;> cases hp : c.patterns <;> simp [builtinFindings, ha, hp]

theorem builtinFindings_hasSuggestion {c : Config} {source : String} {f : Finding}
    (h : f ∈ (builtinFindings c source).flatten) : f.hasSuggestion = true := by
  rcases mem_builtinFindings.1 h with h | ⟨-, h⟩ | ⟨-, h⟩
  · exact parseTokens_hasSuggestion h
  · exact Arithmetic.scan_hasSuggestion h
  · exact CallShape.scan_hasSuggestion h

theorem audit_findings (c : Config) (source : String) (external : List (List Finding)) :
    (audit c source external).findings =
      Finding.deduplicate ((builtinFindings c source).flatten ++ external.flatten) := by
  simp [audit, Finding.merge]

theorem audit_findings_nil (c : Config) (source : String) :
    (audit c source []).findings = Finding.deduplicate (builtinFindings c source).flatten := by
  simp [audit_findings]

/-- The parser's findings stand in front, whatever is merged behind them. -/
theorem parser_findings_prefix (c : Config) (source : String) (external : List (List Finding)) :
    Finding.deduplicate (parseSource source).findings <+: (audit c source external).findings := by
  have hfront : ∃ more, (builtinFindings c source).flatten ++ external.flatten =
      (parseSource source).findings ++ more := by
    simp only [builtinFindings, List.flatten_cons, List.append_assoc]
    exact ⟨_, rfl⟩
  obtain ⟨more, hmore⟩ := hfront
  have hparser : ∀ f ∈ (parseSource source).findings, f.hasSuggestion = true :=
    fun f => parseTokens_hasSuggestion
  rw [audit_findings, hmore, Finding.deduplicate_append hparser]
  exact List.prefix_append _ _

/-- A report is safe when no detector that runs and no other reviewer found anything. -/
theorem audit_isSafe_iff (c : Config) (source : String) (external : List (List Finding)) :
    (audit c source external).isSafe = true ↔ (parseSource source).findings = [] ∧
      (c.arithmetic = true → Arithmetic.scan c.radius source = []) ∧
      (c.patterns = true → CallShape.scan source = []) ∧ ∀ fs ∈ external, fs = [] := by
  have hsafe : (audit c source external).isSafe = true ↔
      (builtinFindings c source).flatten ++ external.flatten = [] := by
    rw [← Finding.deduplicate_eq_nil_iff, ← audit_findings, ← List.isEmpty_iff]
    rfl
  rw [hsafe]
  cases ha : c.arithmetic <;> cases hp : c.patterns <;> simp [builtinFindings, ha, hp]

/-- Other reviewers only add to a report: behind the findings that it has without them come those of
their findings whose keys are new. -/
theorem audit_external (c : Config) (source : String) (external : List (List Finding)) :
    let own := (builtinFindings c source).flatten
    let report := audit c source external
    let tail := Finding.deduplicate (external.flatten.filter fun f => f.key ∉ Finding.keys own)
    report.findings = (audit c source []).findings ++ tail ∧
    (∀ f ∈ tail, ∀ g ∈ own, f.key ≠ g.key) ∧
    tail = (Finding.deduplicate external.flatten).filter (fun f => f.key ∉ Finding.keys own) ∧
    Finding.deduplicate (parseSource source).findings <+: report.findings ∧
    report.warnings = (audit c source []).warnings ∧ report.tree = (audit c source []).tree ∧
    (report.isSafe = true ↔ (parseSource source).findings = [] ∧
      (c.arithmetic = true → Arithmetic.scan c.radius source = []) ∧
      (c.patterns = true → CallShape.scan source = []) ∧ ∀ fs ∈ external, fs = []) := by
  intro own report tail
  refine ⟨?_, ?_, ?_, parser_findings_prefix c source external, rfl, rfl,
    audit_isSafe_iff c source external⟩
  · rw [audit_findings, audit_findings_nil,
      Finding.deduplicate_append fun f => builtinFindings_hasSuggestion]
  · intro f hf g hg hkey
    have hnew := (List.mem_filter.1 (Finding.mem_of_mem_deduplicate hf)).2
    have hkeys : f.key ∈ Finding.keys own := hkey ▸ List.mem_map_of_mem hg
    simp [hkeys] at hnew
  · exact (Finding.filter_deduplicate (fun k => k ∉ Finding.keys own) _).symm

end CAudit
