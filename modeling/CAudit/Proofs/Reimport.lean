import CAudit.Proofs.JsonWriting
import CAudit.Proofs.Wrapping

/-! Findings that are written as JSON are taken in again as they were: the text of the list is found
between its brackets, read back as a value, and each entry gives its finding. -/
namespace CAudit

theorem Severity.ofLabel_name (s : Severity) : ofLabel s.name = s := by
  cases s <;> decide

/-- The text of an array stands between brackets, also where it is indented. -/
theorem Review.bracketed_compactText (items : List Json) :
    Bracketed (Json.compactText (.array items)) where
  front := rfl
  back := List.getLast?_concat

theorem Review.bracketed_prettyText (level : Nat) (items : List Json) :
    Bracketed (Json.prettyText level (.array items)) := by
  cases items with
  | nil => exact ⟨rfl, rfl⟩
  | cons v vs => exact ⟨rfl, List.getLast?_concat⟩

namespace Finding

theorem exact_toJson {f : Finding} (hline : f.line ≤ maxLine) (room : Nat) :
    Json.Exact (room + 1) f.toJson := by
  have hword : f.line ≤ Json.Reader.maxWord := Nat.le_trans hline (by decide)
  refine .object ?_ fun m hm => .of_scalar ?_
  · cases f.cwe with
    | none => exact (by decide : ["title", "line_number", "severity", "explanation", "suggestion",
        "source_tag"].Nodup)
    | some w => exact (by decide : ["title", "line_number", "severity", "explanation",
        "suggestion", "source_tag", "cwe_id"].Nodup)
  · rcases List.mem_append.1 hm with hm | hm
    · simp only [List.mem_cons, List.not_mem_nil, or_false] at hm
      rcases hm with rfl | rfl | rfl | rfl | rfl | rfl
      · exact .string _
      · exact .number hword
      · exact .string _
      · exact .string _
      · exact .string _
      · exact .string _
    · obtain ⟨w, -, rfl⟩ := Option.map_eq_some_iff.1 (Option.mem_toList.1 hm)
      exact .string w

/-- What a finding must be to be taken in under a tag: it has a line and this tag, and its weakness
number is neither empty nor between blanks. -/
structure Importable (tag : String) (f : Finding) : Prop where
  line : 1 ≤ f.line ∧ f.line ≤ maxLine
  tag : f.tag = tag
  cwe : ∀ w, f.cwe = some w → w ≠ "" ∧ (∀ c ∈ w.toList.head?, Text.isBlank c = false) ∧
    ∀ c ∈ w.toList.getLast?, Text.isBlank c = false

end Finding

namespace Review

theorem cwe?_toJson {f : Finding} {tag : String} (h : f.Importable tag) :
    cwe? f.toJson = f.cwe := by
  obtain ⟨title, line, severity, explanation, suggestion, _, cwe⟩ := f
  cases cwe with
  | none => rfl
  | some w =>
    obtain ⟨hne, hfront, hback⟩ := h.cwe w rfl
    have hlist : w.toList ≠ [] := by simpa using hne
    have htrim : Text.trim w.toList = w.toList := Text.trim_eq_self hlist hfront hback
    change (if (Text.trim w.toList).isEmpty then none
      else some (String.ofList (Text.trim w.toList))) = some w
    rw [htrim, List.isEmpty_eq_false_iff.2 hlist, String.ofList_toList]
    rfl

theorem lineOf?_nat {n : Nat} (h : 1 ≤ n ∧ n ≤ maxLine) : lineOf? (.nat n) = some n := by
  simp [lineOf?, Json.nat, h]

/-- The entry that a finding is written as gives the finding. -/
theorem finding?_toJson {f : Finding} {tag : String} (h : f.Importable tag) :
    finding? tag f.toJson = some f := by
  have hline : f.toJson.get? "line_number" = some (.nat f.line) := rfl
  have hseverity : text f.toJson "severity" = f.severity.name := rfl
  rw [finding?, hline, cwe?_toJson h, hseverity, Severity.ofLabel_name]
  simp only [Option.bind_eq_bind, Option.bind_some, lineOf?_nat h.line, ← h.tag]
  rfl

theorem filterMap_finding?_toJson {tag : String} {fs : List Finding}
    (h : ∀ f ∈ fs, f.Importable tag) :
    (fs.map Finding.toJson).filterMap (finding? tag) = fs := by
  induction fs with
  | nil => rfl
  | cons f fs ih =>
    rw [List.forall_mem_cons] at h
    rw [List.map_cons, List.filterMap_cons_some (finding?_toJson h.1), ih h.2]

theorem exact_findings {tag : String} {fs : List Finding} (h : ∀ f ∈ fs, f.Importable tag) :
    Json.Exact Json.maxNesting (.array (fs.map Finding.toJson)) := by
  refine .array fun v hv => ?_
  obtain ⟨f, hf, rfl⟩ := List.mem_map.1 hv
  exact Finding.exact_toJson (h f hf).line.2 125

/-- A list of findings between its brackets gives the findings, in whichever form it is written. -/
theorem parse_written {tag : String} {fs : List Finding} (h : ∀ f ∈ fs, f.Importable tag)
    {a : List Char} (ha : Bracketed a)
    (hparse : Json.parse (String.ofList a) = .ok (.array (fs.map Finding.toJson))) :
    parse (String.ofList a) tag = .ok fs := by
  have haround : Around a (String.ofList a).toList := ⟨[], [], by simp, by simp, by simp⟩
  rw [parse_of_around ha hparse haround tag]
  exact congrArg Except.ok (filterMap_finding?_toJson h)

/-- Findings written as JSON, compact or indented to any depth, are taken in again. -/
theorem parse_exported {tag : String} {fs : List Finding} (h : ∀ f ∈ fs, f.Importable tag) :
    parse (Json.compact (.array (fs.map Finding.toJson))) tag = .ok fs ∧
    parse (Json.pretty (.array (fs.map Finding.toJson))) tag = .ok fs ∧
    ∀ level, parse (String.ofList (Json.prettyText level (.array (fs.map Finding.toJson)))) tag =
      .ok fs := by
  have hpretty (level : Nat) := parse_written h (bracketed_prettyText level _)
    (Json.parse_prettyText (exact_findings h) level)
  exact ⟨parse_written h (bracketed_compactText _) (Json.parse_compact (exact_findings h)),
    hpretty 0, hpretty⟩

/-- Fences, brackets, quotes, backslashes and control characters in the texts of a finding, at the
last line that there is. -/
theorem parse_exported_awkward :
    let f : Finding := ⟨"```json\n]", maxLine, .high, "a[i] = \"\\\";", "\u0000\t\x7d[", "llm",
      some "CWE-79 [x]"⟩
    f.Importable "llm" ∧
    parse (Json.compact (.array [f.toJson])) "llm" = .ok [f] ∧
    parse (Json.pretty (.array [f.toJson])) "llm" = .ok [f] := by
  intro f
  have hf : f.Importable "llm" := by
    refine ⟨by decide, rfl, ?_⟩
    rintro w ⟨⟩
    refine ⟨by decide, ?_, ?_⟩ <;> rintro c ⟨⟩ <;> decide
  obtain ⟨hcompact, hpretty, -⟩ := parse_exported (List.forall_mem_singleton.2 hf)
  exact ⟨hf, hcompact, hpretty⟩

end Review

end CAudit
