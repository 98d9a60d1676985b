import CAudit.Proofs.Audit
import CAudit.Proofs.Choice

/-! Arithmetic findings in a report. Their titles are shared with no other detector in front of
them, and all of them have suggestions; so of the operations of one kind on one line a report keeps
the one found first. A graver one behind it is lost. -/
namespace CAudit

theorem Text.lowerFrom_cons {c : Char} (hc : c.toNat < 0x80) (before cs : List Char) :
    lowerFrom before (c :: cs) = lowerChar c :: lowerFrom (c :: before) cs := by
  have hdotted : (c.toNat == 0x130) = false := by
    rw [beq_eq_false_iff_ne]
    omega
  have hsigma : (c.toNat == 0x3a3) = false := by
    rw [beq_eq_false_iff_ne]
    omega
  simp [lowerFrom, hdotted, hsigma]

theorem Text.head?_lowercase {s : String} {c : Char} (hs : s.toList.head? = some c)
    (hc : c.toNat < 0x80) : (lowercase s).toList.head? = some (lowerChar c) := by
  obtain ⟨cs, hcs⟩ := List.head?_eq_some_iff.1 hs
  simp [lowercase, hcs, lowerFrom_cons hc]

/-- ASCII text keeps its length in lower case. -/
theorem Text.length_lowerFrom {cs : List Char} (h : ∀ c ∈ cs, c.toNat < 0x80)
    (before : List Char) : (lowerFrom before cs).length = cs.length := by
  induction cs generalizing before with
  | nil => rfl
  | cons c cs ih =>
    rw [lowerFrom_cons (h c List.mem_cons_self), List.length_cons, List.length_cons,
      ih fun d hd => h d (List.mem_cons_of_mem c hd)]

theorem InsecureCall.finding?_title {name : String} {line : Nat} {f : Finding}
    (h : finding? name line = some f) : f.title = "Unsafe " ++ name ++ "() Usage" := by
  obtain ⟨call, -, rfl⟩ := Option.map_eq_some_iff.1 h
  cases call with
  | advised => rfl
  | unadvised => rfl

namespace Arithmetic

theorem Operation.toList_title (o : Operation) :
    o.title.toList = "Integer Overflow Risk in ".toList ++ o.name.toList :=
  String.toList_append

theorem Operation.title_ascii (o : Operation) : ∀ c ∈ o.title.toList, c.toNat < 0x80 := by
  have hall : o.title.toList.all (fun c => c.toNat < 0x80) = true := by
    rw [toList_title, List.all_append, Bool.and_eq_true]
    refine ⟨by decide, ?_⟩
    cases o <;> decide
  intro c hc
  exact of_decide_eq_true (List.all_eq_true.1 hall c hc)

/-- The titles differ in length, whatever their letter case. -/
theorem Operation.eq_of_lowercase {o p : Operation}
    (h : Text.lowercase o.title = Text.lowercase p.title) : o = p := by
  have hlower : Text.lowerFrom [] o.title.toList = Text.lowerFrom [] p.title.toList :=
    String.ofList_injective h
  have hlength : o.title.toList.length = p.title.toList.length := by
    rw [← Text.length_lowerFrom o.title_ascii [], hlower, Text.length_lowerFrom p.title_ascii]
  rw [toList_title, toList_title, List.length_append, List.length_append,
    Nat.add_left_cancel_iff] at hlength
  revert hlength
  cases o <;> cases p <;> decide

theorem title_of_mem_scan {radius : Nat} {source : String} {f : Finding}
    (h : f ∈ scan radius source) : ∃ o : Operation, f.title = o.title := by
  obtain ⟨o, index, fromInput, -, rfl⟩ := exists_of_mem_scan h
  exact ⟨o, rfl⟩

/-- Among arithmetic findings a key tells the title. -/
theorem key_eq_iff {radius : Nat} {source : String} {f g : Finding} (hf : f ∈ scan radius source)
    (hg : g ∈ scan radius source) : g.key = f.key ↔ g.title = f.title ∧ g.line = f.line := by
  obtain ⟨o, ho⟩ := title_of_mem_scan hf
  obtain ⟨p, hp⟩ := title_of_mem_scan hg
  constructor
  · intro hkey
    obtain ⟨hline, htitle⟩ := Prod.mk.inj hkey
    rw [ho, hp] at htitle ⊢
    exact ⟨congrArg _ (Operation.eq_of_lowercase htitle), hline⟩
  · rintro ⟨htitle, hline⟩
    simp only [Finding.key, htitle, hline]

/-- Titles that begin with another letter are no operation's, whatever their letter case. -/
theorem Operation.lowercase_ne {title : String} {c : Char} (hc : title.toList.head? = some c)
    (hascii : c.toNat < 0x80) (hletter : Text.lowerChar c ≠ Text.lowerChar 'I') (o : Operation) :
    Text.lowercase title ≠ Text.lowercase o.title := by
  have hfirst : o.title.toList.head? = some 'I' := by
    rw [toList_title]
    rfl
  intro heq
  have hhead := Text.head?_lowercase hc hascii
  rw [heq, Text.head?_lowercase hfirst (by decide)] at hhead
  exact hletter (Option.some.inj hhead).symm

theorem lowercase_ne_of_mem_parse {ts : List Token} {g : Finding}
    (hg : g ∈ (parseTokens ts).findings) (o : Operation) :
    Text.lowercase g.title ≠ Text.lowercase o.title := by
  obtain ⟨t, -, ht⟩ := List.mem_filterMap.1 hg
  have hunsafe : g.title.toList.head? = some 'U' := by
    rw [InsecureCall.finding?_title ht, String.toList_append, String.toList_append]
    rfl
  exact Operation.lowercase_ne hunsafe (by decide) (by decide) o

theorem key_ne_of_mem_parse {radius : Nat} {source : String} {ts : List Token} {f g : Finding}
    (hf : f ∈ scan radius source) (hg : g ∈ (parseTokens ts).findings) : g.key ≠ f.key := by
  obtain ⟨o, ho⟩ := title_of_mem_scan hf
  intro hkey
  have hlower : Text.lowercase g.title = Text.lowercase f.title := (Prod.mk.inj hkey).2
  exact lowercase_ne_of_mem_parse hg o (ho ▸ hlower)

/-- Whether two findings have one title and one line. -/
def sameRisk (f g : Finding) : Bool := g.title = f.title && g.line = f.line

theorem sameRisk_iff {f g : Finding} :
    sameRisk f g = true ↔ g.title = f.title ∧ g.line = f.line := by
  simp [sameRisk]

theorem exists_first {radius : Nat} {source : String} {f : Finding} (hf : f ∈ scan radius source) :
    ∃ first, (scan radius source).find? (sameRisk f) = some first :=
  Option.isSome_iff_exists.1 (List.find?_isSome.2 ⟨f, hf, sameRisk_iff.2 ⟨rfl, rfl⟩⟩)

/-- The choice for the key of an arithmetic finding is the first one with its title and line. -/
theorem choice?_builtinFindings {c : Config} (hc : c.arithmetic = true) {source : String}
    {f : Finding} (hf : f ∈ scan c.radius source) :
    Finding.choice? f.key (builtinFindings c source).flatten =
      (scan c.radius source).find? (sameRisk f) := by
  have hparser : (parseSource source).findings.find? (fun g => g.key = f.key) = none := by
    simp only [List.find?_eq_none, decide_eq_true_eq]
    exact fun g hg => key_ne_of_mem_parse hf hg
  have hscan : (scan c.radius source).find? (fun g => g.key = f.key) =
      (scan c.radius source).find? (sameRisk f) := by
    rw [← List.head?_filter, ← List.head?_filter]
    refine congrArg _ (List.filter_congr fun g hg => ?_)
    rw [Bool.eq_iff_iff, decide_eq_true_iff, key_eq_iff hf hg, sameRisk_iff]
  obtain ⟨first, hfirst⟩ := exists_first hf
  rw [Finding.choice?_eq_find? fun g => builtinFindings_hasSuggestion]
  simp [builtinFindings, hc, hparser, hscan, hfirst]

theorem isMerge_audit (c : Config) (source : String) :
    Finding.IsMerge (builtinFindings c source).flatten (audit c source []).findings := by
  rw [audit_findings_nil]
  exact Finding.isMerge_deduplicate _

/-- Of the findings with one title on one line a report has the one that was found first. -/
theorem mem_audit_iff {c : Config} (hc : c.arithmetic = true) {source : String} {f first : Finding}
    (hf : f ∈ scan c.radius source)
    (hfirst : (scan c.radius source).find? (sameRisk f) = some first) (g : Finding) :
    g ∈ (audit c source []).findings ∧ sameRisk f g = true ↔ g = first := by
  have hmerge := isMerge_audit c source
  have hchoice := choice?_builtinFindings hc hf
  rw [hfirst] at hchoice
  constructor
  · rintro ⟨hg, hsame⟩
    obtain ⟨htitle, hline⟩ := sameRisk_iff.1 hsame
    have hkey : g.key = f.key := by simp only [Finding.key, htitle, hline]
    rw [hmerge.mem_iff, hkey, hchoice] at hg
    exact (Option.some.inj hg).symm
  · rintro rfl
    refine ⟨hmerge.mem_iff.2 ?_, List.find?_some hfirst⟩
    rw [Finding.choice?_key hchoice, hchoice]

/-- A report has one arithmetic finding with a title on a line, the first that was found; so it has
a grave one exactly when the first is grave. -/
theorem audit_keeps_first_risk (c : Config) (source : String) (f : Finding)
    (hc : c.arithmetic = true) (hf : f ∈ scan c.radius source) :
    ∃ first, (scan c.radius source).find? (sameRisk f) = some first ∧
      (audit c source []).findings.filter (sameRisk f) = [first] ∧
      ((∃ g ∈ (audit c source []).findings,
        g.severity = .high ∧ g.title = f.title ∧ g.line = f.line) ↔ first.severity = .high) := by
  obtain ⟨first, hfirst⟩ := exists_first hf
  have hreport := mem_audit_iff hc hf hfirst
  refine ⟨first, hfirst, (isMerge_audit c source).filter_eq hreport, ?_⟩
  constructor
  · rintro ⟨g, hg, hhigh, hsame⟩
    rwa [(hreport g).1 ⟨hg, sameRisk_iff.2 hsame⟩] at hhigh
  · intro hhigh
    obtain ⟨hg, hsame⟩ := (hreport first).2 rfl
    exact ⟨first, hg, hhigh, sameRisk_iff.1 hsame⟩

/-- A grave operation in front of a lesser one of its kind stays, and the lesser one goes. -/
theorem high_risk_before_medium :
    let source := "x=atoi(s);y=x+d;a=b+c;"
    let grave := finding .assignment 1 true
    Config.standard.arithmetic = true ∧ grave ∈ scan Config.standard.radius source ∧
      (audit .standard source []).findings.filter (sameRisk grave) = [grave] ∧
      ∃ g ∈ (audit .standard source []).findings,
        g.severity = .high ∧ g.title = grave.title ∧ g.line = grave.line := by
  intro source grave
  have hscan : scan Config.standard.radius source = [grave, finding .assignment 1 false] := by
    decide +kernel
  have hf : grave ∈ scan Config.standard.radius source := by
    rw [hscan]
    exact List.mem_cons_self
  obtain ⟨first, hfirst, honce, hhigh⟩ := audit_keeps_first_risk .standard source grave rfl hf
  rw [hscan, List.find?_cons_of_pos (sameRisk_iff.2 ⟨rfl, rfl⟩)] at hfirst
  cases hfirst
  exact ⟨rfl, hf, honce, hhigh.2 rfl⟩

/-- A grave operation behind a lesser one of its kind is lost. -/
theorem high_risk_behind_medium :
    ∃ f ∈ scan Config.standard.radius "x=atoi(s);a=b+c;y=x+d;", f.severity = .high ∧
      ¬ ∃ g ∈ (audit .standard "x=atoi(s);a=b+c;y=x+d;" []).findings,
        g.severity = .high ∧ g.title = f.title ∧ g.line = f.line := by
  have hscan : scan Config.standard.radius "x=atoi(s);a=b+c;y=x+d;" =
      [finding .assignment 1 false, finding .assignment 1 true] := by decide +kernel
  have hf : finding .assignment 1 true ∈ scan Config.standard.radius "x=atoi(s);a=b+c;y=x+d;" := by
    rw [hscan]
    exact List.mem_cons_of_mem _ List.mem_cons_self
  have hfirst : (scan Config.standard.radius "x=atoi(s);a=b+c;y=x+d;").find?
      (sameRisk (finding .assignment 1 true)) = some (finding .assignment 1 false) := by
    rw [hscan]
    exact List.find?_cons_of_pos (sameRisk_iff.2 ⟨rfl, rfl⟩)
  refine ⟨_, hf, rfl, ?_⟩
  rintro ⟨g, hg, hhigh, hsame⟩
  rw [(mem_audit_iff rfl hf hfirst g).1 ⟨hg, sameRisk_iff.2 hsame⟩] at hhigh
  cases hhigh

end Arithmetic

end CAudit
