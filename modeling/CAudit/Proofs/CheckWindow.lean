import Mathlib.Data.List.Forall2
import CAudit.Proofs.ArithmeticRisk
import CAudit.Proofs.Lines

/-! The window of bounds checks. What is found on a line depends on three things: the line itself,
whether a check stands near it, and the tainted names of the whole source. A wider window can only
silence lines; lines behind the window can only make findings graver. -/
namespace CAudit

theorem Text.mem_window_iff {α : Type} {x : α} {index radius : Nat} {xs : List α} :
    x ∈ window index radius xs ↔
      ∃ i, xs[i]? = some x ∧ index ≤ i + radius ∧ i ≤ index + radius := by
  simp only [window, windowBounds, List.mem_iff_getElem?, List.getElem?_drop, List.getElem?_take,
    Option.ite_none_right_eq_some]
  constructor
  · rintro ⟨j, hj, hx⟩
    exact ⟨index - radius + j, hx, by omega, by omega⟩
  · rintro ⟨i, hx, hlow, hhigh⟩
    have hi : i < xs.length := (List.getElem?_eq_some_iff.1 hx).1
    refine ⟨i - (index - radius), by omega, ?_⟩
    rwa [Nat.add_sub_cancel' (by omega)]

theorem Taint.names_append (lines more : List String) :
    names (lines ++ more) = names lines ++ names more := by
  simp [names]

namespace Arithmetic

/-- A line is checked if a line near it has a check. -/
theorem isChecked_iff {radius : Nat} {lines : List String} {index : Nat} :
    isChecked radius lines index = true ↔ ∃ i line, lines[i]? = some line ∧
      index ≤ i + radius ∧ i ≤ index + radius ∧ hasCheck line = true := by
  simp only [isChecked, List.any_eq_true, Text.mem_window_iff]
  constructor
  · rintro ⟨line, ⟨i, hline, hlow, hhigh⟩, hcheck⟩
    exact ⟨i, line, hline, hlow, hhigh, hcheck⟩
  · rintro ⟨i, line, hline, hlow, hhigh, hcheck⟩
    exact ⟨line, ⟨i, hline, hlow, hhigh⟩, hcheck⟩

theorem isChecked_wider {r r' : Nat} (hr : r ≤ r') {lines : List String} {index : Nat}
    (h : isChecked r lines index = true) : isChecked r' lines index = true := by
  obtain ⟨i, line, hline, hlow, hhigh, hcheck⟩ := isChecked_iff.1 h
  exact isChecked_iff.2 ⟨i, line, hline, by omega, by omega, hcheck⟩

theorem isChecked_append {radius : Nat} {lines : List String} {index : Nat}
    (h : isChecked radius lines index = true) (more : List String) :
    isChecked radius (lines ++ more) index = true := by
  obtain ⟨i, line, hline, hlow, hhigh, hcheck⟩ := isChecked_iff.1 h
  have hi : i < lines.length := (List.getElem?_eq_some_iff.1 hline).1
  exact isChecked_iff.2
    ⟨i, line, by rw [List.getElem?_append_left hi, hline], hlow, hhigh, hcheck⟩

/-- Lines behind the window do not matter. -/
theorem isChecked_of_append {radius : Nat} {lines more : List String} {index : Nat}
    (hwindow : index + radius < lines.length)
    (h : isChecked radius (lines ++ more) index = true) : isChecked radius lines index = true := by
  obtain ⟨i, line, hline, hlow, hhigh, hcheck⟩ := isChecked_iff.1 h
  rw [List.getElem?_append_left (by omega)] at hline
  exact isChecked_iff.2 ⟨i, line, hline, hlow, hhigh, hcheck⟩

theorem line_of_mem_lineFindings {tainted : List String} {line : String} {number : Nat}
    {f : Finding} (h : f ∈ lineFindings tainted line number) : f.line = min number maxLine := by
  simp only [lineFindings, List.mem_flatMap, List.mem_map] at h
  obtain ⟨o, -, texts, -, rfl⟩ := h
  rfl

/-- A wider window takes away all findings of the lines that it checks, and no others. -/
theorem scan_wider {r r' : Nat} (hr : r ≤ r') {source : String}
    (hlines : (Text.lines source).length ≤ maxLine) :
    scan r' source =
      (scan r source).filter fun f => !isChecked r' (Text.lines source) (f.line - 1) := by
  simp only [scan, List.filter_flatMap]
  apply List.flatMap_congr
  rintro ⟨line, index⟩ hmem
  obtain ⟨-, hindex, -⟩ := List.mem_zipIdx hmem
  have hnumber : min (index + 1) maxLine = index + 1 := by omega
  cases hwide : isChecked r' (Text.lines source) index with
  | true =>
    refine (List.filter_eq_nil_iff.2 fun f hf => ?_).symm
    split at hf
    · cases hf
    · rw [line_of_mem_lineFindings hf, hnumber, Nat.add_sub_cancel, hwide]
      decide
  | false =>
    have hnarrow : isChecked r (Text.lines source) index ≠ true := by
      intro h
      rw [isChecked_wider hr h] at hwide
      cases hwide
    rw [if_neg Bool.false_ne_true, if_neg hnarrow]
    refine (List.filter_eq_self.2 fun f hf => ?_).symm
    rw [line_of_mem_lineFindings hf, hnumber, Nat.add_sub_cancel, hwide]
    rfl

theorem lowercase_ne_of_mem_shapes {source : String} {g : Finding} (hg : g ∈ CallShape.scan source)
    (o : Operation) : Text.lowercase g.title ≠ Text.lowercase o.title := by
  have hall : ∀ s ∈ CallShape.all, Text.lowercase s.title ≠ Text.lowercase o.title := by
    have hcall {title : String} (h : title.toList.head? = some 'U') :
        Text.lowercase title ≠ Text.lowercase o.title :=
      Operation.lowercase_ne h (by decide) (by decide) o
    have hformat {title : String} (h : title.toList.head? = some 'F') :
        Text.lowercase title ≠ Text.lowercase o.title :=
      Operation.lowercase_ne h (by decide) (by decide) o
    simp only [CallShape.all, List.forall_mem_cons]
    exact ⟨hcall (by decide), hcall (by decide), hcall (by decide), hformat (by decide),
      by simp⟩
  obtain ⟨s, hs, index, -, rfl⟩ := CallShape.exists_of_mem_scan hg
  exact hall s hs

/-- Whether a key stays in a report: only operations on checked lines are left out. -/
def survives (radius : Nat) (lines : List String) (key : Nat × String) : Bool :=
  !(isChecked radius lines (key.1 - 1) &&
    Operation.all.any fun o => Text.lowercase o.title == key.2)

theorem survives_of_mem_scan {r radius : Nat} {source : String} {lines : List String} {f : Finding}
    (h : f ∈ scan r source) :
    survives radius lines f.key = !isChecked radius lines (f.line - 1) := by
  obtain ⟨o, ho⟩ := title_of_mem_scan h
  have hmem : o ∈ Operation.all := by cases o <;> decide
  have hany : (Operation.all.any fun p => Text.lowercase p.title == f.key.2) = true :=
    List.any_eq_true.2 ⟨o, hmem, by simp [Finding.key, ho]⟩
  rw [survives, hany, Bool.and_true]
  rfl

theorem survives_of_ne {radius : Nat} {lines : List String} {f : Finding}
    (h : ∀ o : Operation, Text.lowercase f.title ≠ Text.lowercase o.title) :
    survives radius lines f.key = true := by
  have hnone : (Operation.all.any fun o => Text.lowercase o.title == f.key.2) = false := by
    rw [List.any_eq_false]
    intro o _
    simpa [Finding.key] using (h o).symm
  rw [survives, hnone, Bool.and_false]
  rfl

theorem builtinFindings_wider (c : Config) {r r' : Nat} (hr : r ≤ r') {source : String}
    (hlines : (Text.lines source).length ≤ maxLine) :
    (builtinFindings { c with radius := r' } source).flatten =
      (builtinFindings { c with radius := r } source).flatten.filter
        (survives r' (Text.lines source) ·.key) := by
  have hparser : (parseSource source).findings.filter (survives r' (Text.lines source) ·.key) =
      (parseSource source).findings :=
    List.filter_eq_self.2 fun f hf => survives_of_ne (lowercase_ne_of_mem_parse hf)
  have hshapes : (CallShape.scan source).filter (survives r' (Text.lines source) ·.key) =
      CallShape.scan source :=
    List.filter_eq_self.2 fun f hf => survives_of_ne (lowercase_ne_of_mem_shapes hf)
  have hscan : (scan r source).filter (survives r' (Text.lines source) ·.key) =
      scan r' source := by
    rw [scan_wider hr hlines]
    exact List.filter_congr fun f hf => survives_of_mem_scan hf
  cases c.arithmetic <;> cases c.patterns <;>
    simp [builtinFindings, hparser, hshapes, hscan]

theorem audit_wider (c : Config) {r r' : Nat} (hr : r ≤ r') {source : String}
    (hlines : (Text.lines source).length ≤ maxLine) :
    (audit { c with radius := r' } source []).findings.Sublist
      (audit { c with radius := r } source []).findings := by
  rw [audit_findings_nil, audit_findings_nil, builtinFindings_wider c hr hlines,
    ← Finding.filter_deduplicate]
  exact List.filter_sublist

/-- A wider window only silences whole lines, in a search for operations and in a report; so the
preset with the narrower window reports all that the standard one does. -/
theorem wider_window_silences (source : String) (r r' : Nat)
    (hlines : (Text.lines source).length ≤ maxLine) (hr : r ≤ r') :
    scan r' source =
      ((scan r source).filter fun f => !isChecked r' (Text.lines source) (f.line - 1)) ∧
    (∀ c : Config, (audit { c with radius := r' } source []).findings.Sublist
      (audit { c with radius := r } source []).findings) ∧
    (audit (.ofPreset .balanced) source []).findings.Sublist
      (audit (.ofPreset .thorough) source []).findings := by
  refine ⟨scan_wider hr hlines, fun c => audit_wider c hr hlines, ?_⟩
  have hradius : Preset.thorough.radius ≤ Preset.balanced.radius := by decide
  exact audit_wider (.ofPreset .thorough) hradius hlines

/-- A check two lines below an operation counts in a window of two lines but not of one. -/
theorem wider_window_silences_sum :
    let source := "a = b + c;\n\nif (a < 1) f();\n"
    (Text.lines source).length ≤ maxLine ∧ scan 1 source = [finding .assignment 1 false] ∧
      scan 2 source = [] ∧ (audit (.ofPreset .balanced) source []).findings.Sublist
        (audit (.ofPreset .thorough) source []).findings := by
  intro source
  have hlines : (Text.lines source).length ≤ maxLine := by decide +kernel
  have hnarrow : scan 1 source = [finding .assignment 1 false] := by decide +kernel
  obtain ⟨hwide, -, hpresets⟩ := wider_window_silences source 1 2 hlines (by decide)
  have hchecked : isChecked 2 (Text.lines source) 0 = true := by decide +kernel
  refine ⟨hlines, hnarrow, ?_, hpresets⟩
  rw [hwide, hnarrow, List.filter_cons_of_neg, List.filter_nil]
  simpa [finding, maxLine] using hchecked

/-- Of numbered items only one gives anything. -/
theorem flatMap_zipIdx_single {α β : Type} {xs : List α} {x : α} {i k : Nat}
    {g : α × Nat → List β} (hx : xs[i]? = some x)
    (hother : ∀ y j, j < k + xs.length → j ≠ k + i → g (y, j) = []) :
    (xs.zipIdx k).flatMap g = g (x, k + i) := by
  induction xs generalizing i k with
  | nil => simp at hx
  | cons y ys ih =>
    rw [List.zipIdx_cons, List.flatMap_cons]
    cases i with
    | zero =>
      obtain rfl : y = x := by simpa using hx
      have htail : (ys.zipIdx (k + 1)).flatMap g = [] := by
        rw [List.flatMap_eq_nil_iff]
        rintro ⟨z, j⟩ hmem
        obtain ⟨hlow, hhigh, -⟩ := List.mem_zipIdx hmem
        exact hother z j (by simp; omega) (by omega)
      rw [htail, List.append_nil]
      rfl
    | succ i =>
      rw [hother y k (by simp) (by omega), List.nil_append, ih (by simpa using hx)]
      · rw [Nat.add_assoc, Nat.add_comm 1]
      · intro z j hlength hne
        exact hother z j (by simp; omega) (by omega)

/-- The findings on one line. -/
theorem scan_on_line (radius : Nat) {source line : String}
    (hlines : (Text.lines source).length ≤ maxLine) {index : Nat}
    (hline : (Text.lines source)[index]? = some line) :
    (scan radius source).filter (·.line = index + 1) =
      if isChecked radius (Text.lines source) index then []
      else lineFindings (Taint.names (Text.lines source)) line (index + 1) := by
  have hindex : index < (Text.lines source).length := (List.getElem?_eq_some_iff.1 hline).1
  simp only [scan, List.filter_flatMap]
  rw [flatMap_zipIdx_single hline]
  · simp only [Nat.zero_add]
    split
    · rfl
    · refine List.filter_eq_self.2 fun f hf => ?_
      simp only [line_of_mem_lineFindings hf, decide_eq_true_eq]
      omega
  · intro other j hj hne
    refine List.filter_eq_nil_iff.2 fun f hf => ?_
    split at hf
    · cases hf
    · simp only [line_of_mem_lineFindings hf, decide_eq_true_eq]
      omega

theorem scan_on_line_zero (radius : Nat) (source : String) :
    (scan radius source).filter (·.line = 0) = [] := by
  rw [List.filter_eq_nil_iff]
  intro f hf
  obtain ⟨o, index, fromInput, -, rfl⟩ := exists_of_mem_scan hf
  simp [finding, maxLine]

/-- The operations on a line with the texts in them. -/
def operations (line : String) : List (Operation × List String) :=
  Operation.all.flatMap fun o => (o.pattern.occurrences line).map (o, ·)

theorem lineFindings_eq_map (tainted : List String) (line : String) (number : Nat) :
    lineFindings tainted line number =
      (operations line).map fun p => finding p.1 number (namesInput tainted p.2) := by
  simp [lineFindings, operations, List.map_flatMap, Function.comp_def]

theorem namesInput_mono {tainted tainted' : List String} (h : tainted ⊆ tainted')
    {texts : List String} (hin : namesInput tainted texts = true) :
    namesInput tainted' texts = true := by
  simp only [namesInput, List.any_eq_true, List.contains_iff_mem] at hin ⊢
  obtain ⟨text, htext, w, hw, hmem⟩ := hin
  exact ⟨text, htext, w, hw, h hmem⟩

/-- The same finding, or the graver one for the same operation. -/
def Regraded (old new : Finding) : Prop :=
  new = old ∨ old.severity = .medium ∧
    new = { old with severity := .high, explanation := new.explanation }

theorem finding_regraded (o : Operation) (number : Nat) {a b : Bool} (h : a = true → b = true) :
    Regraded (finding o number a) (finding o number b) := by
  cases a with
  | true =>
    rw [h rfl]
    exact .inl rfl
  | false =>
    cases b with
    | true => exact .inr ⟨rfl, rfl⟩
    | false => exact .inl rfl

theorem lineFindings_regraded {tainted tainted' : List String} (h : tainted ⊆ tainted')
    (line : String) (number : Nat) :
    List.Forall₂ Regraded (lineFindings tainted line number)
      (lineFindings tainted' line number) := by
  rw [lineFindings_eq_map, lineFindings_eq_map, List.forall₂_map_left_iff,
    List.forall₂_map_right_iff, List.forall₂_same]
  exact fun p _ => finding_regraded p.1 number (namesInput_mono h)

theorem scan_append_on_line (r : Nat) {s t text : String}
    (hs : s = "" ∨ s.toList.getLast? = some '\n')
    (hlines : (Text.lines (s ++ t)).length ≤ maxLine) {index : Nat}
    (htext : (Text.lines s)[index]? = some text) :
    (scan r (s ++ t)).filter (·.line = index + 1) =
      if isChecked r (Text.lines s ++ Text.lines t) index then []
      else lineFindings (Taint.names (Text.lines s) ++ Taint.names (Text.lines t)) text
        (index + 1) := by
  have hindex : index < (Text.lines s).length := (List.getElem?_eq_some_iff.1 htext).1
  have hline : (Text.lines (s ++ t))[index]? = some text := by
    rw [Text.lines_append hs, List.getElem?_append_left hindex, htext]
  rw [scan_on_line r hlines hline, Text.lines_append hs, Taint.names_append]

theorem exists_of_forall₂ {α β : Type} {R : α → β → Prop} {xs : List α} {ys : List β}
    (h : List.Forall₂ R xs ys) {y : β} (hy : y ∈ ys) : ∃ x ∈ xs, R x y := by
  induction h with
  | nil => cases hy
  | cons hxy _ ih =>
    rcases List.mem_cons.1 hy with rfl | hy
    · exact ⟨_, List.mem_cons_self, hxy⟩
    · obtain ⟨x, hx, hR⟩ := ih hy
      exact ⟨x, List.mem_cons_of_mem _ hx, hR⟩

/-- What appended lines do to the findings on one line. -/
theorem scan_append_cases (r : Nat) {s t : String} (hs : s = "" ∨ s.toList.getLast? = some '\n')
    (hlines : (Text.lines (s ++ t)).length ≤ maxLine) {line : Nat}
    (hline : line ≤ (Text.lines s).length) :
    (scan r (s ++ t)).filter (·.line = line) = [] ∧
        ((scan r s).filter (·.line = line) ≠ [] → (Text.lines s).length < line + r) ∨
      List.Forall₂ Regraded ((scan r s).filter (·.line = line))
        ((scan r (s ++ t)).filter (·.line = line)) := by
  cases line with
  | zero =>
    rw [scan_on_line_zero, scan_on_line_zero]
    exact .inr .nil
  | succ index =>
    obtain ⟨text, htext⟩ : ∃ text, (Text.lines s)[index]? = some text :=
      ⟨_, List.getElem?_eq_getElem hline⟩
    have hfront : (Text.lines s).length ≤ maxLine := by
      rw [Text.lines_append hs, List.length_append] at hlines
      omega
    rw [scan_append_on_line r hs hlines htext, scan_on_line r hfront htext]
    cases hchecked : isChecked r (Text.lines s ++ Text.lines t) index with
    | true =>
      refine .inl ⟨rfl, fun hfound => Nat.lt_of_not_le fun hfar => hfound ?_⟩
      rw [if_pos (isChecked_of_append (by omega) hchecked)]
    | false =>
      have hopen : isChecked r (Text.lines s) index ≠ true := by
        intro h
        rw [isChecked_append h] at hchecked
        cases hchecked
      rw [if_neg hopen, if_neg Bool.false_ne_true]
      exact .inr (lineFindings_regraded (List.subset_append_left _ _) text (index + 1))

/-- Lines behind a text that ends its last line can silence only lines whose window reaches them.
On all other lines the same operations are found, as grave as before or graver; so nothing is found
there that was not found before. -/
theorem appended_lines_regrade (r : Nat) (s t : String) (line : Nat)
    (hs : s = "" ∨ s.toList.getLast? = some '\n')
    (hlines : (Text.lines (s ++ t)).length ≤ maxLine) (hline : line ≤ (Text.lines s).length) :
    let old := (scan r s).filter (·.line = line)
    let new := (scan r (s ++ t)).filter (·.line = line)
    (new = [] ∧ (old ≠ [] → (Text.lines s).length < line + r) ∨
      List.Forall₂ Regraded old new) ∧ ∀ f ∈ new, ∃ g ∈ old, Regraded g f := by
  intro old new
  have hcases := scan_append_cases r hs hlines hline
  refine ⟨hcases, fun f hf => ?_⟩
  rcases hcases with ⟨hnil, -⟩ | hgrades
  · simp [new, hnil] at hf
  · exact exists_of_forall₂ hgrades hf

/-- A name that is read from outside in the second line makes the operation in the first graver. -/
theorem appended_lines_regrade_sum :
    let s := "a = b + c;\n"
    let t := "b = atoi(p);\n"
    s.toList.getLast? = some '\n' ∧ (Text.lines (s ++ t)).length ≤ maxLine ∧
      scan 1 s = [finding .assignment 1 false] ∧ scan 1 (s ++ t) = [finding .assignment 1 true] ∧
      List.Forall₂ Regraded ((scan 1 s).filter (·.line = 1))
        ((scan 1 (s ++ t)).filter (·.line = 1)) := by
  intro s t
  have hs : s.toList.getLast? = some '\n' := by decide
  have hlines : (Text.lines (s ++ t)).length ≤ maxLine := by decide +kernel
  have hline : 1 ≤ (Text.lines s).length := by decide +kernel
  have hold : scan 1 s = [finding .assignment 1 false] := by decide +kernel
  have hnew : scan 1 (s ++ t) = [finding .assignment 1 true] := by decide +kernel
  refine ⟨hs, hlines, hold, hnew, ?_⟩
  refine (appended_lines_regrade 1 s t 1 (.inr hs) hlines hline).1.resolve_left fun h => ?_
  rw [hnew] at h
  exact absurd h.1 (by decide +kernel)

end Arithmetic

end CAudit
