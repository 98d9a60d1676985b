import CAudit.Proofs.Audit
import CAudit.Proofs.Leaves
import CAudit.Proofs.Lines
import CAudit.Proofs.Scanning

/-! Line numbers. The scan counts the newlines it passes and the other detectors count the lines of
the text; a token that is not blank stands, under either count, in the line whose number it
carries. -/
namespace CAudit

/-- The line that a token starts in, found by the token's number, with the bytes it spans. -/
structure StartsIn (source : String) (t : Token) (offset : Nat) (before line behind : String) :
    Prop where
  listed : (Text.lines source)[t.line - 1]? = some line
  place : Text.IsLine source.toList t.line before.toList line.toList behind.toList
  lower : before.utf8ByteSize ≤ offset
  upper : offset < before.utf8ByteSize + line.utf8ByteSize

theorem exists_startsIn {source : String} {k : Nat} {t : Token} (h : (scan source)[k]? = some t)
    (hkind : t.kind ≠ .whitespace) :
    ∃ before line behind,
      StartsIn source t ((Cursor.start source).after k).offset before line behind := by
  have hreads := Cursor.reads_after h
  obtain ⟨x, b, hx⟩ := List.exists_cons_of_ne_nil hreads.lexeme_ne
  have hblank : ¬ Text.isBlank x = true := fun hblank => hkind (hreads.blank hx hblank).1
  have hsource : source.toList = (lexemes ((scan source).take k)).toList ++
      x :: (b ++ ((Cursor.start source).after (k + 1)).rest) := by
    rw [← List.cons_append, ← hx, ← hreads.moved.rest]
    exact (moved_scan source k).rest
  -- the first character is not blank, so it ends no line
  have hn : x ≠ '\n' := by
    rintro rfl
    exact hblank (by decide)
  have hr : x ≠ '\r' := by
    rintro rfl
    exact hblank (by decide)
  obtain ⟨before, line, behind, l, m, hline, his, hfront, rfl⟩ := Text.exists_isLine hsource hn hr
  have hnumber : t.line = (lexemes ((scan source).take k)).toList.count '\n' + 1 := by
    rw [scan_line h, Nat.add_comm]
  have hoffset : ((Cursor.start source).after k).offset =
      (String.ofList before).utf8ByteSize + (String.ofList l).utf8ByteSize := by
    rw [offset_after, ← String.utf8ByteSize_append, ← String.ofList_append, ← hfront,
      String.ofList_toList]
  have hspan : (String.ofList (l ++ x :: m)).utf8ByteSize =
      (String.ofList l).utf8ByteSize + (String.ofList (x :: m)).utf8ByteSize := by
    rw [String.ofList_append, String.utf8ByteSize_append]
  have hpos : (String.ofList (x :: m)).utf8ByteSize ≠ 0 := by
    rw [Ne, String.utf8ByteSize_eq_zero_iff, ← String.toList_eq_nil_iff, String.toList_ofList]
    exact List.cons_ne_nil x m
  refine ⟨.ofList before, .ofList (l ++ x :: m), .ofList behind, ⟨?_, ?_, by omega, by omega⟩⟩
  · rw [hnumber, Nat.add_sub_cancel, Text.lines, List.getElem?_map, hline]
    rfl
  · simpa only [String.toList_ofList, hnumber] using his

theorem scan_line_bounds {source : String} {t : Token} (h : t ∈ scan source)
    (hkind : t.kind ≠ .whitespace) : 1 ≤ t.line ∧ t.line ≤ (Text.lines source).length := by
  obtain ⟨k, hk⟩ := List.mem_iff_getElem?.1 h
  obtain ⟨before, line, behind, hstarts⟩ := exists_startsIn hk hkind
  obtain ⟨hlt, -⟩ := List.getElem?_eq_some_iff.1 hstarts.listed
  have hline := scan_line hk
  omega

theorem parseSource_line_bounds {source : String} {f : Finding}
    (h : f ∈ (parseSource source).findings) :
    1 ≤ f.line ∧ f.line ≤ (Text.lines source).length := by
  obtain ⟨t, ht, hf⟩ := List.mem_filterMap.1 h
  obtain ⟨hmem, -⟩ := List.mem_filter.1 ((Parse.program_covers _).1.subset ht)
  obtain ⟨hscan, hkind⟩ := List.mem_filter.1 hmem
  rw [Token.finding?_line hf]
  refine scan_line_bounds hscan ?_
  intro hblank
  simp [hblank, Token.Kind.isTrivia] at hkind

theorem capped_line_bounds {index count : Nat} (h : index < count) :
    1 ≤ min (index + 1) maxLine ∧ min (index + 1) maxLine ≤ count := by
  unfold maxLine
  omega

theorem builtinFindings_line_bounds {c : Config} {source : String} {f : Finding}
    (h : f ∈ (builtinFindings c source).flatten) :
    1 ≤ f.line ∧ f.line ≤ (Text.lines source).length := by
  rcases mem_builtinFindings.1 h with h | ⟨-, h⟩ | ⟨-, h⟩
  · exact parseSource_line_bounds h
  · obtain ⟨o, index, fromInput, hindex, rfl⟩ := Arithmetic.exists_of_mem_scan h
    exact capped_line_bounds hindex
  · obtain ⟨s, -, index, hindex, rfl⟩ := CallShape.exists_of_mem_scan h
    exact capped_line_bounds hindex

/-- All detectors number lines the same way: a token that is not blank starts in the line of the
text that has its number, the numbered text shows that line behind that number, and every finding is
on a line of the text. -/
theorem detectors_share_lines (source : String) (h : source.toList.count '\n' < maxLine) :
    (∀ k t, (scan source)[k]? = some t → t.kind ≠ .whitespace →
      1 ≤ t.line ∧ t.line ≤ (Text.lines source).length ∧ t.line ≤ maxLine ∧
      ∃ before line behind,
        StartsIn source t ((Cursor.start source).after k).offset before line behind ∧
        ((Text.numbered source).toList.splitOn '\n')[t.line - 1]? =
          some (t.line.repr ++ ": " ++ line).toList) ∧
    ∀ c, ∀ f ∈ (audit c source []).findings,
      1 ≤ f.line ∧ f.line ≤ (Text.lines source).length ∧ f.line ≤ maxLine := by
  have hcount : (Text.lines source).length ≤ maxLine := by
    have := Text.length_linesOf_le source.toList
    simp only [Text.lines, List.length_map]
    omega
  constructor
  · intro k t ht hkind
    obtain ⟨hlow, hhigh⟩ := scan_line_bounds (List.mem_of_getElem? ht) hkind
    obtain ⟨before, line, behind, hstarts⟩ := exists_startsIn ht hkind
    have hpiece := Text.numbered_piece hstarts.listed
    rw [Nat.sub_add_cancel hlow] at hpiece
    exact ⟨hlow, hhigh, Nat.le_trans hhigh hcount, before, line, behind, hstarts, hpiece⟩
  · intro c f hf
    rw [audit_findings_nil] at hf
    obtain ⟨hlow, hhigh⟩ := builtinFindings_line_bounds (Finding.mem_of_mem_deduplicate hf)
    exact ⟨hlow, hhigh, Nat.le_trans hhigh hcount⟩

/-- A comment over two lines in front of a call, every line with a carriage return. -/
theorem detectors_share_lines_comment :
    "/*\r\n*/\r\n gets(b);".toList.count '\n' < maxLine ∧
      (scan "/*\r\n*/\r\n gets(b);")[2]? = some ⟨.identifier, "gets", 3⟩ ∧
      (∃ before line behind, StartsIn "/*\r\n*/\r\n gets(b);" ⟨.identifier, "gets", 3⟩
          ((Cursor.start "/*\r\n*/\r\n gets(b);").after 2).offset before line behind ∧
        ((Text.numbered "/*\r\n*/\r\n gets(b);").toList.splitOn '\n')[2]? =
          some ((3 : Nat).repr ++ ": " ++ line).toList) ∧
      ∀ c, ∀ f ∈ (audit c "/*\r\n*/\r\n gets(b);" []).findings, f.line ≤ 3 := by
  have hcount : "/*\r\n*/\r\n gets(b);".toList.count '\n' < maxLine := by decide
  have htoken : (scan "/*\r\n*/\r\n gets(b);")[2]? = some ⟨.identifier, "gets", 3⟩ := by
    decide +kernel
  obtain ⟨htokens, hfindings⟩ := detectors_share_lines _ hcount
  obtain ⟨-, -, -, hstarts⟩ := htokens 2 _ htoken (by decide)
  exact ⟨hcount, htoken, hstarts, fun c f hf => (hfindings c f hf).2.1⟩

end CAudit
