import CAudit.Token.Role

/-! Which roles a token can play at once. -/
namespace CAudit.Token

variable {t : Token} {l : String}

theorem isSeparator_iff : t.isSeparator l = true ↔ t.kind = .separator ∧ t.lexeme = l := by
  simp [isSeparator, is]

theorem isKeyword_iff : t.isKeyword l = true ↔ t.kind = .keyword ∧ t.lexeme = l := by
  simp [isKeyword, is]

theorem keyword_kind (h : t.isKeyword l = true) : t.kind = .keyword := (isKeyword_iff.1 h).1

theorem keyword_lexeme (h : t.isKeyword l = true) : t.lexeme = l := (isKeyword_iff.1 h).2

theorem isOperator_iff : t.isOperator l = true ↔ t.kind = .operator ∧ t.lexeme = l := by
  simp [isOperator, is]

theorem isIdentifier_iff : t.isIdentifier = true ↔ t.kind = .identifier := by
  simp [isIdentifier]

theorem isTypeKeyword_iff :
    t.isTypeKeyword = true ↔ t.kind = .keyword ∧ t.lexeme ∈ typeKeywords := by
  simp [isTypeKeyword]

/-- A token that has some role other than an identifier's is no identifier. -/
theorem not_identifier_of_kind (h : t.kind ≠ .identifier) : t.isIdentifier = false := by
  simp [isIdentifier, h]

theorem not_identifier_of_separator (h : t.isSeparator l = true) : t.isIdentifier = false :=
  not_identifier_of_kind (by simp [(isSeparator_iff.1 h).1])

theorem not_identifier_of_typeKeyword (h : t.isTypeKeyword = true) : t.isIdentifier = false :=
  not_identifier_of_kind (by simp [(isTypeKeyword_iff.1 h).1])

theorem not_identifier_of_opensGroup (h : t.opensGroup = true) : t.isIdentifier = false := by
  rcases Bool.or_eq_true_iff.1 h with h | h
  · exact not_identifier_of_separator h
  · exact not_identifier_of_separator h

/-- Two separators with different lexemes. -/
theorem not_separator_of_separator {m : String} (h : t.isSeparator l = true) (hlm : l ≠ m) :
    t.isSeparator m = false := by
  obtain ⟨hk, hl⟩ := isSeparator_iff.1 h
  simp [isSeparator, is, hk, hl, hlm]

theorem endsExpression_of_separator (h : t.isSeparator l = true) :
    t.endsExpression = expressionEnds.contains l := by
  obtain ⟨hk, hl⟩ := isSeparator_iff.1 h
  simp [endsExpression, hk, hl]

theorem opensGroup_of_separator (h : t.isSeparator l = true) :
    t.opensGroup = (l == "(" || l == "[") := by
  obtain ⟨hk, hl⟩ := isSeparator_iff.1 h
  simp [opensGroup, isSeparator, is, hk, hl]

/-- An opening bracket does not end an expression. -/
theorem endsExpression_of_opensGroup (h : t.opensGroup = true) : t.endsExpression = false := by
  rcases Bool.or_eq_true_iff.1 h with h | h <;>
    simp [endsExpression_of_separator h, expressionEnds]

end CAudit.Token
