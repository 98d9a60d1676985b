import CAudit.Lexeme

/-! Lexemes lie inside the text. Every rule takes at most as many characters as there are, so the
lexeme that the first fitting rule gives is a part of the text that ends between two characters. -/
namespace CAudit.Lexeme
open Text

theorem blanks_le (cs : List Char) : blanks cs ≤ cs.length :=
  (List.takeWhile_sublist _).length_le

theorem blockComment_le (cs : List Char) : blockComment cs ≤ cs.length := by
  fun_induction blockComment cs with
  | case1 => simp
  | case2 => simp
  | case3 c cs _ ih =>
    simp only [List.length_cons]
    omega

theorem comment_le (cs : List Char) : comment cs ≤ cs.length := by
  fun_cases comment cs with
  | case1 cs =>
    have h := (List.takeWhile_sublist (l := cs) (· != '\n')).length_le
    simp only [List.length_cons]
    omega
  | case2 cs =>
    have h := blockComment_le cs
    simp only [List.length_cons]
    omega
  | case3 => simp

theorem directiveLine_le (cs : List Char) : directiveLine cs ≤ cs.length := by
  fun_induction directiveLine cs with
  | case1 => simp
  | case2 cs ih =>
    simp only [List.length_cons]
    omega
  | case3 cs ih =>
    simp only [List.length_cons]
    omega
  | case4 => simp
  | case5 c cs _ _ _ ih =>
    simp only [List.length_cons]
    omega

theorem directive_le (cs : List Char) : directive cs ≤ cs.length := by
  fun_cases directive cs with
  | case1 cs =>
    have h := directiveLine_le cs
    simp only [List.length_cons]
    omega
  | case2 => simp

theorem identifier_le (cs : List Char) : identifier cs ≤ cs.length := by
  unfold identifier name
  split
  · exact (List.takeWhile_sublist _).length_le
  · simp

theorem keyword_le (cs : List Char) : keyword cs ≤ cs.length := by
  fun_cases keyword cs with
  | case1 => exact identifier_le cs
  | case2 => simp

theorem digits_le (cs : List Char) : digits cs ≤ cs.length :=
  (List.takeWhile_sublist _).length_le

theorem hexNumber_le (cs : List Char) : hexNumber cs ≤ cs.length := by
  fun_cases hexNumber cs with
  | case1 x cs n _ =>
    have h : n ≤ cs.length := (List.takeWhile_sublist _).length_le
    simp only [List.length_cons]
    omega
  | case2 => simp
  | case3 => simp

theorem exponent_le (cs : List Char) : exponent cs ≤ cs.length := by
  fun_cases exponent cs with
  | case1 => simp
  | case2 e cs _ sign n hn =>
    -- digits behind the sign are there, so the sign is one of the characters
    have hd : n ≤ (cs.drop sign).length := digits_le _
    have hpos : n ≠ 0 := by simpa using hn
    simp only [List.length_drop, List.length_cons] at hd ⊢
    omega
  | case3 => simp
  | case4 => simp

theorem decimalNumber_le (cs : List Char) : decimalNumber cs ≤ cs.length := by
  have hw := digits_le cs
  fun_cases decimalNumber cs with
  | case1 => simp
  | case2 whole r hr part _ =>
    have hlen : cs.length - digits cs = r.length + 1 := by
      simpa using congrArg List.length hr
    have hp : part ≤ r.length := digits_le r
    have he := exponent_le (r.drop part)
    simp only [List.length_drop] at he
    omega
  | case3 => simp
  | case4 whole _ _ =>
    have he := exponent_le (cs.drop whole)
    simp only [List.length_drop] at he
    omega

theorem number_le (cs : List Char) : number cs ≤ cs.length := by
  fun_cases number cs with
  | case1 => simp
  | case2 hex n _ =>
    have hle : n ≤ cs.length := by
      have hx := hexNumber_le cs
      have hd := decimalNumber_le cs
      unfold n
      split <;> assumption
    have ht := (List.takeWhile_sublist (l := cs.drop n) isNumberSuffix).length_le
    simp only [List.length_drop] at ht
    omega

theorem closing?_le {quote : Char} {cs : List Char} {n : Nat} (h : closing? quote cs = some n) :
    n ≤ cs.length := by
  fun_induction closing? quote cs generalizing n with
  | case1 => simp at h
  | case2 => simp at h
  | case3 c cs _ ih =>
    obtain ⟨m, hm, rfl⟩ := Option.map_eq_some_iff.1 h
    have := ih hm
    simp only [List.length_cons]
    omega
  | case4 =>
    simp only [Option.some.injEq] at h
    simp only [List.length_cons]
    omega
  | case5 => simp at h
  | case6 c cs _ _ _ ih =>
    obtain ⟨m, hm, rfl⟩ := Option.map_eq_some_iff.1 h
    have := ih hm
    simp only [List.length_cons]
    omega

theorem literal_le (quote : Char) (cs : List Char) : literal quote cs ≤ cs.length := by
  fun_cases literal quote cs with
  | case1 cs =>
    cases h : closing? quote cs with
    | none => simp
    | some n =>
      have := closing?_le h
      simpa using this
  | case2 => simp
  | case3 => simp

theorem operator_le (cs : List Char) : operator cs ≤ cs.length := by
  unfold operator
  cases h : operators.find? fun o => o.toList.isPrefixOf cs with
  | none => simp
  | some o =>
    have hp : o.toList <+: cs := by simpa using List.find?_some h
    simpa [String.length_toList] using hp.length_le

theorem separator_le (cs : List Char) : separator cs ≤ cs.length := by
  fun_cases separator cs <;> simp

/-- No rule takes more than the text. -/
theorem rule_le {rule : Token.Kind × (List Char → Nat)} (h : rule ∈ rules) (cs : List Char) :
    rule.2 cs ≤ cs.length := by
  simp only [rules, List.mem_cons, List.not_mem_nil, or_false] at h
  rcases h with rfl | rfl | rfl | rfl | rfl | rfl | rfl | rfl | rfl | rfl
  · exact blanks_le cs
  · exact comment_le cs
  · exact directive_le cs
  · exact keyword_le cs
  · exact identifier_le cs
  · exact number_le cs
  · exact literal_le _ cs
  · exact literal_le _ cs
  · exact operator_le cs
  · exact separator_le cs

/-- Either a rule gives the lexeme, and those before it take nothing, or no rule takes anything. -/
theorem classify_cases (cs : List Char) :
    (∃ before rule behind, rules = before ++ rule :: behind ∧ (∀ r ∈ before, r.2 cs = 0) ∧
      rule.2 cs ≠ 0 ∧ classify cs = (rule.1, rule.2 cs)) ∨
    ((∀ r ∈ rules, r.2 cs = 0) ∧ classify cs = (.unknown, 1)) := by
  unfold classify
  cases h : rules.findSome? _ with
  | none =>
    right
    refine ⟨fun r hr => ?_, rfl⟩
    simpa using List.findSome?_eq_none_iff.1 h r hr
  | some found =>
    left
    obtain ⟨before, rule, behind, hsplit, hrule, hbefore⟩ := List.findSome?_eq_some_iff.1 h
    simp only [beq_iff_eq, Option.ite_none_left_eq_some, Option.some.injEq] at hrule
    refine ⟨before, rule, behind, hsplit, fun r hr => ?_, hrule.1, by simp [hrule.2]⟩
    simpa using hbefore r hr

theorem kind_ne_unknown {rule : Token.Kind × (List Char → Nat)} (h : rule ∈ rules) :
    rule.1 ≠ .unknown := by
  have hall : rules.all (·.1 ≠ .unknown) = true := rfl
  simpa using List.all_eq_true.1 hall rule h

/-- The lexeme of a kind is what the rule for that kind takes. -/
theorem rule_of_classify {kind : Token.Kind} {rule : List Char → Nat} (hrule : (kind, rule) ∈ rules)
    {cs : List Char} (h : (classify cs).1 = kind) : rule cs ≠ 0 ∧ (classify cs).2 = rule cs := by
  rcases classify_cases cs with ⟨before, found, behind, hsplit, -, hne, heq⟩ | ⟨-, heq⟩
  · have hkinds : rules.Pairwise fun r s => r.1 ≠ s.1 := by decide
    rw [heq] at h ⊢
    rw [hsplit] at hkinds hrule
    obtain ⟨-, hbehind, hbefore⟩ := List.pairwise_append.1 hkinds
    rcases List.mem_append.1 hrule with hmem | hmem
    · exact absurd h.symm (hbefore _ hmem found List.mem_cons_self)
    · rcases List.mem_cons.1 hmem with rfl | hmem
      · exact ⟨hne, rfl⟩
      · exact absurd h ((List.pairwise_cons.1 hbehind).1 _ hmem)
  · rw [heq] at h
    exact absurd h.symm (kind_ne_unknown hrule)

theorem unknown_of_classify {cs : List Char} (h : (classify cs).1 = .unknown) :
    (∀ rule ∈ rules, rule.2 cs = 0) ∧ (classify cs).2 = 1 := by
  rcases classify_cases cs with ⟨before, rule, behind, hsplit, -, -, heq⟩ | ⟨hzero, heq⟩
  · rw [heq] at h
    exact absurd h (kind_ne_unknown (by simp [hsplit]))
  · exact ⟨hzero, by rw [heq]⟩

theorem classify_of_blanks {cs : List Char} (h : blanks cs ≠ 0) :
    classify cs = (.whitespace, blanks cs) := by
  simp [classify, rules, h]

/-- Two texts have the same lexeme if every rule that takes no more than a bound from the first
takes the same from the second, and the lexeme of the first keeps to the bound. -/
theorem classify_congr {cs ds : List Char} {n : Nat} (hle : (classify cs).2 ≤ n)
    (h : ∀ rule ∈ rules, rule.2 cs ≤ n → rule.2 ds = rule.2 cs) : classify ds = classify cs := by
  unfold classify at hle ⊢
  generalize rules = rs at h hle
  induction rs with
  | nil => rfl
  | cons rule rs ih =>
    have hrule := h rule List.mem_cons_self
    simp only [List.findSome?_cons] at hle ⊢
    by_cases hzero : rule.2 cs = 0
    · have hds : rule.2 ds = 0 := by rw [hrule (by omega), hzero]
      simp only [hzero, hds, beq_self_eq_true, ↓reduceIte] at hle ⊢
      exact ih (fun r hr => h r (List.mem_cons_of_mem _ hr)) hle
    · simp only [beq_iff_eq, hzero, ↓reduceIte, Option.getD_some] at hle ⊢
      simp [hrule hle, hzero]

/-- The lexeme of a text that is not empty lies inside the text. -/
theorem classify_le {cs : List Char} (h : cs ≠ []) : (classify cs).2 ≤ cs.length := by
  rcases classify_cases cs with ⟨before, rule, behind, hsplit, -, -, heq⟩ | ⟨-, heq⟩
  · rw [heq]
    exact rule_le (by simp [hsplit]) cs
  · rw [heq]
    exact List.length_pos_iff.2 h

end CAudit.Lexeme
