import CAudit.Proofs.CleanDeclaration

/-! Clean runs of the rules for flat statements, for conditions, and for lists of statements. A
list is read for any rule whose clean runs are statements; what comes next in the list begins with a
token that no statement could go on with. -/
namespace CAudit.Parse

open Grammar SyntaxTree

theorem clean_emptyStatement {t : Token} {ts rest : List Token} {o : Option SyntaxTree} :
    Clean emptyStatement (t :: ts) o rest ↔
      o = some (.node .emptyStatement [.leaf t]) ∧ ts = rest := by
  simp only [emptyStatement, clean_next, List.head?_cons, List.tail_cons, clean_pure]
  exact and_congr_left fun _ => eq_comm

theorem endsExpression_semicolon {s : Token} {rest : List Token}
    (hs : s.isSeparator ";" = true) : (s :: rest).head?.all (·.endsExpression) = true := by
  simp [Token.endsExpression_of_separator hs, Token.expressionEnds]

theorem clean_returnStatement {n : Nat} {k : Token} {ts rest : List Token}
    {o : Option SyntaxTree} :
    Clean (returnStatement n) (k :: ts) o rest ↔
      ∃ items semicolon, Items n false items ∧ semicolon.isSeparator ";" = true ∧
        ts = tokensAll items ++ semicolon :: rest ∧
        o = some (.node .returnStatement (.leaf k ::
          (if items.isEmpty then [] else [.node .expression items]) ++ [.leaf semicolon])) := by
  simp only [returnStatement, clean_next, List.head?_cons, List.tail_cons]
  rw [clean_bind]
  simp only [clean_expect, clean_pure, clean_expressionItems]
  constructor
  · rintro ⟨items, _, ⟨hi, rfl, -⟩, semicolon, _, rfl, hs, rfl, rfl⟩
    exact ⟨items, semicolon, hi, hs, rfl, rfl⟩
  · rintro ⟨items, semicolon, hi, hs, rfl, rfl⟩
    exact ⟨items, semicolon :: rest, ⟨hi, rfl, endsExpression_semicolon hs⟩, semicolon, rest, rfl,
      hs, rfl, rfl⟩

theorem clean_jumpStatement {k : Token} {ts rest : List Token} {o : Option SyntaxTree}
    (hk : (k.lexeme == "goto") = false) :
    Clean jumpStatement (k :: ts) o rest ↔
      ∃ semicolon, semicolon.isSeparator ";" = true ∧ ts = semicolon :: rest ∧
        o = some (.node .jumpStatement [.leaf k, .leaf semicolon]) := by
  have htarget : jumpTarget k = pure (some []) := by simp [jumpTarget, hk]
  simp only [jumpStatement, clean_next, List.head?_cons, List.tail_cons, htarget]
  rw [clean_bind]
  simp only [clean_pure]
  constructor
  · rintro ⟨_, _, ⟨rfl, rfl⟩, h⟩
    simp only [clean_expect, clean_pure] at h
    obtain ⟨semicolon, _, rfl, hs, rfl, rfl⟩ := h
    exact ⟨semicolon, hs, rfl, rfl⟩
  · rintro ⟨semicolon, hs, rfl, rfl⟩
    refine ⟨_, _, ⟨rfl, rfl⟩, ?_⟩
    simp only [clean_expect, clean_pure]
    exact ⟨semicolon, rest, rfl, hs, rfl, rfl⟩

theorem clean_goto {k : Token} {ts rest : List Token} {o : Option SyntaxTree}
    (hk : (k.lexeme == "goto") = true) :
    Clean jumpStatement (k :: ts) o rest ↔
      ∃ label semicolon, label.isIdentifier = true ∧ semicolon.isSeparator ";" = true ∧
        ts = label :: semicolon :: rest ∧
        o = some (.node .jumpStatement [.leaf k, .leaf label, .leaf semicolon]) := by
  simp only [jumpStatement, clean_next, List.head?_cons, List.tail_cons]
  rw [clean_bind]
  simp only [jumpTarget, hk, if_true, clean_expect, clean_pure]
  constructor
  · rintro ⟨_, _, ⟨label, _, rfl, hl, rfl, rfl⟩, h⟩
    simp only [clean_expect, clean_pure] at h
    obtain ⟨semicolon, _, rfl, hs, rfl, rfl⟩ := h
    exact ⟨label, semicolon, hl, hs, rfl, rfl⟩
  · rintro ⟨label, semicolon, hl, hs, rfl, rfl⟩
    refine ⟨_, _, ⟨label, _, rfl, hl, rfl, rfl⟩, ?_⟩
    simp only [clean_expect, clean_pure]
    exact ⟨semicolon, rest, rfl, hs, rfl, rfl⟩

theorem clean_labelStatement {k : Token} {ts rest : List Token} {o : Option SyntaxTree} :
    Clean labelStatement (k :: ts) o rest ↔
      ∃ run colon, (∀ t ∈ run, t.isSeparator ":" = false ∧ t.endsExpression = false) ∧
        colon.isSeparator ":" = true ∧ ts = run ++ colon :: rest ∧
        o = some (.node .labelStatement (.leaf k :: run.map .leaf ++ [.leaf colon])) := by
  simp only [labelStatement, clean_next, List.head?_cons, List.tail_cons, clean_spanWhile,
    clean_mention, clean_accept, clean_here, clean_note, clean_pure, and_false, or_false,
    Bool.and_eq_true, Bool.not_eq_true']
  constructor
  · rintro ⟨run, _, rfl, hr, -, colon, _, rfl, hc, rfl, rfl⟩
    exact ⟨run, colon, hr, hc, rfl, rfl⟩
  · rintro ⟨run, colon, hr, hc, rfl, rfl⟩
    exact ⟨run, colon :: rest, rfl, hr, by simp [hc], colon, rest, rfl, hc, rfl, rfl⟩

/-- A rule that gives pieces until it gives none, repeated. -/
theorem clean_many_pieces {p : Parse (Option (List SyntaxTree))}
    {Piece : List SyntaxTree → Prop} {stop : List Token → Prop} (follow : List Token → Prop)
    (hp : ∀ ts xs rest, Clean p ts (some xs) rest → rest.length < ts.length)
    (hstop : ∀ {ts rest}, Clean p ts none rest ↔ ts = rest ∧ stop ts)
    (hmore : ∀ {ts xs rest}, follow rest →
      (Clean p ts (some xs) rest ↔ Piece xs ∧ ts = tokensAll xs ++ rest))
    (hfollow : ∀ {xs rest}, Piece xs → follow (tokensAll xs ++ rest))
    {forest : List SyntaxTree} {ts rest : List Token} (hrest : follow rest) (hs : stop rest) :
    (∃ lists, lists.flatten = forest ∧ Clean (many p) ts lists rest) ↔
      Many Piece forest ∧ ts = tokensAll forest ++ rest := by
  simp only [clean_many_iff_loop]
  exact clean_loop_many follow (fun ts xs rest h => hp ts xs rest (clean_turn_more.1 h))
    (clean_turn_stop.trans hstop) (fun h => clean_turn_more.trans (hmore h)) hfollow hrest hs

theorem clean_nextExpression_none {n : Nat} {ts rest : List Token} :
    Clean (nextExpression n) ts none rest ↔
      ts = rest ∧ ts.head?.any (·.isSeparator ",") = false := by
  simp only [nextExpression, clean_accept, clean_bind (p := expression n .expression), clean_pure]
  constructor
  · rintro (⟨_, _, _, _, _, _, _, ⟨⟩, _⟩ | ⟨h, -, rfl⟩)
    exact ⟨rfl, h⟩
  · rintro ⟨rfl, h⟩
    exact .inr ⟨h, trivial, rfl⟩

theorem clean_nextExpression_some {n : Nat} {ts rest : List Token} {xs : List SyntaxTree} :
    Clean (nextExpression n) ts (some xs) rest ↔
      NextExpression n xs ∧ ts = tokensAll xs ++ rest ∧
        rest.head?.all (·.endsExpression) = true := by
  simp only [nextExpression, clean_accept, clean_bind (p := expression n .expression), clean_pure,
    clean_expression]
  constructor
  · rintro (⟨comma, _, rfl, hc, _, _, ⟨items, rfl, hi, rfl, hend⟩, ⟨⟩, rfl⟩ | ⟨-, ⟨⟩, -⟩)
    exact ⟨.mk hc hi, by simp, hend⟩
  · rintro ⟨@⟨comma, items, hc, hi⟩, rfl, hend⟩
    exact .inl ⟨comma, tokensAll items ++ rest, by simp, hc, _, rest,
      ⟨items, rfl, hi, rfl, hend⟩, rfl, rfl⟩

theorem nextExpression_endsExpression {n : Nat} {xs : List SyntaxTree} {rest : List Token}
    (h : NextExpression n xs) :
    (tokensAll xs ++ rest).head?.all (·.endsExpression) = true := by
  obtain ⟨hc, -⟩ := h
  simp [Token.endsExpression_of_separator hc, Token.expressionEnds]

theorem clean_nextExpressions {n : Nat} {ts rest : List Token} {more : List SyntaxTree}
    {semicolon : Token} (hs : semicolon.isSeparator ";" = true) :
    (∃ lists, lists.flatten = more ∧
        Clean (many (nextExpression n)) ts lists (semicolon :: rest)) ↔
      Many (NextExpression n) more ∧ ts = tokensAll more ++ semicolon :: rest := by
  refine clean_many_pieces (fun rest => rest.head?.all (·.endsExpression) = true) ?_
    clean_nextExpression_none ?_ nextExpression_endsExpression (endsExpression_semicolon hs) ?_
  · intro ts xs rest h
    obtain ⟨⟨_, _⟩, rfl, -⟩ := clean_nextExpression_some.1 h
    simp only [tokensAll_cons, tokens_leaf, List.cons_append, List.length_cons, List.length_append]
    omega
  · intro ts xs rest hend
    rw [clean_nextExpression_some]
    exact and_congr_right fun _ => and_iff_left hend
  · simp [Token.not_separator_of_separator (m := ",") hs]

theorem nextExpressions_endsExpression {n : Nat} {more : List SyntaxTree} {semicolon : Token}
    {rest : List Token} (hm : Many (NextExpression n) more)
    (hs : semicolon.isSeparator ";" = true) :
    (tokensAll more ++ semicolon :: rest).head?.all (·.endsExpression) = true := by
  cases hm with
  | nil => exact endsExpression_semicolon hs
  | cons h _ =>
    rw [tokensAll_append, List.append_assoc]
    exact nextExpression_endsExpression h

theorem clean_expressionStatement {n : Nat} {ts rest : List Token} {o : Option SyntaxTree} :
    Clean (expressionStatement n) ts o rest ↔
      ∃ items more semicolon, Items n false items ∧ Many (NextExpression n) more ∧
        semicolon.isSeparator ";" = true ∧
        ts = tokensAll items ++ (tokensAll more ++ semicolon :: rest) ∧
        o = some (.node .expressionStatement
          (.node .expression items :: more ++ [.leaf semicolon])) := by
  simp only [expressionStatement, clean_here]
  constructor
  · intro h
    obtain ⟨_, _, hfirst, h⟩ := clean_bind.1 h
    obtain ⟨items, rfl, hi, rfl, -⟩ := clean_expression.1 hfirst
    obtain ⟨lists, _, hl, h⟩ := clean_bind.1 h
    simp only [clean_accept, clean_note, clean_pure, and_false, or_false] at h
    obtain ⟨semicolon, _, rfl, hs, rfl, rfl⟩ := h
    obtain ⟨hmore, rfl⟩ := (clean_nextExpressions hs).1 ⟨lists, rfl, hl⟩
    exact ⟨items, lists.flatten, semicolon, hi, hmore, hs, rfl, rfl⟩
  · rintro ⟨items, more, semicolon, hi, hmore, hs, rfl, rfl⟩
    have hend := @nextExpressions_endsExpression n more semicolon rest hmore hs
    obtain ⟨lists, rfl, hl⟩ := (clean_nextExpressions hs).2 ⟨hmore, rfl⟩
    refine clean_bind.2 ⟨_, _, clean_expression.2 ⟨items, rfl, hi, rfl, hend⟩,
      clean_bind.2 ⟨lists, _, hl, ?_⟩⟩
    simp only [clean_accept, clean_note, clean_pure, and_false, or_false]
    exact ⟨semicolon, rest, rfl, hs, rfl, rfl⟩

theorem clean_condition {k : Token} {ts rest : List Token} {xs : List SyntaxTree} :
    Clean (condition k) ts xs rest ↔
      ∃ run closer, Condition run ∧ closer.isSeparator ")" = true ∧ ts = run ++ closer :: rest ∧
        xs = [.node .condition (run.map .leaf), .leaf closer] := by
  simp only [condition, clean_spanFrom, clean_mention, clean_accept, clean_note, clean_pure,
    and_false, or_false]
  constructor
  · rintro ⟨run, depth, _, rfl, hrun, hstop, closer, _, rfl, hc, rfl, rfl⟩
    -- The closing parenthesis ends the run only where no other one is open.
    have hstop : conditionStep depth closer = none := hstop
    obtain rfl : depth = 0 := by
      by_cases h0 : depth = 0
      · exact h0
      · simp [conditionStep, hc, h0] at hstop
    exact ⟨run, closer, foldlM_conditionStep.1 hrun, hc, rfl, rfl⟩
  · rintro ⟨run, closer, hr, hc, rfl, rfl⟩
    exact ⟨run, 0, closer :: rest, rfl, foldlM_conditionStep.2 hr,
      by simp [StopsAt, conditionStep, hc], closer, rest, rfl, hc, rfl, rfl⟩

/-- What a token that begins a statement is not. -/
structure Begins (t : Token) : Prop where
  notCloser : t.isSeparator "\x7d" = false
  notElse : t.isKeyword "else" = false
  notDirective : t.isDirective = false

theorem begins_separator {t : Token} {l : String} (h : t.isSeparator l = true) (hl : l ≠ "\x7d") :
    Begins t := by
  obtain ⟨hk, rfl⟩ := Token.isSeparator_iff.1 h
  constructor <;> simp [Token.isSeparator, Token.isKeyword, Token.is, Token.isDirective, hk, hl]

theorem begins_keyword {t : Token} (hk : t.kind = .keyword) (hl : t.lexeme ≠ "else") :
    Begins t := by
  constructor <;> simp [Token.isSeparator, Token.isKeyword, Token.is, Token.isDirective, hk, hl]

theorem begins_expression {t : Token} (h : t.startsExpression = true) : Begins t := by
  cases hk : t.kind <;> simp only [Token.startsExpression, hk, beq_iff_eq, reduceCtorEq] at h <;>
    constructor <;> simp [Token.isSeparator, Token.isKeyword, Token.is, Token.isDirective, hk, h]

theorem notBrace_expression {t : Token} (h : t.startsExpression = true) :
    t.isSeparator "\x7b" = false := by
  cases hk : t.kind <;> simp only [Token.startsExpression, hk, beq_iff_eq, reduceCtorEq] at h <;>
    simp [Token.isSeparator, Token.is, hk, h]

theorem notBrace_keyword {t : Token} (hk : t.kind = .keyword) : t.isSeparator "\x7b" = false := by
  simp [Token.isSeparator, Token.is, hk]

theorem typeSpec_first {type : List Token} (h : TypeSpec type) :
    ∃ k us, type = k :: us ∧ k.isTypeKeyword = true := by
  obtain ⟨hne, hw, -, -⟩ := h
  cases hw with
  | nil => exact absurd rfl hne
  | keyword hk _ => exact ⟨_, _, rfl, hk⟩

theorem isControl_iff {k : Token} :
    isControl k = true ↔ k.kind = .keyword ∧ k.lexeme ∈ Token.controlKeywords := by
  simp [isControl]

/-- A construct begins with a brace exactly when it is a block. -/
theorem construct_first {n : Nat} {b : SyntaxTree} (h : Grammar.Construct n b) :
    ∃ t us, b.tokens = t :: us ∧ Begins t ∧
      (t.isSeparator "\x7b" = true ↔ ∃ inner, b = .node .block inner) := by
  have hkeyword {k : Token} {l : String} (hk : k.isKeyword l = true) (hl : l ≠ "else") :
      Begins k ∧ k.isSeparator "\x7b" = false := by
    obtain ⟨hkind, rfl⟩ := Token.isKeyword_iff.1 hk
    exact ⟨begins_keyword hkind hl, notBrace_keyword hkind⟩
  have hcontrol {k : Token} (hk : isControl k = true) :
      Begins k ∧ k.isSeparator "\x7b" = false := by
    obtain ⟨hk, hl⟩ := isControl_iff.1 hk
    refine ⟨begins_keyword hk fun h => ?_, notBrace_keyword hk⟩
    simp [h, Token.controlKeywords] at hl
  cases h with
  | block hb =>
    obtain ⟨ho, -, -⟩ := hb
    exact ⟨_, _, rfl, begins_separator ho (by decide), by simp [ho]⟩
  | empty hs =>
    exact ⟨_, _, rfl, begins_separator hs (by decide),
      by simp [Token.not_separator_of_separator (m := "\x7b") hs]⟩
  | returnNothing hk _ => exact ⟨_, _, rfl, (hkeyword hk (by decide)).1, by simp [hkeyword hk]⟩
  | returnValue hk _ _ _ => exact ⟨_, _, rfl, (hkeyword hk (by decide)).1, by simp [hkeyword hk]⟩
  | jump hk _ =>
    rcases hk with hk | hk <;>
      exact ⟨_, _, rfl, (hkeyword hk (by decide)).1, by simp [hkeyword hk]⟩
  | goto hk _ _ => exact ⟨_, _, rfl, (hkeyword hk (by decide)).1, by simp [hkeyword hk]⟩
  | label hk _ _ =>
    rcases hk with hk | hk <;>
      exact ⟨_, _, by simp; rfl, (hkeyword hk (by decide)).1, by simp [hkeyword hk]⟩
  | control hk _ _ _ _ => exact ⟨_, _, rfl, (hcontrol hk).1, by simp [hcontrol hk]⟩
  | ifElse hk _ _ _ _ _ _ _ =>
    exact ⟨_, _, rfl, (hkeyword hk (by decide)).1, by simp [hkeyword hk]⟩
  | doWhile hk _ _ _ _ _ _ =>
    exact ⟨_, _, rfl, (hkeyword hk (by decide)).1, by simp [hkeyword hk]⟩
  | declaration ht _ _ _ =>
    obtain ⟨k, us, rfl, hk⟩ := typeSpec_first ht
    obtain ⟨hk, hl⟩ := Token.isTypeKeyword_iff.1 hk
    refine ⟨k, _, by simp; rfl, begins_keyword hk fun h => ?_, by simp [notBrace_keyword hk]⟩
    simp [h, Token.typeKeywords] at hl
  | expression ht _ _ _ =>
    exact ⟨_, _, rfl, begins_expression ht, by simp [notBrace_expression ht]⟩

theorem statement_first {n : Nat} {b : SyntaxTree} (h : Statement n b) :
    ∃ t us, b.tokens = t :: us ∧ Begins t := by
  obtain ⟨hc⟩ := h
  obtain ⟨t, us, htokens, ht, -⟩ := construct_first hc
  exact ⟨t, us, by simpa using htokens, ht⟩

/-- No `else` follows a tree that ends in an `if` without one. -/
def NoDangling (b : SyntaxTree) (rest : List Token) : Prop :=
  EndsOpen b → rest.head?.any (·.isKeyword "else") = false

/-- The clean runs of a rule are the statements of `n` levels. -/
def RunsStatements (n : Nat) (p : Parse (Option SyntaxTree)) : Prop :=
  ∀ {ts rest : List Token} {o : Option SyntaxTree}, Clean p ts o rest ↔
    ts = [] ∧ o = none ∧ rest = [] ∨
      ∃ b, o = some b ∧ Statement n b ∧ ts = b.tokens ++ rest ∧ NoDangling b rest

theorem clean_statementItem_none {p : Parse (Option SyntaxTree)} {ts rest : List Token} :
    Clean (statementItem p) ts none rest ↔
      ts = rest ∧ ts.head?.all (·.isSeparator "\x7d") = true := by
  simp only [statementItem, clean_peek]
  cases ts with
  | nil => simp [clean_pure]
  | cons t ts => by_cases h : t.isSeparator "\x7d" = true <;> simp [h, clean_pure, clean_map]

theorem clean_statementItem_some {n : Nat} {p : Parse (Option SyntaxTree)}
    (hp : RunsStatements n p) {ts rest : List Token} {xs : List SyntaxTree} :
    Clean (statementItem p) ts (some xs) rest ↔
      ∃ b, xs = [b] ∧ Statement n b ∧ ts = b.tokens ++ rest ∧ NoDangling b rest := by
  simp only [statementItem, clean_peek]
  constructor
  · intro h
    cases ts with
    | nil => simp [clean_pure] at h
    | cons t ts =>
      by_cases hc : t.isSeparator "\x7d" = true
      · simp [hc, clean_pure] at h
      · simp only [List.head?_cons, hc, if_false, clean_map, Bool.false_eq_true] at h
        obtain ⟨o, ⟨⟩, h⟩ := h
        obtain ⟨⟨⟩, -⟩ | ⟨b, rfl, hb, hts, hd⟩ := hp.1 ((clean_advancing (by simp)).1 h).1
        exact ⟨b, rfl, hb, hts, hd⟩
  · rintro ⟨b, rfl, hb, rfl, hd⟩
    obtain ⟨t, us, htokens, ht⟩ := statement_first hb
    have hclean : Clean p (b.tokens ++ rest) (some b) rest := hp.2 (.inr ⟨b, rfl, hb, rfl, hd⟩)
    rw [htokens] at hclean ⊢
    simp only [List.cons_append, List.head?_cons, ht.notCloser, Bool.false_eq_true, if_false,
      clean_map]
    refine ⟨some b, rfl, (clean_advancing (by simp)).2 ⟨hclean, ?_⟩⟩
    simp only [List.length_cons, List.length_append]
    omega

theorem many_singletons {P : SyntaxTree → Prop} {forest : List SyntaxTree} :
    Many (fun xs => ∃ b, xs = [b] ∧ P b) forest ↔ ∀ b ∈ forest, P b := by
  constructor
  · intro h
    induction h with
    | nil => nofun
    | cons hx _ ih =>
      obtain ⟨b, rfl, hb⟩ := hx
      simpa using ⟨hb, ih⟩
  · intro h
    induction forest with
    | nil => exact .nil
    | cons b forest ih =>
      obtain ⟨hb, hf⟩ := List.forall_mem_cons.1 h
      exact Many.cons ⟨b, rfl, hb⟩ (ih hf)

theorem clean_statements {n : Nat} {p : Parse (Option SyntaxTree)} (hp : RunsStatements n p)
    {ts rest : List Token} {forest : List SyntaxTree} {closer : Token}
    (hc : closer.isSeparator "\x7d" = true) :
    Clean (statements p) ts forest (closer :: rest) ↔
      (∀ b ∈ forest, Statement n b) ∧ ts = tokensAll forest ++ closer :: rest := by
  have hstop : (closer :: rest).head?.any (·.isKeyword "else") = false := by
    simp [Token.isKeyword, Token.is, (Token.isSeparator_iff.1 hc).1]
  simp only [statements, clean_map, eq_comm (a := forest)]
  rw [← many_singletons]
  refine clean_many_pieces (fun rest => rest.head?.any (·.isKeyword "else") = false) ?_
    clean_statementItem_none ?_ ?_ hstop (by simp [hc])
  · intro ts xs rest h
    obtain ⟨b, rfl, hb, rfl, -⟩ := (clean_statementItem_some hp).1 h
    obtain ⟨t, us, htokens, -⟩ := statement_first hb
    simp only [htokens, List.cons_append, List.length_cons, List.length_append]
    omega
  · intro ts xs rest hrest
    rw [clean_statementItem_some hp]
    constructor
    · rintro ⟨b, rfl, hb, rfl, -⟩
      exact ⟨⟨b, rfl, hb⟩, by simp⟩
    · rintro ⟨⟨b, rfl, hb⟩, rfl⟩
      exact ⟨b, rfl, hb, by simp, fun _ => hrest⟩
  · rintro _ rest ⟨b, rfl, hb⟩
    obtain ⟨t, us, htokens, ht⟩ := statement_first hb
    simp [htokens, ht.notElse]

theorem clean_block {n : Nat} {p : Parse (Option SyntaxTree)} (hp : RunsStatements n p)
    {opener : Token} {ts rest : List Token} {b : SyntaxTree}
    (ho : opener.isSeparator "\x7b" = true) :
    Clean (block p) (opener :: ts) b rest ↔ Block n b ∧ opener :: ts = b.tokens ++ rest := by
  simp only [block, clean_here]
  rw [clean_accept, exists_cons_eq]
  simp only [ho, List.head?_cons, Option.any_some, Bool.true_eq_false, false_and, or_false,
    true_and]
  rw [clean_bind]
  simp only [clean_accept, clean_note, clean_pure, and_false, or_false]
  constructor
  · rintro ⟨forest, _, hf, closer, _, rfl, hc, rfl, rfl⟩
    obtain ⟨hall, rfl⟩ := (clean_statements hp hc).1 hf
    exact ⟨.mk ho hall hc, by simp [leaves]⟩
  · rintro ⟨@⟨_, opener', closer, forest, ho', hall, hc⟩, hts⟩
    obtain ⟨rfl, rfl⟩ : opener = opener' ∧ ts = tokensAll forest ++ closer :: rest := by
      simpa using hts
    exact ⟨forest, closer :: rest, (clean_statements hp hc).2 ⟨hall, rfl⟩, closer, rest, rfl, hc,
      by simp [leaves], rfl⟩

end CAudit.Parse
