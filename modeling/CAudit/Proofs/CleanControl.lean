import CAudit.Proofs.CleanStatement

/-! Clean runs of the rules for control structures, and of the rule for statements as a whole: they
are the derivations of the grammar, where no `else` follows a statement that ends in an `if` without
one. -/
namespace CAudit.Parse

open Grammar SyntaxTree

theorem block_not_endsOpen {n : Nat} {b : SyntaxTree} (h : Block n b) : ¬ EndsOpen b := by
  obtain ⟨-, -, -⟩ := h
  nofun

theorem block_first {n : Nat} {b : SyntaxTree} (h : Block n b) :
    ∃ t us, b.tokens = t :: us ∧ t.isSeparator "\x7b" = true := by
  obtain ⟨ho, -, -⟩ := h
  exact ⟨_, _, rfl, ho⟩

theorem endsOpen_statement {b : SyntaxTree} : EndsOpen (.node .statement [b]) ↔ EndsOpen b := by
  constructor
  · rintro ⟨h⟩
    exact h
  · exact .statement

/-- The first token of a body tells a block from a single statement. -/
theorem body_iff {n : Nat} {b : SyntaxTree} {t : Token} {us : List Token}
    (htokens : b.tokens = t :: us) :
    Body n b ↔ if t.isSeparator "\x7b" then ∃ m, n = m + 1 ∧ Block m b else Statement n b := by
  constructor
  · rintro (@⟨m, _, hb⟩ | @⟨_, c, hc, hb⟩)
    · obtain ⟨u, vs, hu, ho⟩ := block_first hb
      obtain ⟨rfl, rfl⟩ := List.cons.inj (htokens.symm.trans hu)
      rw [if_pos ho]
      exact ⟨m, rfl, hb⟩
    · obtain ⟨hconstruct⟩ := id hb
      obtain ⟨u, vs, hu, -, hbrace⟩ := construct_first hconstruct
      obtain ⟨rfl, rfl⟩ : t = u ∧ us = vs := by simpa [hu, eq_comm] using htokens
      rw [if_neg fun ho => (hbrace.1 ho).elim hc]
      exact hb
  · split
    · rintro ⟨m, rfl, hb⟩
      exact .braced hb
    · rename_i ho
      rintro ⟨hconstruct⟩
      obtain ⟨u, vs, hu, -, hbrace⟩ := construct_first hconstruct
      obtain ⟨rfl, rfl⟩ : t = u ∧ us = vs := by simpa [hu, eq_comm] using htokens
      exact .single (fun inner h => ho (hbrace.2 ⟨inner, h⟩)) (.mk hconstruct)

theorem body_first {n : Nat} {b : SyntaxTree} (h : Body n b) : ∃ t us, b.tokens = t :: us := by
  rcases h with hb | ⟨-, hb⟩
  · obtain ⟨t, us, htokens, -⟩ := block_first hb
    exact ⟨t, us, htokens⟩
  · obtain ⟨t, us, htokens, -⟩ := statement_first hb
    exact ⟨t, us, htokens⟩

theorem clean_noteLimit {β : Type} {f : Unit → Parse β} {ts rest : List Token} {b : β} :
    ¬ Clean (noteLimit >>= f) ts b rest := by
  simp [Clean, bind_apply, noteLimit, here, note, andThen]

theorem clean_body {n : Nat} (hs : ∀ m ≤ n, RunsStatements m (statement m)) {kw : String}
    {ts rest : List Token} {bs : List SyntaxTree} :
    Clean (body (nested n) kw) ts bs rest ↔
      ∃ b, bs = [b] ∧ Body n b ∧ ts = b.tokens ++ rest ∧ NoDangling b rest := by
  simp only [body, clean_peek]
  cases ts with
  | nil =>
    simp only [List.head?_nil, clean_note, false_iff]
    rintro ⟨b, -, hb, hts, -⟩
    obtain ⟨t, us, htokens⟩ := body_first hb
    simp [htokens] at hts
  | cons t ts =>
    -- In every body that starts here the first token is `t`.
    have hiff {b : SyntaxTree} (hb : ∃ u us, b.tokens = u :: us)
        (hts : t :: ts = b.tokens ++ rest) :
        Body n b ↔
          if t.isSeparator "\x7b" then ∃ m, n = m + 1 ∧ Block m b else Statement n b := by
      obtain ⟨u, us, htokens⟩ := hb
      obtain ⟨rfl, -⟩ : t = u ∧ ts = us ++ rest := by simpa [htokens] using hts
      exact body_iff htokens
    simp only [List.head?_cons]
    by_cases ho : t.isSeparator "\x7b" = true
    · simp only [ho, if_true] at hiff ⊢
      cases n with
      | zero =>
        simp only [nested, clean_noteLimit, false_iff]
        rintro ⟨b, -, hb, hts, -⟩
        obtain ⟨m, hm, -⟩ := (hiff (body_first hb) hts).1 hb
        omega
      | succ m =>
        simp only [nested, clean_map, clean_block (hs m (Nat.le_succ m)) ho]
        constructor
        · rintro ⟨b, rfl, hb, hts⟩
          exact ⟨b, rfl, .braced hb, hts, fun h => absurd h (block_not_endsOpen hb)⟩
        · rintro ⟨b, rfl, hb, hts, -⟩
          obtain ⟨_, ⟨⟩, hb⟩ := (hiff (body_first hb) hts).1 hb
          exact ⟨b, rfl, hb, hts⟩
    · simp only [ho, if_false, Bool.false_eq_true] at hiff ⊢
      rw [clean_map]
      constructor
      · rintro ⟨o, rfl, h⟩
        obtain ⟨⟨⟩, -⟩ | ⟨b, rfl, hb, hts, hd⟩ := (hs n (Nat.le_refl n)).1 h
        obtain ⟨u, us, htokens, -⟩ := statement_first hb
        exact ⟨b, rfl, (hiff ⟨u, us, htokens⟩ hts).2 hb, hts, hd⟩
      · rintro ⟨b, rfl, hb, hts, hd⟩
        have hb := (hiff (body_first hb) hts).1 hb
        exact ⟨some b, rfl, (hs n (Nat.le_refl n)).2 (.inr ⟨b, rfl, hb, hts, hd⟩)⟩

theorem clean_elseBranch {n : Nat} (hs : ∀ m ≤ n, RunsStatements m (statement m)) {k : Token}
    {ts rest : List Token} {bs : List SyntaxTree} :
    Clean (elseBranch (nested n) k) ts bs rest ↔
      (k.lexeme = "if" ∧ ∃ other b, other.isKeyword "else" = true ∧ bs = [.leaf other, b] ∧
        Body n b ∧ ts = other :: (b.tokens ++ rest) ∧ NoDangling b rest) ∨
      (k.lexeme = "if" → ts.head?.any (·.isKeyword "else") = false) ∧ bs = [] ∧ ts = rest := by
  by_cases hk : k.lexeme = "if"
  · simp only [elseBranch, hk, beq_self_eq_true, if_true, clean_accept, clean_map, clean_body hs,
      clean_pure, true_and, forall_const]
    constructor
    · rintro (⟨other, _, rfl, he, _, rfl, b, rfl, hb, rfl, hd⟩ | ⟨he, rfl, rfl⟩)
      · exact .inl ⟨other, b, he, rfl, hb, rfl, hd⟩
      · exact .inr ⟨he, rfl, rfl⟩
    · rintro (⟨other, b, he, rfl, hb, rfl, hd⟩ | ⟨he, rfl, rfl⟩)
      · exact .inl ⟨other, _, rfl, he, _, rfl, b, rfl, hb, rfl, hd⟩
      · exact .inr ⟨he, rfl, rfl⟩
  · simp only [elseBranch, beq_iff_eq, hk, if_false, clean_pure, false_and, false_or,
      false_implies, true_and]
    exact and_congr_left fun _ => eq_comm

/-- A control structure without an `else` part ends in its body, and is open if it is an `if`. -/
theorem endsOpen_control {k : Token} {opener cond closer b : SyntaxTree} :
    EndsOpen (.node .controlStructure [.leaf k, opener, cond, closer, b]) ↔
      k.isKeyword "if" = true ∨ EndsOpen b := by
  constructor
  · intro h
    generalize htree : SyntaxTree.node .controlStructure [.leaf k, opener, cond, closer, b] = tree
      at h
    cases h with
    | statement _ => simp at htree
    | noElse hk =>
      simp only [SyntaxTree.node.injEq, List.cons.injEq, SyntaxTree.leaf.injEq, true_and] at htree
      exact .inl (htree.1 ▸ hk)
    | @last front c hc =>
      have hlast := congrArg List.getLast? (SyntaxTree.node.inj htree).2
      obtain rfl : b = c := by simpa using hlast
      exact .inr hc
  · rintro (hk | hb)
    · exact .noElse hk
    · exact @EndsOpen.last [.leaf k, opener, cond, closer] b hb

/-- A longer control structure is open only if its last part is. -/
theorem endsOpen_long {x₁ x₂ x₃ x₄ x₅ x₆ b : SyntaxTree} :
    EndsOpen (.node .controlStructure [x₁, x₂, x₃, x₄, x₅, x₆, b]) ↔ EndsOpen b := by
  constructor
  · intro h
    generalize htree : SyntaxTree.node .controlStructure [x₁, x₂, x₃, x₄, x₅, x₆, b] = tree at h
    cases h with
    | statement _ => simp at htree
    | noElse _ => simp at htree
    | @last front c hc =>
      have hlast := congrArg List.getLast? (SyntaxTree.node.inj htree).2
      obtain rfl : b = c := by simpa using hlast
      exact hc
  · exact @EndsOpen.last [x₁, x₂, x₃, x₄, x₅, x₆] b

theorem clean_controlStructure {n : Nat} (hs : ∀ m ≤ n, RunsStatements m (statement m))
    {k : Token} {ts rest : List Token} {o : Option SyntaxTree} :
    Clean (controlStructure (nested n)) (k :: ts) o rest ↔
      ∃ opener run closer b other, opener.isSeparator "(" = true ∧ Condition run ∧
        closer.isSeparator ")" = true ∧ Body n b ∧
        (∃ mid, ts = opener :: (run ++ closer :: (b.tokens ++ mid)) ∧ NoDangling b mid ∧
          Clean (elseBranch (nested n) k) mid other rest) ∧
        o = some (.node .controlStructure (.leaf k :: .leaf opener ::
          .node .condition (run.map .leaf) :: .leaf closer :: b :: other)) := by
  simp only [controlStructure, clean_next, List.head?_cons, List.tail_cons, clean_expect]
  constructor
  · rintro ⟨opener, _, rfl, ho, h⟩
    obtain ⟨_, _, hcond, hmain⟩ := clean_bind.1 h
    obtain ⟨run, closer, hr, hc, rfl, rfl⟩ := clean_condition.1 hcond
    obtain ⟨_, mid, hbody, helse⟩ := clean_bind.1 hmain
    obtain ⟨b, rfl, hb, rfl, hd⟩ := (clean_body hs).1 hbody
    obtain ⟨other, _, hother, hend⟩ := clean_bind.1 helse
    obtain ⟨rfl, rfl⟩ := clean_pure.1 hend
    exact ⟨opener, run, closer, b, other, ho, hr, hc, hb, ⟨mid, rfl, hd, hother⟩, rfl⟩
  · rintro ⟨opener, run, closer, b, other, ho, hr, hc, hb, ⟨mid, rfl, hd, hother⟩, rfl⟩
    refine ⟨opener, _, rfl, ho, clean_bind.2
      ⟨_, _, clean_condition.2 ⟨run, closer, hr, hc, rfl, rfl⟩, ?_⟩⟩
    refine clean_bind.2 ⟨[b], mid, (clean_body hs).2 ⟨b, rfl, hb, rfl, hd⟩, ?_⟩
    exact clean_bind.2 ⟨other, rest, hother, clean_pure.2 ⟨rfl, rfl⟩⟩

theorem clean_doWhile {n : Nat} (hs : ∀ m ≤ n, RunsStatements m (statement m)) {k : Token}
    {ts rest : List Token} {o : Option SyntaxTree} :
    Clean (doWhile (nested n)) (k :: ts) o rest ↔
      ∃ b while_ opener run closer semicolon, Body n b ∧ while_.isKeyword "while" = true ∧
        opener.isSeparator "(" = true ∧ Condition run ∧ closer.isSeparator ")" = true ∧
        semicolon.isSeparator ";" = true ∧
        ts = b.tokens ++ while_ :: opener :: (run ++ closer :: semicolon :: rest) ∧
        o = some (.node .controlStructure [.leaf k, b, .leaf while_, .leaf opener,
          .node .condition (run.map .leaf), .leaf closer, .leaf semicolon]) := by
  simp only [doWhile, clean_next, List.head?_cons, List.tail_cons]
  constructor
  · intro h
    obtain ⟨_, _, hbody, hwhile⟩ := clean_bind.1 h
    obtain ⟨b, rfl, hb, rfl, -⟩ := (clean_body hs).1 hbody
    simp only [clean_accept, clean_here, clean_note, and_false, or_false, clean_expect] at hwhile
    obtain ⟨while_, _, rfl, hw, opener, _, rfl, ho, hafter⟩ := hwhile
    obtain ⟨_, _, hcond, hend⟩ := clean_bind.1 hafter
    obtain ⟨run, closer, hr, hc, rfl, rfl⟩ := clean_condition.1 hcond
    simp only [clean_expect, clean_pure] at hend
    obtain ⟨semicolon, _, rfl, hsemi, rfl, rfl⟩ := hend
    exact ⟨b, while_, opener, run, closer, semicolon, hb, hw, ho, hr, hc, hsemi, rfl, rfl⟩
  · rintro ⟨b, while_, opener, run, closer, semicolon, hb, hw, ho, hr, hc, hsemi, rfl, rfl⟩
    -- The token behind the body is `while`, so no `else` can follow it.
    have hd : NoDangling b (while_ :: opener :: (run ++ closer :: semicolon :: rest)) := by
      intro _
      simp [Token.isKeyword, Token.is, (Token.isKeyword_iff.1 hw).2]
    refine clean_bind.2 ⟨[b], _, (clean_body hs).2 ⟨b, rfl, hb, rfl, hd⟩, ?_⟩
    simp only [clean_accept, clean_here, clean_note, and_false, or_false, clean_expect]
    refine ⟨while_, _, rfl, hw, opener, _, rfl, ho,
      clean_bind.2 ⟨_, _, clean_condition.2 ⟨run, closer, hr, hc, rfl, rfl⟩, ?_⟩⟩
    simp only [clean_expect, clean_pure]
    exact ⟨semicolon, rest, rfl, hsemi, rfl, rfl⟩

/-- The rule that a keyword selects. -/
theorem construct_keyword {inner : Nested} {k : Token} (hk : k.kind = .keyword) :
    construct inner k =
      if k.lexeme == "return" then returnStatement inner.room
      else if k.lexeme == "do" then doWhile inner
      else if k.lexeme == "break" || k.lexeme == "continue" || k.lexeme == "goto" then
        jumpStatement
      else if k.lexeme == "case" || k.lexeme == "default" then labelStatement
      else if Token.controlKeywords.contains k.lexeme then controlStructure inner
      else if k.isTypeKeyword then declaration inner.room
      else if k.startsExpression then expressionStatement inner.room
      else skipUnhandled k := by
  simp [construct, hk, Token.isSeparator, Token.is]

theorem not_clean_skipUnhandled {t : Token} {ts rest : List Token} {o : Option SyntaxTree} :
    ¬ Clean (skipUnhandled t) ts o rest := by
  simp [skipUnhandled, clean_note]

/-- A run from the front of `ts` gives a construct of `n` levels. -/
def GivesConstruct (n : Nat) (ts : List Token) (o : Option SyntaxTree) (rest : List Token) : Prop :=
  ∃ b, o = some b ∧ Grammar.Construct n b ∧ ts = b.tokens ++ rest ∧ NoDangling b rest

theorem controlStructure_gives {n : Nat} (hs : ∀ m ≤ n, RunsStatements m (statement m)) {k : Token}
    {ts rest : List Token} {o : Option SyntaxTree} (hk : isControl k = true)
    (h : Clean (controlStructure (nested n)) (k :: ts) o rest) :
    GivesConstruct n (k :: ts) o rest := by
  obtain ⟨opener, run, closer, b, other, ho, hr, hc, hb, ⟨mid, rfl, hd, hother⟩, rfl⟩ :=
    (clean_controlStructure hs).1 h
  have hif (h : k.lexeme = "if") : k.isKeyword "if" = true :=
    Token.isKeyword_iff.2 ⟨(isControl_iff.1 hk).1, h⟩
  obtain ⟨hlex, e, b', he, rfl, hb', rfl, hd'⟩ | ⟨hno, rfl, rfl⟩ := (clean_elseBranch hs).1 hother
  · -- An `else` follows the first body, so that body is not open.
    have hclosed : ¬ EndsOpen b := fun hopen => by simpa [he] using hd hopen
    exact ⟨_, rfl, .ifElse (hif hlex) ho hr hc hb hclosed he hb', by simp,
      fun h => hd' (endsOpen_long.1 h)⟩
  · refine ⟨_, rfl, .control hk ho hr hc hb, by simp, fun h => ?_⟩
    rcases endsOpen_control.1 h with hk | hopen
    · exact hno (Token.isKeyword_iff.1 hk).2
    · exact hd hopen

theorem doWhile_gives {n : Nat} (hs : ∀ m ≤ n, RunsStatements m (statement m)) {k : Token}
    {ts rest : List Token} {o : Option SyntaxTree} (hk : k.isKeyword "do" = true)
    (h : Clean (doWhile (nested n)) (k :: ts) o rest) : GivesConstruct n (k :: ts) o rest := by
  obtain ⟨b, while_, opener, run, closer, semicolon, hb, hw, ho, hr, hc, hsemi, rfl, rfl⟩ :=
    (clean_doWhile hs).1 h
  refine ⟨_, rfl, .doWhile hk hb hw ho hr hc hsemi, by simp, fun h => ?_⟩
  nomatch endsOpen_long.1 h

theorem returnStatement_gives {n : Nat} {k : Token} {ts rest : List Token} {o : Option SyntaxTree}
    (hk : k.isKeyword "return" = true) (h : Clean (returnStatement n) (k :: ts) o rest) :
    GivesConstruct n (k :: ts) o rest := by
  obtain ⟨items, semicolon, hi, hsemi, rfl, rfl⟩ := clean_returnStatement.1 h
  cases items with
  | nil => exact ⟨_, rfl, .returnNothing hk hsemi, by simp, nofun⟩
  | cons item items => exact ⟨_, rfl, .returnValue hk (by simp) hi hsemi, by simp, nofun⟩

theorem jumpStatement_gives {n : Nat} {k : Token} {ts rest : List Token} {o : Option SyntaxTree}
    (hk : k.isKeyword "break" = true ∨ k.isKeyword "continue" = true ∨ k.isKeyword "goto" = true)
    (h : Clean jumpStatement (k :: ts) o rest) : GivesConstruct n (k :: ts) o rest := by
  by_cases hgoto : k.lexeme = "goto"
  · obtain ⟨label, semicolon, hl, hsemi, rfl, rfl⟩ := (clean_goto (by simpa using hgoto)).1 h
    have hkind : k.kind = .keyword := by
      rcases hk with hk | hk | hk <;> exact (Token.isKeyword_iff.1 hk).1
    exact ⟨_, rfl, .goto (Token.isKeyword_iff.2 ⟨hkind, hgoto⟩) hl hsemi, by simp, nofun⟩
  · obtain ⟨semicolon, hsemi, rfl, rfl⟩ := (clean_jumpStatement (by simpa using hgoto)).1 h
    have hjump : k.isKeyword "break" = true ∨ k.isKeyword "continue" = true := by
      rcases hk with hk | hk | hk
      · exact .inl hk
      · exact .inr hk
      · exact absurd (Token.isKeyword_iff.1 hk).2 hgoto
    exact ⟨_, rfl, .jump hjump hsemi, by simp, nofun⟩

theorem labelStatement_gives {n : Nat} {k : Token} {ts rest : List Token} {o : Option SyntaxTree}
    (hk : k.isKeyword "case" = true ∨ k.isKeyword "default" = true)
    (h : Clean labelStatement (k :: ts) o rest) : GivesConstruct n (k :: ts) o rest := by
  obtain ⟨run, colon, hr, hc, rfl, rfl⟩ := clean_labelStatement.1 h
  exact ⟨_, rfl, .label hk hr hc, by simp, nofun⟩

theorem declaration_gives {n : Nat} {k : Token} {ts rest : List Token} {o : Option SyntaxTree}
    (hk : k.isTypeKeyword = true) (h : Clean (declaration n) (k :: ts) o rest) :
    GivesConstruct n (k :: ts) o rest := by
  obtain ⟨type, first, more, semicolon, rfl, ht, hf, hm, hsemi, hts⟩ := (clean_declaration hk).1 h
  exact ⟨_, rfl, .declaration ht hf hm hsemi, by simpa using hts, nofun⟩

theorem not_endsExpression_of_starts {t : Token} (h : t.startsExpression = true) :
    t.endsExpression = false := by
  cases hk : t.kind <;> simp only [Token.startsExpression, hk, beq_iff_eq, reduceCtorEq] at h <;>
    simp [Token.endsExpression, hk, h, Token.expressionEnds, Token.statementKeywords]

/-- An expression that starts with `t` keeps `t` as its first item. -/
theorem items_first {n : Nat} {items : List SyntaxTree} {t : Token} {ts mid : List Token}
    (hi : Items n false items) (ht : t.endsExpression = false)
    (hmid : mid.head?.all (·.endsExpression) = true) (hts : t :: ts = tokensAll items ++ mid) :
    ∃ more, items = .leaf t :: more := by
  cases hi with
  | nil =>
    obtain rfl : t :: ts = mid := by simpa using hts
    simp [ht] at hmid
  | @token _ _ u more _ _ _ =>
    obtain ⟨rfl, -⟩ : t = u ∧ ts = tokensAll more ++ mid := by simpa using hts
    exact ⟨more, rfl⟩
  | group _ _ _ =>
    obtain ⟨rfl, -⟩ := List.cons.inj hts
    exact ⟨_, rfl⟩

theorem expressionStatement_gives {n : Nat} {t : Token} {ts rest : List Token}
    {o : Option SyntaxTree} (ht : t.startsExpression = true)
    (h : Clean (expressionStatement n) (t :: ts) o rest) : GivesConstruct n (t :: ts) o rest := by
  obtain ⟨items, more, semicolon, hi, hm, hsemi, hts, rfl⟩ := clean_expressionStatement.1 h
  obtain ⟨others, rfl⟩ := items_first hi (not_endsExpression_of_starts ht)
    (nextExpressions_endsExpression hm hsemi) hts
  exact ⟨_, rfl, .expression ht hi hm hsemi, by simpa using hts, nofun⟩

theorem construct_gives {n : Nat} (hs : ∀ m ≤ n, RunsStatements m (statement m)) {t : Token}
    {ts rest : List Token} {o : Option SyntaxTree}
    (h : Clean (construct (nested n) t) (t :: ts) o rest) : GivesConstruct n (t :: ts) o rest := by
  have hroom : (nested n).room = n := rfl
  have hstatement : (nested n).statement = statement n := rfl
  by_cases hk : t.kind = .keyword
  · have hkeyword {l : String} (hl : t.lexeme = l) : t.isKeyword l = true :=
      Token.isKeyword_iff.2 ⟨hk, hl⟩
    rw [construct_keyword hk, hroom] at h
    simp only [Bool.or_eq_true, beq_iff_eq] at h
    split at h
    · rename_i hl
      exact returnStatement_gives (hkeyword hl) h
    split at h
    · rename_i hl
      exact doWhile_gives hs (hkeyword hl) h
    split at h
    · rename_i hl
      exact jumpStatement_gives (or_assoc.1 (hl.imp (·.imp hkeyword hkeyword) hkeyword)) h
    split at h
    · rename_i hl
      exact labelStatement_gives (hl.imp hkeyword hkeyword) h
    split at h
    · rename_i hl
      exact controlStructure_gives hs (isControl_iff.2 ⟨hk, by simpa using hl⟩) h
    split at h
    · rename_i hl
      exact declaration_gives hl h
    split at h
    · rename_i hl
      exact expressionStatement_gives hl h
    · exact absurd h not_clean_skipUnhandled
  · simp only [construct, hk, if_false, hroom, hstatement] at h
    split at h
    · rename_i ho
      obtain ⟨b, rfl, hb⟩ := clean_map.1 h
      obtain ⟨hb, hts⟩ := (clean_block (hs n (Nat.le_refl n)) ho).1 hb
      exact ⟨b, rfl, .block hb, hts, fun h => absurd h (block_not_endsOpen hb)⟩
    split at h
    · rename_i hsemi
      obtain ⟨rfl, rfl⟩ := clean_emptyStatement.1 h
      exact ⟨_, rfl, .empty hsemi, by simp, nofun⟩
    split at h
    · rename_i hl
      exact expressionStatement_gives hl h
    · exact absurd h not_clean_skipUnhandled

theorem construct_control {inner : Nested} {k : Token} (hk : isControl k = true) :
    construct inner k = controlStructure inner := by
  obtain ⟨hkind, hl⟩ := isControl_iff.1 hk
  simp only [Token.controlKeywords, List.mem_cons, List.not_mem_nil, or_false] at hl
  rw [construct_keyword hkind]
  rcases hl with hl | hl | hl | hl <;> simp [hl, Token.controlKeywords]

theorem construct_typeKeyword {inner : Nested} {k : Token} (hk : k.isTypeKeyword = true) :
    construct inner k = declaration inner.room := by
  obtain ⟨hkind, hl⟩ := Token.isTypeKeyword_iff.1 hk
  have hne {l : String} (h : l ∉ Token.typeKeywords) : k.lexeme ≠ l := fun heq => h (heq ▸ hl)
  rw [construct_keyword hkind]
  simp [hk, Token.controlKeywords, hne (l := "return") (by decide), hne (l := "do") (by decide),
    hne (l := "break") (by decide), hne (l := "continue") (by decide),
    hne (l := "goto") (by decide), hne (l := "case") (by decide),
    hne (l := "default") (by decide), hne (l := "if") (by decide),
    hne (l := "while") (by decide), hne (l := "for") (by decide),
    hne (l := "switch") (by decide)]

theorem construct_expression {inner : Nested} {t : Token} (ht : t.startsExpression = true) :
    construct inner t = expressionStatement inner.room := by
  by_cases hkind : t.kind = .keyword
  · have hl : t.lexeme = "sizeof" := by simpa [Token.startsExpression, hkind] using ht
    rw [construct_keyword hkind]
    simp [hl, ht, Token.controlKeywords, Token.isTypeKeyword, Token.typeKeywords]
  · have hsemi : t.isSeparator ";" = false := by
      cases hk : t.kind <;>
        simp only [Token.startsExpression, hk, beq_iff_eq, reduceCtorEq] at ht <;>
        simp [Token.isSeparator, Token.is, hk, ht]
    simp [construct, hkind, notBrace_expression ht, hsemi, ht]

theorem construct_of_grammar {n : Nat} (hs : ∀ m ≤ n, RunsStatements m (statement m)) {t : Token}
    {ts rest : List Token} {b : SyntaxTree} (hb : Grammar.Construct n b)
    (hts : t :: ts = b.tokens ++ rest) (hd : NoDangling b rest) :
    Clean (construct (nested n) t) (t :: ts) (some b) rest := by
  have hroom : (nested n).room = n := rfl
  have hstatement : (nested n).statement = statement n := rfl
  cases hb with
  | block hb =>
    obtain ⟨u, us, htokens, ho⟩ := block_first hb
    obtain ⟨rfl, -⟩ : t = u ∧ ts = us ++ rest := by simpa [htokens] using hts
    simp only [construct, ho, if_true, hstatement]
    exact clean_map.2 ⟨b, rfl, (clean_block (hs n (Nat.le_refl n)) ho).2 ⟨hb, hts⟩⟩
  | empty hsemi =>
    obtain ⟨rfl, rfl⟩ : t = _ ∧ ts = rest := by simpa using hts
    have hbrace := Token.not_separator_of_separator (m := "\x7b") hsemi (by decide)
    simp only [construct, hbrace, hsemi, if_true, Bool.false_eq_true, if_false]
    exact clean_emptyStatement.2 ⟨rfl, rfl⟩
  | @returnNothing _ k semicolon hk hsemi =>
    obtain ⟨rfl, rfl⟩ : t = k ∧ ts = semicolon :: rest := by simpa using hts
    rw [construct_keyword (Token.keyword_kind hk), Token.keyword_lexeme hk]
    exact clean_returnStatement.2 ⟨[], semicolon, .nil, hsemi, rfl, rfl⟩
  | @returnValue _ k semicolon items hk hne hi hsemi =>
    obtain ⟨rfl, rfl⟩ : t = k ∧ ts = tokensAll items ++ semicolon :: rest := by simpa using hts
    rw [construct_keyword (Token.keyword_kind hk), Token.keyword_lexeme hk]
    exact clean_returnStatement.2 ⟨items, semicolon, hi, hsemi, rfl, by simp [hne]⟩
  | @jump _ k semicolon hk hsemi =>
    obtain ⟨rfl, rfl⟩ : t = k ∧ ts = semicolon :: rest := by simpa using hts
    rcases hk with hk | hk <;>
      rw [construct_keyword (Token.keyword_kind hk), Token.keyword_lexeme hk] <;>
      exact (clean_jumpStatement (by simp [Token.keyword_lexeme hk])).2 ⟨semicolon, hsemi, rfl, rfl⟩
  | @goto _ k label semicolon hk hl hsemi =>
    obtain ⟨rfl, rfl⟩ : t = k ∧ ts = label :: semicolon :: rest := by simpa using hts
    rw [construct_keyword (Token.keyword_kind hk), Token.keyword_lexeme hk]
    exact (clean_goto (by simp [Token.keyword_lexeme hk])).2 ⟨label, semicolon, hl, hsemi, rfl, rfl⟩
  | @label _ k colon run hk hr hc =>
    obtain ⟨rfl, rfl⟩ : t = k ∧ ts = run ++ colon :: rest := by simpa using hts
    rcases hk with hk | hk <;>
      rw [construct_keyword (Token.keyword_kind hk), Token.keyword_lexeme hk] <;>
      exact clean_labelStatement.2 ⟨run, colon, hr, hc, rfl, rfl⟩
  | @control _ k opener closer run b hk ho hr hc hb =>
    obtain ⟨rfl, rfl⟩ : t = k ∧ ts = opener :: (run ++ closer :: (b.tokens ++ rest)) := by
      simpa using hts
    rw [construct_control hk]
    refine (clean_controlStructure hs).2 ⟨opener, run, closer, b, [], ho, hr, hc, hb,
      ⟨rest, rfl, fun h => hd (endsOpen_control.2 (.inr h)), ?_⟩, rfl⟩
    refine (clean_elseBranch hs).2 (.inr ⟨fun hl => ?_, rfl, rfl⟩)
    exact hd (endsOpen_control.2 (.inl (Token.isKeyword_iff.2 ⟨(isControl_iff.1 hk).1, hl⟩)))
  | @ifElse _ k opener closer other run b b' hk ho hr hc hb hclosed he hb' =>
    obtain ⟨rfl, rfl⟩ : t = k ∧
        ts = opener :: (run ++ closer :: (b.tokens ++ other :: (b'.tokens ++ rest))) := by
      simpa using hts
    have hcontrol : isControl t = true := isControl_iff.2
      ⟨Token.keyword_kind hk, by simp [Token.keyword_lexeme hk, Token.controlKeywords]⟩
    rw [construct_control hcontrol]
    refine (clean_controlStructure hs).2 ⟨opener, run, closer, b, [.leaf other, b'], ho, hr, hc, hb,
      ⟨other :: (b'.tokens ++ rest), rfl, fun h => absurd h hclosed, ?_⟩, rfl⟩
    exact (clean_elseBranch hs).2 (.inl ⟨Token.keyword_lexeme hk, other, b', he, rfl, hb', rfl,
      fun h => hd (endsOpen_long.2 h)⟩)
  | @doWhile _ k opener closer while_ semicolon run b hk hb hw ho hr hc hsemi =>
    obtain ⟨rfl, rfl⟩ : t = k ∧
        ts = b.tokens ++ while_ :: opener :: (run ++ closer :: semicolon :: rest) := by
      simpa using hts
    rw [construct_keyword (Token.keyword_kind hk), Token.keyword_lexeme hk]
    exact (clean_doWhile hs).2
      ⟨b, while_, opener, run, closer, semicolon, hb, hw, ho, hr, hc, hsemi, rfl, rfl⟩
  | @declaration _ type first more semicolon ht hf hm hsemi =>
    obtain ⟨k, us, rfl, hk⟩ := typeSpec_first ht
    obtain ⟨rfl, -⟩ := List.cons.inj hts
    rw [construct_typeKeyword hk, hroom]
    exact (clean_declaration hk).2
      ⟨_, first, more, semicolon, rfl, ht, hf, hm, hsemi, by simpa using hts⟩
  | @expression _ u semicolon items more hu hi hm hsemi =>
    obtain ⟨rfl, -⟩ := List.cons.inj hts
    rw [construct_expression hu, hroom]
    exact clean_expressionStatement.2
      ⟨_, more, semicolon, hi, hm, hsemi, by simpa using hts, rfl⟩

theorem not_clean_skipDirective {β : Type} {f : Unit → Parse β} {t : Token} {ts rest : List Token}
    {b : β} : ¬ Clean (skipDirective >>= f) (t :: ts) b rest := by
  simp [Clean, bind_apply, skipDirective, next, note, andThen]

theorem not_clean_statement_zero {t : Token} {ts rest : List Token} {o : Option SyntaxTree} :
    ¬ Clean (statement 0) (t :: ts) o rest := by
  intro h
  simp only [Clean, statement_zero] at h
  by_cases ht : t.isDirective = true
  · simp only [ht, if_true] at h
    exact not_clean_skipDirective h
  · simp only [ht, if_false, Bool.false_eq_true] at h
    exact clean_noteLimit h

theorem clean_statement_succ {n : Nat} {t : Token} {ts rest : List Token} {o : Option SyntaxTree} :
    Clean (statement (n + 1)) (t :: ts) o rest ↔
      t.isDirective = false ∧ ∃ c, o = c.map (fun b => .node .statement [b]) ∧
        Clean (construct (nested n) t) (t :: ts) c rest := by
  by_cases ht : t.isDirective = true
  · simp only [ht, Bool.true_eq_false, false_and, iff_false]
    intro h
    simp only [Clean, statement_succ, ht, if_true] at h
    exact not_clean_skipDirective h
  · simp only [ht, true_and]
    rw [← clean_map]
    simp only [Clean, statement_succ, ht, if_false, Bool.false_eq_true]

/-- The rule for statements with `n` levels left runs cleanly exactly on statements nested at most
that deep. -/
theorem runs_statement (n : Nat) : RunsStatements n (statement n) := by
  induction n using Nat.strongRecOn with
  | _ n ih =>
    intro ts rest o
    cases ts with
    | nil =>
      constructor
      · intro h
        simp only [Clean, statement_nil] at h
        exact .inl ⟨rfl, h.1.symm, h.2.1.symm⟩
      · rintro (⟨-, rfl, rfl⟩ | ⟨b, -, hb, hts, -⟩)
        · simp [Clean, statement_nil]
        · obtain ⟨t, us, htokens, -⟩ := statement_first hb
          simp [htokens] at hts
    | cons t ts =>
      cases n with
      | zero =>
        constructor
        · exact fun h => absurd h not_clean_statement_zero
        · rintro (⟨⟨⟩, -⟩ | ⟨b, -, ⟨⟩, -⟩)
      | succ n =>
        have hs (m : Nat) (hm : m ≤ n) : RunsStatements m (statement m) :=
          ih m (Nat.lt_succ_of_le hm)
        rw [clean_statement_succ]
        constructor
        · rintro ⟨-, c, rfl, h⟩
          obtain ⟨b, rfl, hb, hts, hd⟩ := construct_gives hs h
          exact .inr ⟨_, rfl, .mk hb, by simpa using hts, fun h => hd (endsOpen_statement.1 h)⟩
        · rintro (⟨⟨⟩, -⟩ | ⟨_, rfl, @⟨_, b, hb⟩, hts, hd⟩)
          obtain ⟨u, us, htokens, hu, -⟩ := construct_first hb
          obtain ⟨rfl, -⟩ : t = u ∧ ts = us ++ rest := by simpa [htokens] using hts
          refine ⟨hu.notDirective, some b, rfl, construct_of_grammar hs hb (by simpa using hts) ?_⟩
          exact fun h => hd (endsOpen_statement.2 h)

end CAudit.Parse
