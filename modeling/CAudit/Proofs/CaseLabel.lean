import CAudit.Proofs.CleanStatement

/-! Labels and expressions. The rule for labels walks its tokens on its own and stops at every token
that ends an expression, also inside brackets. So of the runs that are expressions it takes those
without a group; a group stops it in front of its first comma or closing bracket. -/
namespace CAudit

open Grammar SyntaxTree

namespace Grammar

theorem Pairs.endsExpression {opener closer : Token} (h : Pairs opener closer) :
    closer.endsExpression = true := by
  rcases h with ⟨-, h⟩ | ⟨-, h⟩ <;> simp [Token.endsExpression_of_separator h, Token.expressionEnds]

/-- In an expression only the tokens of groups end expressions, and every group has such a token. -/
theorem Items.endsExpression_iff {n : Nat} {commas : Bool} {items : List SyntaxTree}
    (h : Items n commas items) (hcommas : commas = false) :
    (∀ t ∈ tokensAll items, t.endsExpression = false) ↔
      ∀ t ∈ tokensAll items, t.opensGroup = false := by
  induction h with
  | nil => simp
  | token ho hends _ ih =>
    have he := hends.resolve_right fun hc => by simp [hcommas] at hc
    simp [ho, he, ih hcommas]
  | @group _ _ opener closer inner items hp =>
    constructor
    · intro hall
      have he := hall closer (by simp)
      simp [hp.endsExpression] at he
    · intro hall
      have ho := hall opener (by simp)
      simp [hp.opensGroup] at ho

/-- The first place in an expression with a group at which a flat walk stops. -/
theorem Items.exists_stop {n : Nat} {items : List SyntaxTree} (h : Items n false items) {t : Token}
    (ht : t ∈ tokensAll items) (ho : t.opensGroup = true) :
    ∃ inside stop outside, tokensAll items = inside ++ stop :: outside ∧
      (∀ u ∈ inside, u.endsExpression = false) ∧ stop.endsExpression = true := by
  cases hfind : (tokensAll items).find? (·.endsExpression) with
  | none =>
    have hnone : ∀ u ∈ tokensAll items, u.endsExpression = false := by
      simpa using List.find?_eq_none.1 hfind
    have hclosed := (h.endsExpression_iff rfl).1 hnone t ht
    simp [ho] at hclosed
  | some stop =>
    obtain ⟨hstop, inside, outside, hsplit, hinside⟩ := List.find?_eq_some_iff_append.1 hfind
    exact ⟨inside, stop, outside, hsplit, by simpa using hinside, hstop⟩

end Grammar

namespace Parse

theorem spanWhile_append {test : Token → Bool} {xs rest : List Token}
    (hxs : ∀ t ∈ xs, test t = true) (hr : rest.head?.any test = false) :
    spanWhile test (xs ++ rest) = ⟨xs, rest, [], []⟩ := by
  have hstop : StopsAt (fun () t => if test t then some () else none) () rest := by
    cases rest with
    | nil => rfl
    | cons t ts => simpa [StopsAt] using hr
  simp [spanWhile, bind_apply, pure_apply, andThen, spanFrom_append (foldlM_while.2 hxs) hstop]

/-- What a label gives that meets, in place of its colon, a token that ends expressions. -/
def stoppedLabel (k : Token) (inside : List Token) (stop : Token) (rest : List Token) :
    Reply (Option SyntaxTree) where
  value := some (.node .labelStatement (leaves (k :: inside)))
  rest := stop :: rest
  notes := [⟨some stop.line, .missingToken, "Missing ':' after case label"⟩]
  uses := inside.filter (·.isIdentifier)

theorem labelStatement_stopped {k stop : Token} {inside rest : List Token}
    (hinside : ∀ t ∈ inside, t.isSeparator ":" = false ∧ t.endsExpression = false)
    (hcolon : stop.isSeparator ":" = false) (hstop : stop.endsExpression = true) :
    labelStatement (k :: (inside ++ stop :: rest)) = stoppedLabel k inside stop rest := by
  have hspan : spanWhile (fun t => !t.isSeparator ":" && !t.endsExpression)
      (inside ++ stop :: rest) = ⟨inside, stop :: rest, [], []⟩ :=
    spanWhile_append (fun t ht => by simp [hinside t ht]) (by simp [hstop])
  simp only [labelStatement, bind_apply, next, List.head?_cons, List.tail_cons, hspan, mention,
    accept, hcolon, andThen]
  simp [bind_apply, here, note, pure_apply, andThen, stoppedLabel, leaves]

/-- A group in the expression behind `case` stops the label inside the expression. -/
theorem labelStatement_group {n : Nat} {items : List SyntaxTree} (hitems : Items n false items)
    (hplain : ∀ t ∈ tokensAll items, t.isSeparator ":" = false) {t : Token}
    (ht : t ∈ tokensAll items) (ho : t.opensGroup = true) (k : Token) (rest : List Token) :
    ∃ inside stop outside, tokensAll items = inside ++ stop :: outside ∧
      (∀ u ∈ inside, u.endsExpression = false) ∧ stop.endsExpression = true ∧
      labelStatement (k :: (tokensAll items ++ rest)) =
        stoppedLabel k inside stop (outside ++ rest) := by
  obtain ⟨inside, stop, outside, hsplit, hinside, hstop⟩ := hitems.exists_stop ht ho
  refine ⟨inside, stop, outside, hsplit, hinside, hstop, ?_⟩
  rw [hsplit] at hplain ⊢
  rw [List.append_assoc, List.cons_append]
  exact labelStatement_stopped (fun u hu => ⟨hplain u (by simp [hu]), hinside u hu⟩)
    (hplain stop (by simp)) hstop

/-- Behind `case` a run without a colon that is read as an expression, in front of any token, is
read as a label exactly when no group opens in it. A group stops the label inside the run, where it
misses its colon. -/
theorem caseLabel_reads_expression_iff (room : Nat) (c : Construct) (tree : SyntaxTree)
    (k colon follower : Token) (e behind after : List Token)
    (hcolon : colon.isSeparator ":" = true) (hplain : ∀ t ∈ e, t.isSeparator ":" = false)
    (hread : Clean (expression room c) (e ++ follower :: after) tree (follower :: after)) :
    (Clean labelStatement (k :: (e ++ colon :: behind))
      (some (.node .labelStatement (leaves (k :: e ++ [colon])))) behind ↔
        ∀ t ∈ e, t.opensGroup = false) ∧
    ((∃ t ∈ e, t.opensGroup = true) → ∃ inside stop outside,
      e = inside ++ stop :: outside ∧ (∀ t ∈ inside, t.endsExpression = false) ∧
      stop.endsExpression = true ∧ labelStatement (k :: (e ++ colon :: behind)) =
        stoppedLabel k inside stop (outside ++ colon :: behind)) := by
  obtain ⟨items, -, hitems, htokens, -⟩ := clean_expression.1 hread
  obtain rfl : e = tokensAll items := List.append_cancel_right htokens
  refine ⟨⟨fun hlabel t ht => ?_, fun hall => ?_⟩, ?_⟩
  · cases ho : t.opensGroup with
    | false => rfl
    | true =>
      obtain ⟨inside, stop, outside, -, -, -, hreply⟩ :=
        labelStatement_group hitems hplain ht ho k (colon :: behind)
      have hnotes := hlabel.2.2
      simp [hreply, stoppedLabel] at hnotes
  · have hends := (hitems.endsExpression_iff rfl).2 hall
    refine clean_labelStatement.2 ⟨tokensAll items, colon, ?_, hcolon, rfl, by simp [leaves]⟩
    exact fun t ht => ⟨hplain t ht, hends t ht⟩
  · rintro ⟨t, ht, ho⟩
    exact labelStatement_group hitems hplain ht ho k (colon :: behind)

/-- The expression `n + 1` behind `case`. -/
theorem caseLabel_reads_sum :
    let e : List Token := [⟨.identifier, "n", 1⟩, ⟨.operator, "+", 1⟩, ⟨.number, "1", 1⟩]
    Clean labelStatement (⟨.keyword, "case", 1⟩ :: (e ++ [⟨.separator, ":", 1⟩]))
      (some (.node .labelStatement
        (leaves (⟨.keyword, "case", 1⟩ :: e ++ [⟨.separator, ":", 1⟩])))) [] := by
  intro e
  have hitems : Items 1 false (leaves e) :=
    .token rfl (.inl rfl) (.token rfl (.inl rfl) (.token rfl (.inl rfl) .nil))
  have hread : Clean (expression 1 .expression) (e ++ [⟨.separator, ";", 1⟩])
      (.node .expression (leaves e)) [⟨.separator, ";", 1⟩] :=
    clean_expression.2 ⟨leaves e, rfl, hitems, by simp [leaves], rfl⟩
  exact (caseLabel_reads_expression_iff 1 .expression _ _ _ _ e [] [] rfl (by decide) hread).1.2
    (by decide)

/-- The expression `(1)` is read in front of a semicolon, but a label stops behind its `1`. -/
theorem caseLabel_misses_group :
    let e : List Token := [⟨.separator, "(", 1⟩, ⟨.number, "1", 1⟩, ⟨.separator, ")", 1⟩]
    (∃ tree, Clean (expression 1 .expression) (e ++ [⟨.separator, ";", 1⟩]) tree
      [⟨.separator, ";", 1⟩]) ∧ (∀ t ∈ e, t.isSeparator ":" = false) ∧
      (labelStatement (⟨.keyword, "case", 1⟩ :: (e ++ [⟨.separator, ":", 1⟩]))).notes ≠ [] := by
  intro e
  have hitems : Items 1 false [.leaf ⟨.separator, "(", 1⟩,
      .node .expression [.leaf ⟨.number, "1", 1⟩], .leaf ⟨.separator, ")", 1⟩] :=
    .group (.inl ⟨rfl, rfl⟩) (.token rfl (.inl rfl) .nil) .nil
  exact ⟨⟨_, clean_expression.2 ⟨_, rfl, hitems, by simp [e], rfl⟩⟩, by decide, by decide⟩

end Parse

end CAudit
