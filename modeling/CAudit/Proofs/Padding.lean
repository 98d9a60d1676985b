import CAudit.Proofs.Context

/-! Nested empty blocks as padding. In front of a statement they change no finding as long as the
levels around them and their own number stay within the limit. Beyond it each block too many leaves
a closing brace behind, and such a brace closes what it was not meant to close. -/
namespace CAudit

open Grammar SyntaxTree Parse

theorem interchangeable_emptyBlocks (line r n : Nat) {post : List Token} (hpost : BeginsWith post) :
    Interchangeable r (emptyBlocks line n ++ post)
      (List.replicate (n - r) (Token.closing line) ++ post) where
  agree := agree_emptyBlocks line r n post
  left := by
    cases n with
    | zero => exact hpost.not_else
    | succ n =>
      rw [emptyBlocks_succ]
      rfl
  right := by
    cases n - r with
    | zero => exact hpost.not_else
    | succ e => rfl

/-- Of the blocks in front of a statement only the closing braces count for which no level is
left. -/
theorem findings_emptyBlocks {ts pre post : List Token} {d : Nat}
    (hts : (parseTokens ts).warnings = []) (h : Place d (program ts).value pre post)
    (line n : Nat) :
    (parseTokens (pre ++ (emptyBlocks line n ++ post))).findings =
      (parseTokens (pre ++ (List.replicate (n + d - maxNesting) (Token.closing line) ++
        post))).findings := by
  obtain ⟨hT, -⟩ := clean_program.1 (warnings_eq_nil_iff.1 hts)
  obtain ⟨hpost, r, hr, hcarry⟩ := program_carries hT h
  have hlevels : n + d - maxNesting = n - r := by omega
  have hagree := hcarry _ _ (interchangeable_emptyBlocks line r n hpost)
  rw [hlevels]
  exact congrArg (List.filterMap _) hagree.uses

theorem usesAll_nest (line n : Nat) (forest : List SyntaxTree) :
    usesAll false (nest line n forest) = usesAll false forest := by
  induction n with
  | zero => rfl
  | succ n ih => simp [nest, ih]

theorem place_nest (line n : Nat) {c : Construct} (hc : holdsStatements c = true)
    (body back : List SyntaxTree) :
    PlaceAmong c n (nest line n (.node .statement body :: back))
      (List.replicate n (Token.opening line))
      (tokensAll body ++ tokensAll back ++ List.replicate n (Token.closing line)) := by
  induction n generalizing c with
  | zero => simpa [nest] using @PlaceAmong.here c body back hc
  | succ n ih =>
    have hinner := (ih (c := .block) rfl).append [.leaf (Token.closing line)]
    have hblock := Place.node (@PlaceAmong.later _ _ (.leaf (Token.opening line)) _ _ _ hinner)
    have hstatement := Place.node (@PlaceAmong.first .statement _ _ [] _ _ hblock)
    have hlist := @PlaceAmong.first c _ _ [] _ _ hstatement
    rw [levels_of_list hc] at hlist
    simpa [nest, levels, List.replicate_succ, ← List.replicate_succ'] using hlist

/-- The tokens in front of the body of a plain function. -/
def plainFunctionHead : List Token :=
  [⟨.keyword, "int", 1⟩, ⟨.identifier, "f", 1⟩, ⟨.separator, "(", 1⟩, ⟨.separator, ")", 1⟩,
    Token.opening 1]

theorem tokens_plainFunction (forest : List SyntaxTree) :
    (plainFunction forest).tokens =
      plainFunctionHead ++ (tokensAll forest ++ [Token.closing 1]) := by
  simp [plainFunction, plainFunctionHead]

theorem place_plainFunction {forest : List SyntaxTree} {d : Nat} {pre post : List Token}
    (h : PlaceAmong .functionBody d forest pre post) :
    Place d (.node .program [plainFunction forest]) (plainFunctionHead ++ pre)
      (post ++ [Token.closing 1]) := by
  have hbody : PlaceAmong .functionDefinition d
      [.node .functionBody forest, .leaf (Token.closing 1)] pre (post ++ [Token.closing 1]) :=
    @PlaceAmong.first .functionDefinition _ _ [.leaf (Token.closing 1)] _ _ (Place.node h)
  have hfunction : Place d (plainFunction forest) (plainFunctionHead ++ pre)
      (post ++ [Token.closing 1]) := by
    refine .node ((@placeAmong_skip .functionDefinition rfl d
      [.leaf ⟨.keyword, "int", 1⟩, .leaf ⟨.identifier, "f", 1⟩, .leaf ⟨.separator, "(", 1⟩,
        .node .parameters [], .leaf ⟨.separator, ")", 1⟩, .leaf (Token.opening 1)] _ rfl _ _).2
      ⟨pre, hbody, rfl⟩)
  have hprogram := Place.node (@PlaceAmong.first .program _ _ [] _ _ hfunction)
  rwa [tokensAll_nil, List.append_nil] at hprogram

/-- Behind the functions of a source nothing is used up to the next type keyword. -/
theorem uses_without_types {ts : List Token} (h : ∀ t ∈ ts, t.isTypeKeyword = false) :
    (many topLevelItem ts).uses = [] := by
  induction hlen : ts.length using Nat.strongRecOn generalizing ts with
  | _ n ih =>
    cases ts with
    | nil => exact (agree_many_none (p := topLevelItem) rfl).uses
    | cons t ts =>
      obtain ⟨ht, hts⟩ := List.forall_mem_cons.1 h
      obtain ⟨fs, hv, hlt⟩ := topLevelItem_progress t ts
      have hitem : (topLevelItem (t :: ts)).rest = ts ∧ (topLevelItem (t :: ts)).uses = [] := by
        rw [topLevelItem_cons]
        by_cases hd : t.isDirective = true
        · simp only [hd, if_true]
          exact ⟨rfl, rfl⟩
        · simp only [hd, if_false, Bool.false_eq_true]
          have hexternal : external t = (do
              note (some t.line) .invalidTopLevel "Invalid function definition"
              return []) := by simp [external, ht]
          rw [hexternal]
          constructor <;>
            simp [bind_apply, pure_apply, andThen, advancing, note, skipToken, next]
      rw [(agree_many_some hv hlt).uses, andThen, hitem.1, hitem.2, List.nil_append]
      exact ih ts.length (by rw [← hlen]; exact Nat.lt_succ_self _) hts rfl

/-- A plain function and behind it tokens without a type keyword: only the function counts. -/
theorem uses_plainFunction {forest : List SyntaxTree}
    (hall : ∀ b ∈ forest, Statement maxNesting b) {junk : List Token}
    (hjunk : ∀ t ∈ junk, t.isTypeKeyword = false) :
    (program ((plainFunction forest).tokens ++ junk)).uses = usesAll false forest := by
  have hclean : Clean topLevelItem ((plainFunction forest).tokens ++ junk)
      (some [plainFunction forest]) junk :=
    clean_topLevelItem_some.2 ⟨_, rfl, plainFunction_function hall, rfl⟩
  have hlt : junk.length < ((plainFunction forest).tokens ++ junk).length := by
    rw [tokens_plainFunction]
    simp only [plainFunctionHead, List.length_append, List.length_cons]
    omega
  have hprogram : Agree (program ((plainFunction forest).tokens ++ junk))
      (many topLevelItem ((plainFunction forest).tokens ++ junk)) := agree_map _ _
  rw [hprogram.uses, (agree_many_clean hclean tracks_topLevelItem hlt).uses,
    uses_without_types hjunk]
  simp [itemLedger, Ledger.add, plainFunction]

def idle : SyntaxTree := .node .statement [.node .emptyStatement [.leaf ⟨.separator, ";", 1⟩]]

/-- A call that is reported wherever it is read. -/
def call : SyntaxTree :=
  .node .statement [.node .expressionStatement
    [.node .expression [.leaf ⟨.identifier, "gets", 1⟩, .leaf ⟨.separator, "(", 1⟩,
      .node .expression [.leaf ⟨.identifier, "x", 1⟩], .leaf ⟨.separator, ")", 1⟩],
      .leaf ⟨.separator, ";", 1⟩]]

theorem idle_statement (n : Nat) : Statement (n + 1) idle := .mk (.empty rfl)

theorem call_statement (n : Nat) : Statement (n + 2) call := by
  have hx : Items n true [.leaf ⟨.identifier, "x", 1⟩] := .token rfl (.inl rfl) .nil
  have hgroup := @Items.group n false ⟨.separator, "(", 1⟩ ⟨.separator, ")", 1⟩ _ []
    (.inl ⟨rfl, rfl⟩) hx .nil
  exact .mk (@Grammar.Construct.expression _ ⟨.identifier, "gets", 1⟩ ⟨.separator, ";", 1⟩ _ [] rfl
    (.token rfl (.inl rfl) hgroup) .nil rfl)

theorem replicate_split {α : Type} (x : α) (a k : Nat) :
    List.replicate (a + (k + 1)) x = List.replicate a x ++ x :: List.replicate k x := by
  rw [← List.replicate_append_replicate, List.replicate_succ]

/-- Behind closing braces too many the call stands outside the function. -/
theorem uses_behind_closers {d e : Nat} (hd : d < maxNesting) (he : 0 < e) :
    (program (plainFunctionHead ++ List.replicate d (Token.opening 1) ++
      (List.replicate e (Token.closing 1) ++ (idle.tokens ++
        (List.replicate d (Token.closing 1) ++ (call.tokens ++ [Token.closing 1])))))).uses =
      [] := by
  have hclosing (k : Nat) : ∀ t ∈ List.replicate k (Token.closing 1), t.isTypeKeyword = false := by
    intro t ht
    rw [List.eq_of_mem_replicate ht]
    rfl
  have hcall : ∀ t ∈ call.tokens ++ [Token.closing 1], t.isTypeKeyword = false := by
    simp [call, Token.closing, Token.isTypeKeyword]
  by_cases hed : e ≤ d
  · -- The braces close as many blocks, and the braces behind them close the function.
    obtain ⟨k, rfl⟩ := Nat.exists_eq_succ_of_ne_zero (Nat.ne_of_gt he)
    obtain ⟨a, rfl⟩ := Nat.exists_eq_add_of_le' hed
    obtain ⟨r, hr⟩ : ∃ r, maxNesting = r + (k + 1) + a := ⟨maxNesting - (k + 1) - a, by omega⟩
    have hinner : ∀ b ∈ nest 1 (k + 1) [] ++ [idle], Statement (r + (k + 1)) b := by
      intro b hb
      rcases List.mem_append.1 hb with hb | hb
      · exact @nest_statements r [] (by simp) 1 (k + 1) b hb
      · obtain rfl := List.mem_singleton.1 hb
        exact idle_statement (r + k)
    have hall := nest_statements hinner 1 a
    rw [← hr] at hall
    have hjunk : ∀ t ∈ List.replicate k (Token.closing 1) ++ (call.tokens ++ [Token.closing 1]),
        t.isTypeKeyword = false := List.forall_mem_append.2 ⟨hclosing k, hcall⟩
    have hnone : usesAll false (nest 1 a (nest 1 (k + 1) [] ++ [idle])) = [] := by
      simp [usesAll_nest, idle]
    refine (congrArg (fun ts => (program ts).uses) ?_).trans
      ((uses_plainFunction hall hjunk).trans hnone)
    rw [tokens_plainFunction, tokensAll_nest, tokensAll_append, tokensAll_nest,
      replicate_split _ a k, replicate_split _ a k]
    simp [List.replicate_succ]
  · -- The braces close all blocks and the function itself.
    obtain ⟨k, rfl⟩ := Nat.exists_eq_add_of_lt (Nat.lt_of_not_le hed)
    have hall := @nest_statements (maxNesting - d) [] (by simp) 1 d
    rw [Nat.sub_add_cancel (Nat.le_of_lt hd)] at hall
    have hidle : ∀ t ∈ idle.tokens, t.isTypeKeyword = false := by
      simp [idle, Token.isTypeKeyword]
    have hjunk : ∀ t ∈ List.replicate k (Token.closing 1) ++ (idle.tokens ++
        (List.replicate d (Token.closing 1) ++ (call.tokens ++ [Token.closing 1]))),
        t.isTypeKeyword = false :=
      List.forall_mem_append.2 ⟨hclosing k, List.forall_mem_append.2 ⟨hidle,
        List.forall_mem_append.2 ⟨hclosing d, hcall⟩⟩⟩
    have hnone : usesAll false (nest 1 d []) = [] := by simp [usesAll_nest]
    refine (congrArg (fun ts => (program ts).uses) ?_).trans
      ((uses_plainFunction hall hjunk).trans hnone)
    rw [tokens_plainFunction, tokensAll_nest, Nat.add_assoc, replicate_split]
    simp

/-- In front of a statement with `d` levels around it, `n` nested empty blocks change no finding,
whatever the source. -/
def PaddingKeepsFindings (d n : Nat) : Prop :=
  ∀ (ts pre post : List Token) (line : Nat), (parseTokens ts).warnings = [] →
    Place d (program ts).value pre post →
    (parseTokens (pre ++ (emptyBlocks line n ++ post))).findings = (parseTokens ts).findings

theorem paddingKeepsFindings_of_le {d n : Nat} (h : n + d ≤ maxNesting) :
    PaddingKeepsFindings d n := by
  intro ts pre post line hts hplace
  obtain ⟨-, htokens⟩ := clean_program.1 (warnings_eq_nil_iff.1 hts)
  rw [findings_emptyBlocks hts hplace, Nat.sub_eq_zero_of_le h, ← htokens, hplace.tokens_eq]
  rfl

theorem plainFunction_read {forest : List SyntaxTree}
    (hall : ∀ b ∈ forest, Statement maxNesting b) :
    let T : SyntaxTree := .node .program [plainFunction forest]
    (parseTokens T.tokens).warnings = [] ∧ (program T.tokens).value = T := by
  have hprogram : Program maxNesting (.node .program [plainFunction forest]) :=
    .mk (by simpa using plainFunction_function hall)
  obtain ⟨hvalue, hrest, hnotes⟩ := clean_program.2 ⟨hprogram, rfl⟩
  exact ⟨warnings_eq_nil_iff.2 ⟨rfl, hrest, hnotes⟩, hvalue⟩

theorem usesAll_call : usesAll false [call] =
    [⟨.identifier, "gets", 1⟩, ⟨.identifier, "x", 1⟩] := by
  simp [call, Token.isIdentifier]

/-- The source that shows it: a statement under `d` blocks, and behind the blocks a call. -/
theorem not_paddingKeepsFindings {d n : Nat} (hd : d < maxNesting) (h : maxNesting < n + d) :
    ¬ PaddingKeepsFindings d n := by
  intro hkeeps
  obtain ⟨r, hr⟩ : ∃ r, maxNesting = r + 1 + d := ⟨maxNesting - d - 1, by omega⟩
  have hnest := @nest_statements (r + 1) [idle] (by simpa using idle_statement r) 1 d
  have hall : ∀ b ∈ nest 1 d [idle] ++ [call], Statement maxNesting b := by
    intro b hb
    rcases List.mem_append.1 hb with hb | hb
    · rw [hr]
      exact hnest b hb
    · obtain rfl := List.mem_singleton.1 hb
      exact call_statement 126
  obtain ⟨hwarnings, hvalue⟩ := plainFunction_read hall
  have hplace : Place d (.node .program [plainFunction (nest 1 d [idle] ++ [call])])
      (plainFunctionHead ++ List.replicate d (Token.opening 1)) (idle.tokens ++
        (List.replicate d (Token.closing 1) ++ (call.tokens ++ [Token.closing 1]))) := by
    have hforest := (place_nest 1 d (c := .functionBody) rfl
      [.node .emptyStatement [.leaf ⟨.separator, ";", 1⟩]] []).append [call]
    simpa [idle] using place_plainFunction hforest
  rw [← hvalue] at hplace
  have hlost : (parseTokens _).findings = [] :=
    congrArg (List.filterMap _) (uses_behind_closers hd (Nat.sub_pos_of_lt h))
  have hfound : (parseTokens _).findings = _ :=
    congrArg (List.filterMap _) (@uses_plainFunction _ hall [] (by simp))
  have hkept := hkeeps _ _ _ 1 hwarnings hplace
  rw [findings_emptyBlocks hwarnings hplace, hlost, tokens_node, tokensAll_cons, tokensAll_nil,
    hfound, usesAll_append, usesAll_nest, usesAll_call] at hkept
  have hreported : InsecureCall.finding? "gets" 1 ≠ none := by decide
  simp [idle, hreported] at hkept

/-- Reading a source with nested empty blocks in front of a statement finds what it finds with the
closing braces in their place for which no level is left. So the blocks never matter exactly when
they stay within the limit together with the levels around them. -/
theorem padding_keeps_findings_iff (d n : Nat) :
    (∀ (ts pre post : List Token) (line : Nat), (parseTokens ts).warnings = [] →
      Place d (program ts).value pre post → ts = pre ++ post ∧
      (parseTokens (pre ++ (emptyBlocks line n ++ post))).findings =
        (parseTokens (pre ++ (List.replicate (n + d - maxNesting) (Token.closing line) ++
          post))).findings) ∧
    (d < maxNesting → (PaddingKeepsFindings d n ↔ n + d ≤ maxNesting)) := by
  constructor
  · intro ts pre post line hts hplace
    obtain ⟨-, htokens⟩ := clean_program.1 (warnings_eq_nil_iff.1 hts)
    exact ⟨htokens.symm.trans hplace.tokens_eq, findings_emptyBlocks hts hplace line n⟩
  · intro hd
    constructor
    · intro hkeeps
      exact Nat.le_of_not_lt fun h => not_paddingKeepsFindings hd h hkeeps
    · exact paddingKeepsFindings_of_le

/-- Right in the body of a function 128 blocks do no harm and 129 leave one brace behind. -/
theorem padding_in_function_body :
    (parseTokens (plainFunctionHead ++ (emptyBlocks 1 129 ++ (idle.tokens ++
        [Token.closing 1])))).findings =
      (parseTokens (plainFunctionHead ++ ([Token.closing 1] ++ (idle.tokens ++
        [Token.closing 1])))).findings ∧
      PaddingKeepsFindings 0 128 ∧ ¬ PaddingKeepsFindings 0 129 := by
  have hidle : Statement maxNesting idle := idle_statement 127
  have hall : ∀ b ∈ [idle], Statement maxNesting b := by simpa using hidle
  obtain ⟨hwarnings, hvalue⟩ := plainFunction_read hall
  have hforest := @PlaceAmong.here .functionBody
    [.node .emptyStatement [.leaf ⟨.separator, ";", 1⟩]] [] rfl
  have hplace := place_plainFunction hforest
  refine ⟨?_, ((padding_keeps_findings_iff 0 128).2 (by decide)).2 (by decide), fun h => ?_⟩
  · have hfindings := ((padding_keeps_findings_iff 0 129).1 _ _ _ 1 hwarnings (hvalue ▸ hplace)).2
    simpa [idle, maxNesting] using hfindings
  · exact absurd (((padding_keeps_findings_iff 0 129).2 (by decide)).1 h) (by decide)

end CAudit
