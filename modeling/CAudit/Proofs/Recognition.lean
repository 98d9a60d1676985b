import CAudit.Proofs.CleanControl
import CAudit.Proofs.Leaves

/-! Sources that are read without a warning. They are the sentences of the grammar in which nothing
is nested deeper than the limit, and what is read is the derivation. -/
namespace CAudit

open Grammar SyntaxTree

namespace Parse

theorem clean_parameters {ts rest : List Token} {o : Option (List SyntaxTree)} :
    Clean parameters ts o rest ↔
      ∃ run closer, Parameters run ∧ closer.isSeparator ")" = true ∧ ts = run ++ closer :: rest ∧
        o = some [.node .parameters (run.map .leaf), .leaf closer] := by
  simp only [parameters, clean_spanFrom, clean_accept, clean_peek]
  constructor
  · rintro ⟨run, depth, mid, rfl, hrun, hstop, ⟨closer, _, rfl, hc, h⟩ | ⟨-, h⟩⟩
    · obtain ⟨rfl, rfl⟩ := clean_pure.1 h
      have hstop : parameterStep depth closer = none := hstop
      obtain rfl : depth = 0 := by
        by_cases h0 : depth = 0
        · exact h0
        · simp [parameterStep, hc, h0] at hstop
      exact ⟨run, closer, foldlM_parameterStep.1 hrun, hc, rfl, rfl⟩
    · cases mid <;> simp [clean_note] at h
  · rintro ⟨run, closer, hr, hc, rfl, rfl⟩
    exact ⟨run, 0, closer :: rest, rfl, foldlM_parameterStep.2 hr,
      by simp [StopsAt, parameterStep, hc], .inl ⟨closer, rest, rfl, hc, clean_pure.2 ⟨rfl, rfl⟩⟩⟩

theorem clean_functionBody {ts rest : List Token} {xs : List SyntaxTree} :
    Clean functionBody ts xs rest ↔
      ∃ forest closer, (∀ b ∈ forest, Statement maxNesting b) ∧ closer.isSeparator "\x7d" = true ∧
        ts = tokensAll forest ++ closer :: rest ∧
        xs = [.node .functionBody forest, .leaf closer] := by
  rw [functionBody, clean_bind]
  simp only [clean_accept, clean_here, clean_note, clean_pure, and_false, or_false]
  constructor
  · rintro ⟨forest, _, hf, closer, _, rfl, hc, rfl, rfl⟩
    obtain ⟨hall, rfl⟩ := (clean_statements (runs_statement maxNesting) hc).1 hf
    exact ⟨forest, closer, hall, hc, rfl, rfl⟩
  · rintro ⟨forest, closer, hall, hc, rfl, rfl⟩
    exact ⟨forest, closer :: rest,
      (clean_statements (runs_statement maxNesting) hc).2 ⟨hall, rfl⟩, closer, rest, rfl, hc, rfl,
      rfl⟩

theorem clean_function {k : Token} {ts rest : List Token} {o : Option SyntaxTree}
    (hk : k.isTypeKeyword = true) :
    Clean function (k :: ts) o rest ↔
      ∃ f, o = some f ∧ Function maxNesting f ∧ k :: ts = f.tokens ++ rest := by
  constructor
  · intro h
    obtain ⟨type, _, htype, hrest⟩ := clean_bind.1 h
    simp only [clean_expect] at hrest
    obtain ⟨name, _, rfl, hname, opener, _, rfl, ho, hparams⟩ := hrest
    obtain ⟨ht, hts⟩ := (clean_typeSpec_named hk hname).1 htype
    obtain ⟨_, _, hp, hend⟩ := clean_bind.1 hparams
    obtain ⟨run, closer, hr, hc, rfl, rfl⟩ := clean_parameters.1 hp
    simp only [clean_accept, clean_expect, clean_pure] at hend
    obtain ⟨semicolon, _, rfl, hs, rfl, rfl⟩ | ⟨-, begins, _, rfl, hb, hbody⟩ := hend
    · refine ⟨_, rfl, ?_, ?_⟩
      · simpa [leaves] using @Function.declaration maxNesting _ _ _ _ _ _ ht hname ho hr hc hs
      · simpa [leaves] using hts
    · obtain ⟨_, rfl, hlist⟩ := clean_map.1 hbody
      obtain ⟨forest, ends, hall, he, rfl, rfl⟩ := clean_functionBody.1 hlist
      refine ⟨_, rfl, ?_, ?_⟩
      · simpa [leaves] using Function.definition ht hname ho hr hc hb hall he
      · simpa [leaves] using hts
  · rintro ⟨f, rfl, hf, hts⟩
    cases hf with
    | @declaration type run name opener closer semicolon ht hname ho hr hc hs =>
      have htype := (clean_typeSpec_named hk hname).2 ⟨ht, by simpa using hts⟩
      refine clean_bind.2 ⟨type, _, htype, ?_⟩
      simp only [clean_expect]
      refine ⟨name, _, rfl, hname, opener, run ++ closer :: semicolon :: rest, by simp, ho,
        clean_bind.2 ⟨_, _, clean_parameters.2 ⟨run, closer, hr, hc, rfl, rfl⟩, ?_⟩⟩
      simp only [clean_accept, clean_pure]
      exact .inl ⟨semicolon, rest, rfl, hs, by simp [leaves], rfl⟩
    | @definition type run name opener closer begins ends forest ht hname ho hr hc hb hall he =>
      have htype := (clean_typeSpec_named hk hname).2 ⟨ht, by simpa using hts⟩
      have hbody := clean_functionBody.2 ⟨forest, ends, hall, he, @rfl _ (_ ++ ends :: rest), rfl⟩
      refine clean_bind.2 ⟨type, _, htype, ?_⟩
      simp only [clean_expect]
      refine ⟨name, _, rfl, hname, opener,
        run ++ closer :: begins :: (tokensAll forest ++ ends :: rest), by simp, ho,
        clean_bind.2 ⟨_, _, clean_parameters.2 ⟨run, closer, hr, hc, rfl, rfl⟩, ?_⟩⟩
      simp only [clean_accept, clean_expect]
      refine .inr ⟨?_, begins, _, rfl, hb, clean_map.2 ⟨_, by simp [leaves], hbody⟩⟩
      simp [Token.not_separator_of_separator (m := ";") hb]

theorem function_first {n : Nat} {f : SyntaxTree} (h : Function n f) :
    ∃ k us, f.tokens = k :: us ∧ k.isTypeKeyword = true := by
  cases h with
  | declaration ht _ _ _ _ _ =>
    obtain ⟨k, us, rfl, hk⟩ := typeSpec_first ht
    exact ⟨k, _, rfl, hk⟩
  | definition ht _ _ _ _ _ _ _ =>
    obtain ⟨k, us, rfl, hk⟩ := typeSpec_first ht
    exact ⟨k, _, rfl, hk⟩

theorem clean_topLevelItem_none {ts rest : List Token} :
    Clean topLevelItem ts none rest ↔ ts = rest ∧ ts = [] := by
  simp only [topLevelItem, clean_peek]
  cases ts with
  | nil => simp [clean_pure]
  | cons t ts =>
    by_cases h : t.isDirective = true
    · simp [h, not_clean_skipDirective]
    · simp [h, clean_map]

theorem clean_topLevelItem_some {ts rest : List Token} {xs : List SyntaxTree} :
    Clean topLevelItem ts (some xs) rest ↔
      ∃ f, xs = [f] ∧ Function maxNesting f ∧ ts = f.tokens ++ rest := by
  simp only [topLevelItem, clean_peek]
  cases ts with
  | nil =>
    simp only [List.head?_nil, clean_pure, reduceCtorEq, false_and, false_iff]
    rintro ⟨f, -, hf, hts⟩
    obtain ⟨k, us, htokens, -⟩ := function_first hf
    simp [htokens] at hts
  | cons t ts =>
    simp only [List.head?_cons]
    constructor
    · intro h
      split at h
      · exact absurd h not_clean_skipDirective
      · obtain ⟨_, ⟨⟩, h⟩ := clean_map.1 h
        have hext := ((clean_advancing (by simp)).1 h).1
        simp only [external] at hext
        split at hext
        · rename_i hk
          obtain ⟨_, rfl, hfunction⟩ := clean_map.1 hext
          obtain ⟨f, rfl, hf, hts⟩ := (clean_function hk).1 hfunction
          exact ⟨f, rfl, hf, hts⟩
        · simp [clean_note] at hext
    · rintro ⟨f, rfl, hf, hts⟩
      obtain ⟨k, us, htokens, hk⟩ := function_first hf
      obtain ⟨rfl, rfl⟩ : t = k ∧ ts = us ++ rest := by simpa [htokens] using hts
      have hdirective : t.isDirective = false := by
        simp [Token.isDirective, (Token.isTypeKeyword_iff.1 hk).1]
      have hlt : rest.length < (t :: (us ++ rest)).length := by
        simp only [List.length_cons, List.length_append]
        omega
      simp only [hdirective, Bool.false_eq_true, if_false]
      refine clean_map.2 ⟨[f], rfl, (clean_advancing (by simp)).2 ⟨?_, hlt⟩⟩
      simp only [external, hk, if_true]
      exact clean_map.2 ⟨some f, rfl, (clean_function hk).2 ⟨f, rfl, hf, hts⟩⟩

theorem clean_program {ts : List Token} {T : SyntaxTree} :
    Clean program ts T [] ↔ Program maxNesting T ∧ T.tokens = ts := by
  have hmany {forest : List SyntaxTree} :
      (∃ lists, lists.flatten = forest ∧ Clean (many topLevelItem) ts lists []) ↔
        (∀ f ∈ forest, Function maxNesting f) ∧ ts = tokensAll forest ++ [] := by
    rw [← many_singletons]
    refine clean_many_pieces (fun _ => True) ?_ clean_topLevelItem_none ?_ (fun _ => trivial)
      trivial rfl
    · intro ts xs rest h
      obtain ⟨f, rfl, hf, rfl⟩ := clean_topLevelItem_some.1 h
      obtain ⟨k, us, htokens, -⟩ := function_first hf
      simp only [htokens, List.cons_append, List.length_cons, List.length_append]
      omega
    · intro ts xs rest _
      rw [clean_topLevelItem_some]
      constructor
      · rintro ⟨f, rfl, hf, rfl⟩
        exact ⟨⟨f, rfl, hf⟩, by simp⟩
      · rintro ⟨⟨f, rfl, hf⟩, rfl⟩
        exact ⟨f, rfl, hf, by simp⟩
  rw [program, clean_map]
  constructor
  · rintro ⟨lists, rfl, h⟩
    obtain ⟨hall, hts⟩ := hmany.1 ⟨lists, rfl, h⟩
    exact ⟨.mk hall, by simpa using hts.symm⟩
  · rintro ⟨⟨hall⟩, rfl⟩
    obtain ⟨lists, rfl, h⟩ := hmany.2 ⟨hall, by simp⟩
    exact ⟨lists, rfl, h⟩

end Parse

open Parse

theorem warnings_eq_nil_iff {ts : List Token} :
    (parseTokens ts).warnings = [] ↔ Clean program ts (program ts).value [] := by
  have hkind : (∀ w ∈ (parseTokens ts).warnings, False) ↔ ∀ d ∈ (program ts).notes, False :=
    warnings_forall_kind (P := fun _ => False)
  have hnil {l : List Diagnostic} : l = [] ↔ ∀ d ∈ l, False := List.eq_nil_iff_forall_not_mem
  rw [hnil, hkind, ← hnil]
  constructor
  · intro hnotes
    exact ⟨rfl, program_rest ts, hnotes⟩
  · exact fun h => h.2.2

/-- A source is read without a warning exactly when it is a sentence of the grammar nested no deeper
than the limit, and the tree is then its derivation. -/
theorem warnings_nil_iff_derivation (ts : List Token) :
    ((parseTokens ts).warnings = [] ↔ ∃ T, Program maxNesting T ∧ T.tokens = ts) ∧
      ∀ T, Program maxNesting T → T.tokens = ts → (parseTokens ts).tree = T.toParseTree := by
  constructor
  · rw [warnings_eq_nil_iff]
    constructor
    · intro h
      exact ⟨_, clean_program.1 h⟩
    · rintro ⟨T, hT⟩
      obtain ⟨-, hr, hn⟩ := clean_program.2 hT
      exact ⟨rfl, hr, hn⟩
  · intro T hT hts
    obtain ⟨hv, -, -⟩ := clean_program.2 ⟨hT, hts⟩
    exact congrArg toParseTree hv

def Token.opening (line : Nat) : Token := ⟨.separator, "\x7b", line⟩

def Token.closing (line : Nat) : Token := ⟨.separator, "\x7d", line⟩

/-- The tokens of `n` empty blocks nested in each other. -/
def emptyBlocks (line n : Nat) : List Token :=
  List.replicate n (Token.opening line) ++ List.replicate n (Token.closing line)

theorem emptyBlocks_succ (line n : Nat) :
    emptyBlocks line (n + 1) =
      Token.opening line :: (emptyBlocks line n ++ [Token.closing line]) := by
  simp [emptyBlocks, List.replicate_succ, ← List.replicate_succ']

/-- Statements wrapped in `n` blocks. -/
def nest (line : Nat) : Nat → List SyntaxTree → List SyntaxTree
  | 0, forest => forest
  | n + 1, forest =>
    [.node .statement [.node .block (.leaf (Token.opening line) :: nest line n forest ++
      [.leaf (Token.closing line)])]]

theorem tokensAll_nest (line n : Nat) (forest : List SyntaxTree) :
    tokensAll (nest line n forest) = List.replicate n (Token.opening line) ++
      (tokensAll forest ++ List.replicate n (Token.closing line)) := by
  induction n with
  | zero => simp [nest]
  | succ n ih => simp [nest, ih, List.replicate_succ, ← List.replicate_succ']

theorem nest_statements {m : Nat} {forest : List SyntaxTree} (h : ∀ b ∈ forest, Statement m b)
    (line n : Nat) : ∀ b ∈ nest line n forest, Statement (m + n) b := by
  induction n with
  | zero => exact h
  | succ n ih =>
    intro b hb
    obtain rfl := List.mem_singleton.1 hb
    exact .mk (.block (.mk rfl ih rfl))

/-- A function without parameters. -/
def plainFunction (forest : List SyntaxTree) : SyntaxTree :=
  .node .functionDefinition
    [.leaf ⟨.keyword, "int", 1⟩, .leaf ⟨.identifier, "f", 1⟩, .leaf ⟨.separator, "(", 1⟩,
      .node .parameters [], .leaf ⟨.separator, ")", 1⟩, .leaf (Token.opening 1),
      .node .functionBody forest, .leaf (Token.closing 1)]

theorem plainFunction_function {n : Nat} {forest : List SyntaxTree}
    (h : ∀ b ∈ forest, Statement n b) : Function n (plainFunction forest) := by
  have htype : TypeSpec [⟨.keyword, "int", 1⟩] :=
    @TypeSpec.mk [_] [] false (by simp) (.keyword rfl .nil) nofun fun _ => rfl
  exact @Function.definition n _ [] _ _ _ _ _ forest htype rfl rfl .nil rfl rfl h rfl

/-- A function whose body is nothing but nested empty blocks. -/
def nestedSource (n : Nat) : List Token :=
  [⟨.keyword, "int", 1⟩, ⟨.identifier, "f", 1⟩, ⟨.separator, "(", 1⟩, ⟨.separator, ")", 1⟩,
    Token.opening 1] ++ emptyBlocks 1 n ++ [Token.closing 1]

theorem nestedSource_derivation (n : Nat) : ∃ T, Program n T ∧ T.tokens = nestedSource n := by
  have hforest := @nest_statements 0 [] (by simp) 1 n
  rw [Nat.zero_add] at hforest
  refine ⟨.node .program [plainFunction (nest 1 n [])], .mk fun g hg => ?_, ?_⟩
  · obtain rfl := List.mem_singleton.1 hg
    exact plainFunction_function hforest
  · simp [plainFunction, tokensAll_nest, nestedSource, emptyBlocks]

/-- One block more than the limit: a sentence of the grammar that is read with a warning. -/
theorem deep_sentence_has_warnings :
    (∃ n T, Program n T ∧ T.tokens = nestedSource 129) ∧
      (parseTokens (nestedSource 129)).warnings ≠ [] :=
  ⟨⟨129, nestedSource_derivation 129⟩, by decide +kernel⟩

end CAudit
