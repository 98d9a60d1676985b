import CAudit.Proofs.CleanExpression
import CAudit.Proofs.Accounting

/-! Clean runs of the rules for declarations. Behind a declared name a comma or a semicolon follows,
and neither can be taken for a further part of it. -/
namespace CAudit.Parse

open Grammar SyntaxTree

/-- A rule whose clean runs are the pieces of a kind, repeated: its runs are any number of pieces.
`follow` is what has to stand behind a piece. -/
theorem clean_loop_many {p : Parse (Turn (List SyntaxTree))} {Piece : List SyntaxTree → Prop}
    {stop : List Token → Prop} (follow : List Token → Prop) (hp : Progresses p)
    (hstop : ∀ {ts rest}, Clean p ts .stop rest ↔ ts = rest ∧ stop ts)
    (hmore : ∀ {ts xs rest}, follow rest →
      (Clean p ts (.more xs) rest ↔ Piece xs ∧ ts = tokensAll xs ++ rest))
    (hfollow : ∀ {xs rest}, Piece xs → follow (tokensAll xs ++ rest))
    {forest : List SyntaxTree} {ts rest : List Token} (hrest : follow rest) (hs : stop rest) :
    (∃ lists, lists.flatten = forest ∧ Clean (loop p) ts (some lists) rest) ↔
      Many Piece forest ∧ ts = tokensAll forest ++ rest := by
  have hmany {forest : List SyntaxTree} (h : Many Piece forest) :
      follow (tokensAll forest ++ rest) := by
    cases h with
    | nil => exact hrest
    | cons hx _ =>
      rw [tokensAll_append, List.append_assoc]
      exact hfollow hx
  constructor
  · rintro ⟨lists, rfl, h⟩
    induction lists generalizing ts with
    | nil =>
      obtain ⟨rfl, -⟩ := hstop.1 (clean_loop_nil.1 h)
      exact ⟨.nil, rfl⟩
    | cons xs lists ih =>
      obtain ⟨mid, hx, h⟩ := (clean_loop_cons hp).1 h
      obtain ⟨hl, rfl⟩ := ih h
      obtain ⟨hpx, rfl⟩ := (hmore (hmany hl)).1 hx
      exact ⟨.cons hpx hl, by simp⟩
  · rintro ⟨h, rfl⟩
    induction h with
    | nil => exact ⟨[], rfl, clean_loop_nil.2 (hstop.2 ⟨rfl, hs⟩)⟩
    | @cons first more hx hm ih =>
      obtain ⟨lists, rfl, h⟩ := ih
      refine ⟨first :: lists, by simp, (clean_loop_cons hp).2 ⟨_, ?_, h⟩⟩
      exact (hmore (hmany hm)).2 ⟨hx, by simp⟩

theorem clean_arraySize_stop {n : Nat} {ts rest : List Token} :
    Clean (arraySize n) ts .stop rest ↔
      ts = rest ∧ ts.head?.any (·.isSeparator "[") = false := by
  simp only [arraySize, clean_accept, clean_bind (p := expression n .arraySize), clean_expect,
    clean_pure]
  constructor
  · rintro (⟨_, _, _, _, _, _, _, _, _, _, _, ⟨⟩, _⟩ | ⟨h, -, rfl⟩)
    exact ⟨rfl, h⟩
  · rintro ⟨rfl, h⟩
    exact .inr ⟨h, trivial, rfl⟩

theorem clean_arraySize_more {n : Nat} {ts rest : List Token} {xs : List SyntaxTree} :
    Clean (arraySize n) ts (.more xs) rest ↔ ArraySize n xs ∧ ts = tokensAll xs ++ rest := by
  simp only [arraySize, clean_accept, clean_bind (p := expression n .arraySize), clean_expect,
    clean_pure, clean_expression]
  constructor
  · rintro (⟨opener, _, rfl, ho, _, _, ⟨items, rfl, hi, rfl, -⟩, closer, _, rfl, hc, ⟨⟩, rfl⟩ |
      ⟨-, ⟨⟩, -⟩)
    exact ⟨.mk ho hi hc, by simp⟩
  · rintro ⟨@⟨opener, closer, items, ho, hi, hc⟩, rfl⟩
    refine .inl ⟨opener, tokensAll items ++ closer :: rest, by simp, ho, _, closer :: rest,
      ⟨items, rfl, hi, rfl, ?_⟩, closer, rest, rfl, hc, rfl, rfl⟩
    simp [Token.endsExpression_of_separator hc, Token.expressionEnds]

theorem not_clean_arraySize_abandon {n : Nat} (ts rest : List Token) :
    ¬ Clean (arraySize n) ts .abandon rest := by
  simp only [arraySize, clean_accept, clean_bind (p := expression n .arraySize), clean_expect,
    clean_pure]
  rintro (⟨_, _, _, _, _, _, _, _, _, _, _, ⟨⟩, _⟩ | ⟨-, ⟨⟩, -⟩)

theorem progresses_arraySize (n : Nat) : Progresses (arraySize n) := by
  intro ts xs rest h
  obtain ⟨⟨_, _, _⟩, rfl⟩ := clean_arraySize_more.1 h
  simp
  omega

theorem clean_arraySizes {n : Nat} {ts rest : List Token} {sizes : List SyntaxTree}
    (hrest : rest.head?.any (·.isSeparator "[") = false) :
    (∃ lists, lists.flatten = sizes ∧ Clean (loop (arraySize n)) ts (some lists) rest) ↔
      Many (ArraySize n) sizes ∧ ts = tokensAll sizes ++ rest :=
  clean_loop_many (fun _ => True) (progresses_arraySize n) clean_arraySize_stop
    (fun _ => clean_arraySize_more) (fun _ => trivial) trivial hrest

/-- What stands behind a declared name: a comma or a semicolon. -/
def EndsName (rest : List Token) : Prop :=
  ∃ t us, rest = t :: us ∧ (t.isSeparator "," = true ∨ t.isSeparator ";" = true)

theorem EndsName.not_separator {rest : List Token} (h : EndsName rest) {l : String}
    (hc : "," ≠ l) (hs : ";" ≠ l) : rest.head?.any (·.isSeparator l) = false := by
  obtain ⟨t, us, rfl, ht | ht⟩ := h
  · simp [Token.not_separator_of_separator ht hc]
  · simp [Token.not_separator_of_separator ht hs]

theorem EndsName.not_operator {rest : List Token} (h : EndsName rest) {l : String} :
    rest.head?.any (·.isOperator l) = false := by
  obtain ⟨t, us, rfl, ht | ht⟩ := h <;>
    simp [Token.isOperator, Token.is, (Token.isSeparator_iff.1 ht).1]

theorem EndsName.endsExpression {rest : List Token} (h : EndsName rest) :
    rest.head?.all (·.endsExpression) = true := by
  obtain ⟨t, us, rfl, ht | ht⟩ := h <;>
    simp [Token.endsExpression_of_separator ht, Token.expressionEnds]

theorem clean_initializerList {opener : Token} {ts rest : List Token} {b : SyntaxTree}
    (ho : opener.isSeparator "\x7b" = true) :
    Clean initializerList (opener :: ts) b rest ↔
      ∃ run closer, b = .node .initializerList (.leaf opener :: run.map .leaf ++ [.leaf closer]) ∧
        Initializers run ∧ closer.isSeparator "\x7d" = true ∧ ts = run ++ closer :: rest := by
  simp only [initializerList, clean_here, clean_spanFrom, clean_mention]
  constructor
  · rintro ⟨xs, depth, mid, hts, hxs, -, h⟩
    cases depth with
    | some d => simp [clean_note] at h
    | none =>
      obtain ⟨rfl, rfl⟩ := by simpa [clean_pure] using h
      cases xs with
      | nil => simp at hxs
      | cons x xs =>
        obtain ⟨rfl, rfl⟩ := List.cons.inj hts
        obtain ⟨run, closer, rfl, hc, hr⟩ := (foldlM_initializer ho).1 hxs
        exact ⟨run, closer, by simp [leaves], hr, hc, by simp⟩
  · rintro ⟨run, closer, rfl, hr, hc, rfl⟩
    refine ⟨opener :: (run ++ [closer]), none, rest, by simp,
      (foldlM_initializer ho).2 ⟨run, closer, rfl, hc, hr⟩, ?_, ?_⟩
    · cases rest <;> rfl
    · simp [clean_pure, leaves]

/-- The items of an expression do not start with a brace. -/
theorem items_head_not_brace {n : Nat} {items : List SyntaxTree} (h : Items n false items)
    {rest : List Token} (hrest : rest.head?.any (·.isSeparator "\x7b") = false) :
    (tokensAll items ++ rest).head?.any (·.isSeparator "\x7b") = false := by
  cases h with
  | nil => exact hrest
  | @token _ _ t _ ho hp _ =>
    rcases hp with hp | ⟨⟨⟩, -⟩
    simp only [tokensAll_cons, tokens_leaf, List.cons_append, List.head?_cons, Option.any_some]
    cases hb : t.isSeparator "\x7b" with
    | false => rfl
    | true => simp [Token.endsExpression_of_separator hb, Token.expressionEnds] at hp
  | group hp _ _ =>
    rcases hp with hp | hp <;> simp [Token.not_separator_of_separator hp.1]

theorem clean_initializer {n : Nat} {ts rest : List Token} {v : List SyntaxTree}
    (hrest : EndsName rest) :
    Clean (initializer n) ts v rest ↔ Value n v ∧ ts = tokensAll v ++ rest := by
  have hbrace := hrest.not_separator (l := "\x7b") (by decide) (by decide)
  simp only [initializer, clean_accept, clean_peek, clean_pure]
  constructor
  · rintro (⟨assign, mid, rfl, ha, h⟩ | ⟨-, rfl, rfl⟩)
    · by_cases hb : mid.head?.any (·.isSeparator "\x7b") = true
      · obtain ⟨opener, us, rfl, ho⟩ : ∃ t us, mid = t :: us ∧ t.isSeparator "\x7b" = true := by
          cases mid with
          | nil => simp at hb
          | cons t us => exact ⟨t, us, rfl, by simpa using hb⟩
        simp only [hb, if_true, clean_map, clean_initializerList ho] at h
        obtain ⟨_, rfl, run, closer, rfl, hr, hc, rfl⟩ := h
        exact ⟨.list ha ho hr hc, by simp⟩
      · rw [if_neg hb] at h
        simp only [clean_map, clean_expression] at h
        obtain ⟨_, rfl, items, rfl, hi, rfl, -⟩ := h
        exact ⟨.expression ha hi, by simp⟩
    · exact ⟨.none, rfl⟩
  · rintro ⟨hv, rfl⟩
    cases hv with
    | none => exact .inr ⟨hrest.not_operator, rfl, rfl⟩
    | @expression assign items ha hi =>
      refine .inl ⟨assign, tokensAll items ++ rest, by simp, ha, ?_⟩
      simp only [items_head_not_brace hi hbrace, Bool.false_eq_true, if_false, clean_map,
        clean_expression]
      exact ⟨_, rfl, items, rfl, hi, rfl, hrest.endsExpression⟩
    | @list assign opener closer run ha ho hr hc =>
      refine .inl ⟨assign, opener :: (run ++ closer :: rest), by simp, ha, ?_⟩
      simp only [List.head?_cons, Option.any_some, ho, if_true, clean_map,
        clean_initializerList ho]
      exact ⟨_, rfl, run, closer, rfl, hr, hc, rfl⟩

theorem value_head_not_bracket {n : Nat} {v : List SyntaxTree} {rest : List Token}
    (hv : Value n v) (hrest : EndsName rest) :
    (tokensAll v ++ rest).head?.any (·.isSeparator "[") = false := by
  have hop {t : Token} (h : t.isOperator "=" = true) : t.isSeparator "[" = false := by
    simp [Token.isSeparator, Token.is, (Token.isOperator_iff.1 h).1]
  cases hv with
  | none => exact hrest.not_separator (by decide) (by decide)
  | expression ha _ => simp [hop ha]
  | list ha _ _ _ => simp [hop ha]

theorem clean_declarator {n : Nat} {ts rest : List Token} {o : Option (List SyntaxTree)}
    (hrest : EndsName rest) :
    Clean (declarator n) ts o rest ↔
      ∃ stars items, o = some (stars.map .leaf ++ items) ∧ Stars stars ∧ Declarator n items ∧
        ts = stars ++ (tokensAll items ++ rest) := by
  simp only [declarator, Parse.stars, clean_spanWhile, clean_expect]
  constructor
  · rintro ⟨stars, _, rfl, hs, -, name, mid, rfl, hname, h⟩
    obtain ⟨_ | lists, mid', hl, h⟩ := clean_bind.1 h
    · exact absurd hl (not_clean_loop_none not_clean_arraySize_abandon)
    · simp only [clean_map, clean_initializer hrest] at h
      obtain ⟨v, rfl, hv, rfl⟩ := h
      obtain ⟨hsizes, rfl⟩ :=
        (clean_arraySizes (value_head_not_bracket hv hrest)).1 ⟨lists, rfl, hl⟩
      exact ⟨stars, _, by simp [leaves], hs, .mk hname hsizes hv, by simp⟩
  · rintro ⟨stars, _, rfl, hs, @⟨name, sizes, v, hname, hsizes, hv⟩, rfl⟩
    obtain ⟨lists, rfl, hl⟩ :=
      (clean_arraySizes (value_head_not_bracket hv hrest)).2 ⟨hsizes, rfl⟩
    refine ⟨stars, name :: (tokensAll lists.flatten ++ (tokensAll v ++ rest)), by simp, hs, ?_,
      name, _, rfl, hname, clean_bind.2 ⟨some lists, _, hl, ?_⟩⟩
    · simp [Token.isOperator, Token.is, Token.isIdentifier_iff.1 hname]
    · simp only [clean_map, clean_initializer hrest]
      exact ⟨v, by simp [leaves], hv, rfl⟩

theorem clean_nextDeclarator_stop {n : Nat} {ts rest : List Token} :
    Clean (nextDeclarator n) ts .stop rest ↔
      ts = rest ∧ ts.head?.any (·.isSeparator ",") = false := by
  simp only [nextDeclarator, clean_accept, clean_pure]
  constructor
  · rintro (⟨_, mid, rfl, hc, h⟩ | ⟨h, -, rfl⟩)
    · obtain ⟨_ | d, _, -, h⟩ := clean_bind.1 h <;> simp [clean_pure] at h
    · exact ⟨rfl, h⟩
  · rintro ⟨rfl, h⟩
    exact .inr ⟨h, trivial, rfl⟩

theorem clean_nextDeclarator_more {n : Nat} {ts rest : List Token} {xs : List SyntaxTree}
    (hrest : EndsName rest) :
    Clean (nextDeclarator n) ts (.more xs) rest ↔
      NextDeclarator n xs ∧ ts = tokensAll xs ++ rest := by
  simp only [nextDeclarator, clean_accept, clean_pure]
  constructor
  · rintro (⟨comma, mid, rfl, hc, h⟩ | ⟨-, ⟨⟩, -⟩)
    obtain ⟨_ | d, _, hd, h⟩ := clean_bind.1 h
    · simp [clean_pure] at h
    · obtain ⟨⟨⟩, rfl⟩ := clean_pure.1 h
      obtain ⟨stars, items, ⟨⟩, hs, hi, rfl⟩ := (clean_declarator hrest).1 hd
      exact ⟨.mk hc hs hi, by simp⟩
  · rintro ⟨@⟨comma, stars, items, hc, hs, hi⟩, rfl⟩
    refine .inl ⟨comma, stars ++ (tokensAll items ++ rest), by simp, hc, ?_⟩
    exact clean_bind.2 ⟨some _, rest, (clean_declarator hrest).2 ⟨stars, items, rfl, hs, hi, rfl⟩,
      clean_pure.2 ⟨rfl, rfl⟩⟩

theorem not_clean_declarator_none {n : Nat} (ts rest : List Token) :
    ¬ Clean (declarator n) ts none rest := by
  simp only [declarator, Parse.stars, clean_spanWhile, clean_expect]
  rintro ⟨stars, _, -, -, -, name, mid, -, -, h⟩
  obtain ⟨_ | lists, mid', hl, h⟩ := clean_bind.1 h
  · exact not_clean_loop_none not_clean_arraySize_abandon hl
  · simp [clean_map] at h

theorem not_clean_nextDeclarator_abandon {n : Nat} (ts rest : List Token) :
    ¬ Clean (nextDeclarator n) ts .abandon rest := by
  simp only [nextDeclarator, clean_accept, clean_pure]
  rintro (⟨comma, mid, -, -, h⟩ | ⟨-, ⟨⟩, -⟩)
  obtain ⟨_ | d, _, hd, h⟩ := clean_bind.1 h
  · exact not_clean_declarator_none _ _ hd
  · simp [clean_pure] at h

theorem progresses_nextDeclarator (n : Nat) : Progresses (nextDeclarator n) := by
  intro ts xs rest h
  simp only [nextDeclarator, clean_accept, clean_pure] at h
  obtain ⟨comma, mid, rfl, -, h⟩ | ⟨-, ⟨⟩, -⟩ := h
  obtain ⟨_ | d, _, hd, h⟩ := clean_bind.1 h
  · simp [clean_pure] at h
  · obtain ⟨-, rfl⟩ := clean_pure.1 h
    have hle := (hd.suffix (tracks_declarator n)).length_le
    simp only [List.length_cons]
    omega

theorem nextDeclarator_endsName {n : Nat} {xs : List SyntaxTree} {rest : List Token}
    (h : NextDeclarator n xs) : EndsName (tokensAll xs ++ rest) := by
  obtain @⟨comma, stars, items, hc, -, -⟩ := h
  exact ⟨comma, stars ++ (tokensAll items ++ rest), by simp, .inl hc⟩

theorem clean_nextDeclarators {n : Nat} {ts rest : List Token} {more : List SyntaxTree}
    {semicolon : Token} (hs : semicolon.isSeparator ";" = true) :
    (∃ lists, lists.flatten = more ∧
        Clean (loop (nextDeclarator n)) ts (some lists) (semicolon :: rest)) ↔
      Many (NextDeclarator n) more ∧ ts = tokensAll more ++ semicolon :: rest := by
  refine clean_loop_many EndsName (progresses_nextDeclarator n) clean_nextDeclarator_stop
    clean_nextDeclarator_more nextDeclarator_endsName ⟨semicolon, rest, rfl, .inr hs⟩ ?_
  simp [Token.not_separator_of_separator (m := ",") hs]

theorem clean_declaration {n : Nat} {k : Token} {ts rest : List Token} {o : Option SyntaxTree}
    (hk : k.isTypeKeyword = true) :
    Clean (declaration n) (k :: ts) o rest ↔
      ∃ type first more semicolon,
        o = some (.node .declaration (type.map .leaf ++ first ++ more ++ [.leaf semicolon])) ∧
        TypeSpec type ∧ Declarator n first ∧ Many (NextDeclarator n) more ∧
        semicolon.isSeparator ";" = true ∧
        k :: ts = type ++ (tokensAll first ++ (tokensAll more ++ semicolon :: rest)) := by
  have hend {more : List SyntaxTree} {semicolon : Token} (hm : Many (NextDeclarator n) more)
      (hs : semicolon.isSeparator ";" = true) :
      EndsName (tokensAll more ++ semicolon :: rest) := by
    cases hm with
    | nil => exact ⟨semicolon, rest, rfl, .inr hs⟩
    | cons h _ =>
      rw [tokensAll_append, List.append_assoc]
      exact nextDeclarator_endsName h
  constructor
  · intro h
    obtain ⟨type, mid, htype, h⟩ := clean_bind.1 h
    obtain ⟨_ | first, mid₁, hfirst, h⟩ := clean_bind.1 h
    · exact absurd hfirst (not_clean_declarator_none _ _)
    obtain ⟨_ | lists, mid₂, hl, h⟩ := clean_bind.1 h
    · exact absurd hl (not_clean_loop_none not_clean_nextDeclarator_abandon)
    simp only [clean_expect, clean_pure] at h
    obtain ⟨semicolon, _, rfl, hs, rfl, rfl⟩ := h
    obtain ⟨hmore, rfl⟩ := (clean_nextDeclarators hs).1 ⟨lists, rfl, hl⟩
    obtain ⟨stars, items, ⟨⟩, hstars, hitems, rfl⟩ := (clean_declarator (hend hmore hs)).1 hfirst
    -- The type has taken all stars, so the first name has none of its own.
    obtain ⟨-, -, -, -, -, -, -, -, hstop⟩ := clean_typeSpec.1 htype
    obtain rfl : stars = [] := by
      cases stars with
      | nil => rfl
      | cons t us => simp [hstars t List.mem_cons_self] at hstop
    obtain ⟨hname, hsizes, hv⟩ := hitems
    obtain ⟨ht, hts⟩ := (clean_typeSpec_named hk hname).1 htype
    exact ⟨type, _, _, semicolon, by simp [leaves], ht, .mk hname hsizes hv, hmore, hs,
      by simpa using hts⟩
  · rintro ⟨type, first, more, semicolon, rfl, ht, hfirst, hmore, hs, hts⟩
    obtain ⟨lists, rfl, hl⟩ := (@clean_nextDeclarators n _ rest _ _ hs).2 ⟨hmore, rfl⟩
    have hd := (clean_declarator (hend hmore hs)).2
      ⟨[], first, rfl, List.forall_mem_nil _, hfirst, rfl⟩
    obtain @⟨name, sizes, v, hname, hsizes, hv⟩ := hfirst
    have htype := (clean_typeSpec_named hk hname).2 ⟨ht, by simpa using hts⟩
    refine clean_bind.2 ⟨type, _, htype, clean_bind.2 ⟨some _, _, by simpa using hd,
      clean_bind.2 ⟨some lists, _, hl, ?_⟩⟩⟩
    simp only [clean_expect, clean_pure]
    exact ⟨semicolon, rest, rfl, hs, by simp [leaves], rfl⟩

end CAudit.Parse
