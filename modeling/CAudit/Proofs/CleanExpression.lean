import CAudit.Proofs.CleanRun
import CAudit.Proofs.Grammar
import CAudit.Proofs.SyntaxTree

/-! Clean runs of the rules for flat runs, types, expressions and declarations: they are the
derivations of the grammar, each followed by a token at which the rule stops. -/
namespace CAudit.Parse

open Grammar SyntaxTree

/-- How a token moves the number of open brackets. -/
def Moves (opener closer : String) (barred : Token → Bool) (t : Token) (d d' : Nat) : Prop :=
  t.isSeparator opener = true ∧ d' = d + 1 ∨ t.isSeparator closer = true ∧ d = d' + 1 ∨
    t.isSeparator opener = false ∧ t.isSeparator closer = false ∧ barred t = false ∧ d' = d

theorem balanced_cons {opener closer : String} {barred : Token → Bool} {t : Token}
    {ts : List Token} {d : Nat} :
    Balanced opener closer barred d (t :: ts) ↔
      ∃ d', Moves opener closer barred t d d' ∧ Balanced opener closer barred d' ts := by
  constructor
  · intro h
    cases h with
    | opens ho h => exact ⟨_, .inl ⟨ho, rfl⟩, h⟩
    | closes hc h => exact ⟨_, .inr (.inl ⟨hc, rfl⟩), h⟩
    | other ho hc hb h => exact ⟨_, .inr (.inr ⟨ho, hc, hb, rfl⟩), h⟩
  · rintro ⟨d', ⟨ho, rfl⟩ | ⟨hc, rfl⟩ | ⟨ho, hc, hb, rfl⟩, h⟩
    · exact .opens ho h
    · exact .closes hc h
    · exact .other ho hc hb h

theorem balanced_nil {opener closer : String} {barred : Token → Bool} {d : Nat} :
    Balanced opener closer barred d [] ↔ d = 0 := by
  constructor
  · rintro ⟨⟩
    rfl
  · rintro rfl
    exact .nil

/-- A step that moves as brackets do lets exactly the balanced runs through. -/
theorem foldlM_balanced {opener closer : String} {barred : Token → Bool}
    {step : Nat → Token → Option Nat}
    (hstep : ∀ d t d', step d t = some d' ↔ Moves opener closer barred t d d')
    {xs : List Token} {d : Nat} :
    xs.foldlM step d = some 0 ↔ Balanced opener closer barred d xs := by
  induction xs generalizing d with
  | nil => simp [balanced_nil]
  | cons t ts ih =>
    simp only [List.foldlM_cons, Option.bind_eq_bind, Option.bind_eq_some_iff, hstep, ih,
      balanced_cons]

/-- Counting parentheses, with a stop at barred tokens and at a parenthesis too many. -/
theorem parens_eq_some {barred : Token → Bool} {t : Token} {d d' : Nat} :
    (if t.isSeparator ")" then if d = 0 then none else some (d - 1)
      else if t.isSeparator "(" then some (d + 1)
      else if barred t then none else some d) = some d' ↔ Moves "(" ")" barred t d d' := by
  unfold Moves
  by_cases hc : t.isSeparator ")" = true
  · have ho := Token.not_separator_of_separator (m := "(") hc (by decide)
    by_cases hd : d = 0
    · simp [hc, ho, hd]
    · simp [hc, ho, hd]
      omega
  · by_cases ho : t.isSeparator "(" = true
    · simp [hc, ho]
      omega
    · by_cases hb : barred t = true
      · simp [hc, ho, hb]
      · simp [hc, ho, hb]
        omega

theorem foldlM_conditionStep {xs : List Token} :
    xs.foldlM conditionStep 0 = some 0 ↔ Condition xs :=
  foldlM_balanced fun _ _ _ => parens_eq_some

theorem foldlM_parameterStep {xs : List Token} :
    xs.foldlM parameterStep 0 = some 0 ↔ Parameters xs :=
  foldlM_balanced fun _ _ _ => parens_eq_some

theorem initializerStep_closes {t : Token} {d : Nat} :
    initializerStep (some (d + 1)) t = some none ↔ t.isSeparator "\x7d" = true ∧ d = 0 := by
  by_cases hc : t.isSeparator "\x7d" = true
  · have ho := Token.not_separator_of_separator (m := "\x7b") hc (by decide)
    by_cases hd : d = 0 <;> simp [initializerStep, hc, ho, hd]
  · by_cases ho : t.isSeparator "\x7b" = true
    · simp [initializerStep, hc, ho]
    · by_cases hb : (t.isSeparator ";" || t.isDirective) = true <;>
        simp [initializerStep, hc, ho, hb]

theorem initializerStep_stays {t : Token} {d e : Nat} :
    initializerStep (some (d + 1)) t = some (some e) ↔
      ∃ d', e = d' + 1 ∧
        Moves "\x7b" "\x7d" (fun t => t.isSeparator ";" || t.isDirective) t d d' := by
  unfold Moves
  by_cases hc : t.isSeparator "\x7d" = true
  · have ho := Token.not_separator_of_separator (m := "\x7b") hc (by decide)
    by_cases hd : d = 0
    · simp [initializerStep, hc, ho, hd]
    · simp only [initializerStep, Option.bind_some, hc, ho]
      simp [hd]
      constructor
      · rintro rfl
        exact ⟨d - 1, by omega, by omega⟩
      · rintro ⟨d', rfl, rfl⟩
        rfl
  · by_cases ho : t.isSeparator "\x7b" = true
    · simp only [initializerStep, Option.bind_some, hc, ho]
      simp
      omega
    · by_cases hb : (t.isSeparator ";" || t.isDirective) = true
      · simp [initializerStep, hc, ho, hb]
      · simp only [initializerStep, Option.bind_some, hc, ho, hb]
        simp
        omega

/-- Inside an initializer the run ends with the brace that closes the first one. -/
theorem foldlM_initializerStep {xs : List Token} {d : Nat} :
    xs.foldlM initializerStep (some (d + 1)) = some none ↔
      ∃ run closer, xs = run ++ [closer] ∧ closer.isSeparator "\x7d" = true ∧
        Balanced "\x7b" "\x7d" (fun t => t.isSeparator ";" || t.isDirective) d run := by
  induction xs generalizing d with
  | nil => simp
  | cons t ts ih =>
    simp only [List.foldlM_cons, Option.bind_eq_bind, Option.bind_eq_some_iff]
    constructor
    · rintro ⟨_ | e, ht, hts⟩
      · obtain ⟨hc, rfl⟩ := initializerStep_closes.1 ht
        obtain rfl : ts = [] := by
          cases ts with
          | nil => rfl
          | cons u us => simp [List.foldlM_cons, initializerStep] at hts
        exact ⟨[], t, rfl, hc, .nil⟩
      · obtain ⟨d', rfl, hm⟩ := initializerStep_stays.1 ht
        obtain ⟨run, closer, rfl, hc, hr⟩ := ih.1 hts
        exact ⟨t :: run, closer, rfl, hc, balanced_cons.2 ⟨d', hm, hr⟩⟩
    · rintro ⟨run, closer, hts, hc, hr⟩
      cases run with
      | nil =>
        obtain ⟨rfl, rfl⟩ := List.cons.inj hts
        obtain rfl := balanced_nil.1 hr
        exact ⟨none, initializerStep_closes.2 ⟨hc, rfl⟩, rfl⟩
      | cons u us =>
        obtain ⟨rfl, rfl⟩ := List.cons.inj hts
        obtain ⟨d', hm, hr⟩ := balanced_cons.1 hr
        exact ⟨some (d' + 1), initializerStep_stays.2 ⟨d', rfl, hm⟩, ih.2 ⟨us, closer, rfl, hc, hr⟩⟩

/-- From its first brace on, an initializer is two braces around a balanced run. -/
theorem foldlM_initializer {opener : Token} {xs : List Token}
    (ho : opener.isSeparator "\x7b" = true) :
    (opener :: xs).foldlM initializerStep (some 0) = some none ↔
      ∃ run closer, xs = run ++ [closer] ∧ closer.isSeparator "\x7d" = true ∧
        Initializers run := by
  have hstep : initializerStep (some 0) opener = some (some 1) := by simp [initializerStep, ho]
  rw [List.foldlM_cons, hstep]
  exact foldlM_initializerStep

theorem foldlM_typeStep {xs : List Token} {waits last : Bool} :
    xs.foldlM typeStep waits = some last ↔ TypeWords waits xs last := by
  induction xs generalizing waits with
  | nil =>
    constructor
    · intro h
      obtain rfl : waits = last := by simpa using h
      exact .nil
    · rintro ⟨⟩
      rfl
  | cons t ts ih =>
    simp only [List.foldlM_cons, Option.bind_eq_bind, Option.bind_eq_some_iff, ih]
    by_cases hk : t.isTypeKeyword = true
    · have hi := Token.not_identifier_of_typeKeyword hk
      simp only [typeStep, hk, if_true, Option.some.injEq]
      constructor
      · rintro ⟨_, rfl, h⟩
        exact .keyword hk h
      · intro h
        cases h with
        | keyword _ h => exact ⟨_, rfl, h⟩
        | tag h' _ => simp [hi] at h'
    · simp only [typeStep, hk]
      constructor
      · rintro ⟨last', h, hw⟩
        cases waits with
        | false => simp at h
        | true =>
          by_cases hi : t.isIdentifier = true
          · obtain rfl : false = last' := by simpa [hi] using h
            exact .tag hi hw
          · simp [hi] at h
      · intro h
        cases h with
        | keyword h' _ => exact absurd h' hk
        | tag hi h => exact ⟨false, by simp [hi], h⟩

theorem clean_typeSpec {ts type rest : List Token} :
    Clean typeSpec ts type rest ↔
      ∃ words stars last, type = words ++ stars ∧ ts = words ++ (stars ++ rest) ∧
        TypeWords false words last ∧ Stars stars ∧ StopsAt typeStep last (stars ++ rest) ∧
        rest.head?.any (·.isOperator "*") = false := by
  simp only [typeSpec, Parse.stars, clean_spanFrom, clean_spanWhile, clean_pure, foldlM_typeStep]
  constructor
  · rintro ⟨words, last, _, rfl, hw, hs, stars, _, rfl, hstars, hr, rfl, rfl⟩
    exact ⟨words, stars, last, rfl, rfl, hw, hstars, hs, hr⟩
  · rintro ⟨words, stars, last, rfl, rfl, hw, hstars, hs, hr⟩
    exact ⟨words, last, _, rfl, hw, hs, stars, rest, rfl, hstars, hr, rfl, rfl⟩

/-- A type that starts with a type keyword and stands in front of an identifier. -/
theorem clean_typeSpec_named {k name : Token} {ts type rest : List Token}
    (hk : k.isTypeKeyword = true) (hname : name.isIdentifier = true) :
    Clean typeSpec (k :: ts) type (name :: rest) ↔
      TypeSpec type ∧ k :: ts = type ++ name :: rest := by
  have hkind := Token.isIdentifier_iff.1 hname
  have hstar : name.isOperator "*" = false := by simp [Token.isOperator, Token.is, hkind]
  have hword : name.isTypeKeyword = false := by simp [Token.isTypeKeyword, hkind]
  rw [clean_typeSpec]
  constructor
  · rintro ⟨words, stars, last, rfl, hts, hw, hstars, hs, -⟩
    refine ⟨.mk ?_ hw hstars ?_, by simpa using hts⟩
    · rintro rfl
      cases hw
      cases stars with
      | nil =>
        obtain rfl : k = name := by simpa using (List.cons.inj hts).1
        simp [hk] at hword
      | cons t us =>
        obtain rfl : k = t := by simpa using (List.cons.inj hts).1
        have := Token.isOperator_iff.1 (hstars k (by simp))
        simp [Token.isTypeKeyword, this.1] at hk
    · rintro rfl
      simpa [StopsAt, typeStep, hword, hname] using hs
  · rintro ⟨⟨_, hw, hstars, hlast⟩, hts⟩
    rename_i words stars last _
    refine ⟨words, stars, last, rfl, by simpa using hts, hw, hstars, ?_, by simp [hstar]⟩
    cases stars with
    | nil => simp [StopsAt, typeStep, hword, hlast rfl]
    | cons t us =>
      obtain ⟨ht, -⟩ := Token.isOperator_iff.1 (hstars t (by simp))
      simp [StopsAt, typeStep, Token.isTypeKeyword, Token.isIdentifier, ht]

/-- A token at which the items of an expression stop; inside a group a comma is no such token. -/
def stopsItems (commas : Bool) (t : Token) : Bool :=
  t.endsExpression && !(commas && t.isSeparator ",")

/-- The clean runs of a group behind its opener. -/
def GroupRun (n : Nat) (opener : Token) (ts : List Token) (g : List SyntaxTree)
    (rest : List Token) : Prop :=
  ∃ m inner closer, n = m + 1 ∧ Pairs opener closer ∧ Items m true inner ∧
    ts = tokensAll inner ++ closer :: rest ∧
    g = [.leaf opener, .node .expression inner, .leaf closer]

/-- The clean runs of one item, by the token it starts with. -/
def ItemRun (n : Nat) (commas : Bool) (ts : List Token) (o : Option (List SyntaxTree))
    (rest : List Token) : Prop :=
  match ts with
  | [] => o = none ∧ rest = []
  | t :: us =>
    if t.opensGroup then ∃ g, o = some g ∧ GroupRun n t us g rest
    else if stopsItems commas t then o = none ∧ rest = t :: us
    else o = some [.leaf t] ∧ rest = us

theorem ItemRun.length_lt {n : Nat} {commas : Bool} {ts rest : List Token} {g : List SyntaxTree}
    (h : ItemRun n commas ts (some g) rest) : rest.length < ts.length := by
  cases ts with
  | nil => simp [ItemRun] at h
  | cons t us =>
    simp only [ItemRun] at h
    split at h
    · obtain ⟨_, -, m, inner, closer, -, -, -, rfl, -⟩ := h
      simp
      omega
    · split at h
      · simp at h
      · simp [h.2]

theorem itemRun_none {n : Nat} {commas : Bool} {ts rest : List Token} :
    ItemRun n commas ts none rest ↔ rest = ts ∧ ts.head?.all (stopsItems commas) = true := by
  cases ts with
  | nil => simp [ItemRun]
  | cons t us =>
    by_cases ho : t.opensGroup = true
    · simp [ItemRun, ho, stopsItems, Token.endsExpression_of_opensGroup ho]
    · by_cases hs : stopsItems commas t = true <;> simp [ItemRun, ho, hs]

theorem items_leaf_iff {n : Nat} {commas : Bool} {t : Token} {items : List SyntaxTree}
    (ho : t.opensGroup = false) :
    Items n commas (.leaf t :: items) ↔ stopsItems commas t = false ∧ Items n commas items := by
  have hs : stopsItems commas t = false ↔
      t.endsExpression = false ∨ commas = true ∧ t.isSeparator "," = true := by
    cases h : t.endsExpression <;> simp [stopsItems, h]
  rw [hs]
  constructor
  · intro h
    cases h with
    | token _ hp h => exact ⟨hp, h⟩
    | group hp _ _ => rcases hp with hp | hp <;> simp [Token.opensGroup, hp.1] at ho
  · exact fun h => .token ho h.1 h.2

/-- Items read one after another are the items of an expression. -/
theorem clean_items {n : Nat} {commas : Bool} {item : Parse (Option (List SyntaxTree))}
    (hitem : ∀ ts o rest, Clean item ts o rest ↔ ItemRun n commas ts o rest)
    {items : List SyntaxTree} {ts rest : List Token} :
    (∃ lists, lists.flatten = items ∧ Clean (many item) ts lists rest) ↔
      Items n commas items ∧ ts = tokensAll items ++ rest ∧
        rest.head?.all (stopsItems commas) = true := by
  have hcons {ts rest : List Token} {g : List SyntaxTree} {lists : List (List SyntaxTree)} :
      Clean (many item) ts (g :: lists) rest ↔
        ∃ mid, ItemRun n commas ts (some g) mid ∧ Clean (many item) mid lists rest := by
    rw [clean_many_cons fun ts g rest h => ((hitem ts _ rest).1 h).length_lt]
    simp only [hitem]
  have hnil {ts rest : List Token} :
      Clean (many item) ts [] rest ↔ rest = ts ∧ ts.head?.all (stopsItems commas) = true := by
    rw [clean_many_nil, hitem, itemRun_none]
  constructor
  · rintro ⟨lists, rfl, h⟩
    induction lists generalizing ts with
    | nil =>
      obtain ⟨rfl, hs⟩ := hnil.1 h
      exact ⟨.nil, rfl, hs⟩
    | cons g lists ih =>
      obtain ⟨mid, hg, h⟩ := hcons.1 h
      obtain ⟨hi, rfl, hs⟩ := ih h
      cases ts with
      | nil => simp [ItemRun] at hg
      | cons t us =>
        simp only [ItemRun] at hg
        split at hg
        · obtain ⟨_, ⟨⟩, m, inner, closer, rfl, hp, hm, rfl, rfl⟩ := hg
          exact ⟨.group hp hm hi, by simp, hs⟩
        · next ho =>
          split at hg
          · simp at hg
          · next ht =>
            obtain ⟨⟨⟩, rfl⟩ := hg
            exact ⟨(items_leaf_iff (by simpa using ho)).2 ⟨by simpa using ht, hi⟩, by simp, hs⟩
  · rintro ⟨hi, rfl, hs⟩
    induction hi with
    | nil => exact ⟨[], rfl, hnil.2 ⟨rfl, hs⟩⟩
    | @token _ _ t _ ho hp hi ih =>
      obtain ⟨lists, rfl, h⟩ := ih hitem hcons hnil hs
      have ht := ((items_leaf_iff ho).1 (.token ho hp hi)).1
      exact ⟨[.leaf t] :: lists, by simp, hcons.2 ⟨_, by simp [ItemRun, ho, ht], h⟩⟩
    | @group _ _ opener closer inner _ hp hm hi _ ih =>
      obtain ⟨lists, rfl, h⟩ := ih hitem hcons hnil hs
      refine ⟨[.leaf opener, .node .expression inner, .leaf closer] :: lists, by simp,
        hcons.2 ⟨_, ?_, h⟩⟩
      have ho := hp.opensGroup
      simp only [tokensAll_cons, tokens_leaf, tokens_node, List.append_assoc, List.cons_append,
        List.nil_append, ItemRun, ho, if_true]
      exact ⟨_, rfl, _, _, _, rfl, hp, hm, rfl, rfl⟩

theorem clean_operand {t : Token} {ts rest : List Token} {o : Option (List SyntaxTree)} :
    Clean operand (t :: ts) o rest ↔ o = some [.leaf t] ∧ rest = ts := by
  simp only [operand, clean_next, List.head?_cons, List.tail_cons, clean_mention, clean_pure]
  exact and_congr eq_comm eq_comm

/-- Where a group may stand as an item. -/
theorem clean_group_item {n : Nat} {t : Token} {us rest : List Token}
    {o : Option (List SyntaxTree)}
    (hg : ∀ {g rest}, Clean (group n) (t :: us) g rest ↔ GroupRun n t us g rest) :
    Clean (do return some (← group n)) (t :: us) o rest ↔
      ∃ g, o = some g ∧ GroupRun n t us g rest := by
  simp only [clean_map, hg]

theorem clean_expressionItem {n : Nat}
    (hg : ∀ {opener ts g rest}, opener.opensGroup = true →
      (Clean (group n) (opener :: ts) g rest ↔ GroupRun n opener ts g rest))
    (ts : List Token) (o : Option (List SyntaxTree)) (rest : List Token) :
    Clean (expressionItem n) ts o rest ↔ ItemRun n false ts o rest := by
  rw [expressionItem, clean_peek]
  cases ts with
  | nil =>
    simp only [List.head?_nil, clean_pure, ItemRun]
    exact and_congr eq_comm eq_comm
  | cons t us =>
    simp only [List.head?_cons, ItemRun, stopsItems]
    by_cases ho : t.opensGroup = true
    · simp only [ho, if_true]
      exact clean_group_item (hg ho)
    · by_cases he : t.endsExpression = true
      · simp [ho, he, clean_pure, eq_comm]
      · simp [ho, he, clean_operand]

/-- The closing brackets of groups. -/
theorem stopsItems_closer {closer : String} (hcl : closer = ")" ∨ closer = "]") {t : Token}
    (ht : t.isSeparator closer = true) : stopsItems true t = true ∧ t.opensGroup = false := by
  rcases hcl with rfl | rfl <;>
    simp [stopsItems, Token.endsExpression_of_separator ht, Token.opensGroup_of_separator ht,
      Token.not_separator_of_separator (m := ",") ht, Token.expressionEnds]

theorem clean_groupItem {n : Nat} {closer : String} (hcl : closer = ")" ∨ closer = "]")
    (hg : ∀ {opener ts g rest}, opener.opensGroup = true →
      (Clean (group n) (opener :: ts) g rest ↔ GroupRun n opener ts g rest))
    (ts : List Token) (o : Option (List SyntaxTree)) (rest : List Token) :
    Clean (groupItem (group n) closer) ts o rest ↔ ItemRun n true ts o rest := by
  rw [groupItem, clean_peek]
  cases ts with
  | nil =>
    simp only [List.head?_nil, clean_pure, ItemRun]
    exact and_congr eq_comm eq_comm
  | cons t us =>
    simp only [List.head?_cons, ItemRun]
    by_cases hc : t.isSeparator closer = true
    · obtain ⟨hs, ho⟩ := stopsItems_closer hcl hc
      simp [hc, hs, ho, clean_pure, eq_comm]
    · by_cases ho : t.opensGroup = true
      · simp only [hc, ho, if_true, Bool.false_eq_true, if_false]
        exact clean_group_item (hg ho)
      · by_cases hcomma : t.isSeparator "," = true
        · simp [hc, ho, hcomma, stopsItems, clean_operand]
        · by_cases he : t.endsExpression = true
          · simp [hc, ho, hcomma, he, stopsItems, clean_pure, eq_comm]
          · simp [hc, ho, hcomma, he, stopsItems, clean_operand]

theorem closerOf_eq (opener : Token) : closerOf opener = ")" ∨ closerOf opener = "]" := by
  unfold closerOf
  split
  · exact .inl rfl
  · exact .inr rfl

theorem pairs_iff {opener closer : Token} (ho : opener.opensGroup = true) :
    Pairs opener closer ↔ closer.isSeparator (closerOf opener) = true := by
  unfold Pairs
  rcases Bool.or_eq_true_iff.1 ho with h | h
  · have hl := (Token.isSeparator_iff.1 h).2
    have hn := Token.not_separator_of_separator (m := "[") h (by decide)
    simp [closerOf, hl, h, hn]
  · have hl := (Token.isSeparator_iff.1 h).2
    have hn := Token.not_separator_of_separator (m := "(") h (by decide)
    simp [closerOf, hl, h, hn]

/-- The clean runs of a group: brackets of one shape around the items of an expression, as long as
there is a level left. -/
theorem clean_group (n : Nat) {opener : Token} {ts rest : List Token} {g : List SyntaxTree}
    (ho : opener.opensGroup = true) :
    Clean (group n) (opener :: ts) g rest ↔ GroupRun n opener ts g rest := by
  induction n generalizing opener ts g rest with
  | zero =>
    simp only [group, clean_next, List.head?_cons, noteLimit, GroupRun]
    constructor
    · intro h
      simp [Clean, bind_apply, here, note, andThen] at h
    · rintro ⟨m, -, -, h, -⟩
      omega
  | succ n ih =>
    rw [group, clean_next]
    simp only [List.head?_cons, List.tail_cons]
    rw [clean_bind]
    simp only [clean_accept, clean_note, clean_pure, and_false, or_false]
    have hitems {items ts rest} :=
      @clean_items n true _ (clean_groupItem (closerOf_eq opener) ih) items ts rest
    constructor
    · rintro ⟨lists, _, h, closer, _, rfl, hc, rfl, rfl⟩
      obtain ⟨hi, rfl, -⟩ := hitems.1 ⟨lists, rfl, h⟩
      exact ⟨n, _, closer, rfl, (pairs_iff ho).2 hc, hi, rfl, rfl⟩
    · rintro ⟨m, inner, closer, hm, hp, hi, rfl, rfl⟩
      obtain rfl : n = m := by omega
      have hc := (pairs_iff ho).1 hp
      have hs := (stopsItems_closer (closerOf_eq opener) hc).1
      obtain ⟨lists, rfl, h⟩ := hitems.2 ⟨hi, rfl, show (closer :: rest).head?.all _ = true from hs⟩
      exact ⟨lists, _, h, closer, _, rfl, hc, rfl, rfl⟩

theorem clean_expressionItems {n : Nat} {ts rest : List Token} {items : List SyntaxTree} :
    Clean (expressionItems n) ts items rest ↔
      Items n false items ∧ ts = tokensAll items ++ rest ∧
        rest.head?.all (·.endsExpression) = true := by
  have hstop : rest.head?.all (stopsItems false) = rest.head?.all (·.endsExpression) := by
    congr 1
    funext t
    simp [stopsItems]
  rw [← hstop, ← clean_items (clean_expressionItem (clean_group n)), expressionItems, clean_map]
  simp only [eq_comm]

theorem clean_expression {n : Nat} {c : Construct} {ts rest : List Token} {b : SyntaxTree} :
    Clean (expression n c) ts b rest ↔
      ∃ items, b = .node c items ∧ Items n false items ∧ ts = tokensAll items ++ rest ∧
        rest.head?.all (·.endsExpression) = true := by
  simp only [expression, clean_map, clean_expressionItems]

end CAudit.Parse
