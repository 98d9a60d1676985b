import CAudit.Proofs.CommentBlank

/-! Where comments, directives and literals end, told by the text and not by the rules: a block
comment at the first mark that closes it, a directive at the first newline that is not continued, a
literal at the quote behind its escapes. What keeps to one line holds no newline. -/
namespace CAudit

namespace Lexeme
open Text

/-- The mark that closes block comments stands at index `i`. -/
def ClosesAt (cs : List Char) (i : Nat) : Prop := ['*', '/'] <+: cs.drop i

theorem closesAt_zero {x : Char} {cs : List Char} :
    ClosesAt (x :: cs) 0 ↔ x = '*' ∧ cs.head? = some '/' := by
  cases cs <;> simp [ClosesAt, eq_comm]

theorem closesAt_succ {x : Char} {cs : List Char} {i : Nat} :
    ClosesAt (x :: cs) (i + 1) ↔ ClosesAt cs i := by
  simp [ClosesAt]

/-- A block comment reaches over the first mark that closes it, or to the end. -/
theorem blockComment_first (cs : List Char) :
    (∃ i, ClosesAt cs i ∧ (∀ j < i, ¬ ClosesAt cs j) ∧ blockComment cs = i + 2) ∨
      (∀ i, ¬ ClosesAt cs i) ∧ blockComment cs = cs.length := by
  induction cs with
  | nil => exact .inr ⟨by simp [ClosesAt], rfl⟩
  | cons x cs ih =>
    rw [blockComment_cons]
    by_cases hx : x = '*' ∧ cs.head? = some '/'
    · exact .inl ⟨0, closesAt_zero.2 hx, by simp, by simp [hx]⟩
    · rw [if_neg hx]
      rcases ih with ⟨i, hi, hfirst, hlength⟩ | ⟨hnone, hlength⟩
      · refine .inl ⟨i + 1, closesAt_succ.2 hi, fun j hj => ?_, by omega⟩
        cases j with
        | zero => exact mt closesAt_zero.1 hx
        | succ j => exact mt closesAt_succ.1 (hfirst j (by omega))
      · refine .inr ⟨fun i => ?_, by simp [hlength]⟩
        cases i with
        | zero => exact mt closesAt_zero.1 hx
        | succ i => exact mt closesAt_succ.1 (hnone i)

/-- From `//` to the end of the line. -/
structure LineComment (w after : List Char) : Prop where
  start : ['/', '/'] <+: w
  inside : '\n' ∉ w
  stop : after = [] ∨ after.head? = some '\n'

/-- From `/*` through the first mark behind it that closes it, or to the end of the text. -/
structure BlockComment (w after : List Char) : Prop where
  start : ['/', '*'] <+: w
  stop :
    (∃ i, 2 ≤ i ∧ ClosesAt (w ++ after) i ∧ (∀ j, 2 ≤ j → j < i → ¬ ClosesAt (w ++ after) j) ∧
      w.length = i + 2) ∨
    (∀ i, 2 ≤ i → ¬ ClosesAt (w ++ after) i) ∧ after = []

theorem lineComment_extent (r : List Char) :
    let n := (r.takeWhile (· != '\n')).length
    LineComment (('/' :: '/' :: r).take (n + 2)) (('/' :: '/' :: r).drop (n + 2)) := by
  intro n
  have htake : r.take n = r.takeWhile (· != '\n') :=
    (List.prefix_iff_eq_take.1 (List.takeWhile_prefix _)).symm
  have hdrop : r.drop n = r.dropWhile (· != '\n') := by
    have hparts := List.take_append_drop n r
    rw [htake] at hparts
    exact List.append_cancel_left (hparts.trans List.takeWhile_append_dropWhile.symm)
  have hinside : '\n' ∉ r.takeWhile (· != '\n') := by
    intro hmem
    simpa using List.all_eq_true.1 List.all_takeWhile _ hmem
  refine ⟨⟨_, rfl⟩, by simpa [htake] using hinside, ?_⟩
  simp only [List.drop_succ_cons, hdrop]
  cases hr : r.dropWhile (· != '\n') with
  | nil => exact .inl rfl
  | cons c rest =>
    have hc := List.head?_dropWhile_not (· != '\n') r
    rw [hr] at hc
    exact .inr (by simpa using hc)

theorem blockComment_extent (r : List Char) :
    let n := blockComment r + 2
    BlockComment (('/' :: '*' :: r).take n) (('/' :: '*' :: r).drop n) where
  start := ⟨_, rfl⟩
  stop := by
    rw [List.take_append_drop]
    rcases blockComment_first r with ⟨i, hi, hfirst, hlength⟩ | ⟨hnone, hlength⟩
    · refine .inl ⟨i + 2, by omega, hi, fun j hj hji => ?_, ?_⟩
      · obtain ⟨j, rfl⟩ := Nat.exists_eq_add_of_le' hj
        exact hfirst j (by omega)
      · have hle := blockComment_le r
        simp only [List.length_take, List.length_cons]
        omega
    · refine .inr ⟨fun i hi => ?_, by simp [hlength]⟩
      obtain ⟨i, rfl⟩ := Nat.exists_eq_add_of_le' hi
      exact hnone i

theorem comment_extent {cs : List Char} (h : comment cs ≠ 0) :
    LineComment (cs.take (comment cs)) (cs.drop (comment cs)) ∨
      BlockComment (cs.take (comment cs)) (cs.drop (comment cs)) := by
  fun_cases comment cs with
  | case1 r => exact .inl (lineComment_extent r)
  | case2 r => exact .inr (blockComment_extent r)
  | case3 => simp_all [comment]

/-- A text behind which a newline goes on with the directive. -/
def Continued (text : List Char) : Prop := ['\\'] <:+ text ∨ ['\\', '\r'] <:+ text

theorem continued_cons {c : Char} {cs : List Char} :
    Continued (c :: cs) ↔ Continued cs ∨ c = '\\' ∧ (cs = [] ∨ cs = ['\r']) := by
  simp only [Continued, List.suffix_cons_iff, List.cons.injEq]
  constructor
  · rintro ((⟨rfl, rfl⟩ | h) | ⟨rfl, rfl⟩ | h)
    · exact .inr ⟨rfl, .inl rfl⟩
    · exact .inl (.inl h)
    · exact .inr ⟨rfl, .inr rfl⟩
    · exact .inl (.inr h)
  · rintro ((h | h) | ⟨rfl, rfl | rfl⟩)
    · exact .inl (.inr h)
    · exact .inr (.inr h)
    · exact .inl (.inl ⟨rfl, rfl⟩)
    · exact .inr (.inl ⟨rfl, rfl⟩)

theorem Continued.cons {cs : List Char} (h : Continued cs) (c : Char) : Continued (c :: cs) :=
  continued_cons.2 (.inl h)

theorem not_continued_nil : ¬ Continued [] := by simp [Continued]

/-- The newlines in a directive are continued. -/
theorem directiveLine_newlines (cs : List Char) {a b : List Char}
    (h : cs.take (directiveLine cs) = a ++ '\n' :: b) : Continued a := by
  -- a character in front of a newline, other than a newline itself
  have hfirst {x : Char} {xs a : List Char} (hx : x ≠ '\n') (h : x :: xs = a ++ '\n' :: b) :
      ∃ a', a = x :: a' ∧ xs = a' ++ '\n' :: b := by
    rcases List.cons_eq_append_iff.1 h with ⟨-, h⟩ | h
    · exact absurd (List.cons.inj h).1.symm hx
    · exact h
  fun_induction directiveLine cs generalizing a with
  | case1 => simp at h
  | case2 cs ih =>
    obtain ⟨a, rfl, hbehind⟩ := hfirst (by decide) h
    rcases List.cons_eq_append_iff.1 hbehind with ⟨rfl, -⟩ | ⟨a, rfl, hlater⟩
    · exact .inl (List.suffix_refl _)
    · exact ((ih hlater).cons _).cons _
  | case3 cs ih =>
    obtain ⟨a, rfl, hreturn⟩ := hfirst (by decide) h
    obtain ⟨a, rfl, hbehind⟩ := hfirst (by decide) hreturn
    rcases List.cons_eq_append_iff.1 hbehind with ⟨rfl, -⟩ | ⟨a, rfl, hlater⟩
    · exact .inr (List.suffix_refl _)
    · exact (((ih hlater).cons _).cons _).cons _
  | case4 cs => simp at h
  | case5 c cs _ _ hc ih =>
    obtain ⟨a, rfl, hlater⟩ := hfirst hc h
    exact (ih hlater).cons c

/-- A directive ends with the text or in front of a newline that is not continued. -/
theorem directiveLine_end (cs : List Char) : cs.drop (directiveLine cs) = [] ∨
    (cs.drop (directiveLine cs)).head? = some '\n' ∧
      ¬ Continued (cs.take (directiveLine cs)) := by
  fun_induction directiveLine cs with
  | case1 => exact .inl rfl
  | case2 cs ih =>
    refine ih.imp id (And.imp_right fun hopen => ?_)
    simp [continued_cons, hopen]
  | case3 cs ih =>
    refine ih.imp id (And.imp_right fun hopen => ?_)
    simp [continued_cons, hopen]
  | case4 cs => exact .inr ⟨rfl, not_continued_nil⟩
  | case5 c cs hnewline hreturn hc ih =>
    rcases ih with hend | ⟨hhead, hopen⟩
    · exact .inl hend
    refine .inr ⟨hhead, ?_⟩
    rw [List.take_succ_cons, continued_cons]
    rintro (h | ⟨rfl, h⟩)
    · exact hopen h
    · -- the newline would have been taken with the backslash
      have hcs := List.take_append_drop (directiveLine cs) cs
      obtain ⟨r, hr⟩ := List.head?_eq_some_iff.1 hhead
      rcases h with h | h
      · exact hnewline r rfl (by rw [← hcs, h, hr]; rfl)
      · exact hreturn r rfl (by rw [← hcs, h, hr]; rfl)

/-- From `#` to the end of the line, or of the last line that continues it. -/
structure Directive (w after : List Char) : Prop where
  start : ['#'] <+: w
  newlines : ∀ a b, w = a ++ '\n' :: b → Continued a
  stop : after = [] ∨ after.head? = some '\n' ∧ ¬ Continued w

theorem directive_extent {cs : List Char} (h : directive cs ≠ 0) :
    Directive (cs.take (directive cs)) (cs.drop (directive cs)) := by
  fun_cases directive cs with
  | case1 r =>
    exact
      { start := ⟨_, rfl⟩
        newlines := by
          intro a b hab
          rcases List.cons_eq_append_iff.1 hab with ⟨-, hfirst⟩ | ⟨a, rfl, hlater⟩
          · exact absurd (List.cons.inj hfirst).1 (by decide)
          · exact (directiveLine_newlines r hlater).cons '#'
        stop := (directiveLine_end r).imp id (And.imp_right fun hopen => by
          simpa [continued_cons] using hopen) }
  | case2 => simp_all [directive]

/-- What stands between the quotes of a literal: escapes and plain characters, on one line. -/
inductive Units (quote : Char) : List Char → Prop
  | nil : Units quote []
  | escape {c : Char} {cs : List Char} : c ≠ '\n' → Units quote cs → Units quote ('\\' :: c :: cs)
  | plain {c : Char} {cs : List Char} : c ≠ '\\' → c ≠ quote → c ≠ '\n' → Units quote cs →
      Units quote (c :: cs)

/-- A literal that is closed on its line. -/
def IsLiteral (quote : Char) (w : List Char) : Prop :=
  ∃ units, Units quote units ∧ w = quote :: (units ++ [quote])

theorem closing?_units {quote : Char} (hq : quote ≠ '\\') {units : List Char}
    (h : Units quote units) (rest : List Char) :
    closing? quote (units ++ quote :: rest) = some (units.length + 1) := by
  induction h with
  | nil => simp [closing?_cons hq]
  | escape hc _ ih => simp [closing?_escape, hc, ih]
  | plain hb hc hn _ ih => simp [closing?_cons hb, hc, hn, ih]

theorem units_of_closing? {quote : Char} {cs : List Char} {n : Nat}
    (h : closing? quote cs = some n) :
    ∃ units, Units quote units ∧ cs.take n = units ++ [quote] := by
  fun_induction closing? quote cs generalizing n with
  | case1 => simp at h
  | case2 => simp at h
  | case3 c cs hc ih =>
    obtain ⟨m, hm, rfl⟩ := Option.map_eq_some_iff.1 h
    obtain ⟨units, hunits, htake⟩ := ih hm
    exact ⟨_, .escape hc hunits, by simp [htake]⟩
  | case4 cs =>
    obtain rfl := Option.some.inj h
    exact ⟨[], .nil, rfl⟩
  | case5 => simp at h
  | case6 c cs _ hc hstop ih =>
    obtain ⟨m, hm, rfl⟩ := Option.map_eq_some_iff.1 h
    obtain ⟨units, hunits, htake⟩ := ih hm
    have hplain : c ≠ '\\' ∧ c ≠ '\n' := by simpa using hstop
    exact ⟨_, .plain hplain.1 hc hplain.2 hunits, by simp [htake]⟩

theorem Units.not_mem_newline {quote : Char} {units : List Char} (h : Units quote units) :
    '\n' ∉ units := by
  induction h with
  | nil => simp
  | escape hc _ ih => simp [Ne.symm hc, ih]
  | plain _ _ hc _ ih => simp [Ne.symm hc, ih]

/-- Whether a closed literal starts at a quote is told by the rule for the rest of it. -/
theorem exists_isLiteral_iff {quote : Char} (hq : quote ≠ '\\') {cs : List Char} :
    (∃ w, IsLiteral quote w ∧ w <+: quote :: cs) ↔ closing? quote cs ≠ none := by
  constructor
  · rintro ⟨_, ⟨units, hunits, rfl⟩, rest, hrest⟩
    obtain rfl : units ++ quote :: rest = cs := by simpa using hrest
    simp [closing?_units hq hunits]
  · intro h
    obtain ⟨n, hn⟩ := Option.ne_none_iff_exists'.1 h
    obtain ⟨units, hunits, htake⟩ := units_of_closing? hn
    refine ⟨_, ⟨units, hunits, rfl⟩, ?_⟩
    rw [← htake, List.cons_prefix_cons]
    exact ⟨rfl, List.take_prefix n cs⟩

theorem isLiteral_take {quote : Char} {cs : List Char} (h : literal quote cs ≠ 0) :
    IsLiteral quote (cs.take (literal quote cs)) := by
  fun_cases literal quote cs with
  | case1 cs =>
    cases hn : closing? quote cs with
    | none => simp [literal, hn] at h
    | some n =>
      obtain ⟨units, hunits, htake⟩ := units_of_closing? hn
      exact ⟨units, hunits, by simp [htake]⟩
  | case2 => simp_all [literal]
  | case3 => simp [literal] at h

theorem literal_eq_zero_iff {quote : Char} {cs : List Char} :
    literal quote (quote :: cs) = 0 ↔ closing? quote cs = none := by
  cases h : closing? quote cs <;> simp [literal, h]

/-- No other rule takes anything at a quote. -/
theorem rule_at_quote {quote : Char} (hq : quote = '\'' ∨ quote = '"')
    {rule : Token.Kind × (List Char → Nat)} (hrule : rule ∈ rules) {cs : List Char}
    (h : rule.2 (quote :: cs) ≠ 0) : rule.2 = literal quote := by
  simp only [rules, List.mem_cons, List.not_mem_nil, or_false] at hrule
  rcases hq with rfl | rfl <;>
    rcases hrule with rfl | rfl | rfl | rfl | rfl | rfl | rfl | rfl | rfl | rfl <;>
    first | rfl | exact absurd rfl h

theorem classify_quote {quote : Char} (hq : quote = '\'' ∨ quote = '"') (cs : List Char) :
    (classify (quote :: cs)).1 = .unknown ↔ closing? quote cs = none := by
  rw [← literal_eq_zero_iff]
  rcases classify_cases (quote :: cs) with
    ⟨before, rule, behind, hsplit, -, hne, heq⟩ | ⟨hzero, heq⟩
  · have hrule : rule ∈ rules := by simp [hsplit]
    rw [heq]
    rw [rule_at_quote hq hrule hne] at hne
    exact iff_of_false (kind_ne_unknown hrule) hne
  · rw [heq]
    refine iff_of_true rfl ?_
    rcases hq with rfl | rfl
    · exact hzero (.char, literal '\'') (by simp [rules])
    · exact hzero (.string, literal '"') (by simp [rules])

theorem not_mem_newline_literal {quote : Char} (hq : quote ≠ '\n') (cs : List Char) :
    '\n' ∉ cs.take (literal quote cs) := by
  by_cases h : literal quote cs = 0
  · simp [h]
  · obtain ⟨units, hunits, heq⟩ := isLiteral_take h
    rw [heq]
    simp [Ne.symm hq, hunits.not_mem_newline]

theorem stops_newline : Stops '\n' := stops_of_isBlank (by decide)

/-- A rule that sees nothing behind a newline takes no newline. -/
theorem not_mem_newline_take {f : List Char → Nat} (hle : ∀ cs, f cs ≤ cs.length)
    (hf : ∀ a v, f (a ++ '\n' :: v) = f a) (cs : List Char) : '\n' ∉ cs.take (f cs) := by
  intro hmem
  obtain ⟨a, v, rfl, ha⟩ := List.eq_append_cons_of_mem (List.mem_of_mem_take hmem)
  rw [hf, List.take_append_of_le_length (hle a)] at hmem
  exact ha (List.mem_of_mem_take hmem)

theorem operator_newline (a v : List Char) : operator (a ++ '\n' :: v) = operator a := by
  cases a with
  | nil => rfl
  | cons x a => exact operator_append stops_newline x a v

theorem separator_newline (a v : List Char) : separator (a ++ '\n' :: v) = separator a := by
  cases a <;> rfl

/-- The kinds of lexemes that keep to one line. -/
def lineKinds : List Token.Kind :=
  [.keyword, .identifier, .number, .char, .string, .operator, .separator, .unknown]

theorem not_mem_newline_rule {rule : Token.Kind × (List Char → Nat)} (hrule : rule ∈ rules)
    (hkind : rule.1 ∈ lineKinds) (cs : List Char) : '\n' ∉ cs.take (rule.2 cs) := by
  simp only [rules, List.mem_cons, List.not_mem_nil, or_false] at hrule
  rcases hrule with rfl | rfl | rfl | rfl | rfl | rfl | rfl | rfl | rfl | rfl
  · simp [lineKinds] at hkind
  · simp [lineKinds] at hkind
  · simp [lineKinds] at hkind
  · exact not_mem_newline_take keyword_le (keyword_append stops_newline) cs
  · exact not_mem_newline_take identifier_le (identifier_append stops_newline) cs
  · exact not_mem_newline_take number_le (number_append stops_newline) cs
  · exact not_mem_newline_literal (by decide) cs
  · exact not_mem_newline_literal (by decide) cs
  · exact not_mem_newline_take operator_le operator_newline cs
  · exact not_mem_newline_take separator_le separator_newline cs

/-- The extent of lexemes by kind: a lexeme `w` in front of the text `after`. -/
structure Exact (kind : Token.Kind) (w after : List Char) : Prop where
  comment : kind = .comment → LineComment w after ∨ BlockComment w after
  directive : kind = .preprocessor → Directive w after
  char : kind = .char → IsLiteral '\'' w
  string : kind = .string → IsLiteral '"' w
  unknown : kind = .unknown → w.length = 1
  quote : ∀ q, q = '\'' ∨ q = '"' → w.head? = some q →
    (kind = .unknown ↔ ¬ ∃ l, IsLiteral q l ∧ l <+: w ++ after)
  line : kind ∈ lineKinds → '\n' ∉ w

theorem exact_classify (cs : List Char) (hcs : cs ≠ []) :
    Exact (classify cs).1 (cs.take (classify cs).2) (cs.drop (classify cs).2) where
  comment hkind := by
    have hrule : (Token.Kind.comment, Lexeme.comment) ∈ rules := by simp [rules]
    obtain ⟨hne, hlength⟩ := rule_of_classify hrule hkind
    rw [hlength]
    exact comment_extent hne
  directive hkind := by
    have hrule : (Token.Kind.preprocessor, Lexeme.directive) ∈ rules := by simp [rules]
    obtain ⟨hne, hlength⟩ := rule_of_classify hrule hkind
    rw [hlength]
    exact directive_extent hne
  char hkind := by
    have hrule : (Token.Kind.char, literal '\'') ∈ rules := by simp [rules]
    obtain ⟨hne, hlength⟩ := rule_of_classify hrule hkind
    rw [hlength]
    exact isLiteral_take hne
  string hkind := by
    have hrule : (Token.Kind.string, literal '"') ∈ rules := by simp [rules]
    obtain ⟨hne, hlength⟩ := rule_of_classify hrule hkind
    rw [hlength]
    exact isLiteral_take hne
  unknown hkind := by
    rw [(unknown_of_classify hkind).2, List.length_take]
    exact Nat.min_eq_left (List.length_pos_iff.2 hcs)
  quote q hq hhead := by
    have hne : q ≠ '\\' := by rcases hq with rfl | rfl <;> decide
    obtain ⟨r, rfl⟩ : ∃ r, cs = q :: r := by
      rw [List.head?_take, if_neg (Nat.ne_of_gt (classify_pos cs))] at hhead
      exact List.head?_eq_some_iff.1 hhead
    rw [List.take_append_drop, exists_isLiteral_iff hne, classify_quote hq]
    simp
  line hkind := by
    rcases classify_cases cs with ⟨before, rule, behind, hsplit, -, -, heq⟩ | ⟨hzero, heq⟩
    · rw [heq] at hkind ⊢
      exact not_mem_newline_rule (by simp [hsplit]) hkind cs
    · -- a newline would have been a blank
      rw [heq]
      have hblanks : blanks cs = 0 := hzero (.whitespace, blanks) (by simp [rules])
      obtain ⟨c, r, rfl⟩ := List.exists_cons_of_ne_nil hcs
      simp only [List.take_succ_cons, List.take_zero, List.mem_singleton]
      rintro rfl
      exact absurd hblanks (Nat.succ_ne_zero _)

end Lexeme

theorem lexemes_eq_empty_iff {ts : List Token} (h : ∀ t ∈ ts, t.lexeme ≠ "") :
    lexemes ts = "" ↔ ts = [] := by
  cases ts with
  | nil => simp [lexemes]
  | cons t ts =>
    have ht := h t List.mem_cons_self
    simp [lexemes_cons, String.append_eq_empty_iff, ht]

/-- The text ahead of a token of a scan is its lexeme and the lexemes behind it; its extent is the
one for its kind. -/
theorem exact_of_scan {source : String} {pre post : List Token} {t : Token}
    (h : scan source = pre ++ t :: post) :
    Lexeme.Exact t.kind t.lexeme.toList (lexemes post).toList := by
  have hreads := Cursor.reads_after (c := .start source) (k := pre.length) (t := t)
    (by rw [← scan, h]; simp)
  have hrest : ((Cursor.start source).after pre.length).rest =
      t.lexeme.toList ++ (lexemes post).toList := by
    rw [Cursor.rest_eq_lexemes, Cursor.tokens_after, ← scan, h]
    simp
  have hexact := Lexeme.exact_classify (t.lexeme.toList ++ (lexemes post).toList)
    (by simp [hreads.lexeme_ne])
  rw [← hrest, ← hreads.kind, ← hreads.length, hrest, List.take_left, List.drop_left] at hexact
  exact hexact

/-- Every token of a scan has the extent that its kind says, in front of the lexemes behind it. -/
theorem scan_exact (source : String) (pre post : List Token) (t : Token)
    (h : scan source = pre ++ t :: post) :
    source = lexemes pre ++ (t.lexeme ++ lexemes post) ∧ (lexemes post = "" ↔ post = []) ∧
      Lexeme.Exact t.kind t.lexeme.toList (lexemes post).toList := by
  refine ⟨?_, lexemes_eq_empty_iff fun u hu => ?_, exact_of_scan h⟩
  · rw [← lexemes_cons, ← lexemes_append, ← h, lexemes_scan]
  · have hscan : u ∈ scan source := by simp [h, hu]
    exact scan_lexeme_ne hscan

/-- A comment whose opening mark overlaps a closing one, and a quote that an escape keeps open. -/
theorem scan_exact_overlap :
    let comment : Token := ⟨.comment, "/*/*/", 1⟩
    let quote : Token := ⟨.unknown, "\"", 1⟩
    let escape : Token := ⟨.unknown, "\\", 1⟩
    scan "/*/*/\"\\\"" = [comment, quote, escape, quote] ∧
      Lexeme.BlockComment "/*/*/".toList "\"\\\"".toList ∧
      ¬ ∃ l, Lexeme.IsLiteral '"' l ∧ l <+: "\"\\\"".toList := by
  intro comment quote escape
  have hscan : scan "/*/*/\"\\\"" = [comment, quote, escape, quote] := by decide +kernel
  obtain ⟨-, -, hcomment⟩ := scan_exact _ [] [quote, escape, quote] comment hscan
  obtain ⟨-, -, hquote⟩ := scan_exact _ [comment] [escape, quote] quote hscan
  have hahead : quote.lexeme.toList ++ (lexemes [escape, quote]).toList = "\"\\\"".toList := by
    decide +kernel
  have hopen := (hquote.quote '"' (.inr rfl) (by decide)).1 rfl
  rw [hahead] at hopen
  refine ⟨hscan, ?_, hopen⟩
  have hbehind : (lexemes [quote, escape, quote]).toList = "\"\\\"".toList := by decide +kernel
  rw [hbehind] at hcomment
  have hline : ¬ ['/', '/'] <+: "/*/*/".toList := by decide
  exact (hcomment.comment rfl).resolve_left fun h => hline h.start

end CAudit
