import CAudit.Proofs.Extent

/-! What the rules see behind a lexeme. Words, numbers and operators look at one character that does
not belong to them, and stop alike at every blank and at a slash. Comments, directives and literals
that end early are told by their own characters. Only a quote that is not closed looks further, up
to the end of its line. -/
namespace CAudit

namespace Text

/-- Two tables without a common code point. -/
def apart (t u : List (Nat × Nat)) : Bool := t.all fun r => u.all fun s => r.2 < s.1 || s.2 < r.1

theorem inRanges_of_apart {t u : List (Nat × Nat)} {n : Nat} (h : apart t u = true)
    (hn : inRanges t n = true) : inRanges u n = false := by
  simp only [inRanges, List.any_eq_true, Bool.and_eq_true, decide_eq_true_eq] at hn
  obtain ⟨r, hr, hlow, hhigh⟩ := hn
  simp only [inRanges, List.any_eq_false, Bool.and_eq_true, decide_eq_true_eq]
  intro s hs
  have hrs := List.all_eq_true.1 (List.all_eq_true.1 h r hr) s hs
  simp only [Bool.or_eq_true, decide_eq_true_eq] at hrs
  omega

theorem isNameChar_toNat {c : Char} (h : isNameChar c = true) : 48 ≤ c.toNat ∧ c.toNat < 0x80 := by
  simp only [isNameChar, isNameStart, isAsciiDigit, Bool.or_eq_true, Bool.and_eq_true,
    decide_eq_true_eq, beq_iff_eq, Char.le_def, UInt32.le_iff_toNat_le] at h
  rcases h with ((⟨hl, hh⟩ | ⟨hl, hh⟩) | rfl) | ⟨hl, hh⟩
  · exact ⟨Nat.le_trans (by decide) hl, Nat.lt_of_le_of_lt hh (by decide)⟩
  · exact ⟨Nat.le_trans (by decide) hl, Nat.lt_of_le_of_lt hh (by decide)⟩
  · decide
  · exact ⟨Nat.le_trans (by decide) hl, Nat.lt_of_le_of_lt hh (by decide)⟩

theorem isWord_of_isNameChar {c : Char} (h : isNameChar c = true) : isWord c = true := by
  simp [isWord, (isNameChar_toNat h).2, h]

theorem isBlank_toNat {c : Char} (h : isBlank c = true) (hc : c.toNat < 0x80) : c.toNat ≤ 32 := by
  simp only [isBlank, inRanges, blankRanges, List.any_cons, List.any_nil, Bool.or_eq_true,
    Bool.and_eq_true, decide_eq_true_eq, Bool.false_eq_true, or_false] at h
  omega

theorem isWord_of_isBlank {c : Char} (h : isBlank c = true) : isWord c = false := by
  unfold isWord
  split
  · next hc =>
    have hle := isBlank_toNat h hc
    cases hn : isNameChar c with
    | false => rfl
    | true =>
      have := (isNameChar_toNat hn).1
      omega
  · exact inRanges_of_apart (by decide +kernel) h

theorem isDigit_of_isBlank {c : Char} (h : isBlank c = true) : isDigit c = false := by
  unfold isDigit
  split
  · next hc =>
    cases hn : isAsciiDigit c with
    | false => rfl
    | true =>
      have hname : isNameChar c = true := by simp [isNameChar, hn]
      rw [← isWord_of_isNameChar hname, isWord_of_isBlank h]
  · exact inRanges_of_apart (by decide +kernel) h

end Text

namespace Lexeme
open Text

/-- A character at which words, numbers and operators stop. -/
structure Stops (c : Char) : Prop where
  word : isWord c = false
  digit : isDigit c = false
  mark : c ∉ ['.', '+', '-', '=', '<', '>', '&', '|']

theorem stops_slash : Stops '/' := by
  constructor <;> decide

theorem stops_of_isBlank {c : Char} (h : isBlank c = true) : Stops c where
  word := isWord_of_isBlank h
  digit := isDigit_of_isBlank h
  mark hc := by
    have hmarks : ['.', '+', '-', '=', '<', '>', '&', '|'].all (!isBlank ·) = true := by decide
    have hmark := List.all_eq_true.1 hmarks c hc
    simp [h] at hmark

theorem isNameChar_of_isHexDigit {c : Char} (h : isHexDigit c = true) : isNameChar c = true := by
  simp only [isHexDigit, Bool.or_eq_true, Bool.and_eq_true, decide_eq_true_eq] at h
  rcases h with (hd | ⟨hl, hh⟩) | ⟨hl, hh⟩
  · simp [isNameChar, hd]
  · have hz : c ≤ 'z' := Char.le_trans hh (by decide)
    simp [isNameChar, isNameStart, hl, hz]
  · have hz : c ≤ 'Z' := Char.le_trans hh (by decide)
    simp [isNameChar, isNameStart, hl, hz]

theorem isNameChar_of_isNumberSuffix {c : Char} (h : isNumberSuffix c = true) :
    isNameChar c = true := by
  simp only [isNumberSuffix, Bool.or_eq_true, beq_iff_eq] at h
  rcases h with ((((rfl | rfl) | rfl) | rfl) | rfl) | rfl <;> decide

namespace Stops

variable {c : Char} (h : Stops c)

include h

theorem nameChar : isNameChar c = false := by
  cases hn : isNameChar c with
  | false => rfl
  | true => rw [← isWord_of_isNameChar hn, h.word]

theorem ne_of_nameChar {d : Char} (hd : isNameChar d = true) : c ≠ d := by
  rintro rfl
  simp [h.nameChar] at hd

theorem hexDigit : isHexDigit c = false := by
  cases hx : isHexDigit c with
  | false => rfl
  | true => rw [← isNameChar_of_isHexDigit hx, h.nameChar]

theorem numberSuffix : isNumberSuffix c = false := by
  cases hx : isNumberSuffix c with
  | false => rfl
  | true => rw [← isNameChar_of_isNumberSuffix hx, h.nameChar]

end Stops

theorem takeWhile_append_stop {p : Char → Bool} {c : Char} (h : p c = false) (a v : List Char) :
    (a ++ c :: v).takeWhile p = a.takeWhile p := by
  induction a with
  | nil => simp [h]
  | cons x a ih => simp [List.takeWhile_cons, ih]

section

variable {c : Char} (h : Stops c) (a v : List Char)

include h

theorem name_append : name (a ++ c :: v) = name a := by
  cases a with
  | nil =>
    have hs : isNameStart c = false := by
      have hn := h.nameChar
      simp only [isNameChar, Bool.or_eq_false_iff] at hn
      exact hn.1
    simp [name, hs]
  | cons x a =>
    have ht := takeWhile_append_stop h.nameChar (x :: a) v
    unfold name
    rw [ht]
    rfl

theorem identifier_append : identifier (a ++ c :: v) = identifier a := by
  rw [identifier, identifier, name_append h]

theorem endsWord_append : endsWord (a ++ c :: v) = endsWord a := by
  cases a with
  | nil => simp [endsWord, h.word]
  | cons x a => simp [endsWord]

theorem keyword_append : keyword (a ++ c :: v) = keyword a := by
  have hle : (name a).length ≤ a.length := identifier_le a
  simp only [keyword, name_append h]
  rw [List.drop_append_of_le_length hle, endsWord_append h]

theorem digits_append : digits (a ++ c :: v) = digits a := by
  rw [digits, digits, takeWhile_append_stop h.digit]

theorem hexNumber_append : hexNumber (a ++ c :: v) = hexNumber a := by
  have h0 : c ≠ '0' := h.ne_of_nameChar (by decide)
  have hx : c ≠ 'x' := h.ne_of_nameChar (by decide)
  have hX : c ≠ 'X' := h.ne_of_nameChar (by decide)
  match a with
  | [] => simp [hexNumber, h0]
  | [x] => by_cases hx0 : x = '0' <;> simp [hexNumber, hx0, hx, hX]
  | x :: y :: a =>
    by_cases hx0 : x = '0'
    · simp [hexNumber, hx0, takeWhile_append_stop h.hexDigit]
    · simp [hexNumber, hx0]

theorem exponent_append : exponent (a ++ c :: v) = exponent a := by
  have he : c ≠ 'e' := h.ne_of_nameChar (by decide)
  have hE : c ≠ 'E' := h.ne_of_nameChar (by decide)
  cases a with
  | nil => simp [exponent, he, hE]
  | cons x a =>
    -- the sign stands in front of the stop, if there is one at all
    have hsign : ((a ++ c :: v).head?.any fun d => d == '+' || d == '-') =
        a.head?.any fun d => d == '+' || d == '-' := by
      cases a with
      | nil =>
        have hm := h.mark
        simp only [List.mem_cons, not_or] at hm
        simp [hm]
      | cons y a => simp
    have hdrop : (a ++ c :: v).drop (if a.head?.any fun d => d == '+' || d == '-' then 1 else 0) =
        a.drop (if a.head?.any fun d => d == '+' || d == '-' then 1 else 0) ++ c :: v := by
      apply List.drop_append_of_le_length
      cases a <;> simp
      split <;> omega
    simp only [exponent, List.cons_append, hsign, hdrop, digits_append h]

theorem decimalNumber_append : decimalNumber (a ++ c :: v) = decimalNumber a := by
  have hdot : c ≠ '.' := by
    rintro rfl
    exact h.mark (by simp)
  have hdrop : (a ++ c :: v).drop (digits a) = a.drop (digits a) ++ c :: v :=
    List.drop_append_of_le_length (digits_le a)
  simp only [decimalNumber, digits_append h, hdrop]
  match hr : a.drop (digits a) with
  | [] =>
    have he : exponent (c :: v) = exponent [] := exponent_append h [] v
    simp [hdot, he]
  | x :: r =>
    by_cases hx : x = '.'
    · subst hx
      simp only [List.cons_append, digits_append h]
      rw [List.drop_append_of_le_length (digits_le r), exponent_append h]
    · have := exponent_append h (x :: r) v
      simp_all

theorem number_append : number (a ++ c :: v) = number a := by
  have hle : (if hexNumber a == 0 then decimalNumber a else hexNumber a) ≤ a.length := by
    split
    · exact decimalNumber_le a
    · exact hexNumber_le a
  simp only [number, hexNumber_append h, decimalNumber_append h]
  rw [List.drop_append_of_le_length hle, takeWhile_append_stop h.numberSuffix]

end

/-- A text that does not hold the stop is at the front with or without what follows the stop. -/
theorem isPrefixOf_append_stop {o : List Char} {c : Char} (h : c ∉ o) (a v : List Char) :
    o.isPrefixOf (a ++ c :: v) = o.isPrefixOf a := by
  induction a generalizing o with
  | nil =>
    cases o with
    | nil => rfl
    | cons x o =>
      have hx : x ≠ c := fun hx => h (by simp [hx])
      simp [List.isPrefixOf, hx]
  | cons y a ih =>
    cases o with
    | nil => rfl
    | cons x o =>
      have ho : c ∉ o := fun hc => h (List.mem_cons_of_mem _ hc)
      simp [List.isPrefixOf, ih ho]

/-- Behind its first character no operator holds a character that stops words and numbers. -/
theorem not_mem_operator_tail {c : Char} (h : Stops c) {o : String} (ho : o ∈ operators) :
    c ∉ o.toList.tail := by
  have hmarks : operators.all (fun o => o.toList.tail.all
      (['.', '+', '-', '=', '<', '>', '&', '|'].contains ·)) = true := by decide
  intro hc
  have hmark := List.all_eq_true.1 (List.all_eq_true.1 hmarks o ho) c hc
  exact h.mark (List.contains_iff_mem.1 hmark)

theorem operator_append {c : Char} (h : Stops c) (x : Char) (a v : List Char) :
    operator (x :: a ++ c :: v) = operator (x :: a) := by
  have hfind : ∀ os ⊆ operators, (os.find? fun o => o.toList.isPrefixOf (x :: a ++ c :: v)) =
      os.find? fun o => o.toList.isPrefixOf (x :: a) := by
    intro os hos
    induction os with
    | nil => rfl
    | cons o os ih =>
      have ho := not_mem_operator_tail h (hos List.mem_cons_self)
      have heq : o.toList.isPrefixOf (x :: a ++ c :: v) = o.toList.isPrefixOf (x :: a) := by
        cases hl : o.toList with
        | nil => rfl
        | cons y ys =>
          rw [hl, List.tail_cons] at ho
          simp [List.isPrefixOf, isPrefixOf_append_stop ho]
      simp only [List.find?_cons, heq]
      rw [ih fun o ho => hos (List.mem_cons_of_mem _ ho)]
  simp only [operator, hfind operators (List.Subset.refl _)]

section

variable {a v : List Char}

theorem blockComment_cons (x : Char) (cs : List Char) :
    blockComment (x :: cs) =
      if x = '*' ∧ cs.head? = some '/' then 2 else blockComment cs + 1 := by
  by_cases hx : x = '*' ∧ cs.head? = some '/'
  · obtain ⟨rfl, hhead⟩ := hx
    obtain ⟨ds, rfl⟩ := List.head?_eq_some_iff.1 hhead
    simp [blockComment]
  · rw [if_neg hx, blockComment]
    intro ds hstar hslash
    exact hx ⟨hstar, by simp [hslash]⟩

theorem blockComment_pos (h : v ≠ []) : 0 < blockComment v := by
  obtain ⟨x, cs, rfl⟩ := List.exists_cons_of_ne_nil h
  rw [blockComment_cons]
  split <;> omega

/-- A comment that is closed early is told by its own characters. -/
theorem blockComment_append (hv : v ≠ []) (h : blockComment (a ++ v) ≤ a.length) (u : List Char) :
    blockComment (a ++ u) = blockComment (a ++ v) := by
  induction a with
  | nil =>
    have hpos := blockComment_pos hv
    simp only [List.nil_append, List.length_nil] at h
    omega
  | cons x a ih =>
    have hpos : 0 < blockComment (a ++ v) := blockComment_pos (by simp [hv])
    simp only [List.cons_append, List.length_cons, blockComment_cons] at h ⊢
    have ha : a ≠ [] := by
      rintro rfl
      split at h <;> simp_all
    have hhead : (a ++ u).head? = (a ++ v).head? := by
      obtain ⟨y, b, rfl⟩ := List.exists_cons_of_ne_nil ha
      rfl
    rw [hhead]
    split at h
    · next hx => simp [hx]
    · next hx => rw [if_neg hx, if_neg hx, ih (by omega)]

theorem comment_cons_cons (x y : Char) (cs : List Char) :
    comment (x :: y :: cs) =
      if x = '/' ∧ y = '/' then (cs.takeWhile (· != '\n')).length + 2
      else if x = '/' ∧ y = '*' then blockComment cs + 2
      else 0 := by
  by_cases hx : x = '/'
  · by_cases hs : y = '/'
    · simp [hx, hs, comment]
    · by_cases ht : y = '*' <;> simp [hx, hs, ht, comment]
  · simp [hx, comment]

theorem takeWhile_append_of_lt {p : Char → Bool}
    (h : ((a ++ v).takeWhile p).length < a.length) (u : List Char) :
    (a ++ u).takeWhile p = (a ++ v).takeWhile p := by
  induction a with
  | nil => simp at h
  | cons x a ih =>
    simp only [List.cons_append, List.takeWhile_cons] at h ⊢
    split
    · next hx =>
      simp only [hx, ↓reduceIte, List.length_cons] at h
      rw [ih (by omega)]
    · rfl

theorem directiveLine_cons {c : Char} (hc : c ≠ '\\') (cs : List Char) :
    directiveLine (c :: cs) = if c = '\n' then 0 else directiveLine cs + 1 := by
  rw [directiveLine]
  · intro _ he
    exact absurd he hc
  · intro _ he
    exact absurd he hc

theorem directiveLine_backslash {d : Char} (hd : d ≠ '\n') (cs : List Char) :
    directiveLine ('\\' :: d :: cs) =
      if d = '\r' ∧ cs.head? = some '\n' then directiveLine cs.tail + 3
      else directiveLine (d :: cs) + 1 := by
  by_cases hx : d = '\r' ∧ cs.head? = some '\n'
  · obtain ⟨rfl, hhead⟩ := hx
    obtain ⟨ds, rfl⟩ := List.head?_eq_some_iff.1 hhead
    simp [directiveLine]
  · rw [if_neg hx, directiveLine]
    · simp
    · intro _ _ he
      exact hd (List.cons.inj he).1
    · intro _ _ he
      obtain ⟨hr, rfl⟩ := List.cons.inj he
      exact hx ⟨hr, rfl⟩

theorem directiveLine_pos {c : Char} (hc : c ≠ '\n') (cs : List Char) :
    0 < directiveLine (c :: cs) := by
  by_cases hb : c = '\\'
  · subst hb
    cases cs with
    | nil => simp [directiveLine]
    | cons d cs =>
      by_cases hd : d = '\n'
      · simp [hd, directiveLine]
      · rw [directiveLine_backslash hd]
        split <;> omega
  · simp [directiveLine_cons hb, hc]

/-- A directive that ends early is told by the characters up to the newline behind it. -/
theorem directiveLine_append {c : Char} (hc : c ≠ '\n')
    (h : directiveLine (a ++ c :: v) ≤ a.length) (u : List Char) :
    directiveLine (a ++ u) = directiveLine (a ++ c :: v) := by
  have hpos := directiveLine_pos hc v
  fun_induction directiveLine a with
  | case1 =>
    simp only [List.nil_append, List.length_nil] at h
    omega
  | case2 cs ih =>
    simp only [List.cons_append, directiveLine, List.length_cons] at h ⊢
    rw [ih (by omega)]
  | case3 cs ih =>
    simp only [List.cons_append, directiveLine, List.length_cons] at h ⊢
    rw [ih (by omega)]
  | case4 cs => simp [directiveLine]
  | case5 x cs hnl hcr hx ih =>
    by_cases hb : x = '\\'
    · subst hb
      -- what follows a backslash decides whether a newline behind it counts
      match cs with
      | [] =>
        simp only [List.cons_append, List.nil_append, List.length_cons, List.length_nil,
          directiveLine_backslash hc] at h
        split at h <;> omega
      | [d] =>
        have hd : d ≠ '\n' := fun hd => hnl [] rfl (by rw [hd])
        simp only [List.cons_append, List.nil_append, List.length_cons, List.length_nil,
          directiveLine_backslash hd, List.head?_cons, Option.some.injEq, hc, and_false,
          ↓reduceIte] at h ⊢
        by_cases hr : d = '\r'
        · subst hr
          simp only [directiveLine_cons (by decide : '\r' ≠ '\\'), hd, ↓reduceIte] at h
          omega
        · have heq := ih (by simpa using h)
          simpa [hr] using heq
      | d :: e :: cs =>
        have hd : d ≠ '\n' := fun hd => hnl (e :: cs) rfl (by rw [hd])
        have hde : ¬(d = '\r' ∧ e = '\n') := fun hde => hcr cs rfl (by rw [hde.1, hde.2])
        have heq := ih
        simp only [List.cons_append, List.length_cons, directiveLine_backslash hd, List.head?_cons,
          Option.some.injEq, hde, ↓reduceIte] at h heq ⊢
        rw [heq (by omega)]
    · simp only [List.cons_append, List.length_cons, directiveLine_cons hb, hx, ↓reduceIte] at h ⊢
      rw [ih (by omega)]

theorem closing?_escape (quote c : Char) (cs : List Char) :
    closing? quote ('\\' :: c :: cs) =
      if c = '\n' then none else (closing? quote cs).map (· + 2) := by
  rw [closing?]

theorem closing?_cons {quote c : Char} (hc : c ≠ '\\') (cs : List Char) :
    closing? quote (c :: cs) =
      if c = quote then some 1 else if c = '\n' then none else (closing? quote cs).map (· + 1) := by
  rw [closing?]
  · simp [hc]
  · intro _ _ he
    exact absurd he hc

theorem closing?_pos {quote : Char} {cs : List Char} {n : Nat} (h : closing? quote cs = some n) :
    0 < n := by
  fun_induction closing? quote cs generalizing n with
  | case1 => simp at h
  | case2 => simp at h
  | case3 =>
    obtain ⟨m, _, rfl⟩ := Option.map_eq_some_iff.1 h
    omega
  | case4 =>
    simp only [Option.some.injEq] at h
    omega
  | case5 => simp at h
  | case6 =>
    obtain ⟨m, _, rfl⟩ := Option.map_eq_some_iff.1 h
    omega

/-- A literal that is closed early is told by its own characters. -/
theorem closing?_append {quote : Char} (hq : quote ≠ '\\') {n : Nat}
    (h : closing? quote (a ++ v) = some n) (hn : n ≤ a.length) (u : List Char) :
    closing? quote (a ++ u) = some n := by
  have hpos := closing?_pos h
  fun_induction closing? quote a generalizing n with
  | case1 =>
    simp only [List.length_nil] at hn
    omega
  | case2 cs => simp [closing?_escape] at h
  | case3 c cs hc ih =>
    simp only [List.cons_append, closing?_escape, hc, ↓reduceIte, List.length_cons] at h hn ⊢
    obtain ⟨m, hm, rfl⟩ := Option.map_eq_some_iff.1 h
    simp [ih hm (by omega) (closing?_pos hm)]
  | case4 cs _ =>
    simp only [List.cons_append, closing?_cons hq, ↓reduceIte] at h ⊢
    exact h
  | case5 c cs hesc hc hstop =>
    by_cases hb : c = '\\'
    · subst hb
      -- the backslash is the last character, and the closing quote stands behind what it escapes
      obtain rfl : cs = [] := by
        cases cs with
        | nil => rfl
        | cons d cs => exact (hesc d cs rfl rfl).elim
      cases v with
      | nil => simp [closing?, hc] at h
      | cons d v =>
        simp only [List.cons_append, List.nil_append, closing?_escape,
          Option.ite_none_left_eq_some] at h
        obtain ⟨m, _, rfl⟩ := Option.map_eq_some_iff.1 h.2
        simp only [List.length_cons, List.length_nil] at hn
        omega
    · have hnl : c = '\n' := by simpa [hb] using hstop
      rw [List.cons_append, closing?_cons hb, if_neg hc, if_pos hnl] at h
      cases h
  | case6 c cs hesc hc hstop ih =>
    have hb : c ≠ '\\' ∧ c ≠ '\n' := by simpa using hstop
    simp only [List.cons_append, closing?_cons hb.1, hc, hb.2, ↓reduceIte, List.length_cons]
      at h hn ⊢
    obtain ⟨m, hm, rfl⟩ := Option.map_eq_some_iff.1 h
    simp [ih hm (by omega) (closing?_pos hm)]

end

end Lexeme
end CAudit
