import CAudit.Parse
import CAudit.Proofs.Lookahead
import CAudit.Proofs.Scanning

/-! Comments read like blanks. A comment can be replaced by blanks with as many newlines: no lexeme
in front of it reads further or less far, and the lexemes behind it stay on their lines. -/
namespace CAudit

namespace Lexeme
open Text

/-- A comment is two characters and the rest of a line or of a block. -/
theorem comment_split {k r : List Char} (h : comment (k ++ r) = k.length) (hk : k ≠ []) :
    ∃ b, (k = '/' :: '/' :: b ∧ ((b ++ r).takeWhile (· != '\n')).length = b.length) ∨
      (k = '/' :: '*' :: b ∧ blockComment (b ++ r) = b.length) := by
  have hfront : ∀ {x y : Char} {cs : List Char}, k ++ r = x :: y :: cs → 2 ≤ k.length →
      ∃ b, k = x :: y :: b ∧ cs = b ++ r := by
    intro x y cs heq hlen
    match k with
    | [] => simp at hlen
    | [_] => simp at hlen
    | _ :: _ :: b =>
      simp only [List.cons_append, List.cons.injEq] at heq
      obtain ⟨rfl, rfl, rfl⟩ := heq
      exact ⟨b, rfl, rfl⟩
  unfold comment at h
  split at h
  · next heq =>
    obtain ⟨b, rfl, rfl⟩ := hfront heq (by omega)
    exact ⟨b, .inl ⟨rfl, by simpa using h⟩⟩
  · next heq =>
    obtain ⟨b, rfl, rfl⟩ := hfront heq (by omega)
    exact ⟨b, .inr ⟨rfl, by simpa using h⟩⟩
  · exact absurd (List.length_eq_zero_iff.1 h.symm) hk

/-- What is left behind characters that pass a test does not pass it. -/
theorem head?_of_takeWhile_length {p : Char → Bool} {b r : List Char}
    (h : ((b ++ r).takeWhile p).length = b.length) {c : Char} (hc : r.head? = some c) :
    p c = false := by
  obtain ⟨r, rfl⟩ := List.head?_eq_some_iff.1 hc
  induction b with
  | nil =>
    cases hp : p c with
    | false => rfl
    | true => simp [hp] at h
  | cons x b ih =>
    simp only [List.cons_append, List.takeWhile_cons] at h
    split at h
    · exact ih (by simpa using h)
    · simp at h

theorem blockComment_end {b r : List Char} (h : blockComment (b ++ r) = b.length) :
    r = [] ∨ b.getLast? = some '/' := by
  induction b with
  | nil =>
    left
    cases r with
    | nil => rfl
    | cons x r =>
      have hpos := blockComment_pos (List.cons_ne_nil x r)
      simp only [List.nil_append, List.length_nil] at h
      omega
  | cons x b ih =>
    simp only [List.cons_append, blockComment_cons, List.length_cons] at h
    split at h
    · next hx =>
      right
      match b with
      | [] => simp at h
      | [y] => simpa using hx.2
      | _ :: _ :: _ => simp at h
    · rcases ih (by omega) with hr | hlast
      · exact .inl hr
      · right
        rw [List.getLast?_cons, hlast]
        rfl

/-- A comment ends at the end of the text, at the end of its line, or with a slash. -/
theorem comment_end {k r : List Char} (h : comment (k ++ r) = k.length) (hk : k ≠ []) :
    r = [] ∨ r.head? = some '\n' ∨ k.getLast? = some '/' := by
  obtain ⟨b, ⟨rfl, hb⟩ | ⟨rfl, hb⟩⟩ := comment_split h hk
  · cases r with
    | nil => exact .inl rfl
    | cons c r =>
      have hc := head?_of_takeWhile_length hb rfl
      right
      left
      simpa using hc
  · rcases blockComment_end hb with hr | hlast
    · exact .inl hr
    · right
      right
      simp [List.getLast?_cons, hlast]

/-- Blanks `w` in place of the comment `k`, with `r` behind them. -/
structure Blanked (k w r : List Char) : Prop where
  extent : comment (k ++ r) = k.length
  comment_ne : k ≠ []
  blank : ∀ c ∈ w, isBlank c = true
  blank_ne : w ≠ []
  newlines : w.count '\n' = k.count '\n'

/-- A quote that is closed behind a text without newlines is closed in it or behind it, unless an
escape reaches over its end. -/
theorem closing?_append_left {quote : Char} (hq : quote ≠ '\\') {b r : List Char} (hb : '\n' ∉ b)
    (hlast : b.getLast? ≠ some '\\') (hr : (closing? quote r).isSome = true) :
    (closing? quote (b ++ r)).isSome = true := by
  fun_induction closing? quote b with
  | case1 => exact hr
  | case2 cs => simp at hb
  | case3 c cs hc ih =>
    simp only [List.cons_append, closing?_escape, hc, ↓reduceIte, Option.isSome_map]
    simp only [List.mem_cons, not_or] at hb
    refine ih hb.2.2 fun hl => hlast ?_
    simp [List.getLast?_cons, hl]
  | case4 cs => simp [closing?_cons hq]
  | case5 c cs hesc hc hstop =>
    have hnl : c ≠ '\n' := fun hnl => hb (by simp [hnl])
    obtain rfl : c = '\\' := by simpa [hnl] using hstop
    cases cs with
    | nil => simp at hlast
    | cons d cs => exact (hesc d cs rfl rfl).elim
  | case6 c cs hesc hc hstop ih =>
    have hplain : c ≠ '\\' ∧ c ≠ '\n' := by simpa using hstop
    simp only [List.cons_append, closing?_cons hplain.1, hc, hplain.2, ↓reduceIte,
      Option.isSome_map]
    simp only [List.mem_cons, not_or] at hb
    refine ih hb.2 fun hl => hlast ?_
    simp [List.getLast?_cons, hl]

/-- Blanks in front of a text close no quote, and a newline among them leaves it open. -/
theorem closing?_blanks {quote : Char} {w r : List Char} (hq : isBlank quote = false)
    (hw : ∀ c ∈ w, isBlank c = true) (h : '\n' ∈ w ∨ closing? quote r = none) :
    closing? quote (w ++ r) = none := by
  induction w with
  | nil => simpa using h
  | cons c w ih =>
    have hc : isBlank c = true := hw c List.mem_cons_self
    have hb : c ≠ '\\' := by
      rintro rfl
      exact absurd hc (by decide)
    have hcq : c ≠ quote := by
      rintro rfl
      simp [hq] at hc
    rw [List.cons_append, closing?_cons hb, if_neg hcq]
    split
    · rfl
    · next hnl =>
      have hrest : '\n' ∈ w ∨ closing? quote r = none := by
        simpa [Ne.symm hnl] using h
      rw [ih (fun d hd => hw d (List.mem_cons_of_mem _ hd)) hrest]
      rfl

/-- The two quotes. -/
structure Quotes (quote : Char) : Prop where
  ne_escape : quote ≠ '\\'
  not_blank : isBlank quote = false

namespace Blanked

variable {k w r : List Char} (h : Blanked k w r)

include h

/-- The blanks start where every other lexeme stops, and so does the comment. -/
theorem heads : ∃ k' c w', k = '/' :: k' ∧ w = c :: w' ∧ isBlank c = true := by
  obtain ⟨c, w', rfl⟩ := List.exists_cons_of_ne_nil h.blank_ne
  have hc := h.blank c List.mem_cons_self
  obtain ⟨b, ⟨rfl, -⟩ | ⟨rfl, -⟩⟩ := comment_split h.extent h.comment_ne
  · exact ⟨_, c, w', rfl, rfl, hc⟩
  · exact ⟨_, c, w', rfl, rfl, hc⟩

theorem mem_newline_iff : '\n' ∈ w ↔ '\n' ∈ k := by
  rw [← List.count_pos_iff, ← List.count_pos_iff, h.newlines]

/-- A quote that stays open over the comment stays open behind it, if it gets there at all. The
comment may be reached in the middle of an escape. -/
theorem open_behind {quote : Char} (hq : Quotes quote) {b : List Char} (hb : b = [] ∨ b = ['\\'])
    (hopen : closing? quote (b ++ (k ++ r)) = none) : '\n' ∈ w ∨ closing? quote r = none := by
  by_cases hnl : '\n' ∈ w
  · exact .inl hnl
  right
  rcases comment_end h.extent h.comment_ne with rfl | hhead | hlast
  · rfl
  · obtain ⟨r, rfl⟩ := List.head?_eq_some_iff.1 hhead
    have hne : '\n' ≠ quote := by
      rintro rfl
      exact absurd hq.not_blank (by decide)
    simp [closing?_cons, hne]
  · cases hr : closing? quote r with
    | none => rfl
    | some n =>
      have hbk : '\n' ∉ b ++ k := by
        have hk : '\n' ∉ k := fun hk => hnl (h.mem_newline_iff.2 hk)
        rcases hb with rfl | rfl <;> simpa using hk
      have hend : (b ++ k).getLast? ≠ some '\\' := by simp [List.getLast?_append, hlast]
      have hsome := closing?_append_left hq.ne_escape hbk hend (r := r) (by simp [hr])
      rw [List.append_assoc, hopen] at hsome
      cases hsome

theorem closing?_none {quote : Char} (hq : Quotes quote) (a : List Char)
    (hopen : closing? quote (a ++ (k ++ r)) = none) : closing? quote (a ++ (w ++ r)) = none := by
  have hblanks := closing?_blanks hq.not_blank h.blank (r := r)
  fun_induction closing? quote a with
  | case1 => exact hblanks (h.open_behind hq (.inl rfl) hopen)
  | case2 cs => simp [closing?_escape]
  | case3 c cs hc ih =>
    simp only [List.cons_append, closing?_escape, hc, ↓reduceIte, Option.map_eq_none_iff]
      at hopen ⊢
    exact ih hopen
  | case4 cs => simp [closing?_cons hq.ne_escape] at hopen
  | case5 c cs hesc hc hstop =>
    by_cases hb : c = '\\'
    · subst hb
      obtain rfl : cs = [] := by
        cases cs with
        | nil => rfl
        | cons d cs => exact (hesc d cs rfl rfl).elim
      have hbehind := h.open_behind hq (.inr rfl) hopen
      obtain ⟨_, d, w', -, rfl, -⟩ := h.heads
      simp only [List.cons_append, List.nil_append, closing?_escape]
      split
      · rfl
      · next hd =>
        have hrest : '\n' ∈ w' ∨ closing? quote r = none := by simpa [Ne.symm hd] using hbehind
        rw [closing?_blanks hq.not_blank (fun e he => h.blank e (List.mem_cons_of_mem _ he)) hrest]
        rfl
    · have hnl : c = '\n' := by simpa [hb] using hstop
      rw [List.cons_append, closing?_cons hb, if_neg hc, if_pos hnl]
  | case6 c cs hesc hc hstop ih =>
    have hplain : c ≠ '\\' ∧ c ≠ '\n' := by simpa using hstop
    simp only [List.cons_append, closing?_cons hplain.1, hc, hplain.2, ↓reduceIte,
      Option.map_eq_none_iff] at hopen ⊢
    exact ih hopen

theorem literal_eq {quote : Char} (hq : Quotes quote) (x : Char) (a : List Char)
    (hle : literal quote (x :: a ++ (k ++ r)) ≤ a.length + 1) :
    literal quote (x :: a ++ (w ++ r)) = literal quote (x :: a ++ (k ++ r)) := by
  by_cases hx : x = quote
  · simp only [List.cons_append, literal, hx, ↓reduceIte] at hle ⊢
    cases hc : closing? quote (a ++ (k ++ r)) with
    | none => rw [h.closing?_none hq a hc]
    | some n =>
      rw [hc] at hle
      rw [closing?_append hq.ne_escape hc (by simpa using hle)]
  · simp [literal, hx]

theorem comment_eq (x : Char) (a : List Char)
    (hle : comment (x :: a ++ (k ++ r)) ≤ a.length + 1) :
    comment (x :: a ++ (w ++ r)) = comment (x :: a ++ (k ++ r)) := by
  obtain ⟨k', c, w', rfl, rfl, hc⟩ := h.heads
  cases a with
  | nil =>
    -- a slash in front of the comment would begin a comment of its own
    have hx : x ≠ '/' := by
      rintro rfl
      simp only [List.cons_append, List.nil_append, comment, List.length_nil] at hle
      omega
    simp [comment, hx]
  | cons y a =>
    simp only [List.cons_append, comment_cons_cons, List.length_cons] at hle ⊢
    split
    · next hxy =>
      rw [if_pos hxy] at hle
      have hlt : ((a ++ '/' :: (k' ++ r)).takeWhile (· != '\n')).length < a.length := by
        refine Nat.lt_of_le_of_ne (by omega) fun heq => ?_
        exact absurd (head?_of_takeWhile_length heq rfl) (by decide)
      rw [takeWhile_append_of_lt hlt]
    · next hxy =>
      rw [if_neg hxy] at hle
      split
      · next hstar =>
        rw [if_pos hstar] at hle
        have hclosed : blockComment (a ++ '/' :: (k' ++ r)) ≤ a.length := by omega
        rw [blockComment_append (List.cons_ne_nil _ _) hclosed]
      · rfl

theorem directive_eq (x : Char) (a : List Char)
    (hle : directive (x :: a ++ (k ++ r)) ≤ a.length + 1) :
    directive (x :: a ++ (w ++ r)) = directive (x :: a ++ (k ++ r)) := by
  obtain ⟨k', _, _, rfl, -, -⟩ := h.heads
  by_cases hx : x = '#'
  · subst hx
    simp only [List.cons_append, directive, Nat.add_le_add_iff_right] at hle ⊢
    rw [directiveLine_append (by decide) hle]
  · simp [directive, hx]

/-- Every rule but the one for blanks takes the same in front of the blanks as in front of the
comment, if it does not reach into the comment. -/
theorem rule_eq {rule : Token.Kind × (List Char → Nat)} (hr : rule ∈ rules) {x : Char}
    (hx : isBlank x = false) (a : List Char)
    (hle : rule.2 (x :: a ++ (k ++ r)) ≤ a.length + 1) :
    rule.2 (x :: a ++ (w ++ r)) = rule.2 (x :: a ++ (k ++ r)) := by
  have hsingle : Quotes '\'' := ⟨by decide, by decide⟩
  have hdouble : Quotes '"' := ⟨by decide, by decide⟩
  have hstops : ∀ {f : List Char → Nat},
      (∀ {c : Char}, Stops c → ∀ v, f (x :: a ++ c :: v) = f (x :: a)) →
        f (x :: a ++ (w ++ r)) = f (x :: a ++ (k ++ r)) := by
    intro f hf
    obtain ⟨k', c, w', rfl, rfl, hc⟩ := h.heads
    exact (hf (stops_of_isBlank hc) (w' ++ r)).trans (hf stops_slash (k' ++ r)).symm
  simp only [rules, List.mem_cons, List.not_mem_nil, or_false] at hr
  rcases hr with rfl | rfl | rfl | rfl | rfl | rfl | rfl | rfl | rfl | rfl
  · simp [blanks, hx]
  · exact h.comment_eq x a hle
  · exact h.directive_eq x a hle
  · exact hstops fun hc v => keyword_append hc (x :: a) v
  · exact hstops fun hc v => identifier_append hc (x :: a) v
  · exact hstops fun hc v => number_append hc (x :: a) v
  · exact h.literal_eq hsingle x a hle
  · exact h.literal_eq hdouble x a hle
  · exact hstops fun hc v => operator_append hc x a v
  · exact hstops fun _ _ => rfl

/-- A lexeme in front of the comment is the same in front of the blanks. -/
theorem classify_eq {x : Char} (hx : isBlank x = false) (a : List Char)
    (hle : (classify (x :: a ++ (k ++ r))).2 ≤ a.length + 1) :
    classify (x :: a ++ (w ++ r)) = classify (x :: a ++ (k ++ r)) :=
  classify_congr hle fun _ hr => h.rule_eq hr hx a

end Blanked

theorem comment_of_classify {cs : List Char} (h : (classify cs).1 = .comment) :
    comment cs = (classify cs).2 := by
  have hrule : (Token.Kind.comment, comment) ∈ rules := by simp [rules]
  exact (rule_of_classify hrule h).2.symm

end Lexeme

namespace Cursor
open Text

theorem exists_of_tokens_cons {c : Cursor} {t : Token} {ts : List Token} (h : c.tokens = t :: ts) :
    ∃ d, c.next? = some (t, d) ∧ d.tokens = ts := by
  cases hn : c.next? with
  | none => simp [tokens_of_none hn] at h
  | some x =>
    rw [tokens_of_some hn] at h
    obtain ⟨rfl, rfl⟩ := List.cons.inj h
    exact ⟨x.2, rfl, rfl⟩

/-- A token is read at every place where the text begins with its lexeme and the rules agree. -/
theorem Reads.transfer {c d e : Cursor} {t : Token} {rest : List Char} (h : Reads c t e)
    (hd : d.rest = t.lexeme.toList ++ rest)
    (hclass : Lexeme.classify d.rest = Lexeme.classify c.rest) (hline : d.line = c.line) :
    ∃ e', d.next? = some (t, e') ∧ e'.rest = rest ∧ e'.line = e.line := by
  have hne : d.rest ≠ [] := by simp [hd, h.lexeme_ne]
  cases hn : d.next? with
  | none => exact absurd (next?_eq_none_iff.1 hn) hne
  | some x =>
    obtain ⟨u, e'⟩ := x
    have hu := reads_of_next? hn
    have hsplit : u.lexeme.toList ++ e'.rest = t.lexeme.toList ++ rest := by
      rw [← hu.moved.rest, hd]
    have hlen : u.lexeme.toList.length = t.lexeme.toList.length := by
      rw [hu.length, h.length, hclass]
    obtain ⟨hlex, hrest⟩ := List.append_inj hsplit hlen
    have hut : u = t := by
      have hlexeme : u.lexeme = t.lexeme := String.toList_inj.1 hlex
      have hkind : u.kind = t.kind := by rw [hu.kind, h.kind, hclass]
      have hlines : u.line = t.line := by rw [hu.line, h.line, hline]
      cases u
      cases t
      simp_all
    refine ⟨e', by rw [hut], hrest, ?_⟩
    rw [hu.moved.line, h.moved.line, hline, hlex]

/-- The tokens ahead depend on the text ahead and on the line. -/
theorem tokens_congr {c d : Cursor} (hrest : c.rest = d.rest) (hline : c.line = d.line) :
    c.tokens = d.tokens := by
  induction hn : c.rest.length using Nat.strongRecOn generalizing c d with
  | _ n ih =>
    cases hc : c.next? with
    | none =>
      have hd : d.next? = none := by rw [next?_eq_none_iff, ← hrest, ← next?_eq_none_iff, hc]
      rw [tokens_of_none hc, tokens_of_none hd]
    | some x =>
      have hr := reads_of_next? hc
      obtain ⟨e', hd, hrest', hline'⟩ :=
        hr.transfer (hrest ▸ hr.moved.rest) (by rw [hrest]) hline.symm
      rw [tokens_of_some hc, tokens_of_some hd]
      have hlt := next?_rest_lt hc
      rw [ih _ (hn ▸ hlt) hrest'.symm hline'.symm rfl]

theorem dropTrivia_tokens_of_isTrivia {c d : Cursor} {t : Token} (h : c.next? = some (t, d))
    (ht : t.kind.isTrivia = true) : dropTrivia c.tokens = dropTrivia d.tokens := by
  rw [tokens_of_some h]
  simp [dropTrivia, ht]

/-- The blanks at the cursor make no token that the grammar reads. -/
theorem dropTrivia_tokens_skip (c : Cursor) :
    dropTrivia c.tokens = dropTrivia (c.advance (Lexeme.blanks c.rest)).tokens := by
  by_cases hzero : Lexeme.blanks c.rest = 0
  · rw [hzero, tokens_congr (c := c.advance 0) (d := c) (by simp [advance]) (by simp [advance])]
  · have hclass := Lexeme.classify_of_blanks hzero
    have hne : c.rest ≠ [] := by
      intro hnil
      simp [hnil, Lexeme.blanks] at hzero
    have hnext : c.next? = some (⟨.whitespace, String.ofList (c.rest.take (Lexeme.blanks c.rest)),
        c.line⟩, c.advance (Lexeme.blanks c.rest)) := by
      simp [next?, hne, hclass]
    exact dropTrivia_tokens_of_isTrivia hnext rfl

theorem moved_blanks (c : Cursor) :
    Moved c (String.ofList (c.rest.takeWhile isBlank)) (c.advance (Lexeme.blanks c.rest)) := by
  have hmoved := moved_advance c (Lexeme.blanks c.rest)
  rwa [Lexeme.blanks, ← List.prefix_iff_eq_take.1 (List.takeWhile_prefix _)] at hmoved

/-- Blanks in front of a text only move its tokens to later lines. -/
theorem dropTrivia_tokens_blanks {c d : Cursor} {w : List Char} (hw : ∀ x ∈ w, isBlank x = true)
    (hrest : c.rest = w ++ d.rest) (hline : d.line = c.line + w.count '\n') :
    dropTrivia c.tokens = dropTrivia d.tokens := by
  have hc := moved_blanks c
  have hd := moved_blanks d
  have htake : c.rest.takeWhile isBlank = w ++ d.rest.takeWhile isBlank := by
    rw [hrest, List.takeWhile_append_of_pos hw]
  rw [dropTrivia_tokens_skip c, dropTrivia_tokens_skip d]
  congr 1
  apply tokens_congr
  · have hsame : c.rest = w ++ (d.rest.takeWhile isBlank ++
        (d.advance (Lexeme.blanks d.rest)).rest) := by
      rw [hrest]
      simpa using hd.rest
    rw [hc.rest, htake] at hsame
    simpa using hsame
  · rw [hc.line, hd.line, htake, hline]
    simp only [String.toList_ofList, List.count_append]
    omega

/-- A comment between the tokens `pre` and `post` can be blanked out. The lexemes of `pre` are read
one after the other; none of them reaches the comment, so all are read again. -/
theorem dropTrivia_tokens_blanked {k w r : List Char} (hb : Lexeme.Blanked k w r) {t : Token}
    (ht : t.kind = .comment) (hk : t.lexeme.toList = k) {pre post : List Token} {c d : Cursor}
    (htokens : c.tokens = pre ++ t :: post) (hc : c.rest = (lexemes pre).toList ++ (k ++ r))
    (hd : d.rest = (lexemes pre).toList ++ (w ++ r)) (hline : d.line = c.line) :
    dropTrivia d.tokens = dropTrivia c.tokens := by
  induction pre generalizing c d with
  | nil =>
    obtain ⟨e, hnext, -⟩ := exists_of_tokens_cons htokens
    have hr := reads_of_next? hnext
    have hrest : r = e.rest := by
      have := hr.moved.rest
      rw [hc, hk] at this
      simpa using this
    rw [dropTrivia_tokens_of_isTrivia hnext (by rw [ht]; rfl)]
    apply dropTrivia_tokens_blanks hb.blank
    · rw [hd, ← hrest]
      simp
    · rw [hr.moved.line, hk, hline, hb.newlines]
  | cons p pre ih =>
    obtain ⟨e, hnext, hrest⟩ := exists_of_tokens_cons htokens
    have hr := reads_of_next? hnext
    have he : e.rest = (lexemes pre).toList ++ (k ++ r) := by
      have := hr.moved.rest
      rw [hc, toList_lexemes_cons, List.append_assoc] at this
      simpa using this.symm
    rw [toList_lexemes_cons, List.append_assoc] at hc hd
    obtain ⟨x, b, hx⟩ := List.exists_cons_of_ne_nil hr.lexeme_ne
    by_cases hblank : isBlank x = true
    · obtain ⟨hkind, hblanks⟩ := hr.blank hx hblank
      have hskip := dropTrivia_tokens_of_isTrivia hnext (by rw [hkind]; rfl)
      let d' : Cursor := ⟨(lexemes pre).toList ++ (w ++ r),
        d.line + p.lexeme.toList.count '\n', d.offset⟩
      have hmove : dropTrivia d.tokens = dropTrivia d'.tokens :=
        dropTrivia_tokens_blanks hblanks hd rfl
      have hline' : d'.line = e.line := by rw [hr.moved.line, ← hline]
      rw [hmove, hskip, ih hrest he rfl hline']
    · -- the lexeme ends in front of the comment, so the rules give it in front of the blanks, too
      have hlen : (Lexeme.classify c.rest).2 ≤ (b ++ (lexemes pre).toList).length + 1 := by
        rw [← hr.length, hx]
        simp
      have hclass : Lexeme.classify d.rest = Lexeme.classify c.rest := by
        have heq := hb.classify_eq (Bool.eq_false_iff.2 hblank) (b ++ (lexemes pre).toList)
        simp only [hx, List.cons_append] at hc hd
        simp only [List.cons_append, List.append_assoc, ← hc, ← hd] at heq
        exact heq hlen
      obtain ⟨e', hnext', hrest', hline'⟩ := hr.transfer hd hclass hline
      rw [tokens_of_some hnext, tokens_of_some hnext']
      have heq := ih hrest he hrest' hline'
      unfold dropTrivia at heq ⊢
      rw [List.filter_cons, List.filter_cons, heq]

end Cursor

/-- Comments do not influence what is read: blanks with as many newlines can take the place of any
comment. -/
theorem tokenize_comment_blank {source w : String} {pre post : List Token} {t : Token}
    (hscan : scan source = pre ++ t :: post) (ht : t.kind = .comment) (hne : w ≠ "")
    (hblank : ∀ c ∈ w.toList, Text.isBlank c = true)
    (hlines : w.toList.count '\n' = t.lexeme.toList.count '\n') :
    source = lexemes pre ++ t.lexeme ++ lexemes post ∧
    tokenize (lexemes pre ++ w ++ lexemes post) = tokenize source ∧
    parseSource (lexemes pre ++ w ++ lexemes post) = parseSource source := by
  have hsource : source = lexemes pre ++ t.lexeme ++ lexemes post := by
    rw [← lexemes_scan source, hscan, lexemes_append, lexemes_cons, String.append_assoc]
  have hread : Cursor.Reads ((Cursor.start source).after pre.length) t _ :=
    Cursor.reads_after (show (scan source)[pre.length]? = some t by simp [hscan])
  have hrest : ((Cursor.start source).after pre.length).rest =
      t.lexeme.toList ++ (lexemes post).toList := by
    rw [Cursor.rest_eq_lexemes, Cursor.tokens_after]
    show (lexemes ((scan source).drop pre.length)).toList = _
    simp [hscan]
  have hextent : Lexeme.comment (t.lexeme.toList ++ (lexemes post).toList) =
      t.lexeme.toList.length := by
    rw [hread.length, ← hrest]
    exact Lexeme.comment_of_classify (hread.kind ▸ ht)
  have hblanked : Lexeme.Blanked t.lexeme.toList w.toList (lexemes post).toList :=
    { extent := hextent
      comment_ne := hread.lexeme_ne
      blank := hblank
      blank_ne := by simpa using hne
      newlines := hlines }
  have htokens : tokenize (lexemes pre ++ w ++ lexemes post) = tokenize source :=
    Cursor.dropTrivia_tokens_blanked hblanked ht rfl (c := .start source) hscan
      (by simp [Cursor.start, hsource]) (by simp [Cursor.start]) rfl
  exact ⟨hsource, htokens, by rw [parseSource, parseSource, htokens]⟩

/-- A comment that holds a quote and a newline, behind a quote that is not closed. -/
theorem tokenize_comment_blank_quote :
    scan "'/*\n'*/x" =
        [⟨.unknown, "'", 1⟩] ++ ⟨.comment, "/*\n'*/", 1⟩ :: [⟨.identifier, "x", 2⟩] ∧
      tokenize "' \nx" = tokenize "'/*\n'*/x" := by
  have hscan : scan "'/*\n'*/x" =
      [⟨.unknown, "'", 1⟩] ++ ⟨.comment, "/*\n'*/", 1⟩ :: [⟨.identifier, "x", 2⟩] := by
    decide +kernel
  have hblank : ∀ c ∈ " \n".toList, Text.isBlank c = true := List.all_eq_true.1 (by decide)
  obtain ⟨-, htokens, -⟩ := tokenize_comment_blank hscan rfl (by decide) hblank (by decide)
  exact ⟨hscan, htokens⟩

end CAudit
