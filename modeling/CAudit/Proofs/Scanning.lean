import CAudit.Finding
import CAudit.Scan
import CAudit.Proofs.Extent

/-! The scan as a run of steps. A step moves the cursor over one lexeme; a run of steps moves it
over the lexemes of its tokens, one after the other. So nothing of the source is lost, and lines and
byte offsets are counts over the text passed. -/
namespace CAudit

/-- The text of some tokens. -/
def lexemes (ts : List Token) : String := String.join (ts.map (·.lexeme))

@[simp] theorem toList_lexemes_nil : (lexemes []).toList = [] := by simp [lexemes]

@[simp] theorem toList_lexemes_cons (t : Token) (ts : List Token) :
    (lexemes (t :: ts)).toList = t.lexeme.toList ++ (lexemes ts).toList := by
  simp [lexemes]

theorem lexemes_cons (t : Token) (ts : List Token) :
    lexemes (t :: ts) = t.lexeme ++ lexemes ts := by
  simp [← String.toList_inj]

theorem lexemes_append (ts us : List Token) : lexemes (ts ++ us) = lexemes ts ++ lexemes us := by
  simp [lexemes]

namespace Cursor

/-- The cursor `d` is `c` moved over a text. -/
structure Moved (c : Cursor) (text : String) (d : Cursor) : Prop where
  rest : c.rest = text.toList ++ d.rest
  line : d.line = c.line + text.toList.count '\n'
  offset : d.offset = c.offset + text.utf8ByteSize

theorem Moved.refl (c : Cursor) : Moved c "" c where
  rest := by simp
  line := by simp
  offset := by simp

theorem Moved.trans {c d e : Cursor} {s t : String} (h : Moved c s d) (k : Moved d t e) :
    Moved c (s ++ t) e where
  rest := by simp [h.rest, k.rest]
  line := by
    have hd := h.line
    have he := k.line
    simp only [String.toList_append, List.count_append]
    omega
  offset := by
    have hd := h.offset
    have he := k.offset
    simp only [String.utf8ByteSize_append]
    omega

theorem moved_advance (c : Cursor) (n : Nat) :
    Moved c (String.ofList (c.rest.take n)) (c.advance n) where
  rest := by simp [advance]
  line := by simp [advance]
  offset := by simp [advance, byteLength]

/-- What a step that gives a token does: the token is the lexeme that the rules give for the text
ahead, on the line of the cursor, and the cursor moves over it. -/
structure Reads (c : Cursor) (t : Token) (d : Cursor) : Prop where
  moved : Moved c t.lexeme d
  line : t.line = c.line
  kind : t.kind = (Lexeme.classify c.rest).1
  length : t.lexeme.toList.length = (Lexeme.classify c.rest).2

theorem Reads.lexeme_ne {c d : Cursor} {t : Token} (h : Reads c t d) : t.lexeme.toList ≠ [] := by
  have hpos := Lexeme.classify_pos c.rest
  rw [← h.length] at hpos
  exact List.length_pos_iff.1 hpos

theorem next?_eq_none_iff {c : Cursor} : c.next? = none ↔ c.rest = [] := by
  simp [next?]

theorem reads_of_next? {c d : Cursor} {t : Token} (h : c.next? = some (t, d)) : Reads c t d := by
  unfold next? at h
  split at h
  · cases h
  · next hne =>
    simp only [Option.some.injEq, Prod.mk.injEq] at h
    obtain ⟨rfl, rfl⟩ := h
    have hle : (Lexeme.classify c.rest).2 ≤ c.rest.length :=
      Lexeme.classify_le (by simpa using hne)
    exact
      { moved := moved_advance c _
        line := rfl
        kind := rfl
        length := by simp [Nat.min_eq_left hle] }

/-- A token that starts with a blank is a run of blanks. -/
theorem Reads.blank {c d : Cursor} {t : Token} (h : Reads c t d) {x : Char} {b : List Char}
    (hx : t.lexeme.toList = x :: b) (hblank : Text.isBlank x = true) :
    t.kind = .whitespace ∧ ∀ y ∈ t.lexeme.toList, Text.isBlank y = true := by
  have hzero : Lexeme.blanks c.rest ≠ 0 := by
    simp [Lexeme.blanks, h.moved.rest, hx, hblank]
  have hclass := Lexeme.classify_of_blanks hzero
  have hlen : t.lexeme.toList.length = (c.rest.takeWhile Text.isBlank).length := by
    rw [h.length, hclass]
    rfl
  have hsplit : t.lexeme.toList ++ d.rest =
      c.rest.takeWhile Text.isBlank ++ c.rest.dropWhile Text.isBlank := by
    rw [← h.moved.rest, List.takeWhile_append_dropWhile]
  rw [h.kind, hclass, (List.append_inj hsplit hlen).1]
  exact ⟨rfl, List.all_eq_true.1 List.all_takeWhile⟩

theorem tokens_of_none {c : Cursor} (h : c.next? = none) : c.tokens = [] := by
  rw [tokens]
  split
  · rfl
  · next hs => simp [h] at hs

theorem tokens_of_some {c d : Cursor} {t : Token} (h : c.next? = some (t, d)) :
    c.tokens = t :: d.tokens := by
  rw [tokens]
  split
  · next hs => simp [h] at hs
  · next hs =>
    rw [h] at hs
    cases hs
    rfl

/-- The cursor after `k` steps; at the end of the text a step changes nothing. -/
def after (c : Cursor) : Nat → Cursor
  | 0 => c
  | k + 1 =>
    match c.next? with
    | none => c
    | some (_, d) => d.after k

theorem after_of_none {c : Cursor} (h : c.next? = none) (k : Nat) : c.after k = c := by
  cases k with
  | zero => rfl
  | succ k => simp [after, h]

theorem after_of_some {c d : Cursor} {t : Token} (h : c.next? = some (t, d)) (k : Nat) :
    c.after (k + 1) = d.after k := by
  simp [after, h]

/-- After `k` steps the tokens ahead are those behind the first `k`. -/
theorem tokens_after (c : Cursor) (k : Nat) : (c.after k).tokens = c.tokens.drop k := by
  induction k generalizing c with
  | zero => rfl
  | succ k ih =>
    cases h : c.next? with
    | none => simp [after_of_none h, tokens_of_none h]
    | some x =>
      rw [after_of_some h, tokens_of_some h, ih]
      rfl

/-- Steps move the cursor over the lexemes of their tokens. -/
theorem moved_after (c : Cursor) (k : Nat) :
    Moved c (lexemes (c.tokens.take k)) (c.after k) := by
  induction k generalizing c with
  | zero => exact .refl c
  | succ k ih =>
    cases h : c.next? with
    | none =>
      rw [after_of_none h, tokens_of_none h]
      exact .refl c
    | some x =>
      rw [after_of_some h, tokens_of_some h, List.take_succ_cons, lexemes_cons]
      exact (reads_of_next? h).moved.trans (ih x.2)

/-- The token of the next step is the first of those ahead. -/
theorem next?_token (c : Cursor) : c.next?.map (·.1) = c.tokens.head? := by
  cases h : c.next? with
  | none => simp [tokens_of_none h]
  | some x => simp [tokens_of_some h]

theorem next?_after (c : Cursor) (k : Nat) : (c.after k).next?.map (·.1) = c.tokens[k]? := by
  rw [next?_token, tokens_after, List.head?_drop]

/-- The step that gives a token of the run. -/
theorem reads_after {c : Cursor} {k : Nat} {t : Token} (h : c.tokens[k]? = some t) :
    Reads (c.after k) t (c.after (k + 1)) := by
  induction k generalizing c with
  | zero =>
    cases hn : c.next? with
    | none => simp [tokens_of_none hn] at h
    | some x =>
      rw [tokens_of_some hn] at h
      obtain rfl : x.1 = t := by simpa using h
      rw [after_of_some hn]
      exact reads_of_next? hn
  | succ k ih =>
    cases hn : c.next? with
    | none => simp [tokens_of_none hn] at h
    | some x =>
      rw [tokens_of_some hn, List.getElem?_cons_succ] at h
      rw [after_of_some hn, after_of_some hn]
      exact ih h

/-- A run of all steps passes the whole text. -/
theorem rest_eq_lexemes (c : Cursor) : c.rest = (lexemes c.tokens).toList := by
  have hm := moved_after c c.tokens.length
  have htokens := tokens_after c c.tokens.length
  rw [List.drop_length] at htokens
  have hend : (c.after c.tokens.length).rest = [] := by
    rw [← next?_eq_none_iff, ← Option.map_eq_none_iff, next?_token, htokens]
    rfl
  have hrest := hm.rest
  rwa [hend, List.append_nil, List.take_length] at hrest

/-- Each step gives a token, or none at the end, and the offset behind the lexemes so far. -/
theorem steps_eq (c : Cursor) (n : Nat) :
    c.steps n = (List.range n).map fun k => (c.tokens[k]?, (c.after (k + 1)).offset) := by
  induction n generalizing c with
  | zero => rfl
  | succ n ih =>
    rw [List.range_succ_eq_map]
    cases h : c.next? with
    | none =>
      simp only [steps, h, ih, after_of_none h, tokens_of_none h, List.map_cons, List.map_map,
        List.getElem?_nil, Function.comp_def]
    | some x => simp [steps, h, ih, tokens_of_some h, after]

end Cursor

theorem lexemes_scan (source : String) : lexemes (scan source) = source := by
  rw [← String.toList_inj]
  exact (Cursor.rest_eq_lexemes (.start source)).symm

theorem lexemes_take_append_drop (source : String) (k : Nat) :
    lexemes ((scan source).take k) ++ lexemes ((scan source).drop k) = source := by
  rw [← lexemes_append, List.take_append_drop, lexemes_scan]

theorem scan_lexeme_ne {source : String} {t : Token} (h : t ∈ scan source) : t.lexeme ≠ "" := by
  obtain ⟨k, hk⟩ := List.mem_iff_getElem?.1 h
  have hne := (Cursor.reads_after hk).lexeme_ne
  intro he
  rw [he] at hne
  exact hne rfl

/-- Steps from the start of a source. -/
theorem moved_scan (source : String) (k : Nat) :
    (Cursor.start source).Moved (lexemes ((scan source).take k)) ((Cursor.start source).after k) :=
  Cursor.moved_after _ k

/-- The offset after some steps is the length of their lexemes in bytes. -/
theorem offset_after (source : String) (k : Nat) :
    ((Cursor.start source).after k).offset = (lexemes ((scan source).take k)).utf8ByteSize := by
  rw [(moved_scan source k).offset]
  exact Nat.zero_add _

theorem line_after (source : String) (k : Nat) :
    ((Cursor.start source).after k).line =
      1 + (lexemes ((scan source).take k)).toList.count '\n' :=
  (moved_scan source k).line

/-- A token's line is one more than the newlines in front of it. -/
theorem scan_line {source : String} {k : Nat} {t : Token} (h : (scan source)[k]? = some t) :
    t.line = 1 + (lexemes ((scan source).take k)).toList.count '\n' := by
  rw [(Cursor.reads_after h).line, line_after]

/-- Lines never decrease: the text in front of a later token begins with the text in front of an
earlier one. -/
theorem scan_lines_mono (source : String) : (scan source).Pairwise fun t u => t.line ≤ u.line := by
  rw [List.pairwise_iff_getElem]
  intro i j hi hj hij
  have hti := scan_line (List.getElem?_eq_getElem hi)
  have htj := scan_line (List.getElem?_eq_getElem hj)
  obtain ⟨more, hmore⟩ : (scan source).take i <+: (scan source).take j :=
    List.take_prefix_take_left (Nat.le_of_lt hij)
  rw [← hmore, lexemes_append, String.toList_append, List.count_append] at htj
  omega

theorem count_take_le (source : String) (k : Nat) :
    (lexemes ((scan source).take k)).toList.count '\n' ≤ source.toList.count '\n' := by
  have h := congrArg (fun s => s.toList.count '\n') (lexemes_take_append_drop source k)
  simp only [String.toList_append, List.count_append] at h
  omega

/-- The offset reaches the length of the source only at its end. -/
theorem offset_eq_iff (source : String) (k : Nat) :
    ((Cursor.start source).after k).offset = source.utf8ByteSize ↔
      ((Cursor.start source).after k).rest = [] := by
  have hrest : ((Cursor.start source).after k).rest = (lexemes ((scan source).drop k)).toList := by
    rw [Cursor.rest_eq_lexemes, Cursor.tokens_after]
    rfl
  have hsize := congrArg String.utf8ByteSize (lexemes_take_append_drop source k)
  rw [String.utf8ByteSize_append] at hsize
  have hzero : (lexemes ((scan source).drop k)).utf8ByteSize = 0 ↔
      (lexemes ((scan source).drop k)).toList = [] := by
    rw [String.utf8ByteSize_eq_zero_iff, String.toList_eq_nil_iff]
  rw [offset_after, hrest, ← hzero]
  omega

/-- The scan is lossless and its positions are exact. -/
theorem scan_lossless (source : String) (h : source.toList.count '\n' < maxLine) :
    lexemes (scan source) = source ∧ (∀ t ∈ scan source, t.lexeme ≠ "") ∧
    (∀ k t, (scan source)[k]? = some t →
      t.line = 1 + (lexemes ((scan source).take k)).toList.count '\n' ∧ t.line ≤ maxLine) ∧
    (scan source).Pairwise (fun t u => t.line ≤ u.line) ∧
    (∀ k, let c := (Cursor.start source).after k
      c.offset = (lexemes ((scan source).take k)).utf8ByteSize ∧ c.line ≤ maxLine ∧
      String.Pos.Raw.IsValid source ⟨c.offset⟩ ∧ c.next?.map (·.1) = (scan source)[k]? ∧
      (c.next? = none ↔ c.offset = source.utf8ByteSize)) ∧
    ∀ n, (Cursor.start source).steps n = (List.range n).map fun k =>
      ((scan source)[k]?, (lexemes ((scan source).take (k + 1))).utf8ByteSize) := by
  have hlines : ∀ k, 1 + (lexemes ((scan source).take k)).toList.count '\n' ≤ maxLine := by
    intro k
    have := count_take_le source k
    omega
  refine ⟨lexemes_scan source, fun t => scan_lexeme_ne, fun k t ht => ?_, scan_lines_mono source,
    fun k => ⟨offset_after source k, ?_, ?_, Cursor.next?_after _ k, ?_⟩, fun n => ?_⟩
  · have hline := scan_line ht
    exact ⟨hline, hline ▸ hlines k⟩
  · rw [line_after]
    exact hlines k
  · rw [String.Pos.Raw.isValid_iff_exists_append, offset_after]
    exact ⟨_, _, (lexemes_take_append_drop source k).symm, rfl⟩
  · rw [Cursor.next?_eq_none_iff, offset_eq_iff]
  · simp only [Cursor.steps_eq, offset_after]
    rfl

/-- A continued directive, a comment that spans two lines and a character of two bytes. -/
theorem scan_lossless_spread :
    "#a\\\nb\n/*\n*/é".toList.count '\n' < maxLine ∧
      lexemes (scan "#a\\\nb\n/*\n*/é") = "#a\\\nb\n/*\n*/é" ∧
      ∀ k, ((Cursor.start "#a\\\nb\n/*\n*/é").after k).next? = none ↔
        ((Cursor.start "#a\\\nb\n/*\n*/é").after k).offset = 13 := by
  have h : "#a\\\nb\n/*\n*/é".toList.count '\n' < maxLine := by decide
  obtain ⟨hlossless, -, -, -, hpositions, -⟩ := scan_lossless _ h
  exact ⟨h, hlossless, fun k => (hpositions k).2.2.2.2⟩

end CAudit
