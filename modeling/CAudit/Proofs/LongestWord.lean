import CAudit.Proofs.Lookahead
import CAudit.Proofs.Scanning

/-! Words are taken as long as they reach. Trying the keywords one after the other, each with the
end of a word behind it, finds no other word than the whole run of name characters: a keyword that
is only the beginning of the run is followed by a character of the run. -/
namespace CAudit

namespace Lexeme
open Text

/-- The longest run of name characters at the front of a text. -/
structure LongestName (cs w : List Char) : Prop where
  front : w <+: cs
  chars : ∀ c ∈ w, isNameChar c = true
  longest : ∀ v, v <+: cs → (∀ c ∈ v, isNameChar c = true) → v <+: w

theorem longestName_takeWhile (cs : List Char) : LongestName cs (cs.takeWhile isNameChar) where
  front := List.takeWhile_prefix _
  chars := List.all_eq_true.1 List.all_takeWhile
  longest := by
    rintro v ⟨r, rfl⟩ hv
    rw [List.takeWhile_append_of_pos hv]
    exact List.prefix_append _ _

theorem LongestName.unique {cs v w : List Char} (hv : LongestName cs v) (hw : LongestName cs w) :
    v = w := by
  have hvw := hw.longest v hv.front hv.chars
  have hwv := hv.longest w hw.front hw.chars
  exact hvw.eq_of_length (Nat.le_antisymm hvw.length_le hwv.length_le)

theorem LongestName.of_stop {w after : List Char} (hw : ∀ c ∈ w, isNameChar c = true)
    (hafter : after.head?.any isNameChar = false) : LongestName (w ++ after) w := by
  have hrun : (w ++ after).takeWhile isNameChar = w := by
    rw [List.takeWhile_append_of_pos hw]
    cases after with
    | nil => simp
    | cons c after =>
      have hc : isNameChar c = false := by simpa using hafter
      simp [hc]
  have hlongest := longestName_takeWhile (w ++ after)
  rwa [hrun] at hlongest

theorem name_eq_takeWhile {cs : List Char} (h : cs.head?.any isNameStart = true) :
    name cs = cs.takeWhile isNameChar := by
  rw [name, if_pos h]

theorem longestName_name {cs : List Char} (h : cs.head?.any isNameStart = true) :
    LongestName cs (name cs) := by
  rw [name_eq_takeWhile h]
  exact longestName_takeWhile cs

/-- The word stands at the front of the text and ends there. -/
def standsAt (cs : List Char) (q : String) : Bool :=
  q.toList.isPrefixOf cs && endsWord (cs.drop q.length)

/-- The first keyword, in the order of the list, that stands at the front and ends there. -/
def firstKeyword? (cs : List Char) : Option String := keywords.find? (standsAt cs)

/-- Keywords are names. -/
theorem keyword_chars {q : String} (h : q ∈ keywords) : ∀ c ∈ q.toList, isNameChar c = true := by
  have hall : keywords.all (fun q => q.toList.all isNameChar) = true := by decide
  exact List.all_eq_true.1 (List.all_eq_true.1 hall q h)

theorem not_nameChar_of_endsWord {cs : List Char} (h : endsWord cs = true) :
    cs.head?.any isNameChar = false := by
  cases cs with
  | nil => rfl
  | cons c cs =>
    have hc : isWord c = false := by simpa [endsWord] using h
    cases hn : isNameChar c with
    | false => simp [hn]
    | true => rw [isWord_of_isNameChar hn] at hc; cases hc

/-- A keyword that stands at the front and ends there is the whole run: whatever the order of the
list, no shorter keyword can be found. -/
theorem longestName_of_standsAt {cs : List Char} {q : String} (hq : q ∈ keywords)
    (h : standsAt cs q = true) : LongestName cs q.toList := by
  simp only [standsAt, Bool.and_eq_true, List.isPrefixOf_iff_prefix] at h
  obtain ⟨⟨after, rfl⟩, hend⟩ := h
  rw [← String.length_toList, List.drop_left] at hend
  exact .of_stop (keyword_chars hq) (not_nameChar_of_endsWord hend)

theorem standsAt_iff {cs w : List Char} (hw : LongestName cs w) {q : String} (hq : q ∈ keywords) :
    standsAt cs q = true ↔ q.toList = w ∧ endsWord (cs.drop w.length) = true := by
  constructor
  · intro h
    have heq := (longestName_of_standsAt hq h).unique hw
    refine ⟨heq, ?_⟩
    simp only [standsAt, Bool.and_eq_true] at h
    rw [← heq, String.length_toList]
    exact h.2
  · rintro ⟨rfl, hend⟩
    simp only [standsAt, Bool.and_eq_true, List.isPrefixOf_iff_prefix]
    exact ⟨hw.front, by rwa [← String.length_toList]⟩

/-- The keywords tried in their order give the whole run or nothing. -/
theorem firstKeyword?_eq {cs w : List Char} (hw : LongestName cs w) :
    firstKeyword? cs =
      if keywords.contains (String.ofList w) && endsWord (cs.drop w.length) then
        some (String.ofList w)
      else none := by
  split
  · next h =>
    simp only [Bool.and_eq_true, List.contains_iff_mem] at h
    have hstands := (standsAt_iff hw h.1).2 ⟨String.toList_ofList, h.2⟩
    cases hfirst : firstKeyword? cs with
    | none => exact absurd hstands (List.find?_eq_none.1 hfirst _ h.1)
    | some q =>
      have hq := (standsAt_iff hw (List.mem_of_find?_eq_some hfirst)).1 (List.find?_some hfirst)
      rw [← hq.1, String.ofList_toList]
  · next h =>
    refine List.find?_eq_none.2 fun q hq hstands => h ?_
    obtain ⟨rfl, hend⟩ := (standsAt_iff hw hq).1 hstands
    simp only [Bool.and_eq_true, List.contains_iff_mem, String.ofList_toList]
    exact ⟨hq, hend⟩

theorem keyword_eq (cs : List Char) :
    keyword cs =
      if keywords.contains (String.ofList (name cs)) && endsWord (cs.drop (name cs).length) then
        (name cs).length
      else 0 := rfl

theorem not_isBlank_of_isNameStart {c : Char} (h : isNameStart c = true) : isBlank c = false := by
  have hname : isNameChar c = true := by simp [isNameChar, h]
  cases hb : isBlank c with
  | false => rfl
  | true =>
    have hword := isWord_of_isBlank hb
    rw [isWord_of_isNameChar hname] at hword
    cases hword

theorem name_ne_nil {cs : List Char} (h : cs.head?.any isNameStart = true) : name cs ≠ [] := by
  rw [name_eq_takeWhile h]
  cases cs with
  | nil => simp at h
  | cons c r =>
    have hstart : isNameStart c = true := by simpa using h
    simp [isNameChar, hstart]

/-- Where a name starts, no blank, comment or directive does. -/
theorem classify_name {cs : List Char} (h : cs.head?.any isNameStart = true) :
    classify cs = (if keyword cs = 0 then .identifier else .keyword, (name cs).length) := by
  obtain ⟨c, r, rfl⟩ : ∃ c r, cs = c :: r := by
    cases cs with
    | nil => simp at h
    | cons c r => exact ⟨c, r, rfl⟩
  have hstart : isNameStart c = true := by simpa using h
  have hslash : c ≠ '/' := by rintro rfl; exact absurd hstart (by decide)
  have hhash : c ≠ '#' := by rintro rfl; exact absurd hstart (by decide)
  have hblanks : blanks (c :: r) = 0 := by simp [blanks, not_isBlank_of_isNameStart hstart]
  have hcomment : comment (c :: r) = 0 := by simp [comment, hslash]
  have hdirective : directive (c :: r) = 0 := by simp [directive, hhash]
  have hname : name (c :: r) ≠ [] := name_ne_nil h
  by_cases hk : keyword (c :: r) = 0
  · simp [classify, rules, hblanks, hcomment, hdirective, hk, identifier, hname]
  · have hlength : keyword (c :: r) = (name (c :: r)).length := by
      rw [keyword_eq] at hk ⊢
      split at hk
      · next hword => rw [if_pos hword]
      · exact absurd rfl hk
    simp [classify, rules, hblanks, hcomment, hdirective, hlength, hname]

/-- A word `w` in front of the text `after`, and its kind. The keywords are tried in their order;
one that is only the beginning of the word is refused. -/
structure Word (kind : Token.Kind) (w after : List Char) : Prop where
  longest : LongestName (w ++ after) w
  keyword : kind = .keyword ↔
    String.ofList w ∈ keywords ∧ ∀ c ∈ after.head?, isWord c = false
  identifier : kind ≠ .keyword → kind = .identifier
  first : firstKeyword? (w ++ after) = if kind = .keyword then some (String.ofList w) else none
  shorter : ∀ q ∈ keywords, q.toList <+: w ++ after → q.toList ≠ w →
    q.toList <+: w ∧ standsAt (w ++ after) q = false

theorem endsWord_iff {cs : List Char} :
    endsWord cs = true ↔ ∀ c ∈ cs.head?, isWord c = false := by
  cases cs <;> simp [endsWord]

theorem word_classify {cs : List Char} (h : cs.head?.any isNameStart = true) :
    Word (classify cs).1 (name cs) (cs.drop (name cs).length) := by
  have hlongest := longestName_name h
  have hsplit : name cs ++ cs.drop (name cs).length = cs :=
    List.prefix_iff_eq_append.1 hlongest.front
  have hkind : (classify cs).1 = .keyword ↔
      keywords.contains (String.ofList (name cs)) && endsWord (cs.drop (name cs).length) := by
    rw [classify_name h, keyword_eq]
    by_cases hword : keywords.contains (String.ofList (name cs)) &&
        endsWord (cs.drop (name cs).length)
    · rw [if_pos hword, if_neg (mt List.length_eq_zero_iff.1 (name_ne_nil h))]
      exact iff_of_true rfl hword
    · rw [if_neg hword, if_pos rfl]
      exact iff_of_false (by simp) hword
  refine ⟨?_, ?_, ?_, ?_, ?_⟩
  · rwa [hsplit]
  · rw [hkind, Bool.and_eq_true, List.contains_iff_mem, endsWord_iff]
  · intro hne
    rw [classify_name h] at hne ⊢
    split at hne
    · next hzero => rw [if_pos hzero]
    · exact absurd rfl hne
  · rw [hsplit, firstKeyword?_eq hlongest]
    simp only [hkind]
  · rw [hsplit]
    intro q hq hfront hne
    refine ⟨hlongest.longest _ hfront (keyword_chars hq), ?_⟩
    cases hstands : standsAt cs q with
    | false => rfl
    | true => exact absurd ((standsAt_iff hlongest hq).1 hstands).1 hne

end Lexeme

theorem Cursor.Reads.word {c d : Cursor} {t : Token} (h : c.Reads t d)
    (hstart : c.rest.head?.any Text.isNameStart = true) :
    Lexeme.Word t.kind t.lexeme.toList d.rest := by
  have hword := Lexeme.word_classify hstart
  have hlexeme : t.lexeme.toList = Lexeme.name c.rest := by
    obtain ⟨after, hafter⟩ := (Lexeme.longestName_name hstart).front
    have hlength := h.length
    rw [Lexeme.classify_name hstart] at hlength
    exact (List.append_inj (h.moved.rest.symm.trans hafter.symm) hlength).1
  have hrest : c.rest.drop t.lexeme.toList.length = d.rest := by
    rw [h.moved.rest, List.drop_left]
  rwa [← h.kind, ← hlexeme, hrest] at hword

/-- Wherever the cursor of a scan stands at the start of a name, the next token is the longest run
of name characters from there on. It is a keyword if the run is in the list and no word character of
any script follows, which is what trying the keywords in their order gives too, and otherwise an
identifier. -/
theorem scan_takes_longest_word (source : String) (k : Nat)
    (h : ((Cursor.start source).after k).rest.head?.any Text.isNameStart = true) :
    let ahead := ((Cursor.start source).after k).rest
    let behind := ((Cursor.start source).after (k + 1)).rest
    source.toList = (lexemes ((scan source).take k)).toList ++ ahead ∧
      ∃ t, (scan source)[k]? = some t ∧ ahead = t.lexeme.toList ++ behind ∧
        Lexeme.Word t.kind t.lexeme.toList behind := by
  intro ahead behind
  obtain ⟨t, ht⟩ : ∃ t, (scan source)[k]? = some t := by
    cases hk : (scan source)[k]? with
    | some t => exact ⟨t, rfl⟩
    | none =>
      have hnext := Cursor.next?_after (.start source) k
      rw [← scan, hk, Option.map_eq_none_iff, Cursor.next?_eq_none_iff] at hnext
      simp [hnext] at h
  have hreads := Cursor.reads_after (c := .start source) ht
  exact ⟨(moved_scan source k).rest, t, ht, hreads.moved.rest, hreads.word h⟩

/-- A keyword in front of a letter that is no name character, and one that starts like a shorter
one. -/
theorem scan_takes_longest_word_double :
    let source := "do\u00e9 double"
    ((Cursor.start source).after 0).rest.head?.any Text.isNameStart = true ∧
      ((Cursor.start source).after 3).rest.head?.any Text.isNameStart = true ∧
      Lexeme.Word .identifier "do".toList "\u00e9 double".toList ∧
      Lexeme.Word .keyword "double".toList [] := by
  intro source
  have hfirst : ((Cursor.start source).after 0).rest.head?.any Text.isNameStart = true := by
    decide +kernel
  have hlast : ((Cursor.start source).after 3).rest.head?.any Text.isNameStart = true := by
    decide +kernel
  refine ⟨hfirst, hlast, ?_, ?_⟩
  · obtain ⟨-, t, ht, -, hword⟩ := scan_takes_longest_word source 0 hfirst
    have hscan : (scan source)[0]? = some ⟨.identifier, "do", 1⟩ := by decide +kernel
    have hbehind : ((Cursor.start source).after 1).rest = "\u00e9 double".toList := by
      decide +kernel
    rw [hscan] at ht
    cases ht
    rwa [hbehind] at hword
  · obtain ⟨-, t, ht, -, hword⟩ := scan_takes_longest_word source 3 hlast
    have hscan : (scan source)[3]? = some ⟨.keyword, "double", 1⟩ := by decide +kernel
    have hbehind : ((Cursor.start source).after 4).rest = [] := by decide +kernel
    rw [hscan] at ht
    cases ht
    rwa [hbehind] at hword

end CAudit
