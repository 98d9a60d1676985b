import CAudit.Yaml.Document

/-! Mappings in block style are read back as they were written. Keys and values are words, and a
nested mapping is known by the column of its keys: the lines that follow it stand further left. -/
namespace CAudit.Yaml

/-- The characters of words: letters, digits and underscores of ASCII. -/
def isWordChar (c : Char) : Bool := c.isAlphanum || c == '_'

theorem isWordChar_ne {c d : Char} (hc : isWordChar c = true) (hd : isWordChar d = false) :
    c ≠ d := by
  rintro rfl
  rw [hc] at hd
  cases hd

theorem toNat_of_between {c low high : Char} (h : (decide (low ≤ c) && decide (c ≤ high)) = true) :
    low.toNat ≤ c.toNat ∧ c.toNat ≤ high.toNat := by
  rw [Bool.and_eq_true, decide_eq_true_eq, decide_eq_true_eq] at h
  exact h

theorem toNat_of_isWordChar {c : Char} (hc : isWordChar c = true) :
    0x30 ≤ c.toNat ∧ c.toNat ≤ 0x7a := by
  rw [isWordChar, Bool.or_eq_true, beq_iff_eq] at hc
  rcases hc with hletter | rfl
  · have hclass : ((c.isUpper || c.isLower) || c.isDigit) = true := hletter
    rw [Bool.or_eq_true, Bool.or_eq_true] at hclass
    rcases hclass with (hupper | hlower) | hdigit
    · have hrange : 0x41 ≤ c.toNat ∧ c.toNat ≤ 0x5a := of_decide_eq_true hupper
      omega
    · have hrange : 0x61 ≤ c.toNat ∧ c.toNat ≤ 0x7a := toNat_of_between hlower
      omega
    · have hrange : 0x30 ≤ c.toNat ∧ c.toNat ≤ 0x39 := toNat_of_between hdigit
      omega
  · decide

theorem not_isGap {c : Char} (hc : isWordChar c = true) : isGap c = false := by
  have hspace : c ≠ ' ' := isWordChar_ne hc (by decide)
  have htab : c ≠ '\t' := isWordChar_ne hc (by decide)
  simp [isGap, hspace, htab]

def IsWord (cs : List Char) : Prop := cs ≠ [] ∧ ∀ c ∈ cs, isWordChar c = true

theorem IsWord.cons {w : List Char} (h : IsWord w) : ∃ c cs, w = c :: cs ∧ isWordChar c = true := by
  obtain ⟨c, cs, rfl⟩ := List.exists_cons_of_ne_nil h.1
  exact ⟨c, cs, rfl, h.2 c List.mem_cons_self⟩

theorem not_startsMark {c : Char} (hc : isWordChar c = true) (cs : List Char) :
    startsMark (c :: cs) = false := by
  have hdash : c ≠ '-' := isWordChar_ne hc (by decide)
  have hdot : c ≠ '.' := isWordChar_ne hc (by decide)
  unfold startsMark
  split
  · next heq => exact absurd (List.cons.inj heq).1 hdash
  · next heq => exact absurd (List.cons.inj heq).1 hdot
  · rfl

theorem nextLine_word {c : Char} (hc : isWordChar c = true) (indent : Nat) (cs : List Char) :
    nextLine false indent (c :: cs) = .content indent (c :: cs) := by
  have hnewline : c ≠ '\n' := isWordChar_ne hc (by decide)
  have hspace : c ≠ ' ' := isWordChar_ne hc (by decide)
  have hcomment : c ≠ '#' := isWordChar_ne hc (by decide)
  simp [nextLine, hnewline, hspace, hcomment, not_startsMark hc]

theorem nextLine_spaces (indent k : Nat) (cs : List Char) :
    nextLine false indent (List.replicate k ' ' ++ cs) = nextLine false (indent + k) cs := by
  induction k generalizing indent with
  | zero => rfl
  | succ k ih =>
    have hstep : nextLine false indent (List.replicate (k + 1) ' ' ++ cs) =
        nextLine false (indent + 1) (List.replicate k ' ' ++ cs) := rfl
    rw [hstep, ih, Nat.add_right_comm, Nat.add_assoc]

theorem lineEnd_newline (cs : List Char) : lineEnd ('\n' :: cs) = some (nextLine false 0 cs) := rfl

theorem lineEnd_word {c : Char} (hc : isWordChar c = true) (cs : List Char) :
    lineEnd (' ' :: c :: cs) = none := by
  have hnewline : c ≠ '\n' := isWordChar_ne hc (by decide)
  have hcomment : c ≠ '#' := isWordChar_ne hc (by decide)
  have hspace : isGap ' ' = true := rfl
  simp [lineEnd, hspace, not_isGap hc, hnewline, hcomment]

/-- What follows an entry: nothing, or a word that starts in a column left of `bound`. -/
inductive Follows (bound : Nat) : List Char → Prop
  | nothing : Follows bound []
  | word {column : Nat} {c : Char} {cs : List Char} : column < bound → isWordChar c = true →
      Follows bound (List.replicate column ' ' ++ c :: cs)

theorem Follows.mono {a b : Nat} {cs : List Char} (h : Follows a cs) (hab : a ≤ b) :
    Follows b cs := by
  cases h with
  | nothing => exact .nothing
  | word hcolumn hc => exact .word (Nat.lt_of_lt_of_le hcolumn hab) hc

theorem Follows.nextLine {bound : Nat} {cs : List Char} (h : Follows bound cs) :
    nextLine false 0 cs = .boundary [] ∨
      ∃ column text, column < bound ∧ nextLine false 0 cs = .content column text := by
  cases h with
  | nothing => exact .inl rfl
  | @word column c cs hcolumn hc =>
    refine .inr ⟨column, c :: cs, hcolumn, ?_⟩
    rw [nextLine_spaces, Nat.zero_add, nextLine_word hc]

theorem trimGaps_word {w : List Char} (h : ∀ c ∈ w, isWordChar c = true) : trimGaps w = w := by
  have hdrop : w.reverse.dropWhile isGap = w.reverse := by
    cases hw : w.reverse with
    | nil => rfl
    | cons c cs =>
      have hc : isWordChar c = true := h c (List.mem_reverse.1 (hw ▸ List.mem_cons_self))
      rw [List.dropWhile_cons, not_isGap hc]
      rfl
  rw [trimGaps, hdrop, List.reverse_reverse]

theorem plainLine_word {place : Place} (hflow : place.inFlow = false) {w rest : List Char}
    (h : ∀ c ∈ w, isWordChar c = true)
    (hrest : ∀ afterGap, plainLine place afterGap rest = some ([], rest)) (afterGap : Bool) :
    plainLine place afterGap (w ++ rest) = some (w, rest) := by
  induction w generalizing afterGap with
  | nil => exact hrest afterGap
  | cons c w ih =>
    obtain ⟨hc, hw⟩ := List.forall_mem_cons.1 h
    have hnewline : c ≠ '\n' := isWordChar_ne hc (by decide)
    have hcomment : c ≠ '#' := isWordChar_ne hc (by decide)
    have hcolon : c ≠ ':' := isWordChar_ne hc (by decide)
    simp [plainLine, hnewline, hcomment, hcolon, hflow, ih hw]

theorem startsPlain_word {place : Place} {c : Char} (hc : isWordChar c = true) (cs : List Char) :
    startsPlain place (c :: cs) = true := by
  have hdash : c ≠ '-' := isWordChar_ne hc (by decide)
  have hquestion : c ≠ '?' := isWordChar_ne hc (by decide)
  have hcolon : c ≠ ':' := isWordChar_ne hc (by decide)
  have hnewline : c ≠ '\n' := isWordChar_ne hc (by decide)
  have hindicator : c ∉ indicators := by
    have hnone : indicators.all (fun d => !isWordChar d) = true := by decide
    intro hmem
    have hd := List.all_eq_true.1 hnone c hmem
    rw [hc] at hd
    cases hd
  simp [startsPlain, hdash, hquestion, hcolon, hnewline, not_isGap hc, hindicator]

theorem not_isQuote {c : Char} (hc : isWordChar c = true) : isQuote c = false := by
  have hdouble : c ≠ '"' := isWordChar_ne hc (by decide)
  have hsingle : c ≠ '\'' := isWordChar_ne hc (by decide)
  simp [isQuote, hdouble, hsingle]

theorem blockKey_word {w rest : List Char} (hw : IsWord w) (hrest : endsToken rest = true) :
    blockKey (w ++ ':' :: rest) = some (String.ofList w, rest) := by
  obtain ⟨c, cs, rfl, hc⟩ := hw.cons
  have hcolon (afterGap : Bool) :
      plainLine ⟨false, 0⟩ afterGap (':' :: rest) = some ([], ':' :: rest) := by
    simp [plainLine, hrest]
  have hkey : key ⟨false, 0⟩ (c :: cs ++ ':' :: rest) =
      some (String.ofList (c :: cs), ':' :: rest) := by
    have hline := plainLine_word (by rfl) hw.2 hcolon true
    rw [List.cons_append] at hline ⊢
    simp [key, not_isQuote hc, startsPlain_word hc, hline, trimGaps_word hw.2]
  rw [blockKey, hkey]
  exact if_pos hrest

theorem breaksBelow_spaces (least breaks column k : Nat) (cs : List Char) :
    breaksBelow least breaks column (List.replicate k ' ' ++ cs) =
      breaksBelow least breaks (column + k) cs := by
  induction k generalizing column with
  | zero => rfl
  | succ k ih =>
    have hstep : breaksBelow least breaks column (List.replicate (k + 1) ' ' ++ cs) =
        breaksBelow least breaks (column + 1) (List.replicate k ' ' ++ cs) := rfl
    rw [hstep, ih, Nat.add_right_comm, Nat.add_assoc]

/-- Below a line break there is nothing that a scalar could go on with. -/
theorem Follows.breaksBelow {bound : Nat} {cs : List Char} (h : Follows bound cs) (hb : 0 < bound) :
    ∃ column below, column < bound ∧
      breaksBelow bound 0 0 ('\n' :: cs) = some (1, column, below) := by
  have hbreak : Yaml.breaksBelow bound 0 0 ('\n' :: cs) = Yaml.breaksBelow bound 1 0 cs := rfl
  rw [hbreak]
  cases h with
  | nothing => exact ⟨0, [], hb, rfl⟩
  | @word column c cs hcolumn hc =>
    have hnewline : c ≠ '\n' := isWordChar_ne hc (by decide)
    have hspace : c ≠ ' ' := isWordChar_ne hc (by decide)
    have htab : c ≠ '\t' := isWordChar_ne hc (by decide)
    refine ⟨column, c :: cs, hcolumn, ?_⟩
    rw [breaksBelow_spaces, Nat.zero_add]
    simp [Yaml.breaksBelow, hnewline, hspace, htab]

/-- A word ends with its line if what follows does not stand further right. -/
theorem plainText_word {indent : Nat} {w more : List Char} (hw : IsWord w)
    (hmore : Follows (indent + 1) more) :
    plainText ⟨false, indent + 1⟩ (w ++ '\n' :: more) = some (w, '\n' :: more) := by
  have hend (afterGap : Bool) :
      plainLine ⟨false, indent + 1⟩ afterGap ('\n' :: more) = some ([], '\n' :: more) := by
    simp [plainLine]
  obtain ⟨column, below, hcolumn, hbelow⟩ := hmore.breaksBelow (Nat.succ_pos indent)
  have hleft : Place.admits ⟨false, indent + 1⟩ column below = false := by
    simp [Place.admits, Nat.not_le.2 hcolumn]
  rw [plainText, plainLine_word rfl hw.2 hend]
  simp [hbelow, hleft, trimGaps_word hw.2]

/-- Values that are written and read alike: words, and mappings of words to such values with at most
`room` mappings inside each other. -/
def Writable : Nat → Node → Prop
  | _, .scalar isPlain text => isPlain = true ∧ IsWord text.toList
  | 0, .mapping _ => False
  | room + 1, .mapping entries =>
    entries ≠ [] ∧ ∀ e ∈ entries, IsWord e.1.toList ∧ Writable room e.2

/-- The entries without the indentation of the first one. -/
def entriesStart (level : Nat) (k : String) (v : Node) (rest : Entries) : List Char :=
  k.toList ++ ':' :: (valueText level v ++ entriesText level rest)

theorem entriesText_cons (level : Nat) (k : String) (v : Node) (rest : Entries) :
    entriesText level ((k, v) :: rest) =
      List.replicate (2 * level) ' ' ++ entriesStart level k v rest := by
  rw [entriesText, entriesStart]
  simp

theorem endsToken_valueText (level : Nat) (v : Node) (more : List Char) :
    endsToken (valueText level v ++ more) = true := by
  cases v with
  | scalar isPlain text => cases isPlain <;> simp [valueText, endsToken, isGap]
  | mapping entries => simp [valueText, endsToken]

theorem follows_entriesText {level : Nat} {k : String} (hk : IsWord k.toList) (v : Node)
    (rest : Entries) (more : List Char) {bound : Nat} (hbound : 2 * level < bound) :
    Follows bound (entriesText level ((k, v) :: rest) ++ more) := by
  obtain ⟨c, cs, hkc, hc⟩ := hk.cons
  rw [entriesText_cons, entriesStart, hkc, List.append_assoc, List.cons_append, List.cons_append]
  exact .word hbound hc

theorem nextLine_entriesText {level : Nat} {k : String} (hk : IsWord k.toList) (v : Node)
    (rest : Entries) (more : List Char) :
    nextLine false 0 (entriesText level ((k, v) :: rest) ++ more) =
      .content (2 * level) (entriesStart level k v rest ++ more) := by
  obtain ⟨c, cs, hkc, hc⟩ := hk.cons
  rw [entriesText_cons, List.append_assoc, nextLine_spaces, Nat.zero_add, entriesStart, hkc,
    List.cons_append, List.cons_append, nextLine_word hc]

theorem blockKey_entriesStart {level : Nat} {k : String} (hk : IsWord k.toList) (v : Node)
    (rest : Entries) (more : List Char) :
    blockKey (entriesStart level k v rest ++ more) =
      some (k, valueText level v ++ (entriesText level rest ++ more)) := by
  have hkey := blockKey_word hk (endsToken_valueText level v (entriesText level rest ++ more))
  rw [String.ofList_toList] at hkey
  rw [entriesStart, List.append_assoc, List.cons_append, List.append_assoc]
  exact hkey

/-- The value of an entry is read from its text, up to the line behind it. -/
def ReadsValue (value : Nat → List Char → Option (Node × Line)) (level : Nat) (v : Node) : Prop :=
  ∀ more, Follows (2 * level + 1) more →
    value (2 * level) (valueText level v ++ more) = some (v, nextLine false 0 more)

/-- The entries of a mapping are read one after the other, up to a line further left. -/
theorem blockEntries_written {level : Nat} {value : Nat → List Char → Option (Node × Line)}
    {k : String} {v : Node} {rest : Entries}
    (h : ∀ e ∈ (k, v) :: rest, IsWord e.1.toList ∧ ReadsValue value level e.2)
    {more : List Char} (hmore : Follows (2 * level) more) :
    blockEntries value (2 * level) (entriesStart level k v rest ++ more) =
      some ((k, v) :: rest, nextLine false 0 more) := by
  induction rest generalizing k v with
  | nil =>
    obtain ⟨hk, hv⟩ := h (k, v) List.mem_cons_self
    rw [blockEntries, blockKey_entriesStart hk]
    dsimp only
    rw [entriesText, List.nil_append, hv more (hmore.mono (Nat.le_succ _))]
    rcases hmore.nextLine with hline | ⟨column, text, hcolumn, hline⟩
    · rw [hline]
    · rw [hline]
      exact if_pos hcolumn
  | cons e rest ih =>
    obtain ⟨⟨hk, hv⟩, hrest⟩ := List.forall_mem_cons.1 h
    obtain ⟨k', v'⟩ := e
    have hk' : IsWord k'.toList := (hrest _ List.mem_cons_self).1
    have hshorter : (entriesStart level k' v' rest ++ more).length <
        (entriesStart level k v ((k', v') :: rest) ++ more).length := by
      rw [entriesStart.eq_def level k v, entriesText_cons]
      simp only [List.length_append, List.length_cons]
      omega
    rw [blockEntries, blockKey_entriesStart hk]
    dsimp only
    rw [hv _ (follows_entriesText hk' v' rest more (Nat.lt_succ_self _)),
      nextLine_entriesText hk']
    dsimp only
    rw [if_neg (Nat.lt_irrefl _), decide_eq_true rfl, decide_eq_true hshorter, ih hrest]
    rfl

theorem scalar_word {indent : Nat} {w more : List Char} (hw : IsWord w)
    (hmore : Follows (indent + 1) more) :
    scalar ⟨false, indent + 1⟩ (w ++ '\n' :: more) =
      some (.scalar true (String.ofList w), '\n' :: more) := by
  have htext := plainText_word hw hmore
  obtain ⟨c, cs, rfl, hc⟩ := hw.cons
  rw [List.cons_append] at htext ⊢
  rw [scalar, not_isQuote hc, startsPlain_word hc, htext]
  rfl

theorem blockValue_scalar (room : Nat) {level : Nat} {text : String} (hw : IsWord text.toList) :
    ReadsValue (blockValue room) level (.scalar true text) := by
  intro more hmore
  have hscalar := scalar_word hw hmore
  rw [String.ofList_toList] at hscalar
  obtain ⟨c, cs, hc, hword⟩ := hw.cons
  have hbrace : c ≠ '{' := isWordChar_ne hword (by decide)
  rw [hc, List.cons_append] at hscalar
  have htext : valueText level (.scalar true text) ++ more = ' ' :: c :: (cs ++ '\n' :: more) := by
    rw [valueText, hc]
    simp
  have hdrop : (' ' :: c :: (cs ++ '\n' :: more)).dropWhile isGap = c :: (cs ++ '\n' :: more) := by
    rw [List.dropWhile_cons_of_pos (by rfl), List.dropWhile_cons, not_isGap hword]
    rfl
  rw [htext, blockValue.eq_def]
  dsimp only
  rw [lineEnd_word hword]
  dsimp only
  rw [hdrop, wholeLine, inline, if_neg (by simpa using hbrace), hscalar]
  rfl

theorem blockValue_mapping {room level : Nat} {k : String} {v : Node} {rest : Entries}
    (h : ∀ e ∈ (k, v) :: rest, IsWord e.1.toList ∧ ReadsValue (blockValue room) (level + 1) e.2) :
    ReadsValue (blockValue (room + 1)) level (.mapping ((k, v) :: rest)) := by
  intro more hmore
  have hk : IsWord k.toList := (h _ List.mem_cons_self).1
  have hinner := blockEntries_written h (hmore.mono (by omega))
  have htext : valueText level (.mapping ((k, v) :: rest)) ++ more =
      '\n' :: (entriesText (level + 1) ((k, v) :: rest) ++ more) := by
    rw [valueText, List.cons_append]
  rw [htext, blockValue.eq_def]
  dsimp only
  rw [lineEnd_newline, nextLine_entriesText hk]
  dsimp only
  rw [if_neg (by omega), blockKey_entriesStart hk, if_pos (by rfl), hinner]
  rfl

/-- Values are read back from their text. -/
theorem blockValue_written {room level : Nat} {v : Node} (hv : Writable room v) :
    ReadsValue (blockValue room) level v := by
  induction room generalizing level v with
  | zero =>
    cases v with
    | scalar isPlain text =>
      obtain ⟨rfl, hw⟩ := hv
      exact blockValue_scalar 0 hw
    | mapping entries => exact absurd hv id
  | succ room ih =>
    cases v with
    | scalar isPlain text =>
      obtain ⟨rfl, hw⟩ := hv
      exact blockValue_scalar _ hw
    | mapping entries =>
      obtain ⟨hne, hentries⟩ := hv
      obtain ⟨⟨k, v⟩, rest, rfl⟩ := List.exists_cons_of_ne_nil hne
      exact blockValue_mapping fun e he => ⟨(hentries e he).1, ih (hentries e he).2⟩

/-- The characters that a mapping of words is written with. -/
def isWritten (c : Char) : Bool := isWordChar c || [' ', ':', '\n'].contains c

theorem isWritten_of_word {w : List Char} (h : IsWord w) : ∀ c ∈ w, isWritten c = true := by
  intro c hc
  rw [isWritten, h.2 c hc, Bool.true_or]

theorem entriesText_written {level : Nat} {es : Entries}
    (h : ∀ e ∈ es, IsWord e.1.toList ∧ ∀ c ∈ valueText level e.2, isWritten c = true) :
    ∀ c ∈ entriesText level es, isWritten c = true := by
  induction es with
  | nil =>
    intro c hc
    cases hc
  | cons e es ih =>
    obtain ⟨⟨hk, hv⟩, hes⟩ := List.forall_mem_cons.1 h
    intro c hc
    rw [entriesText_cons, entriesStart, List.mem_append, List.mem_append, List.mem_cons,
      List.mem_append] at hc
    rcases hc with hspace | hkey | rfl | hvalue | hrest
    · rw [List.eq_of_mem_replicate hspace]
      rfl
    · exact isWritten_of_word hk c hkey
    · rfl
    · exact hv c hvalue
    · exact ih hes c hrest

theorem scalarText_written {level : Nat} {text : String} (hw : IsWord text.toList) :
    ∀ c ∈ valueText level (.scalar true text), isWritten c = true := by
  intro c hc
  rw [valueText, List.mem_append, List.mem_cons, List.mem_singleton] at hc
  rcases hc with (rfl | htext) | rfl
  · rfl
  · exact isWritten_of_word hw c htext
  · rfl

theorem valueText_written {room level : Nat} {v : Node} (hv : Writable room v) :
    ∀ c ∈ valueText level v, isWritten c = true := by
  induction room generalizing level v with
  | zero =>
    cases v with
    | scalar isPlain text =>
      obtain ⟨rfl, hw⟩ := hv
      exact scalarText_written hw
    | mapping entries => exact absurd hv id
  | succ room ih =>
    cases v with
    | scalar isPlain text =>
      obtain ⟨rfl, hw⟩ := hv
      exact scalarText_written hw
    | mapping entries =>
      intro c hc
      rw [valueText, List.mem_cons] at hc
      rcases hc with rfl | hc
      · rfl
      · exact entriesText_written (fun e he => ⟨(hv.2 e he).1, ih (hv.2 e he).2⟩) c hc

theorem isAllowed_of_written {c : Char} (h : isWritten c = true) : isAllowed c = true := by
  rw [isWritten, Bool.or_eq_true] at h
  rcases h with hword | hmark
  · obtain ⟨hlow, hhigh⟩ := toNat_of_isWordChar hword
    have hrange : 0x20 ≤ c.toNat ∧ c.toNat ≤ 0x7e := by omega
    simp [isAllowed, hrange]
  · rw [List.contains_iff_mem] at hmark
    simp only [List.mem_cons, List.not_mem_nil, or_false] at hmark
    rcases hmark with rfl | rfl | rfl <;> decide

theorem unifyBreaks_written {cs : List Char} (h : ∀ c ∈ cs, isWritten c = true) :
    unifyBreaks cs = cs := by
  induction cs with
  | nil => rfl
  | cons c cs ih =>
    obtain ⟨hc, hcs⟩ := List.forall_mem_cons.1 h
    have hreturn : c ≠ '\r' := by
      rintro rfl
      cases hc
    have hnext : c ≠ '\x85' := by
      rintro rfl
      cases hc
    rw [unifyBreaks, ih hcs]
    · simp [hreturn, hnext]
    · intro rest hr _
      exact hreturn hr

theorem entriesStart_cons (level : Nat) {k : String} (hk : IsWord k.toList) (v : Node)
    (rest : Entries) :
    ∃ c cs, entriesStart level k v rest = c :: cs ∧ isWordChar c = true := by
  obtain ⟨c, cs, hkc, hc⟩ := hk.cons
  exact ⟨c, _, by rw [entriesStart, hkc, List.cons_append], hc⟩

/-- The entries of a document start in the first column, and nothing follows them. -/
theorem root_entriesStart {k : String} {v : Node} {rest : Entries}
    (h : ∀ e ∈ (k, v) :: rest, IsWord e.1.toList ∧ Writable (maxDepth - 1) e.2) :
    root (entriesStart 0 k v rest) = some ((k, v) :: rest) := by
  have hk : IsWord k.toList := (h _ List.mem_cons_self).1
  obtain ⟨c, cs, hc, hword⟩ := entriesStart_cons 0 hk v rest
  have hbrace : c ≠ '{' := isWordChar_ne hword (by decide)
  have hentries : blockEntries (blockValue (maxDepth - 1)) (2 * 0)
      (entriesStart 0 k v rest ++ []) = some ((k, v) :: rest, .boundary []) :=
    blockEntries_written (fun e he => ⟨(h e he).1, blockValue_written (h e he).2⟩) .nothing
  have hrootAt : rootAt (.content 0 (entriesStart 0 k v rest)) =
      some ((k, v) :: rest, .boundary []) := by
    rw [List.append_nil] at hentries
    rw [rootAt, if_neg (by simpa [hc] using hbrace)]
    exact hentries
  rw [root, hc, nextLine_word hword, ← hc]
  dsimp only
  rw [hrootAt]
  exact if_pos (by rw [isEnd])

/-- A mapping of words, and of mappings of words, is read back from its document. -/
theorem read_write {es : Entries} (hne : es ≠ [])
    (h : ∀ e ∈ es, IsWord e.1.toList ∧ Writable (maxDepth - 1) e.2) :
    read (write es) = some es := by
  obtain ⟨⟨k, v⟩, rest, rfl⟩ := List.exists_cons_of_ne_nil hne
  have htext : entriesText 0 ((k, v) :: rest) = entriesStart 0 k v rest :=
    entriesText_cons 0 k v rest
  have hwritten : ∀ c ∈ entriesStart 0 k v rest, isWritten c = true :=
    htext ▸ entriesText_written fun e he => ⟨(h e he).1, valueText_written (h e he).2⟩
  have hallowed : (entriesStart 0 k v rest).all isAllowed = true :=
    List.all_eq_true.2 fun c hc => isAllowed_of_written (hwritten c hc)
  have hbreaks := unifyBreaks_written hwritten
  have hroot := root_entriesStart h
  obtain ⟨c, cs, hc, hword⟩ := entriesStart_cons 0 (h _ List.mem_cons_self).1 v rest
  have hmark : c.toNat ≠ 0xfeff := by
    have hrange := toNat_of_isWordChar hword
    omega
  rw [hc] at hallowed hbreaks hroot
  rw [read, write, String.toList_ofList, htext, hc]
  simp only [if_neg hmark, hallowed, if_true, hbreaks, hroot]

end CAudit.Yaml
