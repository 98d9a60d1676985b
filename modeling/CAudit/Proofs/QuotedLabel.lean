import CAudit.Proofs.PreOrder

/-! Labels as the DOT language reads them. Inside quotes a backslash belongs to the character behind
it, and the first quote without one ends the text. The label of a node is written so that it is read
back up to the quote behind it, whatever its name and its value hold. -/
namespace CAudit.ParseTree

/-- What a character behind a backslash stands for. -/
def unescape? (c : Char) : Option Char :=
  if c = '\\' then some '\\' else if c = '"' then some '"' else if c = 'n' then some '\n' else none

/-- A text with more in front of it. -/
def inFront (cs : List Char) (r : List Char × List Char) : List Char × List Char :=
  (cs ++ r.1, r.2)

/-- Reads a quoted text behind its opening quote, and gives the text and what stands behind its
closing quote. -/
def readQuoted : List Char → Option (List Char × List Char)
  | [] => none
  | c :: cs =>
    if c = '"' then some ([], cs)
    else if c = '\\' then
      match cs with
      | [] => none
      | d :: cs => (unescape? d).bind fun e => (readQuoted cs).map (inFront [e])
    else (readQuoted cs).map (inFront [c])

/-- The text that the label of a node shows, before it is written. -/
def caption (t : ParseTree) : List Char :=
  match t.value, t.isTerminal with
  | some v, true => t.name.toList ++ ['\n', '(', '"'] ++ v.toList ++ ['"', ')']
  | _, _ => t.name.toList

theorem label_eq (t : ParseTree) : t.label = t.caption.flatMap labelChar := by
  obtain ⟨name, value, isTerminal, children⟩ := t
  cases value with
  | none => rfl
  | some v =>
    cases isTerminal with
    | false => rfl
    | true => simp [label, caption, labelText, labelChar]

theorem labelChar_cases {P : Char → List Char → Prop} (slash : P '\\' ['\\', '\\'])
    (quote : P '"' ['\\', '"']) (newline : P '\n' ['\\', 'n']) (carriage : P '\r' [])
    (plain : ∀ c, c ≠ '\\' → c ≠ '"' → c ≠ '\n' → c ≠ '\r' → P c [c]) (c : Char) :
    P c (labelChar c) := by
  unfold labelChar
  split
  · next h => exact h ▸ slash
  split
  · next h => exact h ▸ quote
  split
  · next h => exact h ▸ newline
  split
  · next h => exact h ▸ carriage
  · next hslash hquote hnewline hcarriage => exact plain c hslash hquote hnewline hcarriage

/-- Every `c` of a text replaced. -/
def replaced (c : Char) (new cs : List Char) : List Char :=
  cs.flatMap fun d => if d = c then new else [d]

/-- A label is written by four replacements in turn. Backslashes come first, since the later
replacements bring in backslashes of their own. -/
theorem labelText_eq_replaced (s : String) :
    labelText s = replaced '\r' [] (replaced '\n' ['\\', 'n'] (replaced '"' ['\\', '"']
      (replaced '\\' ['\\', '\\'] s.toList))) := by
  unfold labelText replaced
  rw [List.flatMap_assoc, List.flatMap_assoc, List.flatMap_assoc]
  congr 1
  funext c
  by_cases hslash : c = '\\'
  · rw [hslash]
    rfl
  by_cases hquote : c = '"'
  · rw [hquote]
    rfl
  by_cases hnewline : c = '\n'
  · rw [hnewline]
    rfl
  by_cases hcarriage : c = '\r' <;> simp [labelChar, hslash, hquote, hnewline, hcarriage]

theorem map_inFront_nil (r : Option (List Char × List Char)) : r.map (inFront []) = r := by
  cases r <;> rfl

theorem readQuoted_quote (rest : List Char) : readQuoted ('"' :: rest) = some ([], rest) := by
  rw [readQuoted.eq_def]
  rfl

theorem readQuoted_escape {c d : Char} (h : unescape? c = some d) (rest : List Char) :
    readQuoted ('\\' :: c :: rest) = (readQuoted rest).map (inFront [d]) := by
  rw [readQuoted, if_neg (by decide), if_pos rfl, h, Option.bind_some]

theorem readQuoted_labelChar (c : Char) (rest : List Char) :
    readQuoted (labelChar c ++ rest) =
      (readQuoted rest).map (inFront ([c].filter (· ≠ '\r'))) := by
  refine labelChar_cases (P := fun c cs => readQuoted (cs ++ rest) =
    (readQuoted rest).map (inFront ([c].filter (· ≠ '\r')))) ?_ ?_ ?_ ?_ ?_ c
  · exact readQuoted_escape rfl rest
  · exact readQuoted_escape rfl rest
  · exact readQuoted_escape rfl rest
  · exact (map_inFront_nil _).symm
  · intro c hslash hquote _ hcarriage
    rw [List.singleton_append, readQuoted.eq_def]
    dsimp only
    rw [if_neg hquote, if_neg hslash,
      List.filter_cons_of_pos (by simpa using hcarriage), List.filter_nil]

theorem readQuoted_flatMap (cs rest : List Char) :
    readQuoted (cs.flatMap labelChar ++ rest) =
      (readQuoted rest).map (inFront (cs.filter (· ≠ '\r'))) := by
  induction cs with
  | nil => exact (map_inFront_nil _).symm
  | cons c cs ih =>
    have hfilter : (c :: cs).filter (· ≠ '\r') = [c].filter (· ≠ '\r') ++ cs.filter (· ≠ '\r') :=
      List.filter_append [c] cs
    rw [List.flatMap_cons, List.append_assoc, readQuoted_labelChar, ih, Option.map_map, hfilter]
    congr 1
    funext r
    simp only [Function.comp_apply, inFront, List.append_assoc]

theorem not_mem_labelChar {d : Char} (hd : d = '\n' ∨ d = '\r') (c : Char) : d ∉ labelChar c := by
  have hslash : d ≠ '\\' := by rcases hd with rfl | rfl <;> decide
  have hquote : d ≠ '"' := by rcases hd with rfl | rfl <;> decide
  have hletter : d ≠ 'n' := by rcases hd with rfl | rfl <;> decide
  refine labelChar_cases (P := fun _ cs => d ∉ cs) ?_ ?_ ?_ ?_ ?_ c
  · simp [hslash]
  · simp [hslash, hquote]
  · simp [hslash, hletter]
  · exact List.not_mem_nil
  · intro c _ _ hnewline hcarriage hmem
    rw [List.mem_singleton] at hmem
    rcases hd with rfl | rfl
    · exact hnewline hmem.symm
    · exact hcarriage hmem.symm

/-- A label stays on its line. -/
theorem not_mem_label {d : Char} (hd : d = '\n' ∨ d = '\r') (t : ParseTree) : d ∉ t.label := by
  rw [label_eq, List.mem_flatMap]
  rintro ⟨c, -, hmem⟩
  exact not_mem_labelChar hd c hmem

/-- How many backslashes a text ends in. -/
def slashesAtEnd (cs : List Char) : Nat := (cs.reverse.takeWhile (· = '\\')).length

/-- Backslashes at the end are not affected by what stands in front of another character. -/
theorem slashesAtEnd_append {front : List Char} {c : Char} (hc : c ≠ '\\') (cs : List Char) :
    slashesAtEnd (front ++ c :: cs) = slashesAtEnd cs := by
  unfold slashesAtEnd
  rw [List.reverse_append, List.reverse_cons, List.append_assoc, List.takeWhile_append]
  split
  · next h => simp [hc, h]
  · rfl

theorem slashesAtEnd_pair (cs : List Char) :
    slashesAtEnd ('\\' :: '\\' :: cs) % 2 = slashesAtEnd cs % 2 := by
  unfold slashesAtEnd
  rw [List.reverse_cons, List.reverse_cons, List.append_assoc, List.takeWhile_append]
  split
  · next h => simp [h]
  · rfl

/-- A quote behind two characters is the second of them, or stands in the rest. -/
theorem quote_in_pair {x y : Char} (hx : x ≠ '"') {rest front behind : List Char}
    (h : x :: y :: rest = front ++ '"' :: behind) :
    front = [x] ∧ y = '"' ∨ ∃ inner, front = x :: y :: inner ∧ rest = inner ++ '"' :: behind := by
  cases front with
  | nil => exact absurd (List.cons.inj h).1 hx
  | cons a front =>
    obtain ⟨rfl, htail⟩ := List.cons.inj h
    cases front with
    | nil => exact .inl ⟨rfl, (List.cons.inj htail).1⟩
    | cons b front =>
      obtain ⟨rfl, hrest⟩ := List.cons.inj htail
      exact .inr ⟨front, rfl, hrest⟩

/-- Each quote of a label stands behind a backslash that belongs to it. -/
theorem odd_slashesAtEnd {cs front behind : List Char}
    (h : cs.flatMap labelChar = front ++ '"' :: behind) : slashesAtEnd front % 2 = 1 := by
  induction cs generalizing front with
  | nil => simp at h
  | cons c cs ih =>
    rw [List.flatMap_cons] at h
    revert h
    refine labelChar_cases (P := fun _ unit =>
      unit ++ cs.flatMap labelChar = front ++ '"' :: behind → slashesAtEnd front % 2 = 1)
      ?_ ?_ ?_ ih ?_ c
    · intro h
      rcases quote_in_pair (by decide) h with ⟨-, hquote⟩ | ⟨inner, rfl, hrest⟩
      · exact absurd hquote (by decide)
      · rw [slashesAtEnd_pair]
        exact ih hrest
    · intro h
      rcases quote_in_pair (by decide) h with ⟨rfl, -⟩ | ⟨inner, rfl, hrest⟩
      · rfl
      · rw [← List.singleton_append, slashesAtEnd_append (by decide)]
        exact ih hrest
    · intro h
      rcases quote_in_pair (by decide) h with ⟨-, hquote⟩ | ⟨inner, rfl, hrest⟩
      · exact absurd hquote (by decide)
      · rw [← List.singleton_append, slashesAtEnd_append (by decide)]
        exact ih hrest
    · intro d hslash hquote _ _ h
      cases front with
      | nil => exact absurd (List.cons.inj h).1 hquote
      | cons a front =>
        obtain ⟨rfl, hrest⟩ := List.cons.inj h
        rw [← List.nil_append (d :: front), slashesAtEnd_append hslash]
        exact ih hrest

theorem toList_nodeLine (v : Vertex) : ∃ style, v.nodeLine.toList =
    "    ".toList ++ (nodeName v.id ++ " [label=\"").toList ++ (v.tree.label ++ '"' ::
      (", shape=".toList ++ style)) := by
  unfold Vertex.nodeLine
  refine ⟨((if v.tree.isTerminal then "box" else "ellipse") ++ ", style=filled, fillcolor=" ++
    (if v.tree.isTerminal then "lightblue" else "lightgray") ++ "];\n").toList, ?_⟩
  simp only [String.toList_append, String.toList_ofList, List.append_assoc]
  rfl

/-- The drawing writes the label of each node between quotes. -/
theorem exists_label_in_dot {t n : ParseTree} {i : Nat} (h : t.nodes[i]? = some n) :
    ∃ before behind, t.dot.toList =
      before ++ (nodeName i ++ " [label=\"").toList ++
        (n.label ++ '"' :: (", shape=".toList ++ behind)) := by
  obtain ⟨parent, hv⟩ := vertices_getElem? h
  obtain ⟨earlier, later, hsplit⟩ := List.append_of_mem (List.mem_of_getElem? hv)
  obtain ⟨style, hline⟩ := toList_nodeLine ⟨i, parent, n⟩
  have hdot : ∃ head tail, t.dot.toList =
      head ++ t.vertices.flatMap (fun v => v.nodeLine.toList) ++ tail := by
    unfold dot
    simp only [String.toList_join, List.flatMap_append, List.flatMap_map, List.append_assoc]
    exact ⟨_, _, rfl⟩
  obtain ⟨head, tail, hdot⟩ := hdot
  rw [hdot, hsplit, List.flatMap_append, List.flatMap_cons, hline]
  refine ⟨head ++ earlier.flatMap (fun v => v.nodeLine.toList) ++ "    ".toList,
    style ++ later.flatMap (fun v => v.nodeLine.toList) ++ tail, ?_⟩
  simp only [List.append_assoc, List.cons_append]

/-- No label can be broken out of: it is read back up to the quote that the drawing writes behind
it, as its name and value without carriage returns, and holds no line break and no quote without a
backslash of its own. -/
theorem label_reads_back (n : ParseTree) :
    (∀ behind, readQuoted (n.label ++ '"' :: behind) =
      some (n.caption.filter (· ≠ '\r'), behind)) ∧
    '\n' ∉ n.label ∧ '\r' ∉ n.label ∧
    (∀ front behind, n.label = front ++ '"' :: behind → slashesAtEnd front % 2 = 1) ∧
    (∀ s, labelText s = replaced '\r' [] (replaced '\n' ['\\', 'n'] (replaced '"' ['\\', '"']
      (replaced '\\' ['\\', '\\'] s.toList)))) ∧
    ∀ (t : ParseTree) (i : Nat), t.nodes[i]? = some n → ∃ before behind, t.dot.toList =
      before ++ (nodeName i ++ " [label=\"").toList ++
        (n.label ++ '"' :: (", shape=".toList ++ behind)) := by
  refine ⟨fun behind => ?_, not_mem_label (.inl rfl) n, not_mem_label (.inr rfl) n,
    fun front behind h => odd_slashesAtEnd (label_eq n ▸ h), labelText_eq_replaced,
    fun t i h => exists_label_in_dot h⟩
  rw [label_eq, readQuoted_flatMap, readQuoted_quote, Option.map_some, inFront,
    List.append_nil]

/-- A terminal whose value ends in a backslash behind a quote and line breaks. -/
theorem label_reads_back_awkward :
    readQuoted ((⟨"a\\\"", some "\"\r\n\\", true, []⟩ : ParseTree).label ++ "\"]; \"".toList) =
        some ("a\\\"\n(\"\"\n\\\")".toList, "]; \"".toList) ∧
      (nonTerminal "r" [⟨"a\\\"", some "\"\r\n\\", true, []⟩]).nodes[1]? =
        some ⟨"a\\\"", some "\"\r\n\\", true, []⟩ ∧
      ∃ before behind, (nonTerminal "r" [⟨"a\\\"", some "\"\r\n\\", true, []⟩]).dot.toList =
        before ++ (nodeName 1 ++ " [label=\"").toList ++
          ((⟨"a\\\"", some "\"\r\n\\", true, []⟩ : ParseTree).label ++ '"' ::
            (", shape=".toList ++ behind)) := by
  obtain ⟨hread, -, -, -, -, hdot⟩ := label_reads_back ⟨"a\\\"", some "\"\r\n\\", true, []⟩
  have hnode : (nonTerminal "r" [⟨"a\\\"", some "\"\r\n\\", true, []⟩]).nodes[1]? =
      some ⟨"a\\\"", some "\"\r\n\\", true, []⟩ := rfl
  exact ⟨hread _, hnode, hdot _ 1 hnode⟩

end CAudit.ParseTree
