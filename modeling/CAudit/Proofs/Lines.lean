import CAudit.Text.Lines

/-! Lines of a text. A line ends in front of a newline, and in front of the carriage return before
that newline, or with the text; behind the last newline there is a line only if there is any
text. -/
namespace CAudit.Text

/-- The text in front of a newline, without the carriage return that belongs to the newline. -/
def dropReturn (b : List Char) : List Char := if b.getLast? = some '\r' then b.dropLast else b

theorem dropReturn_cases (b : List Char) :
    b = dropReturn b ++ ['\r'] ∨ b = dropReturn b ∧ b.getLast? ≠ some '\r' := by
  unfold dropReturn
  split
  · next h =>
    obtain ⟨line, rfl⟩ := List.getLast?_eq_some_iff.1 h
    simp
  · next h => exact .inr ⟨rfl, h⟩

theorem mem_of_mem_dropReturn {b : List Char} {c : Char} (h : c ∈ dropReturn b) : c ∈ b := by
  unfold dropReturn at h
  split at h
  · exact (List.dropLast_sublist b).subset h
  · exact h

/-- What stands in front of another character stays. -/
theorem dropReturn_append_cons {x : Char} (hx : x ≠ '\r') (l m : List Char) :
    ∃ m', dropReturn (l ++ x :: m) = l ++ x :: m' := by
  unfold dropReturn
  split
  · next hlast =>
    have hm : m ≠ [] := by
      rintro rfl
      simp only [List.getLast?_append, List.getLast?_singleton, Option.some_or,
        Option.some.injEq] at hlast
      exact hx hlast
    refine ⟨m.dropLast, ?_⟩
    rw [List.dropLast_append_of_ne_nil (List.cons_ne_nil x m), List.dropLast_cons_of_ne_nil hm]
  · exact ⟨m, rfl⟩

theorem pieces_newline {b : List Char} (hb : '\n' ∉ b) (r : List Char) :
    pieces (b ++ '\n' :: r) = (b ++ ['\n']) :: pieces r := by
  induction b with
  | nil => simp [pieces, consPiece]
  | cons c b ih =>
    simp only [List.mem_cons, not_or] at hb
    have hpiece := ih hb.2
    simp only [pieces, List.cons_append, List.foldr_cons] at hpiece ⊢
    rw [hpiece, consPiece, if_neg (Ne.symm hb.1)]

theorem pieces_last {b : List Char} (hb : '\n' ∉ b) (hne : b ≠ []) : pieces b = [b] := by
  induction b with
  | nil => exact absurd rfl hne
  | cons c b ih =>
    simp only [List.mem_cons, not_or] at hb
    cases b with
    | nil => simp [pieces, consPiece, Ne.symm hb.1]
    | cons d b =>
      have hpiece := ih hb.2 (List.cons_ne_nil d b)
      simp only [pieces, List.foldr_cons] at hpiece ⊢
      rw [hpiece, consPiece, if_neg (Ne.symm hb.1)]

theorem lineText_newline (b : List Char) : lineText (b ++ ['\n']) = dropReturn b := by
  rcases dropReturn_cases b with heq | ⟨heq, hlast⟩
  · generalize dropReturn b = line at heq
    simp [heq, lineText]
  · rw [← heq, lineText, List.reverse_append, List.reverse_singleton, List.singleton_append]
    split
    · next r hr =>
      have hreturn : b.reverse = '\r' :: r := (List.cons.inj hr).2
      rw [← List.head?_reverse, hreturn] at hlast
      exact absurd rfl hlast
    · next r _ hr =>
      rw [← (List.cons.inj hr).2, List.reverse_reverse]
    · next hne => exact absurd rfl (hne _)

theorem lineText_last {b : List Char} (hb : '\n' ∉ b) : lineText b = b := by
  have hend : ∀ r, b.reverse ≠ '\n' :: r := by
    intro r hr
    exact hb (List.mem_reverse.1 (by simp [hr]))
  rw [lineText]
  split
  · next hr => exact absurd hr (hend _)
  · next hr => exact absurd hr (hend _)
  · rfl

theorem linesOf_newline {b : List Char} (hb : '\n' ∉ b) (r : List Char) :
    linesOf (b ++ '\n' :: r) = dropReturn b :: linesOf r := by
  rw [linesOf, pieces_newline hb, List.map_cons, lineText_newline]
  rfl

theorem linesOf_last {b : List Char} (hb : '\n' ∉ b) (hne : b ≠ []) : linesOf b = [b] := by
  rw [linesOf, pieces_last hb hne, List.map_singleton, lineText_last hb]

/-- Texts are taken apart line by line. -/
theorem line_induction {P : List Char → Prop} (nil : P [])
    (last : ∀ b, '\n' ∉ b → b ≠ [] → P b)
    (newline : ∀ b r, '\n' ∉ b → P r → P (b ++ '\n' :: r)) (cs : List Char) : P cs := by
  induction hn : cs.length using Nat.strongRecOn generalizing cs with
  | _ n ih =>
    by_cases h : '\n' ∈ cs
    · obtain ⟨b, r, rfl, hb⟩ := List.eq_append_cons_of_mem h
      refine newline b r hb (ih r.length ?_ r rfl)
      simp only [List.length_append, List.length_cons] at hn
      omega
    · by_cases hne : cs = []
      · exact hne ▸ nil
      · exact last cs h hne

/-- Behind a text that ends its last line come the lines of what follows it. -/
theorem linesOf_append {cs : List Char} (h : cs = [] ∨ cs.getLast? = some '\n') (ds : List Char) :
    linesOf (cs ++ ds) = linesOf cs ++ linesOf ds := by
  induction cs using line_induction with
  | nil => rfl
  | last b hb hne => exact absurd (List.mem_of_getLast? (h.resolve_left hne)) hb
  | newline b r hb ih =>
    have hr : r = [] ∨ r.getLast? = some '\n' := by
      cases r with
      | nil => exact .inl rfl
      | cons c r => simpa [List.getLast?_append, List.getLast?_cons_cons] using h
    rw [List.append_assoc, List.cons_append, linesOf_newline hb, linesOf_newline hb, ih hr,
      List.cons_append]

theorem lines_append {s : String} (h : s = "" ∨ s.toList.getLast? = some '\n') (t : String) :
    lines (s ++ t) = lines s ++ lines t := by
  have hlist : s.toList = [] ∨ s.toList.getLast? = some '\n' := h.imp_left (by rintro rfl; rfl)
  simp [lines, linesOf_append hlist]

/-- Lines that are each ended by a newline are given back. -/
theorem linesOf_flatMap {ls : List (List Char)} (h : ∀ l ∈ ls, '\n' ∉ l ∧ '\r' ∉ l) :
    linesOf (ls.flatMap (· ++ ['\n'])) = ls := by
  induction ls with
  | nil => rfl
  | cons l ls ih =>
    obtain ⟨⟨hnewline, hcarriage⟩, hrest⟩ := List.forall_mem_cons.1 h
    have hlast : l.getLast? ≠ some '\r' := fun hlast => hcarriage (List.mem_of_getLast? hlast)
    rw [List.flatMap_cons, List.append_assoc, List.singleton_append, linesOf_newline hnewline,
      dropReturn, if_neg hlast, ih hrest]

theorem lines_join {ls : List String} (h : ∀ l ∈ ls, '\n' ∉ l.toList ∧ '\r' ∉ l.toList) :
    lines (String.join (ls.map (· ++ "\n"))) = ls := by
  have hlists : ∀ l ∈ ls.map String.toList, '\n' ∉ l ∧ '\r' ∉ l := List.forall_mem_map.2 h
  have hjoin : (String.join (ls.map (· ++ "\n"))).toList =
      (ls.map String.toList).flatMap (· ++ ['\n']) := by
    simp [String.toList_join, List.flatMap_map]
  rw [lines, hjoin, linesOf_flatMap hlists, List.map_map]
  exact List.map_id'' (fun s => String.ofList_toList) ls

theorem not_mem_newline {cs line : List Char} (h : line ∈ linesOf cs) : '\n' ∉ line := by
  induction cs using line_induction with
  | nil => cases h
  | last b hb hne =>
    rw [linesOf_last hb hne, List.mem_singleton] at h
    exact h ▸ hb
  | newline b r hb ih =>
    rw [linesOf_newline hb, List.mem_cons] at h
    rcases h with rfl | h
    · exact fun hmem => hb (mem_of_mem_dropReturn hmem)
    · exact ih h

theorem length_linesOf_le (cs : List Char) : (linesOf cs).length ≤ cs.count '\n' + 1 := by
  induction cs using line_induction with
  | nil => simp [linesOf, pieces]
  | last b hb hne => simp [linesOf_last hb hne]
  | newline b r hb ih =>
    rw [linesOf_newline hb]
    simp only [List.length_cons, List.count_append, List.count_cons_self]
    omega

/-- A line with its number, between the text before it and the text behind it. -/
structure IsLine (text : List Char) (number : Nat) (before line behind : List Char) : Prop where
  parts : text = before ++ (line ++ behind)
  count : number = before.count '\n' + 1
  start : before = [] ∨ before.getLast? = some '\n'
  inside : '\n' ∉ line
  stop : behind = [] ∨ (∃ r, behind = '\r' :: '\n' :: r) ∨
    (∃ r, behind = '\n' :: r) ∧ line.getLast? ≠ some '\r'

theorem isLine_last {b : List Char} (hb : '\n' ∉ b) : IsLine b 1 [] b [] where
  parts := by simp
  count := rfl
  start := .inl rfl
  inside := hb
  stop := .inl rfl

theorem isLine_first {b : List Char} (hb : '\n' ∉ b) (r : List Char) :
    ∃ behind, IsLine (b ++ '\n' :: r) 1 [] (dropReturn b) behind := by
  have hinside : '\n' ∉ dropReturn b := fun hmem => hb (mem_of_mem_dropReturn hmem)
  rcases dropReturn_cases b with heq | ⟨heq, hlast⟩
  · refine ⟨'\r' :: '\n' :: r, ⟨?_, rfl, .inl rfl, hinside, .inr (.inl ⟨r, rfl⟩)⟩⟩
    generalize dropReturn b = line at heq
    simp [heq]
  · rw [← heq]
    exact ⟨'\n' :: r, ⟨rfl, rfl, .inl rfl, hb, .inr (.inr ⟨⟨r, rfl⟩, hlast⟩)⟩⟩

theorem IsLine.later {r before line behind : List Char} {n : Nat}
    (h : IsLine r n before line behind) {b : List Char} (hb : '\n' ∉ b) :
    IsLine (b ++ '\n' :: r) (n + 1) (b ++ '\n' :: before) line behind where
  parts := by simp [h.parts]
  count := by simp [h.count, List.count_append, List.count_eq_zero.2 hb]
  start := by
    right
    rcases h.start with rfl | hlast
    · simp
    · simp [List.getLast?_append, List.getLast?_cons, hlast]
  inside := h.inside
  stop := h.stop

/-- A character that does not end lines stands in the line whose number is one more than the
newlines in front of the character. -/
theorem exists_isLine {cs front rest : List Char} {x : Char} (h : cs = front ++ x :: rest)
    (hx : x ≠ '\n') (hr : x ≠ '\r') :
    ∃ before line behind l m, (linesOf cs)[front.count '\n']? = some line ∧
      IsLine cs (front.count '\n' + 1) before line behind ∧ front = before ++ l ∧
      line = l ++ x :: m := by
  induction cs using line_induction generalizing front with
  | nil => simp at h
  | last b hb hne =>
    have hcount : front.count '\n' = 0 :=
      List.count_eq_zero.2 fun hmem => hb (by simp [h, hmem])
    refine ⟨[], b, [], front, rest, ?_, ?_, rfl, h⟩
    · rw [hcount, linesOf_last hb hne]
      rfl
    · rw [hcount]
      exact isLine_last hb
  | newline b r hb ih =>
    rcases List.append_eq_append_iff.1 h with ⟨later, rfl, hlater⟩ | ⟨inner, rfl, hinner⟩
    · -- the character stands behind the first line
      cases later with
      | nil => exact absurd (List.cons.inj hlater).1.symm hx
      | cons c front =>
        obtain ⟨rfl, hrest⟩ := List.cons.inj hlater
        obtain ⟨before, line, behind, l, m, hline, his, rfl, hl⟩ := ih hrest
        have hcount : (b ++ '\n' :: (before ++ l)).count '\n' = (before ++ l).count '\n' + 1 := by
          simp [List.count_append, List.count_eq_zero.2 hb]
        rw [hcount, linesOf_newline hb]
        exact ⟨b ++ '\n' :: before, line, behind, l, m, hline, his.later hb, by simp, hl⟩
    · -- the character stands in the first line, which it does not end
      cases inner with
      | nil => exact absurd (List.cons.inj hinner).1 hx
      | cons c m =>
        obtain ⟨rfl, -⟩ := List.cons.inj hinner
        have hcount : front.count '\n' = 0 :=
          List.count_eq_zero.2 fun hmem => hb (List.mem_append_left _ hmem)
        obtain ⟨m', hline⟩ := dropReturn_append_cons hr front m
        obtain ⟨behind, his⟩ := isLine_first hb r
        rw [hcount, linesOf_newline hb]
        exact ⟨[], _, behind, front, m', rfl, his, rfl, hline⟩

theorem not_mem_newline_toDigits (n : Nat) : '\n' ∉ Nat.toDigits 10 n := by
  intro h
  exact absurd (Nat.isDigit_of_mem_toDigits (by decide) (by decide) h) (by decide)

/-- Split at its newlines, the numbered text gives back every line behind its number. -/
theorem numbered_piece {s line : String} {n : Nat} (h : (lines s)[n]? = some line) :
    ((numbered s).toList.splitOn '\n')[n]? = some ((n + 1).repr ++ ": " ++ line).toList := by
  have hne : lines s ≠ [] := by
    intro hnil
    simp [hnil] at h
  have hsplit : (numbered s).toList.splitOn '\n' =
      ((lines s).zipIdx 1).map fun p => (p.2.repr ++ ": " ++ p.1).toList := by
    rw [numbered, String.toList_intercalate, List.map_map]
    refine List.splitOn_intercalate '\n' ?_ (by simpa using hne)
    intro piece hpiece
    obtain ⟨⟨text, k⟩, hmem, rfl⟩ := List.mem_map.1 hpiece
    obtain ⟨cs, hcs, rfl⟩ := List.mem_map.1 (List.fst_mem_of_mem_zipIdx hmem)
    have htext := not_mem_newline hcs
    have hnumber := not_mem_newline_toDigits k
    simp [htext, hnumber]
  rw [hsplit, List.getElem?_map, List.getElem?_zipIdx, h]
  simp [Nat.add_comm]

end CAudit.Text
