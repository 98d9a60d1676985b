import CAudit.Parse
import CAudit.Proofs.Scanning

/-! Token lists from outside. A list is read when, blanks and comments apart, its lines start at one
and never decrease; otherwise the first token that breaks this is named. Blanks and comments may
stand anywhere and carry any line. What the scan gives is always accepted and is read as the source
itself. -/
namespace CAudit

/-- Lines start at one and never decrease. -/
structure InOrder (ts : List Token) : Prop where
  positive : ∀ t ∈ ts, 1 ≤ t.line
  ascending : ts.Pairwise fun t u => t.line ≤ u.line

/-- The line that the next token must not come before. -/
def lastLine (ts : List Token) : Nat := (ts.getLast?.map (·.line)).getD 1

@[simp] theorem lastLine_concat (ts : List Token) (t : Token) : lastLine (ts ++ [t]) = t.line := by
  simp [lastLine]

theorem lastLine_cases (ts : List Token) :
    ts = [] ∧ lastLine ts = 1 ∨ ∃ front p, ts = front ++ [p] ∧ lastLine ts = p.line := by
  cases hlast : ts.getLast? with
  | none => exact .inl ⟨List.getLast?_eq_none_iff.1 hlast, by simp [lastLine, hlast]⟩
  | some p =>
    obtain ⟨front, rfl⟩ := List.getLast?_eq_some_iff.1 hlast
    exact .inr ⟨front, p, rfl, lastLine_concat front p⟩

theorem InOrder.sublist {ts us : List Token} (h : InOrder us) (hs : ts.Sublist us) :
    InOrder ts where
  positive t ht := h.positive t (hs.subset ht)
  ascending := h.ascending.sublist hs

theorem inOrder_nil : InOrder [] where
  positive t ht := by cases ht
  ascending := .nil

theorem InOrder.le_lastLine {ts : List Token} (h : InOrder ts) :
    1 ≤ lastLine ts ∧ ∀ t ∈ ts, t.line ≤ lastLine ts := by
  rcases lastLine_cases ts with ⟨rfl, hone⟩ | ⟨front, p, rfl, hlast⟩
  · exact ⟨Nat.le_of_eq hone.symm, by simp⟩
  · rw [hlast]
    refine ⟨h.positive p (by simp), fun t ht => ?_⟩
    rcases List.mem_append.1 ht with ht | ht
    · exact (List.pairwise_append.1 h.ascending).2.2 t ht p (List.mem_singleton_self p)
    · obtain rfl := List.mem_singleton.1 ht
      exact Nat.le_refl _

/-- A token may follow on the line of the last one or on a later line. -/
theorem InOrder.concat {ts : List Token} (h : InOrder ts) {t : Token} (ht : lastLine ts ≤ t.line) :
    InOrder (ts ++ [t]) where
  positive u hu := by
    rcases List.mem_append.1 hu with hu | hu
    · exact h.positive u hu
    · rw [List.mem_singleton.1 hu]
      exact Nat.le_trans h.le_lastLine.1 ht
  ascending := by
    refine List.pairwise_append.2 ⟨h.ascending, List.pairwise_singleton _ _, fun u hu v hv => ?_⟩
    rw [List.mem_singleton.1 hv]
    exact Nat.le_trans (h.le_lastLine.2 u hu) ht

/-- What is wrong at an index. A line of zero is told before a decrease. -/
inductive FaultAt (ts : List Token) : Nat → TokenFault → Prop where
  | lineZero {i : Nat} {t : Token} (ht : ts[i]? = some t) (hzero : t.line = 0) :
    FaultAt ts i (.lineZero i t.lexeme)
  | lineDecreases {i : Nat} {p t : Token} (hp : ts[i]? = some p) (ht : ts[i + 1]? = some t)
    (hpos : t.line ≠ 0) (hlt : t.line < p.line) :
    FaultAt ts (i + 1) (.lineDecreases (i + 1) t.lexeme t.line p.line)

theorem FaultAt.not_inOrder {ts : List Token} {i : Nat} {e : TokenFault} (h : FaultAt ts i e) :
    ¬ InOrder ts := by
  intro hts
  cases h with
  | lineZero ht hzero =>
    have := hts.positive _ (List.mem_of_getElem? ht)
    omega
  | lineDecreases hp ht _ hlt =>
    obtain ⟨hpl, rfl⟩ := List.getElem?_eq_some_iff.1 hp
    obtain ⟨htl, rfl⟩ := List.getElem?_eq_some_iff.1 ht
    have := List.pairwise_iff_getElem.1 hts.ascending _ _ hpl htl (Nat.lt_succ_self _)
    omega

theorem FaultAt.take {ts : List Token} {i n : Nat} {e : TokenFault} (h : FaultAt ts i e)
    (hi : i < n) : FaultAt (ts.take n) i e := by
  cases h with
  | lineZero ht hzero => exact .lineZero (by rwa [List.getElem?_take_of_lt hi]) hzero
  | lineDecreases hp ht hpos hlt =>
    refine .lineDecreases ?_ ?_ hpos hlt
    · rwa [List.getElem?_take_of_lt (by omega)]
    · rwa [List.getElem?_take_of_lt hi]

/-- What a check may answer: nothing for a list in order, else a fault with no other in front of
it. -/
inductive Verdict (ts : List Token) : Option TokenFault → Prop where
  | fine (h : InOrder ts) : Verdict ts none
  | fault {i : Nat} {e : TokenFault} (h : FaultAt ts i e) (hfront : InOrder (ts.take i)) :
    Verdict ts (some e)

/-- A run over tokens behind others that are in order. -/
theorem verdict_run {front : List Token} (hfront : InOrder front) (ts : List Token) :
    Verdict (front ++ ts) (tokenFault? front.length (lastLine front) ts) := by
  -- a token that passes joins those in front, and its line is the one to compare with next
  induction ts generalizing front with
  | nil => simpa [tokenFault?] using Verdict.fine hfront
  | cons t ts ih =>
    have hhere : (front ++ t :: ts)[front.length]? = some t := by simp
    have htake : InOrder ((front ++ t :: ts).take front.length) := by simpa using hfront
    rw [tokenFault?]
    split
    · next hzero => exact .fault (.lineZero hhere hzero) htake
    · next hpos =>
      split
      · next hlt =>
        rcases lastLine_cases front with ⟨-, hone⟩ | ⟨front, p, rfl, hlast⟩
        · omega
        · rw [hlast] at hlt ⊢
          rw [List.length_append] at hhere htake ⊢
          exact .fault (.lineDecreases (by simp) hhere hpos hlt) htake
      · next hle =>
        have hrun := ih (hfront.concat (Nat.le_of_not_lt hle))
        simpa using hrun

theorem verdict_tokenFault? (ts : List Token) : Verdict ts (tokenFault? 0 1 ts) :=
  verdict_run inOrder_nil ts

theorem tokenFault?_eq_none_iff {ts : List Token} : tokenFault? 0 1 ts = none ↔ InOrder ts := by
  have hverdict := verdict_tokenFault? ts
  constructor
  · intro hnone
    rw [hnone] at hverdict
    cases hverdict with
    | fine h => exact h
  · intro hts
    cases hfault : tokenFault? 0 1 ts with
    | none => rfl
    | some e =>
      rw [hfault] at hverdict
      cases hverdict with
      | fault h => exact absurd hts h.not_inOrder

/-- The fault told stands at the least index that has one. -/
theorem exists_faultAt {ts : List Token} {e : TokenFault} (h : tokenFault? 0 1 ts = some e) :
    ∃ i, FaultAt ts i e ∧ ∀ j < i, ∀ e', ¬ FaultAt ts j e' := by
  have hverdict := verdict_tokenFault? ts
  rw [h] at hverdict
  cases hverdict with
  | fault hi hfront => exact ⟨_, hi, fun j hj e' he => (he.take hj).not_inOrder hfront⟩

/-- The message names the index and shows the token. -/
theorem FaultAt.message {ts : List Token} {i : Nat} {e : TokenFault} (h : FaultAt ts i e) :
    ∃ t rest, ts[i]? = some t ∧
      e.message = "token " ++ i.repr ++ " (" ++ Text.quoted t.lexeme ++ rest := by
  cases h with
  | lineZero ht => exact ⟨_, _, ht, rfl⟩
  | @lineDecreases _ p t _ ht =>
    refine ⟨t, ") is on line " ++ t.line.repr ++ " after a token on line " ++ p.line.repr, ht, ?_⟩
    simp only [← String.append_assoc]
    rfl

theorem parseSupplied_eq_error_iff {ts : List Token} {e : TokenFault} :
    parseSupplied ts = .error e ↔ tokenFault? 0 1 (dropTrivia ts) = some e := by
  rw [parseSupplied]
  cases tokenFault? 0 1 (dropTrivia ts) <;> simp

theorem parseSupplied_eq_ok_iff {ts : List Token} {outcome : Outcome} :
    parseSupplied ts = .ok outcome ↔
      InOrder (dropTrivia ts) ∧ parseTokens (dropTrivia ts) = outcome := by
  rw [parseSupplied, ← tokenFault?_eq_none_iff]
  cases tokenFault? 0 1 (dropTrivia ts) <;> simp

/-- The second list is the first one with blanks and comments put in at any places. -/
inductive Interspersed : List Token → List Token → Prop where
  | nil : Interspersed [] []
  | keep (t : Token) {ts us : List Token} : Interspersed ts us → Interspersed (t :: ts) (t :: us)
  | add {t : Token} (ht : t.kind.isTrivia = true) {ts us : List Token} :
    Interspersed ts us → Interspersed ts (t :: us)

theorem Interspersed.dropTrivia_eq {ts us : List Token} (h : Interspersed ts us) :
    dropTrivia us = dropTrivia ts := by
  induction h with
  | nil => rfl
  | keep t _ ih =>
    simp only [dropTrivia, List.filter_cons] at ih ⊢
    rw [ih]
  | add ht _ ih => simpa [dropTrivia, ht] using ih

theorem inOrder_scan (source : String) : InOrder (scan source) where
  positive t ht := by
    obtain ⟨k, hk⟩ := List.mem_iff_getElem?.1 ht
    have := scan_line hk
    omega
  ascending := scan_lines_mono source

theorem parseSupplied_scan (source : String) :
    parseSupplied (scan source) = .ok (parseSource source) :=
  parseSupplied_eq_ok_iff.2 ⟨(inOrder_scan source).sublist List.filter_sublist, rfl⟩

theorem scan_line_le {source : String} (h : source.toList.count '\n' < maxLine) {t : Token}
    (ht : t ∈ scan source) : t.line ≤ maxLine := by
  obtain ⟨k, hk⟩ := List.mem_iff_getElem?.1 ht
  have hline := scan_line hk
  have hcount := count_take_le source k
  omega

/-- Tokens from outside are read like those of the scan. They are accepted when their lines are in
order, and the least index with a fault is named otherwise; blanks and comments make no difference;
and the tokens of a source are accepted and give what the source gives. -/
theorem supplied_tokens_like_scanned (ts : List Token) :
    ((∃ outcome, parseSupplied ts = .ok outcome) ↔ InOrder (dropTrivia ts)) ∧
    (∀ e, parseSupplied ts = .error e → ∃ i, FaultAt (dropTrivia ts) i e ∧
      (∀ j < i, ∀ e', ¬ FaultAt (dropTrivia ts) j e') ∧
      ∃ t rest, (dropTrivia ts)[i]? = some t ∧
        e.message = "token " ++ i.repr ++ " (" ++ Text.quoted t.lexeme ++ rest) ∧
    (∀ us, Interspersed ts us → parseSupplied us = parseSupplied ts) ∧
    ∀ source : String, source.toList.count '\n' < maxLine →
      (∀ t ∈ scan source, t.line ≤ maxLine) ∧
      parseSupplied (scan source) = .ok (parseSource source) := by
  refine ⟨?_, ?_, ?_, ?_⟩
  · simp only [parseSupplied_eq_ok_iff, exists_and_left, exists_eq', and_true]
  · intro e he
    obtain ⟨i, hi, hleast⟩ := exists_faultAt (parseSupplied_eq_error_iff.1 he)
    exact ⟨i, hi, hleast, hi.message⟩
  · intro us hus
    rw [parseSupplied, parseSupplied, hus.dropTrivia_eq]
  · intro source hsource
    exact ⟨fun t => scan_line_le hsource, parseSupplied_scan source⟩

/-- A comment on line zero between two tokens whose lines decrease. -/
theorem supplied_tokens_decreasing :
    parseSupplied [⟨.keyword, "int", 5⟩, ⟨.comment, "//", 0⟩, ⟨.identifier, "main", 4⟩] =
        .error (.lineDecreases 1 "main" 4 5) ∧
      ¬ InOrder [⟨.keyword, "int", 5⟩, ⟨.identifier, "main", 4⟩] ∧
      "int f();\n".toList.count '\n' < maxLine ∧
      parseSupplied (scan "int f();\n") = .ok (parseSource "int f();\n") := by
  have hcount : "int f();\n".toList.count '\n' < maxLine := by decide
  obtain ⟨haccepted, -, hinterspersed, hscan⟩ :=
    supplied_tokens_like_scanned [⟨.keyword, "int", 5⟩, ⟨.identifier, "main", 4⟩]
  have herror : parseSupplied [⟨.keyword, "int", 5⟩, ⟨.identifier, "main", 4⟩] =
      .error (.lineDecreases 1 "main" 4 5) := rfl
  refine ⟨?_, fun horder => ?_, hcount, (hscan _ hcount).2⟩
  · rw [hinterspersed _ (.keep _ (.add rfl (.keep _ .nil))), herror]
  · obtain ⟨outcome, hok⟩ := haccepted.2 horder
    rw [herror] at hok
    cases hok

end CAudit
