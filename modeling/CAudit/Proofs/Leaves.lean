import CAudit.Proofs.Accounting

/-! The leaves and the findings of a parse. The tree holds tokens of the input in their order, all
of them unless a warning says otherwise, and a finding is reported for each insecure identifier that
it holds in expression position. -/
namespace CAudit

open Parse

namespace Diagnostic

theorem mem_onceOnly {k : Kind} {d : Diagnostic} {ds : List Diagnostic} (h : d ∈ onceOnly k ds) :
    d ∈ ds := by
  induction ds with
  | nil => exact h
  | cons e ds ih =>
    simp only [onceOnly] at h
    split at h
    · rcases List.mem_cons.1 h with rfl | h
      · exact List.mem_cons_self
      · exact List.mem_cons_of_mem _ (List.mem_filter.1 h).1
    · rcases List.mem_cons.1 h with rfl | h
      · exact List.mem_cons_self
      · exact List.mem_cons_of_mem _ (ih h)

/-- Of each kind that occurs some diagnostic is kept. -/
theorem exists_mem_onceOnly {k : Kind} {d : Diagnostic} {ds : List Diagnostic} (h : d ∈ ds) :
    ∃ e ∈ onceOnly k ds, e.kind = d.kind := by
  induction ds with
  | nil => cases h
  | cons e ds ih =>
    simp only [onceOnly]
    split
    · next he =>
      by_cases hd : d.kind = k
      · exact ⟨e, List.mem_cons_self, he.trans hd.symm⟩
      · refine ⟨d, ?_, rfl⟩
        rcases List.mem_cons.1 h with rfl | h
        · exact List.mem_cons_self
        · exact List.mem_cons_of_mem _ (List.mem_filter.2 ⟨h, by simpa using hd⟩)
    · rcases List.mem_cons.1 h with rfl | h
      · exact ⟨d, List.mem_cons_self, rfl⟩
      · obtain ⟨e', he', hk⟩ := ih h
        exact ⟨e', List.mem_cons_of_mem _ he', hk⟩

end Diagnostic

/-- The kinds of the warnings are the kinds of the notes. -/
theorem warnings_forall_kind {P : Diagnostic.Kind → Prop} {last : Option Nat}
    {r : Reply SyntaxTree} :
    (∀ w ∈ (Outcome.ofReply last r).warnings, P w.kind) ↔ ∀ d ∈ r.notes, P d.kind := by
  constructor
  · intro h d hd
    obtain ⟨w, hw, hk⟩ := Diagnostic.exists_mem_onceOnly (k := .nestingLimit)
      (List.mem_map_of_mem (f := (·.endingAt last)) hd)
    have hkind : w.kind = d.kind := hk
    rw [← hkind]
    exact h w hw
  · intro h w hw
    obtain ⟨d, hd, rfl⟩ := List.mem_map.1 (Diagnostic.mem_onceOnly hw)
    exact h d hd

namespace ParseTree

/-- The names and values of the terminals, in pre-order. -/
def leaves (t : ParseTree) : List (String × Option String) :=
  (t.nodes.filter (·.isTerminal)).map fun n => (n.name, n.value)

def leavesAll (ts : List ParseTree) : List (String × Option String) :=
  ((nodesAll ts).filter (·.isTerminal)).map fun n => (n.name, n.value)

mutual

/-- The values of the identifiers in expression position, in pre-order. The flag tells whether the
parent is one of the constructs that hold them. -/
def expressionLeavesIn (held : Bool) (t : ParseTree) : List String :=
  match t with
  | ⟨name, value, isTerminal, ts⟩ =>
    (if held && isTerminal && name == "IDENTIFIER" then value.toList else []) ++
      expressionLeavesAll (SyntaxTree.expressionNames.contains name) ts

def expressionLeavesAll (held : Bool) (ts : List ParseTree) : List String :=
  match ts with
  | [] => []
  | t :: ts => t.expressionLeavesIn held ++ expressionLeavesAll held ts

end

def expressionLeaves (t : ParseTree) : List String := t.expressionLeavesIn false

end ParseTree

/-- A token as a leaf shows it. -/
def Token.shown (t : Token) : String × Option String := (t.kind.name, some t.lexeme)

theorem Token.name_eq_identifier (t : Token) : (t.kind.name == "IDENTIFIER") = t.isIdentifier := by
  cases h : t.kind <;> simp [Token.Kind.name, Token.isIdentifier, h]

namespace SyntaxTree

mutual

theorem leaves_toParseTree : ∀ t : SyntaxTree, t.toParseTree.leaves = t.tokens.map (·.shown)
  | .leaf t => rfl
  | .node c ts => by
    rw [toParseTree, tokens_node, ← leavesAll_toParseTrees ts]
    rfl

theorem leavesAll_toParseTrees :
    ∀ ts : List SyntaxTree, ParseTree.leavesAll (toParseTrees ts) = (tokensAll ts).map (·.shown)
  | [] => rfl
  | t :: ts => by
    rw [tokensAll_cons, List.map_append, ← leaves_toParseTree t, ← leavesAll_toParseTrees ts]
    simp [toParseTrees, ParseTree.leavesAll, ParseTree.nodesAll, ParseTree.leaves]

end

mutual

theorem expressionLeavesIn_toParseTree (held : Bool) :
    ∀ t : SyntaxTree, t.toParseTree.expressionLeavesIn held = (t.usesIn held).map (·.lexeme)
  | .leaf t => by
    rw [toParseTree, ParseTree.terminal, ParseTree.expressionLeavesIn, usesIn_leaf,
      ParseTree.expressionLeavesAll, Token.name_eq_identifier]
    cases held <;> cases t.isIdentifier <;> simp
  | .node c ts => by
    rw [toParseTree, ParseTree.nonTerminal, ParseTree.expressionLeavesIn, usesIn_node,
      ← expressionLeavesAll_toParseTrees (holdsUses c) ts]
    simp [holdsUses, -holdsUses_eq]

theorem expressionLeavesAll_toParseTrees (held : Bool) :
    ∀ ts : List SyntaxTree,
      ParseTree.expressionLeavesAll held (toParseTrees ts) = (usesAll held ts).map (·.lexeme)
  | [] => by simp [toParseTrees, ParseTree.expressionLeavesAll]
  | t :: ts => by
    rw [toParseTrees, ParseTree.expressionLeavesAll, usesAll_cons, List.map_append,
      expressionLeavesIn_toParseTree held t, expressionLeavesAll_toParseTrees held ts]

end

end SyntaxTree

namespace Parse

/-- Where a token is left, advancing takes one at least. -/
theorem advancing_length_lt {α : Type} {p : Parse α} {t : Token} {ts : List Token}
    (hp : (p (t :: ts)).rest <:+ t :: ts) :
    (advancing p (t :: ts)).rest.length < (t :: ts).length := by
  simp only [advancing]
  split
  · next h => exact h
  · cases hr : (p (t :: ts)).rest with
    | nil => exact Nat.zero_lt_succ _
    | cons u us =>
      have hlen := hp.length_le
      rw [hr] at hlen
      change us.length < _
      simp only [List.length_cons] at hlen ⊢
      omega

/-- A rule that goes on and takes a token as long as one is left is repeated to the end. -/
theorem loop_rest_eq_nil {α : Type} {p : Parse (Turn α)}
    (hnil : (p []).rest = [])
    (hp : ∀ t ts, ∃ a, (p (t :: ts)).value = .more a ∧
      (p (t :: ts)).rest.length < (t :: ts).length) (ts : List Token) :
    (loop p ts).rest = [] := by
  induction hlen : ts.length using Nat.strongRecOn generalizing ts with
  | _ n ih =>
    rw [loop]
    cases ts with
    | nil =>
      cases (p []).value with
      | stop => exact hnil
      | abandon => exact hnil
      | more a => simp [hnil]
    | cons t ts =>
      obtain ⟨a, ha, hlt⟩ := hp t ts
      simp only [ha, hlt, if_true]
      exact ih _ (hlen ▸ hlt) _ rfl

theorem turn_of_some {α : Type} {p : Parse (Option α)} {ts : List Token} {a : α}
    (h : (p ts).value = some a) :
    (turn p ts).value = .more a ∧ (turn p ts).rest = (p ts).rest := by
  simp [turn, bind_apply, andThen, h, pure_apply]

theorem topLevelItem_cons (t : Token) (ts : List Token) :
    topLevelItem (t :: ts) =
      (if t.isDirective then skipDirective >>= fun _ => pure (some [])
        else advancing (external t) >>= fun fs => pure (some fs) :
        Parse (Option (List SyntaxTree))) (t :: ts) := rfl

/-- Outside all functions every pass takes a token. -/
theorem topLevelItem_progress (t : Token) (ts : List Token) :
    ∃ fs, (topLevelItem (t :: ts)).value = some fs ∧
      (topLevelItem (t :: ts)).rest.length < (t :: ts).length := by
  rw [topLevelItem_cons]
  split
  · exact ⟨[], rfl, Nat.lt_succ_self _⟩
  · exact ⟨_, rfl, advancing_length_lt (tracks_external t).suffix⟩

/-- A whole source is read to its end. -/
theorem program_rest (ts : List Token) : (program ts).rest = [] := by
  have h : (program ts).rest = (many topLevelItem ts).rest := rfl
  rw [h, many_apply]
  refine loop_rest_eq_nil rfl (fun t us => ?_) ts
  obtain ⟨fs, hv, hlt⟩ := topLevelItem_progress t us
  obtain ⟨hturn, hrest⟩ := turn_of_some hv
  exact ⟨fs, hturn, hrest ▸ hlt⟩

/-- What the whole input comes to: the tokens that the tree holds, and those it uses. -/
theorem program_covers (ts : List Token) :
    (program ts).uses.Sublist (ts.filter (·.isIdentifier)) ∧
      Ledger.Covers ⟨(program ts).value.tokens, (program ts).value.uses, true⟩ ts
        (program ts).uses (program ts).notes := by
  obtain ⟨front, hts, hu, hc⟩ := @tracks_program ⟨[], [], true⟩ ts [] [] []
    ⟨.slnil, .slnil, fun _ => ⟨rfl, rfl, rfl⟩⟩
  obtain rfl : ts = front := by rwa [program_rest, List.append_nil] at hts
  exact ⟨hu, by simpa [Ledger.add, SyntaxTree.uses] using hc⟩

end Parse

/-- A warning that something was left open. -/
def Diagnostic.isUnclosed (w : Diagnostic) : Prop :=
  w.kind = .unclosedBlock ∨ w.kind = .unclosedGroup

theorem harmless_of_warnings {ts : List Token}
    (h : ∀ w ∈ (parseTokens ts).warnings, w.isUnclosed) : Harmless (program ts).notes :=
  warnings_forall_kind (P := fun k => k = .unclosedBlock ∨ k = .unclosedGroup).1 h

/-- The leaves of the tree are tokens of the input in their order. They are all its tokens when
every warning is about something left open. -/
theorem leaves_sublist_tokens (ts : List Token) :
    (parseTokens ts).tree.leaves.Sublist (ts.map (·.shown)) ∧
      ((∀ w ∈ (parseTokens ts).warnings, w.isUnclosed) →
        (parseTokens ts).tree.leaves = ts.map (·.shown)) := by
  obtain ⟨-, hc⟩ := program_covers ts
  have hleaves : (parseTokens ts).tree.leaves = (program ts).value.tokens.map (·.shown) :=
    SyntaxTree.leaves_toParseTree _
  rw [hleaves]
  refine ⟨hc.tokens.map _, fun hw => ?_⟩
  exact congrArg _ (hc.whole (harmless_of_warnings hw)).2.1

/-- The finding for a token, if it names an insecure function. -/
def Token.finding? (t : Token) : Option Finding := InsecureCall.finding? t.lexeme t.line

theorem Token.finding?_line {t : Token} {f : Finding} (h : t.finding? = some f) :
    f.line = t.line := by
  unfold Token.finding? InsecureCall.finding? at h
  obtain ⟨call, -, rfl⟩ := Option.map_eq_some_iff.1 h
  cases call <;> rfl

/-- Findings on the lines of tokens whose lines do not decrease have lines that do not decrease. -/
theorem pairwise_finding_lines {us : List Token}
    (h : us.Pairwise fun t u => t.line ≤ u.line) :
    (us.filterMap (·.finding?)).Pairwise fun f g => f.line ≤ g.line := by
  refine h.filterMap _ fun t u htu f hf g hg => ?_
  rw [Token.finding?_line hf, Token.finding?_line hg]
  exact htu

/-- Findings are reported for a subsequence of the identifiers, in their order. The identifiers that
the tree holds in expression position are among those reported, and they are all of them when every
warning is about something left open. -/
theorem findings_of_expression_leaves (ts : List Token) :
    let tree := (program ts).value
    let reported := tree.uses.filterMap (·.finding?)
    (parseTokens ts).tree = tree.toParseTree ∧ tree.tokens.Sublist ts ∧
      (parseTokens ts).tree.expressionLeaves = tree.uses.map (·.lexeme) ∧
      (∃ us : List Token, us.Sublist (ts.filter (·.isIdentifier)) ∧
        (parseTokens ts).findings = us.filterMap (·.finding?)) ∧
      ((ts.Pairwise fun t u => t.line ≤ u.line) →
        (parseTokens ts).findings.Pairwise fun f g => f.line ≤ g.line) ∧
      reported.Sublist (parseTokens ts).findings ∧
      ((∀ w ∈ (parseTokens ts).warnings, w.isUnclosed) →
        reported = (parseTokens ts).findings) := by
  obtain ⟨hu, hc⟩ := program_covers ts
  have hfind : (parseTokens ts).findings = (program ts).uses.filterMap (·.finding?) := rfl
  refine ⟨rfl, hc.tokens, SyntaxTree.expressionLeavesIn_toParseTree false _, ⟨_, hu, hfind⟩, ?_,
    ?_, ?_⟩
  · intro hlines
    rw [hfind]
    exact pairwise_finding_lines ((hlines.sublist List.filter_sublist).sublist hu)
  · rw [hfind]
    exact hc.uses.filterMap _
  · intro hw
    rw [hfind, ← (hc.whole (harmless_of_warnings hw)).2.2]

end CAudit
