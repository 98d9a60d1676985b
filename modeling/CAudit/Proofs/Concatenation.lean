import CAudit.Proofs.Sequel
import CAudit.Proofs.Leaves

/-! Sources put behind each other. A source that is read without trouble, apart from dropped
directives, ends where one of its functions ends. What follows is then read as a source of its own.
-/
namespace CAudit

variable {α β : Type}

namespace Parse

/-- Notes that say more than that directives were dropped. -/
def Troubled (notes : List Diagnostic) : Prop := ∃ d ∈ notes, d.kind ≠ .skippedPreprocessor

theorem troubled_append {ds es : List Diagnostic} :
    Troubled (ds ++ es) ↔ Troubled ds ∨ Troubled es := by
  simp [Troubled, or_and_right, exists_or]

/-- A rule that does not need to see what follows: it settles, or it notes what it missed. -/
def Insists (p : Parse α) : Prop := ∀ ts, Settled p ts ∨ Troubled (p ts).notes

theorem insists_pure (a : α) : Insists (pure a : Parse α) := fun ts => .inl (settled_pure a ts)

theorem insists_bind {p : Parse α} {f : α → Parse β} (hp : Insists p) (hf : ∀ a, Insists (f a)) :
    Insists (p >>= f) := by
  intro ts
  rcases hp ts with hs | ht
  · rcases hf (p ts).value (p ts).rest with hs' | ht'
    · exact .inl (settled_bind hs hs')
    · exact .inr (troubled_append.2 (.inr ht'))
  · exact .inr (troubled_append.2 (.inl ht))

/-- A rule that moreover misses something where no token is left. -/
structure Demands (p : Parse α) : Prop where
  insists : Insists p
  nil : Troubled (p []).notes

theorem demands_bind {p : Parse α} {f : α → Parse β} (hp : Demands p) (hf : ∀ a, Insists (f a)) :
    Demands (p >>= f) :=
  ⟨insists_bind hp.insists hf, troubled_append.2 (.inl hp.nil)⟩

theorem demands_cases {p : Parse (Option α)} {f : Option α → Parse β} (hp : Demands p)
    (hsome : ∀ a, Insists (f (some a))) (hnone : Insists (f none)) : Demands (p >>= f) :=
  demands_bind hp fun o => o.rec hnone hsome

/-- Any rule in front of one that needs a token. -/
theorem Composed.demands {p : Parse α} {f : α → Parse β} (hp : Composed p)
    (hf : ∀ a, Demands (f a)) : Demands (p >>= f) where
  insists ts := by
    rcases hp.prolongs.step ts with hs | he
    · rcases (hf (p ts).value).insists (p ts).rest with hs' | ht'
      · exact .inl (settled_bind hs hs')
      · exact .inr (troubled_append.2 (.inr ht'))
    · refine .inr (troubled_append.2 (.inr ?_))
      rw [he.rest]
      exact (hf _).nil
  nil := by
    refine troubled_append.2 (.inr ?_)
    rw [hp.prolongs.rest]
    exact (hf _).nil

theorem demands_note {kind : Diagnostic.Kind} (hk : kind ≠ .skippedPreprocessor)
    {line : Option Nat} {message : String} : Demands (note line kind message) :=
  ⟨fun _ => .inl fun _ => rfl, ⟨_, List.mem_cons_self, hk⟩⟩

/-- A token that may stand here. Without it something has to. -/
theorem demands_accept {f : Option Token → Parse β} {test : Token → Bool}
    (hsome : ∀ t, Insists (f (some t))) (hnone : Demands (f none)) :
    Demands (accept test >>= f) where
  insists ts := by
    cases ts with
    | nil => exact .inr hnone.nil
    | cons t ts =>
      have hf : Insists (f (accept test (t :: ts)).value) :=
        (accept test (t :: ts)).value.rec hnone.insists hsome
      rcases hf (accept test (t :: ts)).rest with hs | ht
      · exact .inl (settled_bind (settled_accept test t ts) hs)
      · exact .inr (troubled_append.2 (.inr ht))
  nil := hnone.nil

theorem demands_noteHere {kind : Diagnostic.Kind} (hk : kind ≠ .skippedPreprocessor)
    {message : String} (a : β) : Demands (do note (← here) kind message; return a) :=
  Composed.here.demands fun _ => demands_bind (demands_note hk) fun _ => insists_pure a

theorem demands_expect (test : Token → Bool) (message : String) : Demands (expect test message) :=
  demands_accept (fun t => insists_pure _) (demands_noteHere (by decide) none)

theorem demands_parameters : Demands parameters := by
  refine Composed.demands (.spanFrom _ _) fun run => ?_
  refine demands_accept (fun closer => insists_pure _) ?_
  refine Composed.peek.demands fun o => ?_
  cases o with
  | none => exact demands_bind (demands_note (by decide)) fun _ => insists_pure _
  | some t => exact demands_bind (demands_note (by decide)) fun _ => insists_pure _

theorem demands_functionBody : Demands functionBody := by
  refine (composed_statements (composed_statement maxNesting)).demands fun list => ?_
  exact demands_accept (fun closer => insists_pure _) (demands_noteHere (by decide) _)

theorem demands_function : Demands function := by
  refine composed_typeSpec.demands fun type => ?_
  refine demands_cases (demands_expect _ _) (fun name => Demands.insists ?_) (insists_pure _)
  refine demands_cases (demands_expect _ _) (fun opener => Demands.insists ?_) (insists_pure _)
  refine demands_cases demands_parameters (fun params => Demands.insists ?_) (insists_pure _)
  refine demands_accept (fun semicolon => insists_pure _) ?_
  refine demands_cases (demands_expect _ _) (fun brace => Demands.insists ?_) (insists_pure _)
  exact demands_bind demands_functionBody fun _ => insists_pure _

theorem insists_external (t : Token) : Insists (external t) := by
  unfold external
  split
  · exact insists_bind demands_function.insists fun _ => insists_pure _
  · exact insists_bind (demands_note (by decide)).insists fun _ => insists_pure _

theorem advancing_notes (p : Parse α) (ts : List Token) :
    (p ts).notes <+: (advancing p ts).notes := by
  simp only [advancing]
  split
  · exact List.prefix_rfl
  · exact List.prefix_append _ _

theorem Troubled.mono {ds es : List Diagnostic} (h : Troubled ds) (hsub : ds <+: es) :
    Troubled es := by
  obtain ⟨d, hd, hk⟩ := h
  exact ⟨d, hsub.subset hd, hk⟩

/-- Outside all functions an item is settled by its own tokens, or trouble is noted. -/
theorem topLevelItem_settled (t : Token) (ts : List Token) :
    Settled topLevelItem (t :: ts) ∨ Troubled (topLevelItem (t :: ts)).notes := by
  unfold Settled
  simp only [List.cons_append, topLevelItem_cons]
  split
  · exact .inl fun _ => rfl
  · rcases insists_external t (t :: ts) with hs | ht
    · exact .inl (settled_bind (settled_advancing hs) (settled_pure _ _))
    · exact .inr (troubled_append.2 (.inl (ht.mono (advancing_notes _ _))))

/-- A rule that is repeated as long as a token is left. If no turn over `ts` was troubled, what
follows is read as if it stood alone. -/
theorem loop_append {p : Parse (Turn α)} (hnil : p [] = ⟨.stop, [], [], []⟩)
    (hcons : ∀ t ts, (∃ a, (p (t :: ts)).value = .more a ∧
      (p (t :: ts)).rest.length < (t :: ts).length) ∧
      (Settled p (t :: ts) ∨ Troubled (p (t :: ts)).notes))
    (ts more : List Token) (h : ¬ Troubled (loop p ts).notes) :
    ∃ xs, (loop p ts).value = some xs ∧
      loop p (ts ++ more) = ⟨(loop p more).value.map (xs ++ ·), (loop p more).rest,
        (loop p ts).notes ++ (loop p more).notes, (loop p ts).uses ++ (loop p more).uses⟩ := by
  induction hlen : ts.length using Nat.strongRecOn generalizing ts with
  | _ n ih =>
    cases ts with
    | nil =>
      have hstop : loop p [] = ⟨some [], [], [], []⟩ := by
        rw [loop, hnil]
      exact ⟨[], by rw [hstop], by simp [hstop]⟩
    | cons t ts =>
      obtain ⟨⟨a, hv, hlt⟩, hs | ht⟩ := hcons t ts
      · rw [loop_more hv hlt] at h ⊢
        obtain ⟨xs, hxs, heq⟩ := ih _ (hlen ▸ hlt) (p (t :: ts)).rest
          (fun ht => h (troubled_append.2 (.inr ht))) rfl
        refine ⟨a :: xs, by rw [hxs]; rfl, ?_⟩
        rw [loop_more_append hs hv hlt, heq]
        simp only [List.append_assoc, Option.map_map]
        rfl
      · rw [loop_more hv hlt] at h
        exact absurd (troubled_append.2 (.inl ht)) h

theorem topLevelTurn_cons (t : Token) (ts : List Token) :
    (∃ fs, (turn topLevelItem (t :: ts)).value = .more fs ∧
      (turn topLevelItem (t :: ts)).rest.length < (t :: ts).length) ∧
      (Settled (turn topLevelItem) (t :: ts) ∨ Troubled (turn topLevelItem (t :: ts)).notes) := by
  obtain ⟨fs, hv, hlt⟩ := topLevelItem_progress t ts
  obtain ⟨hturn, hrest⟩ := turn_of_some hv
  refine ⟨⟨fs, hturn, hrest ▸ hlt⟩, ?_⟩
  rcases topLevelItem_settled t ts with hs | ht
  · refine .inl (settled_bind hs ?_)
    rw [hv]
    exact settled_pure _ _
  · exact .inr (troubled_append.2 (.inl ht))

theorem program_apply (ts : List Token) :
    program ts = ⟨.node .program ((loop (turn topLevelItem) ts).value.getD []).flatten,
      (loop (turn topLevelItem) ts).rest, (loop (turn topLevelItem) ts).notes,
      (loop (turn topLevelItem) ts).uses⟩ := by
  have h : program ts = andThen (many topLevelItem ts)
      ⟨.node .program (many topLevelItem ts).value.flatten, (many topLevelItem ts).rest, [], []⟩ :=
    rfl
  rw [h, many_apply]
  simp [andThen]

/-- Behind a source that was read without trouble reading starts anew. -/
theorem program_append (ts more : List Token) (h : ¬ Troubled (program ts).notes) :
    ∃ functions others, (program ts).value = .node .program functions ∧
      (program more).value = .node .program others ∧
      program (ts ++ more) = ⟨.node .program (functions ++ others), (program more).rest,
        (program ts).notes ++ (program more).notes, (program ts).uses ++ (program more).uses⟩ := by
  rw [program_apply] at h
  obtain ⟨xs, hxs, heq⟩ := loop_append (p := turn topLevelItem) rfl topLevelTurn_cons ts more h
  obtain ⟨ys, hys⟩ := loop_turn_value topLevelItem more
  rw [program_apply ts, program_apply more, program_apply (ts ++ more), heq, hxs, hys]
  exact ⟨xs.flatten, ys.flatten, rfl, rfl, by simp⟩

/-- Directives that were dropped are noted with their line. -/
def Located (notes : List Diagnostic) : Prop :=
  ∀ d ∈ notes, d.kind = .skippedPreprocessor → d.line.isSome = true

theorem located_nil : Located [] := fun _ hd => absurd hd List.not_mem_nil

theorem located_append {ds es : List Diagnostic} :
    Located (ds ++ es) ↔ Located ds ∧ Located es := by
  simp [Located, or_imp, forall_and]

theorem located_loop {p : Parse (Turn α)} (hp : ∀ ts, Located (p ts).notes) (ts : List Token) :
    Located (loop p ts).notes := by
  induction hlen : ts.length using Nat.strongRecOn generalizing ts with
  | _ n ih =>
    by_cases hmore : ∃ a, (p ts).value = .more a ∧ (p ts).rest.length < ts.length
    · obtain ⟨a, hv, hlt⟩ := hmore
      rw [loop_more hv hlt]
      exact located_append.2 ⟨hp ts, ih _ (hlen ▸ hlt) _ rfl⟩
    · rw [loop_last fun a hv hlt => hmore ⟨a, hv, hlt⟩]
      exact hp ts

theorem located_advancing {p : Parse α} (hp : ∀ ts, Located (p ts).notes) (ts : List Token) :
    Located (advancing p ts).notes := by
  simp only [advancing]
  split
  · exact hp ts
  · refine located_append.2 ⟨hp ts, ?_⟩
    cases (p ts).rest with
    | nil => exact located_nil
    | cons t us => simp [Located, skipToken, bind_apply, next, note, andThen]

theorem Composed.located {p : Parse α} (h : Composed p) (ts : List Token) :
    Located (p ts).notes := by
  induction h generalizing ts with
  | pure a => exact located_nil
  | bind _ _ ihp ihf => exact located_append.2 ⟨ihp ts, ihf _ _⟩
  | peek => exact located_nil
  | here => exact located_nil
  | next => exact located_nil
  | accept test => cases ts with
    | nil => exact located_nil
    | cons t ts => cases ht : test t <;> simp [Located, Parse.accept, ht]
  | note hline => simpa [Located, Parse.note] using hline
  | operand => cases ts <;> exact located_nil
  | spanFrom step s =>
    obtain ⟨xs, s', rest, rfl, hxs, hstop⟩ := spanFrom_spec step s ts
    rw [spanFrom_append hxs hstop]
    exact located_nil
  | @spanFrom_mention _ _ step s _ _ ih =>
    obtain ⟨xs, s', rest, rfl, hxs, hstop⟩ := spanFrom_spec step s ts
    rw [spanFrom_mention_apply hxs hstop]
    exact ih _ rest
  | loop _ ih => exact located_loop ih ts
  | advancing _ ih => exact located_advancing ih ts

end Parse

namespace Diagnostic

theorem onceOnly_append {k : Kind} {ds es : List Diagnostic} (h : ∀ d ∈ ds, d.kind ≠ k) :
    onceOnly k (ds ++ es) = ds ++ onceOnly k es := by
  induction ds with
  | nil => rfl
  | cons d ds ih =>
    obtain ⟨hd, hds⟩ := List.forall_mem_cons.1 h
    simp [onceOnly, hd, ih hds]

theorem endingAt_of_line {d : Diagnostic} (h : d.line.isSome = true) (last : Option Nat) :
    d.endingAt last = d := by
  obtain ⟨line, hline⟩ := Option.isSome_iff_exists.1 h
  cases d
  simp_all [endingAt]

end Diagnostic

open Parse

/-- Warnings with notes in front that are only about dropped directives. -/
theorem warnings_append {ds : List Diagnostic} (hd : ¬ Troubled ds) (hl : Located ds)
    (es : List Diagnostic) (last : Option Nat) :
    Diagnostic.onceOnly .nestingLimit ((ds ++ es).map (·.endingAt last)) =
      ds ++ Diagnostic.onceOnly .nestingLimit (es.map (·.endingAt last)) := by
  have hkind : ∀ d ∈ ds, d.kind = .skippedPreprocessor := by simpa [Troubled] using hd
  have hmap : ds.map (·.endingAt last) = ds :=
    (List.map_congr_left fun d hd => Diagnostic.endingAt_of_line (hl d hd (hkind d hd)) last).trans
      (List.map_id' ds)
  rw [List.map_append, hmap, Diagnostic.onceOnly_append]
  intro d hd
  simp [hkind d hd]

/-- Behind a source whose warnings are only about dropped directives, another one is read as if it
stood alone: the warnings, the findings and the functions of the two follow each other. -/
theorem parseTokens_append (ts more : List Token)
    (h : ∀ w ∈ (parseTokens ts).warnings, w.kind = .skippedPreprocessor) :
    (parseTokens (ts ++ more)).warnings =
        (parseTokens ts).warnings ++ (parseTokens more).warnings ∧
      (parseTokens (ts ++ more)).findings =
        (parseTokens ts).findings ++ (parseTokens more).findings ∧
      (parseTokens (ts ++ more)).tree = .nonTerminal "Program"
        ((parseTokens ts).tree.children ++ (parseTokens more).tree.children) := by
  have hkinds := warnings_forall_kind (P := (· = .skippedPreprocessor)).1 h
  have hcalm : ¬ Troubled (program ts).notes := fun ⟨d, hd, hk⟩ => hk (hkinds d hd)
  have hlines := composed_program.located ts
  obtain ⟨functions, others, hfunctions, hothers, happ⟩ := program_append ts more hcalm
  have hfirst : (parseTokens ts).warnings = (program ts).notes := by
    have hwarnings := warnings_append hcalm hlines [] (ts.getLast?.map (·.line))
    rw [List.append_nil] at hwarnings
    exact hwarnings.trans (List.append_nil _)
  -- Only what follows the first source can be noted at the end of the input.
  have hlast : (ts ++ more).getLast?.map (·.line) = more.getLast?.map (·.line) ∨
      (program more).notes = [] := by
    cases more with
    | nil =>
      right
      rw [program_apply, loop]
      rfl
    | cons t us => exact .inl (by simp [List.getLast?_append, List.getLast?_cons])
  unfold parseTokens Outcome.ofReply at hfirst ⊢
  rw [happ]
  refine ⟨?_, List.filterMap_append, ?_⟩
  · rw [hfirst, warnings_append hcalm hlines]
    rcases hlast with hlast | hnone
    · rw [hlast]
    · rw [hnone]
      rfl
  · rw [hfunctions, hothers]
    simp [ParseTree.nonTerminal, Construct.name]

/-- A directive and a function, and behind them a function that is cut off. -/
theorem parseTokens_append_directive :
    let ts : List Token := [⟨.preprocessor, "#include <stdio.h>", 1⟩, ⟨.keyword, "int", 2⟩,
      ⟨.identifier, "f", 2⟩, ⟨.separator, "(", 2⟩, ⟨.separator, ")", 2⟩, ⟨.separator, "\x7b", 2⟩,
      ⟨.identifier, "gets", 3⟩, ⟨.separator, "(", 3⟩, ⟨.identifier, "s", 3⟩, ⟨.separator, ")", 3⟩,
      ⟨.separator, ";", 3⟩, ⟨.separator, "\x7d", 4⟩]
    let more : List Token := [⟨.keyword, "int", 5⟩, ⟨.identifier, "g", 5⟩, ⟨.separator, "(", 5⟩,
      ⟨.separator, "\x7b", 5⟩, ⟨.identifier, "system", 6⟩, ⟨.separator, "(", 6⟩]
    ((∀ w ∈ (parseTokens ts).warnings, w.kind = .skippedPreprocessor) ∧
      (parseTokens ts).warnings ≠ []) ∧
    (parseTokens (ts ++ more)).warnings =
        (parseTokens ts).warnings ++ (parseTokens more).warnings ∧
      (parseTokens (ts ++ more)).findings =
        (parseTokens ts).findings ++ (parseTokens more).findings ∧
      (parseTokens (ts ++ more)).tree = .nonTerminal "Program"
        ((parseTokens ts).tree.children ++ (parseTokens more).tree.children) := by
  intro ts more
  have h : ∀ w ∈ (parseTokens ts).warnings, w.kind = .skippedPreprocessor := by decide +kernel
  exact ⟨⟨h, by decide +kernel⟩, parseTokens_append ts more h⟩

end CAudit
