import CAudit.Proofs.DepthCounter
import CAudit.Proofs.Recovery

/-! Nesting is bounded. The rules with a counter read the same as the rules of the grammar: with `d`
levels open they do what those do with `maxNesting - d` levels left. On the way the counter stays
within the limit and every rule gives it back as it was. -/
namespace CAudit

namespace Diagnostic

/-- Keeps the first diagnostic of a kind, or none if one was seen before. -/
def thin (k : Kind) : Bool → List Diagnostic → List Diagnostic
  | _, [] => []
  | seen, d :: ds =>
    if d.kind = k then if seen then thin k true ds else d :: thin k true ds
    else d :: thin k seen ds

def hasKind (k : Kind) (ds : List Diagnostic) : Bool := ds.any (·.kind = k)

section

variable {k : Kind} {ds es : List Diagnostic} {seen : Bool}

theorem thin_append :
    thin k seen (ds ++ es) = thin k seen ds ++ thin k (seen || hasKind k ds) es := by
  induction ds generalizing seen with
  | nil => simp [thin, hasKind]
  | cons d ds ih =>
    by_cases hd : d.kind = k
    · cases seen <;> simp [thin, hasKind, hd, ih]
    · simp [thin, hasKind, hd, ih]

theorem hasKind_append : hasKind k (ds ++ es) = (hasKind k ds || hasKind k es) := by
  simp [hasKind]

theorem thin_of_not_hasKind (h : hasKind k ds = false) : thin k seen ds = ds := by
  induction ds with
  | nil => rfl
  | cons d ds ih =>
    obtain ⟨hd, hds⟩ : ¬ d.kind = k ∧ hasKind k ds = false := by simpa [hasKind] using h
    simp [thin, hd, ih hds]

theorem thin_true : thin k true ds = ds.filter (·.kind ≠ k) := by
  induction ds with
  | nil => rfl
  | cons d ds ih => by_cases hd : d.kind = k <;> simp [thin, hd, ih]

theorem thin_false : thin k false ds = onceOnly k ds := by
  induction ds with
  | nil => rfl
  | cons d ds ih =>
    by_cases hd : d.kind = k
    · simp [thin, onceOnly, hd, thin_true]
    · simp [thin, onceOnly, hd, ih]

theorem onceOnly_endingAt (last : Option Nat) :
    onceOnly k (ds.map (·.endingAt last)) = (onceOnly k ds).map (·.endingAt last) := by
  induction ds with
  | nil => rfl
  | cons d ds ih =>
    by_cases hd : d.kind = k
    · simp [onceOnly, hd, endingAt, List.filter_map, Function.comp_def]
    · simp [onceOnly, hd, endingAt] at ih ⊢
      exact ih

/-- At most one diagnostic of the kind is kept. -/
theorem countP_onceOnly_le : (onceOnly k ds).countP (·.kind = k) ≤ 1 := by
  induction ds with
  | nil => simp [onceOnly]
  | cons d ds ih =>
    by_cases hd : d.kind = k
    · simp [onceOnly, hd]
    · simpa [onceOnly, hd] using ih

end

end Diagnostic

/-! ### Rules that do not reach the limit -/

namespace Parse

variable {α β σ : Type}

/-- The rule never notes the limit. -/
def Quiet (p : Parse α) : Prop :=
  ∀ ts, Diagnostic.hasKind .nestingLimit (p ts).notes = false

theorem quiet_pure (a : α) : Quiet (pure a : Parse α) := fun _ => rfl

theorem quiet_bind {p : Parse α} {f : α → Parse β} (hp : Quiet p) (hf : ∀ a, Quiet (f a)) :
    Quiet (p >>= f) := by
  intro ts
  rw [bind_apply, andThen, Diagnostic.hasKind_append, hp ts, hf]
  rfl

theorem quiet_ite {c : Prop} [Decidable c] {p q : Parse α} (hp : Quiet p) (hq : Quiet q) :
    Quiet (if c then p else q) := by
  split
  · exact hp
  · exact hq

theorem quiet_cases {p : Parse (Option α)} {f : Option α → Parse β} (hp : Quiet p)
    (hsome : ∀ a, Quiet (f (some a))) (hnone : Quiet (f none)) : Quiet (p >>= f) :=
  quiet_bind hp fun o => o.rec hnone hsome

theorem quiet_peek : Quiet peek := fun _ => rfl

theorem quiet_here : Quiet here := fun _ => rfl

theorem quiet_next : Quiet next := fun _ => rfl

theorem quiet_mention (us : List Token) : Quiet (mention us) := fun _ => rfl

theorem quiet_accept (test : Token → Bool) : Quiet (accept test) := by
  intro ts
  cases ts with
  | nil => rfl
  | cons t ts => cases h : test t <;> simp [accept, h, Diagnostic.hasKind]

theorem quiet_note {line : Option Nat} {kind : Diagnostic.Kind} {message : String}
    (hk : kind ≠ .nestingLimit) : Quiet (note line kind message) := by
  intro ts
  simp [note, Diagnostic.hasKind, hk]

theorem quiet_expect (test : Token → Bool) (message : String) : Quiet (expect test message) := by
  refine quiet_cases (quiet_accept test) (fun _ => quiet_pure _) ?_
  apply quiet_bind quiet_here
  intro line
  exact quiet_bind (quiet_note (by decide)) fun _ => quiet_pure _

theorem quiet_spanFrom (step : σ → Token → Option σ) (s : σ) : Quiet (spanFrom step s) := by
  intro ts
  obtain ⟨xs, s', rest, rfl, hxs, hstop⟩ := spanFrom_spec step s ts
  rw [spanFrom_append hxs hstop]
  rfl

theorem quiet_spanWhile (test : Token → Bool) : Quiet (spanWhile test) :=
  quiet_bind (quiet_spanFrom _ _) fun _ => quiet_pure _

theorem quiet_operand : Quiet operand := by
  apply quiet_cases quiet_next
  · intro t
    exact quiet_bind (quiet_mention _) fun _ => quiet_pure _
  · exact quiet_pure _

theorem quiet_typeSpec : Quiet typeSpec := by
  apply quiet_bind (quiet_spanFrom _ _)
  intro words
  exact quiet_bind (quiet_spanWhile _) fun _ => quiet_pure _

theorem quiet_initializerList : Quiet initializerList := by
  apply quiet_bind quiet_here
  intro line
  apply quiet_bind (quiet_spanFrom _ _)
  intro run
  apply quiet_bind (quiet_mention _)
  intro _
  exact quiet_ite (quiet_bind (quiet_note (by decide)) fun _ => quiet_pure _) (quiet_pure _)

theorem quiet_emptyStatement : Quiet emptyStatement :=
  quiet_cases quiet_next (fun _ => quiet_pure _) (quiet_pure _)

theorem quiet_jumpStatement : Quiet jumpStatement := by
  have htarget (keyword : Token) : Quiet (jumpTarget keyword) :=
    quiet_ite (quiet_cases (quiet_expect _ _) (fun _ => quiet_pure _) (quiet_pure _))
      (quiet_pure _)
  refine quiet_cases quiet_next (fun keyword => ?_) (quiet_pure _)
  refine quiet_cases (htarget keyword) (fun target => ?_) (quiet_pure _)
  exact quiet_cases (quiet_expect _ _) (fun _ => quiet_pure _) (quiet_pure _)

theorem quiet_labelStatement : Quiet labelStatement := by
  refine quiet_cases quiet_next (fun keyword => ?_) (quiet_pure _)
  apply quiet_bind (quiet_spanWhile _)
  intro run
  apply quiet_bind (quiet_mention _)
  intro _
  refine quiet_cases (quiet_accept _) (fun _ => quiet_pure _) ?_
  apply quiet_bind quiet_here
  intro line
  exact quiet_bind (quiet_note (by decide)) fun _ => quiet_pure _

theorem quiet_condition (keyword : Token) : Quiet (condition keyword) := by
  apply quiet_bind (quiet_spanFrom _ _)
  intro run
  apply quiet_bind (quiet_mention _)
  intro _
  refine quiet_cases (quiet_accept _) (fun _ => quiet_pure _) ?_
  exact quiet_bind (quiet_note (by decide)) fun _ => quiet_pure _

theorem quiet_parameters : Quiet parameters := by
  apply quiet_bind (quiet_spanFrom _ _)
  intro run
  refine quiet_cases (quiet_accept _) (fun _ => quiet_pure _) ?_
  apply quiet_cases quiet_peek
  · intro t
    exact quiet_bind (quiet_note (by decide)) fun _ => quiet_pure _
  · exact quiet_bind (quiet_note (by decide)) fun _ => quiet_pure _

theorem quiet_skipUnhandled (t : Token) : Quiet (skipUnhandled t) := by
  apply quiet_bind (quiet_note (by decide))
  intro _
  exact quiet_bind quiet_next fun _ => quiet_pure _

theorem quiet_skipToken : Quiet skipToken :=
  quiet_cases quiet_next (fun _ => quiet_note (by decide)) (quiet_pure _)

theorem quiet_skipDirective : Quiet skipDirective :=
  quiet_cases quiet_next (fun _ => quiet_note (by decide)) (quiet_pure _)

end Parse

/-! ### Agreement -/

namespace Counted

open Parse Diagnostic

variable {α β : Type}

/-- The counter is within the limit, and a rule gives it back as it was. Nothing is open outside all
functions. -/
def Event.Sound : Event → Prop
  | .counter depth => depth ≤ maxNesting
  | .ran rule before after => after = before ∧ (rule = .topLevelItem → before = 0)

/-- With `d` levels open the rule `c` does what the rule `p` does and then has `d'` levels open. The
limit is noted at most once, and all that is logged is sound. -/
def Matches (d d' : Nat) (c : Counted α) (p : Parse α) : Prop :=
  ∀ noted log ts, ∃ events, (∀ e ∈ events, e.Sound) ∧
    c ⟨d, noted, log⟩ ts =
      ⟨((p ts).value, ⟨d', noted || hasKind .nestingLimit (p ts).notes, log ++ events⟩),
        (p ts).rest, thin .nestingLimit noted (p ts).notes, (p ts).uses⟩

section

variable {d d' e : Nat}

theorem counted_bind_apply (c : Counted α) (f : α → Counted β) (m : Meter) (ts : List Token) :
    (c >>= f) m ts =
      andThen (c m ts) (f (c m ts).value.1 (c m ts).value.2 (c m ts).rest) := rfl

theorem matches_pure (a : α) : Matches d d (pure a) (pure a) :=
  fun noted log ts => ⟨[], nofun, by
    show (⟨(a, ⟨d, noted, log⟩), ts, [], []⟩ : Reply (α × Meter)) = _
    simp [pure_apply, hasKind, thin]⟩

theorem Matches.bind {c : Counted α} {p : Parse α} {f : α → Counted β} {g : α → Parse β}
    (hc : Matches d e c p) (hf : ∀ a, Matches e d' (f a) (g a)) :
    Matches d d' (c >>= f) (p >>= g) := by
  intro noted log ts
  obtain ⟨events, hevents, hceq⟩ := hc noted log ts
  obtain ⟨others, hothers, hfeq⟩ := hf (p ts).value
    (noted || hasKind .nestingLimit (p ts).notes) (log ++ events) (p ts).rest
  refine ⟨events ++ others, List.forall_mem_append.2 ⟨hevents, hothers⟩, ?_⟩
  rw [counted_bind_apply, hceq, hfeq]
  simp [bind_apply, andThen, hasKind_append, thin_append, Bool.or_assoc]

theorem Matches.cases {c : Counted (Option α)} {p : Parse (Option α)} {f : Option α → Counted β}
    {g : Option α → Parse β} (hc : Matches d e c p)
    (hsome : ∀ a, Matches e d' (f (some a)) (g (some a))) (hnone : Matches e d' (f none) (g none)) :
    Matches d d' (c >>= f) (p >>= g) := hc.bind fun o => o.rec hnone hsome

theorem Matches.map {c : Counted α} {p : Parse α} (hc : Matches d d c p) (g : α → β) :
    Matches d d (do return g (← c)) (do return g (← p)) := hc.bind fun a => matches_pure (g a)

theorem matches_ite {b : Prop} [Decidable b] {c c' : Counted α} {p p' : Parse α}
    (hc : Matches d d' c p) (hc' : Matches d d' c' p') :
    Matches d d' (if b then c else c') (if b then p else p') := by
  split
  · exact hc
  · exact hc'

/-- A rule that does not know the counter. -/
theorem Matches.lift {p : Parse α} (hp : Quiet p) : Matches d d (liftM p) p := by
  intro noted log ts
  refine ⟨[], nofun, ?_⟩
  have hlift : (liftM p : Counted α) ⟨d, noted, log⟩ ts =
      andThen (p ts) ⟨((p ts).value, ⟨d, noted, log⟩), (p ts).rest, [], []⟩ := rfl
  rw [hlift, hp ts, thin_of_not_hasKind (hp ts)]
  simp [andThen]

theorem Matches.logged {c : Counted α} {p : Parse α} (hc : Matches d d c p) {rule : Rule}
    (htop : rule = .topLevelItem → d = 0) : Matches d d (logged rule c) p := by
  intro noted log ts
  obtain ⟨events, hevents, hceq⟩ := hc noted log ts
  have hsound : (Event.ran rule d d).Sound := ⟨rfl, htop⟩
  refine ⟨events ++ [.ran rule d d],
    List.forall_mem_append.2 ⟨hevents, List.forall_mem_singleton.2 hsound⟩, ?_⟩
  unfold Counted.logged
  rw [bind_apply, hceq]
  simp [andThen, pure_apply]

theorem Matches.lift_logged {p : Parse α} (hp : Quiet p) {rule : Rule}
    (hrule : rule ≠ .topLevelItem) : Matches d d (Counted.logged rule (liftM p)) p :=
  (Matches.lift hp).logged fun h => absurd h hrule

/-- Below the limit a level is entered. -/
theorem matches_enter {f : Bool → Counted β} {p : Parse β} (hd : d < maxNesting)
    (hf : Matches (d + 1) d' (f true) p) : Matches d d' (enter >>= f) p := by
  intro noted log ts
  obtain ⟨events, hevents, hfeq⟩ := hf noted (log ++ [.counter (d + 1)]) ts
  refine ⟨.counter (d + 1) :: events, ?_, ?_⟩
  · exact List.forall_mem_cons.2 ⟨hd, hevents⟩
  · have henter : enter ⟨d, noted, log⟩ ts =
        ⟨(true, ⟨d + 1, noted, log ++ [.counter (d + 1)]⟩), ts, [], []⟩ := by
      simp [enter, hd, pure_apply, Meter.setDepth]
    rw [counted_bind_apply, henter, hfeq]
    simp [andThen]

/-- At the limit no level is entered, and that is noted unless it has been before. -/
theorem matches_enter_limit {f : Bool → Counted β} {p : Parse β}
    (hf : Matches maxNesting d' (f false) p) :
    Matches maxNesting d' (enter >>= f) (noteLimit >>= fun _ => p) := by
  intro noted log ts
  obtain ⟨events, hevents, hfeq⟩ := hf true log ts
  refine ⟨events, hevents, ?_⟩
  have henter : enter ⟨maxNesting, noted, log⟩ ts = ⟨(false, ⟨maxNesting, true, log⟩), ts,
      thin .nestingLimit noted (noteLimit ts).notes, []⟩ := by
    cases noted <;>
      simp [enter, pure_apply, noteLimit, bind_apply, here, note, andThen, thin]
  rw [counted_bind_apply, henter, hfeq, bind_apply]
  have hlimit : hasKind .nestingLimit (noteLimit ts).notes = true := by
    simp [noteLimit, bind_apply, here, note, andThen, hasKind]
  have hrest : (noteLimit ts).rest = ts := rfl
  have huses : (noteLimit ts).uses = [] := rfl
  simp [andThen, hasKind_append, thin_append, hlimit, hrest, huses]

theorem matches_leave {f : Unit → Counted β} {p : Parse β} (hd : d ≤ maxNesting)
    (hf : Matches d d' (f ()) p) : Matches (d + 1) d' (leave >>= f) p := by
  intro noted log ts
  obtain ⟨events, hevents, hfeq⟩ := hf noted (log ++ [.counter d]) ts
  refine ⟨.counter d :: events, ?_, ?_⟩
  · exact List.forall_mem_cons.2 ⟨hd, hevents⟩
  · have hleave : leave ⟨d + 1, noted, log⟩ ts =
        ⟨((), ⟨d, noted, log ++ [.counter d]⟩), ts, [], []⟩ := by
      simp [leave, pure_apply, Meter.setDepth]
    rw [counted_bind_apply, hleave, hfeq]
    simp [andThen]

/-- What every turn of a repeated rule keeps, the repetition keeps. -/
theorem Matches.repeated {c : Counted (Turn α)} {p : Parse (Turn α)} (hc : Matches d d c p) :
    Matches d d (repeated c) (Parse.loop p) := by
  intro noted log ts
  show ∃ events, _ ∧ Counted.loop c ⟨d, noted, log⟩ ts = _
  -- By the number of tokens, for every state of the meter with `d` levels open.
  induction hlen : ts.length using Nat.strongRecOn generalizing ts noted log with
  | _ n ih =>
    obtain ⟨events, hevents, hceq⟩ := hc noted log ts
    rw [Counted.loop, Parse.loop, hceq]
    cases hv : (p ts).value with
    | stop => exact ⟨events, hevents, rfl⟩
    | abandon => exact ⟨events, hevents, rfl⟩
    | more a =>
      by_cases hlt : (p ts).rest.length < ts.length
      · obtain ⟨others, hothers, hleq⟩ := ih _ (hlen ▸ hlt)
          (noted || hasKind .nestingLimit (p ts).notes) (log ++ events) (p ts).rest rfl
        refine ⟨events ++ others, List.forall_mem_append.2 ⟨hevents, hothers⟩, ?_⟩
        simp [hlt, hleq, hasKind_append, thin_append, Bool.or_assoc]
      · exact ⟨events, hevents, by simp [hlt]⟩

theorem Matches.many {c : Counted (Option α)} {p : Parse (Option α)} (hc : Matches d d c p) :
    Matches d d (Counted.many c) (Parse.many p) := by
  apply Matches.map
  apply Matches.repeated
  exact hc.cases (fun _ => matches_pure _) (matches_pure _)

theorem Matches.advancing {c : Counted α} {p : Parse α} (hc : Matches d d c p) :
    Matches d d (Counted.advancing c) (Parse.advancing p) := by
  intro noted log ts
  obtain ⟨events, hevents, hceq⟩ := hc noted log ts
  refine ⟨events, hevents, ?_⟩
  unfold Counted.advancing Parse.advancing
  rw [hceq]
  by_cases hlt : (p ts).rest.length < ts.length
  · simp [hlt]
  · have hskip := quiet_skipToken (p ts).rest
    simp [hlt, hasKind_append, thin_append, hskip, thin_of_not_hasKind hskip]

/-! ### Rules that open levels

With `d` levels open and `room` left, `d + room` is the limit, and there has to be more fuel than
`room`. -/

variable {fuel room : Nat}

theorem matches_groupItem {c : Counted (List SyntaxTree)} {p : Parse (List SyntaxTree)}
    (hc : Matches d d c p) (closer : String) :
    Matches d d (groupItem c closer) (Parse.groupItem p closer) := by
  refine .cases (.lift quiet_peek) (fun t => ?_) (matches_pure _)
  refine matches_ite (matches_pure _) (matches_ite (hc.map _) ?_)
  exact matches_ite (.lift quiet_operand) (matches_ite (matches_pure _) (.lift quiet_operand))

theorem matches_group (hd : d + room = maxNesting) (hf : room < fuel) :
    Matches d d (group fuel) (Parse.group room) := by
  induction fuel generalizing d room with
  | zero => exact absurd hf (Nat.not_lt_zero _)
  | succ fuel ih =>
    refine Matches.logged ?_ nofun
    cases room with
    | zero =>
      obtain rfl : d = maxNesting := hd
      refine .cases (.lift quiet_next) (fun opener => ?_) (matches_pure _)
      exact matches_enter_limit (matches_pure _)
    | succ room =>
      have hinner : Matches (d + 1) (d + 1) (group fuel) (Parse.group room) :=
        ih (by omega) (by omega)
      refine .cases (.lift quiet_next) (fun opener => ?_) (matches_pure _)
      refine matches_enter (by omega) ?_
      refine (Matches.many (matches_groupItem hinner _)).bind fun inner => ?_
      refine matches_leave (by omega) ?_
      refine .cases (.lift (quiet_accept _)) (fun _ => matches_pure _) ?_
      exact (Matches.lift (quiet_note (by decide))).bind fun _ => matches_pure _

theorem matches_expressionItems (hd : d + room = maxNesting) (hf : room < fuel) :
    Matches d d (expressionItems fuel) (Parse.expressionItems room) := by
  have hitem : Matches d d (expressionItem fuel) (Parse.expressionItem room) := by
    refine .cases (.lift quiet_peek) (fun t => ?_) (matches_pure _)
    refine matches_ite ((matches_group hd hf).map _) ?_
    exact matches_ite (matches_pure _) (.lift quiet_operand)
  exact (hitem.many.map _).logged nofun

theorem matches_expression (hd : d + room = maxNesting) (hf : room < fuel) (c : Construct) :
    Matches d d (expression fuel c) (Parse.expression room c) :=
  (matches_expressionItems hd hf).map _

theorem matches_declarator (hd : d + room = maxNesting) (hf : room < fuel) :
    Matches d d (declarator fuel) (Parse.declarator room) := by
  have hsize : Matches d d (arraySize fuel) (Parse.arraySize room) := by
    refine .cases (.lift (quiet_accept _)) (fun opener => ?_) (matches_pure _)
    refine (matches_expression hd hf _).bind fun size => ?_
    exact .cases (.lift (quiet_expect _ _)) (fun _ => matches_pure _) (matches_pure _)
  have hvalue : Matches d d (initializer fuel) (Parse.initializer room) := by
    refine .cases (.lift (quiet_accept _)) (fun assign => ?_) (matches_pure _)
    refine (Matches.lift quiet_peek).bind fun o => ?_
    refine matches_ite (Matches.map ?_ _) ((matches_expression hd hf _).map _)
    exact .lift_logged quiet_initializerList (by decide)
  refine (Matches.lift (quiet_spanWhile _)).bind fun pointer => ?_
  refine .cases (.lift (quiet_expect _ _)) (fun name => ?_) (matches_pure _)
  refine .cases hsize.repeated (fun sizes => ?_) (matches_pure _)
  exact hvalue.map _

theorem matches_declaration (hd : d + room = maxNesting) (hf : room < fuel) :
    Matches d d (declaration fuel) (Parse.declaration room) := by
  have hnext : Matches d d (nextDeclarator fuel) (Parse.nextDeclarator room) := by
    refine .cases (.lift (quiet_accept _)) (fun comma => ?_) (matches_pure _)
    exact .cases (matches_declarator hd hf) (fun _ => matches_pure _) (matches_pure _)
  refine Matches.logged ?_ nofun
  refine (Matches.lift_logged quiet_typeSpec (by decide)).bind fun type => ?_
  refine .cases (matches_declarator hd hf) (fun first => ?_) (matches_pure _)
  refine .cases hnext.repeated (fun others => ?_) (matches_pure _)
  exact .cases (.lift (quiet_expect _ _)) (fun _ => matches_pure _) (matches_pure _)

theorem matches_returnStatement (hd : d + room = maxNesting) (hf : room < fuel) :
    Matches d d (returnStatement fuel) (Parse.returnStatement room) := by
  refine Matches.logged ?_ nofun
  refine .cases (.lift quiet_next) (fun keyword => ?_) (matches_pure _)
  refine (matches_expressionItems hd hf).bind fun items => ?_
  exact .cases (.lift (quiet_expect _ _)) (fun _ => matches_pure _) (matches_pure _)

theorem matches_expressionStatement (hd : d + room = maxNesting) (hf : room < fuel) :
    Matches d d (expressionStatement fuel) (Parse.expressionStatement room) := by
  have hnext : Matches d d (nextExpression fuel) (Parse.nextExpression room) :=
    .cases (.lift (quiet_accept _)) (fun _ => (matches_expression hd hf _).map _) (matches_pure _)
  refine Matches.logged ?_ nofun
  refine (Matches.lift quiet_here).bind fun line => ?_
  refine (matches_expression hd hf _).bind fun first => ?_
  refine hnext.many.bind fun others => ?_
  refine .cases (.lift (quiet_accept _)) (fun _ => matches_pure _) ?_
  exact (Matches.lift (quiet_note (by decide))).bind fun _ => matches_pure _

/-! ### Nested statements -/

theorem matches_statements {c : Counted (Option SyntaxTree)} {p : Parse (Option SyntaxTree)}
    (hc : Matches d d c p) : Matches d d (statements c) (Parse.statements p) := by
  have hitem : Matches d d (statementItem c) (Parse.statementItem p) := by
    refine .cases (.lift quiet_peek) (fun t => ?_) (matches_pure _)
    exact matches_ite (matches_pure _) (hc.advancing.map _)
  exact (hitem.many.map _).logged nofun

theorem matches_block {c : Counted (Option SyntaxTree)} {p : Parse (Option SyntaxTree)}
    (hc : Matches d d c p) : Matches d d (block c) (Parse.block p) := by
  refine Matches.logged ?_ nofun
  refine (Matches.lift quiet_here).bind fun line => ?_
  refine (Matches.lift (quiet_accept _)).bind fun opener => ?_
  refine (matches_statements hc).bind fun body => ?_
  refine .cases (.lift (quiet_accept _)) (fun _ => matches_pure _) ?_
  exact (Matches.lift (quiet_note (by decide))).bind fun _ => matches_pure _

/-- A rule for statements that does, with any number of levels open from `d` on, what the rule of
the grammar does with the others left. -/
def MatchesStatements (d : Nat) (c : Counted (Option SyntaxTree)) : Prop :=
  ∀ e room, d ≤ e → e + room = maxNesting → Matches e e c (Parse.statement room)

theorem matches_body {c : Counted (Option SyntaxTree)} (hc : MatchesStatements d c)
    (hd : d + room = maxNesting) (keyword : String) :
    Matches d d (body c keyword) (Parse.body (nested room) keyword) := by
  refine Matches.logged ?_ nofun
  refine .cases (.lift quiet_peek) (fun t => ?_)
    ((Matches.lift (quiet_note (by decide))).bind fun _ => matches_pure _)
  refine matches_ite ?_ ((hc d room (Nat.le_refl d) hd).map _)
  -- A braced body opens a level of its own, beside the one of the statement around it.
  cases room with
  | zero =>
    obtain rfl : d = maxNesting := hd
    exact matches_enter_limit (matches_pure _)
  | succ room =>
    have hblock : Matches (d + 1) (d + 1) (block c) (Parse.block (Parse.statement room)) :=
      matches_block (hc (d + 1) room (by omega) (by omega))
    refine matches_enter (by omega) ?_
    refine hblock.bind fun b => ?_
    exact matches_leave (by omega) (matches_pure _)

theorem matches_controlStructure {c : Counted (Option SyntaxTree)} (hc : MatchesStatements d c)
    (hd : d + room = maxNesting) :
    Matches d d (controlStructure c) (Parse.controlStructure (nested room)) := by
  have helse (keyword : Token) :
      Matches d d (elseBranch c keyword) (Parse.elseBranch (nested room) keyword) := by
    refine matches_ite ?_ (matches_pure _)
    exact .cases (.lift (quiet_accept _)) (fun _ => (matches_body hc hd _).map _) (matches_pure _)
  refine Matches.logged ?_ nofun
  refine .cases (.lift quiet_next) (fun keyword => ?_) (matches_pure _)
  refine .cases (.lift (quiet_expect _ _)) (fun opener => ?_) (matches_pure _)
  refine (Matches.lift_logged (quiet_condition keyword) (by decide)).bind fun cond => ?_
  refine (matches_body hc hd _).bind fun main => ?_
  exact (helse keyword).map _

theorem matches_doWhile {c : Counted (Option SyntaxTree)} (hc : MatchesStatements d c)
    (hd : d + room = maxNesting) :
    Matches d d (doWhile c) (Parse.doWhile (nested room)) := by
  refine Matches.logged ?_ nofun
  refine .cases (.lift quiet_next) (fun keyword => ?_) (matches_pure _)
  refine (matches_body hc hd _).bind fun main => ?_
  refine .cases (.lift (quiet_accept _)) (fun while_ => ?_) ?_
  · refine .cases (.lift (quiet_expect _ _)) (fun opener => ?_) (matches_pure _)
    refine (Matches.lift_logged (quiet_condition while_) (by decide)).bind fun cond => ?_
    exact .cases (.lift (quiet_expect _ _)) (fun _ => matches_pure _) (matches_pure _)
  · refine (Matches.lift quiet_here).bind fun line => ?_
    exact (Matches.lift (quiet_note (by decide))).bind fun _ => matches_pure _

theorem matches_construct {c : Counted (Option SyntaxTree)} (hc : MatchesStatements d c)
    (hd : d + room = maxNesting) (hf : room < fuel) (t : Token) :
    Matches d d (construct c fuel t) (Parse.construct (nested room) t) := by
  have hother : Matches d d (if t.startsExpression then expressionStatement fuel
      else liftM (skipUnhandled t)) (if t.startsExpression then Parse.expressionStatement room
        else skipUnhandled t) :=
    matches_ite (matches_expressionStatement hd hf) (.lift (quiet_skipUnhandled t))
  refine matches_ite ((matches_block (hc d room (Nat.le_refl d) hd)).map _) ?_
  refine matches_ite (.lift quiet_emptyStatement) (matches_ite ?_ hother)
  refine matches_ite (matches_returnStatement hd hf) (matches_ite (matches_doWhile hc hd) ?_)
  refine matches_ite (Matches.lift_logged quiet_jumpStatement (by decide)) ?_
  refine matches_ite (Matches.lift_logged quiet_labelStatement (by decide)) ?_
  refine matches_ite (matches_controlStructure hc hd) ?_
  exact matches_ite (matches_declaration hd hf) hother

theorem matches_statement (hd : d + room = maxNesting) (hf : room < fuel) :
    Matches d d (statement fuel) (Parse.statement room) := by
  induction fuel generalizing d room with
  | zero => exact absurd hf (Nat.not_lt_zero _)
  | succ fuel ih =>
    refine Matches.logged ?_ nofun
    rw [statement_eq]
    refine .cases (.lift quiet_peek) (fun t => ?_) (matches_pure _)
    refine matches_ite ((Matches.lift quiet_skipDirective).bind fun _ => matches_pure _) ?_
    cases room with
    | zero =>
      obtain rfl : d = maxNesting := hd
      exact matches_enter_limit ((Matches.lift quiet_next).bind fun _ => matches_pure _)
    | succ room =>
      have hinner : MatchesStatements (d + 1) (statement fuel) :=
        fun e r he hr => ih hr (by omega)
      refine matches_enter (by omega) ?_
      refine (matches_construct hinner (by omega) (by omega) t).bind fun inner => ?_
      exact matches_leave (by omega) (matches_pure _)

/-! ### Whole sources -/

theorem matches_function (hf : maxNesting < fuel) :
    Matches 0 0 (function fuel) Parse.function := by
  have hbody : Matches 0 0 (functionBody fuel) Parse.functionBody := by
    refine (matches_statements (matches_statement (Nat.zero_add _) hf)).bind fun list => ?_
    refine .cases (.lift (quiet_accept _)) (fun _ => matches_pure _) ?_
    refine (Matches.lift quiet_here).bind fun line => ?_
    exact (Matches.lift (quiet_note (by decide))).bind fun _ => matches_pure _
  refine Matches.logged ?_ nofun
  refine (Matches.lift_logged quiet_typeSpec (by decide)).bind fun type => ?_
  refine .cases (.lift (quiet_expect _ _)) (fun name => ?_) (matches_pure _)
  refine .cases (.lift (quiet_expect _ _)) (fun opener => ?_) (matches_pure _)
  refine .cases (.lift_logged quiet_parameters (by decide)) (fun params => ?_) (matches_pure _)
  refine .cases (.lift (quiet_accept _)) (fun _ => matches_pure _) ?_
  exact .cases (.lift (quiet_expect _ _)) (fun _ => hbody.map _) (matches_pure _)

theorem matches_program (hf : maxNesting < fuel) :
    Matches 0 0 (program fuel) Parse.program := by
  have hexternal (t : Token) : Matches 0 0 (external fuel t) (Parse.external t) :=
    matches_ite ((matches_function hf).map _)
      ((Matches.lift (quiet_note (by decide))).bind fun _ => matches_pure _)
  have hitem : Matches 0 0 (topLevelItem fuel) Parse.topLevelItem := by
    refine Matches.logged ?_ fun _ => rfl
    refine .cases (.lift quiet_peek) (fun t => ?_) (matches_pure _)
    refine matches_ite ((Matches.lift quiet_skipDirective).bind fun _ => matches_pure _) ?_
    exact (hexternal t).advancing.map _
  exact hitem.many.map _

end

end Counted

open Parse

/-- Reading with a counter gives the same as reading by levels left, the counter never exceeds the
limit, every rule gives it back as it was, and outside all functions it is zero. The tree is at most
as high as the limit allows, and the limit is reported once. -/
theorem nesting_bounded (spare : Nat) (ts : List Token) :
    (Counted.parseTokens spare ts).1 = parseTokens ts ∧
      (Counted.parseTokens spare ts).2.depth = 0 ∧
      (∀ e ∈ (Counted.parseTokens spare ts).2.log, e.Sound) ∧
      (parseTokens ts).tree.height ≤ 261 ∧
      (parseTokens ts).warnings.countP (·.kind = .nestingLimit) ≤ 1 := by
  have hfuel : maxNesting < maxNesting + 1 + spare := by omega
  obtain ⟨events, hevents, hrun⟩ := Counted.matches_program hfuel false [] ts
  have hstart : Counted.program (maxNesting + 1 + spare) .start ts = _ := hrun
  have hheight : (parseTokens ts).tree.height ≤ 2 * maxNesting + 5 := (program_fits ts).1.height_le
  refine ⟨?_, ?_, ?_, hheight, Diagnostic.countP_onceOnly_le⟩
  · unfold Counted.parseTokens parseTokens Outcome.ofReply
    rw [hstart, Diagnostic.thin_false, Diagnostic.onceOnly_endingAt]
  · unfold Counted.parseTokens
    rw [hstart]
  · unfold Counted.parseTokens
    rw [hstart]
    exact hevents

/-- The log of a function with an empty statement. The last pass finds no token. -/
example :
    (Counted.parseTokens 0 [⟨.keyword, "int", 1⟩, ⟨.identifier, "f", 1⟩, ⟨.separator, "(", 1⟩,
      ⟨.separator, ")", 1⟩, ⟨.separator, "\x7b", 1⟩, ⟨.separator, ";", 1⟩,
      ⟨.separator, "\x7d", 1⟩]).2.log =
      [.ran .typeSpec 0 0, .ran .parameters 0 0, .counter 1, .counter 0, .ran .statement 0 0,
        .ran .statements 0 0, .ran .function 0 0, .ran .topLevelItem 0 0,
        .ran .topLevelItem 0 0] := by
  decide +kernel

end CAudit
