import CAudit.Proofs.CleanRun

/-! Rules are put together from a few ways of reading. What each of these keeps, and what is kept
when rules follow each other or are repeated, every rule of the grammar keeps. -/
namespace CAudit.Parse

variable {α β σ : Type}

/-- A rule put together from ways of reading. A note that a directive was dropped has its line. -/
inductive Composed : {α : Type} → Parse α → Prop
  | pure {α : Type} (a : α) : Composed (pure a)
  | bind {α β : Type} {p : Parse α} {f : α → Parse β} : Composed p → (∀ a, Composed (f a)) →
      Composed (p >>= f)
  | peek : Composed peek
  | here : Composed here
  | next : Composed next
  | accept (test : Token → Bool) : Composed (accept test)
  | note {line : Option Nat} {kind : Diagnostic.Kind} {message : String} :
      (kind = .skippedPreprocessor → line.isSome = true) → Composed (note line kind message)
  | operand : Composed operand
  | spanFrom {σ : Type} (step : σ → Token → Option σ) (s : σ) : Composed (spanFrom step s)
  | spanFrom_mention {β σ : Type} {step : σ → Token → Option σ} {s : σ}
      {f : List Token × σ → Parse β} : (∀ x, Composed (f x)) →
      Composed (spanFrom step s >>= fun x => mention x.1 >>= fun _ => f x)
  | loop {α : Type} {p : Parse (Turn α)} : Composed p → Composed (loop p)
  | advancing {α : Type} {p : Parse α} : Composed p → Composed (advancing p)

namespace Composed

theorem map {p : Parse α} (hp : Composed p) (g : α → β) : Composed (do return g (← p)) :=
  .bind hp fun _ => .pure _

theorem cases {p : Parse (Option α)} {f : Option α → Parse β} (hp : Composed p)
    (hsome : ∀ a, Composed (f (some a))) (hnone : Composed (f none)) : Composed (p >>= f) :=
  .bind hp fun o => o.rec hnone hsome

theorem ite {c : Prop} [Decidable c] {p q : Parse α} (hp : Composed p) (hq : Composed q) :
    Composed (if c then p else q) := by
  split
  · exact hp
  · exact hq

theorem expect (test : Token → Bool) (message : String) : Composed (expect test message) :=
  .cases (.accept test) (fun _ => .pure _)
    (.bind .here fun _ => .bind (.note nofun) fun _ => .pure _)

theorem noteLimit : Composed noteLimit := .bind .here fun _ => .note nofun

theorem skipDirective : Composed skipDirective :=
  .cases .next (fun _ => .note fun _ => rfl) (.pure _)

theorem spanWhile (test : Token → Bool) : Composed (spanWhile test) := .map (.spanFrom _ _) _

theorem spanWhile_mention {test : Token → Bool} {f : List Token → Parse β}
    (hf : ∀ xs, Composed (f xs)) :
    Composed (Parse.spanWhile test >>= fun xs => mention xs >>= fun _ => f xs) := by
  have heq : (Parse.spanWhile test >>= fun xs => mention xs >>= fun _ => f xs) =
      (Parse.spanFrom (fun () t => if test t then some () else none) () >>= fun x =>
        mention x.1 >>= fun _ => f x.1) := by
    funext ts
    simp [Parse.spanWhile, bind_apply, pure_apply, andThen]
  rw [heq]
  exact .spanFrom_mention fun x => hf x.1

theorem many {p : Parse (Option α)} (hp : Composed p) : Composed (many p) :=
  .map (.loop (.cases hp (fun _ => .pure _) (.pure _))) _

end Composed

theorem composed_groupItem {g : Parse (List SyntaxTree)} (hg : Composed g) (closer : String) :
    Composed (groupItem g closer) := by
  refine .cases .peek (fun t => ?_) (.pure _)
  refine .ite (.pure _) (.ite (.map hg _) ?_)
  exact .ite .operand (.ite (.pure _) .operand)

theorem composed_group (n : Nat) : Composed (group n) := by
  induction n with
  | zero =>
    refine .cases .next (fun opener => ?_) (.pure _)
    exact .bind .noteLimit fun _ => .pure _
  | succ n ih =>
    refine .cases .next (fun opener => ?_) (.pure _)
    refine .bind (.many (composed_groupItem ih _)) fun inner => ?_
    exact .cases (.accept _) (fun _ => .pure _) (.bind (.note nofun) fun _ => .pure _)

theorem composed_expressionItem (n : Nat) : Composed (expressionItem n) := by
  refine .cases .peek (fun t => ?_) (.pure _)
  refine .ite (.map (composed_group n) _) ?_
  exact .ite (.pure _) .operand

theorem composed_expressionItems (n : Nat) : Composed (expressionItems n) :=
  .map (.many (composed_expressionItem n)) _

theorem composed_expression (n : Nat) (c : Construct) : Composed (expression n c) :=
  .map (composed_expressionItems n) _

theorem composed_typeSpec : Composed typeSpec :=
  .bind (.spanFrom _ _) fun _ => .map (.spanWhile _) _

theorem composed_arraySize (n : Nat) : Composed (arraySize n) := by
  refine .cases (.accept _) (fun opener => ?_) (.pure _)
  refine .bind (composed_expression n _) fun size => ?_
  exact .cases (.expect _ _) (fun _ => .pure _) (.pure _)

theorem composed_initializerList : Composed initializerList := by
  refine .bind .here fun line => .spanFrom_mention fun x => ?_
  exact .ite (.bind (.note nofun) fun _ => .pure _) (.pure _)

theorem composed_initializer (n : Nat) : Composed (initializer n) := by
  refine .cases (.accept _) (fun assign => ?_) (.pure _)
  refine .bind .peek fun o => ?_
  exact .ite (.map composed_initializerList _) (.map (composed_expression n _) _)

theorem composed_declarator (n : Nat) : Composed (declarator n) := by
  refine .bind (.spanWhile _) fun pointer => ?_
  refine .cases (.expect _ _) (fun name => ?_) (.pure _)
  refine .cases (.loop (composed_arraySize n)) (fun sizes => ?_) (.pure _)
  exact .map (composed_initializer n) _

theorem composed_nextDeclarator (n : Nat) : Composed (nextDeclarator n) := by
  refine .cases (.accept _) (fun comma => ?_) (.pure _)
  exact .cases (composed_declarator n) (fun _ => .pure _) (.pure _)

theorem composed_declaration (n : Nat) : Composed (declaration n) := by
  refine .bind composed_typeSpec fun type => ?_
  refine .cases (composed_declarator n) (fun first => ?_) (.pure _)
  refine .cases (.loop (composed_nextDeclarator n)) (fun others => ?_) (.pure _)
  exact .cases (.expect _ _) (fun _ => .pure _) (.pure _)

theorem composed_emptyStatement : Composed emptyStatement :=
  .cases .next (fun _ => .pure _) (.pure _)

theorem composed_returnStatement (n : Nat) : Composed (returnStatement n) := by
  refine .cases .next (fun keyword => ?_) (.pure _)
  refine .bind (composed_expressionItems n) fun items => ?_
  exact .cases (.expect _ _) (fun _ => .pure _) (.pure _)

theorem composed_jumpTarget (keyword : Token) : Composed (jumpTarget keyword) :=
  .ite (.cases (.expect _ _) (fun _ => .pure _) (.pure _)) (.pure _)

theorem composed_jumpStatement : Composed jumpStatement := by
  refine .cases .next (fun keyword => ?_) (.pure _)
  refine .cases (composed_jumpTarget keyword) (fun target => ?_) (.pure _)
  exact .cases (.expect _ _) (fun _ => .pure _) (.pure _)

theorem composed_labelStatement : Composed labelStatement := by
  refine .cases .next (fun keyword => ?_) (.pure _)
  refine .spanWhile_mention fun run => ?_
  exact .cases (.accept _) (fun _ => .pure _)
    (.bind .here fun _ => .bind (.note nofun) fun _ => .pure _)

theorem composed_nextExpression (n : Nat) : Composed (nextExpression n) :=
  .cases (.accept _) (fun _ => .map (composed_expression n _) _) (.pure _)

theorem composed_expressionStatement (n : Nat) : Composed (expressionStatement n) := by
  refine .bind .here fun line => ?_
  refine .bind (composed_expression n _) fun first => ?_
  refine .bind (.many (composed_nextExpression n)) fun others => ?_
  exact .cases (.accept _) (fun _ => .pure _) (.bind (.note nofun) fun _ => .pure _)

theorem composed_condition (keyword : Token) : Composed (condition keyword) := by
  refine .spanFrom_mention fun run => ?_
  exact .cases (.accept _) (fun _ => .pure _) (.bind (.note nofun) fun _ => .pure _)

theorem composed_statementItem {p : Parse (Option SyntaxTree)} (hp : Composed p) :
    Composed (statementItem p) := by
  refine .cases .peek (fun t => ?_) (.pure _)
  exact .ite (.pure _) (.map (.advancing hp) _)

theorem composed_statements {p : Parse (Option SyntaxTree)} (hp : Composed p) :
    Composed (statements p) := .map (.many (composed_statementItem hp)) _

theorem composed_block {p : Parse (Option SyntaxTree)} (hp : Composed p) : Composed (block p) := by
  refine .bind .here fun line => .bind (.accept _) fun opener => ?_
  refine .bind (composed_statements hp) fun body => ?_
  exact .cases (.accept _) (fun _ => .pure _) (.bind (.note nofun) fun _ => .pure _)

/-- The rules one level further in. -/
structure Nested.Composite (inner : Nested) : Prop where
  statement : Composed inner.statement
  block : ∀ p ∈ inner.block, Composed p

theorem composed_body {inner : Nested} (hi : inner.Composite) (keyword : String) :
    Composed (body inner keyword) := by
  refine .cases .peek (fun t => ?_) (.bind (.note nofun) fun _ => .pure _)
  refine .ite ?_ (.map hi.statement _)
  cases hb : inner.block with
  | none => exact .bind .noteLimit fun _ => .pure _
  | some p => exact .map (hi.block p hb) _

theorem composed_elseBranch {inner : Nested} (hi : inner.Composite) (keyword : Token) :
    Composed (elseBranch inner keyword) :=
  .ite (.cases (.accept _) (fun _ => .map (composed_body hi _) _) (.pure _)) (.pure _)

theorem composed_controlStructure {inner : Nested} (hi : inner.Composite) :
    Composed (controlStructure inner) := by
  refine .cases .next (fun keyword => ?_) (.pure _)
  refine .cases (.expect _ _) (fun opener => ?_) (.pure _)
  refine .bind (composed_condition keyword) fun cond => ?_
  refine .bind (composed_body hi _) fun main => ?_
  exact .map (composed_elseBranch hi keyword) _

theorem composed_doWhile {inner : Nested} (hi : inner.Composite) : Composed (doWhile inner) := by
  refine .cases .next (fun keyword => ?_) (.pure _)
  refine .bind (composed_body hi _) fun main => ?_
  refine .cases (.accept _) (fun while_ => ?_)
    (.bind .here fun _ => .bind (.note nofun) fun _ => .pure _)
  refine .cases (.expect _ _) (fun opener => ?_) (.pure _)
  refine .bind (composed_condition while_) fun cond => ?_
  exact .cases (.expect _ _) (fun _ => .pure _) (.pure _)

theorem composed_skipUnhandled (t : Token) : Composed (skipUnhandled t) :=
  .bind (.note nofun) fun _ => .map .next _

theorem composed_construct {inner : Nested} (hi : inner.Composite) (t : Token) :
    Composed (construct inner t) := by
  have hother : Composed (if t.startsExpression then expressionStatement inner.room
      else skipUnhandled t) :=
    .ite (composed_expressionStatement _) (composed_skipUnhandled t)
  refine .ite (.map (composed_block hi.statement) _) ?_
  refine .ite composed_emptyStatement (.ite ?_ hother)
  refine .ite (composed_returnStatement _) (.ite (composed_doWhile hi) ?_)
  refine .ite composed_jumpStatement (.ite composed_labelStatement ?_)
  refine .ite (composed_controlStructure hi) ?_
  exact .ite (composed_declaration _) hother

theorem nested_composite {n : Nat} (h : ∀ m ≤ n, Composed (statement m)) :
    (nested n).Composite where
  statement := h n (Nat.le_refl n)
  block p hp := by
    cases n with
    | zero => simp [nested] at hp
    | succ m =>
      obtain rfl : block (statement m) = p := by simpa [nested] using hp
      exact composed_block (h m (Nat.le_succ m))

/-- The rule for statements as a choice by the token ahead. -/
theorem statement_eq (n : Nat) :
    statement n = (peek >>= fun
      | none => pure none
      | some t =>
        if t.isDirective then skipDirective >>= fun _ => pure none
        else match n with
          | 0 => noteLimit >>= fun _ => next >>= fun _ => pure none
          | m + 1 => construct (nested m) t >>= fun inner =>
            pure (inner.map fun s => .node .statement [s])) := by
  funext ts
  cases ts with
  | nil =>
    rw [statement_nil]
    rfl
  | cons t ts =>
    cases n with
    | zero => rfl
    | succ m =>
      rw [statement_succ]
      rfl

theorem composed_statement (n : Nat) : Composed (statement n) := by
  induction n using Nat.strongRecOn with
  | _ n ih =>
    rw [statement_eq]
    refine .cases .peek (fun t => ?_) (.pure _)
    refine .ite (.bind .skipDirective fun _ => .pure _) ?_
    cases n with
    | zero => exact .bind .noteLimit fun _ => .map .next _
    | succ m =>
      have hi := nested_composite fun k hk => ih k (Nat.lt_succ_of_le hk)
      exact .map (composed_construct hi t) _

theorem composed_parameters : Composed parameters := by
  refine .bind (.spanFrom _ _) fun x => ?_
  refine .cases (.accept _) (fun _ => .pure _) ?_
  exact .cases .peek (fun _ => .bind (.note nofun) fun _ => .pure _)
    (.bind (.note nofun) fun _ => .pure _)

theorem composed_functionBody : Composed functionBody := by
  refine .bind (composed_statements (composed_statement maxNesting)) fun list => ?_
  exact .cases (.accept _) (fun _ => .pure _)
    (.bind .here fun _ => .bind (.note nofun) fun _ => .pure _)

theorem composed_function : Composed function := by
  refine .bind composed_typeSpec fun type => ?_
  refine .cases (.expect _ _) (fun name => ?_) (.pure _)
  refine .cases (.expect _ _) (fun opener => ?_) (.pure _)
  refine .cases composed_parameters (fun params => ?_) (.pure _)
  refine .cases (.accept _) (fun _ => .pure _) ?_
  exact .cases (.expect _ _) (fun _ => .map composed_functionBody _) (.pure _)

theorem composed_external (t : Token) : Composed (external t) :=
  .ite (.map composed_function _) (.bind (.note nofun) fun _ => .pure _)

theorem composed_topLevelItem : Composed topLevelItem := by
  refine .cases .peek (fun t => ?_) (.pure _)
  exact .ite (.bind .skipDirective fun _ => .pure _)
    (.map (.advancing (composed_external t)) _)

theorem composed_program : Composed program := .map (.many composed_topLevelItem) _

end CAudit.Parse
