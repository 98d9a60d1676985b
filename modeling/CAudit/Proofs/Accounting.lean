import CAudit.Proofs.Ledger

/-! Every rule accounts for the tokens it takes: its value holds them in their order, it uses the
identifiers that its value holds in expression position, and it notes it when one is missing. -/
namespace CAudit.Parse

open SyntaxTree Ledger

variable {l : Ledger} {ts : List Token}

theorem tracks_operand {t : Token} : Tracks l operand (t :: ts) (itemLedger true l) := by
  refine tracks_front [t] ([t].filter (·.isIdentifier)) (q := pure (some [.leaf t])) rfl
    (.refl _) (tracks_pure (.of_eq ?_))
  cases h : t.isIdentifier <;> simp [itemLedger, Ledger.add, h]

/-- The items of a group, given that groups one level further in are tracked. -/
theorem tracks_groupItem {g : Parse (List SyntaxTree)} {closer : String}
    (hg : ∀ {l t ts}, t.opensGroup = true → Tracks l g (t :: ts) (l.add true)) :
    Tracks l (groupItem g closer) ts (itemLedger true l) := by
  refine tracks_peek ?_
  cases ts with
  | nil => exact tracks_pure (.refl _)
  | cons t ts =>
    refine tracks_ite (fun _ => tracks_pure (.refl _)) fun _ => tracks_ite (fun ho => ?_) fun _ =>
      tracks_ite (fun _ => tracks_operand) fun _ =>
      tracks_ite (fun _ => tracks_pure (.refl _)) fun _ => tracks_operand
    exact tracks_bind (hg ho) fun g rest => tracks_pure (.refl _)

theorem tracks_group (n : Nat) {t : Token} (ho : t.opensGroup = true) :
    Tracks l (group n) (t :: ts) (l.add true) := by
  have hi := Token.not_identifier_of_opensGroup ho
  induction n generalizing l t ts with
  | zero =>
    refine tracks_next (tracks_noteLimit (tracks_lost rfl ?_ ?_)) <;>
      simp [Ledger.take, Ledger.add, Ledger.lose, hi]
  | succ n ih =>
    refine tracks_next (tracks_bind (tracks_many (fun l ts => tracks_groupItem fun h =>
      ih h (Token.not_identifier_of_opensGroup h)) _ _) fun inner rest =>
      tracks_accept (fun c us _ hc => tracks_pure (.of_eq ?_)) ?_)
    · simp [Ledger.take, Ledger.add, hi, Token.not_identifier_of_separator hc]
    · refine tracks_note (tracks_pure (.of_eq ?_))
      simp [Ledger.take, Ledger.add, hi]

theorem tracks_expressionItem (n : Nat) : Tracks l (expressionItem n) ts (itemLedger true l) := by
  refine tracks_peek ?_
  cases ts with
  | nil => exact tracks_pure (.refl _)
  | cons t ts =>
    refine tracks_ite (fun ho => ?_) fun _ =>
      tracks_ite (fun _ => tracks_pure (.refl _)) fun _ => tracks_operand
    exact tracks_bind (tracks_group n ho) fun g rest => tracks_pure (.refl _)

theorem tracks_expressionItems (n : Nat) : Tracks l (expressionItems n) ts (l.add true) :=
  tracks_bind (tracks_many (fun _ _ => tracks_expressionItem n) l ts) fun _ _ =>
    tracks_pure (.refl _)

theorem tracks_expression (n : Nat) {c : Construct} (hc : holdsUses c = true) (held : Bool) :
    Tracks l (expression n c) ts (fun b => l.add held [b]) := by
  refine tracks_bind (tracks_expressionItems n) fun items rest => tracks_pure (.of_eq ?_)
  simp [Ledger.add, hc, -holdsUses_eq]

theorem tracks_typeSpec : Tracks l typeSpec ts l.take := by
  refine tracks_spanFrom fun words _ rest _ => tracks_spanWhile fun stars rest' _ =>
    tracks_pure (.of_eq ?_)
  simp [Ledger.take]

theorem tracks_arraySize (n : Nat) : Tracks l (arraySize n) ts (Turn.ledger false l) := by
  refine tracks_accept (fun o us _ _ => ?_) (tracks_pure (.refl _))
  refine tracks_bind (tracks_expression n rfl false) fun size rest =>
    tracks_expect (fun c us _ _ => tracks_pure (.of_eq ?_)) (tracks_lost rfl ?_ ?_) <;>
    simp [Turn.ledger, Ledger.take, Ledger.add, Ledger.lose]

theorem tracks_initializerList : Tracks l initializerList ts (fun b => l.add false [b]) := by
  refine tracks_here fun line => tracks_spanFrom_mention fun xs depth rest _ => ?_
  have hadd : l.use xs = l.add false [.node .initializerList (leaves xs)] := by
    simp [Ledger.use, Ledger.add, leaves]
  cases depth with
  | none => exact tracks_pure (.of_eq hadd)
  | some d => exact tracks_note (tracks_pure (.of_eq hadd))

theorem tracks_initializer (n : Nat) : Tracks l (initializer n) ts (l.add false) := by
  refine tracks_accept (fun assign us _ _ => ?_) (tracks_pure (.of_eq (by simp [Ledger.add])))
  refine tracks_peek (tracks_ite (fun _ => ?_) fun _ => ?_)
  · refine tracks_bind tracks_initializerList fun b rest => tracks_pure (.of_eq ?_)
    simp [Ledger.take, Ledger.add]
  · refine tracks_bind (tracks_expression n rfl false) fun b rest => tracks_pure (.of_eq ?_)
    simp [Ledger.take, Ledger.add]

/-- The ledger of parts of a declaration, which may have been given up. -/
def partLedger (l : Ledger) : Option (List SyntaxTree) → Ledger
  | some xs => l.add false xs
  | none => l.lose

theorem tracks_declarator (n : Nat) : Tracks l (declarator n) ts (partLedger l) := by
  refine tracks_spanWhile fun pointer rest _ => tracks_expect (fun name us _ _ => ?_) ?_
  · refine tracks_bind (tracks_loop (fun l ts => tracks_arraySize n) _ _) fun sizes rest' => ?_
    cases sizes with
    | none =>
      refine tracks_lost rfl ?_ ?_ <;>
        simp [loopLedger, partLedger, Ledger.take, Ledger.lose]
    | some sizes =>
      refine tracks_bind (tracks_initializer n) fun v rest' => tracks_pure (.of_eq ?_)
      simp [loopLedger, partLedger, Ledger.take, Ledger.add, leaves]
  · refine tracks_lost rfl ?_ ?_ <;> simp [partLedger, Ledger.take, Ledger.lose]

theorem tracks_nextDeclarator (n : Nat) : Tracks l (nextDeclarator n) ts (Turn.ledger false l) := by
  refine tracks_accept (fun comma us _ _ => ?_) (tracks_pure (.refl _))
  refine tracks_bind (tracks_declarator n) fun d rest => ?_
  cases d with
  | none =>
    refine tracks_lost rfl ?_ ?_ <;> simp [Turn.ledger, partLedger, Ledger.take, Ledger.lose]
  | some d =>
    refine tracks_pure (.of_eq ?_)
    simp [Turn.ledger, partLedger, Ledger.take, Ledger.add]

/-- The ledger of a construct, which may have been given up. -/
def treeLedger (l : Ledger) : Option SyntaxTree → Ledger
  | some b => l.add false [b]
  | none => l.lose

theorem tracks_declaration (n : Nat) : Tracks l (declaration n) ts (treeLedger l) := by
  refine tracks_bind tracks_typeSpec fun type rest => ?_
  refine tracks_bind (tracks_declarator n) fun first rest => ?_
  cases first with
  | none =>
    refine tracks_lost rfl ?_ ?_ <;> simp [treeLedger, partLedger, Ledger.take, Ledger.lose]
  | some first =>
    refine tracks_bind (tracks_loop (fun l ts => tracks_nextDeclarator n) _ _) fun others rest => ?_
    cases others with
    | none =>
      refine tracks_lost rfl ?_ ?_ <;>
        simp [treeLedger, partLedger, loopLedger, Ledger.take, Ledger.add, Ledger.lose]
    | some others =>
      refine tracks_expect (fun s us _ _ => tracks_pure (.of_eq ?_))
        (tracks_lost rfl ?_ ?_) <;>
        simp [treeLedger, partLedger, loopLedger, Ledger.take, Ledger.add, Ledger.lose, leaves]

theorem tracks_emptyStatement {t : Token} :
    Tracks l emptyStatement (t :: ts) (treeLedger l) := by
  refine tracks_next (tracks_pure (.of_eq ?_))
  simp [treeLedger, Ledger.take, Ledger.add]

theorem tracks_returnStatement (n : Nat) {t : Token} :
    Tracks l (returnStatement n) (t :: ts) (treeLedger l) := by
  refine tracks_next (tracks_bind (tracks_expressionItems n) fun items rest => ?_)
  refine tracks_expect (fun s us _ _ => tracks_pure (.of_eq ?_)) (tracks_lost rfl ?_ ?_)
  · cases items <;> simp [treeLedger, Ledger.take, Ledger.add]
  · simp [treeLedger, Ledger.take, Ledger.add, Ledger.lose]
  · simp [treeLedger, Ledger.take, Ledger.add, Ledger.lose]

theorem tracks_jumpTarget (k : Token) : Tracks l (jumpTarget k) ts (partLedger l) := by
  refine tracks_ite (fun _ => ?_) fun _ => tracks_pure (.of_eq (by simp [partLedger, Ledger.add]))
  refine tracks_expect (fun name us _ _ => tracks_pure (.of_eq ?_)) (tracks_pure (.refl _))
  simp [partLedger, Ledger.take, Ledger.add]

theorem tracks_jumpStatement {t : Token} : Tracks l jumpStatement (t :: ts) (treeLedger l) := by
  refine tracks_next (tracks_bind (tracks_jumpTarget t) fun target rest => ?_)
  cases target with
  | none =>
    refine tracks_lost rfl ?_ ?_ <;> simp [treeLedger, partLedger, Ledger.take, Ledger.lose]
  | some target =>
    refine tracks_expect (fun s us _ _ => tracks_pure (.of_eq ?_)) (tracks_lost rfl ?_ ?_) <;>
      simp [treeLedger, partLedger, Ledger.take, Ledger.add, Ledger.lose]

/-- The keyword of a label stands under the construct that holds uses, so it must not be one. -/
theorem tracks_labelStatement {t : Token} (ht : t.isIdentifier = false) :
    Tracks l labelStatement (t :: ts) (treeLedger l) := by
  refine tracks_next (tracks_spanWhile_mention fun xs rest _ => ?_)
  refine tracks_accept (fun c us _ hc => tracks_pure (.of_eq ?_)) ?_
  · simp [treeLedger, Ledger.take, Ledger.use, Ledger.add, leaves, ht,
      Token.not_identifier_of_separator hc]
  · refine tracks_here fun line => tracks_note (tracks_pure (.of_eq ?_))
    simp [treeLedger, Ledger.take, Ledger.use, Ledger.add, leaves, ht]

theorem tracks_nextExpression (n : Nat) :
    Tracks l (nextExpression n) ts (itemLedger false l) := by
  refine tracks_accept (fun comma us _ _ => ?_) (tracks_pure (.refl _))
  refine tracks_bind (tracks_expression n rfl false) fun b rest => tracks_pure (.of_eq ?_)
  simp [itemLedger, Ledger.take, Ledger.add]

theorem tracks_expressionStatement (n : Nat) :
    Tracks l (expressionStatement n) ts (treeLedger l) := by
  refine tracks_here fun line => tracks_bind (tracks_expression n rfl false) fun first rest => ?_
  refine tracks_bind (tracks_many (fun _ _ => tracks_nextExpression n) _ _) fun others rest => ?_
  refine tracks_accept (fun s us _ _ => tracks_pure (.of_eq ?_)) ?_
  · simp [treeLedger, Ledger.take, Ledger.add]
  · refine tracks_note_lose (by simp) (tracks_lost rfl ?_ ?_) <;>
      simp [treeLedger, Ledger.add, Ledger.lose]

theorem tracks_condition (k : Token) : Tracks l (condition k) ts (l.add false) := by
  refine tracks_spanFrom_mention fun xs depth rest _ => ?_
  refine tracks_accept (fun c us _ _ => tracks_pure (.of_eq ?_))
    (tracks_note (tracks_pure (.of_eq ?_)))
  · simp [Ledger.use, Ledger.take, Ledger.add, leaves]
  · simp [Ledger.use, Ledger.add, leaves]

/-- A rule for statements accounts for its tokens wherever one is left. -/
def StatementTracks (p : Parse (Option SyntaxTree)) : Prop :=
  ∀ l t ts, Tracks l p (t :: ts) (treeLedger l)

theorem tracks_statementItem {p : Parse (Option SyntaxTree)} (hp : StatementTracks p) :
    Tracks l (statementItem p) ts (itemLedger false l) := by
  refine tracks_peek ?_
  cases ts with
  | nil => exact tracks_pure (.refl _)
  | cons t ts =>
    refine tracks_ite (fun _ => tracks_pure (.refl _)) fun _ => ?_
    refine tracks_bind (tracks_advancing (hp l t ts)) fun o rest => ?_
    cases o with
    | none =>
      refine tracks_lost rfl ?_ ?_ <;> simp [treeLedger, itemLedger, Ledger.add, Ledger.lose]
    | some b => exact tracks_pure (.refl _)

theorem tracks_statements {p : Parse (Option SyntaxTree)} (hp : StatementTracks p) :
    Tracks l (statements p) ts (l.add false) :=
  tracks_bind (tracks_many (fun _ _ => tracks_statementItem hp) l ts) fun _ _ =>
    tracks_pure (.refl _)

theorem tracks_block {p : Parse (Option SyntaxTree)} (hp : StatementTracks p) :
    Tracks l (block p) ts (fun b => l.add false [b]) := by
  refine tracks_here fun line => tracks_accept (fun o us _ _ => ?_) ?_
  all_goals
    refine tracks_bind (tracks_statements hp) fun body rest =>
      tracks_accept (fun c us _ _ => tracks_pure (.of_eq ?_))
        (tracks_note (tracks_pure (.of_eq ?_))) <;>
      simp [Ledger.take, Ledger.add, leaves]

/-- The rules one level further in account for their tokens. -/
structure Nested.Tracked (inner : Nested) : Prop where
  statement : StatementTracks inner.statement
  block : ∀ p ∈ inner.block, ∀ l ts, Tracks l p ts (fun b => l.add false [b])

theorem tracks_body {inner : Nested} (hi : inner.Tracked) (keyword : String) :
    Tracks l (body inner keyword) ts (l.add false) := by
  have hnil : l = l.add false [] := by simp [Ledger.add]
  refine tracks_peek ?_
  cases ts with
  | nil => exact tracks_note (tracks_pure (.of_eq hnil))
  | cons t ts =>
    refine tracks_ite (fun _ => ?_) fun _ => ?_
    · cases hb : inner.block with
      | none =>
        refine tracks_noteLimit (tracks_lost rfl ?_ ?_) <;> simp [Ledger.add, Ledger.lose]
      | some p => exact tracks_bind (hi.block p hb _ _) fun b rest => tracks_pure (.refl _)
    · refine tracks_bind (hi.statement l t ts) fun o rest => ?_
      cases o with
      | none => refine tracks_lost rfl ?_ ?_ <;> simp [treeLedger, Ledger.add, Ledger.lose]
      | some b => exact tracks_pure (.refl _)

theorem tracks_elseBranch {inner : Nested} (hi : inner.Tracked) (k : Token) :
    Tracks l (elseBranch inner k) ts (l.add false) := by
  have hnil : l = l.add false [] := by simp [Ledger.add]
  refine tracks_ite (fun _ => ?_) fun _ => tracks_pure (.of_eq hnil)
  refine tracks_accept (fun e us _ _ => ?_) (tracks_pure (.of_eq hnil))
  refine tracks_bind (tracks_body hi _) fun bs rest => tracks_pure (.of_eq ?_)
  simp [Ledger.take, Ledger.add]

theorem tracks_controlStructure {inner : Nested} (hi : inner.Tracked) {t : Token} :
    Tracks l (controlStructure inner) (t :: ts) (treeLedger l) := by
  refine tracks_next (tracks_expect (fun o us _ _ => ?_) (tracks_lost rfl ?_ ?_))
  · refine tracks_bind (tracks_condition t) fun cond rest => tracks_bind (tracks_body hi _)
      fun main rest => tracks_bind (tracks_elseBranch hi t) fun other rest =>
      tracks_pure (.of_eq ?_)
    simp [treeLedger, Ledger.take, Ledger.add]
  all_goals simp [treeLedger, Ledger.take, Ledger.lose]

theorem tracks_doWhile {inner : Nested} (hi : inner.Tracked) {t : Token} :
    Tracks l (doWhile inner) (t :: ts) (treeLedger l) := by
  refine tracks_next (tracks_bind (tracks_body hi _) fun main rest => ?_)
  refine tracks_accept (fun w us _ _ => ?_) ?_
  · refine tracks_expect (fun o us _ _ => ?_) (tracks_lost rfl ?_ ?_)
    · refine tracks_bind (tracks_condition w) fun cond rest => tracks_expect
        (fun s us _ _ => tracks_pure (.of_eq ?_)) (tracks_lost rfl ?_ ?_) <;>
        simp [treeLedger, Ledger.take, Ledger.add, Ledger.lose]
    all_goals simp [treeLedger, Ledger.take, Ledger.add, Ledger.lose]
  · refine tracks_here fun line => tracks_note (tracks_pure (.of_eq ?_))
    simp [treeLedger, Ledger.take, Ledger.add]

theorem tracks_skipUnhandled {t : Token} :
    Tracks l (skipUnhandled t) (t :: ts) (treeLedger l) := by
  refine tracks_note_lose (by simp) (tracks_next (tracks_lost rfl ?_ ?_)) <;>
    simp [treeLedger, Ledger.take, Ledger.lose]

theorem tracks_construct {inner : Nested} (hi : inner.Tracked) {t : Token} :
    Tracks l (construct inner t) (t :: ts) (treeLedger l) := by
  refine tracks_ite (fun _ => tracks_bind (tracks_block hi.statement) fun b rest =>
    tracks_pure (.refl _)) fun _ => ?_
  refine tracks_ite (fun _ => tracks_emptyStatement) fun _ => ?_
  refine tracks_ite (fun hk => ?_) fun _ =>
    tracks_ite (fun _ => tracks_expressionStatement _) fun _ => tracks_skipUnhandled
  have ht := Token.not_identifier_of_kind (t := t) (by simp [hk])
  refine tracks_ite (fun _ => tracks_returnStatement _) fun _ => ?_
  refine tracks_ite (fun _ => tracks_doWhile hi) fun _ => ?_
  refine tracks_ite (fun _ => tracks_jumpStatement) fun _ => ?_
  refine tracks_ite (fun _ => tracks_labelStatement ht) fun _ => ?_
  refine tracks_ite (fun _ => tracks_controlStructure hi) fun _ => ?_
  refine tracks_ite (fun _ => tracks_declaration _) fun _ => ?_
  exact tracks_ite (fun _ => tracks_expressionStatement _) fun _ => tracks_skipUnhandled

theorem tracks_skipDirective {β : Type} {f : Unit → Parse β} {t : Token} {post : β → Ledger}
    (h : Tracks (l.take [t]).lose (f ()) ts post) :
    Tracks l (skipDirective >>= f) (t :: ts) post := by
  have heq : (skipDirective >>= f) (t :: ts) = (next >>= fun _ => note (some t.line)
      .skippedPreprocessor ("Skipping preprocessor directive: " ++ Text.trimmed t.lexeme) >>= f)
      (t :: ts) := rfl
  unfold Tracks
  rw [heq]
  exact tracks_next (tracks_note_lose (by simp) h)

theorem nested_tracked {n : Nat} (h : ∀ m ≤ n, StatementTracks (statement m)) :
    (nested n).Tracked where
  statement := h n (Nat.le_refl n)
  block p hp l ts := by
    cases n with
    | zero => simp [nested] at hp
    | succ m =>
      obtain rfl : block (statement m) = p := by simpa [nested] using hp
      exact tracks_block (h m (Nat.le_succ m))

theorem tracks_statement (n : Nat) : StatementTracks (statement n) := by
  induction n using Nat.strongRecOn with
  | _ n ih =>
    intro l t ts
    have hdrop : (l.take [t]).lose.Drops (treeLedger l none) := by
      refine .of_not_whole rfl ?_ ?_ <;> simp [treeLedger, Ledger.take, Ledger.lose]
    unfold Tracks
    cases n with
    | zero =>
      rw [statement_zero]
      exact tracks_ite (fun _ => tracks_skipDirective (tracks_pure hdrop)) fun _ =>
        tracks_noteLimit (tracks_next (tracks_pure hdrop))
    | succ n =>
      rw [statement_succ]
      refine tracks_ite (fun _ => tracks_skipDirective (tracks_pure hdrop)) fun _ => ?_
      have htracked := nested_tracked fun m hm => ih m (Nat.lt_succ_of_le hm)
      refine tracks_bind (tracks_construct htracked) fun o rest => ?_
      cases o with
      | none => exact tracks_pure (.refl _)
      | some b => exact tracks_pure (.of_eq (by simp [treeLedger, Ledger.add]))

theorem tracks_parameters : Tracks l parameters ts (partLedger l) := by
  refine tracks_spanFrom fun xs depth rest _ => ?_
  refine tracks_accept (fun c us _ _ => tracks_pure (.of_eq ?_)) (tracks_peek ?_)
  · simp [partLedger, Ledger.take, Ledger.add, leaves]
  · cases rest with
    | nil =>
      refine tracks_note_lose (by simp) (tracks_lost rfl ?_ ?_) <;>
        simp [partLedger, Ledger.take, Ledger.lose]
    | cons t us =>
      refine tracks_note (tracks_pure (.of_eq ?_))
      simp [partLedger, Ledger.take, Ledger.add, leaves]

theorem tracks_functionBody : Tracks l functionBody ts (l.add false) := by
  refine tracks_bind (tracks_statements (tracks_statement maxNesting)) fun list rest => ?_
  refine tracks_accept (fun c us _ _ => tracks_pure (.of_eq ?_))
    (tracks_here fun line => tracks_note (tracks_pure (.of_eq ?_))) <;>
    simp [Ledger.take, Ledger.add]

theorem tracks_function : Tracks l function ts (treeLedger l) := by
  refine tracks_bind tracks_typeSpec fun type rest => ?_
  refine tracks_expect (fun name us _ _ => ?_) (tracks_lost rfl ?_ ?_)
  · refine tracks_expect (fun o us _ _ => ?_) (tracks_lost rfl ?_ ?_)
    · refine tracks_bind tracks_parameters fun params rest => ?_
      cases params with
      | none =>
        refine tracks_lost rfl ?_ ?_ <;>
          simp [partLedger, treeLedger, Ledger.take, Ledger.lose]
      | some params =>
        refine tracks_accept (fun s us _ _ => tracks_pure (.of_eq ?_)) ?_
        · simp [partLedger, treeLedger, Ledger.take, Ledger.add, leaves]
        · refine tracks_expect (fun b us _ _ => tracks_bind tracks_functionBody fun body rest =>
            tracks_pure (.of_eq ?_)) (tracks_lost rfl ?_ ?_) <;>
            simp [partLedger, treeLedger, Ledger.take, Ledger.add, Ledger.lose, leaves]
    all_goals simp [treeLedger, Ledger.take, Ledger.lose]
  all_goals simp [treeLedger, Ledger.take, Ledger.lose]

theorem tracks_external (t : Token) : Tracks l (external t) ts (l.add false) := by
  refine tracks_ite (fun _ => tracks_bind tracks_function fun o rest => ?_) fun _ => ?_
  · cases o with
    | none => refine tracks_lost rfl ?_ ?_ <;> simp [treeLedger, Ledger.add, Ledger.lose]
    | some b => exact tracks_pure (.refl _)
  · exact tracks_note (tracks_pure (.of_eq (by simp [Ledger.add])))

theorem tracks_topLevelItem : Tracks l topLevelItem ts (itemLedger false l) := by
  refine tracks_peek ?_
  cases ts with
  | nil => exact tracks_pure (.refl _)
  | cons t ts =>
    refine tracks_ite (fun _ => tracks_skipDirective (tracks_lost rfl ?_ ?_)) fun _ => ?_
    · simp [itemLedger, Ledger.take, Ledger.add, Ledger.lose]
    · simp [itemLedger, Ledger.take, Ledger.add, Ledger.lose]
    · exact tracks_bind (tracks_advancing (tracks_external t)) fun fs rest => tracks_pure (.refl _)

theorem tracks_program : Tracks l program ts (fun b => l.add false [b]) := by
  refine tracks_bind (tracks_many (fun _ _ => tracks_topLevelItem) l ts) fun fs rest =>
    tracks_pure (.of_eq ?_)
  simp [Ledger.add]

end CAudit.Parse
