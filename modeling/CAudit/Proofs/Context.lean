import CAudit.Proofs.Place
import CAudit.Proofs.Agreement

/-! What stands around a place. Reading a source up to a place does the same whatever follows the
place, and what is read after the list of statements there depends on that list only by the tokens
it leaves. So two sequels that the list cannot tell apart cannot be told apart by the whole. -/
namespace CAudit.Parse

open Grammar SyntaxTree

variable {α β : Type}

/-- Two sequels that a list of statements with `r` levels left cannot tell apart. Neither goes on
with an `else` that a statement in front could take. -/
structure Interchangeable (r : Nat) (x y : List Token) : Prop where
  agree : Agree (many (statementItem (statement r)) x) (many (statementItem (statement r)) y)
  left : x.head?.any (·.isKeyword "else") = false
  right : y.head?.any (·.isKeyword "else") = false

/-- Behind the tokens `pre` a rule cannot tell interchangeable sequels apart. -/
def Carries (p : Parse α) (r : Nat) (pre : List Token) : Prop :=
  ∀ x y, Interchangeable r x y → Agree (p (pre ++ x)) (p (pre ++ y))

/-- A rule that starts at the tokens `pre` takes one of them at least. -/
def Advances (p : Parse α) (pre : List Token) : Prop :=
  ∀ x, (p (pre ++ x)).rest.length < (pre ++ x).length

def BeginsWith (ts : List Token) : Prop := ∃ t us, ts = t :: us ∧ Begins t

theorem BeginsWith.append {ts : List Token} (h : BeginsWith ts) (us : List Token) :
    BeginsWith (ts ++ us) := by
  obtain ⟨t, vs, rfl, ht⟩ := h
  exact ⟨t, vs ++ us, rfl, ht⟩

theorem BeginsWith.not_else {ts : List Token} (h : BeginsWith ts) :
    ts.head?.any (·.isKeyword "else") = false := by
  obtain ⟨t, us, rfl, ht⟩ := h
  simpa using ht.notElse

def Shrinks (p : Parse α) : Prop := ∀ ts, (p ts).rest <:+ ts

theorem shrinks_pure (a : α) : Shrinks (pure a : Parse α) := fun _ => List.suffix_rfl

theorem suffix_bind {p : Parse α} {f : α → Parse β} (hf : ∀ a, Shrinks (f a)) {ts : List Token} :
    ((p >>= f) ts).rest <:+ (p ts).rest := hf _ _

theorem shrinks_bind {p : Parse α} {f : α → Parse β} (hp : Shrinks p) (hf : ∀ a, Shrinks (f a)) :
    Shrinks (p >>= f) := fun ts => (suffix_bind hf).trans (hp ts)

theorem shrinks_accept (test : Token → Bool) : Shrinks (accept test) := by
  intro ts
  cases ts with
  | nil => exact List.suffix_rfl
  | cons t ts => cases ht : test t <;> simp [accept, ht]

theorem shrinks_note (line : Option Nat) (kind : Diagnostic.Kind) (message : String) :
    Shrinks (note line kind message) := fun _ => List.suffix_rfl

theorem shrinks_here : Shrinks here := fun _ => List.suffix_rfl

theorem shrinks_expect (test : Token → Bool) (message : String) :
    Shrinks (expect test message) := by
  refine shrinks_bind (shrinks_accept test) fun o => ?_
  cases o with
  | some t => exact shrinks_pure _
  | none => exact shrinks_bind shrinks_here fun _ => shrinks_bind (shrinks_note _ _ _) fun _ =>
      shrinks_pure _

theorem advances_next {f : Option Token → Parse β} {t : Token} (hf : Shrinks (f (some t)))
    (pre : List Token) : Advances (next >>= f) (t :: pre) := fun x =>
  Nat.lt_succ_of_le (hf (pre ++ x)).length_le

theorem tracked (n : Nat) : (nested n).Tracked := nested_tracked fun m _ => tracks_statement m

theorem advances_block (m : Nat) {opener : Token} (ho : opener.isSeparator "\x7b" = true)
    (pre : List Token) : Advances (block (statement m)) (opener :: pre) := by
  intro x
  have hlist : Shrinks (many (statementItem (statement m))) := fun ts =>
    (tracks_many (fun _ _ => tracks_statementItem (tracks_statement m)) _ ts).suffix
  have hblock : Shrinks (many (statementItem (statement m)) >>= fun _ =>
      accept (·.isSeparator "\x7d")) := shrinks_bind hlist fun _ => shrinks_accept _
  rw [List.cons_append, (agree_block ho).rest]
  exact Nat.lt_succ_of_le (hblock (pre ++ x)).length_le

theorem advances_controlStructure (n : Nat) (k : Token) (pre : List Token) :
    Advances (controlStructure (nested n)) (k :: pre) := by
  refine advances_next (shrinks_bind (shrinks_expect _ _) fun o => ?_) pre
  cases o with
  | none => exact shrinks_pure _
  | some opener =>
    refine shrinks_bind (fun _ => (tracks_condition k).suffix) fun _ => ?_
    refine shrinks_bind (fun _ => (tracks_body (tracked n) _).suffix) fun _ => ?_
    refine shrinks_bind (fun _ => (tracks_elseBranch (tracked n) k).suffix) fun _ => ?_
    exact shrinks_pure _

theorem advances_doWhile (n : Nat) (k : Token) (pre : List Token) :
    Advances (doWhile (nested n)) (k :: pre) := by
  refine advances_next (shrinks_bind (fun _ => (tracks_body (tracked n) _).suffix)
    fun _ => shrinks_bind (shrinks_accept _) fun o => ?_) pre
  cases o with
  | none => exact shrinks_bind shrinks_here fun _ => shrinks_bind (shrinks_note _ _ _) fun _ =>
      shrinks_pure _
  | some while_ =>
    refine shrinks_bind (shrinks_expect _ _) fun o => ?_
    cases o with
    | none => exact shrinks_pure _
    | some opener =>
      refine shrinks_bind (fun _ => (tracks_condition while_).suffix) fun _ => ?_
      refine shrinks_bind (shrinks_expect _ _) fun o => ?_
      cases o <;> exact shrinks_pure _

/-- A place inside a statement of `n` levels leaves `r` levels, and the rule for statements carries
interchangeable sequels from there. -/
def Passes (n : Nat) : Prop :=
  ∀ {b : SyntaxTree} {d : Nat} {pre post : List Token}, Statement n b → Place d b pre post →
    BeginsWith pre ∧ BeginsWith post ∧ Advances (statement n) pre ∧
      ∃ r, n = r + d ∧ Carries (statement n) r pre

theorem agree_list_same {p : Parse (Option SyntaxTree)} {t : Token} {ts us : List Token}
    (ht : t.isSeparator "\x7d" = false) (hlt : (p (t :: ts)).rest.length < (t :: ts).length)
    (hlu : (p (t :: us)).rest.length < (t :: us).length) (h : Agree (p (t :: ts)) (p (t :: us))) :
    Agree (many (statementItem p) (t :: ts)) (many (statementItem p) (t :: us)) := by
  refine (agree_list_cons ht hlt).trans (Agree.trans ?_ (agree_list_cons ht hlu).symm)
  constructor
  · simp only [andThen, h.rest]
  · simp only [andThen, h.rest, h.uses]

/-- A list goes on behind a statement that is read cleanly. -/
theorem agree_list_statement {m : Nat} {b : SyntaxTree} (hb : Statement m b) {ts us : List Token}
    (hts : ts.head?.any (·.isKeyword "else") = false)
    (hus : us.head?.any (·.isKeyword "else") = false)
    (h : Agree (many (statementItem (statement m)) ts) (many (statementItem (statement m)) us)) :
    Agree (many (statementItem (statement m)) (b.tokens ++ ts))
      (many (statementItem (statement m)) (b.tokens ++ us)) := by
  obtain ⟨t, vs, htokens, ht⟩ := statement_first hb
  have hstep {z : List Token} (hz : z.head?.any (·.isKeyword "else") = false) :
      Agree (many (statementItem (statement m)) (b.tokens ++ z))
        (⟨(), (many (statementItem (statement m)) z).rest, [],
          (itemLedger false ⟨[], [], true⟩ (some [b])).uses ++
            (many (statementItem (statement m)) z).uses⟩ : Reply Unit) := by
    refine agree_many_clean ?_ (tracks_statementItem (tracks_statement m)) ?_
    · exact (clean_statementItem_some (runs_statement m)).2 ⟨b, rfl, hb, rfl, fun _ => hz⟩
    · rw [htokens]
      simp only [List.length_cons, List.length_append]
      omega
  constructor
  · rw [(hstep hts).rest, (hstep hus).rest]
    exact h.rest
  · rw [(hstep hts).uses, (hstep hus).uses, h.uses]

theorem not_place_leaf {d : Nat} {t : Token} {pre post : List Token} :
    ¬ Place d (.leaf t) pre post := nofun

theorem not_placeAmong_leaves {c : Construct} {d : Nat} {ts pre post : List Token} :
    ¬ PlaceAmong c d (ts.map .leaf) pre post := by
  induction ts generalizing pre with
  | nil => exact not_placeAmong_nil
  | cons t ts ih =>
    intro h
    cases h with
    | first h => exact not_place_leaf h
    | later h => exact ih h

theorem levels_of_list {c : Construct} (hc : holdsStatements c = true) (b : SyntaxTree) :
    levels c b = 0 := by
  cases c <;> simp [holdsStatements] at hc <;> rfl

/-- The step of a list: a place in it is in front of a statement, inside one, or further on. -/
theorem list_carries {m : Nat} (hm : Passes m) {c : Construct} (hc : holdsStatements c = true)
    {forest : List SyntaxTree} (hall : ∀ b ∈ forest, Statement m b) {closers : List Token} {d : Nat}
    {pre post : List Token} (h : PlaceAmong c d (forest ++ closers.map .leaf) pre post) :
    (pre = [] ∨ BeginsWith pre) ∧ BeginsWith post ∧
      ∃ r, m = r + d ∧ Carries (many (statementItem (statement m))) r pre := by
  induction forest generalizing pre with
  | nil => exact absurd h not_placeAmong_leaves
  | cons b forest ih =>
    obtain ⟨hb, hforest⟩ := List.forall_mem_cons.1 hall
    cases h with
    | here _ =>
      obtain ⟨t, us, htokens, ht⟩ := statement_first hb
      rw [tokens_node] at htokens
      refine ⟨.inl rfl, ?_, m, rfl, fun x y hxy => hxy.agree⟩
      rw [htokens]
      exact ⟨t, _, rfl, ht⟩
    | first h =>
      obtain ⟨hpre, hpost, hadv, r, rfl, hcarry⟩ := hm hb h
      refine ⟨.inr hpre, hpost.append _, r, by rw [levels_of_list hc, Nat.add_zero], ?_⟩
      intro x y hxy
      obtain ⟨t, us, rfl, ht⟩ := hpre
      exact agree_list_same ht.notCloser (hadv x) (hadv y) (hcarry x y hxy)
    | @later _ _ _ _ before _ h =>
      obtain ⟨hbefore, hpost, r, hr, hcarry⟩ := ih hforest h
      obtain ⟨t, us, htokens, ht⟩ := statement_first hb
      refine ⟨.inr ⟨t, us ++ before, by rw [htokens, List.cons_append], ht⟩, hpost, r, hr, ?_⟩
      intro x y hxy
      have helse {z : List Token} (hz : z.head?.any (·.isKeyword "else") = false) :
          (before ++ z).head?.any (·.isKeyword "else") = false := by
        rcases hbefore with rfl | hbegin
        · exact hz
        · exact (hbegin.append z).not_else
      simp only [List.append_assoc]
      exact agree_list_statement hb (helse hxy.left) (helse hxy.right) (hcarry x y hxy)

theorem block_carries {m : Nat} (hm : Passes m) {b : SyntaxTree} (hb : Block m b) {d : Nat}
    {pre post : List Token} (h : Place d b pre post) :
    ∃ opener before, opener.isSeparator "\x7b" = true ∧ pre = opener :: before ∧ BeginsWith post ∧
      ∃ r, m = r + d ∧ Carries (block (statement m)) r pre := by
  obtain @⟨_, opener, closer, forest, ho, hall, -⟩ := hb
  obtain ⟨h⟩ := h
  cases h with
  | first h => exact absurd h not_place_leaf
  | @later _ _ _ _ before _ h =>
    obtain ⟨-, hpost, r, hr, hcarry⟩ := @list_carries m hm .block rfl forest hall [closer] d _ _ h
    refine ⟨opener, before, ho, by simp, hpost, r, hr, fun x y hxy => ?_⟩
    simp only [tokens_leaf, List.cons_append, List.nil_append]
    refine (agree_block ho).trans (Agree.trans ?_ (agree_block ho).symm)
    exact agree_bind (fun _ _ us => .refl (accept _ us)) (hcarry x y hxy)

theorem agree_statement_succ {n : Nat} {t : Token} (ht : t.isDirective = false) (ts : List Token) :
    Agree (statement (n + 1) (t :: ts)) (construct (nested n) t (t :: ts)) := by
  rw [statement_succ]
  simp only [ht, Bool.false_eq_true, if_false]
  exact agree_map _ _

theorem body_carries {n : Nat} (hs : ∀ m ≤ n, Passes m) {b : SyntaxTree} (hb : Body n b) {d : Nat}
    {pre post : List Token} (h : Place d b pre post) :
    BeginsWith post ∧ ∃ r, n = r + (d + levels .controlStructure b) ∧
      ∀ kw, Carries (body (nested n) kw) r pre := by
  cases hb with
  | @braced m _ hb =>
    obtain ⟨opener, before, ho, rfl, hpost, r, hr, hcarry⟩ :=
      block_carries (hs m (Nat.le_succ m)) hb h
    obtain ⟨-, -, -⟩ := hb
    refine ⟨hpost, r, by rw [hr]; rfl, fun kw x y hxy => ?_⟩
    have hbody (z : List Token) : Agree (body (nested (m + 1)) kw (opener :: z))
        (block (statement m) (opener :: z)) := by
      have heq : body (nested (m + 1)) kw (opener :: z) =
          (do return [← block (statement m)] : Parse (List SyntaxTree)) (opener :: z) := by
        simp [body, bind_apply, peek, andThen, ho, nested]
      rw [heq]
      exact agree_map _ _
    exact (hbody _).trans ((hcarry x y hxy).trans (hbody _).symm)
  | @single _ c hc hb =>
    obtain ⟨⟨t, us, rfl, -⟩, hpost, -, r, hr, hcarry⟩ := hs n (Nat.le_refl n) hb h
    refine ⟨hpost, r, hr, fun kw x y hxy => ?_⟩
    have ht : t.isSeparator "\x7b" = false := by
      obtain ⟨hconstruct⟩ := hb
      obtain ⟨u, vs, hu, -, hbrace⟩ := construct_first hconstruct
      have hsplit := h.tokens_eq
      obtain ⟨rfl, -⟩ : u = t ∧ vs = us ++ post := by simpa [hu] using hsplit
      cases hu' : u.isSeparator "\x7b" with
      | false => rfl
      | true => exact ((hbrace.1 hu').elim hc).elim
    have hbody (z : List Token) : Agree (body (nested n) kw (t :: z)) (statement n (t :: z)) := by
      have heq : body (nested n) kw (t :: z) =
          (do return (← statement n).toList : Parse (List SyntaxTree)) (t :: z) := by
        simp [body, bind_apply, peek, andThen, ht, nested]
      rw [heq]
      exact agree_map _ _
    exact (hbody _).trans ((hcarry x y hxy).trans (hbody _).symm)

/-- Two runs that first read the same condition. -/
theorem agree_condition {k closer : Token} {run x y : List Token}
    {f : List SyntaxTree → Parse β} (hr : Condition run) (hc : closer.isSeparator ")" = true)
    (h : Agree (f [.node .condition (run.map .leaf), .leaf closer] x)
      (f [.node .condition (run.map .leaf), .leaf closer] y)) :
    Agree ((condition k >>= f) (run ++ closer :: x))
      ((condition k >>= f) (run ++ closer :: y)) := by
  have hclean (z : List Token) : Clean (condition k) (run ++ closer :: z)
      [.node .condition (run.map .leaf), .leaf closer] z :=
    clean_condition.2 ⟨run, closer, hr, hc, rfl, rfl⟩
  refine agree_bind_clean (hclean x) (hclean y) ?_ h
  rw [(hclean x).uses (tracks_condition k), (hclean y).uses (tracks_condition k)]

theorem control_carries {n r : Nat} {k opener closer : Token} {run before : List Token}
    (ho : opener.isSeparator "(" = true) (hr : Condition run) (hc : closer.isSeparator ")" = true)
    (hbody : Carries (body (nested n) k.lexeme) r before) :
    Carries (controlStructure (nested n)) r (k :: opener :: (run ++ closer :: before)) := by
  intro x y hxy
  simp only [List.cons_append, List.append_assoc]
  refine agree_next (agree_expect ho (agree_condition hr hc (agree_bind ?_ (hbody x y hxy))))
  exact blind_bind fun _ => blind_pure _

theorem else_carries {n r : Nat} {k opener closer other : Token} {run before : List Token}
    {b : SyntaxTree} (hk : k.lexeme = "if") (ho : opener.isSeparator "(" = true)
    (hr : Condition run) (hc : closer.isSeparator ")" = true) (hb : Body n b)
    (hclosed : ¬ EndsOpen b) (he : other.isKeyword "else" = true)
    (hbody : Carries (body (nested n) "else") r before) :
    Carries (controlStructure (nested n)) r
      (k :: opener :: (run ++ closer :: (b.tokens ++ other :: before))) := by
  intro x y hxy
  simp only [List.cons_append, List.append_assoc]
  refine agree_next (agree_expect ho (agree_condition hr hc ?_))
  have hclean (z : List Token) : Clean (body (nested n) k.lexeme) (b.tokens ++ other :: z) [b]
      (other :: z) :=
    (clean_body fun m _ => runs_statement m).2 ⟨b, rfl, hb, rfl, fun h => absurd h hclosed⟩
  refine agree_bind_clean (hclean _) (hclean _) ?_ (agree_bind (blind_pure _) ?_)
  · rw [(hclean _).uses (tracks_body (tracked n) _),
      (hclean _).uses (tracks_body (tracked n) _)]
  · simp only [elseBranch, hk, beq_self_eq_true, if_true]
    exact agree_accept he ((agree_map _ _).trans ((hbody x y hxy).trans (agree_map _ _).symm))

theorem doWhile_carries {n r : Nat} {k : Token} {before : List Token}
    (hbody : Carries (body (nested n) "do") r before) :
    Carries (doWhile (nested n)) r (k :: before) := by
  intro x y hxy
  refine agree_next (agree_bind (blind_bind fun o => ?_) (hbody x y hxy))
  cases o with
  | none => exact blind_bind fun _ => blind_bind fun _ => blind_pure _
  | some while_ =>
    refine blind_bind fun o => ?_
    cases o with
    | none => exact fun _ _ _ => .refl _
    | some opener =>
      refine blind_bind fun cond => blind_bind fun o => ?_
      cases o with
      | none => exact fun _ _ _ => .refl _
      | some semicolon => exact blind_pure _

/-- What `Passes` says, for the construct that a statement wraps. -/
def PassesConstruct (n d : Nat) (pre post : List Token) : Prop :=
  ∃ t us, pre = t :: us ∧ Begins t ∧ BeginsWith post ∧ Advances (construct (nested n) t) pre ∧
    ∃ r, n = r + d ∧ Carries (construct (nested n) t) r pre

theorem control_passes {n d r : Nat} {k : Token} {us post : List Token} (hk : isControl k = true)
    (hpost : BeginsWith post) (hr : n = r + d)
    (hcarry : Carries (controlStructure (nested n)) r (k :: us)) :
    PassesConstruct n d (k :: us) post := by
  obtain ⟨hkind, hl⟩ := isControl_iff.1 hk
  have hbegins : Begins k := begins_keyword hkind fun h => by simp [h, Token.controlKeywords] at hl
  refine ⟨k, us, rfl, hbegins, hpost, ?_, r, hr, ?_⟩
  · rw [construct_control hk]
    exact advances_controlStructure n k us
  · rw [construct_control hk]
    exact hcarry

theorem isControl_of_if {k : Token} (hk : k.isKeyword "if" = true) : isControl k = true :=
  isControl_iff.2 ⟨Token.keyword_kind hk, by simp [Token.keyword_lexeme hk, Token.controlKeywords]⟩

theorem placeAmong_control {d : Nat} {k opener closer : Token} {run pre post : List Token}
    {back : List SyntaxTree} :
    PlaceAmong .controlStructure d (.leaf k :: .leaf opener :: .node .condition (run.map .leaf) ::
        .leaf closer :: back) pre post ↔
      ∃ before, PlaceAmong .controlStructure d back before post ∧
        pre = k :: opener :: (run ++ closer :: before) := by
  have h := @placeAmong_skip .controlStructure rfl d
    [.leaf k, .leaf opener, .node .condition (run.map .leaf), .leaf closer] back
    (by simp [holdsStatements]) pre post
  simpa using h

theorem construct_passes {n : Nat} (hs : ∀ m ≤ n, Passes m) {b : SyntaxTree}
    (hb : Grammar.Construct n b) {d : Nat} {pre post : List Token} (h : Place d b pre post) :
    PassesConstruct n d pre post := by
  have hplain : holdsStatements .controlStructure = false := rfl
  cases hb with
  | block hb =>
    obtain ⟨opener, before, ho, rfl, hpost, r, hr, hcarry⟩ :=
      block_carries (hs n (Nat.le_refl n)) hb h
    have hblock (z : List Token) : Agree (construct (nested n) opener (opener :: z))
        (block (statement n) (opener :: z)) := by
      simp only [construct, ho, if_true]
      exact agree_map _ _
    refine ⟨opener, before, rfl, begins_separator ho (by decide), hpost, fun x => ?_, r, hr, ?_⟩
    · rw [List.cons_append, (hblock _).rest]
      exact advances_block n ho before x
    · intro x y hxy
      exact (hblock _).trans ((hcarry x y hxy).trans (hblock _).symm)
  | empty _ => exact absurd h (not_place_of_nests (by simp [holdsStatements]))
  | returnNothing _ _ => exact absurd h (not_place_of_nests (by simp [holdsStatements]))
  | returnValue _ _ hi _ =>
    exact absurd h (not_place_of_nests (by simp [holdsStatements, items_nests hi]))
  | jump _ _ => exact absurd h (not_place_of_nests (by simp [holdsStatements]))
  | goto _ _ _ => exact absurd h (not_place_of_nests (by simp [holdsStatements]))
  | label _ _ _ => exact absurd h (not_place_of_nests (by simp [holdsStatements]))
  | declaration _ hf hm _ =>
    exact absurd h (not_place_of_nests (by
      simp [holdsStatements, declarator_nests hf, many_nests nextDeclarator_nests hm]))
  | expression _ hi hm _ =>
    have hi := items_nests hi
    exact absurd h (not_place_of_nests (by
      simp_all [holdsStatements, many_nests nextExpression_nests hm]))
  | @control _ k opener closer run b hk ho hr hc hb =>
    obtain ⟨hplace⟩ := h
    obtain ⟨before, hrest, rfl⟩ := placeAmong_control.1 hplace
    obtain ⟨e, after, hbody, rfl, rfl⟩ | ⟨_, hnil, -⟩ := (placeAmong_cons hplain).1 hrest
    · obtain ⟨hpost, r, hlevels, hcarry⟩ := body_carries hs hb hbody
      exact control_passes hk (hpost.append _) hlevels (control_carries ho hr hc (hcarry _))
    · exact absurd hnil not_placeAmong_nil
  | @ifElse _ k opener closer other run b b' hk ho hr hc hb hclosed he hb' =>
    have hcontrol := isControl_of_if hk
    obtain ⟨hplace⟩ := h
    obtain ⟨before, hrest, rfl⟩ := placeAmong_control.1 hplace
    obtain ⟨e, after, hbody, rfl, rfl⟩ | ⟨before, helse, rfl⟩ := (placeAmong_cons hplain).1 hrest
    · obtain ⟨hpost, r, hlevels, hcarry⟩ := body_carries hs hb hbody
      exact control_passes hcontrol (hpost.append _) hlevels (control_carries ho hr hc (hcarry _))
    · obtain ⟨before, hother, rfl⟩ := (placeAmong_skip hplain [.leaf other] [b'] rfl).1 helse
      obtain ⟨e, after, hbody, rfl, rfl⟩ | ⟨_, hnil, -⟩ := (placeAmong_cons hplain).1 hother
      · obtain ⟨hpost, r, hlevels, hcarry⟩ := body_carries hs hb' hbody
        exact control_passes hcontrol (hpost.append _) hlevels
          (else_carries (Token.keyword_lexeme hk) ho hr hc hb hclosed he (hcarry _))
      · exact absurd hnil not_placeAmong_nil
  | @doWhile _ k opener closer while_ semicolon run b hk hb hw ho hr hc hsemi =>
    obtain ⟨hplace⟩ := h
    obtain ⟨before, hrest, rfl⟩ := (placeAmong_skip hplain [.leaf k] _ rfl).1 hplace
    obtain ⟨e, after, hbody, rfl, rfl⟩ | ⟨_, hother, -⟩ := (placeAmong_cons hplain).1 hrest
    · obtain ⟨hpost, r, hlevels, hcarry⟩ := body_carries hs hb hbody
      have hdo : construct (nested n) k = doWhile (nested n) := by
        rw [construct_keyword (Token.keyword_kind hk), Token.keyword_lexeme hk]
        rfl
      have hbegins : Begins k :=
        begins_keyword (Token.keyword_kind hk) (by rw [Token.keyword_lexeme hk]; decide)
      refine ⟨k, before, rfl, hbegins, hpost.append _, ?_, r, hlevels, ?_⟩
      · rw [hdo]
        exact advances_doWhile n k before
      · rw [hdo]
        exact doWhile_carries (hcarry _)
    · have hflat := hother.nests
      simp [holdsStatements] at hflat

/-- Every rule for statements passes places on. -/
theorem passes_statement (n : Nat) : Passes n := by
  induction n using Nat.strongRecOn with
  | _ n ih =>
    intro b d pre post hb h
    obtain @⟨n, c, hc⟩ := hb
    obtain ⟨h⟩ := h
    obtain ⟨e, after, hplace, rfl, rfl⟩ | ⟨_, hnil, -⟩ := (placeAmong_cons rfl).1 h
    · obtain ⟨t, us, rfl, ht, hpost, hadv, r, hr, hcarry⟩ :=
        construct_passes (fun m hm => ih m (Nat.lt_succ_of_le hm)) hc hplace
      refine ⟨⟨t, us, rfl, ht⟩, hpost.append _, fun x => ?_, r, by rw [hr]; rfl, fun x y hxy => ?_⟩
      · rw [List.cons_append, (agree_statement_succ ht.notDirective _).rest]
        exact hadv x
      · exact (agree_statement_succ ht.notDirective _).trans
          ((hcarry x y hxy).trans (agree_statement_succ ht.notDirective _).symm)
    · exact absurd hnil not_placeAmong_nil

theorem functionBody_carries {forest : List SyntaxTree}
    (hall : ∀ b ∈ forest, Statement maxNesting b) {d : Nat} {pre post : List Token}
    (h : Place d (.node .functionBody forest) pre post) :
    BeginsWith post ∧ ∃ r, maxNesting = r + d ∧ Carries functionBody r pre := by
  obtain ⟨hplace⟩ := h
  rw [← List.append_nil forest] at hplace
  obtain ⟨-, hpost, r, hr, hcarry⟩ :=
    @list_carries _ (passes_statement maxNesting) .functionBody rfl _ hall [] _ _ _ hplace
  refine ⟨hpost, r, hr, fun x y hxy => ?_⟩
  have hlist := (agree_map (p := many (statementItem (statement maxNesting))) List.flatten _).trans
    ((hcarry x y hxy).trans (agree_map List.flatten _).symm)
  refine agree_bind (blind_bind fun o => ?_) hlist
  cases o with
  | some closer => exact blind_pure _
  | none => exact blind_bind fun _ => blind_bind fun _ => blind_pure _

theorem length_lt_function {ts mid type : List Token} (h : Clean typeSpec ts type mid)
    (hlt : mid.length < ts.length) : (function ts).rest.length < ts.length := by
  have hrest : (function ts).rest <:+ (typeSpec ts).rest := by
    unfold function
    refine suffix_bind fun type => shrinks_bind (shrinks_expect _ _) fun o => ?_
    cases o with
    | none => exact shrinks_pure _
    | some name =>
      refine shrinks_bind (shrinks_expect _ _) fun o => ?_
      cases o with
      | none => exact shrinks_pure _
      | some opener =>
        refine shrinks_bind (fun _ => tracks_parameters.suffix) fun o => ?_
        cases o with
        | none => exact shrinks_pure _
        | some params =>
          refine shrinks_bind (shrinks_accept _) fun o => ?_
          cases o with
          | some semicolon => exact shrinks_pure _
          | none =>
            refine shrinks_bind (shrinks_expect _ _) fun o => ?_
            cases o with
            | none => exact shrinks_pure _
            | some brace =>
              exact shrinks_bind (fun _ => tracks_functionBody.suffix) fun _ => shrinks_pure _
  rw [h.2.1] at hrest
  exact Nat.lt_of_le_of_lt hrest.length_le hlt

theorem function_carries {f : SyntaxTree} (hf : Function maxNesting f) {d : Nat}
    {pre post : List Token} (h : Place d f pre post) :
    ∃ k us, pre = k :: us ∧ k.isTypeKeyword = true ∧ BeginsWith post ∧ Advances function pre ∧
      ∃ r, maxNesting = r + d ∧ Carries function r pre := by
  cases hf with
  | declaration _ _ _ _ _ _ =>
    exact absurd h (not_place_of_nests (by simp [holdsStatements]))
  | @definition type run name opener closer begins ends forest ht hname ho hr hc hb hall he =>
    obtain ⟨hplace⟩ := h
    obtain ⟨k, us, rfl, hk⟩ := typeSpec_first ht
    have hskip := @placeAmong_skip .functionDefinition rfl d
      ((k :: us).map .leaf ++ [.leaf name, .leaf opener, .node .parameters (run.map .leaf),
        .leaf closer, .leaf begins]) [.node .functionBody forest, .leaf ends]
      (by simp [holdsStatements]) pre post
    obtain ⟨before, hrest, rfl⟩ := hskip.1 (by simpa using hplace)
    obtain ⟨e, after, hbody, rfl, rfl⟩ | ⟨_, hother, -⟩ := (placeAmong_cons rfl).1 hrest
    · obtain ⟨hpost, r, hlevels, hcarry⟩ := functionBody_carries hall hbody
      have hpre : tokensAll ((k :: us).map .leaf ++ [.leaf name, .leaf opener,
          .node .parameters (run.map .leaf), .leaf closer, .leaf begins]) ++ before =
          k :: (us ++ name :: opener :: (run ++ closer :: begins :: before)) := by simp
      have htype (z : List Token) : Clean typeSpec (k :: (us ++ name :: z)) (k :: us) (name :: z) :=
        (clean_typeSpec_named hk hname).2 ⟨ht, rfl⟩
      have hparams (z : List Token) : Clean parameters (run ++ closer :: z)
          (some [.node .parameters (run.map .leaf), .leaf closer]) z :=
        clean_parameters.2 ⟨run, closer, hr, hc, rfl, rfl⟩
      have hsemi (z : List Token) : Clean (accept (·.isSeparator ";")) (begins :: z) none
          (begins :: z) := by
        simp [Clean, accept, Token.not_separator_of_separator (m := ";") hb]
      refine ⟨k, _, hpre, hk, hpost.append _, fun x => ?_, r, hlevels, fun x y hxy => ?_⟩
      · rw [hpre]
        simp only [List.cons_append, List.append_assoc]
        refine length_lt_function (htype _) ?_
        simp only [List.length_cons, List.length_append]
        omega
      · rw [hpre]
        simp only [List.cons_append, List.append_assoc]
        refine agree_bind_clean (htype _) (htype _) ?_ (agree_expect hname (agree_expect ho ?_))
        · rw [(htype _).uses tracks_typeSpec, (htype _).uses tracks_typeSpec]
        refine agree_bind_clean (hparams _) (hparams _) ?_ ?_
        · rw [(hparams _).uses tracks_parameters, (hparams _).uses tracks_parameters]
        refine agree_bind_clean (hsemi _) (hsemi _) ?_ (agree_expect hb ?_)
        · simp [accept, Token.not_separator_of_separator (m := ";") hb]
        exact (agree_map _ _).trans ((hcarry x y hxy).trans (agree_map _ _).symm)
    · have hflat := hother.nests
      simp [holdsStatements] at hflat

/-- Outside all functions a pass over the front of a list reads a function there. -/
theorem agree_topLevelItem {k : Token} {ts : List Token} (hk : k.isTypeKeyword = true)
    (h : (function (k :: ts)).rest.length < (k :: ts).length) :
    (∃ fs, (topLevelItem (k :: ts)).value = some fs) ∧
      Agree (topLevelItem (k :: ts)) (function (k :: ts)) := by
  have hdirective : k.isDirective = false := by
    simp [Token.isDirective, (Token.isTypeKeyword_iff.1 hk).1]
  have hexternal : external k = (do return (← function).toList) := by simp [external, hk]
  have hagree := agree_map (p := function) Option.toList (k :: ts)
  rw [topLevelItem_cons]
  simp only [hdirective, Bool.false_eq_true, if_false]
  refine ⟨⟨_, rfl⟩, (agree_map _ _).trans ?_⟩
  rw [hexternal, advancing_of_lt (hagree.rest ▸ h)]
  exact hagree

theorem functions_carry {functions : List SyntaxTree}
    (hall : ∀ f ∈ functions, Function maxNesting f) {d : Nat} {pre post : List Token}
    (h : PlaceAmong .program d functions pre post) :
    BeginsWith post ∧ ∃ r, maxNesting = r + d ∧ Carries (many topLevelItem) r pre := by
  induction functions generalizing pre with
  | nil => exact absurd h not_placeAmong_nil
  | cons f functions ih =>
    obtain ⟨hf, hfunctions⟩ := List.forall_mem_cons.1 hall
    obtain ⟨e, after, hplace, rfl, rfl⟩ | ⟨before, hlater, rfl⟩ := (placeAmong_cons rfl).1 h
    · obtain ⟨k, us, rfl, hk, hpost, hadv, r, hr, hcarry⟩ := function_carries hf hplace
      refine ⟨hpost.append _, r, hr, fun x y hxy => ?_⟩
      obtain ⟨⟨_, hx⟩, hitemx⟩ := agree_topLevelItem hk (hadv x)
      obtain ⟨⟨_, hy⟩, hitemy⟩ := agree_topLevelItem hk (hadv y)
      refine agree_many hx (hitemx.rest ▸ hadv x) hy (hitemy.rest ▸ hadv y) ?_
      exact hitemx.trans ((hcarry x y hxy).trans hitemy.symm)
    · obtain ⟨hpost, r, hr, hcarry⟩ := ih hfunctions hlater
      refine ⟨hpost, r, hr, fun x y hxy => ?_⟩
      have hstep (z : List Token) : Agree (many topLevelItem (f.tokens ++ z))
          (⟨(), (many topLevelItem z).rest, [],
            (itemLedger false ⟨[], [], true⟩ (some [f])).uses ++ (many topLevelItem z).uses⟩ :
            Reply Unit) := by
        obtain ⟨k, us, htokens, -⟩ := function_first hf
        refine agree_many_clean (clean_topLevelItem_some.2 ⟨f, rfl, hf, rfl⟩) tracks_topLevelItem ?_
        rw [htokens]
        simp only [List.length_cons, List.length_append]
        omega
      have hnext := hcarry x y hxy
      simp only [List.append_assoc]
      constructor
      · rw [(hstep _).rest, (hstep _).rest]
        exact hnext.rest
      · rw [(hstep _).uses, (hstep _).uses, hnext.uses]

/-- A source as a whole cannot tell sequels apart that the list around a place cannot. -/
theorem program_carries {T : SyntaxTree} (hT : Program maxNesting T) {d : Nat}
    {pre post : List Token} (h : Place d T pre post) :
    BeginsWith post ∧ ∃ r, maxNesting = r + d ∧ Carries program r pre := by
  obtain ⟨hall⟩ := hT
  obtain ⟨hplace⟩ := h
  obtain ⟨hpost, r, hr, hcarry⟩ := functions_carry hall hplace
  refine ⟨hpost, r, hr, fun x y hxy => ?_⟩
  exact (agree_map _ _).trans ((hcarry x y hxy).trans (agree_map _ _).symm)

end CAudit.Parse
