import CAudit.Proofs.Recognition

/-! Runs that end alike: they leave the same tokens and met the same identifiers, while their values
may differ. What follows such runs cannot tell them apart as long as it does not look at the values,
and no rule looks at the trees that another one built. -/
namespace CAudit.Parse

open SyntaxTree

variable {α β γ : Type}

/-- Two replies with the same rest and the same uses. -/
structure Agree (r : Reply α) (s : Reply β) : Prop where
  rest : r.rest = s.rest
  uses : r.uses = s.uses

theorem Agree.refl (r : Reply α) : Agree r r := ⟨rfl, rfl⟩

theorem Agree.trans {r : Reply α} {s : Reply β} {u : Reply γ} (h : Agree r s) (k : Agree s u) :
    Agree r u := ⟨h.rest.trans k.rest, h.uses.trans k.uses⟩

theorem Agree.symm {r : Reply α} {s : Reply β} (h : Agree r s) : Agree s r :=
  ⟨h.rest.symm, h.uses.symm⟩

/-- A rule whose rest and uses do not depend on an earlier value. -/
def Blind (f : α → Parse β) : Prop := ∀ a b ts, Agree (f a ts) (f b ts)

theorem blind_pure (g : α → β) : Blind fun a => (pure (g a) : Parse β) := fun _ _ _ => ⟨rfl, rfl⟩

theorem agree_bind {δ : Type} {p : Parse α} {q : Parse γ} {f : α → Parse β} {g : γ → Parse δ}
    (hfg : ∀ a c ts, Agree (f a ts) (g c ts)) {ts us : List Token} (h : Agree (p ts) (q us)) :
    Agree ((p >>= f) ts) ((q >>= g) us) := by
  have hnext := hfg (p ts).value (q us).value (p ts).rest
  rw [h.rest] at hnext
  constructor
  · rw [bind_apply, bind_apply]
    simp only [andThen, h.rest]
    exact hnext.rest
  · rw [bind_apply, bind_apply]
    simp only [andThen, h.rest, h.uses]
    rw [hnext.uses]

theorem blind_bind {p : Parse γ} {f : α → γ → Parse β} (hf : ∀ c, Blind fun a => f a c) :
    Blind fun a => p >>= f a := by
  intro a b ts
  have h := hf (p ts).value a b (p ts).rest
  exact ⟨h.rest, congrArg ((p ts).uses ++ ·) h.uses⟩

/-- What a rule gives is only wrapped. -/
theorem agree_map {p : Parse α} (g : α → β) (ts : List Token) :
    Agree ((do return g (← p)) ts) (p ts) :=
  ⟨rfl, List.append_nil _⟩

/-- Two runs that first do the same, cleanly and with the same uses. -/
theorem agree_bind_clean {p : Parse α} {f : α → Parse β} {ts us x y : List Token} {a : α}
    (hx : Clean p ts a x) (hy : Clean p us a y) (hu : (p ts).uses = (p us).uses)
    (h : Agree (f a x) (f a y)) : Agree ((p >>= f) ts) ((p >>= f) us) := by
  obtain ⟨hxv, hxr, -⟩ := hx
  obtain ⟨hyv, hyr, -⟩ := hy
  constructor
  · rw [bind_apply, bind_apply]
    simp only [andThen, hxv, hxr, hyv, hyr]
    exact h.rest
  · rw [bind_apply, bind_apply]
    simp only [andThen, hxv, hxr, hyv, hyr, hu, h.uses]

section

variable {f : Option Token → Parse β} {t : Token} {x y : List Token}

theorem agree_next (h : Agree (f (some t) x) (f (some t) y)) :
    Agree ((next >>= f) (t :: x)) ((next >>= f) (t :: y)) := h

theorem agree_here {f : Option Nat → Parse β} {ts : List Token} :
    Agree ((here >>= f) ts) (f (ts.head?.map (·.line)) ts) := ⟨rfl, rfl⟩

theorem agree_accepted {test : Token → Bool} (ht : test t = true) :
    Agree ((accept test >>= f) (t :: x)) (f (some t) x) := by
  constructor <;> simp [bind_apply, accept, ht, andThen]

theorem agree_accept {test : Token → Bool} (ht : test t = true)
    (h : Agree (f (some t) x) (f (some t) y)) :
    Agree ((accept test >>= f) (t :: x)) ((accept test >>= f) (t :: y)) :=
  (agree_accepted ht).trans (h.trans (agree_accepted ht).symm)

theorem agree_expect {test : Token → Bool} {message : String} (ht : test t = true)
    (h : Agree (f (some t) x) (f (some t) y)) :
    Agree ((expect test message >>= f) (t :: x)) ((expect test message >>= f) (t :: y)) := by
  refine agree_bind_clean ?_ ?_ ?_ h <;>
    simp [Clean, expect, bind_apply, pure_apply, accept, andThen, ht]

end

/-- The uses of a clean run are those that its ledger gives for the value. -/
theorem Clean.uses {p : Parse α} {ts rest : List Token} {a : α} {post : α → Ledger}
    (h : Clean p ts a rest) (hp : Tracks ⟨[], [], true⟩ p ts post) :
    (p ts).uses = (post a).uses := by
  obtain ⟨hv, -, hn⟩ := h
  obtain ⟨front, -, -, hc⟩ := hp [] [] [] ⟨.slnil, .slnil, fun _ => ⟨rfl, rfl, rfl⟩⟩
  obtain ⟨-, -, hu⟩ := hc.whole (by simp [hn, Harmless])
  rw [← hv, hu]
  rfl

theorem agree_many_none {p : Parse (Option α)} {ts : List Token} (h : (p ts).value = none) :
    Agree (many p ts) (p ts) := by
  have hturn : turn p ts = ⟨.stop, (p ts).rest, (p ts).notes, (p ts).uses⟩ := by
    simp [turn, bind_apply, andThen, h, pure_apply]
  rw [many_apply, loop, hturn]
  exact ⟨rfl, rfl⟩

/-- A rule that gives an item and takes a token is repeated behind it. -/
theorem agree_many_some {p : Parse (Option α)} {ts : List Token} {a : α}
    (h : (p ts).value = some a) (hlt : (p ts).rest.length < ts.length) :
    Agree (many p ts) (andThen (p ts) (many p (p ts).rest)) := by
  have hturn : turn p ts = ⟨.more a, (p ts).rest, (p ts).notes, (p ts).uses⟩ := by
    simp [turn, bind_apply, andThen, h, pure_apply]
  rw [many_apply, many_apply, loop, hturn]
  simp only [hlt, if_true]
  exact ⟨rfl, rfl⟩

/-- Behind an item that is read cleanly. -/
theorem agree_many_clean {p : Parse (Option α)} {ts rest : List Token} {a : α}
    {post : Option α → Ledger} (h : Clean p ts (some a) rest)
    (hp : Tracks ⟨[], [], true⟩ p ts post) (hlt : rest.length < ts.length) :
    Agree (many p ts) (⟨(), (many p rest).rest, [], (post (some a)).uses ++ (many p rest).uses⟩ :
      Reply Unit) := by
  have huses := h.uses hp
  obtain ⟨hv, hrest, -⟩ := h
  refine (agree_many_some hv (by rw [hrest]; exact hlt)).trans ⟨?_, ?_⟩
  · simp only [andThen, hrest]
  · simp only [andThen, hrest, huses]

theorem agree_many {p : Parse (Option α)} {ts us : List Token} {a b : α}
    (hts : (p ts).value = some a) (hlt : (p ts).rest.length < ts.length)
    (hus : (p us).value = some b) (hlu : (p us).rest.length < us.length)
    (h : Agree (p ts) (p us)) : Agree (many p ts) (many p us) := by
  refine (agree_many_some hts hlt).trans (Agree.trans ?_ (agree_many_some hus hlu).symm)
  constructor
  · simp only [andThen, h.rest]
  · simp only [andThen, h.rest, h.uses]

theorem advancing_of_lt {p : Parse α} {ts : List Token} (h : (p ts).rest.length < ts.length) :
    advancing p ts = p ts := by
  simp [advancing, h]

theorem statementItem_closer {p : Parse (Option SyntaxTree)} {t : Token} {ts : List Token}
    (ht : t.isSeparator "\x7d" = true) :
    statementItem p (t :: ts) = ⟨none, t :: ts, [], []⟩ := by
  simp [statementItem, bind_apply, peek, pure_apply, andThen, ht]

theorem statementItem_cons {p : Parse (Option SyntaxTree)} {t : Token} {ts : List Token}
    (ht : t.isSeparator "\x7d" = false) (h : (p (t :: ts)).rest.length < (t :: ts).length) :
    (∃ xs, (statementItem p (t :: ts)).value = some xs) ∧
      Agree (statementItem p (t :: ts)) (p (t :: ts)) := by
  have hitem : statementItem p (t :: ts) =
      (do return some (← advancing p).toList : Parse (Option (List SyntaxTree))) (t :: ts) := by
    simp [statementItem, bind_apply, peek, andThen, ht]
  rw [hitem]
  refine ⟨⟨_, rfl⟩, ?_⟩
  have hmap := agree_map (p := advancing p) (fun o => some o.toList) (t :: ts)
  rwa [advancing_of_lt h] at hmap

/-- A list stops at a closing brace. -/
theorem agree_list_closer {p : Parse (Option SyntaxTree)} {t : Token} {ts : List Token}
    (ht : t.isSeparator "\x7d" = true) :
    Agree (many (statementItem p) (t :: ts)) (⟨(), t :: ts, [], []⟩ : Reply Unit) := by
  have hnone : (statementItem p (t :: ts)).value = none := by rw [statementItem_closer ht]
  have h := agree_many_none hnone
  rw [statementItem_closer ht] at h
  exact h.trans ⟨rfl, rfl⟩

/-- A list goes on behind its first statement. -/
theorem agree_list_cons {p : Parse (Option SyntaxTree)} {t : Token} {ts : List Token}
    (ht : t.isSeparator "\x7d" = false) (h : (p (t :: ts)).rest.length < (t :: ts).length) :
    Agree (many (statementItem p) (t :: ts))
      (andThen (p (t :: ts)) (many (statementItem p) (p (t :: ts)).rest)) := by
  obtain ⟨⟨xs, hxs⟩, hitem⟩ := statementItem_cons ht h
  have hmany := agree_many_some hxs (hitem.rest ▸ h)
  refine hmany.trans ⟨?_, ?_⟩
  · simp only [andThen, hitem.rest]
  · simp only [andThen, hitem.rest, hitem.uses]

/-- A block behind its opening brace: its list, and a closing brace if there is one. -/
theorem agree_block {p : Parse (Option SyntaxTree)} {opener : Token} {ts : List Token}
    (ho : opener.isSeparator "\x7b" = true) :
    Agree (block p (opener :: ts))
      ((many (statementItem p) >>= fun _ => accept (·.isSeparator "\x7d")) ts) := by
  unfold block
  refine agree_here.trans ((agree_accepted ho).trans (agree_bind ?_ (agree_map _ ts)))
  intro body _ us
  rw [bind_apply]
  cases (accept (·.isSeparator "\x7d") us).value <;>
    exact ⟨rfl, by simp [andThen, bind_apply, pure_apply, note]⟩

theorem opening_isSeparator (line : Nat) : (Token.opening line).isSeparator "\x7b" = true := rfl

theorem closing_isSeparator (line : Nat) : (Token.closing line).isSeparator "\x7d" = true := rfl

/-- With no level left every opening brace is dropped. -/
theorem agree_list_zero (line n : Nat) (ts : List Token) :
    Agree (many (statementItem (statement 0)) (List.replicate n (Token.opening line) ++ ts))
      (many (statementItem (statement 0)) ts) := by
  induction n with
  | zero => exact .refl _
  | succ n ih =>
    have hdrop (us : List Token) :
        (statement 0 (Token.opening line :: us)).rest = us ∧
          (statement 0 (Token.opening line :: us)).uses = [] := ⟨rfl, rfl⟩
    rw [List.replicate_succ, List.cons_append]
    obtain ⟨hrest, huses⟩ := hdrop (List.replicate n (Token.opening line) ++ ts)
    refine (agree_list_cons rfl ?_).trans ⟨?_, ?_⟩
    · rw [hrest]
      exact Nat.lt_succ_self _
    · simp only [andThen, hrest]
      exact ih.rest
    · simp only [andThen, hrest, huses, List.nil_append]
      exact ih.uses

/-- Where a level is left, a brace opens a block. -/
theorem agree_statement_opening (r line : Nat) (ts : List Token) :
    Agree (statement (r + 1) (Token.opening line :: ts))
      ((many (statementItem (statement r)) >>= fun _ => accept (·.isSeparator "\x7d")) ts) := by
  have hblock : Agree (statement (r + 1) (Token.opening line :: ts))
      (block (statement r) (Token.opening line :: ts)) := by
    rw [statement_succ]
    exact (agree_map _ _).trans (agree_map _ _)
  exact hblock.trans (agree_block (opening_isSeparator line))

/-- With `r` levels left, `n` nested empty blocks do what the closing braces do that are left over
when only `r` of the blocks are opened. -/
theorem agree_emptyBlocks (line r n : Nat) (ts : List Token) :
    Agree (many (statementItem (statement r)) (emptyBlocks line n ++ ts))
      (many (statementItem (statement r)) (List.replicate (n - r) (Token.closing line) ++ ts)) := by
  induction r generalizing n ts with
  | zero =>
    rw [emptyBlocks, List.append_assoc]
    exact agree_list_zero line n _
  | succ r ih =>
    cases n with
    | zero => simpa [emptyBlocks] using Agree.refl _
    | succ n =>
      -- The inner list stops at the first brace left over, and that brace closes the block.
      have hleft : List.replicate (n - r) (Token.closing line) ++ Token.closing line :: ts =
          Token.closing line :: (List.replicate (n - r) (Token.closing line) ++ ts) := by
        rw [← List.cons_append, ← List.replicate_succ, List.replicate_succ']
        simp
      have hinner := ih n (Token.closing line :: ts)
      rw [hleft] at hinner
      have hlist := hinner.trans (agree_list_closer (closing_isSeparator line))
      have hblock : Agree (statement (r + 1)
            (Token.opening line :: (emptyBlocks line n ++ Token.closing line :: ts)))
          (⟨(), List.replicate (n - r) (Token.closing line) ++ ts, [], []⟩ : Reply Unit) := by
        refine (agree_statement_opening r line _).trans ⟨?_, ?_⟩
        · simp only [bind_apply, andThen, hlist.rest]
          rfl
        · simp only [bind_apply, andThen, hlist.rest, hlist.uses]
          rfl
      have hcons : emptyBlocks line (n + 1) ++ ts =
          Token.opening line :: (emptyBlocks line n ++ Token.closing line :: ts) := by
        simp [emptyBlocks_succ]
      rw [hcons, Nat.add_sub_add_right]
      refine (agree_list_cons rfl ?_).trans ⟨?_, ?_⟩
      · rw [hblock.rest]
        simp only [List.length_append, List.length_replicate, List.length_cons, emptyBlocks]
        omega
      · simp only [andThen, hblock.rest]
      · simp only [andThen, hblock.rest, hblock.uses, List.nil_append]

end CAudit.Parse
