import CAudit.Proofs.Composition

/-! Reading with more tokens behind the input. No rule looks further than one token ahead, so with
and without the sequel it does the same until it looks for a token and the shorter input has none
left. From there on the shorter run meets no identifier any more. -/
namespace CAudit

variable {α β σ : Type}

/-- The reply with more tokens behind the rest. -/
def Reply.before (r : Reply α) (more : List Token) : Reply α := { r with rest := r.rest ++ more }

namespace Parse

/-- Whatever stands behind `ts` is left there and changes nothing. -/
def Settled (p : Parse α) (ts : List Token) : Prop := ∀ more, p (ts ++ more) = (p ts).before more

/-- The rule took all of `ts`. With a sequel it meets the same identifiers first. -/
structure Exhausts (p : Parse α) (ts : List Token) : Prop where
  rest : (p ts).rest = []
  uses : ∀ more, (p ts).uses <+: (p (ts ++ more)).uses

/-- A rule that a sequel does not change before the end of the input, and that meets nothing where
no token is left. -/
structure Prolongs (p : Parse α) : Prop where
  step : ∀ ts, Settled p ts ∨ Exhausts p ts
  rest : (p []).rest = []
  uses : (p []).uses = []

/-- A rule that is settled as soon as there is a token. -/
theorem Prolongs.of_cons {p : Parse α} (hrest : (p []).rest = []) (huses : (p []).uses = [])
    (hcons : ∀ t ts, Settled p (t :: ts)) : Prolongs p where
  step ts := by
    cases ts with
    | nil => exact .inr ⟨hrest, fun more => by rw [huses]; exact List.nil_prefix⟩
    | cons t ts => exact .inl (hcons t ts)
  rest := hrest
  uses := huses

theorem settled_pure (a : α) (ts : List Token) : Settled (pure a : Parse α) ts := fun _ => rfl

/-- A sequel does not change whether a settled rule takes a token. -/
theorem Settled.length_lt {p : Parse α} {ts : List Token} (hp : Settled p ts) (more : List Token) :
    (p (ts ++ more)).rest.length < (ts ++ more).length ↔ (p ts).rest.length < ts.length := by
  rw [hp more]
  simp only [Reply.before, List.length_append]
  omega

theorem settled_bind {p : Parse α} {f : α → Parse β} {ts : List Token} (hp : Settled p ts)
    (hf : Settled (f (p ts).value) (p ts).rest) : Settled (p >>= f) ts := by
  intro more
  have hnext := hf more
  rw [bind_apply, hp more]
  simp only [Reply.before, andThen, hnext, bind_apply]

/-- A rule that goes on where another one has settled. -/
theorem exhausts_bind {p : Parse α} {f : α → Parse β} {ts : List Token} (hp : Settled p ts)
    (hf : Exhausts (f (p ts).value) (p ts).rest) : Exhausts (p >>= f) ts where
  rest := hf.rest
  uses more := by
    rw [bind_apply, bind_apply, hp more]
    exact (List.prefix_append_right_inj _).2 (hf.uses more)

/-- A rule that goes on where another one has taken everything. -/
theorem Exhausts.bind {p : Parse α} {f : α → Parse β} {ts : List Token} (hp : Exhausts p ts)
    (hf : ∀ a, Prolongs (f a)) : Exhausts (p >>= f) ts where
  rest := by
    rw [bind_apply, andThen, hp.rest]
    exact (hf _).rest
  uses more := by
    have hnone : ((p >>= f) ts).uses = (p ts).uses := by
      rw [bind_apply, andThen, hp.rest, (hf _).uses, List.append_nil]
    rw [hnone]
    exact (hp.uses more).trans (List.prefix_append _ _)

theorem prolongs_pure (a : α) : Prolongs (pure a : Parse α) :=
  ⟨fun ts => .inl (settled_pure a ts), rfl, rfl⟩

theorem prolongs_bind {p : Parse α} {f : α → Parse β} (hp : Prolongs p)
    (hf : ∀ a, Prolongs (f a)) : Prolongs (p >>= f) where
  step ts := by
    rcases hp.step ts with hs | he
    · rcases (hf (p ts).value).step (p ts).rest with hs' | he'
      · exact .inl (settled_bind hs hs')
      · exact .inr (exhausts_bind hs he')
    · exact .inr (he.bind hf)
  rest := by
    rw [bind_apply, andThen, hp.rest]
    exact (hf _).rest
  uses := by
    rw [bind_apply, andThen, hp.rest, hp.uses]
    exact (hf _).uses

theorem settled_accept (test : Token → Bool) (t : Token) (ts : List Token) :
    Settled (accept test) (t :: ts) := by
  intro more
  cases h : test t <;> simp [accept, h, Reply.before]

/-- A run that stops in front of a token stops there whatever follows. -/
theorem StopsAt.append {step : σ → Token → Option σ} {s : σ} {t : Token} {ts : List Token}
    (h : StopsAt step s (t :: ts)) (more : List Token) : StopsAt step s (t :: ts ++ more) := h

theorem prolongs_spanFrom (step : σ → Token → Option σ) (s : σ) : Prolongs (spanFrom step s) where
  step ts := by
    obtain ⟨xs, s', rest, rfl, hxs, hstop⟩ := spanFrom_spec step s ts
    have hspan := spanFrom_append hxs hstop
    cases rest with
    | nil => exact .inr ⟨by rw [hspan], fun more => by rw [hspan]; exact List.nil_prefix⟩
    | cons t us =>
      refine .inl fun more => ?_
      rw [hspan, List.append_assoc, spanFrom_append hxs (hstop.append more)]
      rfl
  rest := rfl
  uses := rfl

/-- A run of tokens in expression position, and what is read behind it. -/
theorem spanFrom_mention_apply {step : σ → Token → Option σ} {s s' : σ}
    {f : List Token × σ → Parse β} {xs rest : List Token} (hxs : xs.foldlM step s = some s')
    (hstop : StopsAt step s' rest) :
    (spanFrom step s >>= fun x => mention x.1 >>= fun _ => f x) (xs ++ rest) =
      ⟨(f (xs, s') rest).value, (f (xs, s') rest).rest, (f (xs, s') rest).notes,
        xs.filter (·.isIdentifier) ++ (f (xs, s') rest).uses⟩ := by
  rw [bind_apply, spanFrom_append hxs hstop]
  simp [bind_apply, mention, andThen]

/-- Where such a run ends with the input, a sequel can only make it longer. -/
theorem prolongs_spanFrom_mention {step : σ → Token → Option σ} {s : σ}
    {f : List Token × σ → Parse β} (hf : ∀ x, Prolongs (f x)) :
    Prolongs (spanFrom step s >>= fun x => mention x.1 >>= fun _ => f x) where
  step ts := by
    obtain ⟨xs, s', rest, rfl, hxs, hstop⟩ := spanFrom_spec step s ts
    cases rest with
    | nil =>
      refine .inr ⟨?_, fun more => ?_⟩
      · rw [spanFrom_mention_apply hxs hstop]
        exact (hf _).rest
      · obtain ⟨ys, s'', rest', rfl, hys, hstop'⟩ := spanFrom_spec step s' more
        have hlong : (xs ++ ys).foldlM step s = some s'' := by simp [List.foldlM_append, hxs, hys]
        rw [spanFrom_mention_apply hxs hstop, (hf _).uses, List.append_nil, List.append_nil,
          ← List.append_assoc, spanFrom_mention_apply hlong hstop', List.filter_append,
          List.append_assoc]
        exact List.prefix_append _ _
    | cons t us =>
      have hlong (more : List Token) := spanFrom_mention_apply (f := f) hxs (hstop.append more)
      rcases (hf (xs, s')).step (t :: us) with hs | he
      · refine .inl fun more => ?_
        rw [List.append_assoc, hlong more, hs more, spanFrom_mention_apply hxs hstop]
        rfl
      · refine .inr ⟨?_, fun more => ?_⟩
        · rw [spanFrom_mention_apply hxs hstop]
          exact he.rest
        · rw [List.append_assoc, hlong more, spanFrom_mention_apply hxs hstop]
          exact (List.prefix_append_right_inj _).2 (he.uses more)
  rest := (hf _).rest
  uses := (hf _).uses

/-- What the first turn of a repeated rule meets comes first. -/
theorem loop_prefix_uses (p : Parse (Turn α)) (ts : List Token) :
    (p ts).uses <+: (loop p ts).uses := by
  rw [loop]
  cases (p ts).value with
  | stop => exact List.prefix_rfl
  | abandon => exact List.prefix_rfl
  | more a =>
    by_cases hlt : (p ts).rest.length < ts.length
    · simp only [hlt, if_true]
      exact List.prefix_append _ _
    · simp only [hlt, if_false]
      exact List.prefix_rfl

theorem loop_nil {p : Parse (Turn α)} (hp : Prolongs p) :
    (loop p []).rest = [] ∧ (loop p []).uses = [] := by
  rw [loop]
  cases (p []).value <;> simp [hp.rest, hp.uses]

theorem loop_more {p : Parse (Turn α)} {ts : List Token} {a : α} (hv : (p ts).value = .more a)
    (hlt : (p ts).rest.length < ts.length) :
    loop p ts = ⟨(loop p (p ts).rest).value.map (a :: ·), (loop p (p ts).rest).rest,
      (p ts).notes ++ (loop p (p ts).rest).notes, (p ts).uses ++ (loop p (p ts).rest).uses⟩ := by
  rw [loop]
  simp only [hv, hlt, if_true]

/-- What a repeated rule gives when this turn is its last. -/
def Turn.alone : Turn α → Option (List α)
  | .stop => some []
  | .more a => some [a]
  | .abandon => none

theorem loop_last {p : Parse (Turn α)} {ts : List Token}
    (hlast : ∀ a, (p ts).value = .more a → ¬ (p ts).rest.length < ts.length) :
    loop p ts = ⟨(p ts).value.alone, (p ts).rest, (p ts).notes, (p ts).uses⟩ := by
  rw [loop]
  cases hv : (p ts).value with
  | stop => rfl
  | abandon => rfl
  | more a =>
    simp only [hlast a hv, if_false]
    rfl

/-- `many` never gives up. -/
theorem loop_turn_value (p : Parse (Option α)) (ts : List Token) :
    ∃ xs, (loop (turn p) ts).value = some xs := by
  induction hlen : ts.length using Nat.strongRecOn generalizing ts with
  | _ n ih =>
    by_cases hmore : ∃ a, (turn p ts).value = .more a ∧ (turn p ts).rest.length < ts.length
    · obtain ⟨a, hv, hlt⟩ := hmore
      obtain ⟨xs, hxs⟩ := ih _ (hlen ▸ hlt) _ rfl
      exact ⟨a :: xs, by rw [loop_more hv hlt, hxs]; rfl⟩
    · rw [loop_last fun a hv hlt => hmore ⟨a, hv, hlt⟩]
      cases h : (p ts).value <;> simp [turn, bind_apply, pure_apply, andThen, h, Turn.alone]

/-- A repeated rule with a sequel, behind a turn that has settled. -/
theorem loop_more_append {p : Parse (Turn α)} {ts : List Token} {a : α} (hs : Settled p ts)
    (hv : (p ts).value = .more a) (hlt : (p ts).rest.length < ts.length) (more : List Token) :
    loop p (ts ++ more) = ⟨(loop p ((p ts).rest ++ more)).value.map (a :: ·),
      (loop p ((p ts).rest ++ more)).rest, (p ts).notes ++ (loop p ((p ts).rest ++ more)).notes,
      (p ts).uses ++ (loop p ((p ts).rest ++ more)).uses⟩ := by
  have hv' : (p (ts ++ more)).value = .more a := by rw [hs more]; exact hv
  rw [loop_more hv' ((hs.length_lt more).2 hlt), hs more]
  rfl

theorem prolongs_loop {p : Parse (Turn α)} (hp : Prolongs p) : Prolongs (loop p) where
  step ts := by
    -- By the number of tokens: each turn that is followed by another takes one.
    induction hlen : ts.length using Nat.strongRecOn generalizing ts with
    | _ n ih =>
      by_cases hmore : ∃ a, (p ts).value = .more a ∧ (p ts).rest.length < ts.length
      · obtain ⟨a, hv, hlt⟩ := hmore
        rcases hp.step ts with hs | he
        · rcases ih _ (hlen ▸ hlt) _ rfl with hs' | he'
          · refine .inl fun more => ?_
            rw [loop_more_append hs hv hlt, loop_more hv hlt, hs' more]
            rfl
          · refine .inr ⟨by rw [loop_more hv hlt]; exact he'.rest, fun more => ?_⟩
            rw [loop_more_append hs hv hlt, loop_more hv hlt]
            exact (List.prefix_append_right_inj _).2 (he'.uses more)
        · obtain ⟨hrest, huses⟩ := loop_nil hp
          refine .inr ⟨by rw [loop_more hv hlt, he.rest]; exact hrest, fun more => ?_⟩
          rw [loop_more hv hlt, he.rest, huses, List.append_nil]
          exact (he.uses more).trans (loop_prefix_uses p _)
      · have hlast : ∀ a, (p ts).value = .more a → ¬ (p ts).rest.length < ts.length :=
          fun a hv hlt => hmore ⟨a, hv, hlt⟩
        rcases hp.step ts with hs | he
        · refine .inl fun more => ?_
          have hlong : ∀ a, (p (ts ++ more)).value = .more a →
              ¬ (p (ts ++ more)).rest.length < (ts ++ more).length := by
            rw [hs.length_lt, hs more]
            exact hlast
          rw [loop_last hlong, loop_last hlast, hs more]
          rfl
        · refine .inr ⟨by rw [loop_last hlast]; exact he.rest, fun more => ?_⟩
          rw [loop_last hlast]
          exact (he.uses more).trans (loop_prefix_uses p _)
  rest := (loop_nil hp).1
  uses := (loop_nil hp).2

theorem settled_skipToken (t : Token) (ts : List Token) : Settled skipToken (t :: ts) :=
  fun _ => rfl

theorem advancing_uses (p : Parse α) (ts : List Token) : (advancing p ts).uses = (p ts).uses := by
  simp only [advancing]
  split
  · rfl
  · cases (p ts).rest <;> exact List.append_nil _

theorem advancing_nil {p : Parse α} (hp : Prolongs p) : (advancing p []).rest = [] := by
  simp only [advancing, hp.rest]
  rfl

/-- A rule that took no token settles, and so does the token dropped in its place. -/
theorem settled_advancing {p : Parse α} {t : Token} {ts : List Token} (hp : Settled p (t :: ts)) :
    Settled (advancing p) (t :: ts) := by
  intro more
  simp only [advancing, hp.length_lt more]
  split
  · exact hp more
  · next hlt =>
    rw [hp more]
    cases hr : (p (t :: ts)).rest with
    | nil => simp [hr] at hlt
    | cons u us =>
      have hskip := settled_skipToken u us more
      simp only [Reply.before, hr, hskip]

theorem prolongs_advancing {p : Parse α} (hp : Prolongs p) : Prolongs (advancing p) where
  step ts := by
    cases ts with
    | nil =>
      refine .inr ⟨advancing_nil hp, fun more => ?_⟩
      rw [advancing_uses, hp.uses]
      exact List.nil_prefix
    | cons t ts =>
      rcases hp.step (t :: ts) with hs | he
      · exact .inl (settled_advancing hs)
      · refine .inr ⟨?_, fun more => ?_⟩
        · simp [advancing, he.rest]
        · rw [advancing_uses, advancing_uses]
          exact he.uses more
  rest := advancing_nil hp
  uses := (advancing_uses p []).trans hp.uses

theorem Composed.prolongs {p : Parse α} (h : Composed p) : Prolongs p := by
  induction h with
  | pure a => exact prolongs_pure a
  | bind _ _ ihp ihf => exact prolongs_bind ihp ihf
  | peek => exact .of_cons rfl rfl fun _ _ _ => rfl
  | here => exact .of_cons rfl rfl fun _ _ _ => rfl
  | next => exact .of_cons rfl rfl fun _ _ _ => rfl
  | accept test => exact .of_cons rfl rfl (settled_accept test)
  | note _ => exact ⟨fun _ => .inl fun _ => rfl, rfl, rfl⟩
  | operand => exact .of_cons rfl rfl fun _ _ _ => rfl
  | spanFrom step s => exact prolongs_spanFrom step s
  | spanFrom_mention _ ih => exact prolongs_spanFrom_mention ih
  | loop _ ih => exact prolongs_loop ih
  | advancing _ ih => exact prolongs_advancing ih

theorem program_prefix_uses (ts more : List Token) :
    (program ts).uses <+: (program (ts ++ more)).uses := by
  rcases composed_program.prolongs.step ts with hs | he
  · rw [hs more]
    exact List.prefix_rfl
  · exact he.uses more

end Parse

open Parse

/-- What a source is reported for stays, and stays first, when something is appended. -/
theorem findings_prefix_append (ts more : List Token) :
    (parseTokens ts).findings <+: (parseTokens (ts ++ more)).findings :=
  (program_prefix_uses ts more).filterMap _

end CAudit
