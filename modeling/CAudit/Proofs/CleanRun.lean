import CAudit.Parse

/-! Clean runs: runs of a rule that note nothing. A rule made of smaller rules runs cleanly exactly
when each of them does, so its clean runs can be read off its text step by step. -/
namespace CAudit.Parse

variable {α β σ : Type}

/-- On `ts` the rule gives `a`, leaves `rest` and notes nothing. -/
def Clean (p : Parse α) (ts : List Token) (a : α) (rest : List Token) : Prop :=
  (p ts).value = a ∧ (p ts).rest = rest ∧ (p ts).notes = []

theorem bind_apply (p : Parse α) (f : α → Parse β) (ts : List Token) :
    (p >>= f) ts = andThen (p ts) (f (p ts).value (p ts).rest) := rfl

theorem pure_apply (a : α) (ts : List Token) : (pure a : Parse α) ts = ⟨a, ts, [], []⟩ := rfl

theorem clean_pure {a b : α} {ts rest : List Token} :
    Clean (pure a) ts b rest ↔ a = b ∧ ts = rest := by
  simp [Clean, pure_apply]

theorem clean_bind {p : Parse α} {f : α → Parse β} {ts rest : List Token} {b : β} :
    Clean (p >>= f) ts b rest ↔ ∃ a mid, Clean p ts a mid ∧ Clean (f a) mid b rest := by
  simp only [Clean, bind_apply, andThen, List.append_eq_nil_iff]
  constructor
  · rintro ⟨hv, hr, hp, hf⟩
    exact ⟨_, _, ⟨rfl, rfl, hp⟩, hv, hr, hf⟩
  · rintro ⟨_, _, ⟨rfl, rfl, hp⟩, hv, hr, hf⟩
    exact ⟨hv, hr, hp, hf⟩

/-- A rule whose value is only wrapped. -/
theorem clean_map {p : Parse α} {g : α → β} {ts rest : List Token} {b : β} :
    Clean (do return g (← p)) ts b rest ↔ ∃ a, b = g a ∧ Clean p ts a rest := by
  simp only [clean_bind, clean_pure]
  constructor
  · rintro ⟨a, _, h, rfl, rfl⟩
    exact ⟨a, rfl, h⟩
  · rintro ⟨a, rfl, h⟩
    exact ⟨a, rest, h, rfl, rfl⟩

theorem exists_cons_eq {t : Token} {ts : List Token} {P : Token → List Token → Prop} :
    (∃ u us, t :: ts = u :: us ∧ P u us) ↔ P t ts := by
  constructor
  · rintro ⟨_, _, ⟨⟩, h⟩
    exact h
  · exact fun h => ⟨t, ts, rfl, h⟩

section

variable {f : Option Token → Parse β} {ts rest : List Token} {b : β} {test : Token → Bool}

theorem clean_peek : Clean (peek >>= f) ts b rest ↔ Clean (f ts.head?) ts b rest := by
  simp [Clean, bind_apply, peek, andThen]

theorem clean_here {f : Option Nat → Parse β} :
    Clean (here >>= f) ts b rest ↔ Clean (f (ts.head?.map (·.line))) ts b rest := by
  simp [Clean, bind_apply, here, andThen]

theorem clean_next : Clean (next >>= f) ts b rest ↔ Clean (f ts.head?) ts.tail b rest := by
  simp [Clean, bind_apply, next, andThen]

theorem clean_note {f : Unit → Parse β} {line : Option Nat} {kind : Diagnostic.Kind}
    {message : String} : Clean (note line kind message >>= f) ts b rest ↔ False := by
  simp [Clean, bind_apply, note, andThen]

theorem clean_mention {f : Unit → Parse β} {us : List Token} :
    Clean (mention us >>= f) ts b rest ↔ Clean (f ()) ts b rest := by
  simp [Clean, bind_apply, mention, andThen]

theorem clean_accept :
    Clean (accept test >>= f) ts b rest ↔
      (∃ t mid, ts = t :: mid ∧ test t = true ∧ Clean (f (some t)) mid b rest) ∨
        ts.head?.any test = false ∧ Clean (f none) ts b rest := by
  cases ts with
  | nil => simp [Clean, bind_apply, accept, andThen]
  | cons u us =>
    rw [exists_cons_eq]
    by_cases h : test u = true <;> simp [Clean, bind_apply, accept, andThen, h]

theorem clean_expect {message : String} :
    Clean (expect test message >>= f) ts b rest ↔
      ∃ t mid, ts = t :: mid ∧ test t = true ∧ Clean (f (some t)) mid b rest := by
  cases ts with
  | nil => simp [Clean, bind_apply, expect, accept, here, note, andThen]
  | cons u us =>
    rw [exists_cons_eq]
    by_cases h : test u = true <;>
      simp [Clean, bind_apply, pure_apply, expect, accept, here, note, andThen, h]

end

/-- A run stops where its step lets no further token through. -/
def StopsAt (step : σ → Token → Option σ) (s : σ) (rest : List Token) : Prop :=
  rest.head?.bind (step s) = none

theorem spanFrom_append {step : σ → Token → Option σ} {s s' : σ} {xs rest : List Token}
    (hs : xs.foldlM step s = some s') (hr : StopsAt step s' rest) :
    spanFrom step s (xs ++ rest) = ⟨(xs, s'), rest, [], []⟩ := by
  induction xs generalizing s with
  | nil =>
    obtain rfl : s = s' := by simpa using hs
    cases rest with
    | nil => rfl
    | cons t ts =>
      have hr : step s t = none := hr
      simp [spanFrom, hr]
  | cons x xs ih =>
    obtain ⟨s₁, hx, hxs⟩ : ∃ s₁, step s x = some s₁ ∧ xs.foldlM step s₁ = some s' := by
      simpa [List.foldlM_cons, Option.bind_eq_some_iff] using hs
    simp [spanFrom, hx, ih hxs]

theorem spanFrom_spec (step : σ → Token → Option σ) (s : σ) (ts : List Token) :
    ∃ xs s' rest, ts = xs ++ rest ∧ xs.foldlM step s = some s' ∧ StopsAt step s' rest := by
  induction ts generalizing s with
  | nil => exact ⟨[], s, [], rfl, rfl, rfl⟩
  | cons t ts ih =>
    cases ht : step s t with
    | none => exact ⟨[], s, t :: ts, rfl, rfl, ht⟩
    | some s₁ =>
      obtain ⟨xs, s', rest, rfl, hxs, hr⟩ := ih s₁
      exact ⟨t :: xs, s', rest, rfl, by simp [List.foldlM_cons, ht, hxs], hr⟩

theorem clean_spanFrom {step : σ → Token → Option σ} {s : σ} {f : List Token × σ → Parse β}
    {ts rest : List Token} {b : β} :
    Clean (spanFrom step s >>= f) ts b rest ↔
      ∃ xs s' mid, ts = xs ++ mid ∧ xs.foldlM step s = some s' ∧ StopsAt step s' mid ∧
        Clean (f (xs, s')) mid b rest := by
  constructor
  · intro h
    obtain ⟨xs, s', mid, rfl, hxs, hm⟩ := spanFrom_spec step s ts
    refine ⟨xs, s', mid, rfl, hxs, hm, ?_⟩
    simpa [Clean, bind_apply, spanFrom_append hxs hm, andThen] using h
  · rintro ⟨xs, s', mid, rfl, hxs, hm, h⟩
    simpa [Clean, bind_apply, spanFrom_append hxs hm, andThen] using h

/-- The step of a run of tokens that pass a test. -/
theorem foldlM_while {test : Token → Bool} {xs : List Token} :
    xs.foldlM (fun () t => if test t then some () else none) () = some () ↔
      ∀ t ∈ xs, test t = true := by
  induction xs with
  | nil => simp
  | cons x xs ih =>
    by_cases h : test x = true
    · simpa [List.foldlM_cons, h] using ih
    · simp [List.foldlM_cons, h]

theorem clean_spanWhile {test : Token → Bool} {f : List Token → Parse β} {ts rest : List Token}
    {b : β} :
    Clean (spanWhile test >>= f) ts b rest ↔
      ∃ xs mid, ts = xs ++ mid ∧ (∀ t ∈ xs, test t = true) ∧ mid.head?.any test = false ∧
        Clean (f xs) mid b rest := by
  have hstop (mid : List Token) :
      StopsAt (fun () t => if test t then some () else none) () mid ↔
        mid.head?.any test = false := by
    cases mid with
    | nil => simp [StopsAt]
    | cons t ts => by_cases h : test t = true <;> simp [StopsAt, h]
  have hone (g : List Token × Unit → Parse β) (h : ∀ x, g x = f x.1) :
      Clean (spanWhile test >>= f) ts b rest ↔
        Clean (spanFrom (fun () t => if test t then some () else none) () >>= g) ts b rest := by
    simp [Clean, bind_apply, pure_apply, spanWhile, andThen, h]
  rw [hone (fun x => f x.1) (fun _ => rfl), clean_spanFrom]
  simp only [hstop]
  constructor
  · rintro ⟨xs, ⟨⟩, mid, rfl, hxs, hm, h⟩
    exact ⟨xs, mid, rfl, foldlM_while.1 hxs, hm, h⟩
  · rintro ⟨xs, mid, rfl, hxs, hm, h⟩
    exact ⟨xs, (), mid, rfl, foldlM_while.2 hxs, hm, h⟩

/-- Each clean run that goes on takes a token. -/
def Progresses (p : Parse (Turn α)) : Prop :=
  ∀ ts a rest, Clean p ts (.more a) rest → rest.length < ts.length

theorem clean_loop_nil {p : Parse (Turn α)} {ts rest : List Token} :
    Clean (loop p) ts (some []) rest ↔ Clean p ts .stop rest := by
  simp only [Clean]
  rw [loop]
  cases h : (p ts).value with
  | stop => simp
  | abandon => simp
  | more a => by_cases hl : (p ts).rest.length < ts.length <;> simp [hl]

theorem clean_loop_cons {p : Parse (Turn α)} (hp : Progresses p) {ts rest : List Token} {a : α}
    {as : List α} :
    Clean (loop p) ts (some (a :: as)) rest ↔
      ∃ mid, Clean p ts (.more a) mid ∧ Clean (loop p) mid (some as) rest := by
  constructor
  · rintro ⟨hv, hr, hn⟩
    rw [loop] at hv hr hn
    cases h : (p ts).value with
    | stop => simp [h] at hv
    | abandon => simp [h] at hv
    | more c =>
      by_cases hl : (p ts).rest.length < ts.length
      · simp only [h, hl, if_true, List.append_eq_nil_iff] at hv hr hn
        obtain ⟨cs, hcs, heq⟩ := Option.map_eq_some_iff.1 hv
        obtain ⟨rfl, rfl⟩ := List.cons.inj heq
        exact ⟨(p ts).rest, ⟨h, rfl, hn.1⟩, hcs, hr, hn.2⟩
      · simp only [h, hl, if_false] at hn
        exact absurd (hp ts c _ ⟨h, rfl, hn⟩) hl
  · rintro ⟨mid, hc, hv, hr, hn⟩
    have hl := hp ts a mid hc
    obtain ⟨h, rfl, hn'⟩ := hc
    refine ⟨?_, ?_, ?_⟩ <;> rw [loop] <;> simp [h, hl, hv, hr, hn, hn']

/-- A repeated rule that never gives up cleanly never does so in the end. -/
theorem not_clean_loop_none {p : Parse (Turn α)}
    (hp : ∀ ts rest, ¬ Clean p ts .abandon rest) {ts rest : List Token} :
    ¬ Clean (loop p) ts none rest := by
  induction hlen : ts.length using Nat.strongRecOn generalizing ts with
  | _ n ih =>
    rintro ⟨hv, hr, hn⟩
    rw [loop] at hv hr hn
    cases h : (p ts).value with
    | stop => simp [h] at hv
    | abandon =>
      simp only [h] at hn
      exact hp ts _ ⟨h, rfl, hn⟩
    | more c =>
      by_cases hl : (p ts).rest.length < ts.length
      · simp only [h, hl, if_true, List.append_eq_nil_iff, Option.map_eq_none_iff] at hv hr hn
        exact ih _ (hlen ▸ hl) rfl ⟨hv, hr, hn.2⟩
      · simp [h, hl] at hv

/-- The rule that `many` repeats. -/
def turn (p : Parse (Option α)) : Parse (Turn α) := do
  match ← p with
  | some a => return .more a
  | none => return .stop

theorem turn_apply (p : Parse (Option α)) (ts : List Token) :
    turn p ts = ⟨(p ts).value.elim .stop .more, (p ts).rest, (p ts).notes, (p ts).uses⟩ := by
  unfold turn
  rw [bind_apply]
  cases (p ts).value <;> simp [andThen, pure_apply]

theorem many_apply (p : Parse (Option α)) (ts : List Token) :
    many p ts = ⟨(loop (turn p) ts).value.getD [], (loop (turn p) ts).rest,
      (loop (turn p) ts).notes, (loop (turn p) ts).uses⟩ := by
  have h : many p ts = andThen (loop (turn p) ts)
      ⟨(loop (turn p) ts).value.getD [], (loop (turn p) ts).rest, [], []⟩ := rfl
  simp [h, andThen]

theorem clean_turn_more {p : Parse (Option α)} {ts rest : List Token} {a : α} :
    Clean (turn p) ts (.more a) rest ↔ Clean p ts (some a) rest := by
  simp only [turn, clean_bind]
  constructor
  · rintro ⟨o, mid, hp, h⟩
    cases o with
    | none => simp [clean_pure] at h
    | some c =>
      obtain ⟨⟨⟩, rfl⟩ := clean_pure.1 h
      exact hp
  · exact fun h => ⟨some a, rest, h, clean_pure.2 ⟨rfl, rfl⟩⟩

theorem clean_turn_stop {p : Parse (Option α)} {ts rest : List Token} :
    Clean (turn p) ts .stop rest ↔ Clean p ts none rest := by
  simp only [turn, clean_bind]
  constructor
  · rintro ⟨o, mid, hp, h⟩
    cases o with
    | none =>
      obtain ⟨-, rfl⟩ := clean_pure.1 h
      exact hp
    | some c => simp [clean_pure] at h
  · exact fun h => ⟨none, rest, h, clean_pure.2 ⟨rfl, rfl⟩⟩

theorem not_clean_turn_abandon {p : Parse (Option α)} (ts rest : List Token) :
    ¬ Clean (turn p) ts .abandon rest := by
  rw [turn, clean_bind]
  rintro ⟨o, mid, -, h⟩
  cases o <;> simp [clean_pure] at h

theorem clean_many_iff_loop {p : Parse (Option α)} {ts rest : List Token} {as : List α} :
    Clean (many p) ts as rest ↔ Clean (loop (turn p)) ts (some as) rest := by
  constructor
  · rintro ⟨hv, hr, hn⟩
    rw [many_apply] at hv hr hn
    cases h : (loop (turn p) ts).value with
    | none => exact absurd ⟨h, hr, hn⟩ (not_clean_loop_none not_clean_turn_abandon)
    | some cs => exact ⟨by simpa [h] using hv, hr, hn⟩
  · rintro ⟨hv, hr, hn⟩
    refine ⟨?_, ?_, ?_⟩ <;> rw [many_apply] <;> simp [hv, hr, hn]

theorem clean_many_nil {p : Parse (Option α)} {ts rest : List Token} :
    Clean (many p) ts [] rest ↔ Clean p ts none rest := by
  rw [clean_many_iff_loop, clean_loop_nil, clean_turn_stop]

theorem clean_many_cons {p : Parse (Option α)}
    (hp : ∀ ts a rest, Clean p ts (some a) rest → rest.length < ts.length)
    {ts rest : List Token} {a : α} {as : List α} :
    Clean (many p) ts (a :: as) rest ↔
      ∃ mid, Clean p ts (some a) mid ∧ Clean (many p) mid as rest := by
  have hturn : Progresses (turn p) := fun ts c mid h => hp ts c mid (clean_turn_more.1 h)
  simp only [clean_many_iff_loop, clean_loop_cons hturn, clean_turn_more]

/-- Where a token is left, a rule that runs cleanly and takes none is not clean once it has to
advance. -/
theorem clean_advancing {p : Parse α} {ts rest : List Token} {a : α} (hts : ts ≠ []) :
    Clean (advancing p) ts a rest ↔ Clean p ts a rest ∧ rest.length < ts.length := by
  simp only [Clean, advancing]
  by_cases hl : (p ts).rest.length < ts.length
  · simp only [hl, if_true]
    constructor
    · rintro ⟨rfl, rfl, hn⟩
      exact ⟨⟨rfl, rfl, hn⟩, hl⟩
    · exact fun h => h.1
  · simp only [hl, if_false, List.append_eq_nil_iff]
    constructor
    · rintro ⟨-, -, -, hs⟩
      cases hr : (p ts).rest with
      | nil =>
        rw [hr] at hl
        exact absurd (List.length_pos_iff.2 hts) hl
      | cons t us => simp [hr, skipToken, bind_apply, next, note, andThen] at hs
    · rintro ⟨⟨-, rfl, -⟩, h⟩
      exact absurd h hl

/-- The rules one level further in, with `n` levels left. -/
def nested (n : Nat) : Nested where
  statement := statement n
  block := match n with
    | 0 => none
    | m + 1 => some (block (statement m))
  room := n

theorem statement_nil (n : Nat) : statement n [] = ⟨none, [], [], []⟩ := by
  rw [statement.eq_def]
  cases n <;> rfl

theorem statement_zero (t : Token) (ts : List Token) :
    statement 0 (t :: ts) =
      (if t.isDirective then skipDirective >>= fun _ => pure none
        else noteLimit >>= fun _ => next >>= fun _ => pure none : Parse (Option SyntaxTree))
        (t :: ts) := rfl

theorem statement_succ (n : Nat) (t : Token) (ts : List Token) :
    statement (n + 1) (t :: ts) =
      (if t.isDirective then skipDirective >>= fun _ => pure none
        else construct (nested n) t >>= fun inner =>
          pure (inner.map fun s => .node .statement [s]) : Parse (Option SyntaxTree))
        (t :: ts) := by
  rw [statement.eq_def]
  cases n <;> rfl

end CAudit.Parse
