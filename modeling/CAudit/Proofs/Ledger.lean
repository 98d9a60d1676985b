import CAudit.Proofs.CleanRun
import CAudit.Proofs.SyntaxTree

/-! What a rule does with the tokens it takes. A ledger says which of them its values hold, which of
these stand in expression position, and whether none is missing. The laws below carry a ledger
through a rule from its first token to its value, whatever the rule had to recover from. -/
namespace CAudit.Parse

open SyntaxTree

variable {α β σ : Type}

/-- Notes of things left open. All that was taken is kept then. -/
def Harmless (notes : List Diagnostic) : Prop :=
  ∀ d ∈ notes, d.kind = .unclosedBlock ∨ d.kind = .unclosedGroup

theorem harmless_append {ds es : List Diagnostic} :
    Harmless (ds ++ es) ↔ Harmless ds ∧ Harmless es := by
  simp [Harmless, or_imp, forall_and]

/-- The tokens held so far, those of them in expression position, and whether no token that was
taken is missing. -/
structure Ledger where
  tokens : List Token
  uses : List Token
  whole : Bool

namespace Ledger

/-- A ledger agrees with the tokens taken, the uses and the notes so far. -/
structure Covers (l : Ledger) (taken used : List Token) (notes : List Diagnostic) : Prop where
  tokens : l.tokens.Sublist taken
  uses : l.uses.Sublist used
  whole : Harmless notes → l.whole = true ∧ l.tokens = taken ∧ l.uses = used

/-- A ledger that holds less. Only one that is not whole may drop anything. -/
structure Drops (l l' : Ledger) : Prop where
  tokens : l'.tokens.Sublist l.tokens
  uses : l'.uses.Sublist l.uses
  whole : l.whole = true → l' = l

theorem Covers.drop {l l' : Ledger} {taken used : List Token} {notes : List Diagnostic}
    (h : l.Covers taken used notes) (hd : l.Drops l') : l'.Covers taken used notes where
  tokens := hd.tokens.trans h.tokens
  uses := hd.uses.trans h.uses
  whole hn := by
    obtain ⟨hw, ht, hu⟩ := h.whole hn
    rw [hd.whole hw]
    exact ⟨hw, ht, hu⟩

theorem Drops.refl (l : Ledger) : l.Drops l := ⟨.refl _, .refl _, fun _ => rfl⟩

/-- A ledger that is not whole may drop what it likes. -/
theorem Drops.of_not_whole {l l' : Ledger} (hw : l.whole = false)
    (ht : l'.tokens.Sublist l.tokens) (hu : l'.uses.Sublist l.uses) : l.Drops l' where
  tokens := ht
  uses := hu
  whole h := by simp [hw] at h

theorem Drops.of_eq {l l' : Ledger} (h : l = l') : l.Drops l' := h ▸ .refl l

/-- Tokens that are held, but not in expression position. -/
def take (l : Ledger) (ts : List Token) : Ledger := { l with tokens := l.tokens ++ ts }

/-- Tokens that are held in expression position. -/
def use (l : Ledger) (ts : List Token) : Ledger :=
  { l with tokens := l.tokens ++ ts, uses := l.uses ++ ts.filter (·.isIdentifier) }

/-- Trees that are held, right under a construct of the given kind. -/
def add (l : Ledger) (held : Bool) (trees : List SyntaxTree) : Ledger :=
  { l with tokens := l.tokens ++ tokensAll trees, uses := l.uses ++ usesAll held trees }

/-- Some token may be missing from now on. -/
def lose (l : Ledger) : Ledger := { l with whole := false }

end Ledger

/-- From a ledger `l` for what came before, the rule on `ts` leads to the ledger `post` of its
value. It takes tokens from the front, and what it uses are identifiers among them. -/
def Tracks (l : Ledger) (p : Parse α) (ts : List Token) (post : α → Ledger) : Prop :=
  ∀ taken used notes, l.Covers taken used notes →
    ∃ front, ts = front ++ (p ts).rest ∧
      (p ts).uses.Sublist (front.filter (·.isIdentifier)) ∧
      (post (p ts).value).Covers (taken ++ front) (used ++ (p ts).uses) (notes ++ (p ts).notes)

section

variable {l : Ledger} {ts : List Token} {post : β → Ledger}

/-- Whatever a rule leaves is the end of what it was given. -/
theorem Tracks.suffix {p : Parse β} (h : Tracks ⟨[], [], true⟩ p ts post) : (p ts).rest <:+ ts := by
  obtain ⟨front, hts, -, -⟩ := h [] [] [] ⟨.slnil, .slnil, fun _ => ⟨rfl, rfl, rfl⟩⟩
  exact ⟨front, hts.symm⟩

theorem Clean.suffix {p : Parse β} {b : β} {rest : List Token} (h : Clean p ts b rest)
    (hp : Tracks ⟨[], [], true⟩ p ts post) : rest <:+ ts := h.2.1 ▸ hp.suffix

theorem tracks_pure {b : β} (hd : l.Drops (post b)) : Tracks l (pure b) ts post := by
  intro taken used notes hl
  exact ⟨[], rfl, .slnil, by simpa [pure_apply] using hl.drop hd⟩

/-- Where a token is lost already, a result may be given up. -/
theorem tracks_lost {b : β} (hw : l.whole = false) (ht : (post b).tokens.Sublist l.tokens)
    (hu : (post b).uses.Sublist l.uses) : Tracks l (pure b) ts post :=
  tracks_pure (.of_not_whole hw ht hu)

theorem tracks_bind {p : Parse α} {f : α → Parse β} {mid : α → Ledger} (hp : Tracks l p ts mid)
    (hf : ∀ a rest, Tracks (mid a) (f a) rest post) : Tracks l (p >>= f) ts post := by
  intro taken used notes hl
  obtain ⟨front, hts, hu, hc⟩ := hp taken used notes hl
  obtain ⟨front', hts', hu', hc'⟩ := hf _ (p ts).rest _ _ _ hc
  refine ⟨front ++ front', ?_, ?_, ?_⟩
  · rw [List.append_assoc, bind_apply, andThen, ← hts', ← hts]
  · rw [List.filter_append, bind_apply, andThen]
    exact hu.append hu'
  · simpa [bind_apply, andThen, List.append_assoc] using hc'

theorem tracks_ite {c : Prop} [Decidable c] {p q : Parse β} (hp : c → Tracks l p ts post)
    (hq : ¬ c → Tracks l q ts post) : Tracks l (if c then p else q) ts post := by
  split
  · next h => exact hp h
  · next h => exact hq h

theorem tracks_peek {f : Option Token → Parse β} (h : Tracks l (f ts.head?) ts post) :
    Tracks l (peek >>= f) ts post := h

theorem tracks_here {f : Option Nat → Parse β} (h : ∀ line, Tracks l (f line) ts post) :
    Tracks l (here >>= f) ts post := h _

/-- Tokens at the front are taken, `us` of them are used, and the rule goes on as `q`. -/
theorem tracks_front {p q : Parse β} (front us : List Token)
    (hp : p (front ++ ts) = ⟨(q ts).value, (q ts).rest, (q ts).notes, us ++ (q ts).uses⟩)
    (hus : us.Sublist (front.filter (·.isIdentifier)))
    (h : Tracks { l with tokens := l.tokens ++ front, uses := l.uses ++ us } q ts post) :
    Tracks l p (front ++ ts) post := by
  intro taken used notes hl
  obtain ⟨front', hts, hu, hc⟩ := h (taken ++ front) (used ++ us) notes
    ⟨hl.tokens.append (.refl _), hl.uses.append (.refl _), fun hn => by
      obtain ⟨hw, ht, hu⟩ := hl.whole hn
      exact ⟨hw, by rw [ht], by rw [hu]⟩⟩
  rw [hp]
  refine ⟨front ++ front', ?_, ?_, ?_⟩
  · rw [List.append_assoc, ← hts]
  · rw [List.filter_append]
    exact hus.append hu
  · simpa using hc

theorem tracks_next {f : Option Token → Parse β} {t : Token}
    (h : Tracks (l.take [t]) (f (some t)) ts post) : Tracks l (next >>= f) (t :: ts) post :=
  tracks_front [t] [] rfl (List.nil_sublist _) (by simpa [Ledger.take, next] using h)

theorem tracks_accept {f : Option Token → Parse β} {test : Token → Bool}
    (hsome : ∀ t us, ts = t :: us → test t = true → Tracks (l.take [t]) (f (some t)) us post)
    (hnone : Tracks l (f none) ts post) : Tracks l (accept test >>= f) ts post := by
  cases ts with
  | nil => exact hnone
  | cons t us =>
    cases ht : test t with
    | false =>
      have h : (accept test >>= f) (t :: us) = f none (t :: us) := by
        simp [bind_apply, accept, ht, andThen]
      unfold Tracks
      rw [h]
      exact hnone
    | true =>
      refine tracks_front [t] [] ?_ (List.nil_sublist _)
        (by simpa [Ledger.take] using hsome t us rfl ht)
      simp [bind_apply, accept, ht, andThen]

/-- A note leaves the ledger as it is. -/
theorem tracks_note {f : Unit → Parse β} {line : Option Nat} {kind : Diagnostic.Kind}
    {message : String} (h : Tracks l (f ()) ts post) :
    Tracks l (note line kind message >>= f) ts post := by
  intro taken used notes hl
  obtain ⟨front, hts, hu, hc⟩ := h taken used (notes ++ [⟨line, kind, message⟩])
    ⟨hl.tokens, hl.uses, fun hn => hl.whole (harmless_append.1 hn).1⟩
  exact ⟨front, hts, hu, by simpa [bind_apply, note, andThen] using hc⟩

/-- After a note that is not harmless a token may be missing. -/
theorem tracks_note_lose {f : Unit → Parse β} {line : Option Nat} {kind : Diagnostic.Kind}
    {message : String} (hk : ¬ (kind = .unclosedBlock ∨ kind = .unclosedGroup))
    (h : Tracks l.lose (f ()) ts post) : Tracks l (note line kind message >>= f) ts post := by
  intro taken used notes hl
  obtain ⟨front, hts, hu, hc⟩ := h taken used (notes ++ [⟨line, kind, message⟩])
    ⟨hl.tokens, hl.uses, fun hn => absurd ((harmless_append.1 hn).2 _ List.mem_cons_self) hk⟩
  exact ⟨front, hts, hu, by simpa [bind_apply, note, andThen] using hc⟩

/-- Past the last level, as in `tracks_note_lose`. -/
theorem tracks_noteLimit {f : Unit → Parse β} (h : Tracks l.lose (f ()) ts post) :
    Tracks l (noteLimit >>= f) ts post := by
  have heq : (noteLimit >>= f) ts = (here >>= fun line => note line .nestingLimit
      ("Nesting deeper than " ++ maxNesting.repr ++ " levels is not descended") >>= f) ts := rfl
  unfold Tracks
  rw [heq]
  exact tracks_here fun line => tracks_note_lose (by simp) h

theorem tracks_expect {f : Option Token → Parse β} {test : Token → Bool} {message : String}
    (hsome : ∀ t us, ts = t :: us → test t = true → Tracks (l.take [t]) (f (some t)) us post)
    (hnone : Tracks l.lose (f none) ts post) : Tracks l (expect test message >>= f) ts post := by
  have h : (expect test message >>= f) ts = (accept test >>= fun found => found.elim
      (here >>= fun line => note line .missingToken message >>= fun _ => f none)
      fun t => f (some t)) ts := by
    cases ts with
    | nil => rfl
    | cons t us => cases ht : test t <;> simp [expect, bind_apply, pure_apply, accept, ht, andThen]
  unfold Tracks
  rw [h]
  exact tracks_accept hsome
    (tracks_here fun line => tracks_note_lose (by simp) hnone)

theorem tracks_spanFrom {step : σ → Token → Option σ} {s : σ} {f : List Token × σ → Parse β}
    (h : ∀ xs s' rest, ts = xs ++ rest → Tracks (l.take xs) (f (xs, s')) rest post) :
    Tracks l (spanFrom step s >>= f) ts post := by
  obtain ⟨xs, s', rest, rfl, hxs, hr⟩ := spanFrom_spec step s ts
  refine tracks_front xs [] ?_ (List.nil_sublist _)
    (by simpa [Ledger.take] using h xs s' rest rfl)
  simp [bind_apply, spanFrom_append hxs hr, andThen]

/-- A run of tokens in expression position: its identifiers are uses. -/
theorem tracks_spanFrom_mention {step : σ → Token → Option σ} {s : σ}
    {f : List Token × σ → Parse β}
    (h : ∀ xs s' rest, ts = xs ++ rest → Tracks (l.use xs) (f (xs, s')) rest post) :
    Tracks l (spanFrom step s >>= fun x => mention x.1 >>= fun _ => f x) ts post := by
  obtain ⟨xs, s', rest, rfl, hxs, hr⟩ := spanFrom_spec step s ts
  refine tracks_front xs (xs.filter (·.isIdentifier)) ?_ (.refl _) (h xs s' rest rfl)
  simp [bind_apply, spanFrom_append hxs hr, mention, andThen]

theorem tracks_spanWhile {test : Token → Bool} {f : List Token → Parse β}
    (h : ∀ xs rest, ts = xs ++ rest → Tracks (l.take xs) (f xs) rest post) :
    Tracks l (spanWhile test >>= f) ts post := by
  have heq : (spanWhile test >>= f) ts =
      (spanFrom (fun () t => if test t then some () else none) () >>= fun x => f x.1) ts := by
    simp [spanWhile, bind_apply, pure_apply, andThen]
  unfold Tracks
  rw [heq]
  exact tracks_spanFrom fun xs _ rest hts => h xs rest hts

/-- As `tracks_spanFrom_mention`. -/
theorem tracks_spanWhile_mention {test : Token → Bool} {f : List Token → Parse β}
    (h : ∀ xs rest, ts = xs ++ rest → Tracks (l.use xs) (f xs) rest post) :
    Tracks l (spanWhile test >>= fun xs => mention xs >>= fun _ => f xs) ts post := by
  have heq : (spanWhile test >>= fun xs => mention xs >>= fun _ => f xs) ts =
      (spanFrom (fun () t => if test t then some () else none) () >>= fun x =>
        mention x.1 >>= fun _ => f x.1) ts := by
    simp [spanWhile, bind_apply, pure_apply, andThen]
  unfold Tracks
  rw [heq]
  exact tracks_spanFrom_mention fun xs _ rest hts => h xs rest hts

/-- The ledger of a turn whose items stand right under a construct of the given kind. -/
def Turn.ledger (held : Bool) (l : Ledger) : Turn (List SyntaxTree) → Ledger
  | .stop => l
  | .more xs => l.add held xs
  | .abandon => l.lose

def loopLedger (held : Bool) (l : Ledger) : Option (List (List SyntaxTree)) → Ledger
  | some lists => l.add held lists.flatten
  | none => l.lose

theorem tracks_loop {p : Parse (Turn (List SyntaxTree))} {held : Bool}
    (hp : ∀ l ts, Tracks l p ts (Turn.ledger held l)) (l : Ledger) (ts : List Token) :
    Tracks l (loop p) ts (loopLedger held l) := by
  induction hlen : ts.length using Nat.strongRecOn generalizing l ts with
  | _ n ih =>
    intro taken used notes hl
    obtain ⟨front, hts, hu, hc⟩ := hp l ts taken used notes hl
    rw [loop]
    cases hv : (p ts).value with
    | stop =>
      rw [hv] at hc
      refine ⟨front, hts, hu, ?_⟩
      simpa [Turn.ledger, loopLedger, Ledger.add] using hc
    | abandon =>
      rw [hv] at hc
      exact ⟨front, hts, hu, hc⟩
    | more xs =>
      rw [hv] at hc
      by_cases hlt : (p ts).rest.length < ts.length
      · simp only [hlt, if_true]
        obtain ⟨front', hts', hu', hc'⟩ := ih _ (hlen ▸ hlt) _ _ rfl _ _ _ hc
        refine ⟨front ++ front', ?_, ?_, ?_⟩
        · rw [List.append_assoc, ← hts', ← hts]
        · rw [List.filter_append]
          exact hu.append hu'
        · rw [← List.append_assoc, ← List.append_assoc, ← List.append_assoc]
          cases hs : (loop p (p ts).rest).value with
          | some lists => simpa [hs, loopLedger, Turn.ledger, Ledger.add] using hc'
          | none =>
            rw [hs] at hc'
            refine hc'.drop (.of_not_whole rfl ?_ ?_) <;>
              simp [loopLedger, Turn.ledger, Ledger.add, Ledger.lose]
      · simp only [hlt, if_false]
        refine ⟨front, hts, hu, ?_⟩
        simpa [Turn.ledger, loopLedger] using hc

/-- The ledger of an item right under a construct of the given kind. -/
def itemLedger (held : Bool) (l : Ledger) : Option (List SyntaxTree) → Ledger
  | some xs => l.add held xs
  | none => l

theorem tracks_turn {p : Parse (Option (List SyntaxTree))} {held : Bool}
    (hp : Tracks l p ts (itemLedger held l)) : Tracks l (turn p) ts (Turn.ledger held l) := by
  refine tracks_bind hp fun o rest => ?_
  cases o with
  | none => exact tracks_pure (.refl _)
  | some xs => exact tracks_pure (.refl _)

theorem tracks_many {p : Parse (Option (List SyntaxTree))} {held : Bool}
    (hp : ∀ l ts, Tracks l p ts (itemLedger held l)) (l : Ledger) (ts : List Token) :
    Tracks l (many p) ts (fun lists => l.add held lists.flatten) := by
  intro taken used notes hl
  obtain ⟨front, hts, hu, hc⟩ :=
    tracks_loop (fun l ts => tracks_turn (hp l ts)) l ts taken used notes hl
  rw [many_apply]
  refine ⟨front, hts, hu, ?_⟩
  cases hv : (loop (turn p) ts).value with
  | some lists => simpa [hv, loopLedger] using hc
  | none =>
    rw [hv] at hc
    refine hc.drop (.of_not_whole rfl ?_ ?_) <;> simp [loopLedger, Ledger.add, Ledger.lose]

/-- A token dropped for progress is noted, so it may be missing from the ledger. -/
theorem tracks_advancing {p : Parse β} (hp : Tracks l p ts post) :
    Tracks l (advancing p) ts post := by
  intro taken used notes hl
  obtain ⟨front, hts, hu, hc⟩ := hp taken used notes hl
  simp only [advancing]
  split
  · exact ⟨front, hts, hu, hc⟩
  · cases hr : (p ts).rest with
    | nil =>
      have hskip : skipToken [] = ⟨(), [], [], []⟩ := rfl
      rw [hskip]
      exact ⟨front, by simpa [hr] using hts, by simpa using hu, by simpa using hc⟩
    | cons t us =>
      have hskip : skipToken (t :: us) = ⟨(), us, [⟨some t.line, .skippedToken,
        "Skipping unrecognized token: " ++ t.describe⟩], []⟩ := rfl
      rw [hskip]
      refine ⟨front ++ [t], by simpa [hr] using hts, ?_, ?_, ?_, ?_⟩
      · simpa using hu.trans ((List.sublist_append_left front [t]).filter _)
      · rw [← List.append_assoc]
        exact hc.tokens.trans (List.sublist_append_left _ _)
      · simpa using hc.uses
      · intro hn
        have h := (harmless_append.1 (harmless_append.1 hn).2).2 _ List.mem_cons_self
        simp at h

end

end CAudit.Parse
