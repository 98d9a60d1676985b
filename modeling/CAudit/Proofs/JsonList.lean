import CAudit.Proofs.JsonString
import CAudit.Proofs.JsonNumber

/-! Lists between brackets in JSON text, for the items of arrays and for the members of objects. A
list is read if each of its parts is, and a list that is read has the parts that it should. -/
namespace CAudit.Json.Reader

section
variable {α : Type} (P : List Char → α → Prop)

/-- Text behind a part of a list, up to the closing bracket: further parts, each behind a comma. -/
inductive Further : List Char → List α → Prop where
  | close {b : List Char} (hb : Blank b) : Further b []
  | next {b b' u cs : List Char} {a : α} {as : List α} (hb : Blank b) (hb' : Blank b')
      (ha : P u a) (h : Further cs as) : Further (b ++ ',' :: (b' ++ (u ++ cs))) (a :: as)

/-- Text between brackets: parts with a comma between each two. -/
inductive Parts : List Char → List α → Prop where
  | none {b : List Char} (hb : Blank b) : Parts b []
  | some {b u cs : List Char} {a : α} {as : List α} (hb : Blank b) (ha : P u a)
      (h : Further P cs as) : Parts (b ++ (u ++ cs)) (a :: as)

/-- A member of an object: a key, a colon and a value. -/
inductive MemberText : List Char → String × α → Prop where
  | mk {k b b' u : List Char} {key : String} {v : α} (hk : Literal k key.toList) (hb : Blank b)
      (hb' : Blank b') (hv : P u v) :
      MemberText ('"' :: (k ++ '"' :: (b ++ ':' :: (b' ++ u)))) (key, v)

end

section
variable {α : Type} {P Q : List Char → α → Prop}

theorem Further.mono (hPQ : ∀ {u a}, P u a → Q u a) {cs : List Char} {as : List α}
    (h : Further P cs as) : Further Q cs as := by
  induction h with
  | close hb => exact .close hb
  | next hb hb' ha _ ih => exact .next hb hb' (hPQ ha) ih

theorem Parts.mono (hPQ : ∀ {u a}, P u a → Q u a) {cs : List Char} {as : List α}
    (h : Parts P cs as) : Parts Q cs as := by
  cases h with
  | none hb => exact .none hb
  | some hb ha h => exact .some hb (hPQ ha) (h.mono hPQ)

theorem MemberText.mono (hPQ : ∀ {u a}, P u a → Q u a) {cs : List Char} {m : String × α}
    (h : MemberText P cs m) : MemberText Q cs m := by
  cases h with
  | mk hk hb hb' hv => exact .mk hk hb hb' (hPQ hv)

end

theorem arrayTurn_close {b : List Char} (hb : Blank b) (first : Bool) (rest : List Char) :
    arrayTurn first (b ++ ']' :: rest) = .ok (.close rest) := by
  rw [arrayTurn, skipSpace_blank hb, skipSpace_cons (by decide)]
  rfl

theorem arrayTurn_first {b : List Char} (hb : Blank b) {c : Char} (hc : isSpace c = false)
    (hclose : c ≠ ']') (cs : List Char) :
    arrayTurn true (b ++ c :: cs) = .ok (.next (c :: cs)) := by
  rw [arrayTurn, skipSpace_blank hb, skipSpace_cons hc]
  simp [hclose]

theorem arrayTurn_comma {b b' : List Char} (hb : Blank b) (hb' : Blank b') {c : Char}
    (hc : isSpace c = false) (hclose : c ≠ ']') (cs : List Char) :
    arrayTurn false (b ++ ',' :: (b' ++ c :: cs)) = .ok (.next (c :: cs)) := by
  rw [arrayTurn, skipSpace_blank hb, skipSpace_cons (by decide)]
  simp [skipSpace_blank hb', skipSpace_cons hc, hclose]

theorem objectTurn_close {b : List Char} (hb : Blank b) (first : Bool) (rest : List Char) :
    objectTurn first (b ++ '}' :: rest) = .ok (.close rest) := by
  rw [objectTurn, skipSpace_blank hb, skipSpace_cons (by decide)]
  rfl

theorem objectTurn_first {b : List Char} (hb : Blank b) (cs : List Char) :
    objectTurn true (b ++ '"' :: cs) = .ok (.next cs) := by
  rw [objectTurn, skipSpace_blank hb, skipSpace_cons (by decide)]
  rfl

theorem objectTurn_comma {b b' : List Char} (hb : Blank b) (hb' : Blank b') (cs : List Char) :
    objectTurn false (b ++ ',' :: (b' ++ '"' :: cs)) = .ok (.next cs) := by
  rw [objectTurn, skipSpace_blank hb, skipSpace_cons (by decide)]
  simp [skipSpace_blank hb', skipSpace_cons (c := '"') (by decide)]

theorem colon_append {b : List Char} (hb : Blank b) (rest : List Char) :
    colon (b ++ ':' :: rest) = .ok ((), rest) := by
  rw [colon, skipSpace_blank hb, skipSpace_cons (by decide)]
  rfl

theorem Blank.append {b b' : List Char} (hb : Blank b) (hb' : Blank b') : Blank (b ++ b') :=
  List.forall_mem_append.2 ⟨hb, hb'⟩

theorem blank_of_skipSpace {cs ds : List Char} (h : skipSpace cs = ds) :
    ∃ b, Blank b ∧ cs = b ++ ds :=
  h ▸ exists_blank cs

theorem of_arrayTurn_close {first : Bool} {cs rest : List Char}
    (h : arrayTurn first cs = .ok (.close rest)) : ∃ b, Blank b ∧ cs = b ++ ']' :: rest := by
  unfold arrayTurn at h
  split at h
  · cases h
  · next hcs =>
    split at h
    · next hc =>
      cases h
      exact hc ▸ blank_of_skipSpace hcs
    · split at h
      · cases h
      · split at h
        · split at h
          · cases h
          · split at h <;> cases h
        · cases h

theorem of_arrayTurn_first {cs ds : List Char} (h : arrayTurn true cs = .ok (.next ds)) :
    ∃ b, Blank b ∧ cs = b ++ ds := by
  unfold arrayTurn at h
  split at h
  · cases h
  · next hcs =>
    split at h
    · cases h
    · cases h
      exact blank_of_skipSpace hcs

theorem of_arrayTurn_comma {cs ds : List Char} (h : arrayTurn false cs = .ok (.next ds)) :
    ∃ b b', Blank b ∧ Blank b' ∧ cs = b ++ ',' :: (b' ++ ds) := by
  unfold arrayTurn at h
  split at h
  · cases h
  · next hcs =>
    obtain ⟨b, hb, rfl⟩ := blank_of_skipSpace hcs
    split at h
    · cases h
    · simp only [Bool.false_eq_true, if_false] at h
      split at h
      · next hc =>
        split at h
        · cases h
        · next hds =>
          obtain ⟨b', hb', rfl⟩ := blank_of_skipSpace hds
          split at h
          · cases h
          · cases h
            exact ⟨b, b', hb, hb', by rw [hc]⟩
      · cases h

theorem of_objectTurn_close {first : Bool} {cs rest : List Char}
    (h : objectTurn first cs = .ok (.close rest)) : ∃ b, Blank b ∧ cs = b ++ '}' :: rest := by
  unfold objectTurn at h
  split at h
  · cases h
  · next hcs =>
    split at h
    · next hc =>
      cases h
      exact hc ▸ blank_of_skipSpace hcs
    · split at h
      · split at h <;> cases h
      · split at h
        · split at h
          · cases h
          · split at h <;> cases h
        · cases h

theorem of_objectTurn_first {cs ds : List Char} (h : objectTurn true cs = .ok (.next ds)) :
    ∃ b, Blank b ∧ cs = b ++ '"' :: ds := by
  unfold objectTurn at h
  split at h
  · cases h
  · next hcs =>
    split at h
    · cases h
    · simp only [if_true] at h
      split at h
      · next hc =>
        cases h
        exact hc ▸ blank_of_skipSpace hcs
      · cases h

theorem of_objectTurn_comma {cs ds : List Char} (h : objectTurn false cs = .ok (.next ds)) :
    ∃ b b', Blank b ∧ Blank b' ∧ cs = b ++ ',' :: (b' ++ '"' :: ds) := by
  unfold objectTurn at h
  split at h
  · cases h
  · next hcs =>
    obtain ⟨b, hb, rfl⟩ := blank_of_skipSpace hcs
    split at h
    · cases h
    · simp only [Bool.false_eq_true, if_false] at h
      split at h
      · next hc =>
        split at h
        · cases h
        · next hds =>
          obtain ⟨b', hb', rfl⟩ := blank_of_skipSpace hds
          split at h
          · next hquote =>
            cases h
            exact ⟨b, b', hb, hb', by rw [hc, hquote]⟩
          · cases h
      · cases h

theorem of_colon {cs rest : List Char} {x : Unit} (h : colon cs = .ok (x, rest)) :
    ∃ b, Blank b ∧ cs = b ++ ':' :: rest := by
  unfold colon at h
  split at h
  · cases h
  · next hcs =>
    split at h
    · next hc =>
      cases h
      exact hc ▸ blank_of_skipSpace hcs
    · cases h

theorem of_map_eq_ok {ε α β : Type} {e : Except ε α} {f : α → β} {b : β}
    (h : e.map f = .ok b) : ∃ a, e = .ok a ∧ f a = b := by
  cases e with
  | error => cases h
  | ok a => exact ⟨a, rfl, Except.ok.inj h⟩

section
variable {α : Type} {item : Reader α}

theorem itemsFrom_close {first : Bool} {cs rest : List Char}
    (h : arrayTurn first cs = .ok (.close rest)) : itemsFrom item first cs = .ok ([], rest) := by
  rw [itemsFrom, h]

theorem itemsFrom_next {first : Bool} {cs ds rest : List Char} {a : α}
    (h : arrayTurn first cs = .ok (.next ds)) (ha : item ds = .ok (a, rest))
    (hlt : rest.length < cs.length) :
    itemsFrom item first cs = (itemsFrom item false rest).map fun r => (a :: r.1, r.2) := by
  rw [itemsFrom, h]
  simp only [ha, if_pos hlt]
  cases itemsFrom item false rest <;> rfl

theorem itemsFrom_error {first : Bool} {cs ds : List Char} {e : Fault}
    (h : arrayTurn first cs = .ok (.next ds)) (he : item ds = .error e) :
    itemsFrom item first cs = .error e := by
  rw [itemsFrom, h]
  simp only [he]

/-- Whatever the reader gives, it gives for a text of `P` behind blanks. -/
def ReadsOnly (item : Reader α) (P : List Char → α → Prop) : Prop :=
  ∀ {ds rest : List Char} {a : α}, item ds = .ok (a, rest) →
    ∃ b u, Blank b ∧ ds = b ++ (u ++ rest) ∧ P u a

/-- Behind blanks and in front of every text with which no number goes on, the reader gives what
`P` says. The texts of `P` start neither with a blank nor with a bracket that closes a list. -/
structure ReadsAll (item : Reader α) (P : List Char → α → Prop) : Prop where
  blank : ∀ {b : List Char}, Blank b → ∀ cs, item (b ++ cs) = item cs
  read : ∀ {u : List Char} {a : α}, P u a → ∀ {rest : List Char}, Closed rest →
    item (u ++ rest) = .ok (a, rest)
  head : ∀ {u : List Char} {a : α}, P u a → ∃ c t, u = c :: t ∧ isSpace c = false ∧ c ≠ ']'

variable {P : List Char → α → Prop}

theorem closed_cons {c : Char} (hc : isNumeric c = false) (cs : List Char) : Closed (c :: cs) := by
  rintro d ⟨⟩
  exact hc

theorem closed_blank {b cs : List Char} (hb : Blank b) (hcs : Closed cs) : Closed (b ++ cs) := by
  cases b with
  | nil => exact hcs
  | cons c b =>
    have hc := hb c List.mem_cons_self
    refine closed_cons ?_ _
    simp only [isSpace, Bool.or_eq_true, beq_iff_eq] at hc
    rcases hc with ((rfl | rfl) | rfl) | rfl <;> decide

/-- Behind a part of a list no number goes on. -/
theorem Further.closed {cs : List Char} {as : List α} (h : Further P cs as) {c : Char}
    (hc : isNumeric c = false) (rest : List Char) : Closed (cs ++ c :: rest) := by
  cases h with
  | close hb => exact closed_blank hb (closed_cons hc rest)
  | next hb _ _ _ =>
    rw [List.append_assoc, List.cons_append]
    exact closed_blank hb (closed_cons (by decide) _)

theorem itemsFrom_further (hall : ReadsAll item P) {cs : List Char} {as : List α}
    (h : Further P cs as) (rest : List Char) :
    itemsFrom item false (cs ++ ']' :: rest) = .ok (as, rest) := by
  induction h with
  | close hb => exact itemsFrom_close (arrayTurn_close hb false rest)
  | @next b b' u cs a as hb hb' ha h ih =>
    obtain ⟨c, t, rfl, hc, hclose⟩ := hall.head ha
    have hturn := arrayTurn_comma hb hb' hc hclose (t ++ (cs ++ ']' :: rest))
    have hitem := hall.read ha (h.closed (c := ']') (by decide) rest)
    simp only [List.append_assoc, List.cons_append] at hitem ⊢
    rw [itemsFrom_next hturn hitem (by simp; omega), ih]
    rfl

theorem itemsFrom_parts (hall : ReadsAll item P) {cs : List Char} {as : List α}
    (h : Parts P cs as) (rest : List Char) :
    itemsFrom item true (cs ++ ']' :: rest) = .ok (as, rest) := by
  cases h with
  | none hb => exact itemsFrom_close (arrayTurn_close hb true rest)
  | @some b u cs a as hb ha h =>
    obtain ⟨c, t, rfl, hc, hclose⟩ := hall.head ha
    have hturn := arrayTurn_first hb hc hclose (t ++ (cs ++ ']' :: rest))
    have hitem := hall.read ha (h.closed (c := ']') (by decide) rest)
    simp only [List.append_assoc, List.cons_append] at hitem ⊢
    rw [itemsFrom_next hturn hitem (by simp; omega), itemsFrom_further hall h]
    rfl

theorem of_itemsFrom (honly : ReadsOnly item P) {first : Bool} {cs rest : List Char} {as : List α}
    (h : itemsFrom item first cs = .ok (as, rest)) :
    ∃ body, cs = body ++ ']' :: rest ∧
      (first = true → Parts P body as) ∧ (first = false → Further P body as) := by
  fun_induction itemsFrom item first cs generalizing as rest with
  | case1 => cases h
  | case2 first cs rest hturn =>
    cases h
    obtain ⟨b, hb, rfl⟩ := of_arrayTurn_close hturn
    exact ⟨b, rfl, fun _ => .none hb, fun _ => .close hb⟩
  | case3 => cases h
  | case4 => cases h
  | case5 first cs ds hturn a more hitem hlt as' rest' hrest ih =>
    cases h
    obtain ⟨body, rfl, -, hbody⟩ := ih hrest
    obtain ⟨b, u, hb, rfl, ha⟩ := honly hitem
    -- blanks that the item skips itself join those in front of it
    cases first with
    | true =>
      obtain ⟨b', hb', rfl⟩ := of_arrayTurn_first hturn
      exact ⟨b' ++ b ++ (u ++ body), by simp, fun _ => .some (hb'.append hb) ha (hbody rfl),
        fun hfirst => absurd hfirst (by decide)⟩
    | false =>
      obtain ⟨b', b'', hb', hb'', rfl⟩ := of_arrayTurn_comma hturn
      exact ⟨b' ++ ',' :: (b'' ++ b ++ (u ++ body)), by simp,
        fun hfirst => absurd hfirst (by decide), fun _ => .next hb' (hb''.append hb) ha (hbody rfl)⟩
  | case6 => cases h

end

section
variable {σ : Type} {value : σ → String → Except Fault (Reader σ)} {s : σ}

theorem membersFrom_close {first : Bool} {cs rest : List Char}
    (h : objectTurn first cs = .ok (.close rest)) :
    membersFrom value s first cs = .ok (s, rest) := by
  rw [membersFrom, h]

variable {first : Bool} {cs k b ds : List Char} {key : String} {read : Reader σ}
  (h : objectTurn first cs = .ok (.next (k ++ '"' :: (b ++ ':' :: ds))))
  (hk : Literal k key.toList) (hb : Blank b) (hkey : value s key = .ok read)

include h hk hb hkey

/-- One member: the key is judged first, then its value is read behind the colon. -/
theorem membersFrom_next {rest : List Char} {s' : σ} (hread : read ds = .ok (s', rest))
    (hlt : rest.length < cs.length) :
    membersFrom value s first cs = membersFrom value s' false rest := by
  have hstring : stringBody (k ++ '"' :: (b ++ ':' :: ds)) = .ok (key, b ++ ':' :: ds) :=
    stringBody_eq_ok_iff.2 ⟨k, hk, rfl⟩
  rw [membersFrom, h]
  simp only [hstring, hkey, colon_append hb, hread, bind, Except.bind, if_pos hlt]

theorem membersFrom_error {e : Fault} (hread : read ds = .error e) :
    membersFrom value s first cs = .error e := by
  have hstring : stringBody (k ++ '"' :: (b ++ ':' :: ds)) = .ok (key, b ++ ':' :: ds) :=
    stringBody_eq_ok_iff.2 ⟨k, hk, rfl⟩
  rw [membersFrom, h]
  simp only [hstring, hkey, colon_append hb, hread, bind, Except.bind]

end

section
variable {α σ : Type} {item : Reader α} {P : List Char → α → Prop}

/-- Members whose values are all read by `item` and put into a state under their keys. -/
def putting (item : Reader α) (put : σ → String → α → σ) (s : σ) (key : String) :
    Except Fault (Reader σ) :=
  .ok fun cs => (item cs).map fun r => (put s key r.1, r.2)

variable {put : σ → String → α → σ}

theorem putting_read (put : σ → String → α → σ) (hall : ReadsAll item P) {b u : List Char} {a : α}
    (hb : Blank b) (ha : P u a) {rest : List Char} (hrest : Closed rest) (s : σ) (key : String) :
    ∃ read, putting item put s key = .ok read ∧
      read (b ++ (u ++ rest)) = .ok (put s key a, rest) := by
  refine ⟨_, rfl, ?_⟩
  rw [hall.blank hb, hall.read ha hrest]
  rfl

theorem membersFrom_further (hall : ReadsAll item P) {cs : List Char} {ms : List (String × α)}
    (h : Further (MemberText P) cs ms) (s : σ) (rest : List Char) :
    membersFrom (putting item put) s false (cs ++ '}' :: rest) =
      .ok (ms.foldl (fun s m => put s m.1 m.2) s, rest) := by
  induction h generalizing s with
  | close hb => exact membersFrom_close (objectTurn_close hb false rest)
  | @next b b' u cs a as hb hb' ha h ih =>
    cases ha with
    | @mk k e e' v key x hk he he' hv =>
      obtain ⟨read, hkey, hread⟩ :=
        putting_read put hall he' hv (h.closed (c := '}') (by decide) rest) s key
      have hturn := objectTurn_comma hb hb'
        (k ++ '"' :: (e ++ ':' :: (e' ++ (v ++ (cs ++ '}' :: rest)))))
      simp only [List.append_assoc, List.cons_append]
      rw [membersFrom_next hturn hk he hkey hread (by simp; omega), ih]
      rfl

theorem membersFrom_parts (hall : ReadsAll item P) {cs : List Char} {ms : List (String × α)}
    (h : Parts (MemberText P) cs ms) (s : σ) (rest : List Char) :
    membersFrom (putting item put) s true (cs ++ '}' :: rest) =
      .ok (ms.foldl (fun s m => put s m.1 m.2) s, rest) := by
  cases h with
  | none hb => exact membersFrom_close (objectTurn_close hb true rest)
  | @some b u cs a as hb ha h =>
    cases ha with
    | @mk k e e' v key x hk he he' hv =>
      obtain ⟨read, hkey, hread⟩ :=
        putting_read put hall he' hv (h.closed (c := '}') (by decide) rest) s key
      have hturn := objectTurn_first hb
        (k ++ '"' :: (e ++ ':' :: (e' ++ (v ++ (cs ++ '}' :: rest)))))
      simp only [List.append_assoc, List.cons_append]
      rw [membersFrom_next hturn hk he hkey hread (by simp; omega), membersFrom_further hall h]
      rfl

theorem of_membersFrom (honly : ReadsOnly item P) {s s' : σ} {first : Bool} {cs rest : List Char}
    (h : membersFrom (putting item put) s first cs = .ok (s', rest)) :
    ∃ body ms, cs = body ++ '}' :: rest ∧ s' = ms.foldl (fun s m => put s m.1 m.2) s ∧
      (first = true → Parts (MemberText P) body ms) ∧
      (first = false → Further (MemberText P) body ms) := by
  fun_induction membersFrom (putting item put) s first cs generalizing s' rest with
  | case1 => cases h
  | case2 s first cs rest hturn =>
    cases h
    obtain ⟨b, hb, rfl⟩ := of_objectTurn_close hturn
    exact ⟨b, [], rfl, rfl, fun _ => .none hb, fun _ => .close hb⟩
  | case3 => cases h
  | case4 s first cs ds hturn s'' more hmember hlt ih =>
    obtain ⟨body, ms, rfl, rfl, -, hbody⟩ := ih h
    have hone : ∃ u m, MemberText P u m ∧ '"' :: ds = u ++ (body ++ '}' :: rest) ∧
        s'' = put s m.1 m.2 := by
      simp only [putting, bind, Except.bind] at hmember
      split at hmember
      · cases hmember
      · next key hkey =>
        obtain ⟨k, hk, rfl⟩ := stringBody_eq_ok_iff.1 hkey
        split at hmember
        · cases hmember
        · next behind hcolon =>
          obtain ⟨e, he, hbehind⟩ := of_colon hcolon
          obtain ⟨⟨v, after⟩, hv, heq⟩ := of_map_eq_ok hmember
          cases heq
          obtain ⟨e', u, he', hvalue, hv⟩ := honly hv
          exact ⟨_, _, .mk hk he he' hv, by simp [hbehind, hvalue], rfl⟩
    obtain ⟨u, m, hm, hds, rfl⟩ := hone
    cases first with
    | true =>
      obtain ⟨b, hb, rfl⟩ := of_objectTurn_first hturn
      exact ⟨b ++ (u ++ body), m :: ms, by simp [hds], rfl, fun _ => .some hb hm (hbody rfl),
        fun hfirst => absurd hfirst (by decide)⟩
    | false =>
      obtain ⟨b, b', hb, hb', rfl⟩ := of_objectTurn_comma hturn
      exact ⟨b ++ ',' :: (b' ++ (u ++ body)), m :: ms, by simp [hds], rfl,
        fun hfirst => absurd hfirst (by decide), fun _ => .next hb hb' hm (hbody rfl)⟩
  | case5 => cases h

end

end CAudit.Json.Reader
