import CAudit.Proofs.JsonList

/-! The grammar of JSON values, level by level of nesting. The reader of values gives a value
exactly for the texts that the grammar has for it. -/
namespace CAudit.Json

namespace Reader

/-- The texts of values that hold no others. -/
inductive Scalar : List Char → Json → Prop where
  | null : Scalar ['n', 'u', 'l', 'l'] .null
  | isTrue : Scalar ['t', 'r', 'u', 'e'] (.bool true)
  | isFalse : Scalar ['f', 'a', 'l', 's', 'e'] (.bool false)
  | number {u : List Char} {n : Number} (h : number u = .ok (n, [])) : Scalar u (.number n)
  | string {k : List Char} {s : String} (h : Literal k s.toList) :
      Scalar ('"' :: (k ++ ['"'])) (.string s)

/-- The members under their keys: a key that is written again keeps its place and takes the new
value. -/
def collect (ms : List (String × Json)) : List (String × Json) :=
  ms.foldl (fun ms m => setMember ms m.1 m.2) []

/-- The texts of values, from the texts of the values inside them. -/
inductive Nested (P : List Char → Json → Prop) : List Char → Json → Prop where
  | scalar {u : List Char} {v : Json} (h : Scalar u v) : Nested P u v
  | array {body : List Char} {items : List Json} (h : Parts P body items) :
      Nested P ('[' :: (body ++ [']'])) (.array items)
  | object {body : List Char} {ms : List (String × Json)} (h : Parts (MemberText P) body ms) :
      Nested P ('{' :: (body ++ ['}'])) (.object (collect ms))

/-- The texts of values in which at most `room` arrays and objects are open at once. -/
def ValueText : Nat → List Char → Json → Prop
  | 0 => Scalar
  | room + 1 => Nested (ValueText room)

theorem ValueText.of_scalar {room : Nat} {u : List Char} {v : Json} (h : Scalar u v) :
    ValueText room u v := by
  cases room with
  | zero => exact h
  | succ room => exact .scalar h

theorem ValueText.succ {room : Nat} {u : List Char} {v : Json} (h : ValueText room u v) :
    ValueText (room + 1) u v := by
  induction room generalizing u v with
  | zero => exact .scalar h
  | succ room ih =>
    cases h with
    | scalar h => exact .scalar h
    | array h => exact .array (h.mono ih)
    | object h => exact .object (h.mono (·.mono ih))

theorem ValueText.mono {room more : Nat} (hle : room ≤ more) {u : List Char} {v : Json}
    (h : ValueText room u v) : ValueText more u v := by
  induction hle with
  | refl => exact h
  | step _ ih => exact ih.succ

theorem ValueText.of_array {room : Nat} {a : List Char} {items : List Json}
    (h : ValueText room a (.array items)) :
    ∃ inner body, room = inner + 1 ∧ a = '[' :: (body ++ [']']) ∧
      Parts (ValueText inner) body items := by
  cases room with
  | zero => cases h
  | succ inner =>
    cases h with
    | scalar h => cases h
    | array h => exact ⟨inner, _, rfl, rfl, h⟩

theorem ValueText.of_object {room : Nat} {u : List Char} {ms : List (String × Json)}
    (h : ValueText room u (.object ms)) :
    ∃ inner body written, room = inner + 1 ∧ u = '{' :: (body ++ ['}']) ∧
      Parts (MemberText (ValueText inner)) body written ∧ ms = collect written := by
  cases room with
  | zero => cases h
  | succ inner =>
    cases h with
    | scalar h => cases h
    | object h => exact ⟨inner, _, _, rfl, rfl, h, rfl⟩

theorem value_blank (room : Nat) {b : List Char} (hb : Blank b) (cs : List Char) :
    value room (b ++ cs) = value room cs := by
  rw [value, value, skipSpace_blank hb]

theorem isSpace_of_number {c : Char} (hc : c = '-' ∨ isDigit c = true) : isSpace c = false := by
  rw [← Bool.not_eq_true]
  intro hspace
  simp only [isSpace, Bool.or_eq_true, beq_iff_eq] at hspace
  rcases hspace with ((rfl | rfl) | rfl) | rfl <;> revert hc <;> decide

theorem value_number (room : Nat) {c : Char} (hc : c = '-' ∨ isDigit c = true) (cs : List Char) :
    value room (c :: cs) = (number (c :: cs)).map fun r => (.number r.1, r.2) := by
  have hne (d : Char) (hd : isDigit d = false) (hminus : d ≠ '-') : c ≠ d := by
    rintro rfl
    rcases hc with rfl | hc
    · exact hminus rfl
    · rw [hc] at hd
      cases hd
  rw [value, skipSpace_cons (isSpace_of_number hc)]
  simp only [if_neg (hne 'n' (by decide) (by decide)), if_neg (hne 't' (by decide) (by decide)),
    if_neg (hne 'f' (by decide) (by decide))]
  rw [if_pos (by simpa using hc)]

theorem value_string (room : Nat) (cs : List Char) :
    value room ('"' :: cs) = (stringBody cs).map fun r => (.string r.1, r.2) := by
  rw [value, skipSpace_cons (by decide)]
  simp [isDigit]

theorem value_array (room : Nat) (cs : List Char) :
    value (room + 1) ('[' :: cs) =
      (itemsFrom (value room) true cs).map fun r => (.array r.1, r.2) := by
  rw [value, skipSpace_cons (by decide)]
  rfl

theorem value_object (room : Nat) (cs : List Char) :
    value (room + 1) ('{' :: cs) =
      (membersFrom (putting (value room) setMember) [] true cs).map
        fun r => (.object r.1, r.2) := by
  rw [value, skipSpace_cons (by decide)]
  rfl

/-- What a value can be, told by its first character. -/
theorem of_value {room : Nat} {c : Char} {cs rest : List Char} {v : Json}
    (hc : isSpace c = false) (h : value room (c :: cs) = .ok (v, rest)) :
    (∃ u, c :: cs = u ++ rest ∧ Scalar u v) ∨
    (∃ room' items, room = room' + 1 ∧ c = '[' ∧ v = .array items ∧
      itemsFrom (value room') true cs = .ok (items, rest)) ∨
    (∃ room' ms, room = room' + 1 ∧ c = '{' ∧ v = .object ms ∧
      membersFrom (putting (value room') setMember) [] true cs = .ok (ms, rest)) := by
  rw [value, skipSpace_cons hc] at h
  simp only at h
  split at h
  · next hc =>
    obtain ⟨r, hr, heq⟩ := of_map_eq_ok h
    cases heq
    exact .inl ⟨_, by rw [hc, literal_eq_ok_iff.1 hr]; rfl, .null⟩
  · split at h
    · next hc =>
      obtain ⟨r, hr, heq⟩ := of_map_eq_ok h
      cases heq
      exact .inl ⟨_, by rw [hc, literal_eq_ok_iff.1 hr]; rfl, .isTrue⟩
    · split at h
      · next hc =>
        obtain ⟨r, hr, heq⟩ := of_map_eq_ok h
        cases heq
        exact .inl ⟨_, by rw [hc, literal_eq_ok_iff.1 hr]; rfl, .isFalse⟩
      · split at h
        · obtain ⟨r, hr, heq⟩ := of_map_eq_ok h
          cases heq
          obtain ⟨u, hu, hn⟩ := number_takesNumeral hr
          exact .inl ⟨u, hu, .number (by simpa using hn.taken [] closed_nil)⟩
        · split at h
          · next hc =>
            obtain ⟨r, hr, heq⟩ := of_map_eq_ok h
            cases heq
            obtain ⟨k, hk, hcs⟩ := stringBody_eq_ok_iff.1 hr
            exact .inl ⟨_, by simp [hc, hcs], .string hk⟩
          · split at h
            · next hc =>
              split at h
              · cases h
              · obtain ⟨r, hr, heq⟩ := of_map_eq_ok h
                cases heq
                exact .inr (.inl ⟨_, _, rfl, hc, rfl, hr⟩)
            · split at h
              · next hc =>
                split at h
                · cases h
                · obtain ⟨r, hr, heq⟩ := of_map_eq_ok h
                  cases heq
                  exact .inr (.inr ⟨_, _, rfl, hc, rfl, hr⟩)
              · cases h

theorem Scalar.value_append {u : List Char} {v : Json} (h : Scalar u v) (room : Nat)
    {rest : List Char} (hrest : Closed rest) : value room (u ++ rest) = .ok (v, rest) := by
  cases h with
  | null =>
    rw [List.cons_append, value, skipSpace_cons (by decide)]
    rfl
  | isTrue =>
    rw [List.cons_append, value, skipSpace_cons (by decide)]
    rfl
  | isFalse =>
    rw [List.cons_append, value, skipSpace_cons (by decide)]
    rfl
  | number h =>
    obtain ⟨c, t, rfl, hc⟩ := head_of_number h
    rw [List.cons_append, value_number room hc, ← List.cons_append,
      (numeral_of_number h).taken rest hrest]
    rfl
  | string h =>
    rw [List.cons_append, value_string, List.append_assoc, List.singleton_append,
      stringBody_eq_ok_iff.2 ⟨_, h, rfl⟩]
    rfl

theorem Scalar.head {u : List Char} {v : Json} (h : Scalar u v) :
    ∃ c t, u = c :: t ∧ isSpace c = false ∧ c ≠ ']' := by
  cases h with
  | null => exact ⟨_, _, rfl, by decide, by decide⟩
  | isTrue => exact ⟨_, _, rfl, by decide, by decide⟩
  | isFalse => exact ⟨_, _, rfl, by decide, by decide⟩
  | number h =>
    obtain ⟨c, t, rfl, hc⟩ := head_of_number h
    exact ⟨c, t, rfl, isSpace_of_number hc, by rintro rfl; revert hc; decide⟩
  | string h => exact ⟨_, _, rfl, by decide, by decide⟩

theorem ValueText.head {room : Nat} {u : List Char} {v : Json} (h : ValueText room u v) :
    ∃ c t, u = c :: t ∧ isSpace c = false ∧ c ≠ ']' := by
  cases room with
  | zero => exact Scalar.head h
  | succ room =>
    cases h with
    | scalar h => exact h.head
    | array h => exact ⟨_, _, rfl, by decide, by decide⟩
    | object h => exact ⟨_, _, rfl, by decide, by decide⟩

/-- Arrays and objects end with their brackets, whatever follows. -/
theorem value_array_append {room : Nat} (hall : ReadsAll (value room) (ValueText room))
    {body : List Char} {items : List Json} (h : Parts (ValueText room) body items)
    (rest : List Char) :
    value (room + 1) ('[' :: (body ++ [']']) ++ rest) = .ok (.array items, rest) := by
  rw [List.cons_append, value_array, List.append_assoc, List.singleton_append,
    itemsFrom_parts hall h]
  rfl

/-- Every text of a value is read. -/
theorem readsAll_value (room : Nat) : ReadsAll (value room) (ValueText room) := by
  induction room with
  | zero => exact ⟨value_blank 0, fun h _ hrest => Scalar.value_append h 0 hrest, ValueText.head⟩
  | succ room ih =>
    refine ⟨value_blank _, fun h rest hrest => ?_, ValueText.head⟩
    cases h with
    | scalar h => exact h.value_append _ hrest
    | array h => exact value_array_append ih h rest
    | object h =>
      rw [List.cons_append, value_object, List.append_assoc, List.singleton_append,
        membersFrom_parts ih h]
      rfl

theorem isSpace_of_skipSpace {cs ds : List Char} {c : Char} (h : skipSpace cs = c :: ds) :
    isSpace c = false := by
  have hhead := List.head?_dropWhile_not isSpace cs
  rw [skipSpace] at h
  rw [h] at hhead
  simpa using hhead

/-- Nothing but texts of values is read. -/
theorem readsOnly_value (room : Nat) : ReadsOnly (value room) (ValueText room) := by
  induction room using Nat.strongRecOn with
  | _ room ih =>
    intro ds rest v h
    obtain ⟨b, hb, hds⟩ := exists_blank ds
    cases hskip : skipSpace ds with
    | nil =>
      rw [value, hskip] at h
      cases h
    | cons c cs =>
      have hspace := isSpace_of_skipSpace hskip
      rw [hskip] at hds
      rw [hds, value_blank room hb] at h
      -- what stands inside brackets is read with less room
      rcases of_value hspace h with ⟨u, hu, hscalar⟩ | ⟨room, items, rfl, rfl, rfl, hitems⟩ |
        ⟨room, ms, rfl, rfl, rfl, hmembers⟩
      · exact ⟨b, u, hb, by rw [hds, hu], .of_scalar hscalar⟩
      · obtain ⟨body, rfl, hbody, -⟩ := of_itemsFrom (ih room (by omega)) hitems
        exact ⟨b, _, hb, by simp [hds], .array (hbody rfl)⟩
      · obtain ⟨body, written, rfl, rfl, hbody, -⟩ := of_membersFrom (ih room (by omega)) hmembers
        exact ⟨b, _, hb, by simp [hds], .object (hbody rfl)⟩

end Reader

open Reader

/-- The parser gives a value exactly for its texts, with blanks around them. -/
theorem parse_eq_ok_iff {s : String} {v : Json} :
    parse s = .ok v ↔
      ∃ b u e, Blank b ∧ Blank e ∧ s.toList = b ++ (u ++ e) ∧ ValueText maxNesting u v := by
  unfold parse whole
  constructor
  · intro h
    split at h
    · cases h
    · next r hr =>
      split at h
      · next hrest =>
        cases h
        obtain ⟨b, u, hb, hs, hu⟩ := readsOnly_value _ hr
        exact ⟨b, u, _, hb, skipSpace_eq_nil_iff.1 (List.isEmpty_iff.1 hrest), hs, hu⟩
      · cases h
  · rintro ⟨b, u, e, hb, he, hs, hu⟩
    have hclosed : Closed e := by simpa using closed_blank he closed_nil
    have hread : value maxNesting s.toList = .ok (v, e) := by
      rw [hs, value_blank _ hb, (readsAll_value _).read hu hclosed]
    simp [hread, skipSpace_eq_nil_iff.2 he]

end CAudit.Json
