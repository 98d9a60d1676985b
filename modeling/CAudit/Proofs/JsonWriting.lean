import CAudit.Proofs.JsonGrammar

/-! What is written is read back. The text of a value, on one line or indented, is a text of this
value in the grammar, unless the value holds what text cannot give back: a double, a number of more
than 64 bits, a key twice in one object, or more levels than the reader opens. -/
namespace CAudit.Json
open Reader

theorem intercalate_comma (x : List Char) (xs : List (List Char)) :
    [','].intercalate (x :: xs) = x ++ xs.flatMap (',' :: ·) := by
  induction xs generalizing x with
  | nil => simp
  | cons y ys ih =>
    rw [List.intercalate_cons_cons, ih]
    simp

section
variable {α : Type} {P : List Char → α → Prop} {text : α → List Char} {b e : List Char}

theorem further_commas (hb : Blank b) (he : Blank e) {as : List α} (h : ∀ a ∈ as, P (text a) a) :
    Further P (as.flatMap (fun a => ',' :: (b ++ text a)) ++ e) as := by
  induction as with
  | nil => exact .close he
  | cons a as ih =>
    simp only [List.forall_mem_cons] at h
    rw [List.flatMap_cons, List.append_assoc, List.cons_append, List.append_assoc]
    exact .next blank_nil hb h.1 (ih h.2)

/-- Parts behind blanks, joined by commas, are a list of the parts. -/
theorem parts_intercalate (hb : Blank b) (he : Blank e) {as : List α}
    (h : ∀ a ∈ as, P (text a) a) :
    Parts P ([','].intercalate (as.map fun a => b ++ text a) ++ e) as := by
  cases as with
  | nil => exact .none he
  | cons a as =>
    simp only [List.forall_mem_cons] at h
    rw [List.map_cons, intercalate_comma, List.flatMap_map, List.append_assoc, List.append_assoc]
    exact .some hb h.1 (further_commas hb he h.2)

end

theorem eq_intercalate {α : Type} {join : List α → List Char} {text : α → List Char}
    (nil : join [] = []) (one : ∀ a, join [a] = text a)
    (more : ∀ a a' as, join (a :: a' :: as) = text a ++ ',' :: join (a' :: as)) (as : List α) :
    join as = [','].intercalate (as.map text) := by
  induction as with
  | nil => exact nil
  | cons a as ih =>
    cases as with
    | nil => simp [one]
    | cons a' as =>
      rw [more, ih]
      simp [List.intercalate_cons_cons]

theorem compactItems_eq (vs : List Json) :
    compactItems vs = [','].intercalate (vs.map compactText) :=
  eq_intercalate rfl (fun _ => rfl) (fun _ _ _ => rfl) vs

theorem compactMembers_eq (ms : List (String × Json)) :
    compactMembers ms =
      [','].intercalate (ms.map fun m => stringText m.1 ++ ':' :: compactText m.2) :=
  eq_intercalate rfl (fun _ => rfl) (fun _ _ _ => rfl) ms

theorem prettyItems_eq (level : Nat) (vs : List Json) :
    prettyItems level vs =
      [','].intercalate (vs.map fun v => newline level ++ prettyText level v) :=
  eq_intercalate rfl (fun _ => rfl) (fun _ _ _ => rfl) vs

theorem prettyMembers_eq (level : Nat) (ms : List (String × Json)) :
    prettyMembers level ms = [','].intercalate (ms.map fun m =>
      newline level ++ (stringText m.1 ++ ':' :: ' ' :: prettyText level m.2)) :=
  eq_intercalate rfl (fun _ => by simp [prettyMembers]) (fun _ _ _ => by simp [prettyMembers]) ms

theorem blank_newline (level : Nat) : Blank (newline level) := by
  refine List.forall_mem_cons.2 ⟨by decide, fun c hc => ?_⟩
  rw [List.eq_of_mem_replicate hc]
  decide

theorem memberText_stringText {P : List Char → Json → Prop} {b u : List Char} (hb : Blank b)
    (key : String) {v : Json} (hv : P u v) :
    MemberText P (stringText key ++ ':' :: (b ++ u)) (key, v) := by
  have h := MemberText.mk (literal_flatMap_escapeChar key.toList) blank_nil hb hv
  simpa [stringText] using h

section
variable {P : List Char → Json → Prop}

theorem parts_compactItems {vs : List Json} (h : ∀ v ∈ vs, P (compactText v) v) :
    Parts P (compactItems vs) vs := by
  rw [compactItems_eq]
  simpa using parts_intercalate blank_nil blank_nil h

theorem parts_compactMembers {ms : List (String × Json)} (h : ∀ m ∈ ms, P (compactText m.2) m.2) :
    Parts (MemberText P) (compactMembers ms) ms := by
  rw [compactMembers_eq]
  simpa using parts_intercalate blank_nil blank_nil fun m hm =>
    memberText_stringText blank_nil m.1 (h m hm)

theorem parts_prettyItems {level : Nat} {vs : List Json}
    (h : ∀ v ∈ vs, P (prettyText (level + 1) v) v) :
    Parts P (prettyItems (level + 1) vs ++ newline level) vs := by
  rw [prettyItems_eq]
  exact parts_intercalate (blank_newline _) (blank_newline _) h

theorem parts_prettyMembers {level : Nat} {ms : List (String × Json)}
    (h : ∀ m ∈ ms, P (prettyText (level + 1) m.2) m.2) :
    Parts (MemberText P) (prettyMembers (level + 1) ms ++ newline level) ms := by
  rw [prettyMembers_eq]
  exact parts_intercalate (blank_newline _) (blank_newline _) fun m hm =>
    memberText_stringText (b := [' ']) (List.forall_mem_singleton.2 rfl) m.1 (h m hm)

end

theorem setMember_of_notMem {ms : List (String × Json)} {key : String}
    (h : key ∉ ms.map (·.1)) (v : Json) : setMember ms key v = ms ++ [(key, v)] := by
  have hany : (ms.any fun m => m.1 == key) = false := by
    rw [List.any_eq_false]
    intro m hm heq
    exact h (List.mem_map.2 ⟨m, hm, by simpa using heq⟩)
  rw [setMember, hany]
  rfl

theorem foldl_setMember {before ms : List (String × Json)}
    (h : ((before ++ ms).map (·.1)).Nodup) :
    ms.foldl (fun ms m => setMember ms m.1 m.2) before = before ++ ms := by
  induction ms generalizing before with
  | nil => simp
  | cons m ms ih =>
    have hm : m.1 ∉ before.map (·.1) := by
      intro hmem
      rw [List.map_append, List.nodup_append] at h
      exact h.2.2 _ hmem _ (List.mem_cons_self) rfl
    rw [List.foldl_cons, setMember_of_notMem hm, ih (by simpa using h)]
    simp

/-- Members with distinct keys stay as they are written. -/
theorem collect_of_nodup {ms : List (String × Json)} (h : (ms.map (·.1)).Nodup) :
    collect ms = ms :=
  foldl_setMember h

theorem nested_object {P : List Char → Json → Prop} {body : List Char}
    {ms : List (String × Json)} (hkeys : (ms.map (·.1)).Nodup)
    (h : Parts (MemberText P) body ms) : Nested P ('{' :: (body ++ ['}'])) (.object ms) := by
  have htext := Nested.object h
  rwa [collect_of_nodup hkeys] at htext

/-- Numbers that are read as they were written. -/
def Number.Exact : Number → Prop
  | .nat n => n ≤ maxWord
  | .negative n => 0 < n ∧ n ≤ 0x8000000000000000
  | .float _ => False

/-- Values that hold no others and are read as they were written. -/
inductive ExactScalar : Json → Prop where
  | null : ExactScalar .null
  | bool (b : Bool) : ExactScalar (.bool b)
  | number {n : Number} (h : n.Exact) : ExactScalar (.number n)
  | string (s : String) : ExactScalar (.string s)

inductive ExactNested (P : Json → Prop) : Json → Prop where
  | scalar {v : Json} (h : ExactScalar v) : ExactNested P v
  | array {items : List Json} (h : ∀ v ∈ items, P v) : ExactNested P (.array items)
  | object {ms : List (String × Json)} (hkeys : (ms.map (·.1)).Nodup) (h : ∀ m ∈ ms, P m.2) :
      ExactNested P (.object ms)

/-- Values of at most `room` levels, with exact numbers and distinct keys. -/
def Exact : Nat → Json → Prop
  | 0 => ExactScalar
  | room + 1 => ExactNested (Exact room)

theorem Exact.of_scalar {room : Nat} {v : Json} (h : ExactScalar v) : Exact room v := by
  cases room with
  | zero => exact h
  | succ room => exact .scalar h

theorem scalar_compactText {v : Json} (h : ExactScalar v) : Scalar (compactText v) v := by
  cases h with
  | null => exact .null
  | bool b =>
    cases b with
    | true => exact .isTrue
    | false => exact .isFalse
  | @number n h =>
    refine .number ?_
    cases n with
    | nat n => simpa [compactText, numberText] using number_natText h closed_nil
    | negative n => simpa [compactText, numberText] using number_negative h.1 h.2 closed_nil
    | float x => exact h.elim
  | string s => exact .string (literal_flatMap_escapeChar s.toList)

theorem prettyText_of_scalar {v : Json} (h : ExactScalar v) (level : Nat) :
    prettyText level v = compactText v := by
  cases h <;> rfl

theorem valueText_compactText {room : Nat} {v : Json} (h : Exact room v) :
    ValueText room (compactText v) v := by
  induction room generalizing v with
  | zero => exact scalar_compactText h
  | succ room ih =>
    cases h with
    | scalar h => exact .scalar (scalar_compactText h)
    | array h => exact .array (parts_compactItems fun v hv => ih (h v hv))
    | object hkeys h => exact nested_object hkeys (parts_compactMembers fun m hm => ih (h m hm))

theorem valueText_prettyText {room : Nat} {v : Json} (h : Exact room v) (level : Nat) :
    ValueText room (prettyText level v) v := by
  induction room generalizing v level with
  | zero =>
    rw [prettyText_of_scalar h]
    exact scalar_compactText h
  | succ room ih =>
    cases h with
    | scalar h =>
      rw [prettyText_of_scalar h]
      exact .scalar (scalar_compactText h)
    | @array items h =>
      cases items with
      | nil => exact .array (.none blank_nil)
      | cons v vs => exact .array (parts_prettyItems fun v hv => ih (h v hv) (level + 1))
    | @object ms hkeys h =>
      cases ms with
      | nil => exact .object (.none blank_nil)
      | cons m ms =>
        exact nested_object hkeys (parts_prettyMembers fun m hm => ih (h m hm) (level + 1))

/-- A value is read back from its text on one line. -/
theorem parse_compact {v : Json} (h : Exact maxNesting v) : parse v.compact = .ok v :=
  parse_eq_ok_iff.2 ⟨[], _, [], blank_nil, blank_nil, by simp [compact], valueText_compactText h⟩

/-- A value is read back from its indented text. -/
theorem parse_prettyText {v : Json} (h : Exact maxNesting v) (level : Nat) :
    parse (String.ofList (prettyText level v)) = .ok v :=
  parse_eq_ok_iff.2 ⟨[], _, [], blank_nil, blank_nil, by simp, valueText_prettyText h level⟩

end CAudit.Json
