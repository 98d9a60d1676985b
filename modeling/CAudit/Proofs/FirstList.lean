import CAudit.Proofs.JsonWriting
import CAudit.Proofs.Wrapping

/-! Findings wrapped in an object. The span from the first opening to the last closing bracket is
either the first list among the members or no JSON at all: where it starts, an array ends before the
span does. So the findings always come from the first list, as long as strings hold no brackets. -/
namespace CAudit.Json

/-- Where a character stands: outside string literals, inside one, or behind a backslash in one. -/
inductive Place where
  | outside | inside | escaped
  deriving DecidableEq, Repr

/-- The place behind a character. -/
def Place.step : Place → Char → Place
  | .outside, c => if c = '"' then .inside else .outside
  | .inside, c => if c = '"' then .outside else if c = '\\' then .escaped else .inside
  | .escaped, _ => .inside

/-- The characters behind each opening quote, through the closing one. -/
def quotedFrom (p : Place) : List Char → List Char
  | [] => []
  | c :: cs => (if p = .outside then [] else [c]) ++ quotedFrom (p.step c) cs

def quoted (cs : List Char) : List Char := quotedFrom .outside cs

/-- The keys of the members of an object, as often as they are written. -/
def writtenKeys (s : String) : List String :=
  match Reader.skipSpace s.toList with
  | '{' :: cs =>
    match Reader.membersFrom
        (Reader.putting (Reader.value (maxNesting - 1)) fun keys key _ => keys ++ [key])
        [] true cs with
    | .ok (keys, _) => keys
    | .error _ => []
  | _ => []

namespace Reader

theorem quotedFrom_plain {c : Char} (hquote : c ≠ '"') (hslash : c ≠ '\\') (cs : List Char) :
    quotedFrom .inside (c :: cs) = c :: quotedFrom .inside cs := by
  simp [quotedFrom, Place.step, hquote, hslash]

theorem quotedFrom_escaped (c : Char) (cs : List Char) :
    quotedFrom .inside ('\\' :: c :: cs) = '\\' :: c :: quotedFrom .inside cs := rfl

theorem ne_of_hexValue? {c : Char} {n : Nat} (h : hexValue? c = some n) : c ≠ '"' ∧ c ≠ '\\' := by
  have hquote : hexValue? '"' = none := by decide
  have hslash : hexValue? '\\' = none := by decide
  constructor <;> rintro rfl <;> simp_all

theorem quotedFrom_hexFour {a b c d : Char} {n : Nat} (h : hexFour? a b c d = some n)
    (cs : List Char) :
    quotedFrom .inside (a :: b :: c :: d :: cs) = a :: b :: c :: d :: quotedFrom .inside cs := by
  simp only [hexFour?, Option.bind_eq_bind, Option.bind_eq_some_iff] at h
  obtain ⟨_, ha, _, hb, _, hc, _, hd, -⟩ := h
  obtain ⟨ha, ha'⟩ := ne_of_hexValue? ha
  obtain ⟨hb, hb'⟩ := ne_of_hexValue? hb
  obtain ⟨hc, hc'⟩ := ne_of_hexValue? hc
  obtain ⟨hd, hd'⟩ := ne_of_hexValue? hd
  rw [quotedFrom_plain ha ha', quotedFrom_plain hb hb', quotedFrom_plain hc hc',
    quotedFrom_plain hd hd']

theorem quotedFrom_escapeText {u : List Char} {c : Char} (h : EscapeText u c) (rest : List Char) :
    quotedFrom .inside ('\\' :: (u ++ rest)) = '\\' :: (u ++ quotedFrom .inside rest) := by
  cases h with
  | letter h => exact quotedFrom_escaped _ rest
  | code h hn =>
    simp only [List.cons_append, List.nil_append]
    rw [quotedFrom_escaped, quotedFrom_hexFour h]
  | pair hm hn high low =>
    simp only [List.cons_append, List.nil_append]
    rw [quotedFrom_escaped, quotedFrom_hexFour hm, quotedFrom_escaped, quotedFrom_hexFour hn]

/-- All of a literal is quoted. -/
theorem quotedFrom_literal {k ds : List Char} (h : Literal k ds) (rest : List Char) :
    quotedFrom .inside (k ++ rest) = k ++ quotedFrom .inside rest := by
  induction h with
  | nil => rfl
  | plain hquote hslash _ _ ih =>
    rw [List.cons_append, quotedFrom_plain hquote hslash, ih, List.cons_append]
  | escaped hc _ ih =>
    rw [List.cons_append, List.append_assoc, quotedFrom_escapeText hc, ih, List.cons_append,
      List.append_assoc]

/-- The text ends outside string literals if it starts there. -/
def Settled (u : List Char) : Prop := ∀ rest, quoted (u ++ rest) = quoted u ++ quoted rest

/-- No string literal in the text holds an opening bracket. -/
def Clear (u : List Char) : Prop := '[' ∉ quoted u

theorem Settled.clear_append {u : List Char} (h : Settled u) (v : List Char) :
    Clear (u ++ v) ↔ Clear u ∧ Clear v := by
  rw [Clear, h v, List.mem_append, not_or]
  rfl

/-- No array opens in the text, and `found` is nothing; or the first bracket opens an array. This
array is `found` if `found` is one, unless a further bracket closes behind it. -/
inductive Opens : List Char → Option (List Json) → Prop where
  | bare {u : List Char} (hopen : '[' ∉ u) : Opens u none
  | array {p a m : List Char} {items : List Json} {found : Option (List Json)} (hopen : '[' ∉ p)
      (ha : ValueText maxNesting a (.array items))
      (hfound : found = some items ∨ found = none ∨ ']' ∈ m) : Opens (p ++ (a ++ m)) found

theorem Opens.closed {u : List Char} {items : List Json} (h : Opens u (some items)) : ']' ∈ u := by
  cases h with
  | array _ ha _ =>
    obtain ⟨_, body, -, rfl, -⟩ := ha.of_array
    simp

theorem Opens.append {u v : List Char} {f g : Option (List Json)} (hu : Opens u f)
    (hv : Opens v g) : Opens (u ++ v) (f.or g) := by
  cases hu with
  | bare hopen =>
    cases hv with
    | bare hopen' => exact .bare (List.not_mem_append hopen hopen')
    | array hopen' ha hfound =>
      rw [← List.append_assoc]
      exact .array (List.not_mem_append hopen hopen') ha hfound
  | @array p a m items _ hopen ha hfound =>
    rw [List.append_assoc, List.append_assoc]
    refine .array hopen ha ?_
    rcases hfound with rfl | rfl | hclose
    · exact .inl rfl
    · cases g with
      | none => exact .inr (.inl rfl)
      | some items' =>
        -- the array that is looked for closes behind the one that opened first
        exact .inr (.inr (List.mem_append_right _ hv.closed))
    · exact .inr (.inr (List.mem_append_left _ hclose))

theorem Opens.forget {u : List Char} {f : Option (List Json)} (h : Opens u f) : Opens u none := by
  cases h with
  | bare hopen => exact .bare hopen
  | array hopen ha _ => exact .array hopen ha (.inr (.inl rfl))

/-- A whole part of a text, in which the first array is as `Opens` says. -/
structure Scans (u : List Char) (found : Option (List Json)) : Prop where
  settled : Settled u
  opens : Clear u → Opens u found

theorem Scans.append {u v : List Char} {f g : Option (List Json)} (hu : Scans u f)
    (hv : Scans v g) : Scans (u ++ v) (f.or g) where
  settled rest := by
    rw [List.append_assoc, hu.settled, hv.settled, hu.settled, List.append_assoc]
  opens h := by
    obtain ⟨hclear, hclear'⟩ := (hu.settled.clear_append v).1 h
    exact (hu.opens hclear).append (hv.opens hclear')

theorem quoted_cons {c : Char} (hc : c ≠ '"') (cs : List Char) : quoted (c :: cs) = quoted cs := by
  simp [quoted, quotedFrom, Place.step, hc]

theorem scans_bare {u : List Char} (h : ∀ c ∈ u, c ≠ '"' ∧ c ≠ '[') : Scans u none where
  settled rest := by
    induction u with
    | nil => rfl
    | cons c u ih =>
      rw [List.forall_mem_cons] at h
      rw [List.cons_append, quoted_cons h.1.1, quoted_cons h.1.1, ih h.2]
  opens _ := .bare fun hmem => (h _ hmem).2 rfl

theorem scans_blank {b : List Char} (hb : Blank b) : Scans b none := by
  refine scans_bare fun c hc => ?_
  have hspace := hb c hc
  constructor <;> rintro rfl <;> revert hspace <;> decide

theorem scans_mark {c : Char} (hquote : c ≠ '"') (hopen : c ≠ '[') : Scans [c] none :=
  scans_bare (List.forall_mem_singleton.2 ⟨hquote, hopen⟩)

theorem Scans.braces {body : List Char} {f : Option (List Json)} (h : Scans body f) :
    Scans ('{' :: (body ++ ['}'])) f := by
  have hall := (scans_mark (c := '{') (by decide) (by decide)).append
    (h.append (scans_mark (c := '}') (by decide) (by decide)))
  rwa [Option.none_or, Option.or_none] at hall

theorem scans_literal {k ds : List Char} (h : Literal k ds) : Scans ('"' :: (k ++ ['"'])) none := by
  have hquoted (rest : List Char) :
      quoted ('"' :: (k ++ '"' :: rest)) = k ++ '"' :: quoted rest :=
    quotedFrom_literal h ('"' :: rest)
  refine ⟨fun rest => ?_, fun hclear => .bare fun hmem => ?_⟩
  · rw [List.cons_append, List.append_assoc, List.singleton_append, hquoted, hquoted]
    simp [quoted, quotedFrom]
  · rw [Clear, hquoted] at hclear
    simp only [List.mem_cons, List.mem_append, List.not_mem_nil, or_false] at hmem
    rcases hmem with hmem | hmem | hmem
    · cases hmem
    · exact hclear (List.mem_append_left _ hmem)
    · cases hmem

theorem scans_scalar {u : List Char} {v : Json} (h : Scalar u v) : Scans u v.asArray? := by
  cases h with
  | null => exact scans_bare (by simp)
  | isTrue => exact scans_bare (by simp)
  | isFalse => exact scans_bare (by simp)
  | number h =>
    refine scans_bare fun c hc => ?_
    have hnumeric := (numeral_of_number h).numeric c hc
    constructor <;> rintro rfl <;> revert hnumeric <;> decide
  | string h => exact scans_literal h

section
variable {α : Type} {P : List Char → α → Prop} {f : α → Option (List Json)}
  (hP : ∀ u a, P u a → Scans u (f a))
include hP

theorem scans_further {cs : List Char} {as : List α} (h : Further P cs as) :
    Scans cs (as.findSome? f) := by
  induction h with
  | close hb => exact scans_blank hb
  | @next b b' u cs a as hb hb' ha _ ih =>
    have hcomma : Scans [','] none := scans_mark (by decide) (by decide)
    have hall := (scans_blank hb).append
      (hcomma.append ((scans_blank hb').append ((hP u a ha).append ih)))
    rw [List.findSome?_cons]
    cases hf : f a <;> rw [hf] at hall <;> exact hall

theorem scans_parts {cs : List Char} {as : List α} (h : Parts P cs as) :
    Scans cs (as.findSome? f) := by
  cases h with
  | none hb => exact scans_blank hb
  | @some b u cs a as hb ha h =>
    have hall := (scans_blank hb).append ((hP u a ha).append (scans_further hP h))
    rw [List.findSome?_cons]
    cases hf : f a <;> rw [hf] at hall <;> exact hall

theorem scans_member {cs : List Char} {m : String × α} (h : MemberText P cs m) :
    Scans cs (f m.2) := by
  cases h with
  | mk hk hb hb' hv =>
    have hcolon : Scans [':'] none := scans_mark (by decide) (by decide)
    have hall := (scans_literal hk).append
      ((scans_blank hb).append (hcolon.append ((scans_blank hb').append (hP _ _ hv))))
    simpa using hall

end

/-- The text of an array is the array that opens first in it; an object shows only whether an array
opens in it. -/
theorem scans_value {room : Nat} (hroom : room ≤ maxNesting) {u : List Char} {v : Json}
    (h : ValueText room u v) : Scans u v.asArray? := by
  induction room generalizing u v with
  | zero => exact scans_scalar h
  | succ room ih =>
    have ih : ∀ u v, ValueText room u v → Scans u v.asArray? := fun _ _ => ih (by omega)
    -- an array counts with all the room there is, however deep it stands
    have htext := h.mono hroom
    cases h with
    | scalar h => exact scans_scalar h
    | @array body items h =>
      have hbody := (scans_parts ih h).append (scans_mark (c := ']') (by decide) (by decide))
      refine ⟨fun rest => ?_, fun _ => ?_⟩
      · rw [List.cons_append, quoted_cons (by decide), quoted_cons (by decide), hbody.settled]
      · have hopens := Opens.array (p := []) (m := []) List.not_mem_nil htext (.inl rfl)
        rwa [List.nil_append, List.append_nil] at hopens
    | @object body ms h =>
      have hmembers := (scans_parts (fun _ _ hm => scans_member ih hm) h).braces
      exact ⟨hmembers.settled, fun hclear => (hmembers.opens hclear).forget⟩

theorem scans_members {room : Nat} (hroom : room ≤ maxNesting) {body : List Char}
    {ms : List (String × Json)} (h : Parts (MemberText (ValueText room)) body ms) :
    Scans body (ms.findSome? (·.2.asArray?)) := by
  have hvalue : ∀ u v, ValueText room u v → Scans u v.asArray? := fun _ _ => scans_value hroom
  exact scans_parts (fun _ _ hm => scans_member hvalue hm) h

end Reader

open Reader

theorem eq_array_of_asArray? {v : Json} {items : List Json} (h : v.asArray? = some items) :
    v = .array items := by
  cases v with
  | array items' => exact congrArg _ (Option.some.inj h)
  | _ => cases h

/-- An object is read from the text of its members, as they are written. -/
theorem of_parse_object {s : String} {ms : List (String × Json)} (h : parse s = .ok (.object ms)) :
    ∃ b body e written, Blank b ∧ Blank e ∧ s.toList = b ++ ('{' :: (body ++ ['}']) ++ e) ∧
      Parts (MemberText (ValueText (maxNesting - 1))) body written ∧ ms = collect written := by
  obtain ⟨b, u, e, hb, he, hs, hu⟩ := parse_eq_ok_iff.1 h
  obtain ⟨inner, body, written, hroom, rfl, hbody, rfl⟩ := hu.of_object
  obtain rfl : inner = maxNesting - 1 := by omega
  exact ⟨b, body, e, written, hb, he, hs, hbody, rfl⟩

theorem writtenKeys_eq {s : String} {b body e : List Char} {written : List (String × Json)}
    (hb : Blank b) (hs : s.toList = b ++ ('{' :: (body ++ ['}']) ++ e))
    (h : Parts (MemberText (ValueText (maxNesting - 1))) body written) :
    writtenKeys s = written.map (·.1) := by
  have hread : membersFrom (putting (value (maxNesting - 1)) fun keys key _ => keys ++ [key]) []
      true (body ++ '}' :: e) = .ok (written.foldl (fun keys m => keys ++ [m.1]) [], e) :=
    membersFrom_parts (readsAll_value _) h [] e
  have hkeys (before : List String) :
      written.foldl (fun keys m => keys ++ [m.1]) before = before ++ written.map (·.1) := by
    rw [List.foldl_append_eq_append, ← List.flatMap_def, List.map_eq_flatMap]
  rw [writtenKeys, hs, skipSpace_blank hb, List.cons_append, skipSpace_cons (by decide),
    List.append_assoc, List.singleton_append]
  simp only [hread, hkeys, List.nil_append]

theorem writtenKeys_compact {ms : List (String × Json)}
    (h : ∀ m ∈ ms, Exact (maxNesting - 1) m.2) :
    writtenKeys (compact (.object ms)) = ms.map (·.1) :=
  writtenKeys_eq (e := []) blank_nil (by simp [compact, compactText])
    (parts_compactMembers fun m hm => valueText_compactText (h m hm))

/-- An array with more than blanks behind it is no value. -/
theorem parse_array_append {a : List Char} {items : List Json}
    (ha : ValueText maxNesting a (.array items)) {t : List Char} (ht : ¬ Blank t) :
    parse (String.ofList (a ++ t)) = .error .malformed := by
  obtain ⟨inner, body, hroom, rfl, hparts⟩ := ha.of_array
  have hread : value maxNesting ('[' :: (body ++ [']']) ++ t) = .ok (.array items, t) := by
    rw [hroom]
    exact value_array_append (readsAll_value inner) hparts t
  have hskip : (skipSpace t).isEmpty = false := by
    rw [List.isEmpty_eq_false_iff]
    exact fun h => ht (skipSpace_eq_nil_iff.1 h)
  rw [parse, whole, String.toList_ofList, hread]
  simp [hskip]

end CAudit.Json

namespace CAudit.Review
open Json Json.Reader

theorem isBlank_of_blank {b : List Char} (hb : Blank b) : ∀ c ∈ b, Text.isBlank c = true := by
  intro c hc
  have hspace := hb c hc
  simp only [isSpace, Bool.or_eq_true, beq_iff_eq] at hspace
  rcases hspace with ((rfl | rfl) | rfl) | rfl <;> decide

theorem stripFence_object {b body e : List Char} (hb : Blank b) (he : Blank e) :
    stripFence (b ++ ('{' :: (body ++ ['}']) ++ e)) = '{' :: (body ++ ['}']) := by
  have htrim : Text.trim (b ++ ('{' :: (body ++ ['}']) ++ e)) = '{' :: (body ++ ['}']) := by
    refine Text.trim_blanks (isBlank_of_blank hb) (isBlank_of_blank he) (by simp) ?_ ?_
    · rintro c ⟨⟩
      decide
    · intro c hc
      rw [← List.cons_append, List.getLast?_concat] at hc
      cases hc
      decide
  rw [stripFence_eq_trim, htrim]
  · rw [htrim]
    rintro ⟨t, ht⟩
    cases ht
  · rw [htrim]
    rintro ⟨t, ht⟩
    have hfence : fence.getLast? = some (Char.ofNat 0x60) := by decide
    have hlast := congrArg List.getLast? ht
    rw [← List.cons_append, List.getLast?_concat, List.getLast?_append, hfence] at hlast
    exact absurd (Option.some.inj hlast) (by decide)

theorem parse_stripFence_object {s : String} {ms : List (String × Json)}
    (h : Json.parse s = .ok (.object ms)) :
    Json.parse (String.ofList (stripFence s.toList)) = .ok (.object ms) := by
  obtain ⟨b, body, e, written, hb, he, hs, hbody, rfl⟩ := of_parse_object h
  rw [hs, stripFence_object hb he]
  exact parse_eq_ok_iff.2 ⟨[], _, [], blank_nil, blank_nil, by simp, .object hbody⟩

/-- Where the span between brackets is no JSON, the whole text counts. -/
theorem parse_of_span_fault {response : String} {a : List Char} {e : Json.Fault} {v : Json}
    (hspan : bracketSpan? (stripFence response.toList) = some a)
    (he : Json.parse (String.ofList a) = .error e)
    (hv : Json.parse (String.ofList (stripFence response.toList)) = .ok v) (tag : String) :
    parse response tag = .ok ((entries v).filterMap (finding? tag)) := by
  have hne : (stripFence response.toList).isEmpty = false := by
    rw [List.isEmpty_eq_false_iff]
    intro hnil
    rw [hnil] at hspan
    cases hspan
  have hrecover : recover (stripFence response.toList) = .ok v := by
    rw [recover, hspan, Option.map_some, he]
    exact hv
  simp [parse, hne, hrecover]

theorem exists_last {x : Char} {m : List Char} (h : x ∈ m) :
    ∃ front back, m = front ++ x :: back ∧ x ∉ back := by
  obtain ⟨as, bs, heq, hnot⟩ := List.eq_append_cons_of_mem (List.mem_reverse.2 h)
  refine ⟨bs.reverse, as.reverse, ?_, by simpa using hnot⟩
  rw [← List.reverse_reverse m, heq]
  simp

theorem bracketed_array {room : Nat} {a : List Char} {items : List Json}
    (ha : ValueText room a (.array items)) : Bracketed a := by
  obtain ⟨_, body, -, rfl, -⟩ := ha.of_array
  exact ⟨rfl, by rw [← List.cons_append, List.getLast?_concat]⟩

/-- An object is searched for its first list, whether or not the span between brackets is one. -/
theorem parse_object {s : String} {ms : List (String × Json)} {items : List Json}
    (hobject : Json.parse s = .ok (.object ms)) (hopens : Opens s.toList (some items))
    (hitems : ms.findSome? (·.2.asArray?) = some items) (tag : String) :
    parse s tag = .ok (items.filterMap (finding? tag)) := by
  generalize hcs : s.toList = cs at hopens
  cases hopens with
  | @array p a m first _ hopen ha hfound =>
    by_cases hclose : ']' ∈ m
    · -- the span goes on behind the array at its front, so it is no value
      obtain ⟨front, back, rfl, hback⟩ := exists_last hclose
      have hfault : Json.parse (String.ofList (a ++ (front ++ [']']))) = .error .malformed := by
        refine parse_array_append ha fun hblank => ?_
        exact absurd (hblank ']' (by simp)) (by decide)
      have hspan : Bracketed (a ++ (front ++ [']'])) := by
        refine ⟨?_, by rw [← List.append_assoc, List.getLast?_concat]⟩
        rw [List.head?_append, (bracketed_array ha).front]
        rfl
      have haround : Around (a ++ (front ++ [']'])) s.toList :=
        ⟨p, back, hopen, hback, by simp [hcs]⟩
      have hwhole := parse_of_span_fault (bracketSpan?_of_around hspan (haround.stripFence hspan))
        hfault (parse_stripFence_object hobject) tag
      rw [hwhole, entries, hitems]
      rfl
    · have hfirst : first = items := by simpa [hclose, eq_comm] using hfound
      have hvalue : Json.parse (String.ofList a) = .ok (.array items) :=
        parse_eq_ok_iff.2 ⟨[], a, [], blank_nil, blank_nil, by simp, hfirst ▸ ha⟩
      exact parse_of_around (bracketed_array ha) hvalue ⟨p, m, hopen, hclose, hcs⟩ tag

/-- The findings in an object are those of its first list, whatever stands before and behind it.
Strings may hold closing brackets, but no opening ones, and no key may be written twice. -/
theorem parse_first_list {s : String} {ms : List (String × Json)}
    (hobject : Json.parse s = .ok (.object ms)) (hkeys : (writtenKeys s).Nodup)
    (hquoted : '[' ∉ quoted s.toList) (hlist : ∃ m ∈ ms, m.2.asArray?.isSome = true)
    (tag : String) :
    writtenKeys s = ms.map (·.1) ∧
    ∃ before key items after, ms = before ++ (key, .array items) :: after ∧
      (∀ m ∈ before, m.2.asArray? = none) ∧
      parse s tag = .ok (items.filterMap (finding? tag)) := by
  obtain ⟨b, body, e, written, hb, he, hs, hbody, rfl⟩ := of_parse_object hobject
  have hwritten := writtenKeys_eq hb hs hbody
  rw [hwritten] at hkeys
  rw [collect_of_nodup hkeys] at hobject hlist ⊢
  obtain ⟨items, hitems⟩ := Option.isSome_iff_exists.1 (List.findSome?_isSome_iff.2 hlist)
  have hscan : Scans s.toList (some items) := by
    have hmembers := scans_members (Nat.sub_le maxNesting 1) hbody
    rw [hitems] at hmembers
    rw [hs]
    exact (scans_blank hb).append (hmembers.braces.append (scans_blank he))
  have hparse := parse_object hobject (hscan.opens hquoted) hitems tag
  obtain ⟨before, ⟨key, v⟩, after, rfl, hv, hbefore⟩ := List.findSome?_eq_some_iff.1 hitems
  obtain rfl : v = .array items := eq_array_of_asArray? hv
  exact ⟨hwritten, before, key, items, after, rfl, hbefore, hparse⟩

/-- A list inside an object comes first, and a closing bracket in a string; then two lists, of which
only the first counts. The span between brackets is no value. -/
theorem parse_first_list_nested :
    let s :=
      "\x7b\"a\":\x7b\"b\":[]\x7d,\"c\":\"]\",\"d\":[\x7b\"line_number\":3\x7d],\"e\":[]\x7d"
    (writtenKeys s).Nodup ∧ '[' ∉ quoted s.toList ∧
    parse s "llm" = .ok [⟨"", 3, .medium, "", "", "llm", none⟩] := by
  intro s
  have hmembers : ∀ m ∈ [("a", .object [("b", .array [])]), ("c", .string "]"),
      ("d", .array [.object [("line_number", .nat 3)]]), ("e", .array [])],
      Exact (maxNesting - 1) m.2 := by
    have hthree : ExactScalar (.nat 3) := .number (show 3 ≤ maxWord by decide)
    simp only [List.forall_mem_cons, List.not_mem_nil, false_implies, implies_true, and_true]
    refine ⟨.object (by decide) ?_, .of_scalar (.string _), .array ?_, .array (by simp)⟩
    · exact List.forall_mem_singleton.2 (.array (by simp))
    · refine List.forall_mem_singleton.2 (.object (by decide) ?_)
      exact List.forall_mem_singleton.2 (.of_scalar hthree)
  have htext : s = compact (.object [("a", .object [("b", .array [])]), ("c", .string "]"),
      ("d", .array [.object [("line_number", .nat 3)]]), ("e", .array [])]) := rfl
  have hobject := parse_compact (.object (by decide) hmembers)
  have hkeys : (writtenKeys s).Nodup := by
    rw [htext, writtenKeys_compact hmembers]
    decide
  have hquoted : '[' ∉ quoted s.toList := by decide
  rw [← htext] at hobject
  obtain ⟨-, before, key, items, after, hms, hbefore, hparse⟩ :=
    parse_first_list hobject hkeys hquoted ⟨_, List.mem_cons_of_mem _
      (List.mem_cons_of_mem _ List.mem_cons_self), rfl⟩ "llm"
  refine ⟨hkeys, hquoted, ?_⟩
  rcases before with _ | ⟨m, _ | ⟨m', _ | ⟨m'', before⟩⟩⟩
  · cases hms
  · cases hms
  · cases hms
    exact hparse
  · simp only [List.cons_append, List.cons.injEq] at hms
    obtain ⟨-, -, rfl, -⟩ := hms
    have hnone := hbefore ("d", .array [.object [("line_number", .nat 3)]]) (by simp)
    cases hnone

end CAudit.Review
