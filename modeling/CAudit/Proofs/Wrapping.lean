import CAudit.Review
import CAudit.Proofs.JsonWriting

/-! What may stand around the response of a reviewer. Trimming and taking off a fence leave the span
between the outermost brackets as it is, so prose around a list of findings does not matter; neither
does a fence around any text. -/
namespace CAudit

namespace Text

theorem trimStart_eq_self {cs : List Char} (h : ∀ c ∈ cs.head?, isBlank c = false) :
    trimStart cs = cs := by
  cases cs with
  | nil => rfl
  | cons c cs => exact List.dropWhile_cons_of_neg (by simp [h c rfl])

theorem trimStart_append {cs : List Char} (h : ∀ c ∈ cs.head?, isBlank c = false)
    (p : List Char) : trimStart (p ++ cs) = trimStart p ++ cs := by
  have hcs := trimStart_eq_self h
  unfold trimStart at hcs ⊢
  rw [List.dropWhile_append]
  split
  · next hp => rw [hcs, List.isEmpty_iff.1 hp, List.nil_append]
  · rfl

theorem trimEnd_eq_reverse (cs : List Char) : trimEnd cs = (trimStart cs.reverse).reverse := rfl

theorem trimEnd_append {cs : List Char} (h : ∀ c ∈ cs.getLast?, isBlank c = false)
    (q : List Char) : trimEnd (cs ++ q) = cs ++ trimEnd q := by
  have hhead : ∀ c ∈ cs.reverse.head?, isBlank c = false := by rwa [List.head?_reverse]
  rw [trimEnd_eq_reverse, List.reverse_append, trimStart_append hhead, List.reverse_append,
    List.reverse_reverse]
  rfl

theorem trimEnd_blanks {cs e : List Char} (he : ∀ c ∈ e, isBlank c = true) :
    trimEnd (cs ++ e) = trimEnd cs := by
  rw [trimEnd_eq_reverse, List.reverse_append, trimStart,
    List.dropWhile_append_of_pos (by simpa using he)]
  rfl

/-- Blanks around a text that starts and ends with other characters are taken off. -/
theorem trim_blanks {b u e : List Char} (hb : ∀ c ∈ b, isBlank c = true)
    (he : ∀ c ∈ e, isBlank c = true) (hne : u ≠ []) (hfront : ∀ c ∈ u.head?, isBlank c = false)
    (hback : ∀ c ∈ u.getLast?, isBlank c = false) : trim (b ++ (u ++ e)) = u := by
  have hstart : trimStart (b ++ (u ++ e)) = u ++ e := by
    obtain ⟨c, t, rfl⟩ := List.exists_cons_of_ne_nil hne
    rw [trimStart, List.dropWhile_append_of_pos hb]
    exact trimStart_eq_self hfront
  have hend : trimEnd (u ++ []) = u ++ trimEnd [] := trimEnd_append hback []
  rw [trim, hstart, trimEnd_blanks he]
  simpa [trimEnd] using hend

theorem trim_eq_self {u : List Char} (hne : u ≠ []) (hfront : ∀ c ∈ u.head?, isBlank c = false)
    (hback : ∀ c ∈ u.getLast?, isBlank c = false) : trim u = u := by
  simpa using trim_blanks (List.forall_mem_nil _) (List.forall_mem_nil _) hne hfront hback

end Text

namespace Review
open Text

theorem dropFront?_eq_some_iff {start cs rest : List Char} :
    dropFront? start cs = some rest ↔ cs = start ++ rest := by
  rw [dropFront?, Option.ite_none_right_eq_some, List.isPrefixOf_iff_prefix, Option.some.injEq]
  constructor
  · rintro ⟨⟨t, rfl⟩, rfl⟩
    rw [List.drop_left]
  · rintro rfl
    exact ⟨List.prefix_append start rest, List.drop_left⟩

theorem dropBack?_eq_some_iff {stop cs rest : List Char} :
    dropBack? stop cs = some rest ↔ cs = rest ++ stop := by
  rw [dropBack?, Option.ite_none_right_eq_some, List.isSuffixOf_iff_suffix, Option.some.injEq]
  constructor
  · rintro ⟨⟨t, rfl⟩, rfl⟩
    simp
  · rintro rfl
    exact ⟨List.suffix_append rest stop, by simp⟩

/-- The text behind an opening fence, if there is one. -/
def openFence (cs : List Char) : List Char :=
  ((dropFront? (fence ++ "json".toList) cs).or (dropFront? fence cs)).elim cs trimStart

theorem openFence_cases (cs : List Char) :
    (∃ rest, dropFront? (fence ++ "json".toList) cs = some rest ∧ openFence cs = trimStart rest) ∨
    (∃ rest, dropFront? fence cs = some rest ∧ openFence cs = trimStart rest) ∨
    openFence cs = cs := by
  unfold openFence
  cases hjson : dropFront? (fence ++ "json".toList) cs with
  | some rest => exact .inl ⟨rest, rfl, rfl⟩
  | none =>
    cases hplain : dropFront? fence cs with
    | some rest => exact .inr (.inl ⟨rest, rfl, rfl⟩)
    | none => exact .inr (.inr rfl)

theorem stripFence_eq (cs : List Char) :
    stripFence cs =
      (dropBack? fence (openFence (trim cs))).elim (openFence (trim cs)) trimEnd := by
  simp only [stripFence, openFence]
  generalize trim cs = ds
  cases dropFront? (fence ++ "json".toList) ds with
  | some rest =>
    simp only [Option.some_or, Option.elim_some]
    cases dropBack? fence (trimStart rest) <;> rfl
  | none =>
    cases dropFront? fence ds with
    | some rest =>
      simp only [Option.none_or, Option.elim_some]
      cases dropBack? fence (trimStart rest) <;> rfl
    | none =>
      simp only [Option.none_or, Option.elim_none]
      cases dropBack? fence ds <;> rfl

/-- A text from an opening to a closing bracket. -/
structure Bracketed (a : List Char) : Prop where
  front : a.head? = some '['
  back : a.getLast? = some ']'

/-- The text `a` with no opening bracket in front of it and no closing one behind it. -/
def Around (a cs : List Char) : Prop := ∃ p q, '[' ∉ p ∧ ']' ∉ q ∧ cs = p ++ (a ++ q)

theorem dropWhile_bne {x : Char} {p : List Char} (hp : x ∉ p) (t : List Char) :
    (p ++ x :: t).dropWhile (· != x) = x :: t := by
  have hall : ∀ c ∈ p, (c != x) = true := by
    intro c hc
    rw [bne_iff_ne]
    rintro rfl
    exact hp hc
  rw [List.dropWhile_append_of_pos hall]
  exact List.dropWhile_cons_of_neg (by simp)

section
variable {a cs : List Char} (ha : Bracketed a) (h : Around a cs)
include ha h

theorem bracketSpan?_of_around : bracketSpan? cs = some a := by
  obtain ⟨p, q, hp, hq, rfl⟩ := h
  have hfrom : (p ++ (a ++ q)).dropWhile (· != '[') = a ++ q := by
    obtain ⟨t, rfl⟩ := List.head?_eq_some_iff.1 ha.front
    exact dropWhile_bne hp (t ++ q)
  have hspan : (a ++ q).reverse.dropWhile (· != ']') = a.reverse := by
    obtain ⟨t, rfl⟩ := List.getLast?_eq_some_iff.1 ha.back
    rw [List.reverse_append, List.reverse_append]
    exact dropWhile_bne (by simpa using hq) t.reverse
  have hne : a.isEmpty = false := by
    obtain ⟨t, rfl⟩ := List.head?_eq_some_iff.1 ha.front
    rfl
  simp only [bracketSpan?, hfrom, hspan, List.reverse_reverse, hne]
  rfl

theorem Around.trimStart : Around a (trimStart cs) := by
  obtain ⟨p, q, hp, hq, rfl⟩ := h
  refine ⟨Text.trimStart p, q, fun hmem => hp (List.dropWhile_subset _ hmem), hq, ?_⟩
  refine trimStart_append (fun c hc => ?_) p
  rw [List.head?_append, ha.front] at hc
  cases hc
  decide

theorem Around.trimEnd : Around a (trimEnd cs) := by
  obtain ⟨p, q, hp, hq, rfl⟩ := h
  refine ⟨p, Text.trimEnd q, hp, fun hmem => hq ?_, ?_⟩
  · rw [trimEnd_eq_reverse, List.mem_reverse] at hmem
    exact List.mem_reverse.1 (List.dropWhile_subset _ hmem)
  · rw [← List.append_assoc, ← List.append_assoc]
    refine trimEnd_append (fun c hc => ?_) q
    rw [List.getLast?_append, ha.back] at hc
    cases hc
    decide

theorem Around.dropFront {start rest : List Char} (hstart : '[' ∉ start)
    (hrest : dropFront? start cs = some rest) : Around a rest := by
  obtain ⟨p, q, hp, hq, rfl⟩ := h
  obtain ⟨t, rfl⟩ := List.head?_eq_some_iff.1 ha.front
  rcases List.append_eq_append_iff.1 (dropFront?_eq_some_iff.1 hrest) with
    ⟨s, rfl, hs⟩ | ⟨s, rfl, rfl⟩
  · -- the start reaches to the bracket at most
    cases s with
    | nil => exact ⟨[], q, List.not_mem_nil, hq, hs.symm⟩
    | cons c s =>
      obtain ⟨rfl, -⟩ := List.cons.inj hs
      simp at hstart
  · exact ⟨s, q, fun hmem => hp (List.mem_append_right _ hmem), hq, rfl⟩

theorem Around.dropBack {stop rest : List Char} (hstop : ']' ∉ stop)
    (hrest : dropBack? stop cs = some rest) : Around a rest := by
  obtain ⟨p, q, hp, hq, rfl⟩ := h
  obtain ⟨t, rfl⟩ := List.getLast?_eq_some_iff.1 ha.back
  have hcs := dropBack?_eq_some_iff.1 hrest
  rw [← List.append_assoc] at hcs
  rcases List.append_eq_append_iff.1 hcs with ⟨s, rfl, rfl⟩ | ⟨s, hs, rfl⟩
  · exact ⟨p, s, hp, fun hmem => hq (List.mem_append_left _ hmem), by simp⟩
  · -- the stop reaches to the bracket at most
    rcases List.eq_nil_or_concat s with rfl | ⟨s, c, rfl⟩
    · exact ⟨p, [], hp, List.not_mem_nil, by simpa using hs.symm⟩
    · have hc := congrArg List.getLast? hs
      simp at hc
      simp [← hc] at hstop

/-- Taking off a fence leaves the span between the brackets as it is. -/
theorem Around.stripFence : Around a (stripFence cs) := by
  have htrim : Around a (trim cs) := (h.trimStart ha).trimEnd ha
  have hopen : Around a (openFence (trim cs)) := by
    rcases openFence_cases (trim cs) with ⟨rest, hrest, heq⟩ | ⟨rest, hrest, heq⟩ | heq
    · rw [heq]
      exact (htrim.dropFront ha (by decide) hrest).trimStart ha
    · rw [heq]
      exact (htrim.dropFront ha (by decide) hrest).trimStart ha
    · rwa [heq]
  rw [stripFence_eq]
  cases hback : dropBack? fence (openFence (trim cs)) with
  | some rest => exact (hopen.dropBack ha (by decide) hback).trimEnd ha
  | none => exact hopen

end

/-- A list between brackets is found whatever stands around it. -/
theorem parse_of_around {a : List Char} (ha : Bracketed a) {v : Json}
    (hv : Json.parse (String.ofList a) = .ok v) {response : String} (h : Around a response.toList)
    (tag : String) : parse response tag = .ok ((entries v).filterMap (finding? tag)) := by
  have hstrip := h.stripFence ha
  have hspan := bracketSpan?_of_around ha hstrip
  have hne : (stripFence response.toList).isEmpty = false := by
    obtain ⟨p, q, -, -, heq⟩ := hstrip
    obtain ⟨t, rfl⟩ := List.head?_eq_some_iff.1 ha.front
    simp [heq]
  have hrecover : recover (stripFence response.toList) = .ok v := by
    rw [recover, hspan, Option.map_some, hv]
  simp [parse, hne, hrecover]

theorem parse_congr {s t : String} (h : stripFence s.toList = stripFence t.toList) (tag : String) :
    parse s tag = parse t tag := by
  rw [parse, parse, h]

theorem stripFence_eq_trim {cs : List Char} (hfront : ¬ fence <+: trim cs)
    (hback : ¬ fence <:+ trim cs) : stripFence cs = trim cs := by
  have hopen : openFence (trim cs) = trim cs := by
    rcases openFence_cases (trim cs) with ⟨rest, hrest, -⟩ | ⟨rest, hrest, -⟩ | heq
    · rw [dropFront?_eq_some_iff, List.append_assoc] at hrest
      exact absurd ⟨_, hrest.symm⟩ hfront
    · exact absurd ⟨_, (dropFront?_eq_some_iff.1 hrest).symm⟩ hfront
    · exact heq
  rw [stripFence_eq, hopen]
  cases hdrop : dropBack? fence (trim cs) with
  | none => rfl
  | some rest => exact absurd ⟨rest, (dropBack?_eq_some_iff.1 hdrop).symm⟩ hback

/-- What may stand behind the opening mark of a fence. -/
def IsLabel (label : List Char) : Prop := label = [] ∨ label = "json".toList

theorem openFence_label {label : List Char} (h : IsLabel label) (cs : List Char) :
    openFence (fence ++ (label ++ '\n' :: cs)) = trimStart cs := by
  have hblank : trimStart ('\n' :: cs) = trimStart cs := List.dropWhile_cons_of_pos (by decide)
  rcases h with rfl | rfl
  · have hjson : dropFront? (fence ++ "json".toList) (fence ++ '\n' :: cs) = none := rfl
    have hplain : dropFront? fence (fence ++ '\n' :: cs) = some ('\n' :: cs) :=
      dropFront?_eq_some_iff.2 rfl
    rw [List.nil_append, openFence, hjson, hplain]
    exact hblank
  · have hjson : dropFront? (fence ++ "json".toList) (fence ++ ("json".toList ++ '\n' :: cs)) =
        some ('\n' :: cs) :=
      dropFront?_eq_some_iff.2 rfl
    rw [openFence, hjson]
    exact hblank

theorem exists_trimStart_fence (x : List Char) :
    ∃ t, trimStart (x ++ '\n' :: fence) = t ++ fence ∧ trimEnd t = trim x := by
  have hblank : trimStart ('\n' :: fence) = fence := by decide
  unfold trim trimStart at *
  rw [List.dropWhile_append]
  split
  · next hx => exact ⟨[], hblank, by rw [List.isEmpty_iff.1 hx]⟩
  · exact ⟨x.dropWhile isBlank ++ ['\n'], by simp,
      trimEnd_blanks (List.forall_mem_singleton.2 (by decide))⟩

theorem stripFence_fenced {label : List Char} (h : IsLabel label) (x : List Char) :
    stripFence (fence ++ (label ++ '\n' :: (x ++ '\n' :: fence))) = trim x := by
  have htrim : trim (fence ++ (label ++ '\n' :: (x ++ '\n' :: fence))) =
      fence ++ (label ++ '\n' :: (x ++ '\n' :: fence)) := by
    have hparts : fence ++ (label ++ '\n' :: (x ++ '\n' :: fence)) =
        fence ++ (label ++ '\n' :: (x ++ ['\n'])) ++ fence := by simp
    have hlast : fence.getLast? = some (Char.ofNat 0x60) := by decide
    refine trim_eq_self (by simp [fence]) ?_ ?_
    · rintro c ⟨⟩
      decide
    · intro c hc
      rw [hparts, List.getLast?_append, hlast] at hc
      cases hc
      decide
  obtain ⟨t, hopen, ht⟩ := exists_trimStart_fence x
  have hback : dropBack? fence (t ++ fence) = some t := dropBack?_eq_some_iff.2 rfl
  rw [stripFence_eq, htrim, openFence_label h, hopen, hback]
  exact ht

/-- Prose around a list between brackets does not change what is found in it, nor does a fence
around any text. -/
theorem parse_wrapped :
    (∀ (a p q tag : String) (v : Json), Json.parse a = .ok v → a.toList.head? = some '[' →
      a.toList.getLast? = some ']' → '[' ∉ p.toList → ']' ∉ q.toList →
      parse (p ++ a ++ q) tag = parse a tag) ∧
    (∀ x tag : String, ¬ fence <+: trim x.toList → ¬ fence <:+ trim x.toList →
      ∀ label ∈ ["", "json"],
        parse ("```" ++ label ++ "\n" ++ x ++ "\n" ++ "```") tag = parse x tag) := by
  constructor
  · intro a p q tag v hv hfront hback hp hq
    have ha : Bracketed a.toList := ⟨hfront, hback⟩
    rw [← String.ofList_toList (s := a)] at hv
    have hwrapped : Around a.toList (p ++ a ++ q).toList := ⟨p.toList, q.toList, hp, hq, by simp⟩
    have hself : Around a.toList a.toList := ⟨[], [], by simp, by simp, by simp⟩
    rw [parse_of_around ha hv hwrapped, parse_of_around ha hv hself]
  · intro x tag hfront hback label hlabel
    apply parse_congr
    have hlabel : IsLabel label.toList := by
      simp only [List.mem_cons, List.not_mem_nil, or_false] at hlabel
      rcases hlabel with rfl | rfl
      · exact .inl rfl
      · exact .inr rfl
    rw [stripFence_eq_trim hfront hback, ← stripFence_fenced hlabel]
    simp [fence]

/-- Half a fence, a quote and brackets of the other kind in the prose, and a fence around a text
that is no list. -/
theorem parse_wrapped_prose :
    parse ("Found ```json ]\x7b\"" ++ "[\x7b\"line_number\":7\x7d]" ++ " [1, ```") "llm" =
      parse "[\x7b\"line_number\":7\x7d]" "llm" ∧
    parse ("```" ++ "json" ++ "\n" ++ " no list " ++ "\n" ++ "```") "llm" =
      parse " no list " "llm" := by
  have hentry : Json.ExactScalar (.nat 7) := .number (show 7 ≤ Json.Reader.maxWord by decide)
  have hexact : Json.Exact Json.maxNesting (.array [.object [("line_number", .nat 7)]]) := by
    refine .array (List.forall_mem_singleton.2 (.object (by decide) ?_))
    exact List.forall_mem_singleton.2 (.of_scalar hentry)
  have htext : "[\x7b\"line_number\":7\x7d]" =
      Json.compact (.array [.object [("line_number", .nat 7)]]) := rfl
  have hparse : Json.parse "[\x7b\"line_number\":7\x7d]" =
      .ok (.array [.object [("line_number", .nat 7)]]) := by
    rw [htext]
    exact Json.parse_compact hexact
  exact ⟨parse_wrapped.1 _ _ _ _ _ hparse (by decide) (by decide) (by decide) (by decide),
    parse_wrapped.2 _ _ (by decide) (by decide) "json" (by decide)⟩

end Review

end CAudit
