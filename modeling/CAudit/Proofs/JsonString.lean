import CAudit.Json.Reader
import CAudit.Json.Writer

/-! Strings in JSON text. The reader of a string takes a literal with its closing quote, in which
every character stands for itself or is escaped, and nothing else. What the writer makes of a string
is a literal of that string. -/
namespace CAudit.Json.Reader

/-- Text that may stand between the parts of a value. -/
def Blank (cs : List Char) : Prop := ∀ c ∈ cs, isSpace c = true

theorem blank_nil : Blank [] := List.forall_mem_nil _

theorem skipSpace_blank {b : List Char} (hb : Blank b) (cs : List Char) :
    skipSpace (b ++ cs) = skipSpace cs :=
  List.dropWhile_append_of_pos hb

theorem skipSpace_cons {c : Char} (hc : isSpace c = false) (cs : List Char) :
    skipSpace (c :: cs) = c :: cs :=
  List.dropWhile_cons_of_neg (by simp [hc])

theorem exists_blank (cs : List Char) : ∃ b, Blank b ∧ cs = b ++ skipSpace cs :=
  ⟨cs.takeWhile isSpace, List.all_eq_true.1 List.all_takeWhile,
    List.takeWhile_append_dropWhile.symm⟩

theorem skipSpace_eq_nil_iff {cs : List Char} : skipSpace cs = [] ↔ Blank cs := by
  constructor
  · intro h
    obtain ⟨b, hb, hcs⟩ := exists_blank cs
    rwa [hcs, h, List.append_nil]
  · intro h
    have hnil := skipSpace_blank h []
    rwa [List.append_nil] at hnil

theorem literal_eq_ok_iff {w cs rest : List Char} :
    literal w cs = .ok ((), rest) ↔ cs = w ++ rest := by
  induction w generalizing cs with
  | nil => simp [literal]
  | cons c w ih =>
    cases cs with
    | nil => simp [literal]
    | cons d cs =>
      rw [literal]
      split
      · next h => simp [ih, h]
      · next h => simp [Ne.symm h]

/-- Text behind a backslash, with the character that it stands for. -/
inductive EscapeText : List Char → Char → Prop where
  | letter {c d : Char} (h : letterEscapes.lookup c = some d) : EscapeText [c] d
  | code {a b c d : Char} {n : Nat} (h : hexFour? a b c d = some n)
      (hn : n < 0xd800 ∨ 0xdfff < n) : EscapeText ['u', a, b, c, d] (Char.ofNat n)
  | pair {a b c d e f g h : Char} {m n : Nat} (hm : hexFour? a b c d = some m)
      (hn : hexFour? e f g h = some n) (high : 0xd800 ≤ m ∧ m ≤ 0xdbff)
      (low : 0xdc00 ≤ n ∧ n ≤ 0xdfff) :
      EscapeText ['u', a, b, c, d, '\\', 'u', e, f, g, h]
        (Char.ofNat ((m - 0xd800) * 0x400 + (n - 0xdc00) + 0x10000))

theorem hexFour?_of_hexEscape {cs rest : List Char} {n : Nat} (h : hexEscape cs = .ok (n, rest)) :
    ∃ a b c d, cs = a :: b :: c :: d :: rest ∧ hexFour? a b c d = some n := by
  unfold hexEscape at h
  split at h
  · split at h
    · next hn =>
      cases h
      exact ⟨_, _, _, _, rfl, hn⟩
    · cases h
  · split at h <;> cases h

theorem hexEscape_cons {a b c d : Char} {n : Nat} (h : hexFour? a b c d = some n)
    (rest : List Char) : hexEscape (a :: b :: c :: d :: rest) = .ok (n, rest) := by
  simp [hexEscape, h]

theorem lowSurrogate_eq_ok {high : Nat} {cs rest : List Char} {c : Char}
    (h : lowSurrogate high cs = .ok (c, rest)) :
    ∃ n ds, cs = '\\' :: 'u' :: ds ∧ hexEscape ds = .ok (n, rest) ∧
      (0xdc00 ≤ n ∧ n ≤ 0xdfff) ∧
      c = Char.ofNat ((high - 0xd800) * 0x400 + (n - 0xdc00) + 0x10000) := by
  unfold lowSurrogate at h
  split at h
  · cases h
  · split at h
    · cases h
    · next hslash =>
      split at h
      · cases h
      · split at h
        · cases h
        · next hu =>
          split at h
          · cases h
          · next he =>
            split at h
            · next hn =>
              simp only [Except.ok.injEq, Prod.mk.injEq] at h
              obtain ⟨rfl, rfl⟩ := h
              simp only [Bool.not_eq_true, bne_eq_false_iff_eq] at hslash hu
              simp only [Bool.and_eq_true, decide_eq_true_eq] at hn
              exact ⟨_, _, by rw [hslash, hu], he, hn, rfl⟩
            · cases h

theorem lowSurrogate_append {high n : Nat} {e f g h : Char} (hn : hexFour? e f g h = some n)
    (low : 0xdc00 ≤ n ∧ n ≤ 0xdfff) (rest : List Char) :
    lowSurrogate high ('\\' :: 'u' :: e :: f :: g :: h :: rest) =
      .ok (Char.ofNat ((high - 0xd800) * 0x400 + (n - 0xdc00) + 0x10000), rest) := by
  simp [lowSurrogate, hexEscape_cons hn, low]

theorem escapeText_of_codePoint {cs rest : List Char} {c : Char}
    (h : codePoint cs = .ok (c, rest)) : ∃ u, EscapeText ('u' :: u) c ∧ cs = u ++ rest := by
  unfold codePoint at h
  split at h
  · cases h
  · next m ds hm =>
    obtain ⟨p, q, r, s, rfl, hfour⟩ := hexFour?_of_hexEscape hm
    split at h
    · cases h
    · next hlow =>
      simp only [Bool.and_eq_true, decide_eq_true_eq] at hlow
      split at h
      · next hhigh =>
        simp only [Bool.and_eq_true, decide_eq_true_eq] at hhigh
        obtain ⟨n, ds, rfl, hn, hrange, hc⟩ := lowSurrogate_eq_ok h
        obtain ⟨e, f, g, k, rfl, hlast⟩ := hexFour?_of_hexEscape hn
        rw [hc]
        exact ⟨_, .pair hfour hlast hhigh hrange, rfl⟩
      · next hhigh =>
        simp only [Bool.and_eq_true, decide_eq_true_eq] at hhigh
        cases h
        exact ⟨[p, q, r, s], .code hfour (by omega), rfl⟩

theorem escapeText_of_escape {cs rest : List Char} {c : Char} (h : escape cs = .ok (c, rest)) :
    ∃ u, EscapeText u c ∧ cs = u ++ rest := by
  unfold escape at h
  split at h
  · cases h
  · next x ds =>
    split at h
    · next hletter =>
      cases h
      exact ⟨[x], .letter hletter, rfl⟩
    · split at h
      · next hu =>
        obtain ⟨u, hc, rfl⟩ := escapeText_of_codePoint h
        exact ⟨'u' :: u, hc, by rw [hu, List.cons_append]⟩
      · cases h

theorem escape_append {u : List Char} {c : Char} (h : EscapeText u c) (rest : List Char) :
    escape (u ++ rest) = .ok (c, rest) := by
  have hu : letterEscapes.lookup 'u' = none := by decide
  cases h with
  | letter h => simp [escape, h]
  | code h hn =>
    simp only [escape, List.cons_append, List.nil_append, hu, if_true, codePoint, hexEscape_cons h]
    rw [if_neg (by simp; omega), if_neg (by simp; omega)]
  | pair hm hn high low =>
    simp only [escape, List.cons_append, List.nil_append, hu, if_true, codePoint,
      hexEscape_cons hm]
    rw [if_neg (by simp; omega), if_pos (by simp; omega), lowSurrogate_append hn low]

/-- Text between quotes, with the characters that it stands for. -/
inductive Literal : List Char → List Char → Prop where
  | nil : Literal [] []
  | plain {c : Char} {cs ds : List Char} (hquote : c ≠ '"') (hslash : c ≠ '\\')
      (hcontrol : 0x20 ≤ c.toNat) (h : Literal cs ds) : Literal (c :: cs) (c :: ds)
  | escaped {u cs ds : List Char} {c : Char} (hc : EscapeText u c) (h : Literal cs ds) :
      Literal ('\\' :: (u ++ cs)) (c :: ds)

theorem stringFrom_append {u ds : List Char} (h : Literal u ds) (acc rest : List Char) :
    stringFrom acc (u ++ '"' :: rest) = .ok (String.ofList (acc.reverse ++ ds), rest) := by
  induction h generalizing acc with
  | nil => rw [List.nil_append, stringFrom, if_pos rfl, List.append_nil]
  | plain hquote hslash hcontrol h ih =>
    rw [List.cons_append, stringFrom, if_neg hquote, if_neg hslash, if_neg (by omega), ih]
    simp
  | escaped hc h ih =>
    rw [List.cons_append, List.append_assoc, stringFrom, if_neg (by decide), if_pos rfl]
    split
    · next he =>
      rw [escape_append hc] at he
      cases he
    · next he =>
      rw [escape_append hc] at he
      cases he
      rw [ih]
      simp

theorem literal_of_stringFrom {acc cs rest : List Char} {s : String}
    (h : stringFrom acc cs = .ok (s, rest)) :
    ∃ u ds, Literal u ds ∧ cs = u ++ '"' :: rest ∧ s = String.ofList (acc.reverse ++ ds) := by
  fun_induction stringFrom acc cs with
  | case1 => cases h
  | case2 acc cs =>
    cases h
    exact ⟨[], [], .nil, rfl, by rw [List.append_nil]⟩
  | case3 => cases h
  | case4 acc cs d ds he hquote ih =>
    obtain ⟨u, es, hu, rfl, rfl⟩ := ih h
    obtain ⟨e, hd, rfl⟩ := escapeText_of_escape he
    exact ⟨_, _, .escaped hd hu, by simp, by simp⟩
  | case5 => cases h
  | case6 acc c cs hquote hslash hcontrol ih =>
    obtain ⟨u, es, hu, rfl, rfl⟩ := ih h
    exact ⟨_, _, .plain hquote hslash (by omega) hu, rfl, by simp⟩

/-- The reader of a string takes a literal with its closing quote, and nothing else. -/
theorem stringBody_eq_ok_iff {cs rest : List Char} {s : String} :
    stringBody cs = .ok (s, rest) ↔ ∃ u, Literal u s.toList ∧ cs = u ++ '"' :: rest := by
  constructor
  · intro h
    obtain ⟨u, ds, hu, rfl, rfl⟩ := literal_of_stringFrom h
    exact ⟨u, by simpa using hu, rfl⟩
  · rintro ⟨u, hu, rfl⟩
    rw [stringBody, stringFrom_append hu]
    simp

theorem eq_ok_of_toOption {ε α : Type} {r : Except ε α} {a : α} (h : r.toOption = some a) :
    r = .ok a := by
  cases r with
  | error e => cases h
  | ok b => exact congrArg _ (Option.some.inj h)

/-- Quotes, backslashes and controls are escaped. -/
theorem escapeText_escapeChar {c : Char} (h : c = '"' ∨ c = '\\' ∨ c.toNat < 0x20) :
    ∃ u, escapeChar c = '\\' :: u ∧ EscapeText u c := by
  have hall : ∀ n < 0x60, n = 0x22 ∨ n = 0x5c ∨ n < 0x20 →
      (escapeChar (Char.ofNat n)).head? = some '\\' ∧
        (escape (escapeChar (Char.ofNat n)).tail).toOption = some (Char.ofNat n, []) := by
    decide
  have hcode : c.toNat = 0x22 ∨ c.toNat = 0x5c ∨ c.toNat < 0x20 := by
    rcases h with rfl | rfl | h
    · exact .inl rfl
    · exact .inr (.inl rfl)
    · exact .inr (.inr h)
  obtain ⟨hhead, hescape⟩ := hall c.toNat (by omega) hcode
  rw [Char.ofNat_toNat] at hhead hescape
  obtain ⟨u, hu, htail⟩ := escapeText_of_escape (eq_ok_of_toOption hescape)
  obtain ⟨t, ht⟩ := List.head?_eq_some_iff.1 hhead
  rw [ht, List.tail_cons, List.append_nil] at htail
  exact ⟨u, by rw [ht, htail], hu⟩

theorem literal_escapeChar (c : Char) {cs ds : List Char} (h : Literal cs ds) :
    Literal (escapeChar c ++ cs) (c :: ds) := by
  by_cases hc : c = '"' ∨ c = '\\' ∨ c.toNat < 0x20
  · obtain ⟨u, heq, hu⟩ := escapeText_escapeChar hc
    rw [heq, List.cons_append]
    exact .escaped hu h
  · simp only [not_or] at hc
    have heq : escapeChar c = [c] := by simp [escapeChar, hc, Nat.not_lt.1 hc.2.2]
    rw [heq]
    exact .plain hc.1 hc.2.1 (by omega) h

theorem literal_flatMap_escapeChar (cs : List Char) : Literal (cs.flatMap escapeChar) cs := by
  induction cs with
  | nil => exact .nil
  | cons c cs ih =>
    rw [List.flatMap_cons]
    exact literal_escapeChar c ih

end CAudit.Json.Reader
