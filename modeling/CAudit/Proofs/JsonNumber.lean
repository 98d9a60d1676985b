import CAudit.Json.Reader
import CAudit.Json.Writer

/-! Numbers in JSON text. The reader of a number takes a numeral from the front and does not look
beyond the character behind it. What the writer makes of a whole number is a numeral of it. -/
namespace CAudit.Json.Reader

/-- The characters of numbers. -/
def isNumeric (c : Char) : Bool := isDigit c || ['+', '-', '.', 'e', 'E'].contains c

/-- No number goes on with this text. -/
def Closed (rest : List Char) : Prop := ∀ c ∈ rest.head?, isNumeric c = false

theorem closed_nil : Closed [] := by simp [Closed]

/-- The reader takes the characters of `u` and no others, as long as no number goes on behind
them. -/
structure Numeral (r : Reader Number) (u : List Char) (n : Number) : Prop where
  numeric : ∀ c ∈ u, isNumeric c = true
  taken : ∀ rest, Closed rest → r (u ++ rest) = .ok (n, rest)

/-- Whatever the reader gives, it gives for the numeral in front. -/
def TakesNumeral (r : Reader Number) : Prop :=
  ∀ {cs rest : List Char} {n : Number}, r cs = .ok (n, rest) → ∃ u, cs = u ++ rest ∧ Numeral r u n

theorem Numeral.cons {r r' : Reader Number} {ds u : List Char} {c : Char} {n : Number}
    (h : Numeral r' u n) (hds : ∀ d ∈ ds, isNumeric d = true) (hc : isNumeric c = true)
    (hr : ∀ more, r (ds ++ c :: more) = r' more) : Numeral r (ds ++ c :: u) n where
  numeric := List.forall_mem_append.2 ⟨hds, List.forall_mem_cons.2 ⟨hc, h.numeric⟩⟩
  taken rest hrest := by rw [List.append_assoc, List.cons_append, hr, h.taken rest hrest]

/-- A run of digits that does not go on in `rest`. -/
structure DigitRun (ds rest : List Char) : Prop where
  digits : ∀ c ∈ ds, isDigit c = true
  stop : ∀ c ∈ rest.head?, isDigit c = false

theorem DigitRun.takeWhile {ds rest : List Char} (h : DigitRun ds rest) :
    (ds ++ rest).takeWhile isDigit = ds := by
  rw [List.takeWhile_append_of_pos h.digits]
  cases rest with
  | nil => simp
  | cons c rest => simp [h.stop c rfl]

theorem DigitRun.closed {ds rest : List Char} (h : ∀ c ∈ ds, isDigit c = true)
    (hrest : Closed rest) : DigitRun ds rest where
  digits := h
  stop c hc := by
    have hnumeric := hrest c hc
    simp only [isNumeric, Bool.or_eq_false_iff] at hnumeric
    exact hnumeric.1

theorem exists_digitRun (cs : List Char) :
    ∃ ds rest, cs = ds ++ rest ∧ DigitRun ds rest := by
  refine ⟨cs.takeWhile isDigit, cs.dropWhile isDigit, List.takeWhile_append_dropWhile.symm,
    List.all_eq_true.1 List.all_takeWhile, fun c hc => ?_⟩
  have hhead := List.head?_dropWhile_not isDigit cs
  rw [hc] at hhead
  simpa using hhead

theorem isNumeric_of_isDigit {c : Char} (h : isDigit c = true) : isNumeric c = true := by
  simp [isNumeric, h]

theorem floatNumber_append (positive : Bool) (d : Decimal) (rest : List Char) :
    floatNumber positive d rest = (floatNumber positive d []).map fun r => (r.1, rest) := by
  unfold floatNumber
  split <;> rfl

theorem wholeNumber_append (positive : Bool) (d : Decimal) (rest : List Char) :
    wholeNumber positive d rest = (wholeNumber positive d []).map fun r => (r.1, rest) := by
  unfold wholeNumber
  split
  · split
    · rfl
    · split
      · rfl
      · exact floatNumber_append _ _ _
  · exact floatNumber_append _ _ _

theorem ok_of_map {ε α β : Type} {e : Except ε (α × β)} {a : α} {rest rest' : β}
    (h : (e.map fun r => (r.1, rest)) = .ok (a, rest')) :
    rest' = rest ∧ ∀ more : β, (e.map fun r => (r.1, more)) = .ok (a, more) := by
  cases e with
  | error => cases h
  | ok r =>
    cases h
    exact ⟨rfl, fun _ => rfl⟩

/-- The sign of an exponent, if there is one. -/
def IsSign (sign : List Char) : Prop := sign = [] ∨ sign = ['-'] ∨ sign = ['+']

theorem exponentPart_append {positive : Bool} {d : Decimal} {sign ds rest : List Char}
    (hsign : IsSign sign) (hne : ds ≠ []) (h : DigitRun ds rest) :
    exponentPart positive d (sign ++ (ds ++ rest)) =
      (exponentPart positive d (sign ++ ds)).map fun r => (r.1, rest) := by
  have htake := h.takeWhile
  have hself := (DigitRun.closed h.digits closed_nil).takeWhile
  obtain ⟨c, ds, rfl⟩ := List.exists_cons_of_ne_nil hne
  have hc : isDigit c = true := h.digits c List.mem_cons_self
  have hminus : c ≠ '-' := by rintro rfl; revert hc; decide
  have hplus : c ≠ '+' := by rintro rfl; revert hc; decide
  rw [List.cons_append] at htake
  rw [List.append_nil] at hself
  rcases hsign with rfl | rfl | rfl
  all_goals
    simp only [exponentPart, List.cons_append, List.nil_append, List.head?_cons,
      Option.some_beq_some, beq_eq_false_iff_ne.2 hminus, beq_eq_false_iff_ne.2 hplus, Bool.or_self,
      Char.reduceBEq, Bool.or_false, Bool.or_true, Bool.false_eq_true, ↓reduceIte,
      List.drop_succ_cons, List.drop_zero, hc, htake, hself, List.length_cons, List.drop_left,
      List.drop_length]
    split
    · exact floatNumber_append _ _ _
    · split <;> rfl

theorem exists_of_exponentPart {positive : Bool} {d : Decimal} {cs rest : List Char} {n : Number}
    (h : exponentPart positive d cs = .ok (n, rest)) :
    ∃ sign ds, IsSign sign ∧ ds ≠ [] ∧ DigitRun ds rest ∧ cs = sign ++ (ds ++ rest) := by
  have hsigned : ∃ sign, IsSign sign ∧
      cs = sign ++ if cs.head? == some '-' || cs.head? == some '+' then cs.drop 1 else cs := by
    split
    · next hhead =>
      obtain ⟨x, t, rfl⟩ : ∃ x t, cs = x :: t := by
        cases cs with
        | nil => simp at hhead
        | cons x t => exact ⟨x, t, rfl⟩
      refine ⟨[x], ?_, rfl⟩
      simpa [IsSign] using hhead
    · exact ⟨[], .inl rfl, rfl⟩
  obtain ⟨sign, hsign, hcs⟩ := hsigned
  unfold exponentPart at h
  dsimp only at h
  generalize (if cs.head? == some '-' || cs.head? == some '+' then cs.drop 1 else cs) = t at h hcs
  obtain ⟨ds, tail, rfl, hrun⟩ := exists_digitRun t
  refine ⟨sign, ds, hsign, ?_⟩
  cases ds with
  | nil =>
    -- the digits that must follow are missing
    cases tail with
    | nil => cases h
    | cons c tail => simp [hrun.stop c rfl] at h
  | cons c ds =>
    have hc : isDigit c = true := hrun.digits c List.mem_cons_self
    simp only [List.cons_append, hc, if_true] at h
    rw [← List.cons_append, hrun.takeWhile, List.drop_left] at h
    have hrest : rest = tail := by
      split at h
      · rw [floatNumber_append] at h
        exact (ok_of_map h).1
      · split at h
        · cases h
        · cases h
          rfl
    exact ⟨List.cons_ne_nil c ds, hrest ▸ hrun, hrest ▸ hcs⟩

theorem exponentPart_takesNumeral (positive : Bool) (d : Decimal) :
    TakesNumeral (exponentPart positive d) := by
  intro cs rest n h
  obtain ⟨sign, ds, hsign, hne, hrun, rfl⟩ := exists_of_exponentPart h
  rw [exponentPart_append hsign hne hrun] at h
  refine ⟨sign ++ ds, (List.append_assoc _ _ _).symm, fun c hc => ?_, fun more hmore => ?_⟩
  · rcases List.mem_append.1 hc with hc | hc
    · rcases hsign with rfl | rfl | rfl
      · cases hc
      · exact List.mem_singleton.1 hc ▸ rfl
      · exact List.mem_singleton.1 hc ▸ rfl
    · exact isNumeric_of_isDigit (hrun.digits c hc)
  · rw [List.append_assoc, exponentPart_append hsign hne (.closed hrun.digits hmore)]
    exact (ok_of_map h).2 more

/-- The letters in front of an exponent. -/
def IsMark (c : Char) : Prop := c = 'e' ∨ c = 'E'

theorem IsMark.isNumeric {c : Char} (h : IsMark c) : isNumeric c = true := by
  rcases h with rfl | rfl <;> decide

theorem DigitRun.mark {ds : List Char} (h : ∀ c ∈ ds, isDigit c = true) {e : Char} (he : IsMark e)
    (more : List Char) : DigitRun ds (e :: more) where
  digits := h
  stop c hc := by
    cases hc
    rcases he with rfl | rfl <;> decide

theorem not_isMark_of_closed {rest : List Char} (h : Closed rest) :
    ∀ c ∈ rest.head?, ¬ IsMark c := by
  rintro c hc (rfl | rfl)
  · exact absurd (h _ hc) (by decide)
  · exact absurd (h _ hc) (by decide)

theorem fractionPart_mark (positive : Bool) (d : Decimal) {ds : List Char} (hne : ds ≠ [])
    (hds : ∀ c ∈ ds, isDigit c = true) {e : Char} (he : IsMark e) (more : List Char) :
    fractionPart positive d (ds ++ e :: more) = exponentPart positive (d.pushFraction ds) more := by
  have htake := (DigitRun.mark hds he more).takeWhile
  obtain ⟨c, ds, rfl⟩ := List.exists_cons_of_ne_nil hne
  simp only [fractionPart, htake, List.drop_left]
  rcases he with rfl | rfl <;> rfl

theorem fractionPart_end {positive : Bool} {d : Decimal} {ds rest : List Char} (hne : ds ≠ [])
    (h : DigitRun ds rest) (hend : ∀ c ∈ rest.head?, ¬ IsMark c) :
    fractionPart positive d (ds ++ rest) = floatNumber positive (d.pushFraction ds) rest := by
  have htake := h.takeWhile
  obtain ⟨c, ds, rfl⟩ := List.exists_cons_of_ne_nil hne
  simp only [fractionPart, htake, List.drop_left]
  cases rest with
  | nil => rfl
  | cons x rest =>
    have hx : ¬ (x == 'e' || x == 'E') = true := by simpa [IsMark] using hend x rfl
    exact if_neg hx

theorem fractionPart_takesNumeral (positive : Bool) (d : Decimal) :
    TakesNumeral (fractionPart positive d) := by
  intro cs rest n h
  obtain ⟨ds, tail, rfl, hrun⟩ := exists_digitRun cs
  have hnumeric (c : Char) (hc : c ∈ ds) := isNumeric_of_isDigit (hrun.digits c hc)
  have hne : ds ≠ [] := by
    rintro rfl
    simp only [fractionPart, hrun.takeWhile] at h
    cases tail <;> cases h
  by_cases hend : ∀ c ∈ tail.head?, ¬ IsMark c
  · rw [fractionPart_end hne hrun hend, floatNumber_append] at h
    obtain ⟨rfl, hfloat⟩ := ok_of_map h
    refine ⟨ds, rfl, hnumeric, fun more hmore => ?_⟩
    rw [fractionPart_end hne (.closed hrun.digits hmore) (not_isMark_of_closed hmore),
      floatNumber_append, hfloat]
  · -- an exponent follows
    simp only [Classical.not_forall, Classical.not_not] at hend
    obtain ⟨e, htail, he⟩ := hend
    obtain ⟨tail, rfl⟩ := List.head?_eq_some_iff.1 htail
    have hmark := fractionPart_mark positive d hne hrun.digits he
    rw [hmark] at h
    obtain ⟨u, rfl, hu⟩ := exponentPart_takesNumeral _ _ h
    exact ⟨ds ++ e :: u, by simp, hu.cons hnumeric he.isNumeric hmark⟩

/-- Digits in front of the point: a zero stands alone. -/
structure WholeDigits (ds : List Char) : Prop where
  nonempty : ds ≠ []
  digits : ∀ c ∈ ds, isDigit c = true
  zero : ds.head? = some '0' → ds.length ≤ 1

/-- The decimal of the digits in front of the point. -/
def wholeDecimal (ds : List Char) : Decimal := ds.foldl Decimal.pushWhole ⟨0, 0⟩

/-- What follows the digits decides how the number goes on. -/
theorem unsignedNumber_run (positive : Bool) {ds rest : List Char} (hds : WholeDigits ds)
    (h : DigitRun ds rest) :
    (∀ more, rest = '.' :: more → unsignedNumber positive (ds ++ rest) =
      fractionPart positive (wholeDecimal ds) more) ∧
    (∀ e more, IsMark e → rest = e :: more → unsignedNumber positive (ds ++ rest) =
      exponentPart positive (wholeDecimal ds) more) ∧
    ((∀ c ∈ rest.head?, c ≠ '.' ∧ ¬ IsMark c) → unsignedNumber positive (ds ++ rest) =
      wholeNumber positive (wholeDecimal ds) rest) := by
  have htake := h.takeWhile
  obtain ⟨c, ds, rfl⟩ := List.exists_cons_of_ne_nil hds.nonempty
  have hc : isDigit c = true := hds.digits c List.mem_cons_self
  have hzero : ¬ (c == '0' && decide (1 < (c :: ds).length)) = true := by simpa using hds.zero
  rw [List.cons_append] at htake ⊢
  simp only [unsignedNumber, hc, Bool.not_true, Bool.false_eq_true, if_false, htake, hzero]
  rw [← List.cons_append, List.drop_left]
  refine ⟨?_, ?_, fun hend => ?_⟩
  · rintro more rfl
    rfl
  · rintro e more (rfl | rfl) rfl
    · rfl
    · rfl
  · split
    · exact absurd rfl (hend _ rfl).1
    · exact absurd (.inl rfl) (hend _ rfl).2
    · exact absurd (.inr rfl) (hend _ rfl).2
    · rfl

theorem unsignedNumber_point (positive : Bool) {ds : List Char} (hds : WholeDigits ds)
    (more : List Char) :
    unsignedNumber positive (ds ++ '.' :: more) = fractionPart positive (wholeDecimal ds) more :=
  (unsignedNumber_run positive hds ⟨hds.digits, by rintro c ⟨⟩; decide⟩).1 more rfl

theorem unsignedNumber_mark (positive : Bool) {ds : List Char} (hds : WholeDigits ds) {e : Char}
    (he : IsMark e) (more : List Char) :
    unsignedNumber positive (ds ++ e :: more) = exponentPart positive (wholeDecimal ds) more :=
  (unsignedNumber_run positive hds (.mark hds.digits he more)).2.1 e more he rfl

theorem unsignedNumber_closed (positive : Bool) {ds : List Char} (hds : WholeDigits ds)
    {rest : List Char} (hrest : Closed rest) :
    unsignedNumber positive (ds ++ rest) = wholeNumber positive (wholeDecimal ds) rest := by
  refine (unsignedNumber_run positive hds (.closed hds.digits hrest)).2.2 fun c hc => ⟨?_, ?_⟩
  · rintro rfl
    exact absurd (hrest _ hc) (by decide)
  · exact not_isMark_of_closed hrest c hc

theorem wholeDigits_of_unsignedNumber {positive : Bool} {ds rest tail : List Char} {n : Number}
    (h : unsignedNumber positive (ds ++ tail) = .ok (n, rest)) (hrun : DigitRun ds tail) :
    WholeDigits ds := by
  have htake := hrun.takeWhile
  cases ds with
  | nil =>
    cases tail with
    | nil => cases h
    | cons c tail => simp [unsignedNumber, hrun.stop c rfl] at h
  | cons c ds =>
    refine ⟨List.cons_ne_nil c ds, hrun.digits, fun hzero => Nat.not_lt.1 fun hlength => ?_⟩
    have hc : isDigit c = true := hrun.digits c List.mem_cons_self
    have hbad : (c == '0' && decide (1 < (c :: ds).length)) = true := by
      simp only [Bool.and_eq_true, beq_iff_eq, decide_eq_true_eq]
      exact ⟨Option.some.inj hzero, hlength⟩
    rw [List.cons_append] at h htake
    simp only [unsignedNumber, hc, Bool.not_true, Bool.false_eq_true, if_false, htake, hbad,
      if_true] at h
    cases h

theorem unsignedNumber_takesNumeral (positive : Bool) : TakesNumeral (unsignedNumber positive) := by
  intro cs rest n h
  obtain ⟨ds, tail, rfl, hrun⟩ := exists_digitRun cs
  have hds := wholeDigits_of_unsignedNumber h hrun
  have hnumeric (c : Char) (hc : c ∈ ds) := isNumeric_of_isDigit (hrun.digits c hc)
  by_cases hend : ∀ c ∈ tail.head?, c ≠ '.' ∧ ¬ IsMark c
  · rw [(unsignedNumber_run positive hds hrun).2.2 hend, wholeNumber_append] at h
    obtain ⟨rfl, hwhole⟩ := ok_of_map h
    refine ⟨ds, rfl, hnumeric, fun more hmore => ?_⟩
    rw [unsignedNumber_closed positive hds hmore, wholeNumber_append, hwhole]
  · simp only [Classical.not_forall, Classical.not_and_iff_not_or_not, Classical.not_not] at hend
    obtain ⟨c, htail, hc⟩ := hend
    obtain ⟨tail, rfl⟩ := List.head?_eq_some_iff.1 htail
    rcases hc with rfl | hc
    · rw [unsignedNumber_point positive hds] at h
      obtain ⟨u, rfl, hu⟩ := fractionPart_takesNumeral _ _ h
      exact ⟨ds ++ '.' :: u, by simp,
        hu.cons hnumeric (by decide) (unsignedNumber_point positive hds)⟩
    · rw [unsignedNumber_mark positive hds hc] at h
      obtain ⟨u, rfl, hu⟩ := exponentPart_takesNumeral _ _ h
      exact ⟨ds ++ c :: u, by simp,
        hu.cons hnumeric hc.isNumeric (unsignedNumber_mark positive hds hc)⟩

theorem head_of_unsignedNumber {positive : Bool} {cs : List Char} {r : Number × List Char}
    (h : unsignedNumber positive cs = .ok r) : ∃ c t, cs = c :: t ∧ isDigit c = true := by
  unfold unsignedNumber at h
  split at h
  · cases h
  · next c t =>
    split at h
    · cases h
    · next hc => exact ⟨c, t, rfl, by simpa using hc⟩

theorem number_of_ne {cs : List Char} (h : cs.head? ≠ some '-') :
    number cs = unsignedNumber true cs := by
  unfold number
  split
  · exact absurd rfl h
  · rfl

theorem head_of_number {cs : List Char} {r : Number × List Char} (h : number cs = .ok r) :
    ∃ c t, cs = c :: t ∧ (c = '-' ∨ isDigit c = true) := by
  by_cases hminus : cs.head? = some '-'
  · obtain ⟨t, rfl⟩ := List.head?_eq_some_iff.1 hminus
    exact ⟨'-', t, rfl, .inl rfl⟩
  · rw [number_of_ne hminus] at h
    obtain ⟨c, t, rfl, hc⟩ := head_of_unsignedNumber h
    exact ⟨c, t, rfl, .inr hc⟩

/-- A number is read from the numeral in front of the text. -/
theorem number_takesNumeral : TakesNumeral number := by
  intro cs rest n h
  by_cases hminus : cs.head? = some '-'
  · obtain ⟨cs, rfl⟩ := List.head?_eq_some_iff.1 hminus
    obtain ⟨u, rfl, hu⟩ := unsignedNumber_takesNumeral false h
    exact ⟨'-' :: u, rfl, hu.cons (List.forall_mem_nil _) (by decide) fun _ => rfl⟩
  · rw [number_of_ne hminus] at h
    obtain ⟨u, rfl, hu⟩ := unsignedNumber_takesNumeral true h
    obtain ⟨c, u, rfl, -⟩ := head_of_unsignedNumber (by simpa using hu.taken [] closed_nil)
    refine ⟨c :: u, rfl, hu.numeric, fun more hmore => ?_⟩
    have hhead : (c :: u ++ more).head? ≠ some '-' := hminus
    rw [number_of_ne hhead, hu.taken more hmore]

/-- A number that fills its text is read in front of every text with which no number goes on. -/
theorem numeral_of_number {u : List Char} {n : Number} (h : number u = .ok (n, [])) :
    Numeral number u n := by
  obtain ⟨v, hv, hn⟩ := number_takesNumeral h
  rwa [hv, List.append_nil]

theorem isDigit_of_mem_natText {n : Nat} {c : Char} (h : c ∈ natText n) : isDigit c = true := by
  have hc := Nat.isDigit_of_mem_toDigits (by decide) (by decide) h
  simpa [Char.isDigit, isDigit, UInt32.le_iff_toNat_le, Char.le_def] using hc

theorem foldl_pushWhole {ds : List Char} {s : Nat} (h : Nat.ofDigitChars 10 ds s ≤ maxWord) :
    ds.foldl Decimal.pushWhole ⟨s, 0⟩ = ⟨Nat.ofDigitChars 10 ds s, 0⟩ := by
  induction ds generalizing s with
  | nil => rfl
  | cons c ds ih =>
    rw [Nat.ofDigitChars_cons] at h ⊢
    have hpush : Decimal.pushWhole ⟨s, 0⟩ c = ⟨10 * s + (c.toNat - '0'.toNat), 0⟩ := by
      rw [Nat.ofDigitChars_eq_ofDigitChars_zero] at h
      have hpos : 0 < 10 ^ ds.length := Nat.pow_pos (by decide)
      have hle := Nat.le_mul_of_pos_left (10 * s + (c.toNat - '0'.toNat)) hpos
      have hfits : s * 10 + digitValue c ≤ maxWord := by
        unfold digitValue
        omega
      rw [Decimal.pushWhole, if_pos (by simpa using hfits), Nat.mul_comm s]
      rfl
    rw [List.foldl_cons, hpush, ih h]

theorem wholeDecimal_natText {n : Nat} (h : n ≤ maxWord) : wholeDecimal (natText n) = ⟨n, 0⟩ := by
  have hvalue : Nat.ofDigitChars 10 (natText n) 0 = n := Nat.ofDigitChars_ten_toDigits
  rw [wholeDecimal, foldl_pushWhole (by rwa [hvalue]), hvalue]

theorem head?_natText_ne {n : Nat} (h : 0 < n) : (natText n).head? ≠ some '0' := by
  induction n using Nat.strongRecOn with
  | _ n ih =>
    unfold natText at ih ⊢
    by_cases hn : n < 10
    · have hall : ∀ n < 10, 0 < n → n.digitChar ≠ '0' := by decide
      rw [Nat.toDigits_of_lt_base hn]
      exact fun hhead => hall n hn h (Option.some.inj hhead)
    · have hhead := ih (n / 10) (by omega) (by omega)
      have hne : Nat.toDigits 10 (n / 10) ≠ [] := Nat.toDigits_ne_nil
      obtain ⟨c, t, hct⟩ := List.exists_cons_of_ne_nil hne
      rw [Nat.toDigits_of_base_le (by decide) (by omega), hct]
      rwa [hct] at hhead

theorem wholeDigits_natText (n : Nat) : WholeDigits (natText n) where
  nonempty := Nat.toDigits_ne_nil
  digits _ hc := isDigit_of_mem_natText hc
  zero hhead := by
    cases n with
    | zero => decide
    | succ n => exact absurd hhead (head?_natText_ne n.succ_pos)

theorem number_natText {n : Nat} (h : n ≤ maxWord) {rest : List Char} (hrest : Closed rest) :
    number (natText n ++ rest) = .ok (.nat n, rest) := by
  have hds := wholeDigits_natText n
  obtain ⟨c, t, hct⟩ := List.exists_cons_of_ne_nil hds.nonempty
  have hhead : (natText n ++ rest).head? ≠ some '-' := by
    have hc : isDigit c = true := hds.digits c (by simp [hct])
    rw [hct]
    rintro ⟨⟩
    revert hc
    decide
  rw [number_of_ne hhead, unsignedNumber_closed true hds hrest, wholeDecimal_natText h]
  rfl

theorem number_negative {n : Nat} (hpos : 0 < n) (h : n ≤ 0x8000000000000000) {rest : List Char}
    (hrest : Closed rest) : number ('-' :: natText n ++ rest) = .ok (.negative n, rest) := by
  have hword : n ≤ maxWord := Nat.le_trans h (by decide)
  rw [List.cons_append, number, unsignedNumber_closed false (wholeDigits_natText n) hrest,
    wholeDecimal_natText hword]
  simp [wholeNumber, Nat.ne_of_gt hpos, h]

end CAudit.Json.Reader
