import CAudit.Json.Record
import CAudit.Proofs.JsonWriting

/-! What readers of a known shape make of written text, whether they give a value or a fault. -/
namespace CAudit.Json.Reader

/-- In front of any text the reader takes exactly `u`, and ends as `e` says. -/
def Takes {α : Type} (r : Reader α) (u : List Char) (e : Except Fault α) : Prop :=
  ∀ rest, r (u ++ rest) = e.map fun a => (a, rest)

theorem Takes.map {α β : Type} {r : Reader α} {u : List Char} {e : Except Fault α}
    (h : Takes r u e) (f : α → β) : Takes (do return f (← r)) u (e.map f) := by
  intro rest
  change (do let x ← r (u ++ rest); pure (f x.1, x.2) : Except Fault (β × List Char)) = _
  rw [h rest]
  cases e <;> rfl

theorem takes_string (s : String) : Takes string (stringText s) (.ok s) := by
  intro rest
  rw [stringText, List.cons_append, List.cons_append, string, skipSpace_cons (by decide),
    List.append_assoc]
  exact stringBody_eq_ok_iff.2 ⟨_, literal_flatMap_escapeChar s.toList, rfl⟩

theorem takes_bool (b : Bool) : Takes bool (compactText (.bool b)) (.ok b) := by
  intro rest
  cases b <;> rfl

theorem Takes.nullable {α : Type} {r : Reader α} {c : Char} {u : List Char} {e : Except Fault α}
    (h : Takes r (c :: u) e) (hspace : isSpace c = false) (hnull : c ≠ 'n') :
    Takes (nullable r) (c :: u) (e.map some) := by
  intro rest
  rw [List.cons_append, Reader.nullable, skipSpace_cons hspace]
  split
  · next heq => exact absurd (List.cons.inj heq).1 hnull
  · rw [← List.cons_append, h rest]
    cases e <;> rfl

/-- What stands in front of a part of a list: nothing, or a comma behind another part. -/
def lead (first : Bool) : List Char := if first then [] else [',']

section
variable {α β : Type} {item : Reader α} {text : β → List Char} {out : β → Except Fault α}

/-- One item, and the rest of the list unless the item has a fault. -/
theorem itemsFrom_item (first : Bool) {c : Char} {u : List Char} {e : Except Fault α}
    (h : Takes item (c :: u) e) (hspace : isSpace c = false) (hclose : c ≠ ']')
    (more : List Char) :
    itemsFrom item first (lead first ++ (c :: u ++ more)) =
      e.bind fun a => (itemsFrom item false more).map fun r => (a :: r.1, r.2) := by
  have hturn : arrayTurn first (lead first ++ (c :: u ++ more)) = .ok (.next (c :: u ++ more)) := by
    cases first with
    | true => exact arrayTurn_first blank_nil hspace hclose _
    | false => exact arrayTurn_comma blank_nil blank_nil hspace hclose _
  cases e with
  | error e => exact itemsFrom_error hturn (h more)
  | ok a => exact itemsFrom_next hturn (h more) (by simp; omega)

/-- The reader takes the text as `e` says, and the text starts like an item. -/
structure ItemText (item : Reader α) (u : List Char) (e : Except Fault α) : Prop where
  takes : Takes item u e
  head : ∃ c t, u = c :: t ∧ isSpace c = false ∧ c ≠ ']'

theorem itemsFrom_cons (first : Bool) {t : β} {ts : List β} (h : ItemText item (text t) (out t))
    {more rest : List Char}
    (hmore : itemsFrom item false more = (ts.mapM out).map fun as => (as, rest)) :
    itemsFrom item first (lead first ++ (text t ++ more)) =
      ((t :: ts).mapM out).map fun as => (as, rest) := by
  obtain ⟨c, u, htext, hspace, hclose⟩ := h.head
  have htakes := h.takes
  rw [htext] at htakes ⊢
  rw [itemsFrom_item first htakes hspace hclose, hmore, List.mapM_cons]
  cases out t with
  | error => rfl
  | ok a => cases ts.mapM out <;> rfl

theorem itemsFrom_commas {ts : List β} (h : ∀ t ∈ ts, ItemText item (text t) (out t))
    (rest : List Char) :
    itemsFrom item false (ts.flatMap (fun t => ',' :: text t) ++ ']' :: rest) =
      (ts.mapM out).map fun as => (as, rest) := by
  induction ts with
  | nil => exact itemsFrom_close (arrayTurn_close blank_nil false rest)
  | cons t ts ih =>
    rw [List.forall_mem_cons] at h
    rw [List.flatMap_cons, List.append_assoc, List.cons_append]
    exact itemsFrom_cons false h.1 (ih h.2)

/-- A list ends as its first item with a fault does. -/
theorem takes_list {ts : List β} (h : ∀ t ∈ ts, ItemText item (text t) (out t)) (room : Nat) :
    Takes (list (room + 1) item) ('[' :: [','].intercalate (ts.map text) ++ [']'])
      (ts.mapM out) := by
  intro rest
  rw [List.cons_append, List.cons_append, list, skipSpace_cons (by decide), List.append_assoc]
  change itemsFrom item true _ = _
  cases ts with
  | nil => exact itemsFrom_close (arrayTurn_close blank_nil true rest)
  | cons t ts =>
    rw [List.forall_mem_cons] at h
    rw [List.map_cons, intercalate_comma, List.flatMap_map, List.append_assoc]
    exact itemsFrom_cons true h.1 (itemsFrom_commas h.2 rest)

end

theorem takes_list_zero {α : Type} (item : Reader α) (u : List Char) :
    Takes (list 0 item) ('[' :: u) (.error .malformed) := by
  intro rest
  rw [List.cons_append, list, skipSpace_cons (by decide)]
  rfl

section
variable {σ : Type} {value : σ → String → Except Fault (Reader σ)} {s : σ}

/-- One member, and the rest of the object unless the member has a fault. -/
theorem membersFrom_member (first : Bool) {key : String} {read : Reader σ}
    (hkey : value s key = .ok read) {u : List Char} {e : Except Fault σ} (hread : Takes read u e)
    (more : List Char) :
    membersFrom value s first (lead first ++ (stringText key ++ ':' :: (u ++ more))) =
      e.bind fun s => membersFrom value s false more := by
  have hk := literal_flatMap_escapeChar key.toList
  have hturn : objectTurn first (lead first ++ (stringText key ++ ':' :: (u ++ more))) =
      .ok (.next (key.toList.flatMap escapeChar ++ '"' :: ([] ++ ':' :: (u ++ more)))) := by
    rw [stringText, List.cons_append, List.cons_append, List.append_assoc]
    cases first with
    | true => exact objectTurn_first blank_nil _
    | false => exact objectTurn_comma blank_nil blank_nil _
  cases e with
  | error e => exact membersFrom_error hturn hk blank_nil hkey (hread more)
  | ok s' => exact membersFrom_next hturn hk blank_nil hkey (hread more) (by simp; omega)

end

section
variable {σ α : Type} {shape : Shape σ α}

theorem takes_record_zero (u : List Char) :
    Takes (record 0 shape) ('{' :: u) (.error .malformed) := by
  intro rest
  rw [List.cons_append, record, skipSpace_cons (by decide)]
  rfl

/-- A record ends as its members do, if what they give is complete. -/
theorem takes_record {u : List Char} {e : Except Fault σ} (finish : σ → α)
    (h : ∀ rest, membersFrom shape.member shape.empty true (u ++ '}' :: rest) =
      e.map fun s => (s, rest))
    (hfinish : ∀ s, e = .ok s → shape.finish s = some (finish s)) (room : Nat) :
    Takes (record (room + 1) shape) ('{' :: u ++ ['}']) (e.map finish) := by
  intro rest
  rw [List.cons_append, List.cons_append, record, skipSpace_cons (by decide), List.append_assoc,
    List.singleton_append]
  simp only [Nat.add_one_ne_zero, if_false, h rest]
  cases e with
  | error e => rfl
  | ok s => simp only [Except.map, hfinish s rfl]

end

end CAudit.Json.Reader
