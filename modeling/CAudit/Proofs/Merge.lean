import CAudit.Finding.Merge

/-! Merging findings by key. The slots, read one after the other, are a list to which each finding
is added by a search for its key; the index only finds the place sooner. A merged list has one
finding for each key. A key that is there keeps its place, a new key goes to the end, and a finding
with a suggestion is never replaced; so once all findings of a list have suggestions, whatever is
merged behind them only adds findings with new keys. -/
namespace CAudit.Finding

/-- The keys of some findings. -/
def keys (fs : List Finding) : List (Nat × String) := fs.map key

/-- Which of two findings with one key stays: the later one only if it alone has a suggestion. -/
def prefer (old new : Finding) : Finding :=
  if new.hasSuggestion && !old.hasSuggestion then new else old

/-- Adds a finding to a merged list by searching the list. -/
def insert (merged : List Finding) (f : Finding) : List Finding :=
  match merged with
  | [] => [f]
  | g :: gs => if g.key = f.key then prefer g f :: gs else g :: insert gs f

theorem prefer_key {f g : Finding} (h : g.key = f.key) : (prefer g f).key = g.key := by
  unfold prefer
  split
  · exact h.symm
  · rfl

theorem prefer_of_hasSuggestion {g : Finding} (h : g.hasSuggestion = true) (f : Finding) :
    prefer g f = g := by
  simp [prefer, h]

/-- A finding with a new key goes to the end. -/
theorem insert_of_not_mem {m : List Finding} {f : Finding} (h : f.key ∉ keys m) :
    insert m f = m ++ [f] := by
  induction m with
  | nil => rfl
  | cons g m ih =>
    simp only [keys, List.map_cons, List.mem_cons, not_or] at h
    rw [insert, if_neg (Ne.symm h.1), ih h.2]
    rfl

/-- A finding whose key stands at one place competes for that place. -/
theorem insert_eq_set {m : List Finding} {f g : Finding} {slot : Nat} (hg : m[slot]? = some g)
    (hkey : g.key = f.key) (honly : ∀ i, m[i]?.map key = some f.key → i = slot) :
    insert m f = m.set slot (prefer g f) := by
  induction m generalizing slot with
  | nil => simp at hg
  | cons e m ih =>
    rw [insert]
    cases slot with
    | zero =>
      obtain rfl : e = g := by simpa using hg
      rw [if_pos hkey, List.set_cons_zero]
    | succ slot =>
      have he : e.key ≠ f.key := by
        intro heq
        have hzero := honly 0 (by simp [heq])
        cases hzero
      have hrest : ∀ i, m[i]?.map key = some f.key → i = slot := by
        intro i hi
        exact Nat.succ.inj (honly (i + 1) (by simpa using hi))
      rw [if_neg he, List.set_cons_succ, ih (by simpa using hg) hrest]

namespace Slots

theorem getElem?_toList (s : Slots) (i : Nat) : s.toList[i]? = s.merged[i]? :=
  Array.getElem?_toList

theorem not_mem_keys (s : Slots) {k : Nat × String} (h : s.index.lookup k = none) :
    k ∉ keys s.toList := by
  intro hk
  obtain ⟨i, hi⟩ := List.mem_iff_getElem?.1 hk
  rw [keys, List.getElem?_map, getElem?_toList, ← s.tied, h] at hi
  cases hi

theorem add_of_none (s : Slots) {f : Finding} (h : s.index.lookup f.key = none) :
    s.add f = s.push f h := by
  unfold add
  split
  · next hsome =>
    rw [h] at hsome
    cases hsome
  · rfl

theorem add_of_some (s : Slots) {f g : Finding} {slot : Nat}
    (h : s.index.lookup f.key = some slot) (hg : s.merged[slot]? = some g) :
    s.add f = if f.hasSuggestion && !g.hasSuggestion then s.replace f h else s := by
  obtain ⟨hlt, rfl⟩ := Array.getElem?_eq_some_iff.1 hg
  unfold add
  split
  · next hsome =>
    obtain rfl := Option.some.inj (h.symm.trans hsome)
    rfl
  · next hnone =>
    rw [h] at hnone
    cases hnone

theorem toList_add_of_some (s : Slots) {f : Finding} {slot : Nat}
    (h : s.index.lookup f.key = some slot) : (s.add f).toList = insert s.toList f := by
  obtain ⟨g, hg, hkey⟩ := Option.map_eq_some_iff.1 ((s.tied f.key slot).1 h)
  have honly : ∀ i, s.toList[i]?.map key = some f.key → i = slot := by
    intro i hi
    rw [getElem?_toList, ← s.tied, h] at hi
    exact (Option.some.inj hi).symm
  have hget : s.toList[slot]? = some g := by rw [getElem?_toList, hg]
  rw [s.add_of_some h hg, insert_eq_set hget hkey honly, prefer]
  split
  · exact Array.toList_set s.merged slot f (s.lt_size h)
  · -- the finding in the slot stays
    obtain ⟨hlt, heq⟩ := List.getElem?_eq_some_iff.1 hget
    rw [← heq, List.set_getElem_self]

/-- One turn of the loop is one search through the list. -/
theorem toList_add (s : Slots) (f : Finding) : (s.add f).toList = insert s.toList f := by
  cases h : s.index.lookup f.key with
  | some slot => exact s.toList_add_of_some h
  | none =>
    rw [s.add_of_none h, insert_of_not_mem (s.not_mem_keys h)]
    exact Array.toList_push

/-- The whole loop, from any slots on. -/
theorem toList_foldl_add (s : Slots) (fs : List Finding) :
    (fs.foldl add s).toList = fs.foldl insert s.toList := by
  induction fs generalizing s with
  | nil => rfl
  | cons f fs ih => rw [List.foldl_cons, List.foldl_cons, ih, toList_add]

end Slots

/-- The loop with an index gives what searching the list for every finding gives. -/
theorem deduplicate_eq_foldl (fs : List Finding) : deduplicate fs = fs.foldl insert [] :=
  Slots.empty.toList_foldl_add fs

theorem deduplicate_append_eq_foldl (xs ys : List Finding) :
    deduplicate (xs ++ ys) = ys.foldl insert (deduplicate xs) := by
  rw [deduplicate_eq_foldl, deduplicate_eq_foldl, List.foldl_append]

theorem keys_insert_of_mem {m : List Finding} {f : Finding} (h : f.key ∈ keys m) :
    keys (insert m f) = keys m := by
  induction m with
  | nil => cases h
  | cons g m ih =>
    rw [insert]
    split
    · next hg => simp [keys, prefer_key hg]
    · next hg =>
      have hm : f.key ∈ keys m := by simpa [keys, Ne.symm hg] using h
      simp only [keys, List.map_cons] at ih ⊢
      rw [ih hm]

theorem mem_keys_insert {m : List Finding} {f : Finding} {x : Nat × String} :
    x ∈ keys (insert m f) ↔ x ∈ keys m ∨ x = f.key := by
  by_cases h : f.key ∈ keys m
  · rw [keys_insert_of_mem h]
    constructor
    · exact .inl
    · rintro (hx | rfl)
      · exact hx
      · exact h
  · rw [insert_of_not_mem h]
    simp [keys]

theorem mem_of_mem_insert {m : List Finding} {f g : Finding} (h : g ∈ insert m f) :
    g ∈ m ∨ g = f := by
  induction m with
  | nil => exact .inr (List.mem_singleton.1 h)
  | cons e m ih =>
    rw [insert] at h
    split at h
    · rcases List.mem_cons.1 h with rfl | h
      · unfold prefer
        split
        · exact .inr rfl
        · exact .inl List.mem_cons_self
      · exact .inl (List.mem_cons_of_mem _ h)
    · rcases List.mem_cons.1 h with rfl | h
      · exact .inl List.mem_cons_self
      · exact (ih h).imp_left (List.mem_cons_of_mem _)

/-- A finding whose key is among others with suggestions changes nothing. -/
theorem insert_eq_self {m : List Finding} {f : Finding} (hm : ∀ g ∈ m, g.hasSuggestion = true)
    (h : f.key ∈ keys m) : insert m f = m := by
  induction m with
  | nil => cases h
  | cons g m ih =>
    rw [insert]
    split
    · rw [prefer_of_hasSuggestion (hm g List.mem_cons_self)]
    · next hg =>
      have hf : f.key ∈ keys m := by simpa [keys, Ne.symm hg] using h
      rw [ih (fun e he => hm e (List.mem_cons_of_mem _ he)) hf]

theorem insert_append_of_mem {m : List Finding} {f : Finding} (h : f.key ∈ keys m)
    (n : List Finding) : insert (m ++ n) f = insert m f ++ n := by
  induction m with
  | nil => cases h
  | cons g m ih =>
    rw [List.cons_append, insert, insert]
    split
    · rfl
    · next hg =>
      have hf : f.key ∈ keys m := by simpa [keys, Ne.symm hg] using h
      rw [ih hf]
      rfl

theorem insert_append_of_not_mem {m : List Finding} {f : Finding} (h : f.key ∉ keys m)
    (n : List Finding) : insert (m ++ n) f = m ++ insert n f := by
  induction m with
  | nil => rfl
  | cons g m ih =>
    simp only [keys, List.map_cons, List.mem_cons, not_or] at h
    rw [List.cons_append, insert, if_neg (Ne.symm h.1), ih h.2]
    rfl

theorem mem_keys_foldl_insert {m fs : List Finding} {x : Nat × String} :
    x ∈ keys (fs.foldl insert m) ↔ x ∈ keys m ∨ x ∈ keys fs := by
  induction fs generalizing m with
  | nil => simp [keys]
  | cons f fs ih =>
    rw [List.foldl_cons, ih, mem_keys_insert, or_assoc]
    simp [keys]

theorem mem_keys_deduplicate {fs : List Finding} {x : Nat × String} :
    x ∈ keys (deduplicate fs) ↔ x ∈ keys fs := by
  rw [deduplicate_eq_foldl, mem_keys_foldl_insert]
  simp [keys]

theorem mem_of_mem_foldl_insert {m fs : List Finding} {g : Finding} (h : g ∈ fs.foldl insert m) :
    g ∈ m ∨ g ∈ fs := by
  induction fs generalizing m with
  | nil => exact .inl h
  | cons f fs ih =>
    rcases ih h with h | h
    · rcases mem_of_mem_insert h with h | rfl
      · exact .inl h
      · exact .inr List.mem_cons_self
    · exact .inr (List.mem_cons_of_mem _ h)

/-- Every finding of the merged list is one of those that were merged. -/
theorem mem_of_mem_deduplicate {fs : List Finding} {g : Finding} (h : g ∈ deduplicate fs) :
    g ∈ fs := by
  rw [deduplicate_eq_foldl] at h
  rcases mem_of_mem_foldl_insert h with h | h
  · cases h
  · exact h

theorem deduplicate_eq_nil_iff {fs : List Finding} : deduplicate fs = [] ↔ fs = [] := by
  constructor
  · intro h
    cases fs with
    | nil => rfl
    | cons f fs =>
      have hf : f.key ∈ keys (deduplicate (f :: fs)) := mem_keys_deduplicate.2 (by simp [keys])
      simp [h, keys] at hf
  · rintro rfl
    rfl

/-- Findings with suggestions stay as they are; what comes behind them is merged on its own, without
their keys. -/
theorem foldl_insert_append {m : List Finding} (hm : ∀ g ∈ m, g.hasSuggestion = true)
    (n fs : List Finding) :
    fs.foldl insert (m ++ n) = m ++ (fs.filter fun f => f.key ∉ keys m).foldl insert n := by
  induction fs generalizing n with
  | nil => rfl
  | cons f fs ih =>
    by_cases hf : f.key ∈ keys m
    · rw [List.foldl_cons, insert_append_of_mem hf, insert_eq_self hm hf, ih]
      simp [hf]
    · rw [List.foldl_cons, insert_append_of_not_mem hf, ih]
      simp [hf]

theorem deduplicate_append {xs : List Finding} (hx : ∀ f ∈ xs, f.hasSuggestion = true)
    (ys : List Finding) :
    deduplicate (xs ++ ys) =
      deduplicate xs ++ deduplicate (ys.filter fun f => f.key ∉ keys xs) := by
  have hm : ∀ g ∈ deduplicate xs, g.hasSuggestion = true :=
    fun g hg => hx g (mem_of_mem_deduplicate hg)
  have happend := foldl_insert_append hm [] ys
  rw [List.append_nil] at happend
  simp only [mem_keys_deduplicate] at happend
  rw [deduplicate_append_eq_foldl, happend, deduplicate_eq_foldl (ys.filter _)]

theorem filter_insert (p : Nat × String → Bool) (m : List Finding) (f : Finding) :
    (insert m f).filter (p ·.key) =
      if p f.key then insert (m.filter (p ·.key)) f else m.filter (p ·.key) := by
  induction m with
  | nil => simp [insert, List.filter_cons]
  | cons g m ih =>
    rw [insert]
    by_cases hg : g.key = f.key
    · rw [if_pos hg, List.filter_cons, List.filter_cons, prefer_key hg, hg]
      split
      · rw [insert, if_pos hg]
      · rfl
    · rw [if_neg hg, List.filter_cons, List.filter_cons, ih]
      by_cases hp : p g.key = true <;> by_cases hq : p f.key = true <;> simp [hp, hq, insert, hg]

/-- Findings with chosen keys can be taken out before merging or after it. -/
theorem filter_foldl_insert (p : Nat × String → Bool) (m fs : List Finding) :
    (fs.foldl insert m).filter (p ·.key) =
      (fs.filter (p ·.key)).foldl insert (m.filter (p ·.key)) := by
  induction fs generalizing m with
  | nil => rfl
  | cons f fs ih =>
    rw [List.foldl_cons, ih, filter_insert, List.filter_cons]
    split <;> rfl

theorem filter_deduplicate (p : Nat × String → Bool) (fs : List Finding) :
    (deduplicate fs).filter (p ·.key) = deduplicate (fs.filter (p ·.key)) := by
  rw [deduplicate_eq_foldl, deduplicate_eq_foldl, filter_foldl_insert, List.filter_nil]

end CAudit.Finding
