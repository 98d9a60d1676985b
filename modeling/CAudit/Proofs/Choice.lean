import CAudit.Proofs.Merge

/-! What a merged list holds, said without the order of the work. Each key has one finding, at the
place where the key came first; of the findings with that key it is the first with a suggestion, or
the first of all when none has one. The main statement says that merging gives this list and that
there is no other. -/
namespace CAudit.Finding

/-- The first finding with a key and a suggestion or, if there is none, the first with that key. -/
def choice? (k : Nat × String) (fs : List Finding) : Option Finding :=
  (fs.find? fun f => f.key = k && f.hasSuggestion).or (fs.find? fun f => f.key = k)

theorem choice?_key {k : Nat × String} {fs : List Finding} {f : Finding}
    (h : choice? k fs = some f) : f.key = k := by
  rcases Option.or_eq_some_iff.1 h with h | ⟨-, h⟩
  · have hf := List.find?_some h
    simp only [Bool.and_eq_true, decide_eq_true_eq] at hf
    exact hf.1
  · simpa using List.find?_some h

theorem choice?_eq_none_iff {k : Nat × String} {fs : List Finding} :
    choice? k fs = none ↔ k ∉ keys fs := by
  simp only [choice?, Option.or_eq_none_iff, List.find?_eq_none, keys, List.mem_map, not_exists,
    not_and, decide_eq_true_eq, Bool.and_eq_true]
  constructor
  · exact fun h => h.2
  · exact fun h => ⟨fun f hf hk => absurd hk (h f hf), h⟩

theorem choice?_singleton (k : Nat × String) (f : Finding) :
    choice? k [f] = if f.key = k then some f else none := by
  by_cases hk : f.key = k <;> cases hs : f.hasSuggestion <;> simp [choice?, hk, hs]

theorem merge_prefer_of_hasSuggestion {f : Finding} (h : f.hasSuggestion = true)
    (other : Option Finding) : (some f).merge prefer other = some f := by
  cases other with
  | none => rfl
  | some g => simp [prefer_of_hasSuggestion h]

/-- A finding behind others is chosen only if it has a suggestion and the choice among them has
none. -/
theorem choice?_append (k : Nat × String) (xs ys : List Finding) :
    choice? k (xs ++ ys) = (choice? k xs).merge prefer (choice? k ys) := by
  have hfull : ∀ {fs : List Finding} {f : Finding},
      (fs.find? fun f => f.key = k && f.hasSuggestion) = some f → f.hasSuggestion = true := by
    intro fs f hf
    have hboth := List.find?_some hf
    simp only [Bool.and_eq_true] at hboth
    exact hboth.2
  have hbare : ∀ {fs : List Finding} {f : Finding},
      (fs.find? fun f => f.key = k && f.hasSuggestion) = none →
      (fs.find? fun f => f.key = k) = some f → f.hasSuggestion = false := by
    intro fs f hnone hf
    have hkey : f.key = k := by simpa using List.find?_some hf
    simpa [hkey] using List.find?_eq_none.1 hnone f (List.mem_of_find?_eq_some hf)
  simp only [choice?, List.find?_append]
  cases hx : xs.find? fun f => f.key = k && f.hasSuggestion with
  | some f => simp [merge_prefer_of_hasSuggestion (hfull hx)]
  | none =>
    cases hfirst : xs.find? fun f => f.key = k with
    | none => simp
    | some f =>
      have hf := hbare hx hfirst
      cases hy : ys.find? fun f => f.key = k && f.hasSuggestion with
      | some g => simp [prefer, hf, hfull hy]
      | none =>
        cases hlater : ys.find? fun f => f.key = k with
        | none => simp
        | some g => simp [prefer, hbare hy hlater]

/-- With a suggestion on every finding the first one is chosen. -/
theorem choice?_eq_find? {fs : List Finding} (h : ∀ f ∈ fs, f.hasSuggestion = true)
    (k : Nat × String) : choice? k fs = fs.find? fun f => f.key = k := by
  have hsame : (fs.find? fun f => f.key = k && f.hasSuggestion) = fs.find? fun f => f.key = k := by
    rw [← List.head?_filter, ← List.head?_filter]
    refine congrArg _ (List.filter_congr fun f hf => ?_)
    simp [h f hf]
  rw [choice?, hsame, Option.or_self]

/-- The list `m` is the merge of `xs`. -/
structure IsMerge (xs m : List Finding) : Prop where
  /-- The keys are those of `xs`. -/
  covers : ∀ k, k ∈ keys m ↔ k ∈ keys xs
  /-- They stand in the order in which they come first in `xs`, none of them twice. -/
  order : (keys m).Pairwise fun j k => (keys xs).idxOf j < (keys xs).idxOf k
  /-- Each finding is the choice for its key. -/
  choice : ∀ g ∈ m, choice? g.key xs = some g

theorem IsMerge.nodup {xs m : List Finding} (h : IsMerge xs m) : (keys m).Nodup :=
  h.order.imp fun hlt heq => by simp [heq] at hlt

theorem isMerge_nil : IsMerge [] [] where
  covers k := Iff.rfl
  order := .nil
  choice g hg := by cases hg

/-- What a step leaves in a list with one finding for each key. -/
theorem mem_insert_cases {m : List Finding} {f g : Finding} (hm : (keys m).Nodup)
    (h : g ∈ insert m f) : (g ∈ m ∧ g.key ≠ f.key) ∨ (∃ e ∈ m, e.key = f.key ∧ g = prefer e f) ∨
      (f.key ∉ keys m ∧ g = f) := by
  induction m with
  | nil => exact .inr (.inr ⟨by simp [keys], List.mem_singleton.1 h⟩)
  | cons e m ih =>
    obtain ⟨hnew, hrest⟩ := List.nodup_cons.1 hm
    rw [insert] at h
    split at h
    · next he =>
      rcases List.mem_cons.1 h with rfl | h
      · exact .inr (.inl ⟨e, List.mem_cons_self, he, rfl⟩)
      · refine .inl ⟨List.mem_cons_of_mem _ h, fun hkey => hnew ?_⟩
        rw [he, ← hkey]
        exact List.mem_map_of_mem h
    · next he =>
      rcases List.mem_cons.1 h with rfl | h
      · exact .inl ⟨List.mem_cons_self, he⟩
      · rcases ih hrest h with ⟨hg, hkey⟩ | ⟨d, hd, hkey, rfl⟩ | ⟨hf, rfl⟩
        · exact .inl ⟨List.mem_cons_of_mem _ hg, hkey⟩
        · exact .inr (.inl ⟨d, List.mem_cons_of_mem _ hd, hkey, rfl⟩)
        · refine .inr (.inr ⟨fun hmem => ?_, rfl⟩)
          rcases List.mem_cons.1 hmem with hkey | hmem
          · exact he hkey.symm
          · exact hf hmem

theorem keys_append (xs ys : List Finding) : keys (xs ++ ys) = keys xs ++ keys ys :=
  List.map_append

theorem keys_insert (m : List Finding) (f : Finding) :
    keys (insert m f) = if f.key ∈ keys m then keys m else keys m ++ [f.key] := by
  split
  · next h => exact keys_insert_of_mem h
  · next h =>
    rw [insert_of_not_mem h, keys_append]
    rfl

/-- One step of the merge. -/
theorem IsMerge.insert {xs m : List Finding} (h : IsMerge xs m) (f : Finding) :
    IsMerge (xs ++ [f]) (insert m f) where
  covers k := by
    rw [mem_keys_insert, keys_append, List.mem_append, h.covers]
    simp [keys]
  order := by
    have hold : ∀ k ∈ keys m, (keys (xs ++ [f])).idxOf k = (keys xs).idxOf k := by
      intro k hk
      rw [keys_append, List.idxOf_append, if_pos ((h.covers k).1 hk)]
    have hfront : (keys m).Pairwise fun j k =>
        (keys (xs ++ [f])).idxOf j < (keys (xs ++ [f])).idxOf k := by
      refine h.order.imp_of_mem fun hj hk hlt => ?_
      rwa [hold _ hj, hold _ hk]
    rw [keys_insert]
    split
    · exact hfront
    · next hnew =>
      refine List.pairwise_append.2 ⟨hfront, List.pairwise_singleton _ _, fun j hj k hk => ?_⟩
      obtain rfl := List.mem_singleton.1 hk
      have hlast : (keys (xs ++ [f])).idxOf f.key = (keys xs).length := by
        rw [keys_append, List.idxOf_append, if_neg (mt (h.covers _).2 hnew)]
        simp [keys]
      rw [hold j hj, hlast]
      exact List.idxOf_lt_length_iff.2 ((h.covers j).1 hj)
  choice g hg := by
    rw [choice?_append, choice?_singleton]
    rcases mem_insert_cases h.nodup hg with ⟨hg, hkey⟩ | ⟨e, he, hkey, rfl⟩ | ⟨hf, rfl⟩
    · rw [h.choice g hg, if_neg (Ne.symm hkey)]
      rfl
    · rw [prefer_key hkey, h.choice e he, if_pos hkey.symm]
      rfl
    · rw [h.covers, ← choice?_eq_none_iff] at hf
      rw [hf, if_pos rfl]
      rfl

/-- A run of steps. -/
theorem IsMerge.foldl_insert {xs m : List Finding} (h : IsMerge xs m) (fs : List Finding) :
    IsMerge (xs ++ fs) (fs.foldl Finding.insert m) := by
  induction fs generalizing xs m with
  | nil => simpa using h
  | cons f fs ih => simpa using ih (h.insert f)

theorem isMerge_deduplicate (xs : List Finding) : IsMerge xs (deduplicate xs) := by
  rw [deduplicate_eq_foldl]
  exact isMerge_nil.foldl_insert xs

theorem IsMerge.mem_iff {xs m : List Finding} (h : IsMerge xs m) {g : Finding} :
    g ∈ m ↔ choice? g.key xs = some g := by
  constructor
  · exact h.choice g
  · intro hg
    have hkey : g.key ∈ keys m := by
      rw [h.covers, ← Classical.not_not (a := g.key ∈ keys xs), ← choice?_eq_none_iff, hg]
      exact fun hnone => by cases hnone
    obtain ⟨e, he, heq⟩ := List.mem_map.1 hkey
    have hchoice := h.choice e he
    rw [heq, hg] at hchoice
    rwa [Option.some.inj hchoice]

/-- A test that only one finding of a merge passes finds it once. -/
theorem IsMerge.filter_eq {xs m : List Finding} (h : IsMerge xs m) {test : Finding → Bool}
    {g : Finding} (hg : ∀ e, e ∈ m ∧ test e = true ↔ e = g) : m.filter test = [g] := by
  have hnodup : m.Nodup :=
    List.Pairwise.of_map key (fun e d hne heq => hne (congrArg key heq)) h.nodup
  have hperm : (m.filter test).Perm [g] := by
    refine (List.perm_ext_iff_of_nodup (hnodup.filter test) (by simp)).2 fun e => ?_
    rw [List.mem_filter, hg, List.mem_singleton]
  exact List.perm_singleton.1 hperm

/-- The keys of a merge are determined by the findings merged. -/
theorem IsMerge.keys_eq {xs m n : List Finding} (hm : IsMerge xs m) (hn : IsMerge xs n) :
    keys m = keys n := by
  have hperm : (keys m).Perm (keys n) :=
    (List.perm_ext_iff_of_nodup hm.nodup hn.nodup).2 fun k => by rw [hm.covers, hn.covers]
  refine hperm.eq_of_pairwise (fun j k _ _ hjk hkj => ?_) hm.order hn.order
  omega

theorem IsMerge.map_some {xs m : List Finding} (h : IsMerge xs m) :
    m.map some = (keys m).map fun k => choice? k xs := by
  rw [keys, List.map_map]
  exact List.map_congr_left fun g hg => (h.choice g hg).symm

theorem IsMerge.unique {xs m n : List Finding} (hm : IsMerge xs m) (hn : IsMerge xs n) : m = n := by
  have hsome : m.map some = n.map some := by rw [hm.map_some, hn.map_some, hm.keys_eq hn]
  exact (List.map_inj_right fun _ _ => Option.some.inj).1 hsome

/-- The loop with its index and slots gives the one list that has a finding for each key, in the
order in which the keys come first, each with the choice for its key. -/
theorem deduplicate_eq_iff (xs m : List Finding) : deduplicate xs = m ↔ IsMerge xs m := by
  constructor
  · rintro rfl
    exact isMerge_deduplicate xs
  · exact (isMerge_deduplicate xs).unique

end CAudit.Finding
