import CAudit.Proofs.Audit
import CAudit.Proofs.Choice

/-! Merging in stages. A merged list keeps, for each key, the place of the key and the finding that
any later finding has to be compared with; so it can stand for the findings it was made from in a
further merge, and the way in which a sequence of lists is bracketed does not matter. -/
namespace CAudit

namespace Finding

theorem choice?_mem {k : Nat × String} {fs : List Finding} {f : Finding}
    (h : choice? k fs = some f) : f ∈ fs := by
  rcases Option.or_eq_some_iff.1 h with h | ⟨-, h⟩
  · exact List.mem_of_find?_eq_some h
  · exact List.mem_of_find?_eq_some h

/-- A merged list leaves the choice for every key as it was. -/
theorem IsMerge.choice?_eq {xs m : List Finding} (h : IsMerge xs m) (k : Nat × String) :
    choice? k m = choice? k xs := by
  cases hk : choice? k m with
  | none =>
    rw [choice?_eq_none_iff, h.covers] at hk
    exact (choice?_eq_none_iff.2 hk).symm
  | some g =>
    rw [← h.choice g (choice?_mem hk), choice?_key hk]

/-- A merged list leaves the order in which two keys come first as it was. -/
theorem IsMerge.idxOf_lt {xs m : List Finding} (h : IsMerge xs m) {j k : Nat × String}
    (hk : k ∈ keys m) (hlt : (keys m).idxOf j < (keys m).idxOf k) :
    (keys xs).idxOf j < (keys xs).idxOf k := by
  have hkm := List.idxOf_lt_length_iff.2 hk
  have hpair := List.pairwise_iff_getElem.1 h.order _ _ (Nat.lt_trans hlt hkm) hkm hlt
  rwa [List.getElem_idxOf, List.getElem_idxOf] at hpair

/-- Findings may be merged before they are merged behind others. -/
theorem IsMerge.of_append {xs ys n m : List Finding} (hn : IsMerge ys n)
    (hm : IsMerge (xs ++ n) m) : IsMerge (xs ++ ys) m where
  covers k := by
    rw [hm.covers, keys_append, keys_append, List.mem_append, List.mem_append, hn.covers]
  order := by
    refine hm.order.imp_of_mem fun {j k} _ hk hlt => ?_
    have hkeys : k ∈ keys xs ∨ k ∈ keys n := by
      rwa [hm.covers, keys_append, List.mem_append] at hk
    rw [keys_append, List.idxOf_append, List.idxOf_append] at hlt ⊢
    by_cases hj : j ∈ keys xs
    · by_cases hx : k ∈ keys xs
      · simpa [hj, hx] using hlt
      · have := List.idxOf_lt_length_iff.2 hj
        simp only [hj, hx, ↓reduceIte]
        omega
    · by_cases hx : k ∈ keys xs
      · have := List.idxOf_lt_length_iff.2 hx
        simp only [hj, hx, ↓reduceIte] at hlt
        omega
      · simp only [hj, hx, ↓reduceIte, Nat.add_lt_add_iff_right] at hlt ⊢
        exact hn.idxOf_lt (hkeys.resolve_left hx) hlt
  choice g hg := by
    rw [← hm.choice g hg, choice?_append, choice?_append, hn.choice?_eq]

theorem deduplicate_append_deduplicate (xs ys : List Finding) :
    deduplicate (xs ++ deduplicate ys) = deduplicate (xs ++ ys) :=
  ((isMerge_deduplicate ys).of_append (isMerge_deduplicate _)).unique (isMerge_deduplicate _)

theorem deduplicate_deduplicate (xs : List Finding) :
    deduplicate (deduplicate xs) = deduplicate xs :=
  deduplicate_append_deduplicate [] xs

theorem deduplicate_deduplicate_append (xs ys : List Finding) :
    deduplicate (deduplicate xs ++ ys) = deduplicate (xs ++ ys) := by
  calc deduplicate (deduplicate xs ++ ys)
      = ys.foldl insert (deduplicate (deduplicate xs)) := deduplicate_append_eq_foldl _ _
    _ = ys.foldl insert (deduplicate xs) := by rw [deduplicate_deduplicate]
    _ = deduplicate (xs ++ ys) := (deduplicate_append_eq_foldl _ _).symm

theorem deduplicate_append_congr {xs xs' ys ys' : List Finding}
    (hx : deduplicate xs = deduplicate xs') (hy : deduplicate ys = deduplicate ys') :
    deduplicate (xs ++ ys) = deduplicate (xs' ++ ys') := by
  rw [← deduplicate_deduplicate_append, ← deduplicate_append_deduplicate, hx, hy,
    deduplicate_append_deduplicate, deduplicate_deduplicate_append]

/-- How lists are brought together: the list of one detector, or several in their order, merged. -/
inductive Staging where
  | detector (fs : List Finding)
  | stage (parts : List Staging)

namespace Staging

mutual

/-- What is left when every stage has been merged. -/
def run : Staging → List Finding
  | .detector fs => fs
  | .stage parts => merge (runAll parts)

def runAll : List Staging → List (List Finding)
  | [] => []
  | s :: parts => s.run :: runAll parts

end

mutual

/-- The lists of the detectors, from left to right. -/
def detectors : Staging → List (List Finding)
  | .detector fs => [fs]
  | .stage parts => detectorsAll parts

def detectorsAll : List Staging → List (List Finding)
  | [] => []
  | s :: parts => s.detectors ++ detectorsAll parts

end

mutual

theorem deduplicate_run (s : Staging) : deduplicate s.run = merge s.detectors := by
  cases s with
  | detector fs => simp [run, detectors, merge]
  | stage parts =>
    rw [run, detectors, merge, deduplicate_deduplicate]
    exact merge_runAll parts

theorem merge_runAll (parts : List Staging) :
    merge (runAll parts) = merge (detectorsAll parts) := by
  cases parts with
  | nil => rfl
  | cons s parts =>
    rw [runAll, detectorsAll, merge, merge, List.flatten_cons, List.flatten_append]
    exact deduplicate_append_congr (deduplicate_run s) (merge_runAll parts)

end

end Staging

end Finding

/-- Lists may be merged in any number of stages, in the order they have. A list that has been merged
can be merged again, alone, in front of others or behind them; a report can be made first and the
lists of further reviewers added to it later. -/
theorem merge_in_stages (xs ys : List Finding) (sets : List (List Finding))
    (parts : List Finding.Staging) (c : Config) (source : String) (first : List (List Finding)) :
    Finding.deduplicate (Finding.deduplicate xs ++ ys) = Finding.deduplicate (xs ++ ys) ∧
    Finding.deduplicate (xs ++ Finding.deduplicate ys) = Finding.deduplicate (xs ++ ys) ∧
    Finding.merge [Finding.merge sets] = Finding.merge sets ∧
    (Finding.Staging.stage parts).run =
      Finding.merge (Finding.Staging.stage parts).detectors ∧
    (audit c source (first ++ sets)).findings =
      Finding.merge ((audit c source first).findings :: sets) := by
  refine ⟨Finding.deduplicate_deduplicate_append xs ys,
    Finding.deduplicate_append_deduplicate xs ys, ?_, ?_, ?_⟩
  · rw [Finding.merge, Finding.merge, List.flatten_singleton, Finding.deduplicate_deduplicate]
  · rw [Finding.Staging.run, Finding.Staging.detectors, Finding.Staging.merge_runAll]
  · rw [audit_findings, audit_findings, Finding.merge, List.flatten_cons,
      Finding.deduplicate_deduplicate_append, List.flatten_append, List.append_assoc]

end CAudit
