import CAudit.Finding

/-! Merging the findings of several detectors: one finding for each key, at the place where the
key came first. The findings that stay have slots, and an index tells for each key which slot is
its own. A finding whose key is new gets the next slot; any other can only take the slot of its
key, and what it writes there has the key that stood there. -/
namespace CAudit.Finding

/-- The findings that stay so far and, for each of their keys, the slot. -/
structure Slots where
  merged : Array Finding
  index : List ((Nat × String) × Nat)
  /-- The index has a key exactly where a finding with that key stands, so no key has two slots. -/
  tied : ∀ k i, index.lookup k = some i ↔ merged[i]?.map key = some k

namespace Slots

def empty : Slots := ⟨#[], [], by simp⟩

theorem lt_size (s : Slots) {k : Nat × String} {slot : Nat} (h : s.index.lookup k = some slot) :
    slot < s.merged.size := by
  obtain ⟨f, hf, -⟩ := Option.map_eq_some_iff.1 ((s.tied k slot).1 h)
  obtain ⟨hlt, -⟩ := Array.getElem?_eq_some_iff.1 hf
  exact hlt

theorem tied_push (s : Slots) {f : Finding} (h : s.index.lookup f.key = none)
    (k : Nat × String) (i : Nat) :
    ((f.key, s.merged.size) :: s.index).lookup k = some i ↔
      (s.merged.push f)[i]?.map key = some k := by
  rw [Array.getElem?_push]
  by_cases hk : k = f.key
  · subst hk
    have hnew : s.merged[i]?.map key ≠ some f.key := by
      rw [Ne, ← s.tied, h]
      simp
    rw [List.lookup_cons_self]
    by_cases hi : i = s.merged.size
    · simp [hi]
    · simp [hi, Ne.symm hi, hnew]
  · have hother : ((f.key, s.merged.size) :: s.index).lookup k = s.index.lookup k := by
      simp [List.lookup_cons, beq_eq_false_iff_ne.2 hk]
    rw [hother, s.tied]
    by_cases hi : i = s.merged.size
    · simp [hi, Ne.symm hk]
    · rw [if_neg hi]

theorem tied_set (s : Slots) {f : Finding} {slot : Nat} (h : s.index.lookup f.key = some slot)
    (k : Nat × String) (i : Nat) :
    s.index.lookup k = some i ↔ (s.merged.set slot f (s.lt_size h))[i]?.map key = some k := by
  have hslot := (s.tied f.key slot).1 h
  rw [s.tied, Array.getElem?_set]
  by_cases hi : slot = i
  · subst hi
    rw [hslot, if_pos rfl, Option.map_some]
  · rw [if_neg hi]

/-- A new key gets the next slot. -/
def push (s : Slots) (f : Finding) (h : s.index.lookup f.key = none) : Slots where
  merged := s.merged.push f
  index := (f.key, s.merged.size) :: s.index
  tied := s.tied_push h

/-- A finding takes the slot of its key. -/
def replace (s : Slots) (f : Finding) {slot : Nat} (h : s.index.lookup f.key = some slot) :
    Slots where
  merged := s.merged.set slot f (s.lt_size h)
  index := s.index
  tied := s.tied_set h

/-- Adds a finding. One whose key is there already is kept only if it has a suggestion and the
finding in the slot has none. -/
def add (s : Slots) (f : Finding) : Slots :=
  match h : s.index.lookup f.key with
  | some slot =>
    have hslot := s.lt_size h
    if f.hasSuggestion && !s.merged[slot].hasSuggestion then s.replace f h else s
  | none => s.push f h

/-- The findings in the order of their slots. -/
def toList (s : Slots) : List Finding := s.merged.toList

end Slots

/-- One finding for each key. -/
def deduplicate (fs : List Finding) : List Finding := (fs.foldl Slots.add .empty).toList

/-- The lists one after the other, with one finding for each key. -/
def merge (sets : List (List Finding)) : List Finding := deduplicate sets.flatten

end CAudit.Finding
