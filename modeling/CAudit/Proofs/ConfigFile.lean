import CAudit.Config.File
import CAudit.Proofs.JsonNumber
import CAudit.Proofs.YamlMapping

/-! Configurations that are saved and loaded again. Every setting is written, so that the defaults
of the preset never show, and loading a saved configuration does what building it does. -/
namespace CAudit

namespace Yaml.Node

open Json Json.Reader

theorem hexValue?_digit {c : Char} (hc : isDigit c = true) :
    hexValue? c = some (c.toNat - '0'.toNat) ∧ c.toNat - '0'.toNat < 10 := by
  refine ⟨if_pos hc, ?_⟩
  have hrange : '0'.toNat ≤ c.toNat ∧ c.toNat ≤ '0'.toNat + 9 := toNat_of_between hc
  omega

theorem foldlM_digits {ds : List Char} (h : ∀ c ∈ ds, isDigit c = true) (n : Nat) :
    (ds.foldlM (fun n c => do
      let d ← hexValue? c
      if d < 10 then some (10 * n + d) else none) n : Option Nat) =
      some (Nat.ofDigitChars 10 ds n) := by
  induction ds generalizing n with
  | nil => rfl
  | cons c ds ih =>
    obtain ⟨hc, hds⟩ := List.forall_mem_cons.1 h
    obtain ⟨hvalue, hlt⟩ := hexValue?_digit hc
    have hstep : (hexValue? c >>= fun d => if d < 10 then some (10 * n + d) else none) =
        some (10 * n + (c.toNat - '0'.toNat)) := by
      rw [hvalue]
      exact if_pos hlt
    rw [List.foldlM_cons, hstep, Nat.ofDigitChars_cons]
    exact ih hds _

theorem natInBase_natText (n : Nat) : natInBase 10 (natText n) = some n := by
  have hne : (natText n).isEmpty = false := by
    rw [List.isEmpty_eq_false_iff]
    exact (wholeDigits_natText n).nonempty
  rw [natInBase, hne, if_neg (by decide), foldlM_digits fun c hc => isDigit_of_mem_natText hc]
  exact congrArg some Nat.ofDigitChars_ten_toDigits

theorem natOfDigits_eq_natInBase {ds : List Char} (h : ds.head? ≠ some '0') :
    natOfDigits ds = natInBase 10 ds := by
  unfold natOfDigits
  split
  case h_5 => rfl
  all_goals exact absurd rfl h

/-- Zero is the one number whose digits start with a zero, and it has no other digit: the digits of
a number never look octal. -/
theorem natOfDigits_natText (n : Nat) : natOfDigits (natText n) = some n := by
  rcases Nat.eq_zero_or_pos n with rfl | hpos
  · decide
  · rw [natOfDigits_eq_natInBase (head?_natText_ne hpos), natInBase_natText]

theorem toList_repr (n : Nat) : n.repr.toList = natText n := Nat.toList_repr

/-- A number is read back from its decimal digits. -/
theorem natUpTo?_repr {n most : Nat} (h : n ≤ most) :
    natUpTo? most (.scalar true n.repr) = some n := by
  rw [natUpTo?, toList_repr]
  split
  · next digits heq =>
    have hdigit := isDigit_of_mem_natText (heq ▸ List.mem_cons_self)
    exact absurd hdigit (by decide)
  · rw [natOfDigits_natText]
    exact if_pos h

theorem isWord_repr (n : Nat) : IsWord n.repr.toList := by
  rw [Nat.toList_repr]
  refine ⟨Nat.toDigits_ne_nil, fun c hc => ?_⟩
  have hdigit := Nat.isDigit_of_mem_toDigits (by decide) (by decide) hc
  rw [isWordChar, Char.isAlphanum, hdigit, Bool.or_true, Bool.true_or]

theorem isNull_repr (n : Nat) : isNull (.scalar true n.repr) = false := by
  have hnull : ["", "~", "null", "Null", "NULL"].all
      (fun text => text.toList.isEmpty || !text.toList.all isDigit) = true := by decide
  rw [isNull, Bool.eq_false_iff, ne_eq, List.contains_iff_mem]
  intro hmem
  have hdigits := List.all_eq_true.1 hnull _ hmem
  have hall : (natText n).all isDigit = true :=
    List.all_eq_true.2 fun c hc => isDigit_of_mem_natText hc
  have hne := List.isEmpty_eq_false_iff.2 (wholeDigits_natText n).nonempty
  rw [toList_repr, hall, hne] at hdigits
  exact absurd hdigits (by decide)

end Yaml.Node

namespace Config

open Yaml

theorem isWord_of_all {s : String}
    (h : (!s.toList.isEmpty && s.toList.all isWordChar) = true) : IsWord s.toList := by
  rw [Bool.and_eq_true, Bool.not_eq_true', List.isEmpty_eq_false_iff] at h
  exact ⟨h.1, List.all_eq_true.1 h.2⟩

theorem isWord_boolText (b : Bool) : IsWord (boolText b).toList := by
  cases b <;> exact isWord_of_all (by decide)

theorem isWord_name (p : Preset) : IsWord p.name.toList := by
  cases p <;> exact isWord_of_all (by decide)

theorem entry_writable {room : Nat} {k s : String}
    (hk : (!k.toList.isEmpty && k.toList.all isWordChar) = true) (hs : IsWord s.toList) :
    IsWord k.toList ∧ Writable room (.scalar true s) := by
  refine ⟨isWord_of_all hk, ?_⟩
  cases room <;> exact ⟨rfl, hs⟩

theorem entries_writable (c : Config) :
    ∀ e ∈ c.entries, IsWord e.1.toList ∧ Writable (maxDepth - 1) e.2 := by
  have hversion : IsWord "1".toList := isWord_of_all (by decide)
  have hswitches : ∀ e ∈ [("arithmetic", Node.scalar true (boolText c.arithmetic)),
      ("patterns", .scalar true (boolText c.patterns))], IsWord e.1.toList ∧ Writable 0 e.2 := by
    simp only [List.forall_mem_cons]
    exact ⟨entry_writable (by decide) (isWord_boolText _),
      entry_writable (by decide) (isWord_boolText _), List.forall_mem_nil _⟩
  have hlimits : ∀ e ∈ [("context_radius", Node.scalar true c.radius.repr)],
      IsWord e.1.toList ∧ Writable 0 e.2 := by
    simp only [List.forall_mem_cons]
    exact ⟨entry_writable (by decide) (Node.isWord_repr _), List.forall_mem_nil _⟩
  simp only [entries, List.forall_mem_cons]
  refine ⟨entry_writable (by decide) hversion, entry_writable (by decide) (isWord_name _),
    entry_writable (by decide) (isWord_boolText _), ⟨isWord_of_all (by decide), ?_⟩,
    ⟨isWord_of_all (by decide), ?_⟩, List.forall_mem_nil _⟩
  · exact ⟨List.cons_ne_nil _ _, hswitches⟩
  · exact ⟨List.cons_ne_nil _ _, hlimits⟩

theorem optional_bool {key : String} {b : Bool} {es : Entries}
    (h : es.lookup key = some (.scalar true (boolText b))) :
    es.optional Node.bool? key = some (some b) := by
  rw [Entries.optional, h]
  cases b <;> rfl

theorem optional_nat {key : String} {n most : Nat} {es : Entries} (hn : n ≤ most)
    (h : es.lookup key = some (.scalar true n.repr)) :
    es.optional (Node.natUpTo? most) key = some (some n) := by
  rw [Entries.optional, h]
  simp only [Node.isNull_repr, Node.natUpTo?_repr hn]
  rfl

theorem optional_name {key : String} {p : Preset} {es : Entries}
    (h : es.lookup key = some (.scalar true p.name)) :
    es.optional Node.text? key = some (some p.name) := by
  rw [Entries.optional, h]
  cases p <;> rfl

/-- Every setting of the file comes from the configuration: none is left to the preset. -/
theorem ofEntries?_entries {c : Config} (h : c.radius ≤ Json.Reader.maxWord) :
    File.ofEntries? c.entries = some ⟨some 1, some c.preset.name, some c.parallel,
      some c.arithmetic, some c.patterns, some c.radius⟩ := by
  have hknown : (guard (c.entries.areKnown
      ["version", "preset", "parallel", "detectors", "arithmetic"]) : Option Unit) = some () := rfl
  have hswitches : File.section? "detectors" ["arithmetic", "patterns"] c.entries =
      some [("arithmetic", .scalar true (boolText c.arithmetic)),
        ("patterns", .scalar true (boolText c.patterns))] := rfl
  have hlimits : File.section? "arithmetic" ["context_radius"] c.entries =
      some [("context_radius", .scalar true c.radius.repr)] := rfl
  have hversion : c.entries.optional (Node.natUpTo? File.maxVersion) "version" = some (some 1) :=
    rfl
  have hpreset : c.entries.optional Node.text? "preset" = some (some c.preset.name) :=
    optional_name rfl
  have hparallel : c.entries.optional Node.bool? "parallel" = some (some c.parallel) :=
    optional_bool rfl
  rw [File.ofEntries?, hknown, hswitches, hlimits, hversion, hpreset, hparallel]
  simp only [Option.bind_eq_bind, Option.bind_some]
  rw [optional_bool rfl, optional_bool rfl, optional_nat h rfl]
  rfl

theorem ofPresetName_name (p : Preset) : ofPresetName p.name = .ok (ofPreset p) := by
  have hlabel : Preset.ofLabel? p.name = some p := by cases p <;> decide +kernel
  rw [ofPresetName, hlabel]

/-- A file that gives every setting stands for them, whatever its preset. -/
theorem resolve_complete (p : Preset) (parallel arithmetic patterns : Bool) (radius : Nat) :
    File.resolve ⟨some 1, some p.name, some parallel, some arithmetic, some patterns, some radius⟩ =
      build ⟨p, arithmetic, patterns, radius, parallel⟩ := by
  have hversion : supportedVersions.contains 1 = true := rfl
  simp only [File.resolve, hversion, ofPresetName_name]
  rfl

/-- Saving a configuration and loading it again is building it: a radius of at most ten gives the
same configuration, and any other is out of range. -/
theorem ofYaml_toYaml (c : Config) (h : c.radius ≤ 0xffffffffffffffff) :
    ofYaml c.toYaml = c.build ∧
    (c.radius ≤ 10 → ofYaml c.toYaml = .ok c) ∧
    (10 < c.radius → ofYaml c.toYaml = .error (.range "arithmetic.context_radius" c.radius.repr
      "0" "10" "The bounds-check window is measured in lines on each side of the operation")) := by
  have hread : Yaml.read c.toYaml = some c.entries :=
    read_write (List.cons_ne_nil _ _) c.entries_writable
  have hbuild : ofYaml c.toYaml = c.build := by
    rw [ofYaml, hread, Option.bind_some, ofEntries?_entries h]
    exact resolve_complete _ _ _ _ _
  refine ⟨hbuild, fun hle => ?_, fun hlt => ?_⟩
  · rw [hbuild]
    exact if_pos hle
  · rw [hbuild]
    exact if_neg (Nat.not_le.2 hlt)

/-- A fast configuration with all its switches against the preset is read back as it is, and the
same one with the largest radius is refused. -/
theorem ofYaml_toYaml_against_preset :
    ofYaml (toYaml ⟨.fast, true, true, 10, false⟩) = .ok ⟨.fast, true, true, 10, false⟩ ∧
    ofYaml (toYaml ⟨.fast, true, true, 0xffffffffffffffff, false⟩) =
      .error (.radius 0xffffffffffffffff) :=
  ⟨(ofYaml_toYaml _ (by decide)).2.1 (by decide), (ofYaml_toYaml _ (by decide)).2.2 (by decide)⟩

end Config

end CAudit
