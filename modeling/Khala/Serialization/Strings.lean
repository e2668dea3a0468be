import Mathlib.Data.List.TakeWhile
import Mathlib.Tactic.SplitIfs

/-!
# Strings of Kotlin as UTF-16 units

A `String` of Kotlin may hold any UTF-16 units: a surrogate need not be one of a pair. JSON texts
can name such a string by its escapes, and only some libraries keep it. A C string holds the UTF-8
bytes of a text up to the first NUL: there an unpaired surrogate is replaced by U+FFFD
(`Utf16.repair`), and what follows a U+0000 is lost (`Utf16.cString`).
-/

namespace Khala

/-- A `String`: its UTF-16 units. -/
abbrev Utf16 : Type := List UInt16

namespace Utf16

/-- The units of a text in ASCII. -/
def ascii (text : String) : Utf16 := text.toList.map fun c => UInt16.ofNat c.toNat

/-- A unit that starts a pair of surrogates. -/
def IsHighSurrogate (unit : UInt16) : Prop := 0xD800 ≤ unit ∧ unit < 0xDC00

/-- A unit that ends a pair of surrogates. -/
def IsLowSurrogate (unit : UInt16) : Prop := 0xDC00 ≤ unit ∧ unit < 0xE000

instance : DecidablePred IsHighSurrogate := fun _ => inferInstanceAs (Decidable (_ ∧ _))

instance : DecidablePred IsLowSurrogate := fun _ => inferInstanceAs (Decidable (_ ∧ _))

/-- A unit that is not part of a pair, with U+FFFD in place of a surrogate. -/
def repairUnit (unit : UInt16) : UInt16 :=
  if IsHighSurrogate unit ∨ IsLowSurrogate unit then 0xFFFD else unit

/-- A string with U+FFFD in place of each unpaired surrogate. -/
def repair : Utf16 → Utf16
  | [] => []
  | [unit] => [repairUnit unit]
  | unit :: next :: rest =>
    if IsHighSurrogate unit ∧ IsLowSurrogate next then unit :: next :: repair rest
    else repairUnit unit :: repair (next :: rest)

/-- Every surrogate of the string is one of a pair: the string is a text of Unicode characters. -/
def WellFormed (str : Utf16) : Prop := str.repair = str

instance : DecidablePred WellFormed := fun _ => inferInstanceAs (Decidable (_ = _))

/-- What a C string holds of a text: the units before the first U+0000. -/
def cString (str : Utf16) : Utf16 := str.takeWhile (· ≠ 0)

/-- What a C string holds of a string of Kotlin. -/
def toCString (str : Utf16) : Utf16 := str.repair.cString

/-- The empty text is not cut. -/
@[simp]
theorem cString_nil : cString [] = [] := rfl

/-- A text is cut at the first NUL. -/
theorem cString_cons (unit : UInt16) (str : Utf16) :
    cString (unit :: str) = if unit = 0 then [] else unit :: str.cString := by
  simp [cString, List.takeWhile_cons]

/-- What is cut has no NUL. -/
theorem zero_notMem_cString (str : Utf16) : 0 ∉ str.cString := by
  intro h
  simpa using List.mem_takeWhile_imp h

/-- A text is not cut if it has no NUL. -/
theorem cString_eq_iff {str : Utf16} : str.cString = str ↔ 0 ∉ str := by
  rw [cString, List.takeWhile_eq_self_iff]
  constructor
  · intro h hmem
    simpa using h 0 hmem
  · intro h unit hunit
    refine decide_eq_true ?_
    rintro rfl
    exact h hunit

/-- No other unit is repaired to NUL. -/
theorem repairUnit_eq_zero_iff {unit : UInt16} : repairUnit unit = 0 ↔ unit = 0 := by
  unfold repairUnit
  split_ifs with h
  · constructor
    · intro h'
      cases h'
    · rintro rfl
      exact absurd h (by decide)
  · rfl

/-- Neither surrogate of a pair is U+0000. -/
theorem ne_zero_of_pair {unit next : UInt16} (h : IsHighSurrogate unit ∧ IsLowSurrogate next) :
    unit ≠ 0 ∧ next ≠ 0 := by
  constructor <;> rintro rfl
  · exact absurd h.1 (by decide)
  · exact absurd h.2 (by decide)

/-- It does not matter whether a string is repaired before it is cut or after. -/
theorem cString_repair (str : Utf16) : str.repair.cString = str.cString.repair := by
  induction str using repair.induct with
  | case1 => rfl
  | case2 unit =>
    by_cases hunit : unit = 0
    · subst hunit
      rfl
    · simp [repair, cString_cons, hunit, repairUnit_eq_zero_iff]
  | case3 unit next rest h ih =>
    obtain ⟨hunit, hnext⟩ := ne_zero_of_pair h
    simp [repair, cString_cons, h, hunit, hnext, ih]
  | case4 unit next rest h ih =>
    rw [repair, if_neg h, cString_cons, ih]
    by_cases hunit : unit = 0
    · simp [hunit, repairUnit_eq_zero_iff, repair, cString_cons]
    -- The cut may take the next unit away, but the two are no pair in any case.
    · by_cases hnext : next = 0 <;>
        simp [hunit, hnext, h, repairUnit_eq_zero_iff, repair, cString_cons]

/-- A unit that is repaired is no surrogate. -/
theorem not_surrogate_repairUnit (unit : UInt16) :
    ¬IsHighSurrogate (repairUnit unit) ∧ ¬IsLowSurrogate (repairUnit unit) := by
  unfold repairUnit
  split_ifs with h
  · decide
  · exact not_or.mp h

/-- A unit that is no surrogate stays. -/
theorem repair_cons {unit : UInt16} (h : ¬IsHighSurrogate unit ∧ ¬IsLowSurrogate unit)
    (str : Utf16) : repair (unit :: str) = unit :: str.repair := by
  have hunit : repairUnit unit = unit := if_neg (not_or.mpr h)
  cases str with
  | nil => simp [repair, hunit]
  | cons next rest => rw [repair, if_neg fun hpair => h.1 hpair.1, hunit]

/-- Repairing leaves no surrogate unpaired. -/
theorem wellFormed_repair (str : Utf16) : str.repair.WellFormed := by
  unfold WellFormed
  induction str using repair.induct with
  | case1 => rfl
  | case2 unit => rw [repair, repair_cons (not_surrogate_repairUnit unit), repair]
  | case3 unit next rest h ih => rw [repair, if_pos h, repair, if_pos h, ih]
  | case4 unit next rest h ih =>
    rw [repair, if_neg h, repair_cons (not_surrogate_repairUnit unit), ih]

/-- A well-formed text that is cut is well-formed. -/
theorem WellFormed.cString {str : Utf16} (h : str.WellFormed) : str.cString.WellFormed := by
  rw [WellFormed, ← cString_repair, h]

/-- A C string is well-formed. -/
theorem wellFormed_toCString (str : Utf16) : str.toCString.WellFormed :=
  (wellFormed_repair str).cString

/-- The C string of a well-formed text is the text as it is cut. -/
theorem WellFormed.toCString_eq {str : Utf16} (h : str.WellFormed) :
    str.toCString = str.cString := by
  rw [toCString, h]

end Utf16

end Khala
