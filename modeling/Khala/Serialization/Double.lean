import Mathlib.Algebra.Order.Field.Rat
import Mathlib.Tactic.FieldSimp
import Mathlib.Tactic.Ring

/-!
# Doubles

A `Double` is its 64 bits. What the JSON serialization turns on is which rational number a finite
double is (`Double.toRat`), and whether it is a whole number, and which one (`Double.natAbs?`).
-/

namespace Khala

/-- A `Double`: its bits. -/
structure Double where
  /-- The sign, the exponent and the significand, as IEEE 754 has them. -/
  bits : UInt64
deriving DecidableEq

/-- The value of a number, which does not tell `0.0` from `-0.0`, nor an int from a double. -/
inductive NumberValue where
  /-- A finite number. -/
  | finite (q : ℚ)
  /-- An infinite number. -/
  | infinite (negative : Bool)
  /-- Not a number. -/
  | nan
deriving DecidableEq

namespace Double

/-- `-0.0`. -/
def negativeZero : Double := ⟨0x8000000000000000⟩

/-- Whether the sign bit is set. -/
def negative (d : Double) : Bool := d.bits >>> 63 != 0

/-- The exponent as it is stored. -/
def biasedExponent (d : Double) : ℕ := ((d.bits >>> 52) &&& 0x7ff).toNat

/-- The significand as it is stored. -/
def fraction (d : Double) : ℕ := (d.bits &&& 0xfffffffffffff).toNat

/-- The double is neither infinite nor a NaN. -/
def IsFinite (d : Double) : Prop := d.biasedExponent ≠ 0x7ff

instance : DecidablePred IsFinite := fun _ => inferInstanceAs (Decidable (_ ≠ _))

/-- The significand with its leading bit, which a subnormal double lacks. -/
def significand (d : Double) : ℕ := d.fraction + if d.biasedExponent = 0 then 0 else 2 ^ 52

/-- The absolute value of a double is its significand times `2 ^ (exponent - 1075)`. -/
def exponent (d : Double) : ℕ := max d.biasedExponent 1

/-- The absolute value of a double, if it is a whole number. -/
def natAbs? (d : Double) : Option ℕ :=
  if 1075 ≤ d.exponent then some (d.significand * 2 ^ (d.exponent - 1075))
  else if d.significand % 2 ^ (1075 - d.exponent) = 0 then
    some (d.significand / 2 ^ (1075 - d.exponent))
  else none

/-- Whether a double is a whole number below 10,000,000 in absolute value, and not `-0.0`. -/
def IsSmallWhole (d : Double) : Prop :=
  ∃ n < 10000000, d.natAbs? = some n ∧ ¬(n = 0 ∧ d.negative = true)

/-- The number that a finite double is. -/
def toRat (d : Double) : ℚ :=
  (if d.negative then -1 else 1) * (d.significand * 2 ^ d.exponent) / 2 ^ 1075

/-- The value of a double. -/
def value (d : Double) : NumberValue :=
  if d.IsFinite then .finite d.toRat
  else if d.fraction = 0 then .infinite d.negative
  else .nan

/-! ## Whole numbers as doubles -/

/-- The exponent of a double, by its bits. -/
theorem biasedExponent_eq (d : Double) : d.biasedExponent = d.bits.toNat / 2 ^ 52 % 2 ^ 11 := by
  have h : (0x7ff : UInt64).toNat = 2 ^ 11 - 1 := rfl
  rw [biasedExponent, UInt64.toNat_and, UInt64.toNat_shiftRight, h, Nat.and_two_pow_sub_one_eq_mod,
    Nat.shiftRight_eq_div_pow]
  rfl

/-- The fraction of a double, by its bits. -/
theorem fraction_eq (d : Double) : d.fraction = d.bits.toNat % 2 ^ 52 := by
  have h : (0xfffffffffffff : UInt64).toNat = 2 ^ 52 - 1 := rfl
  rw [fraction, UInt64.toNat_and, h, Nat.and_two_pow_sub_one_eq_mod]

/-- The sign of a double, by its bits. -/
theorem negative_eq (d : Double) : d.negative = decide (2 ^ 63 ≤ d.bits.toNat) := by
  have h : (d.bits >>> 63).toNat = d.bits.toNat / 2 ^ 63 := by
    rw [UInt64.toNat_shiftRight, Nat.shiftRight_eq_div_pow]
    rfl
  rw [negative, Bool.eq_iff_iff, bne_iff_ne, decide_eq_true_iff, ne_eq, ← UInt64.toNat_inj, h,
    UInt64.toNat_zero]
  omega

/-- The double with these parts. -/
def ofParts (negative : Bool) (biasedExponent fraction : ℕ) : Double :=
  ⟨UInt64.ofNat ((if negative then 2 ^ 63 else 0) + biasedExponent * 2 ^ 52 + fraction)⟩

section Parts

variable {s : Bool} {e m : ℕ} (he : e < 2 ^ 11) (hm : m < 2 ^ 52)
include he hm

/-- The bits of a double that is made of its parts. -/
theorem toNat_bits_ofParts :
    (ofParts s e m).bits.toNat = (if s then 2 ^ 63 else 0) + e * 2 ^ 52 + m := by
  rw [ofParts, UInt64.toNat_ofNat', Nat.mod_eq_of_lt]
  split_ifs <;> omega

/-- The exponent of a double that is made of its parts. -/
theorem biasedExponent_ofParts : (ofParts s e m).biasedExponent = e := by
  rw [biasedExponent_eq, toNat_bits_ofParts he hm]
  split_ifs <;> omega

/-- The fraction of a double that is made of its parts. -/
theorem fraction_ofParts : (ofParts s e m).fraction = m := by
  rw [fraction_eq, toNat_bits_ofParts he hm]
  split_ifs <;> omega

/-- The sign of a double that is made of its parts. -/
theorem negative_ofParts : (ofParts s e m).negative = s := by
  rw [negative_eq, toNat_bits_ofParts he hm]
  cases s <;> simp <;> omega

end Parts

/-- Moved up to its 53rd bit, a number is the significand of a double. -/
theorem exists_significand {n : ℕ} (h0 : n ≠ 0) (hn : n < 2 ^ 53) :
    n.log2 ≤ 52 ∧ ∃ m < 2 ^ 52, n * 2 ^ (52 - n.log2) = m + 2 ^ 52 := by
  have hlog : n.log2 ≤ 52 := by
    have := (Nat.log2_lt h0).mpr hn
    omega
  have hlow : 2 ^ 52 ≤ n * 2 ^ (52 - n.log2) := calc
    2 ^ 52 = 2 ^ n.log2 * 2 ^ (52 - n.log2) := by rw [← pow_add]; congr 1; omega
    _ ≤ n * 2 ^ (52 - n.log2) := Nat.mul_le_mul_right _ (Nat.log2_self_le h0)
  have hhigh : n * 2 ^ (52 - n.log2) < 2 ^ 53 := calc
    n * 2 ^ (52 - n.log2) < 2 ^ (n.log2 + 1) * 2 ^ (52 - n.log2) :=
      Nat.mul_lt_mul_of_pos_right Nat.lt_log2_self (Nat.two_pow_pos _)
    _ = 2 ^ 53 := by rw [← pow_add]; congr 1; omega
  exact ⟨hlog, _, by omega, (Nat.sub_add_cancel hlow).symm⟩

/-- The double that a whole number of at most 53 bits is. -/
def ofInt (n : ℤ) : Double :=
  if n = 0 then ⟨0⟩
  else ofParts (n < 0) (1023 + n.natAbs.log2) (n.natAbs * 2 ^ (52 - n.natAbs.log2) - 2 ^ 52)

/-- An integer that a double has room for is kept. -/
theorem ofInt_spec {n : ℤ} (hn : n.natAbs < 2 ^ 53) : (ofInt n).IsFinite ∧ (ofInt n).toRat = n := by
  unfold ofInt
  split_ifs with h0
  · subst h0
    exact ⟨by decide, by simp [toRat, significand, fraction, biasedExponent]⟩
  · obtain ⟨hlog, m, hm, hnm⟩ := exists_significand (Int.natAbs_ne_zero.mpr h0) hn
    generalize n.natAbs.log2 = e at *
    have he : 1023 + e < 2 ^ 11 := by omega
    rw [hnm, Nat.add_sub_cancel]
    constructor
    · rw [IsFinite, biasedExponent_ofParts he hm]
      omega
    · have hexp : (ofParts (decide (n < 0)) (1023 + e) m).exponent = 1023 + e := by
        rw [exponent, biasedExponent_ofParts he hm, max_eq_left (by omega)]
      have hsig : (ofParts (decide (n < 0)) (1023 + e) m).significand =
          n.natAbs * 2 ^ (52 - e) := by
        rw [significand, fraction_ofParts he hm, biasedExponent_ofParts he hm, if_neg (by omega),
          hnm]
      have hpow : (2 : ℚ) ^ (52 - e) * 2 ^ (1023 + e) = 2 ^ 1075 := by
        rw [← pow_add]
        congr 1
        omega
      have hsign : (if decide (n < 0) then -1 else 1) * (n.natAbs : ℚ) = n := by
        rw [Nat.cast_natAbs]
        rcases lt_or_ge n 0 with hneg | hnonneg
        · rw [if_pos (decide_eq_true hneg), abs_of_neg hneg]
          push_cast
          ring
        · rw [if_neg (by simpa using hnonneg), abs_of_nonneg hnonneg, one_mul]
      rw [toRat, negative_ofParts he hm, hexp, hsig, Nat.cast_mul, Nat.cast_pow, Nat.cast_ofNat,
        mul_assoc, hpow, ← mul_assoc, hsign]
      field_simp

/-- The negative zero has the value zero. -/
theorem value_negativeZero : negativeZero.value = .finite 0 := by
  have hsig : negativeZero.significand = 0 := by decide
  rw [value, if_pos (by decide), toRat, hsig]
  simp

end Double

end Khala
