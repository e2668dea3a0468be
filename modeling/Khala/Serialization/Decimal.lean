import Khala.Serialization.Rounding
import Mathlib.Data.List.DropRight
import Mathlib.Data.Nat.Cast.Field

/-!
# Number literals

A number is kept as it is written in a text: whether it is an integer, and how large, decides what
the JSON libraries make of it. `NumberLiteral.toDouble` is the double that it is read as.

The second half writes doubles in decimal: `javaLiteral` as `Double.toString` of Java does,
`ecmaScriptLiteral` as ECMAScript does, and `jsonCLiteral` as json-c does. The first two take the
fewest digits that are read as the double again, json-c takes seventeen.
-/

namespace Khala

/-- A number as it is written in a text. -/
structure NumberLiteral where
  /-- Whether it starts with a minus sign. -/
  negative : Bool
  /-- The number before the decimal point. -/
  whole : ℕ
  /-- The digits after the decimal point. There is no point if there are none. -/
  fraction : List (Fin 10) := []
  /-- The exponent. -/
  exponent : Option ℤ := none
deriving DecidableEq

/-- The literal of zero with a minus sign. -/
def negativeZeroLiteral : NumberLiteral := { negative := true, whole := 0 }

namespace NumberLiteral

/-- An integer in decimal. -/
def ofInt (n : ℤ) : NumberLiteral where
  negative := n < 0
  whole := n.natAbs

/-- A whole number with the fraction `.0`. -/
def pointZero (negative : Bool) (whole : ℕ) : NumberLiteral where
  negative := negative
  whole := whole
  fraction := [0]

/-- Shaves off trailing zeros and the decimal point, if there is no exponent. -/
def shave (l : NumberLiteral) : NumberLiteral :=
  if l.exponent = none then { l with fraction := l.fraction.rdropWhile (· = 0) } else l

/-- The literal has neither a fraction nor an exponent. -/
def IsInteger (l : NumberLiteral) : Prop := l.fraction = [] ∧ l.exponent = none

instance : DecidablePred IsInteger := fun _ => inferInstanceAs (Decidable (_ ∧ _))

/-- The number before the decimal point, with its sign. -/
def toInt (l : NumberLiteral) : ℤ := if l.negative then -l.whole else l.whole

/-- The literal of an integer has its value. -/
theorem toInt_ofInt (n : ℤ) : (ofInt n).toInt = n := by
  simp only [toInt, ofInt, decide_eq_true_eq]
  split_ifs <;> omega

/-- An integer literal is that of its number, or the one of zero with a minus sign. -/
theorem IsInteger.eq_or {l : NumberLiteral} (h : l.IsInteger) :
    l = .ofInt l.toInt ∨ l = negativeZeroLiteral := by
  obtain ⟨negative, whole, fraction, exponent⟩ := l
  obtain ⟨rfl, rfl⟩ := h
  cases negative with
  | false => exact .inl (by simp [ofInt, toInt])
  | true =>
    by_cases hw : whole = 0
    · exact .inr (by rw [hw, negativeZeroLiteral])
    · exact .inl (by simp [ofInt, toInt]; omega)

/-- No integer is written as `-0`. -/
theorem ofInt_ne_negativeZeroLiteral (n : ℤ) : ofInt n ≠ negativeZeroLiteral := by
  simp [ofInt, negativeZeroLiteral]
  omega

/-- The digits, without the decimal point. -/
def unscaled (l : NumberLiteral) : ℕ :=
  l.fraction.foldl (fun n digit => 10 * n + digit.val) l.whole

/-- The power of ten of the last digit. -/
def scale (l : NumberLiteral) : ℤ := l.exponent.getD 0 - l.fraction.length

/-- The number that is written, without its sign. -/
def abs (l : NumberLiteral) : ℚ := l.unscaled * 10 ^ l.scale

/-- The number that is written. -/
def toRat (l : NumberLiteral) : ℚ := Double.signed l.negative l.abs

/-- The double that the literal is read as. The one of zero with a minus sign is `-0.0`. -/
def toDouble (l : NumberLiteral) : Double := .round l.negative l.abs

/-- A literal is read as a double that it rounds to. -/
theorem rounds_toDouble (l : NumberLiteral) : Double.Rounds l.toRat l.toDouble :=
  Double.rounds_round l.negative l.abs

/-- A literal is read as the double of its sign that it may be read as. -/
theorem toDouble_eq {l : NumberLiteral} {d : Double} (h : Double.Rounds l.toRat d)
    (hd : d.IsFinite) (hneg : l.negative = d.negative) : l.toDouble = d :=
  (Double.eq_of_value_eq (hneg.symm.trans Double.negative_round.symm) hd
    (h.value_eq l.rounds_toDouble)).symm

/-- The literal `-0` is read as the negative zero. -/
theorem toDouble_negativeZeroLiteral : negativeZeroLiteral.toDouble = .negativeZero := by
  decide +kernel

/-- An integer literal is written as its number. -/
theorem toRat_of_isInteger {l : NumberLiteral} (h : l.IsInteger) : l.toRat = l.toInt := by
  obtain ⟨negative, whole, fraction, exponent⟩ := l
  obtain ⟨rfl, rfl⟩ := h
  cases negative <;> simp [toRat, Double.signed, Double.sign, abs, unscaled, scale, toInt]

/-- A zero at the end of the fraction is not part of the number. -/
theorem abs_append_zero (l : NumberLiteral) (digits : List (Fin 10)) :
    abs { l with fraction := digits ++ [0] } = abs { l with fraction := digits } := by
  simp only [abs, unscaled, scale, List.foldl_append, List.foldl_cons, List.foldl_nil, Fin.val_zero,
    add_zero, List.length_append, List.length_singleton, Nat.cast_add, Nat.cast_mul, Nat.cast_one]
  rw [← sub_sub, zpow_sub_one₀ (by norm_num)]
  push_cast
  ring

/-- Shaving does not change the number. -/
theorem toRat_shave (l : NumberLiteral) : l.shave.toRat = l.toRat := by
  obtain ⟨negative, whole, fraction, exponent⟩ := l
  unfold shave
  split_ifs with hnone
  · refine congrArg (Double.signed negative) ?_
    -- By induction on the fraction, from its end.
    induction fraction using List.reverseRecOn with
    | nil => rfl
    | append_singleton digits digit ih =>
      rw [List.rdropWhile_concat]
      split_ifs with hdigit
      · obtain rfl : digit = 0 := by simpa using hdigit
        exact (ih hnone).trans (abs_append_zero ⟨negative, whole, [], exponent⟩ digits).symm
      · rfl
  · rfl

/-- Dropping zeros at the end keeps the sign. -/
theorem negative_shave (l : NumberLiteral) : l.shave.negative = l.negative := by
  unfold shave
  split_ifs <;> rfl

end NumberLiteral

/-! ## Decimals -/

/-- A number in decimal. -/
structure Decimal where
  /-- Its digits. -/
  coefficient : ℕ
  /-- The power of ten of the last one. -/
  exponent : ℤ

namespace Decimal

/-- The number. -/
def toRat (x : Decimal) : ℚ := x.coefficient * 10 ^ x.exponent

/-- How many digits there are. -/
def length (x : Decimal) : ℕ := Nat.log 10 x.coefficient + 1

/-- Where the point is, counted from the first digit. -/
def point (x : Decimal) : ℤ := x.length + x.exponent

/-- The decimal without its last digits, of which there are at most so many, if they are zeros. -/
def stripZeros : ℕ → Decimal → Decimal
  | 0, x => x
  | n + 1, x =>
    if x.coefficient % 10 = 0 then stripZeros n ⟨x.coefficient / 10, x.exponent + 1⟩ else x

/-- The last decimal digits of a number. -/
def lastDigits : ℕ → ℕ → List (Fin 10)
  | 0, _ => []
  | n + 1, c => lastDigits n (c / 10) ++ [Fin.ofNat 10 c]

/-- The literal with so many digits after the point. -/
def literal (negative : Bool) (x : Decimal) (digits : ℕ) : NumberLiteral where
  negative := negative
  whole := x.coefficient / 10 ^ digits
  fraction := lastDigits digits x.coefficient
  exponent := if x.exponent + digits = 0 then none else some (x.exponent + digits)

/-- The literal without an exponent, with at least so many digits after the point. -/
def plain (negative : Bool) (x : Decimal) (least : ℕ) : NumberLiteral :=
  let digits := max least (-x.exponent).toNat
  literal negative ⟨x.coefficient * 10 ^ (x.exponent + digits).toNat, -digits⟩ digits

/-- The literal with one digit before the point, and at least so many after it. -/
def scientific (negative : Bool) (x : Decimal) (least : ℕ) : NumberLiteral :=
  let zeros := least + 1 - x.length
  literal negative ⟨x.coefficient * 10 ^ zeros, x.exponent - zeros⟩ (x.length + zeros - 1)

/-- The literal without an exponent if the point is in the range, and else the one with an exponent,
with at least so many digits after the point in either case. -/
def format (negative : Bool) (x : Decimal) (low high : ℤ) (leastPlain leastScientific : ℕ) :
    NumberLiteral :=
  if low ≤ x.point ∧ x.point ≤ high then x.plain negative leastPlain
  else x.scientific negative leastScientific

/-- Zeros at the end of the digits are made up for by the exponent. -/
theorem toRat_shift (x : Decimal) (k : ℕ) :
    toRat ⟨x.coefficient * 10 ^ k, x.exponent - k⟩ = x.toRat := by
  rw [toRat, toRat, zpow_sub₀ (by norm_num), zpow_natCast]
  push_cast
  field_simp

/-- Dropping zeros at the end keeps the value. -/
theorem toRat_stripZeros (n : ℕ) (x : Decimal) : (stripZeros n x).toRat = x.toRat := by
  induction n generalizing x with
  | zero => rfl
  | succ n ih =>
    unfold stripZeros
    split_ifs with hzero
    · have hcoefficient : x.coefficient / 10 * 10 ^ 1 = x.coefficient := by omega
      have hshift := toRat_shift ⟨x.coefficient / 10, x.exponent + 1⟩ 1
      rw [ih, ← hshift, hcoefficient, Nat.cast_one, add_sub_cancel_right]
    · rfl

/-- There are as many digits as were asked for. -/
theorem length_lastDigits (n c : ℕ) : (lastDigits n c).length = n := by
  induction n generalizing c with
  | zero => rfl
  | succ n ih => simp [lastDigits, ih]

/-- The last digits after the number before them. -/
theorem foldl_lastDigits (n c : ℕ) :
    (lastDigits n c).foldl (fun m digit => 10 * m + digit.val) (c / 10 ^ n) = c := by
  induction n generalizing c with
  | zero => simp [lastDigits]
  | succ n ih =>
    have hdiv : c / 10 ^ (n + 1) = c / 10 / 10 ^ n := by
      rw [Nat.div_div_eq_div_mul, pow_succ']
    rw [lastDigits, List.foldl_append, hdiv, ih, List.foldl_cons, List.foldl_nil, Fin.val_ofNat]
    omega

variable (negative : Bool) (x : Decimal) (digits : ℕ)

/-- A literal is that of the decimal, wherever its point is. -/
theorem abs_literal : (x.literal negative digits).abs = x.toRat := by
  have hexponent : (if x.exponent + digits = 0 then none
      else some (x.exponent + digits)).getD 0 = x.exponent + digits := by
    split_ifs with h
    · exact h.symm
    · rfl
  rw [NumberLiteral.abs, NumberLiteral.unscaled, NumberLiteral.scale, literal, foldl_lastDigits,
    length_lastDigits, hexponent, add_sub_cancel_right, toRat]

/-- The literal without an exponent has the value of the decimal. -/
theorem abs_plain : (x.plain negative digits).abs = x.toRat := by
  have hexponent : x.exponent - (x.exponent + (max digits (-x.exponent).toNat : ℕ)).toNat =
      -(max digits (-x.exponent).toNat : ℕ) := by
    omega
  rw [plain, abs_literal, ← hexponent, toRat_shift]

/-- The literal with an exponent has the value of the decimal. -/
theorem abs_scientific : (x.scientific negative digits).abs = x.toRat := by
  rw [scientific, abs_literal, toRat_shift]

variable (low high : ℤ) (leastPlain leastScientific : ℕ)

/-- The value does not depend on the format. -/
theorem abs_format : (x.format negative low high leastPlain leastScientific).abs = x.toRat := by
  unfold format
  split_ifs
  · exact abs_plain ..
  · exact abs_scientific ..

/-- The sign does not depend on the format. -/
theorem negative_format :
    (x.format negative low high leastPlain leastScientific).negative = negative := by
  unfold format
  split_ifs <;> rfl

/-- With a digit after the point, if there is no exponent, the literal is no integer. -/
theorem not_isInteger_format (hlow : low ≤ 1) (hhigh : 1 ≤ high) (hplain : 0 < leastPlain) :
    ¬(x.format negative low high leastPlain leastScientific).IsInteger := by
  unfold format
  split_ifs with hpoint
  · rintro ⟨hfraction, -⟩
    have hlength := congrArg List.length hfraction
    rw [plain, literal, length_lastDigits, List.length_nil] at hlength
    omega
  · rintro ⟨-, hexponent⟩
    rw [scientific, literal] at hexponent
    split_ifs at hexponent with hzero
    -- The exponent is one less than the point.
    rw [point, length] at hpoint
    rw [length] at hzero
    dsimp only at hzero
    omega

/-! ## The digits of doubles -/

/-- The power of ten of the last of so many digits of a number. -/
def lastExponent (digits : ℕ) (q : ℚ) : ℤ := Int.log 10 |q| + 1 - digits

/-- So many digits of a number, correctly rounded. -/
def nearest (digits : ℕ) (q : ℚ) : Decimal where
  coefficient := (roundHalfEven (|q| / 10 ^ lastExponent digits q)).toNat
  exponent := lastExponent digits q

/-- The two decimals of so many digits next to a number, the nearest one first. -/
def candidates (digits : ℕ) (q : ℚ) : List Decimal :=
  let x := |q| / 10 ^ lastExponent digits q
  [nearest digits q, ⟨(2 * ⌊x⌋ + 1 - roundHalfEven x).toNat, lastExponent digits q⟩]

/-- The first of the decimals of at least so many digits that is read as the double. -/
def shortest (least : ℕ) (d : Double) : Decimal :=
  let decimals := (List.range' least (17 - least)).flatMap fun digits => candidates digits d.toRat
  (decimals.find? fun x => Double.round d.negative x.toRat = d).getD (nearest 17 d.toRat)

/-- The value of a decimal is not negative. -/
theorem abs_toRat (x : Decimal) : |x.toRat| = x.toRat :=
  abs_of_nonneg (mul_nonneg (Nat.cast_nonneg _) (zpow_nonneg (by norm_num) _))

variable {d : Double}

/-- Seventeen digits of a double are nearer to it than half of the distance to any other. -/
theorem rounds_nearest (hd : d.IsFinite) (h0 : d.toRat ≠ 0) :
    Double.Rounds (Double.signed d.negative (nearest 17 d.toRat).toRat) d := by
  have hpos : 0 < |d.toRat| := abs_pos.mpr h0
  have hpow : (0 : ℚ) < 10 ^ lastExponent 17 d.toRat := zpow_pos (by norm_num) _
  -- The number has 17 digits before the last one of which it is rounded.
  have hlow : 10 ^ 16 * 10 ^ lastExponent 17 d.toRat ≤ |d.toRat| := by
    have hlog := Int.zpow_log_le_self (b := 10) (by decide) hpos
    rw [← zpow_natCast, ← zpow_add₀ (by norm_num)]
    refine le_of_eq_of_le ?_ hlog
    rw [lastExponent]
    congr 1
    push_cast
    ring
  have hcoefficient : ((nearest 17 d.toRat).coefficient : ℚ) =
      roundHalfEven (|d.toRat| / 10 ^ lastExponent 17 d.toRat) := by
    have hnonneg := Int.floor_nonneg.mpr (div_nonneg hpos.le hpow.le)
    have hcast := Int.toNat_of_nonneg (hnonneg.trans (floor_le_roundHalfEven _).1)
    exact_mod_cast congrArg (Int.cast (R := ℚ)) hcast
  have hhalf := two_mul_abs_sub_le (|d.toRat| / 10 ^ lastExponent 17 d.toRat)
  have hdist : 2 * |(|d.toRat| - (nearest 17 d.toRat).toRat)| ≤ 10 ^ lastExponent 17 d.toRat := by
    have heq : |d.toRat| - (nearest 17 d.toRat).toRat =
        -((roundHalfEven (|d.toRat| / 10 ^ lastExponent 17 d.toRat) : ℚ) -
          |d.toRat| / 10 ^ lastExponent 17 d.toRat) * 10 ^ lastExponent 17 d.toRat := by
      rw [toRat, hcoefficient, neg_mul, sub_mul, div_mul_cancel₀ _ hpow.ne', neg_sub]
      rfl
    rw [heq, abs_mul, abs_neg, abs_of_pos hpow, ← mul_assoc]
    exact mul_le_of_le_one_left hpow.le hhalf
  refine Double.rounds_of_near hd ?_
  rw [Double.abs_toRat_sub_signed, abs_toRat]
  linarith

/-- The shortest decimal of a double is read as the double. -/
theorem rounds_shortest (least : ℕ) (hd : d.IsFinite) (h0 : d.toRat ≠ 0) :
    Double.Rounds (Double.signed d.negative (shortest least d).toRat) d := by
  unfold shortest
  dsimp only
  generalize hfind : List.find? _ _ = found
  cases found with
  | none =>
    rw [Option.getD_none]
    exact rounds_nearest hd h0
  | some x =>
    have hrounds := Double.rounds_round d.negative x.toRat
    have hround := List.find?_some hfind
    rw [decide_eq_true_iff] at hround
    rw [hround] at hrounds
    rwa [Option.getD_some]

end Decimal

/-! ## How the platforms write doubles -/

section Writers

variable (d : Double)

/-- The absolute value of a double that is a whole number below a bound. -/
def wholeBelow (bound : ℕ) : Option ℕ := d.natAbs?.filter (· < bound)

/-- `Double.toString` of Java. -/
def javaLiteral : NumberLiteral :=
  match wholeBelow d 10000000 with
  | some n => .pointZero d.negative n
  | none => ((Decimal.shortest 2 d).stripZeros 17).format d.negative (-2) 7 1 1

/-- `Number::toString` of ECMAScript. A whole number of at most 53 bits has no shorter digits than
its own. -/
def ecmaScriptLiteral : NumberLiteral :=
  match wholeBelow d (2 ^ 53) with
  | some n => .ofInt (if d.negative then -n else n)
  | none => ((Decimal.shortest 1 d).stripZeros 17).format d.negative (-5) 21 0 0

/-- The literal of json-c: the `%.17g` of C, with `.0` after a whole number. -/
def jsonCLiteral : NumberLiteral :=
  if d.toRat = 0 then .pointZero d.negative 0
  else ((Decimal.nearest 17 d.toRat).stripZeros 17).format d.negative (-3) 17 1 0

variable {d}

/-- A whole number is written with its value. -/
theorem abs_pointZero (negative : Bool) (n : ℕ) :
    (NumberLiteral.pointZero negative n).abs = n := by
  have hzero := NumberLiteral.abs_append_zero ⟨negative, n, [], none⟩ []
  rw [List.nil_append] at hzero
  rw [NumberLiteral.pointZero, hzero]
  simp [NumberLiteral.abs, NumberLiteral.unscaled, NumberLiteral.scale]

/-- A double has the absolute value of its number, with its sign. -/
theorem signed_of_abs_eq {q : ℚ} (h : |d.toRat| = |q|) : Double.signed d.negative q = d.toRat := by
  rw [← Double.signed_toRat, Double.signed, Double.signed, h]

/-- A double is a whole number if its absolute value is one. -/
theorem natAbs?_eq_some_iff {n : ℕ} : d.natAbs? = some n ↔ |d.toRat| = n := by
  rw [Double.abs_toRat, Double.unit_eq_zpow, Double.natAbs?]
  rcases le_or_gt 1075 d.exponent with he | he
  · obtain ⟨i, hi⟩ := Nat.exists_eq_add_of_le he
    rw [if_pos he, hi, Nat.add_sub_cancel_left, Nat.cast_add, Nat.cast_ofNat, add_sub_cancel_left,
      zpow_natCast, Option.some.injEq]
    exact_mod_cast Iff.rfl
  · obtain ⟨i, hi⟩ := Nat.exists_eq_add_of_le he.le
    have hexp : ((d.exponent : ℕ) : ℤ) - 1075 = -(i : ℤ) := by omega
    have hpow : 0 < 2 ^ i := Nat.two_pow_pos i
    have hi' : 1075 - d.exponent = i := by omega
    rw [if_neg he.not_ge, hi', hexp, zpow_neg, zpow_natCast, ← div_eq_mul_inv,
      div_eq_iff (by positivity)]
    -- The last bits of the significand are zeros.
    have hcast : (d.significand : ℚ) = n * 2 ^ i ↔ d.significand = n * 2 ^ i := by
      exact_mod_cast Iff.rfl
    rw [hcast]
    constructor
    · intro h
      split_ifs at h with hmod
      obtain rfl := Option.some.inj h
      exact (Nat.div_mul_cancel (Nat.dvd_of_mod_eq_zero hmod)).symm
    · intro h
      rw [h, if_pos (Nat.mul_mod_left n _), Nat.mul_div_cancel _ hpow]

/-- A whole number is read as the double. -/
theorem rounds_of_natAbs? {l : NumberLiteral} {n : ℕ} (hd : d.IsFinite) (h : d.natAbs? = some n)
    (hl : l.toRat = Double.signed d.negative n) : Double.Rounds l.toRat d := by
  have habs : |d.toRat| = |(n : ℚ)| := by rw [natAbs?_eq_some_iff.mp h, Nat.abs_cast]
  rw [hl, signed_of_abs_eq habs]
  exact Double.rounds_toRat hd

/-- The digits of a double are read as the double, however they are written. -/
theorem rounds_format {x : Decimal} (hx : Double.Rounds (Double.signed d.negative x.toRat) d)
    (low high : ℤ) (leastPlain leastScientific : ℕ) : Double.Rounds
      ((x.stripZeros 17).format d.negative low high leastPlain leastScientific).toRat d := by
  rwa [NumberLiteral.toRat, Decimal.negative_format, Decimal.abs_format, Decimal.toRat_stripZeros]

/-- A double is written as a whole number if it is one below the bound. -/
theorem wholeBelow_eq_some_iff {bound n : ℕ} :
    wholeBelow d bound = some n ↔ d.natAbs? = some n ∧ n < bound := by
  simp [wholeBelow, Option.filter_eq_some_iff]

/-- A double that is not written as a whole number is not zero. -/
theorem toRat_ne_zero {bound : ℕ} (hbound : 0 < bound) (h : wholeBelow d bound = none) :
    d.toRat ≠ 0 := by
  intro h0
  have hzero : d.natAbs? = some 0 := natAbs?_eq_some_iff.mpr (by simp [h0])
  rw [wholeBelow_eq_some_iff.mpr ⟨hzero, hbound⟩] at h
  cases h

/-- What Java writes for a double is read as the double. -/
theorem rounds_javaLiteral (hd : d.IsFinite) : Double.Rounds (javaLiteral d).toRat d := by
  unfold javaLiteral
  cases hwhole : wholeBelow d 10000000 with
  | some n =>
    refine rounds_of_natAbs? hd (wholeBelow_eq_some_iff.mp hwhole).1 ?_
    rw [NumberLiteral.toRat, abs_pointZero]
    rfl
  | none => exact rounds_format (Decimal.rounds_shortest 2 hd (toRat_ne_zero (by decide) hwhole)) ..

/-- What ECMAScript writes for a number is read as the number. -/
theorem rounds_ecmaScriptLiteral (hd : d.IsFinite) :
    Double.Rounds (ecmaScriptLiteral d).toRat d := by
  unfold ecmaScriptLiteral
  cases hwhole : wholeBelow d (2 ^ 53) with
  | some n =>
    refine rounds_of_natAbs? hd (wholeBelow_eq_some_iff.mp hwhole).1 ?_
    rw [NumberLiteral.toRat_of_isInteger ⟨rfl, rfl⟩, NumberLiteral.toInt_ofInt]
    cases d.negative <;> simp [Double.signed, Double.sign]
  | none => exact rounds_format (Decimal.rounds_shortest 1 hd (toRat_ne_zero (by decide) hwhole)) ..

-- The double `2 ^ 54 + 8` has a shorter literal, from which two doubles are equally far away.
example : ecmaScriptLiteral ⟨0x4350000000000002⟩ = .ofInt 18014398509481990 := by decide +kernel

/-- What json-c writes for a double is read as the double. -/
theorem rounds_jsonCLiteral (hd : d.IsFinite) : Double.Rounds (jsonCLiteral d).toRat d := by
  unfold jsonCLiteral
  split_ifs with h0
  · refine rounds_of_natAbs? hd (natAbs?_eq_some_iff.mpr (by simp [h0] : |d.toRat| = (0 : ℕ))) ?_
    rw [NumberLiteral.toRat, abs_pointZero]
    rfl
  · exact rounds_format (Decimal.rounds_nearest hd h0) ..

/-- Java writes the sign of a double. -/
theorem negative_javaLiteral (d : Double) : (javaLiteral d).negative = d.negative := by
  unfold javaLiteral
  split
  · rfl
  · exact Decimal.negative_format ..

/-- json-c writes the sign of a double. -/
theorem negative_jsonCLiteral (d : Double) : (jsonCLiteral d).negative = d.negative := by
  unfold jsonCLiteral
  split_ifs
  · rfl
  · exact Decimal.negative_format ..

/-- ECMAScript writes the sign of every number but `-0`. -/
theorem negative_ecmaScriptLiteral (hd : d.IsFinite) (h : d ≠ .negativeZero) :
    (ecmaScriptLiteral d).negative = d.negative := by
  unfold ecmaScriptLiteral
  cases hwhole : wholeBelow d (2 ^ 53) with
  | some n =>
    have habs := natAbs?_eq_some_iff.mp (wholeBelow_eq_some_iff.mp hwhole).1
    cases hneg : d.negative with
    | false => simp [NumberLiteral.ofInt]
    | true =>
      have hn : n ≠ 0 := by
        rintro rfl
        refine h (Double.eq_of_value_eq (hneg.trans (by decide)) hd ?_)
        rw [Double.value, if_pos hd, abs_eq_zero.mp (habs.trans Nat.cast_zero)]
        exact Double.value_negativeZero.symm
      simp [NumberLiteral.ofInt]
      omega
  | none => exact Decimal.negative_format ..

/-- json-c writes no double as an integer. -/
theorem not_isInteger_jsonCLiteral (d : Double) : ¬(jsonCLiteral d).IsInteger := by
  unfold jsonCLiteral
  split_ifs
  · rintro ⟨⟨⟩, -⟩
  · exact Decimal.not_isInteger_format _ _ _ _ _ _ (by decide) (by decide) (by decide)

/-- ECMAScript writes a whole number of at most 53 bits as an integer. -/
theorem ecmaScriptLiteral_of_toRat_eq {n : ℤ} (h : d.toRat = n) (hn : n.natAbs < 2 ^ 53) :
    ecmaScriptLiteral d = .ofInt n := by
  have habs : |d.toRat| = |((n.natAbs : ℕ) : ℚ)| := by
    rw [h, Nat.abs_cast, Nat.cast_natAbs, Int.cast_abs]
  have hwhole : wholeBelow d (2 ^ 53) = some n.natAbs :=
    wholeBelow_eq_some_iff.mpr ⟨natAbs?_eq_some_iff.mpr (habs.trans (Nat.abs_cast _)), hn⟩
  have hsigned := (signed_of_abs_eq habs).trans h
  unfold ecmaScriptLiteral
  rw [hwhole]
  refine congrArg NumberLiteral.ofInt ((Int.cast_inj (α := ℚ)).mp (Eq.trans ?_ hsigned))
  cases d.negative <;> simp [Double.signed, Double.sign]

end Writers

end Khala
