import Khala.Serialization.Double
import Mathlib.Algebra.Order.Floor.Ring
import Mathlib.Data.Int.Log
import Mathlib.Data.Rat.Floor
import Mathlib.Tactic.Linarith
import Mathlib.Tactic.NormNum
import Mathlib.Tactic.Positivity

/-!
# Rounding to doubles

A number is read as the double that it is rounded to, as IEEE 754 has it, and Java, C and ECMAScript
after it: the nearest one, of two that are equally near the one with the even significand, and an
infinite one if the number is too large. `Rounds` says this of a number and a double, and `round`
computes the double. Only the sign of a zero is left open by `Rounds` (`Rounds.value_eq`).

A number that differs from a double by less than a `2 ^ 54`th of it is rounded to this double
(`rounds_of_near`), so that a double is what its own number is rounded to, and what its first
seventeen digits are rounded to.
-/

namespace Khala

/-! ## The nearest integer -/

/-- The integer nearest to a number, the even one of two. -/
def roundHalfEven (x : ℚ) : ℤ :=
  if 2 * Int.fract x < 1 ∨ 2 * Int.fract x = 1 ∧ Even ⌊x⌋ then ⌊x⌋ else ⌊x⌋ + 1

section HalfEven

variable (x : ℚ)

/-- The nearest integer is the floor or the next one. -/
theorem floor_le_roundHalfEven : ⌊x⌋ ≤ roundHalfEven x ∧ roundHalfEven x ≤ ⌊x⌋ + 1 := by
  unfold roundHalfEven
  split_ifs <;> omega

/-- The nearest integer is off by one half at most. -/
theorem two_mul_abs_sub_le : 2 * |(roundHalfEven x : ℚ) - x| ≤ 1 := by
  have hfract := Int.self_sub_floor x
  have hnonneg := Int.fract_nonneg x
  have hlt := Int.fract_lt_one x
  unfold roundHalfEven
  split_ifs with h
  · rw [abs_sub_comm, hfract, abs_of_nonneg hnonneg]
    rcases h with h | ⟨h, -⟩ <;> linarith
  · have hhalf : 1 ≤ 2 * Int.fract x := not_lt.mp fun hlt => h (.inl hlt)
    rw [Int.cast_add, Int.cast_one, abs_of_nonneg (by linarith)]
    linarith

/-- An integer that is off by one half is even. -/
theorem even_roundHalfEven (h : 2 * |(roundHalfEven x : ℚ) - x| = 1) : Even (roundHalfEven x) := by
  have hfract := Int.self_sub_floor x
  have hlt := Int.fract_lt_one x
  unfold roundHalfEven at h ⊢
  split_ifs at h ⊢ with hdown
  · rw [abs_sub_comm, hfract, abs_of_nonneg (Int.fract_nonneg x)] at h
    rcases hdown with hdown | ⟨-, heven⟩
    · exact absurd h hdown.ne
    · exact heven
  · rw [Int.cast_add, Int.cast_one, abs_of_nonneg (by linarith)] at h
    have hhalf : 2 * Int.fract x = 1 := by linarith
    rw [Int.even_add_one]
    exact fun heven => hdown (.inr ⟨hhalf, heven⟩)

variable {x} {k : ℤ}

/-- Another integer is off by one half at least. -/
theorem one_le_two_mul_abs_sub (hk : k ≠ roundHalfEven x) : 1 ≤ 2 * |(k : ℚ) - x| := by
  have hhalf := two_mul_abs_sub_le x
  have hone : (1 : ℚ) ≤ |(k : ℚ) - roundHalfEven x| := by
    exact_mod_cast Int.one_le_abs (sub_ne_zero.mpr hk)
  have htriangle := abs_sub_le (k : ℚ) x (roundHalfEven x)
  rw [abs_sub_comm x] at htriangle
  linarith

/-- No integer is nearer, and if another one is as near, the nearest integer is even. -/
theorem roundHalfEven_spec (x : ℚ) (k : ℤ) : |(roundHalfEven x : ℚ) - x| < |(k : ℚ) - x| ∨
    |(roundHalfEven x : ℚ) - x| = |(k : ℚ) - x| ∧
      (k = roundHalfEven x ∨ Even (roundHalfEven x)) := by
  by_cases hk : k = roundHalfEven x
  · exact .inr ⟨by rw [hk], .inl hk⟩
  · have hhalf := two_mul_abs_sub_le x
    have hother := one_le_two_mul_abs_sub hk
    rcases lt_or_ge |(roundHalfEven x : ℚ) - x| |(k : ℚ) - x| with hlt | hge
    · exact .inl hlt
    · have hone : 2 * |(roundHalfEven x : ℚ) - x| = 1 := by linarith
      exact .inr ⟨by linarith, .inr (even_roundHalfEven x hone)⟩

/-- Of two nearest integers only one is even. -/
theorem eq_roundHalfEven (heven : Even k) (h : |(k : ℚ) - x| ≤ |(roundHalfEven x : ℚ) - x|) :
    k = roundHalfEven x := by
  by_contra hk
  have hhalf := two_mul_abs_sub_le x
  have hother := one_le_two_mul_abs_sub hk
  have hround := even_roundHalfEven x (by linarith)
  -- Both are off by one half, so they differ by one.
  have htriangle := abs_sub_le (k : ℚ) x (roundHalfEven x)
  rw [abs_sub_comm x] at htriangle
  have hone : |(k : ℚ) - roundHalfEven x| ≤ 1 := by linarith
  have hdist : |k - roundHalfEven x| ≤ 1 := by exact_mod_cast hone
  obtain ⟨a, rfl⟩ := heven
  obtain ⟨b, hb⟩ := hround
  rw [abs_le] at hdist
  omega

end HalfEven

namespace Double

/-! ## The grid of an exponent -/

/-- The value of the last bit of a double with this exponent. -/
def unit (e : ℕ) : ℚ := 2 ^ e / 2 ^ 1075

/-- The sign of a number as a factor. -/
def sign (negative : Bool) : ℚ := if negative then -1 else 1

/-- The last bit has a value. -/
theorem unit_pos (e : ℕ) : 0 < unit e := by
  unfold unit
  positivity

/-- The value of the last bit doubles with each exponent. -/
theorem unit_add (e k : ℕ) : unit (e + k) = 2 ^ k * unit e := by
  rw [unit, unit, pow_add, mul_div_assoc', mul_comm (2 ^ e)]

/-- A unit is at least two of any smaller exponent. -/
theorem mul_unit_le {e e' : ℕ} (he : e < e') {a b : ℚ} (hb : 0 ≤ b) (h : a ≤ b * 2) :
    a * unit e ≤ b * unit e' := by
  obtain ⟨i, rfl⟩ := Nat.exists_eq_add_of_lt he
  have hpow : (1 : ℚ) ≤ 2 ^ i := one_le_pow₀ one_le_two
  have hunit := unit_pos e
  rw [unit_add, unit_add, pow_one]
  calc a * unit e ≤ b * 2 * unit e := mul_le_mul_of_nonneg_right h hunit.le
    _ = b * (2 * (1 * unit e)) := by ring
    _ ≤ b * (2 * (2 ^ i * unit e)) := by gcongr

/-- The value of the last bit as a power of two. -/
theorem unit_eq_zpow (e : ℕ) : unit e = 2 ^ ((e : ℤ) - 1075) := by
  rw [zpow_sub₀ two_ne_zero, zpow_natCast]
  rfl

/-- A sign does not change the absolute value. -/
theorem abs_sign (negative : Bool) : |sign negative| = 1 := by
  cases negative <;> simp [sign]

/-- A sign is undone by itself. -/
theorem sign_mul_sign (negative : Bool) : sign negative * sign negative = 1 := by
  cases negative <;> simp [sign]

/-- The absolute value of a number, with this sign. -/
def signed (negative : Bool) (q : ℚ) : ℚ := sign negative * |q|

/-- The absolute value of a number with a sign. -/
theorem abs_signed (negative : Bool) (q : ℚ) : |signed negative q| = |q| := by
  rw [signed, abs_mul, abs_sign, one_mul, abs_abs]

/-- Every number has its own sign. -/
theorem signed_self (q : ℚ) : signed (q < 0) q = q := by
  rcases lt_or_ge q 0 with hneg | hnonneg
  · simp [signed, sign, hneg, abs_of_neg hneg]
  · simp [signed, sign, hnonneg, abs_of_nonneg hnonneg]

variable {d d' : Double}

/-- The value of a double, by its sign, its significand and its exponent. -/
theorem toRat_eq (d : Double) : d.toRat = sign d.negative * (d.significand * unit d.exponent) := by
  rw [toRat, unit, ← mul_div_assoc, ← mul_div_assoc]
  rfl

/-- The absolute value of a double, by its significand and its exponent. -/
theorem abs_toRat (d : Double) : |d.toRat| = d.significand * unit d.exponent := by
  rw [toRat_eq, abs_mul, abs_sign, one_mul, abs_of_nonneg]
  exact mul_nonneg (Nat.cast_nonneg _) (unit_pos _).le

/-- The fraction has 52 bits. -/
theorem fraction_lt (d : Double) : d.fraction < 2 ^ 52 := by
  rw [fraction_eq]
  exact Nat.mod_lt _ (by decide)

/-- A significand has at most 53 bits. -/
theorem significand_lt (d : Double) : d.significand < 2 ^ 53 := by
  have hfraction := d.fraction_lt
  unfold significand
  split_ifs <;> omega

/-- Above the least exponent a significand has all of them. -/
theorem le_significand (h : 1 < d.exponent) : 2 ^ 52 ≤ d.significand := by
  rw [exponent, lt_max_iff] at h
  rw [significand, if_neg (by omega)]
  omega

/-- A double is a whole number of units of its exponent and of every smaller one. -/
theorem exists_toRat_eq {e : ℕ} (he : e ≤ d.exponent) :
    ∃ k : ℤ, d.toRat = k * unit e ∧ (Even d.significand → Even k) := by
  obtain ⟨i, hi⟩ := Nat.exists_eq_add_of_le he
  refine ⟨(if d.negative then -1 else 1) * (d.significand * 2 ^ i), ?_, fun heven => ?_⟩
  · rw [toRat_eq, hi, unit_add, sign]
    split_ifs <;> push_cast <;> ring
  · refine Even.mul_left (Even.mul_right ?_ _) _
    exact_mod_cast heven

/-- A double with a smaller exponent is nearer to zero than any with the exponent `e`. -/
theorem abs_toRat_lt {e : ℕ} (he : d.exponent < e) : |d.toRat| < 2 ^ 52 * unit e := by
  have hsig : (d.significand : ℚ) < 2 ^ 53 := by exact_mod_cast d.significand_lt
  rw [abs_toRat]
  calc d.significand * unit d.exponent < 2 ^ 53 * unit d.exponent :=
        mul_lt_mul_of_pos_right hsig (unit_pos _)
    _ ≤ 2 ^ 52 * unit e := mul_unit_le he (by positivity) (by norm_num)

/-- The exponent of the doubles between which a number lies. -/
def binade (q : ℚ) : ℕ := if q = 0 then 1 else (max 1 (Int.log 2 |q| + 1023)).toNat

variable {q : ℚ}

/-- The least exponent is one. -/
theorem one_le_binade (q : ℚ) : 1 ≤ binade q := by
  unfold binade
  split_ifs <;> omega

/-- A number is below the end of its binade. -/
theorem lt_of_binade (q : ℚ) : |q| < 2 ^ 53 * unit (binade q) := by
  rcases eq_or_ne q 0 with rfl | hq
  · rw [abs_zero]
    exact mul_pos (by positivity) (unit_pos _)
  · have hlog := Int.lt_zpow_succ_log_self (b := 2) Nat.one_lt_two |q|
    refine hlog.trans_le ?_
    rw [unit_eq_zpow, ← zpow_natCast, ← zpow_add₀ two_ne_zero]
    refine zpow_le_zpow_right₀ one_le_two ?_
    rw [binade, if_neg hq]
    omega

/-- A number is not below the beginning of its binade, if that is not the least one. -/
theorem le_of_binade (h : 1 < binade q) : 2 ^ 52 * unit (binade q) ≤ |q| := by
  have hq : q ≠ 0 := by
    rintro rfl
    exact absurd h (by decide)
  refine le_trans ?_ (Int.zpow_log_le_self (b := 2) Nat.one_lt_two (abs_pos.mpr hq))
  rw [unit_eq_zpow, ← zpow_natCast, ← zpow_add₀ two_ne_zero]
  refine zpow_le_zpow_right₀ one_le_two ?_
  rw [binade, if_neg hq] at h ⊢
  omega

/-! ## The double that a number is rounded to -/

/-- What a number may be read as: the nearest finite double, and of two the one with the even
significand; or, from the middle between the greatest finite double and `2 ^ 1024` on, the infinite
double with its sign. -/
def Rounds (q : ℚ) (d : Double) : Prop :=
  if |q| < 2 ^ 1024 - 2 ^ 970 then
    d.IsFinite ∧ ∀ d' : Double, d'.IsFinite → |d.toRat - q| < |d'.toRat - q| ∨
      |d.toRat - q| = |d'.toRat - q| ∧ (d'.toRat = d.toRat ∨ Even d.significand)
  else d.value = .infinite (q < 0)

/-- The number in units of its exponent, rounded to an integer. -/
def units (q : ℚ) : ℕ := (roundHalfEven (|q| / unit (binade q))).toNat

/-- The exponent and the fraction as one number, in which a carry of the units increments the
exponent. -/
def magnitude (q : ℚ) : ℕ := (binade q - 1) * 2 ^ 52 + units q

/-- The double with this sign that the absolute value of a number is rounded to. -/
def round (negative : Bool) (q : ℚ) : Double :=
  let m := min (magnitude q) (0x7ff * 2 ^ 52)
  ofParts negative (m / 2 ^ 52) (m % 2 ^ 52)

/-- The units are the number of last bits, rounded half to even. -/
theorem units_eq (q : ℚ) : (units q : ℤ) = roundHalfEven (|q| / unit (binade q)) := by
  have hnonneg : 0 ≤ |q| / unit (binade q) := div_nonneg (abs_nonneg q) (unit_pos _).le
  have hfloor := Int.floor_nonneg.mpr hnonneg
  exact Int.toNat_of_nonneg (hfloor.trans (floor_le_roundHalfEven _).1)

/-- The units do not exceed the end of the binade. -/
theorem units_le (q : ℚ) : units q ≤ 2 ^ 53 := by
  have hlt : |q| / unit (binade q) < (2 ^ 53 : ℤ) := by
    rw [div_lt_iff₀ (unit_pos _)]
    exact_mod_cast lt_of_binade q
  have hfloor := Int.floor_lt.mpr hlt
  have hround := (floor_le_roundHalfEven (|q| / unit (binade q))).2
  have hunits := units_eq q
  omega

/-- The units do not fall below the beginning of the binade, if that is not the least one. -/
theorem le_units (h : 1 < binade q) : 2 ^ 52 ≤ units q := by
  have hle : ((2 ^ 52 : ℤ) : ℚ) ≤ |q| / unit (binade q) := by
    rw [le_div_iff₀ (unit_pos _)]
    exact_mod_cast le_of_binade h
  have hfloor := Int.le_floor.mpr hle
  have hround := (floor_le_roundHalfEven (|q| / unit (binade q))).1
  have hunits := units_eq q
  omega

/-- The units as a rational number. -/
theorem cast_units (q : ℚ) : (units q : ℚ) = (roundHalfEven (|q| / unit (binade q)) : ℚ) := by
  rw [← units_eq, Int.cast_natCast]

/-- The units are off by one half at most, and even then. -/
theorem units_spec (q : ℚ) : 2 * |(units q : ℚ) - |q| / unit (binade q)| ≤ 1 ∧
    (2 * |(units q : ℚ) - |q| / unit (binade q)| = 1 → Even (units q)) := by
  have heven := even_roundHalfEven (|q| / unit (binade q))
  rw [← cast_units, ← units_eq, Int.even_coe_nat] at heven
  rw [cast_units]
  exact ⟨two_mul_abs_sub_le _, cast_units q ▸ heven⟩

/-- The limit for finite doubles, in units of their greatest exponent. -/
theorem limit_eq : (2 : ℚ) ^ 1024 - 2 ^ 970 = (2 ^ 53 - 1 / 2) * unit 2046 := by
  have hunit : unit 2046 = 2 ^ 971 := by
    rw [unit_eq_zpow]
    norm_num only [Nat.cast_ofNat]
    exact zpow_natCast 2 971
  have hlow : (2 : ℚ) ^ 1024 = 2 ^ 53 * 2 ^ 971 := pow_add 2 53 971
  have hhigh : (2 : ℚ) ^ 971 = 2 * 2 ^ 970 := pow_succ' 2 970
  rw [hunit, hlow, hhigh]
  generalize (2 : ℚ) ^ 970 = x
  ring

/-- The magnitude is that of a finite double below the limit only. -/
theorem magnitude_lt_iff (q : ℚ) :
    magnitude q < 0x7ff * 2 ^ 52 ↔ |q| < 2 ^ 1024 - 2 ^ 970 := by
  have hone := one_le_binade q
  have hle := units_le q
  have hlt := lt_of_binade q
  rw [limit_eq, magnitude]
  rcases Nat.lt_trichotomy (binade q) 2046 with he | he | he
  · -- The number is below the least one with the greatest exponent.
    exact iff_of_true (by omega) (hlt.trans_le (mul_unit_le he (by norm_num) (by norm_num)))
  · obtain ⟨hhalf, heven⟩ := units_spec q
    rw [he] at hhalf heven ⊢
    rw [← div_lt_iff₀ (unit_pos _)]
    generalize |q| / unit 2046 = x at hhalf heven ⊢
    rw [abs_sub_comm] at hhalf heven
    constructor
    · intro h
      -- The units are at most the odd number below `2 ^ 53`.
      have hunits : (units q : ℚ) ≤ 2 ^ 53 - 1 := by
        have hnat : units q + 1 ≤ 2 ^ 53 := by omega
        exact le_sub_iff_add_le.mpr (by exact_mod_cast hnat)
      by_contra hx
      have hle := (le_abs_self _).trans (by linarith only [hhalf] : |x - units q| ≤ 1 / 2)
      have heq : (units q : ℚ) = 2 ^ 53 - 1 := by linarith
      have hodd : Even (units q) := heven (by rw [heq, abs_of_nonneg] <;> linarith)
      have hnat : units q + 1 = 2 ^ 53 := by
        exact_mod_cast (eq_sub_iff_add_eq.mp heq : (units q : ℚ) + 1 = 2 ^ 53)
      rw [← Nat.not_odd_iff_even] at hodd
      exact hodd ⟨2 ^ 52 - 1, by omega⟩
    · intro hx
      by_contra h
      have hnat : units q = 2 ^ 53 := by omega
      rw [hnat, abs_sub_comm] at hhalf
      push_cast at hhalf
      have hdiff := (le_abs_self _).trans (by linarith only [hhalf] : |2 ^ 53 - x| ≤ 1 / 2)
      linarith
  · -- The number is not below the least one with a greater exponent.
    have hunits := le_units (q := q) (by omega)
    refine iff_of_false (by omega) (not_lt.mpr (le_trans ?_ (le_of_binade (by omega))))
    exact mul_unit_le he (by norm_num) (by norm_num)

/-- The parts of a magnitude are those of the double with these units. Units that are `2 ^ 53` have
incremented the exponent. -/
theorem ofParts_spec (negative : Bool) {e n : ℕ} (he : 1 ≤ e) (hn : n ≤ 2 ^ 53)
    (hlow : 1 < e → 2 ^ 52 ≤ n) (hm : (e - 1) * 2 ^ 52 + n < 0x7ff * 2 ^ 52) :
    ∃ b m, ((e - 1) * 2 ^ 52 + n) / 2 ^ 52 = b ∧ ((e - 1) * 2 ^ 52 + n) % 2 ^ 52 = m ∧
      (ofParts negative b m).IsFinite ∧
      (ofParts negative b m).toRat = sign negative * (n * unit e) ∧
      (Even n → Even (ofParts negative b m).significand) := by
  refine ⟨_, _, rfl, rfl, ?_⟩
  generalize hb : ((e - 1) * 2 ^ 52 + n) / 2 ^ 52 = b
  generalize hf : ((e - 1) * 2 ^ 52 + n) % 2 ^ 52 = m
  have hb' : b < 2 ^ 11 := by omega
  have hm' : m < 2 ^ 52 := by omega
  have hbiased := biasedExponent_ofParts (s := negative) hb' hm'
  have hfraction := fraction_ofParts (s := negative) hb' hm'
  rw [toRat_eq, negative_ofParts hb' hm', significand, exponent, IsFinite, hbiased, hfraction]
  refine ⟨by omega, ?_⟩
  obtain ⟨rfl, rfl, rfl⟩ | ⟨rfl, hn⟩ | ⟨rfl, rfl, rfl⟩ : (b = 0 ∧ m = n ∧ e = 1) ∨
      (b = e ∧ m + 2 ^ 52 = n) ∨ (b = e + 1 ∧ m = 0 ∧ n = 2 ^ 53) := by omega
  · -- A subnormal double.
    simp
  · rw [if_neg (by omega), max_eq_left he, hn]
    exact ⟨rfl, id⟩
  · rw [if_neg (by omega), max_eq_left (by omega), unit_add]
    refine ⟨?_, fun _ => ⟨2 ^ 51, by norm_num⟩⟩
    push_cast
    ring

section Round

variable {negative : Bool}

variable (negative) in
/-- Below the limit, a number is rounded to a double with its units. -/
theorem round_of_lt (h : |q| < 2 ^ 1024 - 2 ^ 970) : (round negative q).IsFinite ∧
    (round negative q).toRat = sign negative * (units q * unit (binade q)) ∧
    (Even (units q) → Even (round negative q).significand) := by
  have hm := (magnitude_lt_iff q).mpr h
  obtain ⟨b, m, hb, hf, hspec⟩ := ofParts_spec negative (one_le_binade q) (units_le q) le_units hm
  rw [round, min_eq_left hm.le, magnitude, hb, hf]
  exact hspec

/-- From the limit on, a number is rounded to an infinite double. -/
theorem round_of_le (h : 2 ^ 1024 - 2 ^ 970 ≤ |q|) :
    (round negative q).value = .infinite negative := by
  have hm : 0x7ff * 2 ^ 52 ≤ magnitude q := not_lt.mp ((magnitude_lt_iff q).not.mpr h.not_gt)
  have hround : round negative q = ofParts negative 0x7ff 0 := by
    rw [round, min_eq_right hm]
    norm_num
  have hb : (0x7ff : ℕ) < 2 ^ 11 := by decide
  have hf : 0 < 2 ^ 52 := by decide
  have hinfinite : ¬(ofParts negative 0x7ff 0).IsFinite :=
    not_not_intro (biasedExponent_ofParts hb hf)
  rw [hround, value, if_neg hinfinite, fraction_ofParts hb hf, if_pos rfl, negative_ofParts hb hf]

/-- Rounding keeps the sign. -/
theorem negative_round : (round negative q).negative = negative := by
  unfold round
  refine negative_ofParts ?_ (Nat.mod_lt _ (by decide))
  have hle := min_le_right (magnitude q) (0x7ff * 2 ^ 52)
  omega

/-- A factor that is a sign can change sides. -/
theorem abs_sub_sign_mul (a b : ℚ) : |a - sign negative * b| = |sign negative * a - b| := by
  have h : a - sign negative * b = sign negative * (sign negative * a - b) := by
    rw [mul_sub, ← mul_assoc, sign_mul_sign, one_mul]
  rw [h, abs_mul, abs_sign, one_mul]

/-- The distance of a number from a multiple of its unit, in units. -/
theorem abs_mul_unit_sub (a : ℚ) : |a * unit (binade q) - signed negative q| =
    |sign negative * a - |q| / unit (binade q)| * unit (binade q) := by
  have hunit := unit_pos (binade q)
  have h : sign negative * (a * unit (binade q)) - |q| =
      (sign negative * a - |q| / unit (binade q)) * unit (binade q) := by
    rw [sub_mul, div_mul_cancel₀ _ hunit.ne', mul_assoc]
  rw [signed, abs_sub_sign_mul, h, abs_mul, abs_of_pos hunit]

/-- Below the limit, the distance of a number from the double that it is rounded to. -/
theorem abs_toRat_round_sub (h : |q| < 2 ^ 1024 - 2 ^ 970) :
    |(round negative q).toRat - signed negative q| =
      |(units q : ℚ) - |q| / unit (binade q)| * unit (binade q) := by
  rw [(round_of_lt negative h).2.1, ← mul_assoc, abs_mul_unit_sub, ← mul_assoc, sign_mul_sign,
    one_mul]

variable (negative) in
/-- A double with a smaller exponent is farther away than the double that a number is rounded to. -/
theorem abs_sub_lt_of_exponent_lt (h : |q| < 2 ^ 1024 - 2 ^ 970) (hd : d.exponent < binade q) :
    |(round negative q).toRat - signed negative q| < |d.toRat - signed negative q| := by
  have hone := le_max_right d.biasedExponent 1
  have hle := le_of_binade (q := q) (hone.trans_lt hd)
  have hlt := abs_toRat_lt hd
  have hunit := unit_pos (binade q)
  -- The least double with the exponent of the number is not nearer, and the other one is below it.
  have hround : |(units q : ℚ) - |q| / unit (binade q)| ≤ |2 ^ 52 - |q| / unit (binade q)| := by
    have hspec := roundHalfEven_spec (|q| / unit (binade q)) (2 ^ 52)
    rw [← cast_units] at hspec
    push_cast at hspec
    exact hspec.elim le_of_lt fun heq => heq.1.le
  have hdist : |2 ^ 52 - |q| / unit (binade q)| * unit (binade q) =
      |q| - 2 ^ 52 * unit (binade q) := by
    rw [abs_sub_comm, abs_of_nonneg (sub_nonneg.mpr ((le_div_iff₀ hunit).mpr hle)), sub_mul,
      div_mul_cancel₀ _ hunit.ne']
  calc |(round negative q).toRat - signed negative q|
      = |(units q : ℚ) - |q| / unit (binade q)| * unit (binade q) := abs_toRat_round_sub h
    _ ≤ |2 ^ 52 - |q| / unit (binade q)| * unit (binade q) :=
        mul_le_mul_of_nonneg_right hround hunit.le
    _ = |q| - 2 ^ 52 * unit (binade q) := hdist
    _ < |q| - |d.toRat| := sub_lt_sub_left hlt _
    _ = |signed negative q| - |d.toRat| := by rw [abs_signed]
    _ ≤ |signed negative q - d.toRat| := abs_sub_abs_le_abs_sub _ _
    _ = |d.toRat - signed negative q| := abs_sub_comm _ _

/-- Below the limit, a double with this or a greater exponent is a number of units, by which its
distance can be told. -/
theorem exists_units (negative : Bool) (hd : binade q ≤ d.exponent) : ∃ k : ℤ,
    d.toRat = sign negative * (k * unit (binade q)) ∧
    |d.toRat - signed negative q| = |(k : ℚ) - |q| / unit (binade q)| * unit (binade q) ∧
    (Even d.significand → Even k) := by
  obtain ⟨k, hk, heven⟩ := exists_toRat_eq hd
  have hcast : (((if negative then -k else k : ℤ)) : ℚ) = sign negative * k := by
    cases negative <;> simp [sign]
  refine ⟨if negative then -k else k, ?_, ?_, fun h => ?_⟩
  · rw [hcast, hk, mul_assoc, ← mul_assoc, sign_mul_sign, one_mul]
  · rw [hk, abs_mul_unit_sub, hcast]
  · split_ifs
    · exact (heven h).neg
    · exact heven h

/-- A number is rounded to the double that `round` computes. -/
theorem rounds_round (negative : Bool) (q : ℚ) :
    Rounds (signed negative q) (round negative q) := by
  unfold Rounds
  rw [abs_signed]
  split_ifs with hlt
  · obtain ⟨hfin, hval, heven⟩ := round_of_lt negative hlt
    refine ⟨hfin, fun d' _ => ?_⟩
    rcases Nat.lt_or_ge d'.exponent (binade q) with he | he
    · exact .inl (abs_sub_lt_of_exponent_lt negative hlt he)
    · obtain ⟨k, hk, hdist, -⟩ := exists_units negative he
      have hunit := unit_pos (binade q)
      rw [abs_toRat_round_sub hlt, hdist, mul_lt_mul_iff_left₀ hunit, mul_left_inj' hunit.ne',
        hk, hval, cast_units]
      refine (roundHalfEven_spec (|q| / unit (binade q)) k).imp_right (And.imp_right ?_)
      rintro (rfl | hround)
      · exact .inl rfl
      · rw [← units_eq, Int.even_coe_nat] at hround
        exact .inr (heven hround)
  · have hpos : 0 < |q| := by
      refine lt_of_lt_of_le ?_ (not_lt.mp hlt)
      rw [limit_eq]
      exact mul_pos (by norm_num) (unit_pos _)
    rw [round_of_le (not_lt.mp hlt)]
    cases negative <;> simp [signed, sign, abs_pos.mp hpos]

/-- A number is rounded to no other double than the one that `round` computes. -/
theorem Rounds.value_eq_round (h : Rounds (signed negative q) d) :
    d.value = (round negative q).value := by
  have hround := rounds_round negative q
  unfold Rounds at h hround
  rw [abs_signed] at h hround
  split_ifs at h hround with hlt
  · obtain ⟨hfin, hd⟩ := h
    obtain ⟨hfin', hd'⟩ := hround
    have hvalue : d.toRat = (round negative q).toRat := by
      rcases Nat.lt_or_ge d.exponent (binade q) with he | he
      · have hfarther := abs_sub_lt_of_exponent_lt negative hlt he
        rcases hd _ hfin' with hnearer | ⟨hsame, -⟩
        · exact absurd hnearer hfarther.not_gt
        · exact absurd hsame hfarther.ne'
      · rcases hd _ hfin' with hnearer | ⟨hsame, heq | heven⟩
        · rcases hd' _ hfin with hnearer' | ⟨hsame', -⟩
          · exact absurd hnearer hnearer'.not_gt
          · exact absurd hsame' hnearer.ne'
        · exact heq.symm
        · -- Both are as near, and of two nearest numbers of units only one is even.
          obtain ⟨k, hk, hdist, hk'⟩ := exists_units negative he
          have hunit := unit_pos (binade q)
          rw [hdist, abs_toRat_round_sub hlt, mul_left_inj' hunit.ne', cast_units] at hsame
          have hkr := eq_roundHalfEven (hk' heven) hsame.le
          rw [hk, (round_of_lt negative hlt).2.1, cast_units, hkr]
    rw [value, value, if_pos hfin, if_pos hfin', hvalue]
  · rw [h, hround]

end Round

/-- Two doubles that a number may be read as have the same value. -/
theorem Rounds.value_eq (h : Rounds q d) (h' : Rounds q d') : d.value = d'.value := by
  rw [← signed_self q] at h h'
  exact h.value_eq_round.trans h'.value_eq_round.symm

/-! ## Numbers near to a double -/

/-- Two doubles differ by a `2 ^ 53`th of each at least. -/
theorem abs_toRat_le_mul (h : d'.toRat ≠ d.toRat) : |d.toRat| ≤ 2 ^ 53 * |d'.toRat - d.toRat| := by
  have hunit := unit_pos d.exponent
  rcases Nat.lt_or_ge d'.exponent d.exponent with he | he
  · -- The other one is at most the double below the least one with this exponent.
    have hsig : (2 : ℚ) ^ 52 ≤ d.significand := by
      exact_mod_cast le_significand ((le_max_right d'.biasedExponent 1).trans_lt he)
    have hsig' : (d'.significand : ℚ) ≤ 2 ^ 53 - 1 := by
      exact le_sub_iff_add_le.mpr (by exact_mod_cast d'.significand_lt)
    have hd' : |d'.toRat| ≤ (2 ^ 52 - 1 / 2) * unit d.exponent := by
      rw [abs_toRat]
      exact mul_unit_le he (by norm_num) (by linarith)
    have htriangle := abs_sub_abs_le_abs_sub d.toRat d'.toRat
    rw [abs_sub_comm, abs_toRat] at htriangle
    rw [abs_toRat]
    nlinarith
  · -- They differ by units of this exponent.
    obtain ⟨k, hk, -⟩ := exists_toRat_eq he
    obtain ⟨i, hi, -⟩ := exists_toRat_eq (le_refl d.exponent)
    have hne : k - i ≠ 0 := by
      intro heq
      rw [hk, hi, sub_eq_zero.mp heq] at h
      exact h rfl
    have hone : (1 : ℚ) ≤ |((k - i : ℤ) : ℚ)| := by exact_mod_cast Int.one_le_abs hne
    have hsig : (d.significand : ℚ) ≤ 2 ^ 53 := by exact_mod_cast d.significand_lt.le
    have hdiff : d'.toRat - d.toRat = ((k - i : ℤ) : ℚ) * unit d.exponent := by
      rw [hk, hi]
      push_cast
      ring
    rw [abs_toRat, hdiff, abs_mul, abs_of_pos hunit]
    calc d.significand * unit d.exponent ≤ 2 ^ 53 * unit d.exponent := by gcongr
      _ = 2 ^ 53 * (1 * unit d.exponent) := by rw [one_mul]
      _ ≤ 2 ^ 53 * (|((k - i : ℤ) : ℚ)| * unit d.exponent) := by gcongr

/-- The greatest finite double. -/
theorem abs_toRat_le (hd : d.IsFinite) : |d.toRat| ≤ (2 ^ 53 - 1) * unit 2046 := by
  have hsig : (d.significand : ℚ) ≤ 2 ^ 53 - 1 :=
    le_sub_iff_add_le.mpr (by exact_mod_cast d.significand_lt)
  have hexp : d.exponent ≤ 2046 := by
    have hbits : d.biasedExponent < 2 ^ 11 := by
      rw [biasedExponent_eq]
      exact Nat.mod_lt _ (by decide)
    have hne : d.biasedExponent ≠ 0x7ff := hd
    rw [exponent]
    omega
  rw [abs_toRat]
  rcases hexp.lt_or_eq with hlt | heq
  · exact mul_unit_le hlt (by norm_num) (by linarith)
  · rw [heq]
    exact mul_le_mul_of_nonneg_right hsig (unit_pos _).le

/-- A number that is near to a double is read as it. -/
theorem rounds_of_near (hd : d.IsFinite) (h : 2 ^ 54 * |d.toRat - q| < |d.toRat|) : Rounds q d := by
  have hmax := abs_toRat_le hd
  have hlt : |q| < 2 ^ 1024 - 2 ^ 970 := by
    rw [limit_eq]
    have htriangle := abs_sub_abs_le_abs_sub q d.toRat
    rw [abs_sub_comm] at htriangle
    have hunit := unit_pos 2046
    linarith
  rw [Rounds, if_pos hlt]
  refine ⟨hd, fun d' _ => ?_⟩
  by_cases heq : d'.toRat = d.toRat
  · exact .inr ⟨by rw [heq], .inl heq⟩
  · have hspace := abs_toRat_le_mul heq
    have htriangle := abs_sub_le d'.toRat q d.toRat
    rw [abs_sub_comm q] at htriangle
    exact .inl (by linarith)

/-- A double is what its own number is read as. -/
theorem rounds_toRat (hd : d.IsFinite) : Rounds d.toRat d := by
  have hmax := abs_toRat_le hd
  have hlt : |d.toRat| < 2 ^ 1024 - 2 ^ 970 := by
    rw [limit_eq]
    have hunit := unit_pos 2046
    linarith
  rw [Rounds, if_pos hlt, sub_self, abs_zero]
  refine ⟨hd, fun d' _ => ?_⟩
  rcases eq_or_ne d'.toRat d.toRat with heq | hne
  · exact .inr ⟨by rw [heq, sub_self, abs_zero], .inl heq⟩
  · exact .inl (abs_pos.mpr (sub_ne_zero.mpr hne))

/-- The exponent and the significand of a double can be told from its absolute value. -/
theorem exponent_eq_of_abs_toRat_eq (h : |d.toRat| = |d'.toRat|) :
    d.exponent = d'.exponent ∧ d.significand = d'.significand := by
  have hle : ∀ {d d' : Double}, |d.toRat| = |d'.toRat| → d'.exponent ≤ d.exponent := by
    intro d d' h
    by_contra hlt
    have hsig : (2 : ℚ) ^ 52 ≤ d'.significand := by
      exact_mod_cast le_significand ((le_max_right d.biasedExponent 1).trans_lt (not_le.mp hlt))
    have habs := abs_toRat_lt (not_le.mp hlt)
    rw [h, abs_toRat] at habs
    exact absurd (lt_of_mul_lt_mul_right habs (unit_pos _).le) hsig.not_gt
  have hexp := le_antisymm (hle h.symm) (hle h)
  refine ⟨hexp, ?_⟩
  rw [abs_toRat, abs_toRat, hexp] at h
  exact_mod_cast mul_right_cancel₀ (unit_pos _).ne' h

/-- Finite doubles of one sign and one value are equal. -/
theorem eq_of_value_eq (hneg : d.negative = d'.negative) (hd : d.IsFinite)
    (hval : d.value = d'.value) : d = d' := by
  have hrat : d.toRat = d'.toRat := by
    rw [value, value, if_pos hd] at hval
    split_ifs at hval
    exact NumberValue.finite.inj hval
  obtain ⟨hexp, hsig⟩ := exponent_eq_of_abs_toRat_eq (congrArg abs hrat)
  have hfraction := d.fraction_lt
  have hfraction' := d'.fraction_lt
  -- The stored parts are equal as well, and they are all of the bits.
  have hparts : d.biasedExponent = d'.biasedExponent ∧ d.fraction = d'.fraction := by
    unfold exponent at hexp
    unfold significand at hsig
    split_ifs at hsig <;> omega
  have hbits : d.bits.toNat = d'.bits.toNat := by
    have hlt := d.bits.toNat_lt
    have hlt' := d'.bits.toNat_lt
    rw [negative_eq, negative_eq, decide_eq_decide] at hneg
    rw [biasedExponent_eq, biasedExponent_eq, fraction_eq, fraction_eq] at hparts
    omega
  exact congrArg mk (UInt64.toNat_inj.mp hbits)

/-- A double has its own sign. -/
theorem signed_toRat (d : Double) : signed d.negative d.toRat = d.toRat := by
  rw [signed, abs_toRat, toRat_eq]

/-- The absolute value of a number is as near to that of a double as the number to the double. -/
theorem abs_toRat_sub_signed (d : Double) (q : ℚ) :
    |d.toRat - signed d.negative q| = |(|d.toRat| - |q|)| := by
  rw [← signed_toRat, signed, signed, ← mul_sub, abs_mul, abs_sign, one_mul, ← signed, signed_toRat]

/-- Every number is read as some double. -/
theorem exists_rounds (q : ℚ) : ∃ d, Rounds q d :=
  ⟨round (q < 0) q, by simpa only [signed_self] using rounds_round (q < 0) q⟩

/-- No finite double is nearer to a number than the one that it is read as. -/
theorem Rounds.abs_sub_le (h : Rounds q d) (hd : d.IsFinite) (hd' : d'.IsFinite) :
    |d.toRat - q| ≤ |d'.toRat - q| := by
  unfold Rounds at h
  split_ifs at h
  · exact (h.2 d' hd').elim le_of_lt fun heq => heq.1.le
  · rw [value, if_pos hd] at h
    cases h

/-- A whole number of at most 53 bits is read as itself. -/
theorem Rounds.toRat_eq {n : ℤ} (h : Rounds n d) (hn : n.natAbs < 2 ^ 53) :
    d.IsFinite ∧ d.toRat = n := by
  obtain ⟨hfin, hval⟩ := ofInt_spec hn
  have heq := h.value_eq (hval ▸ rounds_toRat hfin)
  rw [value, value, if_pos hfin, hval] at heq
  split_ifs at heq with hd
  exact ⟨hd, NumberValue.finite.inj heq⟩

end Double

end Khala
