import Mathlib

/-! Binary32 numbers: what a bit pattern denotes, rounding to nearest with ties to even, and the
operations on the rounded numbers, infinities and NaNs included. The sign of a zero, which only a
quotient by it would show, is not kept. -/
namespace AebNode

/-- The IEEE-754 bit pattern of a binary32 value. -/
abbrev FloatBits := UInt32

/-- The rational a finite binary32 pattern denotes, subnormals included. Infinities and
NaNs have no value: their patterns read as if the exponent range went on. -/
def floatValue (bits : FloatBits) : ℚ :=
  let exponent : ℕ := bits.toNat / 2 ^ 23 % 2 ^ 8
  let mantissa : ℕ := bits.toNat % 2 ^ 23
  let magnitude : ℚ :=
    if exponent = 0 then mantissa / 2 ^ 149
    else (2 ^ 23 + mantissa) * 2 ^ exponent / 2 ^ 150
  if bits.toNat / 2 ^ 31 = 0 then magnitude else -magnitude

example : floatValue 0x44FA0000 = 2000 := by decide +kernel

/-- The pattern is of a number, not of an infinity or a NaN. -/
def IsFinite (bits : FloatBits) : Prop := bits.toNat / 2 ^ 23 % 2 ^ 8 < 255

instance (bits : FloatBits) : Decidable (IsFinite bits) := Nat.decLt _ _

namespace Binary32

/-- Round to the nearest integer, ties to even. -/
def roundEven (q : ℚ) : ℕ :=
  let quotient := ⌊q⌋₊
  let remainder := q - quotient
  if 1 / 2 < remainder ∨ remainder = 1 / 2 ∧ quotient % 2 = 1 then quotient + 1 else quotient

/-- `static_cast<int>` of a floating-point value drops the fraction. -/
def truncate (q : ℚ) : ℤ := if 0 ≤ q then ⌊q⌋ else ⌈q⌉

theorem roundEven_natCast (n : ℕ) : roundEven n = n := by
  simp [roundEven]

inductive Value
  | nan
  | infinity (negative : Bool)
  | finite (q : ℚ)
  deriving DecidableEq, Repr

namespace Value

def ofBits (bits : FloatBits) : Value :=
  if IsFinite bits then finite (floatValue bits)
  else if bits.toNat % 2 ^ 23 = 0 then infinity (decide (2 ^ 31 ≤ bits.toNat))
  else nan

/-- The nearest number of 24 bits in the range of the exponent; infinite where that is none. -/
def round (q : ℚ) : Value :=
  if q = 0 then finite 0
  else
    let exponent := max (Int.log 2 |q|) (-126)
    let magnitude := (roundEven (|q| * 2 ^ (23 - exponent)) : ℚ) * 2 ^ (exponent - 23)
    if 2 ^ 128 ≤ magnitude then infinity (decide (q < 0))
    else finite (if q < 0 then -magnitude else magnitude)

instance : IntCast Value := ⟨fun n => round n⟩

def sub : Value → Value → Value
  | finite p, finite q => round (p - q)
  | finite _, infinity negative => infinity (!negative)
  | infinity negative, finite _ => infinity negative
  | infinity negative, infinity negative' =>
    if negative = negative' then nan else infinity negative
  | nan, _ | _, nan => nan

def div : Value → Value → Value
  | finite p, finite q =>
    if q = 0 then if p = 0 then nan else infinity (decide (p < 0)) else round (p / q)
  | finite _, infinity _ => finite 0
  | infinity negative, finite q => infinity (negative ^^ decide (q < 0))
  | infinity _, infinity _ => nan
  | nan, _ | _, nan => nan

/-- A comparison with a NaN is false. -/
def lt : Value → Value → Prop
  | finite p, finite q => p < q
  | finite _, infinity negative => negative = false
  | infinity negative, finite _ => negative = true
  | infinity negative, infinity negative' => negative = true ∧ negative' = false
  | nan, _ | _, nan => False

def le : Value → Value → Prop
  | finite p, finite q => p ≤ q
  | finite _, infinity negative => negative = false
  | infinity negative, finite _ => negative = true
  | infinity negative, infinity negative' => negative = true ∨ negative' = false
  | nan, _ | _, nan => False

instance : Sub Value := ⟨sub⟩
instance : Div Value := ⟨div⟩
instance : LT Value := ⟨lt⟩
instance : LE Value := ⟨le⟩

instance : DecidableLT Value
  | finite p, finite q => inferInstanceAs (Decidable (p < q))
  | finite _, infinity negative => inferInstanceAs (Decidable (negative = false))
  | infinity negative, finite _ => inferInstanceAs (Decidable (negative = true))
  | infinity _, infinity _ => inferInstanceAs (Decidable (_ ∧ _))
  | nan, _ | finite _, nan | infinity _, nan => inferInstanceAs (Decidable False)

instance : DecidableLE Value
  | finite p, finite q => inferInstanceAs (Decidable (p ≤ q))
  | finite _, infinity negative => inferInstanceAs (Decidable (negative = false))
  | infinity negative, finite _ => inferInstanceAs (Decidable (negative = true))
  | infinity _, infinity _ => inferInstanceAs (Decidable (_ ∨ _))
  | nan, _ | finite _, nan | infinity _, nan => inferInstanceAs (Decidable False)

/-- The conversion to a 32-bit `int`; `none` where it is undefined. -/
def toInt : Value → Option ℤ
  | finite q => if -2 ^ 31 ≤ truncate q ∧ truncate q < 2 ^ 31 then some (truncate q) else none
  | infinity _ | nan => none

@[simp] theorem finite_lt {p q : ℚ} : finite p < finite q ↔ p < q := Iff.rfl

@[simp] theorem finite_le {p q : ℚ} : finite p ≤ finite q ↔ p ≤ q := Iff.rfl

theorem ne_nan_of_le {a b : Value} (h : a ≤ b) : a ≠ nan ∧ b ≠ nan := by
  constructor
  · rintro rfl
    cases b <;> exact h
  · rintro rfl
    cases a <;> exact h

theorem le_of_not_lt {a b : Value} (ha : a ≠ nan) (hb : b ≠ nan) (h : ¬ a < b) : b ≤ a := by
  cases a <;> cases b
  case finite.finite => exact finite_le.mpr (not_lt.mp (mt finite_lt.mpr h))
  case infinity.infinity negative negative' =>
    change ¬ (negative = true ∧ negative' = false) at h
    change negative' = true ∨ negative = false
    cases negative <;> cases negative' <;> simp_all
  case finite.infinity q negative => exact (Bool.not_eq_false negative).mp h
  case infinity.finite negative q => exact (Bool.not_eq_true negative).mp h
  all_goals contradiction

theorem lt_of_not_le {a b : Value} (ha : a ≠ nan) (hb : b ≠ nan) (h : ¬ a ≤ b) : b < a := by
  cases a <;> cases b
  case finite.finite => exact finite_lt.mpr (not_le.mp (mt finite_le.mpr h))
  case infinity.infinity negative negative' =>
    change ¬ (negative = true ∨ negative' = false) at h
    change negative' = true ∧ negative = false
    cases negative <;> cases negative' <;> simp_all
  case finite.infinity q negative => exact (Bool.not_eq_false negative).mp h
  case infinity.finite negative q => exact (Bool.not_eq_true negative).mp h
  all_goals contradiction

/-- A number of 24 bits in the range of the exponent is not rounded. -/
theorem round_significand {m : ℤ} {e : ℤ} (hm : |m| < 2 ^ 24) (hlow : -149 ≤ e) (hhigh : e ≤ 104) :
    round (m * 2 ^ e) = finite (m * 2 ^ e) := by
  by_cases hzero : m = 0
  · simp [round, hzero]
  have hpow : (0 : ℚ) < 2 ^ e := by positivity
  have hq : (m : ℚ) * 2 ^ e ≠ 0 := mul_ne_zero (by exact_mod_cast hzero) hpow.ne'
  have habs : |(m : ℚ) * 2 ^ e| = (m.natAbs : ℚ) * 2 ^ e := by
    rw [abs_mul, abs_of_pos hpow, Nat.cast_natAbs, Int.cast_abs]
  have hbits : (m.natAbs : ℚ) < 2 ^ 24 := by
    rw [Nat.cast_natAbs]
    exact_mod_cast hm
  have hbelow : (m.natAbs : ℚ) * 2 ^ e < 2 ^ (24 + e) := by
    rw [zpow_add₀ (by norm_num)]
    exact mul_lt_mul_of_pos_right (by exact_mod_cast hbits) hpow
  have hlog : Int.log 2 ((m.natAbs : ℚ) * 2 ^ e) < 24 + e := by
    refine (Int.lt_zpow_iff_log_lt (by norm_num) ?_).mp (by exact_mod_cast hbelow)
    rw [← habs]
    exact abs_pos.mpr hq
  -- The significand is shifted up to the place of its last bit.
  obtain ⟨d, hd⟩ : ∃ d : ℕ, (d : ℤ) =
      e + (23 - max (Int.log 2 ((m.natAbs : ℚ) * 2 ^ e)) (-126)) :=
    ⟨_, Int.toNat_of_nonneg (by omega)⟩
  have hscaled : (m.natAbs : ℚ) * 2 ^ e * 2 ^
      (23 - max (Int.log 2 ((m.natAbs : ℚ) * 2 ^ e)) (-126)) = ((m.natAbs * 2 ^ d : ℕ) : ℚ) := by
    rw [mul_assoc, ← zpow_add₀ (by norm_num), ← hd]
    push_cast
    rfl
  have hback : ((m.natAbs * 2 ^ d : ℕ) : ℚ) * 2 ^
      (max (Int.log 2 ((m.natAbs : ℚ) * 2 ^ e)) (-126) - 23) = (m.natAbs : ℚ) * 2 ^ e := by
    rw [← hscaled, mul_assoc, ← zpow_add₀ (by norm_num)]
    simp
  have hfinite : (m.natAbs : ℚ) * 2 ^ e < 2 ^ 128 := by
    refine hbelow.trans_le ?_
    exact_mod_cast zpow_le_zpow_right₀ (by norm_num : (1 : ℚ) ≤ 2) (show 24 + e ≤ 128 by omega)
  rw [round, if_neg hq, habs]
  simp only [hscaled, roundEven_natCast, hback, if_neg (not_le.mpr hfinite)]
  refine congrArg finite ?_
  rw [← habs]
  split_ifs with hneg
  · rw [abs_of_neg hneg, neg_neg]
  · exact abs_of_nonneg (not_lt.mp hneg)

end Value

end Binary32

end AebNode
