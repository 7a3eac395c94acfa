import AebNode.RpLidarDevice

/-! What binary32 denotes exactly, and that the readings of the sensor are of that kind: the
conversions of `grabScan` give a value the wire can carry for every node. -/
namespace AebNode

/-- The numbers that finite binary32 patterns denote. -/
def IsFloat (q : ℚ) : Prop :=
  ∃ bits : FloatBits, bits.toNat / 2 ^ 23 % 2 ^ 8 < 255 ∧ floatValue bits = q

theorem floatValue_fields {exponent mantissa : ℕ} (he : exponent < 255)
    (hm : mantissa < 2 ^ 23) :
    let bits : FloatBits := .ofNat (exponent * 2 ^ 23 + mantissa)
    bits.toNat / 2 ^ 23 % 2 ^ 8 = exponent ∧ floatValue bits =
      if exponent = 0 then (mantissa : ℚ) / 2 ^ 149
      else (2 ^ 23 + (mantissa : ℚ)) * 2 ^ exponent / 2 ^ 150 := by
  intro bits
  have hbits : bits.toNat = exponent * 2 ^ 23 + mantissa := by
    rw [UInt32.toNat_ofNat', Nat.mod_eq_of_lt (by omega)]
  have hexponent : bits.toNat / 2 ^ 23 % 2 ^ 8 = exponent := by omega
  have hmantissa : bits.toNat % 2 ^ 23 = mantissa := by omega
  have hsign : bits.toNat / 2 ^ 31 = 0 := by omega
  refine ⟨hexponent, ?_⟩
  simp only [floatValue, hexponent, hmantissa, hsign, if_true]

/-- A significand of 24 bits over the range of the exponent is exact, subnormals included. -/
theorem isFloat_of_significand {m k : ℕ} (hm : m < 2 ^ 24) (hk : k < 254) :
    IsFloat (m * 2 ^ k / 2 ^ 149) := by
  rcases Nat.eq_zero_or_pos m with rfl | hpos
  · refine ⟨0, by decide, ?_⟩
    simp [floatValue]
  have hlog : m.log2 ≤ 23 := by
    have := (Nat.log2_lt hpos.ne').mpr hm
    omega
  have hlow : 2 ^ m.log2 ≤ m := Nat.log2_self_le hpos.ne'
  have hhigh : m < 2 ^ (m.log2 + 1) := Nat.lt_log2_self
  by_cases hshift : 23 - m.log2 ≤ k
  · -- Normalised, the leading bit is bit 23.
    have hsplit : 2 ^ (23 - m.log2) * 2 ^ m.log2 = 2 ^ 23 := by
      rw [← pow_add, Nat.sub_add_cancel hlog]
    have hsplit' : 2 ^ (23 - m.log2) * 2 ^ (m.log2 + 1) = 2 ^ 24 := by
      rw [← pow_add, ← Nat.add_assoc, Nat.sub_add_cancel hlog]
    have hle : 2 ^ 23 ≤ 2 ^ (23 - m.log2) * m := hsplit ▸ Nat.mul_le_mul_left _ hlow
    have hlt : 2 ^ (23 - m.log2) * m < 2 ^ 24 :=
      hsplit' ▸ Nat.mul_lt_mul_of_pos_left hhigh (Nat.two_pow_pos _)
    rcases @floatValue_fields (k - (23 - m.log2) + 1) (2 ^ (23 - m.log2) * m - 2 ^ 23)
      (by omega) (by omega) with ⟨hexponent, hvalue⟩
    refine ⟨_, hexponent.trans_lt (by omega), hvalue.trans ?_⟩
    have hsig : (2 : ℚ) ^ 23 + ((2 ^ (23 - m.log2) * m - 2 ^ 23 : ℕ) : ℚ) =
        2 ^ (23 - m.log2) * m := by
      rw [Nat.cast_sub hle]
      push_cast
      ring
    have hpow : (2 : ℚ) ^ (23 - m.log2) * 2 ^ (k - (23 - m.log2) + 1) = 2 ^ k * 2 := by
      rw [← pow_add, ← pow_succ]
      congr 1
      omega
    rw [if_neg (Nat.succ_ne_zero _), hsig]
    calc (2 : ℚ) ^ (23 - m.log2) * (m : ℚ) * 2 ^ (k - (23 - m.log2) + 1) / 2 ^ 150
        = (m : ℚ) * (2 ^ (23 - m.log2) * 2 ^ (k - (23 - m.log2) + 1)) / 2 ^ 150 := by ring
      _ = (m : ℚ) * 2 ^ k / 2 ^ 149 := by rw [hpow]; ring
  · have hsmall : m * 2 ^ k < 2 ^ 23 := by
      calc m * 2 ^ k < 2 ^ (m.log2 + 1) * 2 ^ k :=
            Nat.mul_lt_mul_of_pos_right hhigh (Nat.two_pow_pos _)
        _ = 2 ^ (m.log2 + 1 + k) := (pow_add _ _ _).symm
        _ ≤ 2 ^ 23 := Nat.pow_le_pow_right (by decide) (by omega)
    rcases @floatValue_fields 0 (m * 2 ^ k) (by decide) hsmall with ⟨hexponent, hvalue⟩
    refine ⟨_, hexponent.trans_lt (by decide), hvalue.trans ?_⟩
    simp

theorem roundToFloat_of_lt {n : ℕ} (hn : n < 2 ^ 24) : roundToFloat n = n := by
  have hlog : n.log2 - 23 = 0 := by
    rcases Nat.eq_zero_or_pos n with rfl | hpos
    · rfl
    · have := (Nat.log2_lt hpos.ne').mpr hn
      omega
  simp [roundToFloat, hlog, Nat.mod_one]

/-- The conversion leaves 24 bits before a power of two. -/
theorem roundToFloat_significand {n : ℕ} (hn : n < 2 ^ 32) :
    ∃ m k, m < 2 ^ 24 ∧ k ≤ 9 ∧ roundToFloat n = m * 2 ^ k := by
  by_cases hsmall : n < 2 ^ 24
  · exact ⟨n, 0, hsmall, by omega, by simp [roundToFloat_of_lt hsmall]⟩
  have hpos : n ≠ 0 := by omega
  have hlog : n.log2 - 23 ≤ 8 := by
    have := (Nat.log2_lt hpos).mpr hn
    omega
  have hlarge : 23 ≤ n.log2 := by
    have := (Nat.le_log2 hpos).mpr (show 2 ^ 23 ≤ n by omega)
    omega
  have hquotient : n / 2 ^ (n.log2 - 23) < 2 ^ 24 := by
    rw [Nat.div_lt_iff_lt_mul (Nat.two_pow_pos _), ← pow_add,
      show 24 + (n.log2 - 23) = n.log2 + 1 by omega]
    exact Nat.lt_log2_self
  simp only [roundToFloat]
  split_ifs
  · by_cases htop : n / 2 ^ (n.log2 - 23) + 1 < 2 ^ 24
    · exact ⟨_, _, htop, by omega, rfl⟩
    · -- The carry out of the top bit.
      refine ⟨2 ^ 23, n.log2 - 23 + 1, by decide, by omega, ?_⟩
      rw [show n / 2 ^ (n.log2 - 23) + 1 = 2 ^ 24 by omega, pow_succ]
      ring
  · exact ⟨_, _, hquotient, by omega, rfl⟩

theorem toDegrees_isFloat (angleZQ14 : UInt16) : IsFloat (toDegrees angleZQ14) := by
  have hlt := angleZQ14.toNat_lt
  have hfloat := @isFloat_of_significand (angleZQ14.toNat * 90) 135 (by omega) (by decide)
  rw [toDegrees, roundToFloat_of_lt (by omega)]
  convert hfloat using 1
  push_cast
  ring

theorem toMillimetres_isFloat (distMmQ2 : UInt32) : IsFloat (toMillimetres distMmQ2) := by
  rcases roundToFloat_significand distMmQ2.toNat_lt with ⟨m, k, hm, hk, hround⟩
  have hfloat := @isFloat_of_significand m (147 + k) hm (by omega)
  rw [toMillimetres, hround]
  convert hfloat using 1
  rw [pow_add]
  push_cast
  ring

def ScanPoint.IsExact (p : ScanPoint ℚ) : Prop := IsFloat p.angleDeg ∧ IsFloat p.distanceMm

theorem Revolution.points_exact {revolution : Revolution} {p : ScanPoint ℚ}
    (h : p ∈ revolution.points) : p.IsExact := by
  obtain ⟨node, -, rfl⟩ := List.mem_map.mp h
  exact ⟨toDegrees_isFloat _, toMillimetres_isFloat _⟩

theorem exists_bits_of_exact {frame : ScanFrame ℚ} (h : ∀ p ∈ frame.points, p.IsExact) :
    ∃ bits : ScanFrame FloatBits, bits.map floatValue = frame := by
  have hpoint : frame.points ∈ Set.range (List.map (ScanPoint.map floatValue)) := by
    rw [Set.range_list_map]
    intro p hp
    rcases h p hp with ⟨⟨angle, -, hangle⟩, distance, -, hdistance⟩
    exact ⟨⟨angle, distance, p.quality⟩, by simp [ScanPoint.map, hangle, hdistance]⟩
  rcases hpoint with ⟨points, hpoints⟩
  exact ⟨⟨frame.sequence, frame.timestampUs, points⟩, by simp [ScanFrame.map, hpoints]⟩

end AebNode
