import Mathlib.Data.Int.ModEq
import Mathlib.Data.Rat.Floor
import RouteScript.Value.Operators

/-!
# Operators between integers

The operators between two integers are the exact ones, carried back into 64 bits. Sums, differences,
products and shifts to the left agree with the exact result modulo `2 ^ 64`; remainders and shifts
to the right always fit. A shift counts its amount modulo 64, whatever its sign.
-/

namespace RouteScript

/-- `r` is what a division of `a` by `b` leaves, with the sign of `a`. -/
structure IsRemainder (a b r : Int) : Prop where
  dvd : b ∣ a - r
  small : |r| < |b|
  sign : r = 0 ∨ r.sign = a.sign

/-- The truncated remainder is a remainder. -/
theorem isRemainder_tmod (a : Int) {b : Int} (h : b ≠ 0) : IsRemainder a b (a.tmod b) where
  dvd := by
    rw [Int.tmod_def, sub_sub_cancel]
    exact Int.dvd_mul_right b _
  small := by
    rw [Int.abs_eq_natAbs, Int.abs_eq_natAbs, Int.natAbs_tmod, Int.ofNat_lt]
    exact Nat.mod_lt _ (Int.natAbs_pos.mpr h)
  sign := by
    by_cases hdvd : b ∣ a
    · exact .inl (Int.tmod_eq_zero_of_dvd hdvd)
    · exact .inr (by rw [Int.sign_tmod, if_neg hdvd])

namespace Value

/-- What the operator `op` gives for two integers is an integer with the property `P`. -/
def Yields (op : BinaryOp) (a b : Int64) (P : Int → Prop) : Prop :=
  ∃ r : Int64, binary op (.int a) (.int b) = .ok (.int r) ∧ P r.toInt

theorem bmod_modEq (x : Int) : x.bmod (2 ^ 64) ≡ x [ZMOD 2 ^ 64] := by
  have h : x.bmod (2 ^ 64) % (2 ^ 64 : Nat) = x % (2 ^ 64 : Nat) := Int.bmod_emod
  exact_mod_cast h

/-- The last six bits of a number are those of its lower half. -/
theorem toNat_shiftBits (n : Int64) :
    (n.toUInt64.toUInt32 &&& 63).toNat = (n.toInt % 64).toNat := by
  have hcond : n.toInt = _ := BitVec.toInt_eq_toNat_cond n.toBitVec
  have hbits : n.toUInt64.toNat = n.toBitVec.toNat := rfl
  rw [UInt32.toNat_and, UInt64.toNat_toUInt32, hbits]
  change _ &&& 2 ^ 6 - 1 = _
  rw [Nat.and_two_pow_sub_one_eq_mod]
  split at hcond <;> omega

/-- Of the amount of a shift its last six bits count. -/
theorem toInt_shiftAmount (n : Int64) : (shiftAmount n).toInt = n.toInt % 64 := by
  have hbits := toNat_shiftBits n
  have hcond : (shiftAmount n).toInt = _ := BitVec.toInt_eq_toNat_cond (shiftAmount n).toBitVec
  have hword : (shiftAmount n).toBitVec.toNat = (n.toUInt64.toUInt32 &&& 63).toNat :=
    UInt32.toNat_toUInt64 _
  split at hcond <;> omega

/-- A shift counts its amount in the places 0 to 63. -/
theorem toNat_smod (b : Int64) :
    ((shiftAmount b).toBitVec.smod 64).toNat = (b.toInt % 64).toNat := by
  have hvalue : ((shiftAmount b).toBitVec.smod 64).toInt = b.toInt % 64 := by
    rw [BitVec.toInt_smod]
    change Int.fmod (shiftAmount b).toInt 64 = _
    rw [toInt_shiftAmount, Int.fmod_eq_emod_of_nonneg _ (by decide), Int.emod_emod]
  have hcond := BitVec.toInt_eq_toNat_cond ((shiftAmount b).toBitVec.smod 64)
  have hlt := ((shiftAmount b).toBitVec.smod 64).isLt
  split at hcond <;> omega

/-- Shifting right is dividing by a power of two, rounded down. -/
theorem toInt_shiftRight (a b : Int64) :
    (a >>> shiftAmount b).toInt = ⌊(a.toInt : ℚ) / 2 ^ (b.toInt % 64).toNat⌋ := by
  have hfloor := Rat.floor_intCast_div_natCast a.toInt (2 ^ (b.toInt % 64).toNat)
  push_cast at hfloor
  rw [hfloor]
  change (a >>> shiftAmount b).toBitVec.toInt = a.toBitVec.toInt / _
  rw [Int64.toBitVec_shiftRight, BitVec.toInt_sshiftRight', toNat_smod, Int.shiftRight_eq_div_pow]
  norm_cast

/-- Shifting left is multiplying by a power of two, up to overflow. -/
theorem toInt_shiftLeft_modEq (a b : Int64) :
    (a <<< shiftAmount b).toInt ≡ a.toInt * 2 ^ (b.toInt % 64).toNat [ZMOD 2 ^ 64] := by
  have hword : (a.toBitVec.toNat : Int) ≡ a.toInt [ZMOD 2 ^ 64] := by
    change _ ≡ a.toBitVec.toInt [ZMOD 2 ^ 64]
    rw [BitVec.toInt_eq_toNat_bmod]
    exact (bmod_modEq _).symm
  have hshift : (a <<< shiftAmount b).toInt =
      (a.toBitVec.toNat * 2 ^ (b.toInt % 64).toNat : Int).bmod (2 ^ 64) := by
    change (a <<< shiftAmount b).toBitVec.toInt = _
    rw [Int64.toBitVec_shiftLeft, BitVec.shiftLeft_eq', BitVec.toInt_shiftLeft, toNat_smod,
      Nat.shiftLeft_eq]
    norm_cast
  rw [hshift]
  exact (bmod_modEq _).trans (hword.mul_right _)

/-- Every operator between integers gives the integer that the exact result is carried back to; a
remainder by zero, and nothing else, is refused. -/
theorem integer_operators_exact (a b : Int64) :
    Yields .add a b (· ≡ a.toInt + b.toInt [ZMOD 2 ^ 64]) ∧
    Yields .subtract a b (· ≡ a.toInt - b.toInt [ZMOD 2 ^ 64]) ∧
    Yields .multiply a b (· ≡ a.toInt * b.toInt [ZMOD 2 ^ 64]) ∧
    (binary .modulo (.int a) (.int b) = .error .divisionByZero ↔ b = 0) ∧
    (b ≠ 0 → Yields .modulo a b (IsRemainder a.toInt b.toInt)) ∧
    Yields .shiftLeft a b (· ≡ a.toInt * 2 ^ (b.toInt % 64).toNat [ZMOD 2 ^ 64]) ∧
    Yields .shiftRight a b (· = ⌊(a.toInt : ℚ) / 2 ^ (b.toInt % 64).toNat⌋) := by
  have hmodulo : binary .modulo (.int a) (.int b) =
      if b = 0 then .error .divisionByZero else .ok (.int (a % b)) := rfl
  refine ⟨⟨_, rfl, ?_⟩, ⟨_, rfl, ?_⟩, ⟨_, rfl, ?_⟩, ?_, fun hb => ⟨a % b, ?_, ?_⟩,
    ⟨_, rfl, toInt_shiftLeft_modEq a b⟩, ⟨_, rfl, toInt_shiftRight a b⟩⟩
  · rw [Int64.toInt_add]
    exact bmod_modEq _
  · rw [Int64.toInt_sub]
    exact bmod_modEq _
  · rw [Int64.toInt_mul]
    exact bmod_modEq _
  · rw [hmodulo]
    split <;> simp [*]
  · rw [hmodulo, if_neg hb]
  · rw [Int64.toInt_mod]
    exact isRemainder_tmod _ fun h => hb (Int64.toInt_inj.mp h)

/-- The least integer and minus one: the remainder is zero, and minus one shifts by 63 places. -/
theorem integer_operators_exact_least :
    let a := Int64.minValue
    (-1 : Int64) ≠ 0 ∧ Yields .modulo a (-1) (IsRemainder a.toInt (-1)) ∧
      binary .modulo (.int a) (.int (-1)) = .ok (.int 0) ∧
      Yields .shiftRight a (-1) (· = ⌊(a.toInt : ℚ) / 2 ^ 63⌋) := by
  obtain ⟨-, -, -, -, hmodulo, -, hright⟩ := integer_operators_exact Int64.minValue (-1)
  exact ⟨by decide, hmodulo (by decide), rfl, hright⟩

end Value

end RouteScript
