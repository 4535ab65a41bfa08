import Mathlib
import RouteScript.Decimal.Dyadic

/-!
# Integers as doubles

The double nearest to an integer stands for an integer again: the nearest one that has 53
significant bits, ties to even. So the order of such doubles is the order of the rounded integers,
in exact arithmetic. Rounding never turns the order of two integers around, but it can make them
equal; up to `2 ^ 53` in size it changes nothing.
-/

namespace RouteScript.Decimal

/-! ## Rounding -/

section Rounding

variable {a b n d : Nat} {tie : Tie}

theorem roundDiv_one (tie : Tie) (n : Nat) : roundDiv tie n 1 = n := by
  simp [roundDiv, Nat.mod_one]

theorem div_le_roundDiv (tie : Tie) (n d : Nat) : n / d ≤ roundDiv tie n d := by
  simp only [roundDiv]
  split_ifs <;> omega

theorem roundDiv_le (tie : Tie) (n d : Nat) : roundDiv tie n d ≤ n / d + 1 := by
  simp only [roundDiv]
  split_ifs <;> omega

/-- Rounding the quotient keeps the order, whichever way ties go. -/
theorem roundDiv_mono (h : a ≤ b) : roundDiv tie a d ≤ roundDiv tie b d := by
  rcases Nat.lt_or_ge (a / d) (b / d) with hlt | hge
  · exact Nat.le_trans (roundDiv_le tie a d) (Nat.le_trans hlt (div_le_roundDiv tie b d))
  · -- within one quotient the greater remainder decides
    have hquotient : a / d = b / d := Nat.le_antisymm (Nat.div_le_div_right h) hge
    have hremainder : a % d ≤ b % d := by
      have ha := Nat.div_add_mod a d
      have hb := Nat.div_add_mod b d
      rw [hquotient] at ha
      omega
    simp only [roundDiv, hquotient]
    split_ifs <;> omega

/-- The number with 53 significant bits that is nearest to `n`, ties to even. -/
def roundedNat (n : Nat) : Nat :=
  roundDiv .even n (2 ^ (n.log2 - 52)) * 2 ^ (n.log2 - 52)

theorem roundedNat_of_log2_le (h : n.log2 ≤ 52) : roundedNat n = n := by
  rw [roundedNat, Nat.sub_eq_zero_of_le h, Nat.pow_zero, roundDiv_one, Nat.mul_one]

/-- Up to `2 ^ 53` every natural number is a double. -/
theorem roundedNat_of_le (h : n ≤ 2 ^ 53) : roundedNat n = n := by
  rcases Nat.lt_or_eq_of_le h with hlt | rfl
  · refine roundedNat_of_log2_le ?_
    rcases Nat.eq_zero_or_pos n with rfl | hpos
    · decide
    · exact Nat.le_of_lt_succ ((Nat.log2_lt (Nat.ne_of_gt hpos)).mpr hlt)
  · decide +kernel

/-- The rounded quotient has 53 bits, or it is the first number with one bit more. -/
theorem roundDiv_bounds {k : Nat} (hn : n ≠ 0) (hlog : n.log2 = 52 + k) :
    2 ^ 52 ≤ roundDiv .even n (2 ^ k) ∧ roundDiv .even n (2 ^ k) ≤ 2 ^ 53 := by
  have hlow : 2 ^ 52 * 2 ^ k ≤ n := by
    rw [← Nat.pow_add, ← hlog]
    exact Nat.log2_self_le hn
  have hhigh : n < 2 ^ 53 * 2 ^ k := by
    have h := Nat.lt_log2_self (n := n)
    rwa [hlog, show 52 + k + 1 = 53 + k by omega, Nat.pow_add] at h
  have hquotient := (Nat.le_div_iff_mul_le (Nat.two_pow_pos k)).mpr hlow
  have hquotient' := (Nat.div_lt_iff_lt_mul (Nat.two_pow_pos k)).mpr hhigh
  exact ⟨Nat.le_trans hquotient (div_le_roundDiv _ _ _),
    Nat.le_trans (roundDiv_le _ _ _) hquotient'⟩

/-- Rounding does not leave the range between two powers of two, its upper end included. -/
theorem roundedNat_bounds (hn : n ≠ 0) :
    2 ^ n.log2 ≤ roundedNat n ∧ roundedNat n ≤ 2 ^ (n.log2 + 1) := by
  rcases Nat.le_total n.log2 52 with hle | hge
  · rw [roundedNat_of_log2_le hle]
    exact ⟨Nat.log2_self_le hn, Nat.le_of_lt Nat.lt_log2_self⟩
  · obtain ⟨k, hk⟩ := Nat.exists_eq_add_of_le hge
    obtain ⟨hlow, hhigh⟩ := roundDiv_bounds hn hk
    rw [roundedNat, hk, Nat.add_sub_cancel_left, show 52 + k + 1 = 53 + k by omega, Nat.pow_add,
      Nat.pow_add]
    exact ⟨Nat.mul_le_mul_right _ hlow, Nat.mul_le_mul_right _ hhigh⟩

/-- Rounding to a double keeps the order. -/
theorem roundedNat_mono (h : a ≤ b) : roundedNat a ≤ roundedNat b := by
  rcases Nat.eq_zero_or_pos a with rfl | ha
  · exact Nat.zero_le _
  · have ha : a ≠ 0 := Nat.ne_of_gt ha
    have hb : b ≠ 0 := by omega
    have hlog : a.log2 ≤ b.log2 := (Nat.le_log2 hb).mpr (Nat.le_trans (Nat.log2_self_le ha) h)
    rcases Nat.lt_or_eq_of_le hlog with hlt | heq
    · -- a power of two lies between the two
      calc roundedNat a ≤ 2 ^ (a.log2 + 1) := (roundedNat_bounds ha).2
        _ ≤ 2 ^ b.log2 := Nat.pow_le_pow_right (by decide) hlt
        _ ≤ roundedNat b := (roundedNat_bounds hb).1
    · rw [roundedNat, roundedNat, heq]
      exact Nat.mul_le_mul_right _ (roundDiv_mono h)

/-- The integer with 53 significant bits that is nearest to `z`, ties to even. -/
def roundedInt (z : Int) : Int := z.sign * roundedNat z.natAbs

/-- Integers of up to `2 ^ 53` in size are doubles. -/
theorem roundedInt_of_natAbs_le {z : Int} (h : z.natAbs ≤ 2 ^ 53) : roundedInt z = z := by
  rw [roundedInt, roundedNat_of_le h, Int.sign_mul_natAbs]

theorem roundedInt_of_nonneg {z : Int} (h : 0 ≤ z) : roundedInt z = roundedNat z.natAbs := by
  rcases Int.lt_or_eq_of_le h with hpos | rfl
  · rw [roundedInt, Int.sign_eq_one_of_pos hpos, Int.one_mul]
  · rfl

theorem roundedInt_of_neg {z : Int} (h : z < 0) : roundedInt z = -roundedNat z.natAbs := by
  rw [roundedInt, Int.sign_eq_neg_one_of_neg h, Int.neg_one_mul]

theorem roundedInt_mono {x y : Int} (h : x ≤ y) : roundedInt x ≤ roundedInt y := by
  rcases Int.lt_or_le x 0 with hx | hx
  · rw [roundedInt_of_neg hx]
    rcases Int.lt_or_le y 0 with hy | hy
    · have := roundedNat_mono (a := y.natAbs) (b := x.natAbs) (by omega)
      rw [roundedInt_of_neg hy]
      omega
    · rw [roundedInt_of_nonneg hy]
      omega
  · have := roundedNat_mono (a := x.natAbs) (b := y.natAbs) (by omega)
    rw [roundedInt_of_nonneg hx, roundedInt_of_nonneg (Int.le_trans hx h)]
    omega

/-- Rounding hides the order of two integers only where it makes them equal, and only beyond
`2 ^ 53`. -/
theorem roundedInt_eq_of_lt {x y : Int} (hlt : x < y) (hle : roundedInt y ≤ roundedInt x) :
    roundedInt y = roundedInt x ∧ (2 ^ 53 < x.natAbs ∨ 2 ^ 53 < y.natAbs) := by
  refine ⟨Int.le_antisymm hle (roundedInt_mono (Int.le_of_lt hlt)), ?_⟩
  by_contra hsmall
  rw [not_or, Nat.not_lt, Nat.not_lt] at hsmall
  rw [roundedInt_of_natAbs_le hsmall.1, roundedInt_of_natAbs_le hsmall.2] at hle
  omega

end Rounding

/-! ## What an unpacked double stands for -/

open Float.Model
open Float.Model.UnpackedFloat hiding round

/-- The double stands for the integer: it is a zero, or a normal number of that value. -/
inductive Denotes : UnpackedFloat → Int → Prop
  | zero (s : Sign) : Denotes (.zero s) 0
  | finite {m k n : Nat} (s : Sign) (hm : 0 < m) (hlow : 2 ^ 52 ≤ m) (hhigh : m < 2 ^ 53)
      (hk : k < 1024) (hvalue : m * 2 ^ k = n * 2 ^ 52) :
      Denotes (.finite s m (k - 52) hm) (s.apply n)

/-- The bits shifted out of a mantissa are kept as far as rounding needs them. -/
theorem shiftRight_exact (n k : Nat) :
    (⟨n, false, false⟩ : ExtendedMantissa) >>> k =
      ⟨n / 2 ^ k, decide (2 ^ k ≤ 2 * (n % 2 ^ k)),
        decide (n % 2 ^ k ≠ 0 ∧ 2 * (n % 2 ^ k) ≠ 2 ^ k)⟩ := by
  induction k with
  | zero => simp [HShiftRight.hShiftRight, Nat.repeat, Nat.mod_one]
  | succ k ih =>
    change ((⟨n, false, false⟩ : ExtendedMantissa) >>> k).shiftRightOne = _
    have hr : n % 2 ^ k < 2 ^ k := Nat.mod_lt _ (Nat.two_pow_pos k)
    rw [ih, ExtendedMantissa.shiftRightOne, Nat.mod_pow_succ, Nat.pow_succ,
      ← Nat.div_div_eq_div_mul]
    simp only [ExtendedMantissa.mk.injEq, true_and]
    generalize n % 2 ^ k = r, 2 ^ k = p at hr ⊢
    rcases Nat.mod_two_eq_zero_or_one (n / p) with hbit | hbit <;> rw [hbit] <;> grind

/-- The mantissa that is left after a shift is the quotient rounded to even. -/
theorem roundedMantissa_shiftRight (n k : Nat) :
    ((⟨n, false, false⟩ : ExtendedMantissa) >>> k).roundedMantissa = roundDiv .even n (2 ^ k) := by
  have hr : n % 2 ^ k < 2 ^ k := Nat.mod_lt _ (Nat.two_pow_pos k)
  rw [shiftRight_exact, ExtendedMantissa.roundedMantissa, roundDiv]
  generalize n / 2 ^ k = q, n % 2 ^ k = r, 2 ^ k = p at hr ⊢
  simp only [ExtendedMantissa.accuracy, Accuracy.roundToNearestEven]
  rcases Nat.lt_trichotomy (2 * r) p with hbelow | hhalf | habove <;> grind

/-- Away from the subnormal range the target exponent leaves 53 bits of mantissa. -/
theorem targetExponent_eq {m : Nat} {e : Int} (h : -1022 ≤ m.log2 + e) :
    Format.binary64.targetExponent (totalExponent m e) = m.log2 + e - 52 := by
  simp only [Format.targetExponent, totalExponent, Format.mantissaBits, Format.minExponent]
  omega

theorem shiftToTargetExponent_eq {m k : Nat} {e : Int} (hlog : m.log2 = 52 + k) (he : -1074 ≤ e) :
    shiftToTargetExponent Format.binary64 m e .exact =
      ((⟨m, false, false⟩ : ExtendedMantissa) >>> k, e + k) := by
  have htarget : Format.binary64.targetExponent (totalExponent m e) = e + k := by
    rw [targetExponent_eq (by omega)]
    omega
  have hshift : (e + k - e).toNat = k := by omega
  rw [shiftToTargetExponent, shiftToExponent, htarget, hshift]
  rfl

/-- A mantissa of at least 53 bits is rounded to 53 bits. One more bit comes and goes where the
rounded mantissa overflows. -/
theorem roundWithAccuracy_exact {m k : Nat} {e : Int} (hm : m ≠ 0) (hlog : m.log2 = 52 + k)
    (he : -1074 ≤ e) (s : Sign) :
    ∃ j : Nat, j ≤ 1 ∧ ∃ r, ∃ hr : 0 < r,
      roundWithAccuracy Format.binary64 s m e .exact = .finite s r (e + k + j) hr ∧
      2 ^ 52 ≤ r ∧ r < 2 ^ 53 ∧ r * 2 ^ j = roundDiv .even m (2 ^ k) := by
  obtain ⟨hlow, hhigh⟩ := roundDiv_bounds hm hlog
  generalize hq : roundDiv .even m (2 ^ k) = q at hlow hhigh ⊢
  obtain ⟨j, hj, r, hr, hlog', hvalue⟩ : ∃ j : Nat, j ≤ 1 ∧ ∃ r, (2 ^ 52 ≤ r ∧ r < 2 ^ 53) ∧
      q.log2 = 52 + j ∧ r * 2 ^ j = q := by
    rcases Nat.lt_or_eq_of_le hhigh with hlt | heq
    · have hlog' : q.log2 = 52 + 0 := (Nat.log2_eq_iff (by omega)).mpr ⟨hlow, hlt⟩
      exact ⟨0, by decide, q, ⟨hlow, hlt⟩, hlog', Nat.mul_one q⟩
    · exact ⟨1, by decide, 2 ^ 52, by decide, by rw [heq, Nat.log2_two_pow], heq.symm⟩
  have hmantissa : ((⟨q, false, false⟩ : ExtendedMantissa) >>> j).mantissa = r := by
    rw [shiftRight_exact]
    exact Nat.div_eq_of_eq_mul_left (Nat.two_pow_pos j) hvalue.symm
  refine ⟨j, hj, r, by omega, ?_, hr.1, hr.2, hvalue⟩
  simp only [roundWithAccuracy, shiftToTargetExponent_eq hlog he, roundedMantissa_shiftRight, hq,
    shiftToTargetExponent_eq hlog' (show -1074 ≤ e + k by omega), hmantissa]
  rw [dif_neg (by omega)]

theorem log2_mul_two_pow {n : Nat} (hn : n ≠ 0) (k : Nat) : (n * 2 ^ k).log2 = n.log2 + k := by
  refine (Nat.log2_eq_iff (by simp [hn])).mpr ⟨?_, ?_⟩
  · rw [Nat.pow_add]
    exact Nat.mul_le_mul_right _ (Nat.log2_self_le hn)
  · rw [Nat.add_right_comm, Nat.pow_add]
    exact Nat.mul_lt_mul_of_pos_right Nat.lt_log2_self (Nat.two_pow_pos k)

/-- A positive number is rounded to a double that stands for the rounded number. -/
theorem denotes_round {n : Nat} (hn : n ≠ 0) (hlog : n.log2 < 1023) (s : Sign) :
    Denotes (UnpackedFloat.round Format.binary64 s n 0) (s.apply (roundedNat n)) := by
  have htarget := targetExponent_eq (m := n) (e := 0) (by omega)
  simp only [UnpackedFloat.round, decreaseExponent, htarget]
  rcases Nat.le_total n.log2 52 with hle | hge
  · -- the mantissa is moved up to 53 bits, and there is nothing to round
    obtain ⟨k, hk⟩ := Nat.exists_eq_add_of_le hle
    have hshift : ((0 : Int) - (n.log2 + 0 - 52)).toNat = k := by omega
    rw [hshift, Nat.shiftLeft_eq]
    have hlog' : (n * 2 ^ k).log2 = 52 + 0 := by rw [log2_mul_two_pow hn, ← hk]
    obtain ⟨j, hj, r, hr, hround, hlow, hhigh, hvalue⟩ :=
      roundWithAccuracy_exact (e := 0 - k) (by simp [hn]) hlog' (by omega) s
    rw [Nat.pow_zero, roundDiv_one] at hvalue
    have hexponent : (0 - k + (0 : Nat) + j : Int) = (n.log2 + j : Nat) - 52 := by omega
    rw [hround, hexponent, roundedNat_of_log2_le hle]
    refine .finite s hr hlow hhigh (by omega) ?_
    calc r * 2 ^ (n.log2 + j) = r * 2 ^ j * 2 ^ n.log2 := by ring
      _ = n * 2 ^ (n.log2 + k) := by rw [hvalue]; ring
      _ = n * 2 ^ 52 := by rw [← hk]
  · obtain ⟨k, hk⟩ := Nat.exists_eq_add_of_le hge
    have hshift : ((0 : Int) - (n.log2 + 0 - 52)).toNat = 0 := by omega
    rw [hshift]
    obtain ⟨j, hj, r, hr, hround, hlow, hhigh, hvalue⟩ :=
      roundWithAccuracy_exact (e := 0) hn hk (by omega) s
    have hexponent : (0 + k + j : Int) = (n.log2 + j : Nat) - 52 := by omega
    rw [Nat.shiftLeft_zero, Int.natCast_zero, Int.sub_zero, hround, hexponent]
    refine .finite s hr hlow hhigh (by omega) ?_
    calc r * 2 ^ (n.log2 + j) = r * 2 ^ j * 2 ^ (52 + k) := by rw [← hk]; ring
      _ = roundDiv .even n (2 ^ k) * 2 ^ k * 2 ^ 52 := by rw [hvalue]; ring
      _ = roundedNat n * 2 ^ 52 := by rw [roundedNat, hk, Nat.add_sub_cancel_left]

theorem Denotes.neg {x : UnpackedFloat} {z : Int} (h : Denotes x z) : Denotes x.neg (-z) := by
  cases h with
  | zero s => exact .zero (-s)
  | finite s hm hlow hhigh hk hvalue =>
    cases s with
    | negative =>
      rw [Sign.apply, Int.neg_neg]
      exact .finite .positive hm hlow hhigh hk hvalue
    | positive => exact .finite .negative hm hlow hhigh hk hvalue

/-! ## Packing and the order -/

/-- The leading bit, which is not stored, is put back. -/
theorem toNat_one_append {m : Nat} (hlow : 2 ^ 52 ≤ m) (hhigh : m < 2 ^ 53) :
    (1#1 ++ BitVec.ofNat 52 m).toNat = m := by
  rw [BitVec.toNat_append, ← Nat.shiftLeft_add_eq_or_of_lt (BitVec.isLt _), BitVec.toNat_ofNat,
    BitVec.toNat_ofNat, Nat.shiftLeft_eq]
  omega

/-- The stored exponent of a normal number is neither of the two that are reserved. -/
theorem stored_exponent {k : Nat} (hk : k < 1024) :
    (BitVec.ofNat 11 (k + 1023)).toNat = k + 1023 ∧
      BitVec.ofNat 11 (k + 1023) ≠ 0#11 ∧ BitVec.ofNat 11 (k + 1023) ≠ -1#11 := by
  have hexponent : (BitVec.ofNat 11 (k + 1023)).toNat = k + 1023 := by
    rw [BitVec.toNat_ofNat, Nat.mod_eq_of_lt (by omega)]
  refine ⟨hexponent, ?_, ?_⟩ <;> intro h <;> rw [h] at hexponent
  · exact absurd hexponent (by simp)
  · have hones : (-1#11).toNat = 2047 := rfl
    omega

/-- A double that denotes an integer is normal, so that packing it loses nothing. -/
theorem Denotes.unpack_pack {x : UnpackedFloat} {z : Int} (h : Denotes x z) :
    (Float.Model.pack x).unpack = x := by
  cases h with
  | zero s => exact unpack_packedZero
  | @finite m k n s hm hlow hhigh hk hvalue =>
    have hlog : m.log2 + 1 = Format.binary64.mantissaBits := by
      rw [(Nat.log2_eq_iff (by omega)).mpr ⟨hlow, hhigh⟩]
      rfl
    have hbias : Format.binary64.exponentBias = 1023 := rfl
    have hbiased : ((k : Int) - 52 + (1023 : Nat) + (52 : Nat)).toNat = k + 1023 := by omega
    obtain ⟨hexponent, hzero, hones⟩ := stored_exponent hk
    simp only [Float.Model.unpack, Float.Model.pack, UnpackedFloat.pack, hbias, hbiased]
    rw [if_neg (by simp; omega), if_pos hlog]
    have hunbiased : ((k + 1023 : Nat) : Int) - ((1023 : Nat) + (52 : Nat)) = k - 52 := by omega
    simp only [UnpackedFloat.unpack, unpackExponent_packComponents, unpackMantissa_packComponents,
      unpackSign_packComponents, Sign.ofBitVec_toBitVec, hbias, hexponent, if_neg hzero,
      if_neg hones, toNat_one_append hlow hhigh, hunbiased]

/-- Of two full mantissas the one with the larger exponent is larger. -/
theorem mul_two_pow_lt {m₁ m₂ k₁ k₂ : Nat} (h₁ : m₁ < 2 ^ 53) (h₂ : 2 ^ 52 ≤ m₂) (hk : k₁ < k₂) :
    m₁ * 2 ^ k₁ < m₂ * 2 ^ k₂ := by
  calc m₁ * 2 ^ k₁ < 2 ^ 53 * 2 ^ k₁ := Nat.mul_lt_mul_of_pos_right h₁ (Nat.two_pow_pos k₁)
    _ = 2 ^ 52 * 2 ^ (k₁ + 1) := by ring
    _ ≤ 2 ^ 52 * 2 ^ k₂ := Nat.mul_le_mul_left _ (Nat.pow_le_pow_right (by decide) hk)
    _ ≤ m₂ * 2 ^ k₂ := Nat.mul_le_mul_right _ h₂

/-- Doubles with full mantissas compare by exponent first and by mantissa then. -/
theorem mul_two_pow_lt_iff {m₁ m₂ k₁ k₂ : Nat} (h₁ : 2 ^ 52 ≤ m₁) (h₁' : m₁ < 2 ^ 53)
    (h₂ : 2 ^ 52 ≤ m₂) (h₂' : m₂ < 2 ^ 53) :
    m₁ * 2 ^ k₁ < m₂ * 2 ^ k₂ ↔ k₁ < k₂ ∨ k₁ = k₂ ∧ m₁ < m₂ := by
  rcases Nat.lt_trichotomy k₁ k₂ with hlt | rfl | hgt
  · simp [hlt, mul_two_pow_lt h₁' h₂ hlt]
  · simp [Nat.mul_lt_mul_right (Nat.two_pow_pos k₁)]
  · have := mul_two_pow_lt h₂' h₁ hgt
    omega

/-- Normal numbers are compared by exponent first. -/
theorem compare_then_eq_lt {m₁ m₂ k₁ k₂ n₁ n₂ : Nat} (h₁ : 2 ^ 52 ≤ m₁) (h₁' : m₁ < 2 ^ 53)
    (h₂ : 2 ^ 52 ≤ m₂) (h₂' : m₂ < 2 ^ 53) (hv₁ : m₁ * 2 ^ k₁ = n₁ * 2 ^ 52)
    (hv₂ : m₂ * 2 ^ k₂ = n₂ * 2 ^ 52) :
    (compare ((k₁ : Int) - 52) (k₂ - 52)).then (compare m₁ m₂) = .lt ↔ n₁ < n₂ := by
  have hiff : n₁ * 2 ^ 52 < n₂ * 2 ^ 52 ↔ k₁ < k₂ ∨ k₁ = k₂ ∧ m₁ < m₂ := by
    rw [← hv₁, ← hv₂]
    exact mul_two_pow_lt_iff h₁ h₁' h₂ h₂'
  rw [Ordering.then_eq_lt, Int.compare_eq_lt, Int.compare_eq_eq, Nat.compare_eq_lt]
  omega

theorem pos_of_mul_two_pow {m k n : Nat} (hm : 0 < m) (h : m * 2 ^ k = n * 2 ^ 52) : 0 < n := by
  have := Nat.mul_pos hm (Nat.two_pow_pos k)
  omega

/-- Doubles that denote integers compare as these do. -/
theorem Denotes.lt_iff {x y : UnpackedFloat} {a b : Int} (hx : Denotes x a) (hy : Denotes y b) :
    x.lt y = true ↔ a < b := by
  rw [UnpackedFloat.lt, beq_iff_eq]
  cases hx with
  | zero s =>
    cases hy with
    | zero t => simp [UnpackedFloat.compare]
    | finite t hm hlow hhigh hk hvalue =>
      have hn := pos_of_mul_two_pow hm hvalue
      cases t <;> simp only [UnpackedFloat.compare, Sign.apply, Option.some_inj, reduceCtorEq,
        true_iff, false_iff] <;> omega
  | finite s hm hlow hhigh hk hvalue =>
    have hn := pos_of_mul_two_pow hm hvalue
    cases hy with
    | zero t =>
      cases s <;> simp only [UnpackedFloat.compare, Sign.apply, Option.some_inj, reduceCtorEq,
        true_iff, false_iff] <;> omega
    | finite t hm' hlow' hhigh' hk' hvalue' =>
      have hn' := pos_of_mul_two_pow hm' hvalue'
      cases s with
      | negative =>
        cases t with
        | negative =>
          -- of two negative numbers the greater one has the smaller size
          rw [UnpackedFloat.compare, Option.some_inj, Ordering.swap_then, Int.compare_swap,
            Nat.compare_swap, compare_then_eq_lt hlow' hhigh' hlow hhigh hvalue' hvalue]
          simp only [Sign.apply]
          omega
        | positive =>
          simp only [UnpackedFloat.compare, Sign.apply, true_iff]
          omega
      | positive =>
        cases t with
        | negative =>
          simp only [UnpackedFloat.compare, Sign.apply, Option.some_inj, reduceCtorEq, false_iff]
          omega
        | positive =>
          rw [UnpackedFloat.compare, Option.some_inj,
            compare_then_eq_lt hlow hhigh hlow' hhigh' hvalue hvalue']
          simp only [Sign.apply]
          omega

/-- A natural number within range becomes the double that denotes its rounding. -/
theorem denotes_ofNat {n : Nat} (hlog : n.log2 < 1023) :
    Denotes (UnpackedFloat.ofNat Format.binary64 n) (roundedNat n) := by
  rcases Nat.eq_zero_or_pos n with rfl | hpos
  · exact .zero .positive
  · have hgt : compare (n : Int) 0 = .gt := Int.compare_eq_gt.mpr (by omega)
    simp only [UnpackedFloat.ofNat, UnpackedFloat.ofInt, UnpackedFloat.normalize, hgt,
      Int.toNat_natCast]
    exact denotes_round (by omega) hlog .positive

theorem denotes_toFloat (n : UInt64) : Denotes n.toFloat.toModel.unpack (roundedNat n.toNat) := by
  have hlog : n.toNat.log2 < 1023 := by
    rcases Nat.eq_zero_or_pos n.toNat with hzero | hpos
    · rw [hzero]
      decide
    · exact Nat.lt_trans ((Nat.log2_lt (Nat.ne_of_gt hpos)).mpr n.toNat_lt) (by decide)
  have h : Denotes (UnpackedFloat.ofNat Format.binary64 n.toNat) (roundedNat n.toNat) :=
    denotes_ofNat hlog
  change Denotes (Float.Model.pack (UnpackedFloat.ofNat Format.binary64 n.toNat)).unpack _
  rwa [h.unpack_pack]

theorem toNat_toUInt64_of_nonneg {n : Int64} (h : 0 ≤ n.toInt) :
    n.toUInt64.toNat = n.toInt.natAbs := by
  rw [← Int64.toInt_toBitVec] at h ⊢
  change n.toBitVec.toNat = _
  have := BitVec.toInt_eq_toNat_cond n.toBitVec
  have := n.toBitVec.isLt
  split_ifs at * <;> omega

/-- The least integer has no positive counterpart, but its size is read off the same bits. -/
theorem toNat_toUInt64_neg {n : Int64} (h : n.toInt < 0) :
    (-n).toUInt64.toNat = n.toInt.natAbs := by
  rw [← Int64.toInt_toBitVec] at h ⊢
  change (-n.toBitVec).toNat = _
  have := BitVec.toInt_eq_toNat_cond n.toBitVec
  have := n.toBitVec.isLt
  rw [BitVec.toNat_neg]
  split_ifs at * <;> omega

/-- The double of a whole number denotes its rounding, the sign included. -/
theorem denotes_ofInt64 (n : Int64) : Denotes (ofInt64 n).toModel.unpack (roundedInt n.toInt) := by
  rw [ofInt64]
  split_ifs with hneg <;> rw [Int64.lt_iff_toInt_lt, Int64.toInt_zero] at hneg
  · rw [roundedInt_of_neg hneg, ← toNat_toUInt64_neg hneg]
    have h := (denotes_toFloat (-n).toUInt64).neg
    change Denotes (Float.Model.pack (-n).toUInt64.toFloat.toModel.unpack.neg).unpack _
    rwa [h.unpack_pack]
  · have hnonneg : 0 ≤ n.toInt := Int.not_lt.mp hneg
    rw [roundedInt_of_nonneg hnonneg, ← toNat_toUInt64_of_nonneg hnonneg]
    exact denotes_toFloat n.toUInt64

/-- The order of the doubles nearest to two integers is that of the rounded integers. -/
theorem ofInt64_lt_iff (a b : Int64) :
    ofInt64 a < ofInt64 b ↔ roundedInt a.toInt < roundedInt b.toInt := by
  rw [← (denotes_ofInt64 a).lt_iff (denotes_ofInt64 b)]
  exact decide_eq_true_iff (p := (ofInt64 a).toModel < (ofInt64 b).toModel)

end RouteScript.Decimal
