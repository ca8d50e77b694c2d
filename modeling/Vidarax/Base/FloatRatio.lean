import Vidarax.Base.FloatArith

/-!
# Quotients of small numbers against one half

Library `Base`. Whole numbers of at most 24 bits are single-precision numbers, and their rounded
quotient is below one half exactly when the exact quotient is: a quotient below one half is too far
from it to be rounded to it.
-/

namespace Vidarax.Base

namespace F32

/-- `0.5`. -/
def half : F32 := ⟨0x3F000000⟩

/-! ### Normal numbers -/

/-- Bits of a normal number. -/
structure Normal (x : F32) (m : Nat) (e : Int) : Prop where
  positive : x.negative = false
  finite : x.isFinite = true
  number : x.isNan = false
  nonzero : x.isZero = false
  mantissa_eq : x.mantissa = m
  scale_eq : x.scale = e

private theorem toNat_signed {n : Nat} (h : n < 2 ^ 31) : (signed false n).bits.toNat = n :=
  UInt32.toNat_ofNat_of_lt' (Nat.lt_trans h (by decide : 2 ^ 31 < 2 ^ 32))

/-- A mantissa of 24 bits with an exponent. -/
theorem normal_signed {m k : Nat} (hlow : 2 ^ 23 ≤ m) (hhigh : m < 2 ^ 24) (hk : k < 254) :
    (signed false (k * 2 ^ 23 + m)).Normal m (k - 149) := by
  have hbits : (signed false (k * 2 ^ 23 + m)).bits.toNat = k * 2 ^ 23 + m :=
    toNat_signed (by omega)
  have hexponent : (signed false (k * 2 ^ 23 + m)).exponent = k + 1 := by
    rw [exponent, hbits]
    omega
  have hfraction : (signed false (k * 2 ^ 23 + m)).fraction = m - 2 ^ 23 := by
    rw [fraction, hbits]
    omega
  constructor
  · rw [negative, hbits]
    exact decide_eq_false (by omega)
  · rw [isFinite, hexponent]
    exact decide_eq_true (by omega)
  · rw [isNan, hexponent]
    exact decide_eq_false (by omega)
  · rw [isZero, magnitude, hbits]
    exact decide_eq_false (by omega)
  · rw [mantissa, hexponent, hfraction, if_neg (Nat.succ_ne_zero k)]
    omega
  · rw [scale, hexponent]
    omega

/-- Whole numbers of at most 24 bits. -/
theorem normal_ofInt {n : Nat} (hpos : 0 < n) (hlt : n < 2 ^ 24) :
    (ofInt n).Normal (n * 2 ^ (23 - n.log2)) (n.log2 - 23) ∧
      2 ^ 23 ≤ n * 2 ^ (23 - n.log2) ∧ n * 2 ^ (23 - n.log2) < 2 ^ 24 := by
  have hlog : n.log2 < 24 := (Nat.log2_lt hpos.ne').mpr hlt
  have hle : 2 ^ n.log2 ≤ n := Nat.log2_self_le hpos.ne'
  have hgt : n < 2 ^ (n.log2 + 1) := Nat.lt_log2_self
  have hlow : 2 ^ 23 ≤ n * 2 ^ (23 - n.log2) := by
    calc 2 ^ 23 = 2 ^ n.log2 * 2 ^ (23 - n.log2) := by rw [← Nat.pow_add]; congr 1; omega
      _ ≤ n * 2 ^ (23 - n.log2) := Nat.mul_le_mul_right _ hle
  have hhigh : n * 2 ^ (23 - n.log2) < 2 ^ 24 := by
    calc n * 2 ^ (23 - n.log2) < 2 ^ (n.log2 + 1) * 2 ^ (23 - n.log2) :=
        Nat.mul_lt_mul_of_pos_right hgt (Nat.two_pow_pos _)
      _ = 2 ^ 24 := by rw [← Nat.pow_add]; congr 1; omega
  have hround : roundBits n 0 = (n.log2 + 126) * 2 ^ 23 + n * 2 ^ (23 - n.log2) := by
    have hlast : max ((0 : Int) + n.log2 - 23) (-149) = n.log2 - 23 := by omega
    rw [roundBits, if_neg hpos.ne', hlast]
    dsimp only
    have h1 : ((0 : Int) - (n.log2 - 23)).toNat = 23 - n.log2 := by omega
    have h2 : ((n.log2 : Int) - 23 + 149).toNat = n.log2 + 126 := by omega
    rw [if_pos (by omega), h1, h2, Nat.min_eq_left (by omega)]
  have hneg : decide ((n : Int) < 0) = false := decide_eq_false (Int.not_lt.mpr (Int.natCast_nonneg n))
  have hnormal := normal_signed hlow hhigh (k := n.log2 + 126) (by omega)
  rw [ofInt, nearest, hneg, Int.natAbs_natCast, hround]
  have hscale : ((n.log2 + 126 : Nat) : Int) - 149 = n.log2 - 23 := by omega
  rw [hscale] at hnormal
  exact ⟨hnormal, hlow, hhigh⟩

/-! ### Rounding near one half -/

private theorem dropBits_le {m c : Nat} (h : m < 2 ^ (c + 24)) : dropBits m c ≤ 2 ^ 24 := by
  have hquot : m / 2 ^ c < 2 ^ 24 := by
    rw [Nat.div_lt_iff_lt_mul (Nat.two_pow_pos c), ← Nat.pow_add, Nat.add_comm]
    exact h
  unfold dropBits
  dsimp only
  split
  · exact hquot
  · exact hquot.le

/-- A number that is more than half a unit below a power of two is not rounded to it. -/
private theorem dropBits_lt {m c : Nat} (hc : 0 < c) (h : m + 2 ^ (c - 1) < 2 ^ (c + 24)) :
    dropBits m c < 2 ^ 24 := by
  have hpow : 2 ^ c = 2 * 2 ^ (c - 1) := by
    rw [← Nat.pow_succ']
    congr 1
    omega
  have hpow24 : 2 ^ (c + 24) = 2 ^ c * 2 ^ 24 := Nat.pow_add 2 c 24
  have hdiv := Nat.div_add_mod m (2 ^ c)
  have hmod := Nat.mod_lt m (Nat.two_pow_pos c)
  have hquot : m / 2 ^ c < 2 ^ 24 := by
    rw [Nat.div_lt_iff_lt_mul (Nat.two_pow_pos c), ← Nat.pow_add, Nat.add_comm]
    omega
  unfold dropBits
  dsimp only
  split
  · next hup =>
    refine Nat.lt_of_le_of_ne hquot fun hlast ↦ ?_
    -- then the rest would be at least half a unit
    have hlast' : m / 2 ^ c = 2 ^ 24 - 1 := by omega
    rw [hlast', Nat.mul_sub_one] at hdiv
    omega
  · exact hquot

/-- Rounding of a number with bits to drop that is not below the normal ones. -/
private theorem roundBits_eq {m : Nat} {e : Int} (hlog : 24 ≤ m.log2)
    (hnormal : -149 ≤ e + m.log2 - 23) :
    roundBits m e =
      min ((e + m.log2 + 126).toNat * 2 ^ 23 + dropBits m (m.log2 - 23)) 0x7F800000 := by
  have hm : m ≠ 0 := by
    rintro rfl
    rw [Nat.log2_zero] at hlog
    omega
  have hlast : max (e + m.log2 - 23) (-149) = e + m.log2 - 23 := max_eq_left hnormal
  have h1 : (e + m.log2 - 23 - e).toNat = m.log2 - 23 := by omega
  have h2 : (e + m.log2 - 23 + 149).toNat = (e + m.log2 + 126).toNat := by omega
  rw [roundBits, if_neg hm, hlast]
  dsimp only
  rw [if_neg (by omega), h1, h2]

/-- Numbers of at least one half are not rounded below it. -/
theorem half_le_roundBits {m : Nat} {e : Int} (hlog : 24 ≤ m.log2) (h : -1 ≤ e + m.log2) :
    126 * 2 ^ 23 ≤ roundBits m e := by
  have hle : 2 ^ 23 ≤ dropBits m (m.log2 - 23) := by
    have hm : m ≠ 0 := by
      rintro rfl
      rw [Nat.log2_zero] at hlog
      omega
    have hquot : 2 ^ 23 ≤ m / 2 ^ (m.log2 - 23) := by
      rw [Nat.le_div_iff_mul_le (Nat.two_pow_pos _), ← Nat.pow_add,
        Nat.add_sub_cancel' (by omega)]
      exact Nat.log2_self_le hm
    unfold dropBits
    dsimp only
    split
    · exact Nat.le_succ_of_le hquot
    · exact hquot
  rw [roundBits_eq hlog (by omega)]
  omega

/-- Numbers more than half a unit below one half are rounded below it. -/
theorem roundBits_lt_half {m k : Nat} {e : Int} (hlog : 24 ≤ m.log2)
    (h : m + 2 ^ (k - 25) < 2 ^ k) (he : e + k ≤ -1) (hnormal : -149 ≤ e + m.log2 - 23) :
    roundBits m e < 126 * 2 ^ 23 := by
  have hm : m ≠ 0 := by
    rintro rfl
    rw [Nat.log2_zero] at hlog
    omega
  have hlt : m.log2 < k := (Nat.log2_lt hm).mpr (Nat.lt_of_le_of_lt (Nat.le_add_right _ _) h)
  have hself : m < 2 ^ (m.log2 - 23 + 24) := by
    have := @Nat.lt_log2_self m
    rwa [show m.log2 - 23 + 24 = m.log2 + 1 by omega]
  rw [roundBits_eq hlog hnormal]
  by_cases hlast : m.log2 + 1 = k
  · subst hlast
    have hdrop : dropBits m (m.log2 - 23) < 2 ^ 24 := by
      apply dropBits_lt (by omega)
      rw [show m.log2 - 23 - 1 = m.log2 + 1 - 25 by omega,
        show m.log2 - 23 + 24 = m.log2 + 1 by omega]
      exact h
    omega
  · have hdrop := dropBits_le hself
    omega

/-! ### Quotients -/

/-- A quotient of normal numbers. -/
theorem div_normal {a b : F32} {m n : Nat} {e f : Int} (ha : a.Normal m e) (hb : b.Normal n f) :
    a.div b = nearest false (quotient m n) (e - f - 61) := by
  rw [div, ha.number, hb.number, ha.finite, hb.finite, hb.nonzero, ha.positive, hb.positive,
    ha.mantissa_eq, hb.mantissa_eq, ha.scale_eq, hb.scale_eq]
  simp

/-- Rounded numbers are compared with one half by their bits. -/
theorem nearest_lt_half (m : Nat) (e : Int) :
    (nearest false m e).lt half = decide (roundBits m e < 126 * 2 ^ 23) := by
  have hle : roundBits m e ≤ 255 * 2 ^ 23 := by
    unfold roundBits
    split
    · exact Nat.zero_le _
    · exact Nat.min_le_right _ _
  have hbits : (nearest false m e).bits.toNat = roundBits m e := toNat_signed (by omega)
  have hmagnitude : (nearest false m e).magnitude = roundBits m e := by
    rw [magnitude, hbits]
    omega
  have hnan : (nearest false m e).isNan = false := by
    rw [isNan_eq, hmagnitude]
    exact decide_eq_false (by omega)
  have hsign : (nearest false m e).negative = false := by
    rw [negative, hbits]
    exact decide_eq_false (by omega)
  have hhalf : half.isNan = false ∧ half.position = 126 * 2 ^ 23 := by decide
  rw [lt, hnan, hhalf.1, hhalf.2, position, hsign, hmagnitude]
  apply decide_eq_decide.mpr
  rw [if_neg (by decide)]
  constructor
  · rintro ⟨-, -, h⟩
    omega
  · intro h
    exact ⟨by decide, by decide, by omega⟩

private theorem two_mul_le_quotient {n d q : Nat} (hd : 0 < d) (h : q * d ≤ n * 2 ^ 60) :
    2 * q ≤ quotient n d :=
  Nat.le_add_right_of_le (Nat.mul_le_mul_left 2 ((Nat.le_div_iff_mul_le hd).mpr h))

private theorem quotient_lt {n d q : Nat} (hd : 0 < d) (h : n * 2 ^ 60 < q * d) :
    quotient n d < 2 * q := by
  have hquot : n * 2 ^ 60 / d < q := (Nat.div_lt_iff_lt_mul hd).mpr h
  unfold quotient
  split
  · omega
  · omega

/-- Mantissas of the quotient of numbers with given logarithms. -/
private theorem roundBits_quotient {i u : Nat} (hi : 0 < i) (hu : 0 < u) (hlti : i < 2 ^ 24)
    (hltu : u < 2 ^ 24) {m n : Nat} (hm : m = i * 2 ^ (23 - i.log2))
    (hn : n = u * 2 ^ (23 - u.log2)) (hmlow : 2 ^ 23 ≤ m) (hmhigh : m < 2 ^ 24)
    (hnlow : 2 ^ 23 ≤ n) (hnhigh : n < 2 ^ 24) :
    roundBits (quotient m n) ((i.log2 : Int) - 23 - (u.log2 - 23) - 61) < 126 * 2 ^ 23 ↔
      2 * i < u := by
  have hilog : i.log2 < 24 := (Nat.log2_lt hi.ne').mpr hlti
  have hulog : u.log2 < 24 := (Nat.log2_lt hu.ne').mpr hltu
  have hile : 2 ^ i.log2 ≤ i := Nat.log2_self_le hi.ne'
  have hule : 2 ^ u.log2 ≤ u := Nat.log2_self_le hu.ne'
  have hilt : i < 2 ^ (i.log2 + 1) := Nat.lt_log2_self
  have hult : u < 2 ^ (u.log2 + 1) := Nat.lt_log2_self
  have hlog {k : Nat} (h : 2 * 2 ^ k ≤ quotient m n) : k + 1 ≤ (quotient m n).log2 := by
    have hpow : 2 ^ (k + 1) ≤ quotient m n := by rwa [Nat.pow_succ']
    have hpos := Nat.two_pow_pos (k + 1)
    exact (Nat.le_log2 (by omega)).mpr hpow
  have hlow : 60 ≤ (quotient m n).log2 := hlog (two_mul_le_quotient (by omega) (by omega))
  rcases Nat.lt_trichotomy (i.log2 + 1) u.log2 with hfar | hnear | hover
  · -- less than a quarter times two
    have hsmall : 2 * i < u := by
      have := Nat.pow_le_pow_right (by decide : 0 < 2) (by omega : i.log2 + 2 ≤ u.log2)
      rw [Nat.pow_succ] at this
      omega
    have hquot : quotient m n < 2 * (2 ^ 61 - 2 ^ 36) := quotient_lt (by omega) (by omega)
    refine iff_of_true (roundBits_lt_half (k := 62) (by omega) ?_ (by omega) (by omega)) hsmall
    omega
  · -- the quotient of the mantissas decides
    have hdouble : m = 2 * i * 2 ^ (23 - u.log2) := by
      rw [hm, Nat.mul_comm 2 i, Nat.mul_assoc, ← Nat.pow_succ']
      congr 2
      omega
    have hiff : m < n ↔ 2 * i < u := by
      rw [hdouble, hn, Nat.mul_lt_mul_right (Nat.two_pow_pos _)]
    rw [← hiff]
    by_cases hlt : m < n
    · have hquot : quotient m n < 2 * (2 ^ 60 - 2 ^ 35) := quotient_lt (by omega) (by omega)
      refine iff_of_true (roundBits_lt_half (k := 61) (by omega) ?_ (by omega) (by omega)) hlt
      omega
    · have := hlog (k := 60) (two_mul_le_quotient (by omega) (by omega))
      exact iff_of_false (Nat.not_lt.mpr (half_le_roundBits (by omega) (by omega))) hlt
  · have hlarge : ¬ 2 * i < u := by
      have := Nat.pow_le_pow_right (by decide : 0 < 2) (by omega : u.log2 + 1 ≤ i.log2 + 1)
      rw [Nat.pow_succ 2 i.log2] at this
      omega
    exact iff_of_false (Nat.not_lt.mpr (half_le_roundBits (by omega) (by omega))) hlarge

/-- The quotient of whole numbers is rounded below one half when it is below it. -/
theorem div_ofInt_lt_half {i u : Nat} (hu : 0 < u) (hi : i < 2 ^ 24) (hltu : u < 2 ^ 24) :
    ((ofInt i).div (ofInt u)).lt half = decide (2 * i < u) := by
  obtain ⟨hunormal, hulow, huhigh⟩ := normal_ofInt hu hltu
  rcases Nat.eq_zero_or_pos i with rfl | hpos
  · have hzero : ofInt (0 : Nat) = zero := by decide
    have hdiv : zero.div (ofInt u) = nearest false 0 (zero.scale - (u.log2 - 23) - 61) := by
      rw [div, hunormal.number, hunormal.finite, hunormal.nonzero, hunormal.positive,
        hunormal.mantissa_eq, hunormal.scale_eq]
      have hquot : quotient zero.mantissa (u * 2 ^ (23 - u.log2)) = 0 := by
        rw [show zero.mantissa = 0 by decide, quotient]
        simp
      rw [hquot]
      simp [show zero.isNan = false by decide, show zero.isFinite = true by decide,
        show zero.negative = false by decide]
    rw [hzero, hdiv, nearest_lt_half]
    exact decide_eq_decide.mpr (iff_of_true (by rw [roundBits, if_pos rfl]; decide) hu)
  · obtain ⟨hinormal, hilow, hihigh⟩ := normal_ofInt hpos hi
    rw [div_normal hinormal hunormal, nearest_lt_half]
    exact decide_eq_decide.mpr
      (roundBits_quotient hpos hu hi hltu rfl rfl hilow hihigh hulow huhigh)

end F32

end Vidarax.Base
