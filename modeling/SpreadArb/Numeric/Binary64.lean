import Mathlib

namespace Numeric.Binary64
open Float.Model UnpackedFloat

/-- A positive double in the normal range, by its 53 bits and its exponent. -/
structure Normal (f : Float) (m : Nat) (e : Int) : Prop where
  least : 2^52 ≤ m
  most : m < 2^53
  small : -1074 ≤ e
  large : e ≤ 971
  unpacked : ∃ h, f.toModel.unpack = .finite .positive m e h

section Rounding

/-- The leading 53 bits of a number, with what is left of the others. -/
def leading (n : Nat) : ExtendedMantissa := (⟨n,false,false⟩ : ExtendedMantissa) >>> (n.log2 - 52)

/-- The bits of a product after rounding. The carry may need one more of them. -/
def carried (n : Nat) : Nat := (leading n).roundedMantissa

def roundedBits (n : Nat) : Nat := carried n / 2^((carried n).log2 - 52)

/-- How far the number has been shifted by then. -/
def roundedShift (n : Nat) : Nat := (n.log2 - 52) + ((carried n).log2 - 52)

theorem mantissa_shiftRight (x : ExtendedMantissa) (k : Nat) :
    (x >>> k).mantissa = x.mantissa / 2^k := by
  induction k with
  | zero => exact (Nat.div_one _).symm
  | succ k ih =>
    have hone : (x >>> (k+1)).mantissa = (x >>> k).mantissa / 2 := rfl
    rw [hone,ih,Nat.div_div_eq_div_mul,Nat.pow_succ]

theorem roundedMantissa_range (x : ExtendedMantissa) :
    x.mantissa ≤ x.roundedMantissa ∧ x.roundedMantissa ≤ x.mantissa + 1 := by
  obtain ⟨m,round,sticky⟩ := x
  unfold ExtendedMantissa.roundedMantissa
  cases round <;> cases sticky
  all_goals simp only [ExtendedMantissa.accuracy,Accuracy.roundToNearestEven]
  all_goals omega

variable {n : Nat}

theorem log2_eq (h : 2^52 ≤ n) (hlt : n < 2^53) : n.log2 = 52 := by
  have hne : n ≠ 0 := by omega
  have h1 : 52 ≤ n.log2 := (Nat.le_log2 hne).mpr h
  have h2 : n.log2 < 53 := (Nat.log2_lt hne).mpr hlt
  omega

theorem leading_range (h : 2^52 ≤ n) :
    2^52 ≤ (leading n).mantissa ∧ (leading n).mantissa < 2^53 := by
  have hn : n ≠ 0 := by omega
  have hlog : 52 ≤ n.log2 := (Nat.le_log2 hn).mpr h
  have hlower : 2^(n.log2) ≤ n := Nat.log2_self_le hn
  have hupper : n < 2^(n.log2+1) := Nat.lt_log2_self
  rw [leading,mantissa_shiftRight]
  constructor
  · apply (Nat.le_div_iff_mul_le (Nat.two_pow_pos _)).mpr
    rwa [← Nat.pow_add,Nat.add_sub_cancel' hlog]
  · apply (Nat.div_lt_iff_lt_mul (Nat.two_pow_pos _)).mpr
    rw [← Nat.pow_add]
    have hexp : 53 + (n.log2 - 52) = n.log2 + 1 := by omega
    rwa [hexp]

theorem carried_range (h : 2^52 ≤ n) : 2^52 ≤ carried n ∧ carried n ≤ 2^53 := by
  have hleading := leading_range h
  have hrounded := roundedMantissa_range (leading n)
  unfold carried
  omega

/-- The carry is at most one bit. -/
theorem carried_cases (h : 2^52 ≤ n) :
    ((carried n).log2 = 52 ∧ carried n < 2^53) ∨ ((carried n).log2 = 53 ∧ carried n = 2^53) := by
  obtain ⟨hleast,hmost⟩ := carried_range h
  rcases Nat.lt_or_eq_of_le hmost with hlt | heq
  · left
    exact ⟨log2_eq hleast hlt,hlt⟩
  · right
    exact ⟨by rw [heq,Nat.log2_two_pow],heq⟩

theorem roundedBits_range (h : 2^52 ≤ n) : 2^52 ≤ roundedBits n ∧ roundedBits n < 2^53 := by
  obtain ⟨hleast,-⟩ := carried_range h
  unfold roundedBits
  rcases carried_cases h with ⟨hlog,hlt⟩ | ⟨hlog,heq⟩
  · rw [hlog]
    simpa using ⟨hleast,hlt⟩
  · rw [hlog,heq]
    norm_num

theorem roundedShift_range (h : 2^52 ≤ n) :
    n.log2 - 52 ≤ roundedShift n ∧ roundedShift n ≤ n.log2 - 51 := by
  have hlog : 52 ≤ n.log2 := (Nat.le_log2 (by omega)).mpr h
  unfold roundedShift
  rcases carried_cases h with ⟨hc,-⟩ | ⟨hc,-⟩ <;> omega

/-- A number of 53 bits is not rounded. -/
theorem rounded_of_lt (h : 2^52 ≤ n) (hlt : n < 2^53) : roundedBits n = n ∧ roundedShift n = 0 := by
  have hlog := log2_eq h hlt
  have hcarried : carried n = n := by
    unfold carried leading
    rw [hlog]
    rfl
  simp [roundedBits,roundedShift,hcarried,hlog]

/-- The shift to the exponent that a number should have, when that is in the normal range. -/
theorem shiftToTarget_eq {e : Int} (h : 2^52 ≤ n) (hmin : -1074 ≤ e + (n.log2 - 52 : Nat)) :
    shiftToTargetExponent Format.binary64 n e .exact =
      ((⟨n,false,false⟩ : ExtendedMantissa) >>> (n.log2 - 52),e + (n.log2 - 52 : Nat)) := by
  have hlog : 52 ≤ n.log2 := (Nat.le_log2 (by omega)).mpr h
  have htarget : (Format.binary64.targetExponent (totalExponent n e) - e).toNat = n.log2 - 52 := by
    simp only [Format.targetExponent,totalExponent,Format.mantissaBits,Format.minExponent]
    norm_num
    omega
  simp only [shiftToTargetExponent,shiftToExponent,htarget,ExtendedMantissa.ofMantissaAndAccuracy]

/-- Rounding moves the exponent, and depends on it in no other way. -/
theorem roundWithAccuracy_eq (sign : Sign) {e : Int} (h : 2^52 ≤ n)
    (hmin : -1074 ≤ e + (n.log2 - 52 : Nat)) :
    ∃ hpos, roundWithAccuracy Format.binary64 sign n e .exact =
      .finite sign (roundedBits n) (e + roundedShift n) hpos := by
  have hpos : 0 < roundedBits n := by
    have := (roundedBits_range h).1
    omega
  refine ⟨hpos,?_⟩
  have hfirst := shiftToTarget_eq h hmin
  have hsecond := shiftToTarget_eq (e := e + (n.log2 - 52 : Nat)) (carried_range h).1 (by omega)
  have hbits : ((⟨carried n,false,false⟩ : ExtendedMantissa) >>> ((carried n).log2 - 52)).mantissa =
      roundedBits n :=
    mantissa_shiftRight _ _
  have hexponent : e + (n.log2 - 52 : Nat) + ((carried n).log2 - 52 : Nat) =
      e + roundedShift n := by
    unfold roundedShift
    omega
  unfold roundWithAccuracy
  simp only [hfirst]
  have hcarried : ((⟨n,false,false⟩ : ExtendedMantissa) >>> (n.log2 - 52)).roundedMantissa =
      carried n := rfl
  simp only [hcarried,hsecond,hbits,hexponent]
  rw [dif_neg (by omega)]

/-- A number of 53 bits stays as it is. -/
theorem roundWithAccuracy_exact (sign : Sign) {e : Int} (h : 2^52 ≤ n) (hlt : n < 2^53)
    (hmin : -1074 ≤ e) :
    ∃ hpos, roundWithAccuracy Format.binary64 sign n e .exact = .finite sign n e hpos := by
  have hlog := log2_eq h hlt
  obtain ⟨hbits,hshift⟩ := rounded_of_lt h hlt
  obtain ⟨hpos,hround⟩ := roundWithAccuracy_eq sign h (e := e) (by omega)
  simp only [hbits,hshift,Nat.cast_zero,add_zero] at hround
  exact ⟨by omega,hround⟩

end Rounding

section Packing

variable {m : Nat} {e : Int}

theorem unpackSign_packComponents {spec : Format} (sign : Sign)
    (exponent : BitVec spec.exponentBits) (mantissa : BitVec spec.mantissaBitsWithoutImplicit) :
    unpackSign (packComponents spec sign exponent mantissa) = sign.toBitVec := by
  ext i hi
  obtain rfl : i = 0 := by omega
  simp [unpackSign,packComponents,BitVec.getLsbD_append,BitVec.getLsbD_eq_getElem,
    BitVec.getElem_append]

theorem pack_eq {hpos : 0 < m} (hleast : 2^52 ≤ m) (hmost : m < 2^53) (hmax : e ≤ 971) :
    UnpackedFloat.pack Format.binary64 (.finite .positive m e hpos) =
      packComponents Format.binary64 .positive (BitVec.ofNat 11 (e + 1075).toNat)
        (BitVec.ofNat 52 m) := by
  have hlog := log2_eq hleast hmost
  have hbias : e + (Format.binary64.exponentBias : Int) +
      (Format.binary64.mantissaBitsWithoutImplicit : Int) = e + 1075 := by
    simp [Format.exponentBias]
    omega
  simp only [UnpackedFloat.pack,hlog,hbias]
  rw [if_neg (by omega),if_pos (by rfl)]

/-- A normal number comes back from its bits as it was. -/
theorem unpack_pack {hpos : 0 < m} (hleast : 2^52 ≤ m) (hmost : m < 2^53) (hmin : -1074 ≤ e)
    (hmax : e ≤ 971) :
    (Float.Model.pack (.finite .positive m e hpos)).unpack = .finite .positive m e hpos := by
  have hexponent : (BitVec.ofNat 11 (e + 1075).toNat).toNat = (e + 1075).toNat := by
    rw [BitVec.toNat_ofNat]
    apply Nat.mod_eq_of_lt
    omega
  have hinfinite : BitVec.ofNat 11 (e + 1075).toNat ≠ -1#11 := by
    intro heq
    have := congrArg BitVec.toNat heq
    rw [hexponent] at this
    simp at this
    omega
  have hsubnormal : BitVec.ofNat 11 (e + 1075).toNat ≠ 0#11 := by
    intro heq
    have := congrArg BitVec.toNat heq
    rw [hexponent] at this
    simp at this
    omega
  have hmantissa : (1#1 ++ BitVec.ofNat 52 m).toNat = m := by
    have hsum : (1#1).toNat <<< 52 ||| (BitVec.ofNat 52 m).toNat =
        (1#1).toNat <<< 52 + (BitVec.ofNat 52 m).toNat :=
      (Nat.shiftLeft_add_eq_or_of_lt (BitVec.isLt _) _).symm
    rw [BitVec.toNat_append,hsum]
    simp only [BitVec.toNat_ofNat,Nat.shiftLeft_eq]
    omega
  unfold Float.Model.pack Float.Model.unpack
  simp only [pack_eq hleast hmost hmax,UnpackedFloat.unpack,unpackExponent_packComponents,
    unpackMantissa_packComponents,unpackSign_packComponents,hexponent]
  rw [if_neg hinfinite,if_neg hsubnormal]
  have hsame : ((e + 1075).toNat : Int) - ((Format.binary64.exponentBias : Int) + (52 : Nat)) =
      e := by
    simp [Format.exponentBias]
    omega
  simp only [hmantissa,hsame]
  rfl

end Packing

section Arithmetic

variable {a b f : Float} {m n : Nat} {e d : Int}

theorem normal_pack {hpos : 0 < m} (hleast : 2^52 ≤ m) (hmost : m < 2^53) (hsmall : -1074 ≤ e)
    (hlarge : e ≤ 971) : Normal (.ofModel (Float.Model.pack (.finite .positive m e hpos))) m e :=
  ⟨hleast,hmost,hsmall,hlarge,hpos,unpack_pack hleast hmost hsmall hlarge⟩

theorem le_mul_of_normal (ha : Normal a m e) (hb : Normal b n d) : 2^52 ≤ m * n := by
  have hm := ha.least
  have hn := hb.least
  nlinarith

/-- The product of two normal numbers, if it is one. -/
theorem normal_mul (ha : Normal a m e) (hb : Normal b n d)
    (hsmall : -1074 ≤ e + d + ((m*n).log2 - 52 : Nat))
    (hlarge : e + d + ((m*n).log2 - 51 : Nat) ≤ 971) :
    Normal (a * b) (roundedBits (m*n)) (e + d + roundedShift (m*n)) := by
  obtain ⟨_,ha'⟩ := ha.unpacked
  obtain ⟨_,hb'⟩ := hb.unpacked
  have hmn := le_mul_of_normal ha hb
  obtain ⟨hleast,hmost⟩ := roundedBits_range hmn
  obtain ⟨hshift,hshift'⟩ := roundedShift_range hmn
  obtain ⟨hpos,hround⟩ := roundWithAccuracy_eq .positive hmn hsmall
  have hproduct : a * b = .ofModel (Float.Model.pack (.finite .positive (roundedBits (m*n))
      (e + d + roundedShift (m*n)) hpos)) := by
    rw [← hround]
    change Float.ofModel (Float.Model.pack
      (UnpackedFloat.mul Format.binary64 a.toModel.unpack b.toModel.unpack)) = _
    rw [ha',hb']
    rfl
  rw [hproduct]
  exact normal_pack hleast hmost (by omega) (by omega)

theorem zero_add_normal (ha : a.toModel.unpack = .zero .positive) (hb : Normal b m e) :
    Normal (a + b) m e := by
  obtain ⟨hpos,hb'⟩ := hb.unpacked
  have hsum : a + b = .ofModel (Float.Model.pack (.finite .positive m e hpos)) := by
    change Float.ofModel (Float.Model.pack
      (UnpackedFloat.add Format.binary64 a.toModel.unpack b.toModel.unpack)) = _
    rw [ha,hb']
    rfl
  rw [hsum]
  exact normal_pack hb.least hb.most hb.small hb.large

/-- An integer of up to 53 bits is a double. -/
theorem normal_toFloat {x : UInt64} (hpos : 0 < x.toNat) (hlt : x.toNat < 2^53) :
    Normal x.toFloat (x.toNat * 2^(52 - x.toNat.log2)) (-(52 - x.toNat.log2 : Nat)) := by
  have hne : x.toNat ≠ 0 := by omega
  have hlog : x.toNat.log2 < 53 := (Nat.log2_lt hne).mpr hlt
  have hlower : 2^(x.toNat.log2) ≤ x.toNat := Nat.log2_self_le hne
  have hupper : x.toNat < 2^(x.toNat.log2+1) := Nat.lt_log2_self
  have hleast : 2^52 ≤ x.toNat * 2^(52 - x.toNat.log2) := by
    calc 2^52 = 2^(x.toNat.log2) * 2^(52 - x.toNat.log2) := by rw [← Nat.pow_add]; congr 1; omega
      _ ≤ x.toNat * 2^(52 - x.toNat.log2) := Nat.mul_le_mul_right _ hlower
  have hmost : x.toNat * 2^(52 - x.toNat.log2) < 2^53 := by
    calc x.toNat * 2^(52 - x.toNat.log2) < 2^(x.toNat.log2+1) * 2^(52 - x.toNat.log2) :=
        Nat.mul_lt_mul_of_pos_right hupper (Nat.two_pow_pos _)
      _ = 2^53 := by rw [← Nat.pow_add]; congr 1; omega
  obtain ⟨_,hround⟩ := roundWithAccuracy_exact (e := -(52 - x.toNat.log2 : Nat)) .positive hleast
    hmost (by omega)
  have htarget : (-Format.binary64.targetExponent (totalExponent x.toNat 0)).toNat =
      52 - x.toNat.log2 := by
    simp only [Format.targetExponent,totalExponent,Format.mantissaBits,Format.minExponent]
    norm_num
    omega
  have hfloat : x.toFloat =
      .ofModel (Float.Model.pack (.finite .positive (x.toNat * 2^(52 - x.toNat.log2))
      (-(52 - x.toNat.log2 : Nat)) (by omega))) := by
    rw [← hround]
    change Float.ofModel (Float.Model.pack
      (UnpackedFloat.normalize Format.binary64 (x.toNat : Int) 0 .positive)) = _
    have hgt : compare (x.toNat : Int) 0 = .gt := Int.compare_eq_gt.mpr (by omega)
    simp only [UnpackedFloat.normalize,hgt,UnpackedFloat.round,decreaseExponent,Int.toNat_natCast,
      Nat.shiftLeft_eq,zero_sub,htarget]
  rw [hfloat]
  exact normal_pack hleast hmost (by omega) (by omega)

/-- The cast back to an integer cuts the fraction off. -/
theorem toUInt64_normal (h : Normal f m e) (he : e ≤ 0) :
    f.toUInt64.toNat = m / 2^((-e).toNat) := by
  obtain ⟨hpos,hf⟩ := h.unpacked
  have hcut : f.toUInt64 = UInt64.ofNatClamp (roundToInt .positive m e).toNat := by
    change f.toModel.unpack.toUInt64 = _
    rw [hf]
    rfl
  have hint : roundToInt .positive m e = (m / 2^((-e).toNat) : Nat) := by
    have hzero : (e - 0).toNat = 0 := by omega
    simp only [roundToInt,decreaseExponent,shiftToExponent,hzero,Nat.shiftLeft_zero,
      ExtendedMantissa.ofMantissaAndAccuracy,mantissa_shiftRight,Sign.apply]
    norm_num
  have hlt : m / 2^((-e).toNat) < UInt64.size := by
    have := Nat.div_le_self m (2^((-e).toNat))
    have := h.most
    unfold UInt64.size
    omega
  rw [hcut,hint,Int.toNat_natCast]
  unfold UInt64.ofNatClamp
  rw [dif_pos hlt]
  rfl

end Arithmetic

end Numeric.Binary64
