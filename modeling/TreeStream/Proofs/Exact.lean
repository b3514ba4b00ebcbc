import Mathlib
import TreeStream.Number.Double

/-!
# Whole numbers as doubles

Whole numbers of magnitude below `10 ^ 15` are doubles, and the way from a double to the whole
number that it stands for and back ends at an equal double.

* `Number.Normal`: a mantissa and an exponent that a double has as they are.  Rounding keeps them
  (`Normal.roundWithAccuracy`), and so do packing and unpacking (`Normal.unpack_pack`).
* `Number.unpack_ofNat`: the double of a whole number below `2 ^ 53`.
* `Number.unpack_of_shape`: what `shape` reads off the bits is the unpacked double.
* `Number.ofInt_beq`: the double of the whole number that a double stands for equals the double.
* `Number.beq_self_of_isFinite`: a finite double equals itself.

What doubles come to when they are unpacked and compared is known to Batteries, which Mathlib brings
in as a whole only.
-/

namespace TreeStream.Number
set_option autoImplicit false
open Float.Model (Format totalExponent UnpackedFloat)
open Float.Model.UnpackedFloat

variable {x : Float} {negative : Bool} {s : Sign} {m n : Nat} {e : Int}

theorem log2_mul_two_pow (hn : 0 < n) (k : Nat) : (n * 2 ^ k).log2 = n.log2 + k := by
  have hk := Nat.two_pow_pos k
  refine (Nat.log2_eq_iff (Nat.ne_of_gt (Nat.mul_pos hn hk))).2 ⟨?_, ?_⟩
  · rw [Nat.pow_add]
    exact Nat.mul_le_mul_right _ (Nat.log2_self_le (Nat.ne_of_gt hn))
  · rw [Nat.add_right_comm, Nat.pow_add]
    exact Nat.mul_lt_mul_of_pos_right Nat.lt_log2_self hk

/-! ## Mantissas that fit -/

/-- A mantissa of 53 bits, and an exponent that a double can have beside it. -/
structure Normal (m : Nat) (e : Int) : Prop where
  low : 2 ^ 52 ≤ m
  high : m < 2 ^ 53
  small : -1074 ≤ e
  large : e ≤ 971

theorem shiftRight_exact (m k : Nat) :
    (⟨m * 2 ^ k, false, false⟩ : ExtendedMantissa) >>> k = ⟨m, false, false⟩ := by
  induction k generalizing m with
  | zero => simp [HShiftRight.hShiftRight, Nat.repeat]
  | succ k ih =>
    have hmore := ih (m * 2)
    rw [Nat.mul_assoc, ← Nat.pow_succ'] at hmore
    simp only [HShiftRight.hShiftRight] at hmore ⊢
    rw [Nat.repeat, hmore]
    simp [ExtendedMantissa.shiftRightOne]

theorem toNat_one_append (mantissa : BitVec 52) :
    (1#1 ++ mantissa).toNat = 2 ^ 52 + mantissa.toNat := by
  rw [BitVec.toNat_append, ← Nat.shiftLeft_add_eq_or_of_lt mantissa.isLt]
  rfl

namespace Normal

theorem pos (h : Normal m e) : 0 < m :=
  Nat.lt_of_lt_of_le (Nat.two_pow_pos 52) h.low

theorem log2 (h : Normal m e) : m.log2 = 52 :=
  (Nat.log2_eq_iff (Nat.ne_of_gt h.pos)).2 ⟨h.low, h.high⟩

/-- The bits that have been shifted in are shifted out again. -/
theorem shiftToTargetExponent (h : Normal m e) (k : Nat) :
    shiftToTargetExponent Format.binary64 (m * 2 ^ k) (e - k) .exact =
      (⟨m, false, false⟩, e) := by
  have hsmall := h.small
  have htarget : Format.binary64.targetExponent (totalExponent (m * 2 ^ k) (e - k)) = e := by
    simp only [Format.targetExponent, totalExponent, log2_mul_two_pow h.pos, h.log2,
      Format.mantissaBits, Format.minExponent]
    omega
  have hamount : (e - (e - k)).toNat = k := by omega
  simp only [UnpackedFloat.shiftToTargetExponent, htarget, shiftToExponent, hamount,
    ExtendedMantissa.ofMantissaAndAccuracy, shiftRight_exact]
  exact congrArg _ (Int.sub_add_cancel e k)

theorem roundWithAccuracy (h : Normal m e) (k : Nat) :
    roundWithAccuracy Format.binary64 s (m * 2 ^ k) (e - k) .exact = .finite s m e h.pos := by
  have hsecond := h.shiftToTargetExponent 0
  have hrounded : (⟨m, false, false⟩ : ExtendedMantissa).roundedMantissa = m := rfl
  simp only [Nat.pow_zero, Nat.mul_one, Int.natCast_zero, Int.sub_zero] at hsecond
  simp only [UnpackedFloat.roundWithAccuracy, h.shiftToTargetExponent k, hrounded, hsecond]
  exact dif_neg (Nat.ne_of_gt h.pos)

theorem unpack_pack (h : Normal m e) :
    (Float.Model.pack (.finite s m e h.pos)).unpack = .finite s m e h.pos := by
  obtain ⟨hlow, hhigh, hsmall, hlarge⟩ := id h
  obtain ⟨b, hb⟩ : ∃ b : Nat, (b : Int) = e + 1075 := ⟨(e + 1075).toNat, by omega⟩
  have hbiased : (e + Format.binary64.exponentBias +
      Format.binary64.mantissaBitsWithoutImplicit).toNat = b := by
    simp only [Format.exponentBias]
    omega
  have hexponent : (BitVec.ofNat 11 b).toNat = b := by
    rw [BitVec.toNat_ofNat]
    omega
  have hfull : BitVec.ofNat 11 b ≠ -1#11 := by
    simp only [ne_eq, ← BitVec.toNat_inj, hexponent, BitVec.neg_one_eq_allOnes,
      BitVec.toNat_allOnes]
    omega
  have hzero : BitVec.ofNat 11 b ≠ 0#11 := by
    simp only [ne_eq, ← BitVec.toNat_inj, hexponent, BitVec.toNat_ofNat]
    omega
  have hmantissa : (1#1 ++ BitVec.ofNat 52 m).toNat = m := by
    rw [toNat_one_append, BitVec.toNat_ofNat]
    omega
  have hbits : m.log2 + 1 = Format.binary64.mantissaBits := by rw [h.log2]; rfl
  have hfits : ¬ 2 ^ Format.binary64.exponentBits ≤ b + 1 := by
    simp only [Nat.reducePow]
    omega
  simp only [Float.Model.unpack, Float.Model.pack, UnpackedFloat.pack, hbiased, hbits]
  rw [if_neg hfits, if_pos trivial]
  simp only [UnpackedFloat.unpack, unpackExponent_packComponents, unpackMantissa_packComponents,
    unpackSign_packComponents, Sign.ofBitVec_toBitVec, hfull, hzero, hmantissa, if_false, hexponent]
  congr 1
  simp only [Format.exponentBias]
  omega

end Normal

/-! ## The double of a whole number -/

theorem normal_whole (hn : 0 < n) (hsmall : n < 2 ^ 53) :
    Normal (n * 2 ^ (52 - n.log2)) (n.log2 - 52) := by
  have hlog := (Nat.log2_lt (Nat.ne_of_gt hn)).2 hsmall
  have hpow (k : Nat) : 2 ^ (n.log2 + k) * 2 ^ (52 - n.log2) = 2 ^ (52 + k) := by
    rw [← Nat.pow_add]
    congr 1
    omega
  refine ⟨?_, ?_, by omega, by omega⟩
  · rw [← hpow 0]
    exact Nat.mul_le_mul_right _ (Nat.log2_self_le (Nat.ne_of_gt hn))
  · rw [← hpow 1]
    exact Nat.mul_lt_mul_of_pos_right Nat.lt_log2_self (Nat.two_pow_pos _)

/-- A positive whole number as an unpacked double. -/
def unpackedWhole (s : Sign) (n : Nat) (hn : 0 < n) (hsmall : n < 2 ^ 53) : UnpackedFloat :=
  .finite s (n * 2 ^ (52 - n.log2)) (n.log2 - 52) (normal_whole hn hsmall).pos

theorem unpack_toFloat (hn : 0 < n) (hsmall : n < 2 ^ 53) :
    n.toUInt64.toFloat.toModel.unpack = unpackedWhole .positive n hn hsmall := by
  have hnormal := normal_whole hn hsmall
  have hlog := (Nat.log2_lt (Nat.ne_of_gt hn)).2 hsmall
  have hmodel : n.toUInt64.toFloat.toModel =
      Float.Model.pack (UnpackedFloat.ofNat Format.binary64 n.toUInt64.toNat) := rfl
  have hback : n.toUInt64.toNat = n := by
    simp only [Nat.toUInt64, UInt64.toNat_ofNat']
    omega
  have hcompare : compare (n : Int) 0 = .gt := Int.compare_eq_gt.2 (by omega)
  have htarget : Format.binary64.targetExponent (totalExponent n 0) = n.log2 - 52 := by
    simp only [Format.targetExponent, totalExponent, Format.mantissaBits, Format.minExponent]
    omega
  have hamount : (0 - ((n.log2 : Int) - 52)).toNat = 52 - n.log2 := by omega
  have hexponent : (0 : Int) - (52 - n.log2 : Nat) = n.log2 - 52 := by omega
  have hround := hnormal.roundWithAccuracy (s := .positive) 0
  simp only [Nat.pow_zero, Nat.mul_one, Int.natCast_zero, Int.sub_zero] at hround
  rw [hmodel, hback, UnpackedFloat.ofNat, UnpackedFloat.ofInt,
    UnpackedFloat.normalize, hcompare]
  simp only [Int.toNat_natCast, UnpackedFloat.round, htarget, decreaseExponent, hamount, hexponent,
    Nat.shiftLeft_eq, hround]
  exact hnormal.unpack_pack

/-- Numerals are read as a product with a power of ten, which is one here. -/
theorem ofNat_eq (hsmall : n < 2 ^ 53) :
    Float.ofNat n = n.toUInt64.toFloat * Float.ofBits 0x3FF0000000000000 := by
  have hscientific : Float.ofNat n = Float.ofScientific n false 0 := rfl
  rw [hscientific, Float.ofScientific, dif_pos ⟨hsmall, by decide⟩]
  rfl

theorem unpack_ofNat (hn : 0 < n) (hsmall : n < 2 ^ 53) :
    (Float.ofNat n).toModel.unpack = unpackedWhole .positive n hn hsmall := by
  have hnormal := normal_whole hn hsmall
  have hone : (Float.ofBits 0x3FF0000000000000).toModel.unpack =
      .finite .positive (2 ^ 52) (-52) (by decide) := rfl
  have hmul (x y : Float) : (x * y).toModel =
      .pack (UnpackedFloat.mul Format.binary64 x.toModel.unpack y.toModel.unpack) := rfl
  have hround := hnormal.roundWithAccuracy (s := .positive) 52
  rw [ofNat_eq hsmall, hmul, unpack_toFloat hn hsmall, hone]
  exact (congrArg (fun y => (Float.Model.pack y).unpack) hround).trans hnormal.unpack_pack

theorem unpack_neg_ofNat (hn : 0 < n) (hsmall : n < 2 ^ 53) :
    (-Float.ofNat n).toModel.unpack = unpackedWhole .negative n hn hsmall := by
  have hneg (x : Float) : (-x).toModel = .pack (UnpackedFloat.neg x.toModel.unpack) := rfl
  rw [hneg, unpack_ofNat hn hsmall]
  exact (normal_whole hn hsmall).unpack_pack

/-! ## The shape of a double -/

/-- The sign that a flag stands for. -/
def signOf (negative : Bool) : Sign :=
  if negative then .negative else .positive

theorem toNat_unpackExponent (b : BitVec Format.binary64.numBits) :
    (unpackExponent b).toNat = b.toNat / 2 ^ 52 % 2 ^ 11 := by
  simp [unpackExponent, Nat.shiftRight_eq_div_pow]

theorem toNat_unpackMantissa (b : BitVec Format.binary64.numBits) :
    (unpackMantissa b).toNat = b.toNat % 2 ^ 52 := by
  simp [unpackMantissa]

theorem ofBitVec_unpackSign (b : BitVec Format.binary64.numBits) :
    Sign.ofBitVec (unpackSign b) = signOf (2 ^ 63 ≤ b.toNat) := by
  have hlt : b.toNat < 2 ^ 64 := b.isLt
  have hsign : (unpackSign b).toNat = b.toNat / 2 ^ 63 % 2 := by
    simp [unpackSign, Nat.shiftRight_eq_div_pow]
  simp only [Sign.ofBitVec, signOf, ← BitVec.toNat_inj, hsign, BitVec.toNat_ofNat,
    decide_eq_true_eq]
  split <;> split <;> first | rfl | omega

theorem unpack_of_shape (h : shape x = .finite negative m e) :
    x.toModel.unpack =
      if hm : 0 < m then .finite (signOf negative) m e hm else .zero (signOf negative) := by
  have hunpack : x.toModel.unpack = unpack Format.binary64 x.toBits.toBitVec := rfl
  have hexponent := toNat_unpackExponent x.toBits.toBitVec
  have hmantissa := toNat_unpackMantissa x.toBits.toBitVec
  have hsign := ofBitVec_unpackSign x.toBits.toBitVec
  have hall : (-1#11).toNat = 2047 := rfl
  have hbias : (Format.binary64.exponentBias : Int) = 1023 := rfl
  simp only [UInt64.toNat_toBitVec] at hexponent hmantissa hsign
  simp only [shape, Nat.pow_eq, ← hexponent, ← hmantissa] at h
  simp only [hunpack, UnpackedFloat.unpack, ← BitVec.toNat_inj, hsign, toNat_one_append,
    BitVec.toNat_ofNat, Nat.zero_mod]
  split_ifs at h with hfull hzero hleast
  -- A mantissa with the least exponent has no leading bit of its own, and may be zero.
  · obtain ⟨rfl, rfl, rfl⟩ := Shape.finite.inj h
    rw [if_neg (hall ▸ hfull), if_pos hleast]
    rcases Nat.eq_zero_or_pos (BitVec.toNat (@unpackMantissa Format.binary64 x.toBits.toBitVec))
      with hnone | hsome
    · rw [dif_pos hnone, dif_neg (by omega)]
    · rw [dif_neg (Nat.ne_of_gt hsome), dif_pos hsome]
      congr 1
      rw [hbias, hleast]
      rfl
  · obtain ⟨rfl, rfl, rfl⟩ := Shape.finite.inj h
    rw [if_neg (hall ▸ hfull), if_neg hleast, dif_pos (by omega)]
    congr 1

theorem shape_cases (h : shape x = .finite negative m e) :
    (e = -1074 ∧ m < 2 ^ 52) ∨ Normal m e := by
  have hfraction := Nat.mod_lt x.toBits.toNat (Nat.two_pow_pos 52)
  have hexponent := Nat.mod_lt (x.toBits.toNat / 2 ^ 52) (Nat.two_pow_pos 11)
  simp only [shape, Nat.pow_eq] at h
  split_ifs at h with hfull hzero hleast
  · obtain ⟨-, rfl, rfl⟩ := Shape.finite.inj h
    exact .inl ⟨rfl, hfraction⟩
  · obtain ⟨-, rfl, rfl⟩ := Shape.finite.inj h
    exact .inr ⟨by omega, by omega, by omega, by omega⟩

/-- A double that stands for a small whole number is a zero or the double of that number, because a
mantissa of 53 bits leaves only one exponent. -/
theorem scaled_small (h : (e = -1074 ∧ m < 2 ^ 52) ∨ Normal m e) (hscaled : scaled? m e = some n)
    (hsmall : n < 2 ^ 52) :
    (m = 0 ∧ n = 0) ∨ (0 < n ∧ m = n * 2 ^ (52 - n.log2) ∧ e = n.log2 - 52) := by
  unfold scaled? at hscaled
  split at hscaled
  · rename_i k
    obtain ⟨he, -⟩ | h := h
    · cases he
    · have hlow := h.low
      have hn : m * 2 ^ k = n := Option.some.inj hscaled
      have hle := Nat.le_mul_of_pos_right m (Nat.two_pow_pos k)
      omega
  · rename_i k
    simp only [Nat.pow_eq] at hscaled
    split at hscaled
    -- The mantissa is the number shifted to the left, and its 53 bits leave no choice how far.
    · rename_i hmod
      have hn : m / 2 ^ (k + 1) = n := Option.some.inj hscaled
      have hm : n * 2 ^ (k + 1) = m := hn ▸ Nat.div_mul_cancel (Nat.dvd_of_mod_eq_zero hmod)
      rcases Nat.eq_zero_or_pos n with rfl | hpos
      · exact .inl ⟨by omega, rfl⟩
      · have hbig : 2 ^ (k + 1) ≤ m := hm ▸ Nat.le_mul_of_pos_left _ hpos
        obtain ⟨he, hfew⟩ | h := h
        · have hmore : 2 ^ 52 ≤ 2 ^ (k + 1) := Nat.pow_le_pow_right (by decide) (by omega)
          omega
        · have hlog := log2_mul_two_pow hpos (k + 1)
          rw [hm, h.log2] at hlog
          have hk : k + 1 = 52 - n.log2 := by omega
          exact .inr ⟨hpos, hk ▸ hm.symm, by omega⟩
    · cases hscaled

/-! ## There and back -/

theorem whole?_eq_some {i : Int} (h : whole? x = some i) :
    ∃ negative m e n, shape x = .finite negative m e ∧ scaled? m e = some n ∧
      i = if negative then -(n : Int) else n := by
  unfold whole? at h
  split at h
  · rename_i negative m e hshape
    cases hscaled : scaled? m e with
    | none => simp [hscaled] at h
    | some n => exact ⟨negative, m, e, n, hshape, hscaled, by simpa [hscaled] using h.symm⟩
  · cases h

theorem smallWhole?_eq_some {i : Int} (h : smallWhole? x = some i) :
    whole? x = some i ∧ i.natAbs < 10 ^ 15 := by
  simpa [smallWhole?, Option.filter_eq_some_iff] using h

theorem beq_eq (x y : Float) : (x == y) = x.toModel.unpack.beq y.toModel.unpack := rfl

theorem isFinite_eq (x : Float) : x.isFinite = x.toModel.unpack.isFinite := rfl

theorem beq_finite_self (hm : 0 < m) :
    (UnpackedFloat.finite s m e hm).beq (UnpackedFloat.finite s m e hm) :=
  (beq_iff_ne_notANumber_and_eq _ _).2 ⟨nofun, nofun, .inl rfl⟩

theorem beq_self_of_isFinite (h : x.isFinite) : x == x := by
  rw [Float.beq_self_iff]
  rintro rfl
  cases h

theorem isFinite_of_whole {i : Int} (h : whole? x = some i) : x.isFinite := by
  obtain ⟨negative, m, e, n, hshape, -, -⟩ := whole?_eq_some h
  rw [isFinite_eq, unpack_of_shape hshape]
  split <;> rfl

theorem shape_of_isFinite (h : x.isFinite) :
    ∃ negative m e, shape x = .finite negative m e := by
  have hexponent := toNat_unpackExponent x.toBits.toBitVec
  have hall : (-1#11).toNat = 2047 := rfl
  simp only [UInt64.toNat_toBitVec] at hexponent
  simp only [shape, Nat.pow_eq, ← hexponent]
  rcases Nat.decEq (BitVec.toNat (@unpackExponent Format.binary64 x.toBits.toBitVec)) 2047
    with hfull | hfull
  · rw [if_neg hfull]
    split_ifs
    · exact ⟨_, _, _, rfl⟩
    · exact ⟨_, _, _, rfl⟩
  · have hunpack : x.toModel.unpack = unpack Format.binary64 x.toBits.toBitVec := rfl
    rw [isFinite_eq, hunpack] at h
    simp only [UnpackedFloat.unpack, ← BitVec.toNat_inj, hfull, hall, if_true] at h
    split_ifs at h <;> cases h

/-- The double of the small whole number that a double stands for equals the double. -/
theorem ofInt_beq {i : Int} (h : smallWhole? x = some i) : Float.ofInt i == x := by
  obtain ⟨hwhole, hsmall⟩ := smallWhole?_eq_some h
  obtain ⟨negative, m, e, n, hshape, hscaled, rfl⟩ := whole?_eq_some hwhole
  have hn : n < 2 ^ 52 := by split at hsmall <;> omega
  rw [beq_eq, unpack_of_shape hshape]
  obtain ⟨rfl, rfl⟩ | ⟨hpos, rfl, rfl⟩ := scaled_small (shape_cases hshape) hscaled hn
  · cases negative <;> rfl
  · have hfew : n < 2 ^ 53 := by omega
    rw [dif_pos (normal_whole hpos hfew).pos]
    cases negative with
    | false =>
      have hof : Float.ofInt (if false = true then -(n : Int) else n) = Float.ofNat n := rfl
      rw [hof, unpack_ofNat hpos hfew]
      exact beq_finite_self _
    | true =>
      have hof : Float.ofInt (if true = true then -(n : Int) else n) = -Float.ofNat n := by
        obtain ⟨k, rfl⟩ := Nat.exists_eq_add_one.2 hpos
        rfl
      rw [hof, unpack_neg_ofNat hpos hfew]
      exact beq_finite_self _

end TreeStream.Number
