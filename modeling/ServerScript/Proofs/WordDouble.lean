import ServerScript.Proofs.WholeDouble

/-! Words and doubles. A word becomes the double that stands for the nearest number, and a double
that stands for a whole number is written as that number if it is a word, else as the word at the
end of the range. -/
namespace ServerScript.Number

open Float.Model Float.Model.UnpackedFloat

section Bits

variable (b : BitVec 64)

theorem toNat_unpackMantissa :
    (@unpackMantissa .binary64 b).toNat = b.toNat % 0x10000000000000 := by
  simp [unpackMantissa]

theorem toNat_unpackExponent :
    (@unpackExponent .binary64 b).toNat = b.toNat / 0x10000000000000 % 0x800 := by
  simp [unpackExponent, Nat.shiftRight_eq_div_pow]

theorem ofBitVec_unpackSign :
    (Sign.ofBitVec (@unpackSign .binary64 b) == .negative) =
      (b.toNat / 0x8000000000000000 == 1) := by
  have bit : (@unpackSign .binary64 b).toNat = b.toNat / 0x8000000000000000 := by
    have := b.isLt
    simp [unpackSign, Nat.shiftRight_eq_div_pow]
    omega
  rw [← bit]
  generalize @unpackSign .binary64 b = s
  revert s
  decide

def Reading.ofUnpacked : UnpackedFloat → Reading
  | .notANumber => .notANumber
  | .infinity s => .infinite (s == .negative)
  | .zero s => .finite (s == .negative) 0 (-1074)
  | .finite s m e _ => .finite (s == .negative) m e

theorem read_eq (x : Float) : read x = .ofUnpacked x.toModel.unpack := by
  change read x = .ofUnpacked (UnpackedFloat.unpack .binary64 x.toBits.toBitVec)
  have toNat : x.toBits.toNat = x.toBits.toBitVec.toNat := rfl
  rw [read, UnpackedFloat.unpack, toNat]
  generalize x.toBits.toBitVec = b
  rw [← ofBitVec_unpackSign, ← toNat_unpackExponent, ← toNat_unpackMantissa]
  generalize Sign.ofBitVec (@unpackSign .binary64 b) = s
  generalize @unpackExponent .binary64 b = e
  have last : e = -1#11 ↔ e.toNat = 2047 := by
    rw [← BitVec.toNat_inj]
    rfl
  have first : e = 0#11 ↔ e.toNat = 0 := by
    rw [← BitVec.toNat_inj]
    rfl
  have none : @unpackMantissa .binary64 b = 0#52 ↔ (@unpackMantissa .binary64 b).toNat = 0 := by
    rw [← BitVec.toNat_inj]
    rfl
  have bias : ((Format.binary64.exponentBias : Nat) : Int) = 1023 := rfl
  have implicit : (1#1 ++ @unpackMantissa .binary64 b).toNat =
      0x10000000000000 + (@unpackMantissa .binary64 b).toNat := by
    have small := (@unpackMantissa .binary64 b).isLt
    rw [BitVec.toNat_append, ← Nat.shiftLeft_add_eq_or_of_lt small]
    rfl
  dsimp only
  by_cases isLast : e.toNat = 2047
  · rw [if_pos (beq_iff_eq.mpr isLast), if_pos (last.mpr isLast)]
    by_cases empty : (@unpackMantissa .binary64 b).toNat = 0
    · rw [if_pos (beq_iff_eq.mpr empty), if_pos (none.mpr empty)]
      rfl
    · rw [if_neg (mt beq_iff_eq.mp empty), if_neg (mt none.mp empty)]
      rfl
  · rw [if_neg (mt beq_iff_eq.mp isLast), if_neg (mt last.mp isLast)]
    by_cases isFirst : e.toNat = 0
    · rw [if_pos (beq_iff_eq.mpr isFirst), if_pos (first.mpr isFirst)]
      by_cases empty : (@unpackMantissa .binary64 b).toNat = 0
      · rw [dif_pos (none.mpr empty), empty]
        rfl
      · rw [dif_neg (mt none.mp empty), isFirst]
        rfl
    · rw [if_neg (mt beq_iff_eq.mp isFirst), if_neg (mt first.mp isFirst)]
      simp only [Reading.ofUnpacked, implicit, bias]
      congr 1

theorem wholeMagnitude_eq {m l k : Nat} (value : m * 2 ^ l = k * 2 ^ 52) (negative : Bool) :
    wholeMagnitude .towardZero negative m (l - 52) = k := by
  rw [wholeMagnitude]
  split
  · rename_i large
    obtain ⟨t, rfl⟩ := Nat.exists_eq_add_of_le' (by omega : 52 ≤ l)
    have exponent : (((t + 52 : Nat) : Int) - 52).toNat = t := by omega
    rw [exponent]
    refine Nat.eq_of_mul_eq_mul_right (Nat.two_pow_pos 52) ?_
    rw [← value, Nat.pow_add, ← Nat.mul_assoc]
    rfl
  · rename_i small
    obtain ⟨t, split⟩ := Nat.exists_eq_add_of_le' (by omega : l ≤ 52)
    have exponent : (-((l : Int) - 52)).toNat = t := by omega
    have multiple : m = k * 2 ^ t := by
      refine Nat.eq_of_mul_eq_mul_right (Nat.two_pow_pos l) ?_
      rw [value, Nat.mul_assoc, ← Nat.pow_add, split]
    rw [exponent, multiple]
    exact Nat.mul_div_cancel _ (Nat.two_pow_pos t)

theorem Denotes.saturate_eq {x : Float} {n : Int} (denotes : Denotes x n) :
    saturate x = clampWord n := by
  have reading := read_eq x
  rw [Denotes] at denotes
  generalize x.toModel.unpack = u at denotes reading
  cases denotes with
  | zero s =>
    have none : wholeMagnitude .towardZero (s == .negative) 0 (-1074) = 0 := by
      rw [wholeMagnitude, if_neg (by decide)]
      exact Nat.zero_div _
    rw [saturate, reading]
    simp only [Reading.ofUnpacked, none]
    cases s <;> rfl
  | @finite s m l k pos low high value =>
    rw [saturate, reading]
    simp only [Reading.ofUnpacked, wholeMagnitude_eq value]
    cases s <;> rfl

end Bits

theorem nearestMagnitude_lt {k : Nat} (le : k ≤ 2 ^ 65) : nearestMagnitude k < 2 ^ 200 := by
  have most := nearestMagnitude_mono le
  have power : nearestMagnitude (2 ^ 65) = 2 ^ 65 := by decide +kernel
  omega

theorem natAbs_nearest (n : Int) : (nearest n).natAbs = nearestMagnitude n.natAbs := by
  rw [nearest, signed]
  split <;> simp

theorem natAbs_nearest_lt {n : Int} (le : n.natAbs ≤ 2 ^ 65) : (nearest n).natAbs < 2 ^ 200 := by
  rw [natAbs_nearest]
  exact nearestMagnitude_lt le

theorem stands_ofScientific {k : Nat} (pos : 0 < k) :
    Stands (UnpackedFloat.ofScientific .binary64 k 0) (nearestMagnitude k) := by
  have value : k <<< 53 * 1 * 2 ^ 0 = k * 2 ^ 53 := by
    rw [Nat.shiftLeft_eq, Nat.mul_one, Nat.pow_zero, Nat.mul_one]
  have rounded := stands_roundWithAccuracy .positive pos value (by omega)
  rw [UnpackedFloat.ofScientific, dif_neg (Nat.ne_of_gt pos), if_neg (by decide),
    if_neg (by norm_num), if_pos (Int.le_refl 0)]
  exact rounded

/-- Conversion of a natural number. Those of up to fifty-three digits are converted as words and
multiplied by the power of ten that is one. -/
theorem denotes_ofNat {k : Nat} (le : k ≤ 2 ^ 65) :
    Denotes (Float.ofNat k) (nearestMagnitude k) := by
  have bound : (nearestMagnitude k : Int).natAbs < 2 ^ 200 := nearestMagnitude_lt le
  change Denotes (Float.ofScientific k false 0) _
  rw [Float.ofScientific]
  split
  · rename_i small
    have word : k.toUInt64.toNat = k :=
      Nat.mod_eq_of_lt (Nat.lt_of_lt_of_le small.1 (by decide : 2 ^ 53 ≤ 2 ^ 64))
    have converted : Stands (UnpackedFloat.ofUInt64 .binary64 k.toUInt64) (nearestMagnitude k) := by
      rw [← nearest_ofNat, UnpackedFloat.ofUInt64, word]
      exact stands_normalize (j := 0) (c := 0) rfl .positive
    have one : Float.exactlyRepresentablePowersOfTen[0].toModel.unpack =
        .finite .positive (2 ^ 52) (-52) (by decide) := rfl
    have product := Stands.mul_one (converted.denotes bound) (by decide)
    rw [← one] at product
    exact product.denotes bound
  · rename_i large
    have pos : 0 < k := by
      by_contra none
      exact large ⟨by omega, by decide⟩
    exact (stands_ofScientific pos).denotes bound

theorem denotes_ofInt {n : Int} (le : n.natAbs ≤ 2 ^ 65) : Denotes (ofInt n) (nearest n) := by
  cases n with
  | ofNat k =>
    rw [Int.ofNat_eq_natCast, nearest_ofNat]
    exact denotes_ofNat le
  | negSucc k =>
    have magnitude : Denotes (Float.ofNat (k + 1)) (nearestMagnitude (k + 1)) := denotes_ofNat le
    rw [nearest_negSucc]
    refine (Stands.neg magnitude).denotes ?_
    rw [Int.natAbs_neg]
    exact nearestMagnitude_lt le

theorem natAbs_toInt_le (w : Int64) : w.toInt.natAbs ≤ 2 ^ 63 := by
  have low := Int64.le_toInt w
  have high := Int64.toInt_lt w
  omega

theorem denotes_ofWord (w : Int64) : Denotes (ofWord w) (nearest w.toInt) :=
  denotes_ofInt (Nat.le_trans (natAbs_toInt_le w) (by decide))

theorem nearest_word (w : Int64) :
    -2 ^ 63 ≤ nearest w.toInt ∧ nearest w.toInt ≤ 2 ^ 63 := by
  have low : nearest (-2 ^ 63) = -2 ^ 63 := by decide +kernel
  have high : nearest (2 ^ 63) = 2 ^ 63 := by decide +kernel
  rw [← low, ← high]
  exact ⟨nearest_mono (Int64.le_toInt w), nearest_mono (Int64.toInt_lt w).le⟩

theorem clampWord_eq_ofInt {n : Int} (fits : (Int64.ofInt n).toInt = n) :
    clampWord n = Int64.ofInt n := by
  have low := (Int64.ofInt n).le_toInt
  have high := (Int64.ofInt n).toInt_lt
  rw [fits] at low high
  rw [clampWord, if_neg, if_neg]
  · rw [wordMax]
    omega
  · rw [wordMin]
    omega

theorem nearest_clampWord {n : Int} (double : nearest n = n) (low : -2 ^ 63 ≤ n)
    (high : n ≤ 2 ^ 63) : nearest (clampWord n).toInt = n := by
  have inRange : ¬n < wordMin := by
    rw [wordMin]
    omega
  rw [clampWord, if_neg inRange]
  split
  · next large =>
    rw [wordMax] at large
    obtain rfl : n = 2 ^ 63 := by omega
    decide +kernel
  · next fits => rw [toInt_ofInt_of_fits (Int.not_lt.mp inRange) (Int.not_lt.mp fits), double]

end ServerScript.Number
