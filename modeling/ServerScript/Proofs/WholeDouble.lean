import ServerScript.Proofs.NearestDouble

/-! Doubles that stand for whole numbers. A whole number becomes the double that stands for the
nearest one, the sum of two such doubles stands for the number nearest to the sum, and they compare
as the numbers do. -/
namespace ServerScript.Number

open Float.Model Float.Model.UnpackedFloat

/-- A reading of a double stands for a whole number. Apart from zero its mantissa has fifty-three
binary digits and its exponent `l - 52` is such that `m * 2 ^ (l - 52)` is the magnitude `k`. -/
inductive Stands : UnpackedFloat → Int → Prop
  | zero (s : Sign) : Stands (.zero s) 0
  | finite (s : Sign) {m l k : Nat} (pos : 0 < m) (low : 2 ^ 52 ≤ m) (high : m < 2 ^ 53)
    (value : m * 2 ^ l = k * 2 ^ 52) : Stands (.finite s m (l - 52) pos) (s.apply k)

def Denotes (x : Float) (n : Int) : Prop := Stands x.toModel.unpack n

section Rounding

theorem shiftRight_exact (m s : Nat) :
    (ExtendedMantissa.ofMantissaAndAccuracy m .exact >>> s) =
      ⟨m / 2 ^ s, decide (2 ^ s ≤ 2 * (m % 2 ^ s)), decide (2 * (m % 2 ^ s) % 2 ^ s ≠ 0)⟩ := by
  induction s with
  | zero =>
    simp [HShiftRight.hShiftRight, Nat.repeat, ExtendedMantissa.ofMantissaAndAccuracy, Nat.mod_one]
  | succ s ih =>
    have step : (ExtendedMantissa.ofMantissaAndAccuracy m .exact >>> (s + 1)) =
        (ExtendedMantissa.ofMantissaAndAccuracy m .exact >>> s).shiftRightOne := rfl
    have dropped : m % 2 ^ (s + 1) = 2 ^ s * (m / 2 ^ s % 2) + m % 2 ^ s := by
      rw [Nat.pow_succ, Nat.mod_mul, Nat.add_comm]
    have bound : m % 2 ^ s < 2 ^ s := Nat.mod_lt _ (Nat.two_pow_pos s)
    have rest : 2 * (m % 2 ^ (s + 1)) % 2 ^ (s + 1) = 2 * (m % 2 ^ s) := by
      rw [dropped, Nat.mul_add, ← Nat.mul_assoc, ← Nat.pow_succ', Nat.mul_add_mod,
        Nat.mod_eq_of_lt (by rw [Nat.pow_succ']; omega)]
    rw [step, ih, ExtendedMantissa.shiftRightOne, rest]
    congr 1
    · rw [Nat.div_div_eq_div_mul, Nat.pow_succ]
    · rw [dropped, Nat.pow_succ]
      rcases Nat.mod_two_eq_zero_or_one (m / 2 ^ s) with even | odd
      · simp [even]
        omega
      · simp [odd]
        omega
    · by_cases none : m % 2 ^ s = 0
      · simp [none]
      · by_cases half : 2 ^ s ≤ 2 * (m % 2 ^ s)
        · simp [half, none]
        · simp [half, none, Nat.mod_eq_of_lt (Nat.lt_of_not_le half)]

theorem roundedMantissa_shiftRight (m s : Nat) :
    (ExtendedMantissa.ofMantissaAndAccuracy m .exact >>> s).roundedMantissa =
      divNearest .toEven m (2 ^ s) := by
  have bound : m % 2 ^ s < 2 ^ s := Nat.mod_lt _ (Nat.two_pow_pos s)
  rw [shiftRight_exact, ExtendedMantissa.roundedMantissa, divNearest]
  rcases Nat.lt_trichotomy (2 * (m % 2 ^ s)) (2 ^ s) with less | half | more
  · rw [if_pos less, Nat.mod_eq_of_lt less, decide_eq_false (Nat.not_le_of_lt less)]
    by_cases none : 2 * (m % 2 ^ s) = 0
    · rw [decide_eq_false (not_not.mpr none)]
      rfl
    · rw [decide_eq_true none]
      rfl
  · rw [half, Nat.mod_self, if_neg (Nat.lt_irrefl _), if_neg (Nat.lt_irrefl _)]
    rcases Nat.mod_two_eq_zero_or_one (m / 2 ^ s) with even | odd
    · simp [ExtendedMantissa.accuracy, Accuracy.roundToNearestEven, Tie.rises, even]
    · simp [ExtendedMantissa.accuracy, Accuracy.roundToNearestEven, Tie.rises, odd]
  · have sticky : 2 * (m % 2 ^ s) % 2 ^ s ≠ 0 := by
      rw [Nat.mod_eq_sub_mod (Nat.le_of_lt more), Nat.mod_eq_of_lt (by omega)]
      omega
    rw [if_neg (Nat.lt_asymm more), if_pos more, decide_eq_true (Nat.le_of_lt more),
      decide_eq_true sticky]
    rfl

theorem shiftToTargetExponent_eq {m l s : Nat} {e : Int} (total : (m.log2 : Int) + e = l)
    (shift : e + s = l - 52) :
    shiftToTargetExponent .binary64 m e .exact =
      (ExtendedMantissa.ofMantissaAndAccuracy m .exact >>> s, (l - 52 : Int)) := by
  have target : Format.binary64.targetExponent (totalExponent m e) = l - 52 := by
    simp only [Format.targetExponent, totalExponent, Format.mantissaBits, Format.minExponent]
    norm_num
    omega
  have amount : ((l - 52 : Int) - e).toNat = s := by omega
  rw [shiftToTargetExponent, target, shiftToExponent, amount, shift]

variable {m k j c : Nat}

theorem log2_of_mul_two_pow (pos : 0 < k) (value : m * 2 ^ j = k * 2 ^ c)
    (le : j ≤ k.log2 + c) : m.log2 + j = k.log2 + c := by
  obtain ⟨t, split⟩ := Nat.exists_eq_add_of_le' le
  have low : 2 ^ k.log2 ≤ k := Nat.log2_self_le (Nat.ne_of_gt pos)
  have high : k < 2 ^ (k.log2 + 1) := Nat.lt_log2_self
  have power : 2 ^ k.log2 * 2 ^ c = 2 ^ t * 2 ^ j := by rw [← Nat.pow_add, ← Nat.pow_add, split]
  have power' : 2 ^ (k.log2 + 1) * 2 ^ c = 2 ^ (t + 1) * 2 ^ j := by
    rw [Nat.pow_succ, Nat.pow_succ, Nat.mul_right_comm, power, Nat.mul_right_comm]
  have lower : 2 ^ t ≤ m := by
    refine Nat.le_of_mul_le_mul_right ?_ (Nat.two_pow_pos j)
    rw [← power, value]
    exact Nat.mul_le_mul_right _ low
  have upper : m < 2 ^ (t + 1) := by
    refine Nat.lt_of_mul_lt_mul_right (a := 2 ^ j) ?_
    rw [← power', value]
    exact Nat.mul_lt_mul_of_pos_right high (Nat.two_pow_pos c)
  have digits : m.log2 = t :=
    (Nat.log2_eq_iff (Nat.ne_of_gt (Nat.lt_of_lt_of_le (Nat.two_pow_pos t) lower))).mpr
      ⟨lower, upper⟩
  omega

theorem divNearest_shift {s : Nat} (value : m * 2 ^ j = k * 2 ^ c)
    (shift : s + j + 52 = k.log2 + c) :
    divNearest .toEven m (2 ^ s) * 2 ^ k.log2 = nearestMagnitude k * 2 ^ 52 := by
  have scaled : divNearest .toEven m (2 ^ s) = divNearest .toEven (k * 2 ^ c) (2 ^ (s + j)) := by
    rw [← divNearest_mul_right (Nat.two_pow_pos j), value, ← Nat.pow_add]
  rw [scaled]
  rcases Nat.le_total k.log2 52 with small | large
  · obtain ⟨t, split⟩ := Nat.exists_eq_add_of_le' small
    have exact : k * 2 ^ c = k * 2 ^ t * 2 ^ (s + j) := by
      rw [Nat.mul_assoc, ← Nat.pow_add]
      congr 2
      omega
    rw [exact, divNearest_mul_self (Nat.two_pow_pos _), nearestMagnitude_of_log2_le small,
      Nat.mul_assoc, ← Nat.pow_add, split]
  · obtain ⟨t, split⟩ := Nat.exists_eq_add_of_le' large
    have unit : spacing k = 2 ^ t := by rw [spacing, split, Nat.add_sub_cancel]
    have divisor : s + j = t + c := by omega
    rw [divisor, Nat.pow_add, divNearest_mul_right (Nat.two_pow_pos c), nearestMagnitude, unit,
      split, Nat.pow_add, Nat.mul_assoc]

/-- Rounding gives the nearest number, if there are digits enough to drop. -/
theorem stands_roundWithAccuracy (s : Sign) (pos : 0 < k) (value : m * 2 ^ j = k * 2 ^ c)
    (le : j + 52 ≤ k.log2 + c) :
    Stands (roundWithAccuracy .binary64 s m (j - c) .exact) (s.apply (nearestMagnitude k)) := by
  obtain ⟨t, split⟩ := Nat.exists_eq_add_of_le' le
  have digits := log2_of_mul_two_pow pos value (by omega)
  have positive : m ≠ 0 := by
    rintro rfl
    rw [Nat.zero_mul] at value
    have := Nat.mul_pos pos (Nat.two_pow_pos c)
    omega
  generalize quotient : divNearest .toEven m (2 ^ t) = q
  have scaled : q * 2 ^ k.log2 = nearestMagnitude k * 2 ^ 52 := by
    rw [← quotient]
    exact divNearest_shift value (by omega)
  have low : 2 ^ 52 ≤ q := by
    rw [← quotient]
    refine le_divNearest_of_mul_le (Nat.two_pow_pos t) ?_
    rw [← Nat.pow_add, ← Nat.le_log2 positive]
    omega
  have high : q ≤ 2 ^ 53 := by
    rw [← quotient]
    refine divNearest_le_of_lt_mul (Nat.two_pow_pos t) ?_
    rw [← Nat.pow_add, ← Nat.log2_lt positive]
    omega
  rw [roundWithAccuracy, shiftToTargetExponent_eq (l := k.log2) (s := t) (by omega) (by omega)]
  dsimp only
  rw [roundedMantissa_shiftRight, quotient]
  rcases Nat.lt_or_eq_of_le high with lt | rfl
  · -- The mantissa keeps its number of digits.
    have log : q.log2 = 52 := (Nat.log2_eq_iff (by omega)).mpr ⟨low, lt⟩
    rw [shiftToTargetExponent_eq (l := k.log2) (s := 0) (by omega) (by omega)]
    have same : (ExtendedMantissa.ofMantissaAndAccuracy q .exact >>> 0).mantissa = q := rfl
    dsimp only
    rw [dif_neg (by rw [same]; omega)]
    exact .finite s _ low lt scaled
  · -- Rounding has given the mantissa one more digit, a zero.
    have log : (2 ^ 53 : Nat).log2 = 53 := Nat.log2_two_pow
    rw [shiftToTargetExponent_eq (l := k.log2 + 1) (s := 1) (by omega) (by omega)]
    have half : (ExtendedMantissa.ofMantissaAndAccuracy (2 ^ 53) .exact >>> 1).mantissa = 2 ^ 52 :=
      rfl
    dsimp only
    rw [dif_neg (by rw [half]; decide)]
    refine .finite s _ (Nat.le_refl _) (by decide) ?_
    rw [← scaled, half, Nat.pow_succ]
    omega

theorem stands_round (s : Sign) (pos : 0 < k) (value : m * 2 ^ j = k * 2 ^ c) :
    Stands (round .binary64 s m (j - c)) (s.apply (nearestMagnitude k)) := by
  have positive : 0 < m := by
    refine Nat.pos_of_ne_zero ?_
    rintro rfl
    rw [Nat.zero_mul] at value
    have := Nat.mul_pos pos (Nat.two_pow_pos c)
    omega
  have order : j ≤ k.log2 + c := by
    have lt : 2 ^ j < 2 ^ (k.log2 + 1 + c) := by
      calc 2 ^ j ≤ m * 2 ^ j := Nat.le_mul_of_pos_left _ positive
        _ = k * 2 ^ c := value
        _ < 2 ^ (k.log2 + 1) * 2 ^ c :=
          Nat.mul_lt_mul_of_pos_right Nat.lt_log2_self (Nat.two_pow_pos c)
        _ = 2 ^ (k.log2 + 1 + c) := (Nat.pow_add ..).symm
    have := (Nat.pow_lt_pow_iff_right Nat.one_lt_two).mp lt
    omega
  have digits := log2_of_mul_two_pow pos value order
  have target : Format.binary64.targetExponent (totalExponent m (j - c)) = k.log2 - 52 := by
    simp only [Format.targetExponent, totalExponent, Format.mantissaBits, Format.minExponent]
    norm_num
    omega
  rw [UnpackedFloat.round, target]
  rcases Nat.le_total (j + 52) (k.log2 + c) with le | le
  · have none : ((j - c : Int) - (k.log2 - 52)).toNat = 0 := by omega
    simp only [decreaseExponent, none, Nat.shiftLeft_zero, Int.natCast_zero, Int.sub_zero]
    exact stands_roundWithAccuracy s pos value le
  · -- Digits are filled in so that there are fifty-three.
    obtain ⟨u, split⟩ := Nat.exists_eq_add_of_le' le
    have filled : ((j - c : Int) - (k.log2 - 52)).toNat = u := by omega
    have exponent : (j - c : Int) - u = (k.log2 + c : Nat) - (c + 52 : Nat) := by omega
    simp only [decreaseExponent, filled, exponent, Nat.shiftLeft_eq]
    refine stands_roundWithAccuracy s pos ?_ (by omega)
    rw [Nat.mul_assoc, ← Nat.pow_add, ← split, Nat.pow_add, ← Nat.mul_assoc, value, Nat.mul_assoc,
      ← Nat.pow_add]

theorem nearest_of_pos {n : Int} (pos : 0 < n) : nearest n = nearestMagnitude n.natAbs := by
  rw [nearest, signed, if_neg (by simp; omega)]

theorem nearest_of_neg {n : Int} (neg : n < 0) : nearest n = -nearestMagnitude n.natAbs := by
  rw [nearest, signed, if_pos (by simpa using neg)]

theorem stands_normalize {a n : Int} (value : a * 2 ^ j = n * 2 ^ c) (zero : Sign) :
    Stands (normalize .binary64 a (j - c) zero) (nearest n) := by
  have unit (i : Nat) : (0 : Int) < 2 ^ i := Int.pow_pos (by decide)
  have magnitude : a.natAbs * 2 ^ j = n.natAbs * 2 ^ c := by
    have := congrArg Int.natAbs value
    simpa [Int.natAbs_mul, Int.natAbs_pow] using this
  rw [UnpackedFloat.normalize]
  rcases Int.lt_trichotomy a 0 with neg | rfl | pos
  · have negative : n < 0 := by
      by_contra nonneg
      have := Int.mul_neg_of_neg_of_pos neg (unit j)
      have := Int.mul_nonneg (Int.not_lt.mp nonneg) (Int.le_of_lt (unit c))
      omega
    rw [Int.compare_eq_lt.mpr neg, nearest_of_neg negative]
    have toNat : (-a).toNat = a.natAbs := by omega
    dsimp only
    rw [toNat]
    exact stands_round .negative (by omega) magnitude
  · have none : n = 0 := by
      rw [Int.zero_mul] at value
      exact (Int.mul_eq_zero.mp value.symm).resolve_right (Int.ne_of_gt (unit c))
    rw [none, nearest_of_le (n := 0) (by decide)]
    exact .zero zero
  · have positive : 0 < n := by
      by_contra nonpos
      have := Int.mul_pos pos (unit j)
      have := Int.mul_nonpos_of_nonpos_of_nonneg (Int.not_lt.mp nonpos) (Int.le_of_lt (unit c))
      omega
    rw [Int.compare_eq_gt.mpr pos, nearest_of_pos positive]
    have toNat : a.toNat = a.natAbs := by omega
    dsimp only
    rw [toNat]
    exact stands_round .positive (by omega) magnitude

end Rounding

namespace Stands

variable {u v : UnpackedFloat} {a b n : Int}

theorem two_pow_le {m l k : Nat} (low : 2 ^ 52 ≤ m) (value : m * 2 ^ l = k * 2 ^ 52) :
    2 ^ l ≤ k := by
  refine Nat.le_of_mul_le_mul_right ?_ (Nat.two_pow_pos 52)
  rw [← value, Nat.mul_comm]
  exact Nat.mul_le_mul_right _ low

theorem unpackSign_packComponents (s : Sign) (e : BitVec 11) (m : BitVec 52) :
    Sign.ofBitVec (unpackSign (packComponents .binary64 s e m)) = s := by
  have sign : unpackSign (packComponents .binary64 s e m) = s.toBitVec := by
    simp only [unpackSign, packComponents, BitVec.extractLsb]
    rw [BitVec.extractLsb'_append_eq_of_le (by omega),
      BitVec.extractLsb'_append_eq_of_le (by omega)]
    cases s <;> rfl
  rw [sign]
  cases s <;> rfl

theorem unpack_pack (stands : Stands u n) (bound : n.natAbs < 2 ^ 200) :
    (Float.Model.pack u).unpack = u := by
  cases stands with
  | zero s => cases s <;> rfl
  | @finite s m l k pos low high value =>
    have size : (s.apply k).natAbs = k := by cases s <;> simp [Sign.apply]
    have exponent : l < 200 := by
      rw [size] at bound
      exact (Nat.pow_lt_pow_iff_right Nat.one_lt_two).mp
        (Nat.lt_of_le_of_lt (two_pow_le low value) bound)
    have digits : m.log2 = 52 := (Nat.log2_eq_iff (by omega)).mpr ⟨low, high⟩
    have biased : ((l - 52 : Int) + Format.binary64.exponentBias +
        Format.binary64.mantissaBitsWithoutImplicit).toNat = l + 1023 := by
      change ((l - 52 : Int) + (1023 : Nat) + (52 : Nat)).toNat = _
      omega
    have mantissa : (1#1 ++ BitVec.ofNat 52 m).toNat = m := by
      rw [BitVec.toNat_append, ← Nat.shiftLeft_add_eq_or_of_lt (BitVec.ofNat 52 m).isLt,
        BitVec.toNat_ofNat, Nat.shiftLeft_eq]
      simp
      omega
    have notLast : BitVec.ofNat 11 (l + 1023) ≠ -1#11 := fun same => by
      have := congrArg BitVec.toNat same
      simp at this
      omega
    have notFirst : BitVec.ofNat 11 (l + 1023) ≠ 0#11 := fun same => by
      have := congrArg BitVec.toNat same
      simp at this
      omega
    have packed : UnpackedFloat.pack .binary64 (.finite s m (l - 52) pos) =
        packComponents .binary64 s (BitVec.ofNat 11 (l + 1023)) (BitVec.ofNat 52 m) := by
      simp only [UnpackedFloat.pack, biased, digits]
      rw [if_neg (by omega)]
      exact if_pos rfl
    change UnpackedFloat.unpack .binary64 (UnpackedFloat.pack .binary64 _) = _
    rw [packed, UnpackedFloat.unpack]
    simp only [unpackMantissa_packComponents, unpackExponent_packComponents,
      unpackSign_packComponents]
    rw [if_neg notLast, if_neg notFirst]
    have difference : ((BitVec.ofNat 11 (l + 1023)).toNat : Int) -
        (Format.binary64.exponentBias + Format.binary64.mantissaBitsWithoutImplicit) = l - 52 := by
      change ((BitVec.ofNat 11 (l + 1023)).toNat : Int) - ((1023 : Nat) + (52 : Nat)) = _
      rw [BitVec.toNat_ofNat, Nat.mod_eq_of_lt (by omega)]
      omega
    simp only [finite.injEq]
    exact ⟨trivial, mantissa, difference⟩

theorem denotes (stands : Stands u n) (bound : n.natAbs < 2 ^ 200) :
    Denotes (.ofModel (.pack u)) n := by
  change Stands (Float.Model.pack u).unpack n
  rwa [stands.unpack_pack bound]

theorem neg (stands : Stands u n) : Stands u.neg (-n) := by
  cases stands with
  | zero s => exact .zero _
  | @finite s m l k pos low high value =>
    have flipped : -s.apply k = (-s).apply k := by
      cases s
      · exact Int.neg_neg _
      · rfl
    rw [flipped]
    exact .finite (-s) pos low high value

theorem log2_eq {m l k : Nat} (low : 2 ^ 52 ≤ m) (high : m < 2 ^ 53)
    (value : m * 2 ^ l = k * 2 ^ 52) : k.log2 = l := by
  have least := two_pow_le low value
  have filled : k ≠ 0 := Nat.ne_of_gt (Nat.lt_of_lt_of_le (Nat.two_pow_pos l) least)
  refine (Nat.log2_eq_iff filled).mpr ⟨least, ?_⟩
  refine Nat.lt_of_mul_lt_mul_right (a := 2 ^ 52) ?_
  rw [← value, Nat.pow_succ, Nat.mul_assoc, Nat.mul_comm]
  exact Nat.mul_lt_mul_of_pos_left high (Nat.two_pow_pos l)

theorem nearest_apply (s : Sign) (k : Nat) :
    nearest (s.apply k) = s.apply (nearestMagnitude k) := by
  cases s
  · exact (nearest_neg k).trans (congrArg _ (nearest_ofNat k))
  · exact nearest_ofNat k

theorem nearest_eq (stands : Stands u n) : nearest n = n := by
  cases stands with
  | zero s => exact nearest_of_le (by decide)
  | @finite s m l k pos low high value =>
    have log := log2_eq low high value
    rw [nearest_apply]
    congr 2
    rcases Nat.le_total l 52 with small | large
    · exact nearestMagnitude_of_log2_le (by omega)
    · obtain ⟨t, rfl⟩ := Nat.exists_eq_add_of_le' large
      have multiple : m * 2 ^ t = k := by
        refine Nat.eq_of_mul_eq_mul_right (Nat.two_pow_pos 52) ?_
        rw [← value, Nat.mul_assoc, Nat.pow_add]
      rw [nearestMagnitude, spacing, log, Nat.add_sub_cancel, ← multiple,
        divNearest_mul_self (Nat.two_pow_pos t)]

end Stands

theorem nearest_nearest (n : Int) : nearest (nearest n) = nearest n := by
  have stands := stands_normalize (rfl : n * 2 ^ 0 = n * 2 ^ 0) .positive
  exact stands.nearest_eq

namespace Stands

variable {u v : UnpackedFloat} {a b n : Int}

theorem mul_one (stands : Stands u n) (pos : 0 < 2 ^ 52) :
    Stands (UnpackedFloat.mul .binary64 u (.finite .positive (2 ^ 52) (-52) pos)) n := by
  rw [← stands.nearest_eq]
  cases stands with
  | zero s => exact .zero _
  | @finite s m l k positive low high value =>
    have exponent : (l - 52 : Int) + -52 = l - (104 : Nat) := by omega
    have unsigned : s * .positive = s := by cases s <;> rfl
    have filled : 0 < k := Nat.lt_of_lt_of_le (Nat.two_pow_pos l) (two_pow_le low value)
    rw [UnpackedFloat.mul, exponent, unsigned, nearest_apply]
    refine stands_roundWithAccuracy s filled ?_ (by rw [log2_eq low high value]; omega)
    rw [Nat.mul_right_comm, value, Nat.mul_assoc, ← Nat.pow_add]

theorem apply_decreaseExponent (s : Sign) {m l k i : Nat} (value : m * 2 ^ l = k * 2 ^ 52)
    (le : i ≤ l) :
    s.apply (decreaseExponent m (l - 52) (i - 52)).1 * 2 ^ i = s.apply k * 2 ^ 52 := by
  obtain ⟨t, rfl⟩ := Nat.exists_eq_add_of_le' le
  have amount : (((t + i : Nat) - 52 : Int) - (i - 52)).toNat = t := by omega
  have magnitude : m * 2 ^ t * 2 ^ i = k * 2 ^ 52 := by rw [← value, Nat.mul_assoc, ← Nat.pow_add]
  have whole : ((m * 2 ^ t : Nat) : Int) * 2 ^ i = k * 2 ^ 52 := by exact_mod_cast magnitude
  simp only [decreaseExponent, amount, Nat.shiftLeft_eq]
  cases s
  · simpa only [Sign.apply, Int.neg_mul, neg_inj] using whole
  · exact whole

theorem add (left : Stands u a) (right : Stands v b) :
    Stands (UnpackedFloat.add .binary64 u v) (nearest (a + b)) := by
  cases left with
  | zero s =>
    rw [Int.zero_add, right.nearest_eq]
    cases right with
    | zero s' =>
      simp only [UnpackedFloat.add]
      split <;> exact .zero _
    | @finite s' m l k pos low high value => exact .finite s' pos low high value
  | @finite s m l k pos low high value =>
    cases right with
    | zero s' =>
      rw [Int.add_zero, (Stands.finite s pos low high value).nearest_eq]
      exact .finite s pos low high value
    | @finite s' m' l' k' pos' low' high' value' =>
      have least : min (l - 52 : Int) (l' - 52) = (min l l' : Nat) - (52 : Nat) := by omega
      have first := apply_decreaseExponent s value (Nat.min_le_left l l')
      have second := apply_decreaseExponent s' value' (Nat.min_le_right l l')
      simp only [UnpackedFloat.add, least]
      refine stands_normalize ?_ .positive
      rw [Int.add_mul, Int.add_mul]
      exact congrArg₂ (· + ·) first second

theorem compare_magnitudes {m l k m' l' k' : Nat} (low : 2 ^ 52 ≤ m) (high : m < 2 ^ 53)
    (value : m * 2 ^ l = k * 2 ^ 52) (low' : 2 ^ 52 ≤ m') (high' : m' < 2 ^ 53)
    (value' : m' * 2 ^ l' = k' * 2 ^ 52) :
    (compare (l - 52 : Int) (l' - 52)).then (compare m m') = compare k k' := by
  have least := two_pow_le low value
  have least' := two_pow_le low' value'
  have most : k < 2 ^ (l + 1) := log2_eq low high value ▸ Nat.lt_log2_self
  have most' : k' < 2 ^ (l' + 1) := log2_eq low' high' value' ▸ Nat.lt_log2_self
  rcases Nat.lt_trichotomy l l' with lt | rfl | gt
  · have below : k < k' :=
      Nat.lt_of_lt_of_le most (Nat.le_trans (Nat.pow_le_pow_right Nat.two_pos lt) least')
    rw [Int.compare_eq_lt.mpr (by omega), Nat.compare_eq_lt.mpr below]
    rfl
  · have order {m m' k k' : Nat} (value : m * 2 ^ l = k * 2 ^ 52)
        (value' : m' * 2 ^ l = k' * 2 ^ 52) : k < k' ↔ m < m' := by
      rw [← Nat.mul_lt_mul_right (Nat.two_pow_pos 52), ← value, ← value',
        Nat.mul_lt_mul_right (Nat.two_pow_pos l)]
    have up := order value value'
    have down := order value' value
    rw [Int.compare_eq_eq.mpr rfl]
    change compare m m' = compare k k'
    rcases Nat.lt_trichotomy k k' with less | same | more
    · rw [Nat.compare_eq_lt.mpr less, Nat.compare_eq_lt.mpr (up.mp less)]
    · rw [Nat.compare_eq_eq.mpr same, Nat.compare_eq_eq.mpr (by omega)]
    · rw [Nat.compare_eq_gt.mpr more, Nat.compare_eq_gt.mpr (down.mp more)]
  · have above : k' < k :=
      Nat.lt_of_lt_of_le most' (Nat.le_trans (Nat.pow_le_pow_right Nat.two_pos gt) least)
    rw [Int.compare_eq_gt.mpr (by omega), Nat.compare_eq_gt.mpr above]
    rfl

theorem compare_apply_positive (k k' : Nat) :
    compare (Sign.positive.apply k) (Sign.positive.apply k') = compare k k' := by
  simp only [Sign.apply]
  rcases Nat.lt_trichotomy k k' with less | same | more
  · rw [Nat.compare_eq_lt.mpr less, Int.compare_eq_lt.mpr (by omega)]
  · rw [Nat.compare_eq_eq.mpr same, Int.compare_eq_eq.mpr (by omega)]
  · rw [Nat.compare_eq_gt.mpr more, Int.compare_eq_gt.mpr (by omega)]

theorem compare_apply_negative (k k' : Nat) :
    compare (Sign.negative.apply k) (Sign.negative.apply k') = (compare k k').swap := by
  simp only [Sign.apply]
  rcases Nat.lt_trichotomy k k' with less | same | more
  · rw [Nat.compare_eq_lt.mpr less, Int.compare_eq_gt.mpr (by omega)]
    rfl
  · rw [Nat.compare_eq_eq.mpr same, Int.compare_eq_eq.mpr (by omega)]
    rfl
  · rw [Nat.compare_eq_gt.mpr more, Int.compare_eq_lt.mpr (by omega)]
    rfl

theorem magnitude_pos {m l k : Nat} (low : 2 ^ 52 ≤ m) (value : m * 2 ^ l = k * 2 ^ 52) : 0 < k :=
  Nat.lt_of_lt_of_le (Nat.two_pow_pos l) (two_pow_le low value)

theorem compare_eq (left : Stands u a) (right : Stands v b) :
    u.compare v = some (compare a b) := by
  cases left with
  | zero s =>
    cases right with
    | zero s' => rfl
    | @finite s' m l k pos low high value =>
      have filled := magnitude_pos low value
      cases s' with
      | negative => exact congrArg some (Int.compare_eq_gt.mpr (by simp [Sign.apply, filled])).symm
      | positive => exact congrArg some (Int.compare_eq_lt.mpr (by simp [Sign.apply, filled])).symm
  | @finite s m l k pos low high value =>
    have filled := magnitude_pos low value
    cases right with
    | zero s' =>
      cases s with
      | negative => exact congrArg some (Int.compare_eq_lt.mpr (by simp [Sign.apply, filled])).symm
      | positive => exact congrArg some (Int.compare_eq_gt.mpr (by simp [Sign.apply, filled])).symm
    | @finite s' m' l' k' pos' low' high' value' =>
      have filled' := magnitude_pos low' value'
      have magnitudes := compare_magnitudes low high value low' high' value'
      cases s with
      | negative =>
        cases s' with
        | negative =>
          rw [compare_apply_negative, ← magnitudes]
          rfl
        | positive =>
          exact congrArg some (Int.compare_eq_lt.mpr (by simp only [Sign.apply]; omega)).symm
      | positive =>
        cases s' with
        | negative =>
          exact congrArg some (Int.compare_eq_gt.mpr (by simp only [Sign.apply]; omega)).symm
        | positive =>
          rw [compare_apply_positive, ← magnitudes]
          rfl

end Stands

namespace Denotes

variable {x y : Float} {a b n : Int}

theorem lt_iff (left : Denotes x a) (right : Denotes y b) : x < y ↔ a < b := by
  have order := Stands.compare_eq left right
  have reading : x < y ↔ (x.toModel.unpack.compare y.toModel.unpack == some .lt) = true :=
    decide_eq_true_iff
  rw [reading, order, ← Int.compare_eq_lt]
  simp

theorem beq_iff (left : Denotes x a) (right : Denotes y b) : (x == y) = true ↔ a = b := by
  have order := Stands.compare_eq left right
  change (x.toModel.unpack.compare y.toModel.unpack == some .eq) = true ↔ _
  rw [order, ← Int.compare_eq_eq]
  simp

theorem add (left : Denotes x a) (right : Denotes y b)
    (bound : (nearest (a + b)).natAbs < 2 ^ 200) :
    Denotes (x + y) (nearest (a + b)) :=
  (Stands.add left right).denotes bound

end Denotes

theorem denotes_zero : Denotes 0.0 0 := .zero .positive

end ServerScript.Number
