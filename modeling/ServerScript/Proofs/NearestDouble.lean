import Mathlib
import ServerScript.Number.Binary64

/-! The whole number that a double keeps of a whole number: the nearest one of fifty-three binary
digits, a half going to the even one. Whole numbers up to `2 ^ 53` are kept as they are, and the
order of two whole numbers is never turned round. -/
namespace ServerScript.Number

section Quotients

variable {tie : Tie} {n m d q : Nat}

theorem le_divNearest : n / d ≤ divNearest tie n d := by
  dsimp only [divNearest]
  split
  · exact Nat.le_refl _
  · split
    · exact Nat.le_succ _
    · split <;> omega

theorem divNearest_le_succ : divNearest tie n d ≤ n / d + 1 := by
  dsimp only [divNearest]
  split
  · exact Nat.le_succ _
  · split
    · exact Nat.le_refl _
    · split <;> omega

theorem divNearest_mul_self (pos : 0 < d) : divNearest tie (q * d) d = q := by
  simp only [divNearest, Nat.mul_div_cancel _ pos, Nat.mul_mod_left]
  rw [if_pos (by omega)]

theorem divNearest_mul_right {t : Nat} (pos : 0 < t) :
    divNearest tie (n * t) (d * t) = divNearest tie n d := by
  have below : 2 * (n % d * t) < d * t ↔ 2 * (n % d) < d := by
    rw [← Nat.mul_assoc, Nat.mul_lt_mul_right pos]
  have above : d * t < 2 * (n % d * t) ↔ d < 2 * (n % d) := by
    rw [← Nat.mul_assoc, Nat.mul_lt_mul_right pos]
  simp only [divNearest, Nat.mul_div_mul_right _ _ pos, Nat.mul_mod_mul_right, below, above]

theorem le_divNearest_of_mul_le (pos : 0 < d) (le : q * d ≤ n) : q ≤ divNearest tie n d := by
  calc q ≤ n / d := (Nat.le_div_iff_mul_le pos).mpr le
    _ ≤ divNearest tie n d := le_divNearest

theorem divNearest_le_of_lt_mul (pos : 0 < d) (lt : n < q * d) : divNearest tie n d ≤ q := by
  calc divNearest tie n d ≤ n / d + 1 := divNearest_le_succ
    _ ≤ q := (Nat.div_lt_iff_lt_mul pos).mpr lt

theorem divNearest_mono (le : n ≤ m) : divNearest tie n d ≤ divNearest tie m d := by
  rcases Nat.lt_or_ge (n / d) (m / d) with lt | ge
  · exact Nat.le_trans divNearest_le_succ (Nat.le_trans lt le_divNearest)
  · -- The quotients are the same, so that the remainders are in order.
    have same : n / d = m / d := Nat.le_antisymm (Nat.div_le_div_right le) ge
    have remainders : n % d ≤ m % d := by
      have first := Nat.div_add_mod n d
      have second := Nat.div_add_mod m d
      rw [same] at first
      omega
    dsimp only [divNearest]
    rw [same]
    split_ifs <;> omega

end Quotients

def spacing (k : Nat) : Nat := 2 ^ (k.log2 - 52)

def nearestMagnitude (k : Nat) : Nat := divNearest .toEven k (spacing k) * spacing k

def nearest (n : Int) : Int := signed (n < 0) (nearestMagnitude n.natAbs)

theorem spacing_pos (k : Nat) : 0 < spacing k := Nat.two_pow_pos _

theorem spacing_of_log2_le {k : Nat} (small : k.log2 ≤ 52) : spacing k = 1 := by
  rw [spacing, Nat.sub_eq_zero_of_le small, Nat.pow_zero]

theorem nearestMagnitude_of_log2_le {k : Nat} (small : k.log2 ≤ 52) : nearestMagnitude k = k := by
  rw [nearestMagnitude, spacing_of_log2_le small, Nat.mul_one]
  have quotient : divNearest .toEven (k * 1) 1 = k := divNearest_mul_self Nat.one_pos
  rwa [Nat.mul_one] at quotient

theorem nearestMagnitude_zero : nearestMagnitude 0 = 0 := nearestMagnitude_of_log2_le (by decide)

theorem two_pow_le_nearestMagnitude {k : Nat} (pos : 0 < k) : 2 ^ k.log2 ≤ nearestMagnitude k := by
  have le : 2 ^ k.log2 ≤ k := Nat.log2_self_le (Nat.ne_of_gt pos)
  rcases Nat.le_total k.log2 52 with small | large
  · rwa [nearestMagnitude_of_log2_le small]
  · have split : 2 ^ k.log2 = 2 ^ 52 * spacing k := by
      rw [spacing, ← Nat.pow_add, Nat.add_sub_cancel' large]
    rw [split] at le ⊢
    exact Nat.mul_le_mul_right _ (le_divNearest_of_mul_le (spacing_pos k) le)

theorem nearestMagnitude_le_two_pow (k : Nat) : nearestMagnitude k ≤ 2 ^ (k.log2 + 1) := by
  have lt : k < 2 ^ (k.log2 + 1) := Nat.lt_log2_self
  rcases Nat.le_total k.log2 52 with small | large
  · rw [nearestMagnitude_of_log2_le small]
    exact Nat.le_of_lt lt
  · have split : 2 ^ (k.log2 + 1) = 2 ^ 53 * spacing k := by
      rw [spacing, ← Nat.pow_add]
      congr 1
      omega
    rw [split] at lt ⊢
    exact Nat.mul_le_mul_right _ (divNearest_le_of_lt_mul (spacing_pos k) lt)

theorem nearestMagnitude_pos {k : Nat} (pos : 0 < k) : 0 < nearestMagnitude k := by
  calc 0 < 2 ^ Nat.log2 k := Nat.two_pow_pos _
    _ ≤ nearestMagnitude k := two_pow_le_nearestMagnitude pos

theorem nearestMagnitude_mono {j k : Nat} (le : j ≤ k) :
    nearestMagnitude j ≤ nearestMagnitude k := by
  rcases Nat.eq_zero_or_pos j with rfl | pos
  · rw [nearestMagnitude_zero]
    exact Nat.zero_le _
  · have positive : 0 < k := Nat.lt_of_lt_of_le pos le
    have order : j.log2 ≤ k.log2 := by
      rw [Nat.le_log2 (Nat.ne_of_gt positive)]
      exact Nat.le_trans (Nat.log2_self_le (Nat.ne_of_gt pos)) le
    rcases Nat.lt_or_eq_of_le order with lt | same
    · -- A power of two lies between the two magnitudes.
      calc nearestMagnitude j ≤ 2 ^ (j.log2 + 1) := nearestMagnitude_le_two_pow j
        _ ≤ 2 ^ k.log2 := Nat.pow_le_pow_right Nat.two_pos lt
        _ ≤ nearestMagnitude k := two_pow_le_nearestMagnitude positive
    · rw [nearestMagnitude, nearestMagnitude, spacing, spacing, same]
      exact Nat.mul_le_mul_right _ (divNearest_mono le)

theorem nearestMagnitude_of_lt {k : Nat} (lt : k < 2 ^ 53) : nearestMagnitude k = k := by
  refine nearestMagnitude_of_log2_le ?_
  rcases Nat.eq_zero_or_pos k with rfl | pos
  · decide
  · exact Nat.le_of_lt_succ ((Nat.log2_lt (Nat.ne_of_gt pos)).mpr lt)

theorem nearest_ofNat (k : Nat) : nearest k = nearestMagnitude k := by
  rw [nearest, signed, if_neg (by simp), Int.natAbs_natCast]

theorem nearest_neg (n : Int) : nearest (-n) = -nearest n := by
  rw [nearest, nearest, signed, signed, Int.natAbs_neg]
  rcases Int.lt_trichotomy n 0 with neg | rfl | pos
  · rw [if_neg (by simp; omega), if_pos (by simpa using neg), Int.neg_neg]
  · simp [nearestMagnitude_zero]
  · rw [if_pos (by simpa using pos), if_neg (by simp; omega)]

theorem nearest_negSucc (k : Nat) : nearest (.negSucc k) = -nearestMagnitude (k + 1) := by
  rw [Int.negSucc_eq, nearest_neg, ← nearest_ofNat, Int.natCast_succ]

theorem nearest_of_le {n : Int} (le : n.natAbs ≤ 2 ^ 53) : nearest n = n := by
  have magnitude : nearestMagnitude n.natAbs = n.natAbs := by
    rcases Nat.lt_or_eq_of_le le with lt | same
    · exact nearestMagnitude_of_lt lt
    · rw [same]
      decide +kernel
  rw [nearest, magnitude, signed]
  split <;> rename_i negative <;> simp at negative <;> omega

theorem nearest_mono {a b : Int} (le : a ≤ b) : nearest a ≤ nearest b := by
  cases b with
  | ofNat k =>
    cases a with
    | ofNat j =>
      rw [Int.ofNat_eq_natCast, Int.ofNat_eq_natCast, nearest_ofNat, nearest_ofNat]
      exact Int.ofNat_le.mpr (nearestMagnitude_mono (Int.ofNat_le.mp le))
    | negSucc j =>
      rw [nearest_negSucc, Int.ofNat_eq_natCast, nearest_ofNat]
      omega
  | negSucc k =>
    cases a with
    | ofNat j => exact absurd le (by simp; omega)
    | negSucc j =>
      rw [nearest_negSucc, nearest_negSucc]
      have order : nearestMagnitude (k + 1) ≤ nearestMagnitude (j + 1) :=
        nearestMagnitude_mono (by omega)
      omega

theorem nearest_zero : nearest 0 = 0 := nearest_of_le (by decide)

theorem zero_lt_nearest_iff {n : Int} : 0 < nearest n ↔ 0 < n := by
  constructor
  · intro pos
    by_contra le
    have := nearest_mono (Int.not_lt.mp le)
    rw [nearest_zero] at this
    omega
  · intro pos
    obtain ⟨k, rfl⟩ := Int.eq_ofNat_of_zero_le (Int.le_of_lt pos)
    rw [nearest_ofNat]
    exact_mod_cast nearestMagnitude_pos (by omega)

theorem nearest_lt_zero_iff {n : Int} : nearest n < 0 ↔ n < 0 := by
  have mirrored := zero_lt_nearest_iff (n := -n)
  rw [nearest_neg] at mirrored
  omega

end ServerScript.Number
