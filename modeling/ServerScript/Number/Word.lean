/-! Sixty-four-bit words as the integers of the language. The operations here are exact or
refuse: a result outside the word range is never wrapped without being asked for. -/
namespace ServerScript.Number

def wordMin : Int := -0x8000000000000000

def wordMax : Int := 0x7fffffffffffffff

def word? (n : Int) : Option Int64 :=
  if wordMin ≤ n ∧ n ≤ wordMax then some (Int64.ofInt n) else none

def clampWord (n : Int) : Int64 :=
  if n < wordMin then Int64.ofInt wordMin
  else if wordMax < n then Int64.ofInt wordMax
  else Int64.ofInt n

theorem toInt_ofInt_of_fits {n : Int} (low : wordMin ≤ n) (high : n ≤ wordMax) :
    (Int64.ofInt n).toInt = n := by
  rw [Int64.toInt_ofInt]
  unfold wordMin at low
  unfold wordMax at high
  apply Int.bmod_eq_of_le <;> simp [Int64.size] <;> omega

theorem toInt_of_word? {n : Int} {w : Int64} (h : word? n = some w) : w.toInt = n := by
  unfold word? at h
  split at h
  · rename_i fits
    cases h
    exact toInt_ofInt_of_fits fits.1 fits.2
  · cases h

theorem word?_toInt (w : Int64) : word? w.toInt = some w := by
  have low := Int64.minValue_le_toInt w
  have high := Int64.toInt_le w
  have fits : wordMin ≤ w.toInt ∧ w.toInt ≤ wordMax := by
    constructor
    · simpa [wordMin] using low
    · exact high
  simp [word?, fits, Int64.ofInt_toInt]

theorem exists_word?_iff {n : Int} : (∃ w, word? n = some w) ↔ wordMin ≤ n ∧ n ≤ wordMax := by
  unfold word?
  split <;> simp [*]

theorem toInt_mem (w : Int64) : wordMin ≤ w.toInt ∧ w.toInt ≤ wordMax :=
  exists_word?_iff.mp ⟨w, word?_toInt w⟩

def low32 (w : Int64) : Int32 := w.toInt32

/-- Whether a word fits sixteen bits, which decides how its kind is reported. -/
def fits16 (w : Int64) : Bool := -32768 ≤ w.toInt && w.toInt ≤ 32767

def fits32 (w : Int64) : Bool := -2147483648 ≤ w.toInt && w.toInt ≤ 2147483647

end ServerScript.Number
