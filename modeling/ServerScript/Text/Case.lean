import ServerScript.Text.CaseTables

/-! Small and capital forms of characters and texts. A single character may spell out as several;
a whole text additionally writes a sigma that ends a word in its final shape. -/
namespace ServerScript.Text

private def shifted (runs : List CaseRun) (c : Char) : Char :=
  match runs.find? (·.covers c.toNat) with
  | some run => Char.ofNat (c.toNat + run.shift).toNat
  | none => c

/-- The capital letter I with a dot above is the one letter whose small form takes two
characters: an i and a combining dot. -/
def dottedCapitalI : Char := Char.ofNat 0x130

def lowerChar (c : Char) : List Char :=
  if c.toNat < 0x80 then [c.toLower]
  else if c = dottedCapitalI then ['i', Char.ofNat 0x307]
  else [shifted lowerRuns c]

theorem lowerChar_cases {c : Char} (wide : 0x80 ≤ c.toNat) (single : c ≠ dottedCapitalI) :
    lowerChar c = [c] ∨ ∃ run ∈ lowerRuns, run.covers c.toNat = true ∧
      lowerChar c = [Char.ofNat (c.toNat + run.shift).toNat] := by
  rw [lowerChar, if_neg (Nat.not_lt.mpr wide), if_neg single, shifted]
  cases found : lowerRuns.find? (·.covers c.toNat) with
  | none => exact .inl rfl
  | some run =>
    have covers : run.covers c.toNat = true := by simpa using List.find?_some found
    exact .inr ⟨run, List.mem_of_find?_eq_some found, covers, rfl⟩

def upperChar (c : Char) : List Char :=
  if c.toNat < 0x80 then [c.toUpper]
  else
    match upperSpellings.find? (·.1 == c.toNat) with
    | some (_, spelling) => spelling.map Char.ofNat
    | none => [shifted upperRuns c]

/-- The first character of the small form, which keeps positions of a text unchanged. -/
def foldChar (c : Char) : Char := (lowerChar c).headD c

/-- Whether a character is a capital. Title-case digraphs are not, although they have a small
form, while some capitals have none. -/
def isCapital (c : Char) : Bool :=
  if c.toNat < 0x80 then c.isUpper
  else (lowerChar c != [c] && !titleCase.holds c.toNat) || bareCapitals.holds c.toNat

def capitalSigma : Char := 'Σ'

def meetsCased (cs : List Char) : Bool :=
  match cs.dropWhile fun c => caseIgnorable.holds c.toNat with
  | [] => false
  | c :: _ => cased.holds c.toNat

def lowerFrom : List Char → List Char → List Char
  | _, [] => []
  | before, c :: rest =>
    let form :=
      if c = capitalSigma then
        if meetsCased before && !meetsCased rest then ['ς'] else ['σ']
      else lowerChar c
    form ++ lowerFrom (c :: before) rest

def lower (text : String) : String := String.ofList (lowerFrom [] text.toList)

def upper (text : String) : String := String.ofList (text.toList.flatMap upperChar)

/-- Small forms in the ASCII range only, the comparison used for header-like keys. -/
def asciiLower (text : String) : String := text.map Char.toLower

def asciiEq (a b : String) : Bool := asciiLower a == asciiLower b

theorem asciiEq_eq_toList (a b : String) :
    asciiEq a b = (a.toList.map Char.toLower == b.toList.map Char.toLower) := by
  rw [asciiEq, asciiLower, asciiLower, Bool.eq_iff_iff, beq_iff_eq, beq_iff_eq, ← String.toList_inj,
    String.toList_map, String.toList_map]

theorem asciiEq_refl (a : String) : asciiEq a a = true := by simp [asciiEq]

theorem asciiEq_comm (a b : String) : asciiEq a b = asciiEq b a := by
  simp only [asciiEq]
  exact BEq.comm

end ServerScript.Text
